import DaxiangVpn.DeviceAuthGenerations

/-!
# Invariant of the credential registry

Activations, credentials, their receipts, accepted requests and cancellations
refer to each other and to the devices and operations of the authority. A
credential has at most one successor, which was stored after it; a device has at
most one unrevoked credential; and no request is both accepted and cancelled.
-/

namespace DaxiangVpn.DeviceAuthRegistry

open DeviceAuthPolicy RelationTable DeviceAuthTables DeviceAuthSubmit List DeviceAuthCredentials
  DeviceAuthChanges
open HexTexts DeviceAuthGrowth DeviceAuthInvariant DeviceAuthGenerations

/-! ## Row predicates -/

structure ActivationOk (sc : Scope) (a : Authority) (x : ActivationRow) : Prop where
  id : lowerHex 32 x.activationId = true
  owner : identifier x.ownerId = true
  verifier : restoreSHA x.verifier = true
  /-- The window ended after some reading of the clock, within the validity. -/
  window : (∃ now, sc.time now ∧ now < x.activationUntil) ∧ x.activationUntil ≤ x.validUntil ∧
    x.validUntil < year2201
  consumed : x.consumedDevice = none ↔ x.consumedAt = none
  device : ∀ d, x.consumedDevice = some d →
    ∃ r ∈ a.devices, r.deviceId = d ∧ r.ownerId = x.ownerId ∧ r.validUntil = x.validUntil

structure CredentialOk (sc : Scope) (a : Authority) (g : Registry) (c : CredentialRow) : Prop where
  id : lowerHex 32 c.credentialId = true
  key : authKey c.publicKey = true
  device : ∃ r ∈ a.devices, r.deviceId = c.deviceId ∧ r.validUntil = c.validUntil
  live : c.revokedAt = none → c.replacedBy = none
  revoked : ∀ t, c.revokedAt = some t → sc.time t
  /-- The successor is another credential of the device. -/
  next : ∀ n, c.replacedBy = some n →
    ∃ c' ∈ g.credentials, c'.credentialId = n ∧ c'.deviceId = c.deviceId

/-- How a credential came about. -/
def Created (g : Registry) (x : CredentialReceiptRow) (c : CredentialRow) : Prop :=
  x.kind = .activate ∧ (∃ act ∈ g.activations, x.principalId = "activation:" ++ act.activationId ∧
      act.consumedDevice = some c.deviceId) ∨
    x.kind = .credentialRotate ∧ ∃ old ∈ g.credentials, old.credentialId = x.principalId ∧
      old.replacedBy = some c.credentialId ∧ old.deviceId = c.deviceId

structure ReceiptOk (g : Registry) (x : CredentialReceiptRow) : Prop where
  request : ∃ q ∈ g.requests, q.key = (x.principalId, x.requestId)
  /-- The credential exists and was created by the request. -/
  credential : ∃ c ∈ g.credentials, c.credentialId = x.credentialId ∧ c.publicKey = x.publicKey ∧
    Created g x c

/-- What the operation of a signed command has in common with its credential. -/
def SignedOperation (s : Store) (sc : Scope) (a : Authority) (c : CredentialRow) (id : String) :
    Prop :=
  ∃ o ∈ a.operations, o.operationId = id ∧ o.actorId = c.deviceId ∧ o.action ≠ .expire ∧
    ∃ cmd, sc.command cmd ∧ cmd.deviceId = c.deviceId ∧ o.requestDigest = s.prims.requestDigest cmd

/-- An accepted request in its database. -/
def RequestOk (s : Store) (sc : Scope) (a : Authority) (g : Registry) (q : RequestRow) : Prop :=
  (∃ x ∈ g.activations, q.principalId = "activation:" ++ x.activationId) ∧ q.operationId = none ∨
    ∃ c ∈ g.credentials, q.principalId = c.credentialId ∧
      ∀ id, q.operationId = some id → SignedOperation s sc a c id

structure CancellationOk (sc : Scope) (g : Registry) (x : CancellationRow) : Prop where
  name : identifier x.requestId = true
  kind : resolveKind x.kind = true
  key : authKey x.publicKey = true
  time : sc.time x.committedAt
  principal : CancelPrincipal g x.kind x.principalId x.deviceId
  free : ∀ q ∈ g.requests, q.key ≠ x.key

structure RegInv (s : Store) (sc : Scope) (a : Authority) (g : Registry) : Prop where
  activations : ∀ x ∈ g.activations, ActivationOk sc a x
  credentials : ∀ c ∈ g.credentials, CredentialOk sc a g c
  keys : ∀ c ∈ g.credentials, ∀ c' ∈ g.credentials, c.publicKey = c'.publicKey → c = c'
  single : ∀ c ∈ g.credentials, ∀ c' ∈ g.credentials, c.deviceId = c'.deviceId →
    c.revokedAt = none → c'.revokedAt = none → c = c'
  ordered : g.credentials.rows.Pairwise fun c c' => c'.replacedBy ≠ some c.credentialId
  irreflexive : ∀ c ∈ g.credentials, c.replacedBy ≠ some c.credentialId
  requests : ∀ q ∈ g.requests, RequestOk s sc a g q
  receipts : ∀ x ∈ g.receipts, ReceiptOk g x
  paired : g.receipts.rows.map CredentialReceiptRow.credentialId =
    g.credentials.rows.map CredentialRow.credentialId
  cancellations : ∀ x ∈ g.cancellations, CancellationOk sc g x
  audit : ∀ x ∈ g.audit, x.purpose = .activate → x.deviceId ≠ ""

/-- The whole invariant of the database. -/
structure DBInv (s : Store) (sc : Scope) (db : DB) : Prop where
  authority : AuthInv s sc db.toAuthority
  registry : RegInv s sc db.toAuthority db.toRegistry

/-! ## Growth of unchanged rows -/

variable {s : Store} {sc : Scope} {a a' : Authority} {g g' : Registry} {c : CredentialRow}
  {t : Table ChallengeRow.challengeId} {operation : Option String} {device : String}

theorem activationOk_grows (ha : AuthGrows a a') {x : ActivationRow} (h : ActivationOk sc a x) :
    ActivationOk sc a' x := by
  refine { h with device := fun d hd => ?_ }
  obtain ⟨r, hr, hid, howner, huntil⟩ := h.device d hd
  obtain ⟨r', hr', hgrow⟩ := ha.devices r hr
  exact ⟨r', hr', hgrow.same.1.trans hid, hgrow.same.2.1.trans howner, hgrow.same.2.2.trans huntil⟩

theorem credentialOk_grows (ha : AuthGrows a a') (hg : RegGrows g g')
    (h : CredentialOk sc a g c) : CredentialOk sc a' g' c := by
  refine { h with device := ?_, next := fun n hn => ?_ }
  · obtain ⟨r, hr, hid, huntil⟩ := h.device
    obtain ⟨r', hr', hgrow⟩ := ha.devices r hr
    exact ⟨r', hr', hgrow.same.1.trans hid, hgrow.same.2.2.trans huntil⟩
  · obtain ⟨c', hc', hid, hdev⟩ := h.next n hn
    obtain ⟨c'', hc'', hgrow⟩ := hg.credentials c' hc'
    exact ⟨c'', hc'', hgrow.same.1.trans hid, hgrow.same.2.1.trans hdev⟩

theorem created_grows (hg : RegGrows g g') {x : CredentialReceiptRow} {c' : CredentialRow}
    (hc : CredentialGrows c c') (h : Created g x c) : Created g' x c' := by
  obtain ⟨hid, hdev, -⟩ := hc.same
  rcases h with ⟨hkind, act, hact, hp, hcons⟩ | ⟨hkind, old, hold, hp, hrep, hodev⟩
  · obtain ⟨act', hact', hgrow⟩ := hg.activations act hact
    have hcons' : act'.consumedDevice = act.consumedDevice :=
      hgrow.device.resolve_left (by simp [hcons])
    refine .inl ⟨hkind, act', hact', ?_, ?_⟩
    · rw [hgrow.same.1, hp]
    · rw [hcons', hcons, hdev]
  · obtain ⟨old', hold', hgrow⟩ := hg.credentials old hold
    have hrep' : old'.replacedBy = old.replacedBy :=
      hgrow.replaced.resolve_left (by simp [hrep])
    refine .inr ⟨hkind, old', hold', hgrow.same.1.trans hp, ?_, ?_⟩
    · rw [hrep', hrep, hid]
    · rw [hgrow.same.2.1, hodev, hdev]

theorem receiptOk_grows (hg : RegGrows g g') {x : CredentialReceiptRow} (h : ReceiptOk g x) :
    ReceiptOk g' x where
  request := by
    obtain ⟨q, hq, hkey⟩ := h.request
    exact ⟨q, hg.requests q hq, hkey⟩
  credential := by
    obtain ⟨c, hc, hid, hkey, hcreated⟩ := h.credential
    obtain ⟨c', hc', hgrow⟩ := hg.credentials c hc
    exact ⟨c', hc', hgrow.same.1.trans hid, hgrow.same.2.2.1.trans hkey,
      created_grows hg hgrow hcreated⟩

theorem requestOk_grows (ha : AuthGrows a a') (hg : RegGrows g g') {q : RequestRow}
    (h : RequestOk s sc a g q) : RequestOk s sc a' g' q := by
  rcases h with ⟨⟨x, hx, hp⟩, hop⟩ | ⟨c, hc, hp, hop⟩
  · obtain ⟨x', hx', hgrow⟩ := hg.activations x hx
    exact .inl ⟨⟨x', hx', by rw [hgrow.same.1, hp]⟩, hop⟩
  obtain ⟨c', hc', hgrow⟩ := hg.credentials c hc
  obtain ⟨hid, hdev, -⟩ := hgrow.same
  refine .inr ⟨c', hc', hp.trans hid.symm, fun id hid => ?_⟩
  obtain ⟨o, ho, rest⟩ := hop id hid
  refine ⟨o, ha.operation ho, ?_⟩
  rw [hdev]
  exact rest

theorem cancelPrincipal_grows (hg : RegGrows g g') {kind : Purpose} {principal : String}
    (h : CancelPrincipal g kind principal device) : CancelPrincipal g' kind principal device := by
  rcases h with ⟨hkind, hdev, x, hx, hp⟩ | ⟨hkind, c, hc, hp, hdev⟩
  · obtain ⟨x', hx', hgrow⟩ := hg.activations x hx
    exact .inl ⟨hkind, hdev, x', hx', by rw [hgrow.same.1, hp]⟩
  · obtain ⟨c', hc', hgrow⟩ := hg.credentials c hc
    exact .inr ⟨hkind, c', hc', hp.trans hgrow.same.1.symm, hgrow.same.2.1.trans hdev⟩

theorem cancellationOk_grows (hg : RegGrows g g') {x : CancellationRow} (h : CancellationOk sc g x)
    (hfree : ∀ q ∈ g'.requests, q.key ≠ x.key) : CancellationOk sc g' x :=
  { h with principal := cancelPrincipal_grows hg h.principal, free := hfree }

theorem regInv_grows (ha : AuthGrows a a') (h : RegInv s sc a g) : RegInv s sc a' g :=
  { h with
    activations := fun x hx => activationOk_grows ha (h.activations x hx)
    credentials := fun c hc => credentialOk_grows ha (RegGrows.refl g) (h.credentials c hc)
    requests := fun q hq => requestOk_grows ha (RegGrows.refl g) (h.requests q hq) }

/-! ## Changes of the registry -/

section

variable {principal requestId credential : String} {purpose : Purpose} {audit : Table AuditRow.id}
  {requests : Table RequestRow.key}

theorem accepted_request
    (h : Accepted principal requestId operation purpose device credential g requests audit) :
    ∃ now, ∀ q, q ∈ requests ↔ q ∈ g.requests ∨ q = ⟨principal, requestId, now, operation⟩ := by
  obtain ⟨now, hins⟩ := h.recorded
  exact ⟨now, mem_of_insert hins⟩

theorem accepted_audit
    (h : Accepted principal requestId operation purpose device credential g requests audit) :
    ∃ id now, ∀ x, x ∈ audit ↔ x ∈ g.audit ∨ x =
      ⟨id, device, credential, purpose, requestId, now⟩ := by
  obtain ⟨id, now, hins⟩ := h.audited
  exact ⟨id, now, mem_of_insert hins⟩

/-- Accepting a request that is not cancelled leaves every cancelled one unaccepted. -/
theorem accepted_free (hinv : RegInv s sc a g)
    (h : Accepted principal requestId operation purpose device credential g requests audit) :
    ∀ x ∈ g.cancellations, ∀ q ∈ requests, q.key ≠ x.key := by
  obtain ⟨now, hmem⟩ := accepted_request h
  intro x hx q hq
  rcases (hmem q).mp hq with hq | rfl
  · exact (hinv.cancellations x hx).free q hq
  · exact fun hkey => h.live x hx hkey.symm

theorem mem_retire {old new : CredentialRow} {now : ℤ}
    {credentials : Table CredentialRow.credentialId} (hold : old ∈ g.credentials)
      (hlive : old.revokedAt = none) (hins : g.credentials.insert new = some credentials) :
      c ∈ retire old.credentialId new.credentialId now credentials ↔
    (c ∈ g.credentials ∧ c.credentialId ≠ old.credentialId) ∨ c = new ∨
    c = { old with revokedAt := some now, replacedBy := some new.credentialId } := by
  have hne : new.credentialId ≠ old.credentialId := fun h => (insert_eq_some hins).2 old hold h.symm
  have hin : old ∈ credentials := (mem_of_insert hins old).mpr (.inl hold)
  unfold retire
  rw [mem_update_single hin]
  · rw [mem_of_insert hins c, or_and_right, or_assoc]
    refine or_congr Iff.rfl (or_congr ?_ Iff.rfl)
    exact ⟨And.left, fun h => ⟨h, h ▸ hne⟩⟩
  intro y hy
  constructor
  · intro hp
    simp only [Bool.and_eq_true, decide_eq_true_eq] at hp
    exact hp.1
  · intro hk
    cases Table.eq_of_key hy hin hk
    simp [hlive]

theorem regChange_grows (hinv : RegInv s sc a g) (h : RegChange s sc a g g') : RegGrows g g' := by
  cases h with
  | challenges => exact { RegGrows.refl g with }
  | issue hnow howner hlater hle hyear h =>
    exact { RegGrows.refl g with activations := covers_insert ActivationGrows.refl h }
  | accept hc ho hactor haction hidem hdev hexpire hscope hdigest hacc =>
    obtain ⟨now, hreq⟩ := accepted_request hacc
    obtain ⟨n, now', haud⟩ := accepted_audit hacc
    exact { RegGrows.refl g with
      requests := fun q hq => (hreq q).mpr (.inl hq)
      audit := fun x hx => (haud x).mpr (.inl hx) }
  | @rotate old id key requestId now t requests audit credentials receipts hold hlive hkey hfresh
      hnow hacc hcred hrec =>
    obtain ⟨now', hreq⟩ := accepted_request hacc
    obtain ⟨n, now'', haud⟩ := accepted_audit hacc
    refine { RegGrows.refl g with
      credentials := ?_
      requests := fun q hq => (hreq q).mpr (.inl hq)
      receipts := fun x hx => (mem_of_insert hrec x).mpr (.inl hx)
      audit := fun x hx => (haud x).mpr (.inl hx) }
    intro c hc
    by_cases hk : c.credentialId = old.credentialId
    · cases Table.eq_of_key hc hold hk
      refine ⟨_, (mem_retire hold hlive hcred).mpr (.inr (.inr rfl)), ⟨rfl, rfl, rfl, rfl⟩,
        .inl hlive, .inl ((hinv.credentials old hold).live hlive)⟩
    · exact ⟨c, (mem_retire hold hlive hcred).mpr (.inl ⟨hc, hk⟩), CredentialGrows.refl c⟩
  | cancel hname hkind hkey hnow hprincipal hfree hcancel haudit =>
    exact { RegGrows.refl g with
      cancellations := fun x hx => (mem_of_insert hcancel x).mpr (.inl hx)
      audit := fun x hx => (mem_of_insert haudit x).mpr (.inl hx) }

/-- The registry after a change that leaves credentials and receipts alone. -/
theorem regInv_of_rows (hinv : RegInv s sc a g) (hg : RegGrows g g')
    (hcred : g'.credentials = g.credentials) (hrec : g'.receipts = g.receipts)
    (hacts : ∀ x ∈ g'.activations, x ∈ g.activations ∨ ActivationOk sc a x)
    (hreqs : ∀ q ∈ g'.requests, q ∈ g.requests ∨ RequestOk s sc a g' q)
    (hcans : ∀ x ∈ g'.cancellations, x ∈ g.cancellations ∨ CancellationOk sc g' x)
    (hfree : ∀ x ∈ g.cancellations, ∀ q ∈ g'.requests, q.key ≠ x.key)
    (haud : ∀ x ∈ g'.audit, x ∈ g.audit ∨ (x.purpose = .activate → x.deviceId ≠ "")) :
    RegInv s sc a g' where
  activations := fun x hx => (hacts x hx).elim (hinv.activations x) id
  credentials := by
    intro c hc
    exact credentialOk_grows (AuthGrows.refl a) hg (hinv.credentials c (hcred ▸ hc))
  keys := by
    rw [hcred]
    exact hinv.keys
  single := by
    rw [hcred]
    exact hinv.single
  ordered := by
    rw [hcred]
    exact hinv.ordered
  irreflexive := by
    rw [hcred]
    exact hinv.irreflexive
  requests := fun q hq =>
    (hreqs q hq).elim (fun h => requestOk_grows (AuthGrows.refl a) hg (hinv.requests q h)) id
  receipts := fun x hx => receiptOk_grows hg (hinv.receipts x (hrec ▸ hx))
  paired := by
    rw [hrec, hcred]
    exact hinv.paired
  cancellations := fun x hx =>
    (hcans x hx).elim (fun h => cancellationOk_grows hg (hinv.cancellations x h) (hfree x h)) id
  audit := fun x hx => (haud x hx).elim (hinv.audit x) id

/-! ### Rotation -/

section

variable {old : CredentialRow} {id : OpaqueId} {key : String} {now : ℤ}
  {credentials : Table CredentialRow.credentialId}

/-- The credential that a rotation adds. -/
def successor (old : CredentialRow) (id : OpaqueId) (key : String) : CredentialRow :=
  ⟨id.val, old.deviceId, key, old.validUntil, none, none⟩

/-- The credential that a rotation replaced. -/
def retired (old : CredentialRow) (id : OpaqueId) (now : ℤ) : CredentialRow :=
  { old with revokedAt := some now, replacedBy := some id.val }

/-- Rows after a rotation: the others, the successor and the replaced one. -/
theorem mem_rotated (hold : old ∈ g.credentials) (hlive : old.revokedAt = none)
    (hins : g.credentials.insert (successor old id key) = some credentials) :
    c ∈ retire old.credentialId id.val now credentials ↔
    (c ∈ g.credentials ∧ c.credentialId ≠ old.credentialId) ∨
    c = successor old id key ∨ c = retired old id now :=
  mem_retire hold hlive hins

theorem successor_fresh (hins : g.credentials.insert (successor old id key) = some credentials)
    (hc : c ∈ g.credentials) : c.credentialId ≠ id.val :=
  (insert_eq_some hins).2 c hc

theorem ordered_rotated (hinv : RegInv s sc a g) (hold : old ∈ g.credentials)
    (hins : g.credentials.insert (successor old id key) = some credentials) :
    (retire old.credentialId id.val now credentials).rows.Pairwise
      fun c c' => c'.replacedBy ≠ some c.credentialId := by
  have hne : id.val ≠ old.credentialId := (successor_fresh hins hold).symm
  dsimp only [retire, Table.update]
  rw [(insert_eq_some hins).1, map_append, pairwise_append]
  refine ⟨?_, pairwise_singleton _ _, ?_⟩
  · rw [pairwise_map]
    refine hinv.ordered.imp_of_mem ?_
    intro c c' hc _ hcc
    split
    · split <;> exact fun h => successor_fresh hins hc (Option.some.inj h).symm
    · split <;> exact hcc
  · intro c _ c' hc'
    simp only [map_cons, map_nil, mem_singleton] at hc'
    rw [if_neg (by simp [successor, hne])] at hc'
    subst hc'
    simp [successor]

section

variable (hinv : RegInv s sc a g) (hold : old ∈ g.credentials) (hlive : old.revokedAt = none)
  (hins : g.credentials.insert (successor old id key) = some credentials)
include hinv hold hlive hins

theorem credentialOk_rotated (hkey : authKey key = true) (hnow : sc.time now) (hg : RegGrows g g') (hcred : g'.credentials = retire old.credentialId id.val now credentials)
    (hc : c ∈ g'.credentials) : CredentialOk sc a g' c := by
  have hok := credentialOk_grows (AuthGrows.refl a) hg (hinv.credentials old hold)
  rw [hcred] at hc
  rcases (mem_rotated hold hlive hins).mp hc with ⟨hc, -⟩ | rfl | rfl
  · exact credentialOk_grows (AuthGrows.refl a) hg (hinv.credentials c hc)
  · exact ⟨id.hex, hkey, hok.device, fun _ => rfl, (fun _ h => nomatch h), fun _ h => nomatch h⟩
  refine { hok with live := (fun h => nomatch h), revoked := fun u hu => ?_, next := fun n hn => ?_ }
  · cases hu
    exact hnow
  · cases hn
    refine ⟨successor old id key, ?_, rfl, rfl⟩
    rw [hcred]
    exact (mem_rotated hold hlive hins).mpr (.inr (.inl rfl))

theorem keys_rotated (hfresh : ∀ c ∈ g.credentials, c.publicKey ≠ key) :
    ∀ c ∈ retire old.credentialId id.val now credentials,
      ∀ c' ∈ retire old.credentialId id.val now credentials, c.publicKey =
        c'.publicKey → c = c' := by
  intro c hc c' hc' heq
  rcases (mem_rotated hold hlive hins).mp hc with ⟨hc, hne⟩ | rfl | rfl <;>
    rcases (mem_rotated hold hlive hins).mp hc' with ⟨hc', hne'⟩ | rfl | rfl
  · exact hinv.keys c hc c' hc' heq
  · exact absurd heq (hfresh c hc)
  · exact absurd (congrArg CredentialRow.credentialId (hinv.keys c hc old hold heq)) hne
  · exact absurd heq.symm (hfresh c' hc')
  · rfl
  · exact absurd heq.symm (hfresh old hold)
  · exact absurd (congrArg CredentialRow.credentialId (hinv.keys c' hc' old hold heq.symm)) hne'
  · exact absurd heq (hfresh old hold)
  · rfl

theorem single_rotated :
    ∀ c ∈ retire old.credentialId id.val now credentials,
    ∀ c' ∈ retire old.credentialId id.val now credentials, c.deviceId = c'.deviceId →
    c.revokedAt = none → c'.revokedAt = none → c = c' := by
  have hother : ∀ c ∈ g.credentials, c.credentialId ≠ old.credentialId →
      c.deviceId = old.deviceId → c.revokedAt ≠ none := by
    intro c hc hne hdev hnone
    exact hne (congrArg CredentialRow.credentialId (hinv.single c hc old hold hdev hnone hlive))
  intro c hc c' hc' hdev hnone hnone'
  rcases (mem_rotated hold hlive hins).mp hc with ⟨hc, hne⟩ | rfl | rfl
  · rcases (mem_rotated hold hlive hins).mp hc' with ⟨hc', hne'⟩ | rfl | rfl
    · exact hinv.single c hc c' hc' hdev hnone hnone'
    · exact absurd hnone (hother c hc hne hdev)
    · cases hnone'
  · rcases (mem_rotated hold hlive hins).mp hc' with ⟨hc', hne'⟩ | rfl | rfl
    · exact absurd hnone' (hother c' hc' hne' hdev.symm)
    · rfl
    · cases hnone'
  · cases hnone

theorem irreflexive_rotated :
    ∀ c ∈ retire old.credentialId id.val now credentials, c.replacedBy ≠ some c.credentialId := by
  intro c hc
  rcases (mem_rotated hold hlive hins).mp hc with ⟨hc, -⟩ | rfl | rfl
  · exact hinv.irreflexive c hc
  · exact fun h => nomatch h
  · exact fun h => successor_fresh hins hold (Option.some.inj h).symm

theorem rotate_inv {receipts : Table CredentialReceiptRow.key} (hkey : authKey key = true)
    (hfresh : ∀ c ∈ g.credentials, c.publicKey ≠ key) (hnow : sc.time now)
    (hacc : Accepted old.credentialId requestId none .credentialRotate old.deviceId
      old.credentialId g requests audit)
    (hrec : g.receipts.insert ⟨.credentialRotate, requestId, key, old.credentialId, id.val⟩ =
      some receipts)
    (hg : RegGrows g { g with
      challenges := t, requests := requests, audit := audit,
      credentials := retire old.credentialId id.val now credentials, receipts := receipts }) :
    RegInv s sc a { g with
      challenges := t, requests := requests, audit := audit,
      credentials := retire old.credentialId id.val now credentials, receipts := receipts } where
  activations := hinv.activations
  credentials := fun c hc => credentialOk_rotated hinv hold hlive hins hkey hnow hg rfl hc
  keys := keys_rotated hinv hold hlive hins hfresh
  single := single_rotated hinv hold hlive hins
  ordered := ordered_rotated hinv hold hins
  irreflexive := irreflexive_rotated hinv hold hlive hins
  requests := by
    obtain ⟨now', hreq⟩ := accepted_request hacc
    intro q hq
    rcases (hreq q).mp hq with hq | rfl
    · exact requestOk_grows (AuthGrows.refl a) hg (hinv.requests q hq)
    · exact .inr ⟨retired old id now, (mem_rotated hold hlive hins).mpr (.inr (.inr rfl)), rfl,
        fun _ h => nomatch h⟩
  receipts := by
    obtain ⟨now', hreq⟩ := accepted_request hacc
    intro x hx
    rcases (mem_of_insert hrec x).mp hx with hx | rfl
    · exact receiptOk_grows hg (hinv.receipts x hx)
    · refine ⟨⟨_, (hreq _).mpr (.inr rfl), rfl⟩, successor old id key,
        (mem_rotated hold hlive hins).mpr (.inr (.inl rfl)), rfl, rfl, .inr ⟨rfl, ?_⟩⟩
      exact ⟨retired old id now, (mem_rotated hold hlive hins).mpr (.inr (.inr rfl)), rfl, rfl, rfl⟩
  paired := by
    have hids : (retire old.credentialId id.val now credentials).rows.map
      CredentialRow.credentialId =
        credentials.rows.map CredentialRow.credentialId := update_keys
    rw [hids, (insert_eq_some hrec).1, (insert_eq_some hins).1, map_append, map_append, hinv.paired]
    rfl
  cancellations := fun x hx =>
    cancellationOk_grows hg (hinv.cancellations x hx) (accepted_free hinv hacc x hx)
  audit := by
    obtain ⟨n, now', haud⟩ := accepted_audit hacc
    intro x hx
    rcases (haud x).mp hx with hx | rfl
    · exact hinv.audit x hx
    · exact fun h => nomatch h

end

end

theorem regChange_inv (hinv : RegInv s sc a g) (h : RegChange s sc a g g') : RegInv s sc a g' := by
  have hg := regChange_grows hinv h
  cases h with
  | challenges =>
    exact regInv_of_rows hinv hg rfl rfl (fun _ h => .inl h) (fun _ h => .inl h)
      (fun _ h => .inl h) (fun x hx => (hinv.cancellations x hx).free) fun _ h => .inl h
  | issue hnow howner hlater hle hyear h =>
    refine regInv_of_rows hinv hg rfl rfl (fun x hx => ?_) (fun _ h => .inl h)
      (fun _ h => .inl h) (fun x hx => (hinv.cancellations x hx).free) fun _ h => .inl h
    refine ((mem_of_insert h x).mp hx).imp id ?_
    rintro rfl
    exact ⟨OpaqueId.hex _, howner, s.prims.bodyDigest_sha _, ⟨⟨_, hnow, hlater⟩, hle, hyear⟩,
      ⟨fun _ => rfl, fun _ => rfl⟩, nofun⟩
  | accept hc ho hactor haction hidem hdev hexpire hscope hdigest hacc =>
    obtain ⟨now, hreq⟩ := accepted_request hacc
    obtain ⟨n, now', haud⟩ := accepted_audit hacc
    refine regInv_of_rows hinv hg rfl rfl (fun _ h => .inl h) (fun q hq => ?_)
      (fun _ h => .inl h) (accepted_free hinv hacc) fun x hx => ?_
    · refine ((hreq q).mp hq).imp id ?_
      rintro rfl
      refine .inr ⟨_, hc, rfl, fun id hid => ?_⟩
      cases hid
      exact ⟨_, ho, rfl, hactor, haction ▸ hexpire, _, hscope, hdev, hdigest⟩
    · refine ((haud x).mp hx).imp id ?_
      rintro rfl hpurpose
      cases hpurpose
  | rotate hold hlive hkey hfresh hnow hacc hcred hrec =>
    exact rotate_inv hinv hold hlive hcred hkey hfresh hnow hacc hrec hg
  | cancel hname hkind hkey hnow hprincipal hfree hcancel haudit =>
    refine regInv_of_rows hinv hg rfl rfl (fun _ h => .inl h) (fun _ h => .inl h) (fun x hx => ?_)
      (fun x hx => (hinv.cancellations x hx).free) fun x hx => ?_
    · refine ((mem_of_insert hcancel x).mp hx).imp id ?_
      rintro rfl
      exact ⟨hname, hkind, hkey, hnow, cancelPrincipal_grows hg hprincipal, hfree⟩
    · refine ((mem_of_insert haudit x).mp hx).imp id ?_
      rintro rfl hpurpose
      cases hpurpose

/-! ### Activation -/

section

variable {act : ActivationRow} {did cid : OpaqueId} {key : String} {now : ℤ}
  {credentials : Table CredentialRow.credentialId}

/-- The activation after it was consumed. -/
def spent (act : ActivationRow) (did : OpaqueId) (now : ℤ) : ActivationRow :=
  { act with consumedDevice := some did.val, consumedAt := some now }

theorem mem_consumeActivation (hact : act ∈ g.activations) (hfree : act.consumedDevice = none)
    {x : ActivationRow} : x ∈ consumeActivation act.activationId did.val now g.activations ↔
      (x ∈ g.activations ∧ x.activationId ≠ act.activationId) ∨ x = spent act did now := by
  refine mem_update_single hact fun y hy => ⟨fun hp => ?_, fun hk => ?_⟩
  · simp only [Bool.and_eq_true, decide_eq_true_eq] at hp
    exact hp.1
  · cases Table.eq_of_key hy hact hk
    simp [hfree]

theorem opaqueId_ne (id : OpaqueId) : id.val ≠ "" := by
  intro h
  have hhex := id.hex
  rw [h] at hhex
  exact absurd hhex (by decide)

theorem mem_nameAudit (did cid : OpaqueId) (hinv : RegInv s sc a g)
    (hacc : Accepted ("activation:" ++ act.activationId) requestId none .activate "" ""
      g requests audit) : ∃ n now, ∀ x, x ∈ nameAudit requestId did.val cid.val audit ↔
        x ∈ g.audit ∨ x = ⟨n, did.val, cid.val, .activate, requestId, now⟩ := by
  obtain ⟨n, now, hins⟩ := hacc.audited
  refine ⟨n, now, fun x => ?_⟩
  have hnamed := insert_update hins
    (p := fun x => x.purpose = .activate && x.requestId = requestId && x.deviceId = "" &&
      x.credentialId = "")
    (fun x => { x with deviceId := did.val, credentialId := cid.val }) (fun _ => rfl) ?_ (by simp)
  · exact mem_of_insert hnamed x
  · intro y hy
    by_cases hp : y.purpose = .activate
    · simp [hinv.audit y hy hp]
    · simp [hp]

def activatedDevice (act : ActivationRow) (did : OpaqueId) : DeviceRow :=
  freshDevice did.val act.ownerId act.validUntil

def firstCredential (act : ActivationRow) (did cid : OpaqueId) (key : String) : CredentialRow :=
  ⟨cid.val, did.val, key, act.validUntil, none, none⟩

/-- The registry after an activation. -/
def activated (act : ActivationRow) (did cid : OpaqueId) (requestId : String) (now : ℤ)
    (t : Table ChallengeRow.challengeId) (requests : Table RequestRow.key)
    (audit : Table AuditRow.id) (credentials : Table CredentialRow.credentialId)
    (receipts : Table CredentialReceiptRow.key) (g : Registry) : Registry :=
  { g with
    challenges := t, requests := requests, audit := nameAudit requestId did.val cid.val audit,
    credentials := credentials, receipts := receipts,
    activations := consumeActivation act.activationId did.val now g.activations }

variable {receipts : Table CredentialReceiptRow.key}

section

variable (hinv : RegInv s sc a g) (hact : act ∈ g.activations) (hfree : act.consumedDevice = none)
include hinv hact hfree

theorem activate_grows
    (hacc : Accepted ("activation:" ++ act.activationId) requestId none .activate "" ""
      g requests audit)
    (hcred : g.credentials.insert (firstCredential act did cid key) = some credentials)
    (hrec : g.receipts.insert
      ⟨.activate, requestId, key, "activation:" ++ act.activationId, cid.val⟩ = some receipts) :
    RegGrows g (activated act did cid requestId now t requests audit credentials receipts g) := by
  obtain ⟨now', hreq⟩ := accepted_request hacc
  obtain ⟨n, now'', haud⟩ := mem_nameAudit did cid hinv hacc
  refine ⟨?_, covers_insert CredentialGrows.refl hcred, fun q hq => (hreq q).mpr (.inl hq),
    fun x hx => (mem_of_insert hrec x).mpr (.inl hx), fun _ h => h,
    fun x hx => (haud x).mpr (.inl hx)⟩
  intro x hx
  by_cases hk : x.activationId = act.activationId
  · cases Table.eq_of_key hx hact hk
    exact ⟨_, (mem_consumeActivation hact hfree).mpr (.inr rfl), ⟨rfl, rfl, rfl, rfl, rfl⟩,
      .inl hfree, .inl ((hinv.activations act hact).consumed.mp hfree)⟩
  · exact ⟨x, (mem_consumeActivation hact hfree).mpr (.inl ⟨hx, hk⟩), ActivationGrows.refl x⟩

theorem activate_inv {devices : Table DeviceRow.deviceId} (hkey : authKey key = true)
    (hfresh : ∀ c ∈ g.credentials, c.publicKey ≠ key)
    (hacc : Accepted ("activation:" ++ act.activationId) requestId none .activate "" ""
      g requests audit)
    (hdev : a.devices.insert (activatedDevice act did) = some devices)
    (hcred : g.credentials.insert (firstCredential act did cid key) = some credentials)
    (hrec : g.receipts.insert
      ⟨.activate, requestId, key, "activation:" ++ act.activationId, cid.val⟩ = some receipts) :
    RegInv s sc { a with devices := devices }
      (activated act did cid requestId now t requests audit credentials receipts g) := by
  have ha : AuthGrows a { a with devices := devices } := enroll_grows hdev
  have hg : RegGrows g
    (activated act did cid requestId now t requests audit credentials receipts g) :=
    activate_grows hinv hact hfree hacc hcred hrec
  have hnewDevice : activatedDevice act did ∈ devices := (mem_of_insert hdev _).mpr (.inr rfl)
  have hspent : spent act did now ∈ consumeActivation act.activationId did.val now g.activations :=
    (mem_consumeActivation hact hfree).mpr (.inr rfl)
  have hnewCredential : firstCredential act did cid key ∈ credentials :=
    (mem_of_insert hcred _).mpr (.inr rfl)
  have hnobody : ∀ c ∈ g.credentials, c.deviceId ≠ did.val := by
    intro c hc hdid
    obtain ⟨r, hr, hid, -⟩ := (hinv.credentials c hc).device
    exact (insert_eq_some hdev).2 r hr (hid.trans hdid)
  obtain ⟨now', hreq⟩ := accepted_request hacc
  obtain ⟨n, now'', haud⟩ := mem_nameAudit did cid hinv hacc
  refine ⟨?_, ?_, ?_, ?_, ?_, ?_, ?_, ?_, ?_, ?_, ?_⟩
  · intro x hx
    rcases (mem_consumeActivation hact hfree).mp hx with ⟨hx, -⟩ | rfl
    · exact activationOk_grows ha (hinv.activations x hx)
    · refine { activationOk_grows ha (hinv.activations act hact) with
        consumed := ⟨(fun h => nomatch h), fun h => nomatch h⟩, device := fun d hd => ?_ }
      cases hd
      exact ⟨_, hnewDevice, rfl, rfl, rfl⟩
  · intro c hc
    rcases (mem_of_insert hcred c).mp hc with hc | rfl
    · exact credentialOk_grows ha hg (hinv.credentials c hc)
    · exact ⟨cid.hex, hkey, ⟨_, hnewDevice, rfl, rfl⟩, fun _ => rfl, (fun _ h => nomatch h),
        fun _ h => nomatch h⟩
  · intro c hc c' hc' heq
    rcases (mem_of_insert hcred c).mp hc with hc | rfl <;>
      rcases (mem_of_insert hcred c').mp hc' with hc' | rfl
    · exact hinv.keys c hc c' hc' heq
    · exact absurd heq (hfresh c hc)
    · exact absurd heq.symm (hfresh c' hc')
    · rfl
  · intro c hc c' hc' hdev hnone hnone'
    rcases (mem_of_insert hcred c).mp hc with hc | rfl <;>
      rcases (mem_of_insert hcred c').mp hc' with hc' | rfl
    · exact hinv.single c hc c' hc' hdev hnone hnone'
    · exact absurd hdev (hnobody c hc)
    · exact absurd hdev.symm (hnobody c' hc')
    · rfl
  · dsimp only [activated]
    rw [(insert_eq_some hcred).1, pairwise_append]
    refine ⟨hinv.ordered, pairwise_singleton _ _, fun c _ c' hc' => ?_⟩
    rw [mem_singleton.mp hc']
    exact fun h => nomatch h
  · intro c hc
    rcases (mem_of_insert hcred c).mp hc with hc | rfl
    · exact hinv.irreflexive c hc
    · exact fun h => nomatch h
  · intro q hq
    rcases (hreq q).mp hq with hq | rfl
    · exact requestOk_grows ha hg (hinv.requests q hq)
    · exact .inl ⟨⟨_, hspent, rfl⟩, rfl⟩
  · intro x hx
    rcases (mem_of_insert hrec x).mp hx with hx | rfl
    · exact receiptOk_grows hg (hinv.receipts x hx)
    · exact ⟨⟨_, (hreq _).mpr (.inr rfl), rfl⟩, _, hnewCredential, rfl, rfl,
        .inl ⟨rfl, _, hspent, rfl, rfl⟩⟩
  · dsimp only [activated]
    rw [(insert_eq_some hrec).1, (insert_eq_some hcred).1, map_append, map_append, hinv.paired]
    rfl
  · intro x hx
    exact cancellationOk_grows hg (hinv.cancellations x hx) (accepted_free hinv hacc x hx)
  · intro x hx
    rcases (haud x).mp hx with hx | rfl
    · exact hinv.audit x hx
    · exact fun _ => opaqueId_ne did

end

end

end

/-! ## Every change -/

theorem change_inv {db db' : DB} (hinv : DBInv s sc db)
    (h : Change s sc db db') : DBInv s sc db' := by
  cases h with
  | authority h =>
    exact ⟨authChange_inv hinv.authority h, regInv_grows
      (authChange_grows hinv.authority h) hinv.registry⟩
  | registry h => exact ⟨hinv.authority, regChange_inv hinv.registry h⟩
  | activate hact hfree hnow hlater hroom hkey hfresh hacc hdev hcred hrec =>
    have hok := hinv.registry.activations _ hact
    exact ⟨enroll_inv hinv.authority hnow
        (identifier_of_lowerHex (by decide) (by decide) (OpaqueId.hex _)) hok.owner hlater
        hok.window.2.2 hroom hdev,
      activate_inv hinv.registry hact hfree hkey hfresh hacc hdev hcred hrec⟩

theorem change_grows {db db' : DB} (hinv : DBInv s sc db)
    (h : Change s sc db db') : Grows db db' := by
  cases h with
  | authority h => exact ⟨authChange_grows hinv.authority h, RegGrows.refl _⟩
  | registry h => exact ⟨AuthGrows.refl _, regChange_grows hinv.registry h⟩
  | activate hact hfree hnow hlater hroom hkey hfresh hacc hdev hcred hrec =>
    exact ⟨enroll_grows hdev, activate_grows hinv.registry hact hfree hacc hcred hrec⟩

theorem changes_inv {db db' : DB} (hinv : DBInv s sc db)
    (h : Changes s sc db db') : DBInv s sc db' ∧ Grows db db' := by
  induction h with
  | refl => exact ⟨hinv, Grows.refl db⟩
  | tail _ hstep ih =>
    exact ⟨change_inv ih.1 hstep, ih.2.trans (change_grows ih.1 hstep)⟩

theorem emptyDB_inv (s : Store) (sc : Scope) : DBInv s sc (emptyDB s) := by
  refine ⟨emptyDB_authInv s sc, ⟨?_, ?_, ?_, ?_, List.Pairwise.nil, ?_, ?_, ?_, rfl, ?_, ?_⟩⟩
  all_goals exact fun x hx => absurd hx (not_mem_empty x)

end DaxiangVpn.DeviceAuthRegistry
