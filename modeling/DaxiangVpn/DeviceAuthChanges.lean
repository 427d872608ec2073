import DaxiangVpn.DeviceAuthWorld

/-!
# What a transaction can change

Every transaction of the store is one of a few changes of the authority tables
or of the credential registry. Each constructor below states what the change
writes and what the transaction had checked, and invariants of the database are
proved over these changes.
-/

namespace DaxiangVpn.DeviceAuthChanges

open CheckedSteps DeviceAuthPolicy RelationTable DeviceAuthTables DeviceAuthSubmit
open DeviceAuthCredentials DeviceAuthProcess

/-! ## The committed command -/

/-- What the checks before the transaction establish of a command. -/
structure WellFormed (s : Store) (cmd : Command) : Prop where
  actor : identifier cmd.actor.id = true
  idempotencyKey : identifier cmd.idempotencyKey = true
  /-- An apply has a valid key and an admitted address in canonical text. -/
  apply : cmd.action = .apply →
    validKey cmd.publicKey = true ∧ s.policy.address cmd.publicKey cmd.address = .ok cmd.address

variable {s : Store} {cmd : Command}

theorem normalizeCommand_ok {cmd' : Command} (h : normalizeCommand s cmd = .ok cmd') :
    WellFormed s cmd' ∧
    cmd'.deviceId = cmd.deviceId ∧ cmd'.actor = cmd.actor ∧ cmd'.action = cmd.action ∧
    cmd'.idempotencyKey = cmd.idempotencyKey ∧ cmd'.publicKey = cmd.publicKey := by
  obtain ⟨hshape, h⟩ := deny_bind_ok.mp h
  simp only [Bool.or_eq_false_iff, Bool.not_eq_eq_eq_not, Bool.not_false] at hshape
  obtain ⟨⟨⟨⟨⟨hactor, -⟩, -⟩, hidem⟩, -⟩, -⟩ := hshape
  by_cases ha : cmd.action = .apply
  · rw [if_pos ha] at h
    obtain ⟨hkey, h⟩ := deny_bind_ok.mp h
    obtain ⟨address, haddr, h⟩ := bind_ok.mp h
    cases pure_ok.mp h
    refine ⟨⟨hactor, hidem, fun _ => ⟨by simpa using hkey, address_idem haddr⟩⟩, ?_⟩
    exact ⟨rfl, rfl, rfl, rfl, rfl⟩
  · rw [if_neg ha] at h
    replace h := rest_ok h
    cases pure_ok.mp h
    exact ⟨⟨hactor, hidem, fun h => absurd h ha⟩, rfl, rfl, rfl, rfl, rfl⟩

/-- What a committed generation has written. -/
structure Committed (s : Store) (now : ℤ) (id : String) (cmd : Command) (d : Device)
    (a a' : Authority) : Prop where
  bounded : d.generation ≠ maxInt64
  metaRow : a'.metaRow = a.metaRow
  intents : a'.intents = a.intents
  /-- Reservations grow by the address of an apply. -/
  addresses : ∀ x, x ∈ a'.addresses ↔
    x ∈ a.addresses ∨ cmd.action = .apply ∧ x = ⟨cmd.address, d.id⟩
  /-- The address of an apply belonged to nobody else. -/
  addressOwner : cmd.action = .apply →
    ∀ x ∈ a.addresses, x.address = cmd.address → x.deviceId = d.id
  freshKey : cmd.action = .apply → ∀ b ∈ a.bindings, b.publicKey ≠ cmd.publicKey
  room : cmd.action = .apply → a.bindings.count (fun b => b.deviceId = d.id) < 4096
  /-- Every key that was revoked got a tombstone. -/
  tombstones : ∀ t, t ∈ a'.tombstones ↔
    t ∈ a.tombstones ∨ t ∈ newTombstones now cmd d (d.generation + 1) a
  /-- Old keys are revoked; an apply adds one. -/
  bindings : a'.bindings.rows = (revokeBindings d (d.generation + 1) a).rows ++
    if cmd.action = .apply then [newBinding s cmd d (d.generation + 1)] else []
  /-- The device moved to the new generation. -/
  devices : a'.devices = a.devices.update
    (fun r => r.deviceId = d.id && r.generation = d.generation)
    (advanceDevice cmd d (d.generation + 1)) fun _ => rfl
  operations : a'.operations.rows =
    a.operations.rows ++ [newOperation s now id cmd d (d.generation + 1)]
  freshId : ∀ o ∈ a.operations, o.operationId ≠ id
  /-- Older jobs were superseded and a pending one added. -/
  outbox : ∀ x, x ∈ a'.outbox ↔
    x ∈ supersedeJobs d (d.generation + 1) a ∨ x = ⟨id, .pending, 0, 0, "", none⟩

variable {d : Device}

/-- Reservations after the conflict checks of an apply. -/
theorem reserveAddress_ok {a : Authority}
    {t : Table AddressRow.address} (h : reserveAddress cmd d a = .ok t) :
    (∀ x, x ∈ t ↔ x ∈ a.addresses ∨ cmd.action = .apply ∧ x = ⟨cmd.address, d.id⟩) ∧
      (cmd.action = .apply → ∀ x ∈ a.addresses, x.address = cmd.address → x.deviceId = d.id) ∧
      (cmd.action = .apply → ∀ b ∈ a.bindings, b.publicKey ≠ cmd.publicKey) ∧
      (cmd.action = .apply → a.bindings.count (fun b => b.deviceId = d.id) < 4096) := by
  unfold reserveAddress at h
  by_cases ha : cmd.action = .apply
  swap
  · rw [if_neg ha] at h
    cases pure_ok.mp h
    exact ⟨fun x => by simp [ha], fun h => absurd h ha, fun h => absurd h ha, fun h => absurd h ha⟩
  rw [if_pos ha] at h
  obtain ⟨hroom, h⟩ := deny_bind_ok.mp h
  obtain ⟨hkey, h⟩ := deny_bind_ok.mp h
  have hfresh : ∀ b ∈ a.bindings, b.publicKey ≠ cmd.publicKey :=
    find_eq_none.mp (by simpa using hkey)
  have hlt : a.bindings.count (fun b => b.deviceId = d.id) < 4096 := by
    simpa only [decide_eq_false_iff_not, not_le] using hroom
  simp only [ha, true_and, true_implies]
  cases hfind : a.addresses.find cmd.address with
  | some x =>
    rw [hfind] at h
    obtain ⟨hown, h⟩ := deny_bind_ok.mp h
    cases pure_ok.mp h
    obtain ⟨hx, hxa⟩ := find_eq_some.mp hfind
    have hxd : x.deviceId = d.id := by simpa using hown
    have hxe : x = ⟨cmd.address, d.id⟩ := by
      cases x
      simp_all
    refine ⟨fun y => ⟨.inl, ?_⟩, ?_, hfresh, hlt⟩
    · rintro (hy | rfl)
      · exact hy
      · exact hxe ▸ hx
    · intro y hy hya
      rw [Table.eq_of_key hy hx (hya.trans hxa.symm), hxd]
  | none =>
    rw [hfind] at h
    have hins := demand_ok.mp h
    refine ⟨mem_of_insert hins, ?_, hfresh, hlt⟩
    intro y hy hya
    exact absurd hya (find_eq_none.mp hfind y hy)

theorem addBinding_ok {g : ℕ}
    {t t' : Table BindingRow.publicKey} (h : addBinding s cmd d g t = .ok t') :
    t'.rows = t.rows ++ if cmd.action = .apply then [newBinding s cmd d g] else [] := by
  unfold addBinding at h
  by_cases ha : cmd.action = .apply
  · rw [if_pos ha] at h ⊢
    replace h := rest_ok h
    exact (insert_eq_some (demand_ok.mp h)).1
  · rw [if_neg ha] at h ⊢
    cases pure_ok.mp h
    simp

theorem commitCommand_ok {now : ℤ} {id : String} {a a' : Authority}
    (h : commitCommand s now id cmd d a = .ok a') : Committed s now id cmd d a a' := by
  replace h := rest_ok h
  obtain ⟨hbound, h⟩ := deny_bind_ok.mp h
  obtain ⟨addresses, haddr, h⟩ := bind_ok.mp h
  obtain ⟨tombstones, htomb, h⟩ := demand_bind_ok.mp h
  obtain ⟨bindings, hbind, h⟩ := bind_ok.mp h
  obtain ⟨operations, hops, h⟩ := demand_bind_ok.mp h
  obtain ⟨outbox, hout, h⟩ := demand_bind_ok.mp h
  cases pure_ok.mp h
  have hreserve := reserveAddress_ok haddr
  exact {
    bounded := by simpa using hbound
    metaRow := rfl
    intents := rfl
    addresses := hreserve.1
    addressOwner := hreserve.2.1
    freshKey := hreserve.2.2.1
    room := hreserve.2.2.2
    tombstones := mem_of_insertAll htomb
    bindings := addBinding_ok hbind
    devices := rfl
    operations := (insert_eq_some hops).1
    freshId := (insert_eq_some hops).2
    outbox := mem_of_insert hout }

/-! ## Changes of the authority tables -/

/-- What the locals of a working call of `Process` say about the database. -/
structure FrameOk (s : Store) (a : Authority) (f : Frame) : Prop where
  epoch : f.epoch = s.policy.epoch
  device : ∃ r ∈ a.devices, r.device = f.device
  operation : ∃ o ∈ a.operations, o.operationId = f.operationId ∧ o.deviceId = f.device.id ∧
    o.generation = f.device.generation
  history_sound : ∀ b ∈ f.history, ∃ x ∈ a.bindings, x.deviceId = f.device.id ∧
    x.publicKey = b.key ∧ x.address = b.address ∧ x.revokedGeneration = b.revoked
  history_full : ∀ x ∈ a.bindings, x.deviceId = f.device.id → ∃ b ∈ f.history,
    x.publicKey = b.key ∧ x.address = b.address ∧ x.revokedGeneration = b.revoked
  fence : f.fence = a.metaRow.executorFence
  fence_pos : 0 < f.fence
  job : ∃ x ∈ a.outbox, x.operationId = f.operationId ∧ x.fence = f.fence

/-- What a set of runs is restricted to. -/
structure Scope where
  /-- Clock readings that occur. -/
  time : ℤ → Prop
  /-- Commands that are submitted, expiries apart. -/
  command : Command → Prop
  /-- Jobs that `Process` claims or supersedes in a state. -/
  touch : Authority → String → Prop
  /-- Attempts whose verified result is committed in a state. -/
  settles : Authority → Frame → Prop

/-- No restriction. -/
def Scope.all : Scope := ⟨fun _ => True, fun _ => True, fun _ _ => True, fun _ _ => True⟩

inductive AuthChange (s : Store) (sc : Scope) (a : Authority) : Authority → Prop
  | enroll {id owner : String} {validUntil now : ℤ} {t : Table DeviceRow.deviceId}
      (hnow : sc.time now) (hid : identifier id = true) (howner : identifier owner = true)
      (hlater : now < validUntil) (hyear : validUntil < year2201)
      (hroom : (a.devices.rows.length : ℤ) < s.resources.devices)
      (h : a.devices.insert (freshDevice id owner validUntil) = some t) :
      AuthChange s sc a { a with devices := t }
  | commit {now : ℤ} {id : OpaqueId} {cmd : Command} {r : DeviceRow} {a' : Authority}
      (hnow : sc.time now) (hr : r ∈ a.devices) (hid : r.deviceId = cmd.deviceId)
      (howner : r.ownerId = cmd.actor.ownerId) (hactive : cmd.action = .apply → r.state = .active)
      (hcmd : WellFormed s cmd) (hscope : cmd.action ≠ .expire → sc.command cmd)
      (hnew : recordedOperation cmd a = none) (h : Committed s now id.val cmd r.device a a') :
      AuthChange s sc a a'
  | mark {p : OutboxRow → Bool} {code : String} (hp : ∀ x, p x = true → unfinished x = true) :
      AuthChange s sc a { a with
        outbox := a.outbox.update p (fun x => { x with state := .degraded, lastError := code })
          fun _ => rfl }
  /-- `Process` met an operation that is not the latest. -/
  | supersede {o : OperationRow} {r : DeviceRow} (ho : o ∈ a.operations) (hr : r ∈ a.devices)
      (hdev : r.deviceId = o.deviceId)
      (hold : o.epoch ≠ s.policy.epoch ∨ o.generation ≠ r.generation)
      (htouch : sc.touch a o.operationId) : AuthChange s sc a (supersedeJob o.operationId a)
  /-- `Process` claimed the latest operation. -/
  | claim {o : OperationRow} {r : DeviceRow} (ho : o ∈ a.operations) (hr : r ∈ a.devices)
      (hdev : r.deviceId = o.deviceId) (hgen : o.generation = r.generation)
      (hfence : nextFence a ≠ maxInt64) (htouch : sc.touch a o.operationId) :
      AuthChange s sc a (claimJob o.operationId a)
  | intents {f : Frame} {actions : List PlannedAction} (hf : FrameOk s a f)
      (hact : ∀ x ∈ actions, ∃ b ∈ a.bindings, b.deviceId = f.device.id ∧ b.publicKey = x.key ∧
        b.address = x.address) : AuthChange s sc a (announceIntents f actions a)
  | result {f : Frame} {now : ℤ} (hnow : sc.time now) (hf : FrameOk s a f)
      (hsettles : sc.settles a f) :
      AuthChange s sc a (settle f now a)

/-! ## Changes of the registry -/

/-- What a signed mutation writes besides its own rows: the request and an
audit row, after it was checked that the request is not cancelled. -/
structure Accepted (principal requestId : String) (operation : Option String)
    (purpose : Purpose) (device credential : String) (g : Registry)
    (requests : Table RequestRow.key) (audit : Table AuditRow.id) : Prop where
  name : identifier requestId = true
  live : ∀ x ∈ g.cancellations, x.key ≠ (principal, requestId)
  recorded : ∃ now, g.requests.insert ⟨principal, requestId, now, operation⟩ = some requests
  audited : ∃ id now,
    g.audit.insert ⟨id, device, credential, purpose, requestId, now⟩ = some audit

/-- Whom a cancellation may concern: an activation, or a credential of the device. -/
def CancelPrincipal (g : Registry) (kind : Purpose) (principal device : String) : Prop :=
  kind = .activate ∧ device = "" ∧
  (∃ x ∈ g.activations, principal = "activation:" ++ x.activationId) ∨
    kind ≠ .activate ∧ ∃ c ∈ g.credentials, principal = c.credentialId ∧ c.deviceId = device

inductive RegChange (s : Store) (sc : Scope) (a : Authority) (g : Registry) : Registry → Prop
  /-- Challenges come, are spent and go. -/
  | challenges (t : Table ChallengeRow.challengeId) : RegChange s sc a g { g with challenges := t }
  | issue {id : OpaqueId} {owner : String} {secret : List ℕ} {validUntil activationUntil now : ℤ}
      {t : Table ActivationRow.activationId} (hnow : sc.time now)
      (howner : identifier owner = true) (hlater : now < activationUntil)
      (hle : activationUntil ≤ validUntil) (hyear : validUntil < year2201)
      (h : g.activations.insert ⟨id.val, s.prims.bodyDigest secret, owner, validUntil,
        activationUntil, none, none⟩ = some t) : RegChange s sc a g { g with activations := t }
  | accept {c : CredentialRow} {o : OperationRow} {cmd : Command} {requestId : String}
      {t : Table ChallengeRow.challengeId} {requests : Table RequestRow.key}
      {audit : Table AuditRow.id} (hc : c ∈ g.credentials) (ho : o ∈ a.operations)
      (hactor : o.actorId = c.deviceId) (haction : o.action = cmd.action)
      (hidem : o.idempotencyKey = cmd.idempotencyKey) (hdev : cmd.deviceId = c.deviceId)
      (hexpire : cmd.action ≠ .expire) (hscope : sc.command cmd)
      (hdigest : o.requestDigest = s.prims.requestDigest cmd)
      (hacc : Accepted c.credentialId requestId (some o.operationId) (.command cmd.action)
        c.deviceId c.credentialId g requests audit) :
      RegChange s sc a g { g with challenges := t, requests := requests, audit := audit }
  | rotate {old : CredentialRow} {id : OpaqueId} {key requestId : String} {now : ℤ}
      {t : Table ChallengeRow.challengeId} {requests : Table RequestRow.key}
      {audit : Table AuditRow.id} {credentials : Table CredentialRow.credentialId}
      {receipts : Table CredentialReceiptRow.key} (hold : old ∈ g.credentials)
      (hlive : old.revokedAt = none) (hkey : authKey key = true)
      (hfresh : ∀ c ∈ g.credentials, c.publicKey ≠ key) (hnow : sc.time now)
      (hacc : Accepted old.credentialId requestId none .credentialRotate old.deviceId
        old.credentialId g requests audit)
      (hcred : g.credentials.insert ⟨id.val, old.deviceId, key, old.validUntil, none, none⟩ =
        some credentials)
      (hrec : g.receipts.insert ⟨.credentialRotate, requestId, key, old.credentialId, id.val⟩ =
        some receipts) :
      RegChange s sc a g { g with
        challenges := t, requests := requests, audit := audit,
        credentials := retire old.credentialId id.val now credentials, receipts := receipts }
  | cancel {principal requestId key device credential idempotency : String} {kind : Purpose}
      {now now' : ℤ} {n : ℕ} {t : Table ChallengeRow.challengeId}
      {cancellations : Table CancellationRow.key} {audit : Table AuditRow.id}
      (hname : identifier requestId = true) (hkind : resolveKind kind = true)
      (hkey : authKey key = true) (hnow : sc.time now)
      (hprincipal : CancelPrincipal g kind principal device)
      (hfree : ∀ x ∈ g.requests, x.key ≠ (principal, requestId))
      (hcancel : g.cancellations.insert
        ⟨principal, requestId, kind, key, device, idempotency, now⟩ =
        some cancellations)
      (haudit : g.audit.insert ⟨n, device, credential, .requestCancel, requestId, now'⟩ =
        some audit) :
      RegChange s sc a g { g with
        challenges := t, cancellations := cancellations, audit := audit }

inductive Change (s : Store) (sc : Scope) (db : DB) : DB → Prop
  | authority {a : Authority} (h : AuthChange s sc db.toAuthority a) :
      Change s sc db { db with toAuthority := a }
  | registry {g : Registry} (h : RegChange s sc db.toAuthority db.toRegistry g) :
      Change s sc db { db with toRegistry := g }
  /-- An activation created a device and its first credential. -/
  | activate {act : ActivationRow} {did cid : OpaqueId} {key requestId : String} {now now' : ℤ}
      {devices : Table DeviceRow.deviceId} {t : Table ChallengeRow.challengeId}
      {requests : Table RequestRow.key} {audit : Table AuditRow.id}
      {credentials : Table CredentialRow.credentialId} {receipts : Table CredentialReceiptRow.key}
      (hact : act ∈ db.activations) (hfree : act.consumedDevice = none)
      (hnow : sc.time now) (hlater : now < act.validUntil)
      (hroom : (db.devices.rows.length : ℤ) < s.resources.devices) (hkey : authKey key = true)
      (hfresh : ∀ c ∈ db.credentials, c.publicKey ≠ key)
      (hacc : Accepted ("activation:" ++ act.activationId) requestId none .activate "" ""
        db.toRegistry requests audit)
      (hdev : db.devices.insert (freshDevice did.val act.ownerId act.validUntil) = some devices)
      (hcred : db.credentials.insert ⟨cid.val, did.val, key, act.validUntil, none, none⟩ =
        some credentials)
      (hrec : db.receipts.insert
        ⟨.activate, requestId, key, "activation:" ++ act.activationId, cid.val⟩ = some receipts) :
      Change s sc db { db with
        devices := devices, challenges := t, requests := requests,
        audit := nameAudit requestId did.val cid.val audit, credentials := credentials,
        receipts := receipts,
        activations := consumeActivation act.activationId did.val now' db.activations }

abbrev Changes (s : Store) (sc : Scope) : DB → DB → Prop := Relation.ReflTransGen (Change s sc)

theorem Changes.authority {sc : Scope} {db : DB} {a : Authority}
    (h : AuthChange s sc db.toAuthority a) : Changes s sc db { db with toAuthority := a } :=
  Relation.ReflTransGen.single (.authority h)

theorem Changes.registry {sc : Scope} {db : DB} {g : Registry}
    (h : RegChange s sc db.toAuthority db.toRegistry g) :
    Changes s sc db { db with toRegistry := g } :=
  Relation.ReflTransGen.single (.registry h)

end DaxiangVpn.DeviceAuthChanges
