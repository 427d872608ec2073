import DaxiangVpn.DeviceAuthGrowth

/-!
# Invariant of the authority tables

Every table has a predicate for its rows, stated against the rows of the other
tables that they refer to. Every change of the authority keeps them.
-/

namespace DaxiangVpn.DeviceAuthInvariant

open DeviceAuthPolicy RelationTable DeviceAuthTables DeviceAuthSubmit List DeviceAuthProcess
  DeviceAuthChanges
open DeviceAuthGrowth

/-! ## Row predicates -/

/-- The current key of a device: none, or its unrevoked binding of the latest generation. -/
def Current (a : Authority) (r : DeviceRow) : Prop :=
  r.currentKey = none ∧ r.currentAddress = none ∨
    r.state = .active ∧ ∃ b ∈ a.bindings, b.deviceId = r.deviceId ∧ b.revokedGeneration = 0 ∧
      b.createdGeneration = r.generation ∧ r.currentKey = some b.publicKey ∧
      r.currentAddress = some b.address

/-- An operation below a generation revoked the device. -/
def RevokedBefore (a : Authority) (r : DeviceRow) (generation : ℕ) : Prop :=
  ∃ o ∈ a.operations, o.deviceId = r.deviceId ∧ o.action = .revoke ∧ o.generation < generation

/-- What the operation of the latest generation says about the device: the state is the desired one
unless the device was revoked before, and only an apply gives it a key and an address. -/
structure Latest (a : Authority) (r : DeviceRow) (o : OperationRow) : Prop where
  state : r.state = desiredState o.action ∨ r.state = .revoked ∧ RevokedBefore a r o.generation
  apply : o.action = .apply → r.state = .active ∧ r.currentKey = some o.request.publicKey ∧
    r.currentAddress = some o.request.address
  other : o.action ≠ .apply → r.currentKey = none ∧ r.currentAddress = none

structure DeviceOk (s : Store) (sc : Scope) (a : Authority) (r : DeviceRow) : Prop where
  names : identifier r.deviceId = true ∧ identifier r.ownerId = true
  /-- The authorization ended after some reading of the clock, before the year 2201. -/
  valid : ∃ now, sc.time now ∧ now < r.validUntil ∧ r.validUntil < year2201
  applied : r.appliedGeneration ≤ r.generation
  current : Current a r
  /-- Every generation has an operation, and the latest one explains the state. -/
  history : ∀ g, 0 < g → g ≤ r.generation → ∃ o ∈ a.operations, o.deviceId = r.deviceId ∧
    o.generation = g ∧ (g = r.generation → Latest a r o)
  revoked : r.state = .revoked → RevokedBefore a r (r.generation + 1)

/-- What a binding says about its device. -/
def Owned (a : Authority) (b : BindingRow) : Prop :=
  ∃ r ∈ a.devices, r.deviceId = b.deviceId ∧ b.createdGeneration ≤ r.generation ∧
    b.revokedGeneration ≤ r.generation ∧ b.removedGeneration ≤ r.generation ∧
    (b.revokedGeneration = 0 → r.currentKey = some b.publicKey)

structure BindingOk (s : Store) (a : Authority) (b : BindingRow) : Prop where
  key : validKey b.publicKey = true
  managed : b.managedBy = s.policy.managedBy
  address : s.policy.address b.publicKey b.address = .ok b.address
  created : 0 < b.createdGeneration
  ordered : b.revokedGeneration = 0 ∨ b.createdGeneration < b.revokedGeneration
  removed : b.revokedGeneration = 0 → b.removedGeneration = 0
  owned : Owned a b
  reserved : ∃ x ∈ a.addresses, x.address = b.address ∧ x.deviceId = b.deviceId
  buried : 0 < b.revokedGeneration →
    ∃ t ∈ a.tombstones, t.publicKey = b.publicKey ∧ t.generation = b.revokedGeneration

structure TombstoneOk (sc : Scope) (a : Authority) (t : TombstoneRow) : Prop where
  time : sc.time t.committedAt
  positive : 0 < t.generation
  grave : ∃ b ∈ a.bindings, b.publicKey = t.publicKey ∧ b.revokedGeneration = t.generation

structure OperationOk (s : Store) (sc : Scope) (a : Authority) (o : OperationRow) : Prop where
  names : identifier o.actorId = true ∧ identifier o.idempotencyKey = true
  digest : o.requestDigest = s.prims.requestDigest o.request
  /-- The row repeats the command. -/
  request : o.request.actor.id = o.actorId ∧ o.request.action = o.action ∧
    o.request.idempotencyKey = o.idempotencyKey ∧ o.request.deviceId = o.deviceId
  scope : o.action ≠ .expire → sc.command o.request
  epoch : o.epoch = s.policy.epoch
  /-- The commit time is a reading of the clock; the deadline follows it. -/
  time : sc.time o.committedAt ∧ o.committedAt ≤ o.deadline
  owned : 0 < o.generation ∧ ∃ r ∈ a.devices, r.deviceId = o.deviceId ∧ r.ownerId = o.ownerId ∧
    o.generation ≤ r.generation

/-- Devices, reservations, bindings, tombstones and operations fit together. -/
structure CoreInv (s : Store) (sc : Scope) (a : Authority) : Prop where
  devices : ∀ r ∈ a.devices, DeviceOk s sc a r
  room : (a.devices.rows.length : ℤ) ≤ s.resources.devices
  addresses : ∀ x ∈ a.addresses, ∃ r ∈ a.devices, r.deviceId = x.deviceId
  bindings : ∀ b ∈ a.bindings, BindingOk s a b
  quota : ∀ id, a.bindings.count (fun b => b.deviceId = id) ≤ 4096
  tombstones : ∀ t ∈ a.tombstones, TombstoneOk sc a t
  operations : ∀ o ∈ a.operations, OperationOk s sc a o
  unique : ∀ o ∈ a.operations, ∀ o' ∈ a.operations, o.deviceId = o'.deviceId →
    o.generation = o'.generation → o = o'

structure OutboxOk (a : Authority) (x : OutboxRow) : Prop where
  fence : x.fence ≤ a.metaRow.executorFence
  finished : x.state = .done → 0 < x.fence ∧ x.verifiedAt ≠ none
  /-- The job belongs to an operation; a superseded one is not the latest. -/
  owned : ∃ o ∈ a.operations, o.operationId = x.operationId ∧
    (x.state = .superseded → ∃ r ∈ a.devices, r.deviceId = o.deviceId ∧ o.generation < r.generation)

structure IntentOk (s : Store) (a : Authority) (i : IntentRow) : Prop where
  epoch : i.epoch = s.policy.epoch
  fence : 0 < i.fence ∧ i.fence ≤ a.metaRow.executorFence
  owned : ∃ o ∈ a.operations, ∃ b ∈ a.bindings, o.operationId = i.operationId ∧
    b.publicKey = i.publicKey ∧ o.deviceId = b.deviceId ∧ b.address = i.address ∧
    o.generation = i.generation

/-- The meta row, the outbox and the intents fit the core. -/
structure JobsInv (s : Store) (a : Authority) : Prop where
  policy : a.metaRow.schemaVersion = 2 ∧ a.metaRow.epoch = s.policy.epoch ∧
    a.metaRow.managedBy = s.policy.managedBy ∧ a.metaRow.policyJSON = s.policyJSON ∧
    a.metaRow.fencePath = s.fencePath
  fence : a.metaRow.executorFence < maxInt64
  jobs : ∀ o ∈ a.operations, ∃ x ∈ a.outbox, x.operationId = o.operationId
  outbox : ∀ x ∈ a.outbox, OutboxOk a x
  intents : ∀ i ∈ a.intents, IntentOk s a i

/-- The whole invariant of the authority. -/
structure AuthInv (s : Store) (sc : Scope) (a : Authority) : Prop where
  core : CoreInv s sc a
  jobs : JobsInv s a

/-! ## Growth of unchanged rows -/

variable {s : Store} {a a' : Authority} {o : OperationRow} {r : DeviceRow} {sc : Scope}
  {b : BindingRow} {f : Frame}

/-- All keys that were bound to an address are of one device. -/
theorem CoreInv.device_of_bound (h : CoreInv s sc a) {b' : BindingRow} (hb : b ∈ a.bindings)
    (hb' : b' ∈ a.bindings) (haddr : b.address = b'.address) : b.deviceId = b'.deviceId := by
  obtain ⟨x, hx, hxa, hxd⟩ := (h.bindings b hb).reserved
  obtain ⟨x', hx', hxa', hxd'⟩ := (h.bindings b' hb').reserved
  have hsame : x = x' := Table.eq_of_key hx hx' (hxa.trans (haddr.trans hxa'.symm))
  rw [← hxd, ← hxd', hsame]

theorem latest_not_superseded (h : JobsInv s a) {x : OutboxRow} (ho : o ∈ a.operations)
    (hr : r ∈ a.devices) (hdev : r.deviceId = o.deviceId) (hgen : o.generation = r.generation)
    (hx : x ∈ a.outbox) (hid : x.operationId = o.operationId) : x.state ≠ .superseded := by
  intro hs
  obtain ⟨o', ho', hid', hold⟩ := (h.outbox x hx).owned
  cases Table.eq_of_key ho' ho (hid'.trans hid)
  obtain ⟨r', hr', hdev', hlt⟩ := hold hs
  cases Table.eq_of_key hr' hr (hdev'.trans hdev.symm)
  omega

section

variable (h : AuthGrows a a')
include h

theorem tombstoneOk_grows {t : TombstoneRow} (ht : TombstoneOk sc a t) : TombstoneOk sc a' t := by
  obtain ⟨b, hb, hkey, hrev⟩ := ht.grave
  obtain ⟨b', hb', hgrow⟩ := h.bindings b hb
  have hpos := ht.positive
  have hrev' : b'.revokedGeneration = b.revokedGeneration := hgrow.revoked.resolve_left (by omega)
  exact { ht with grave := ⟨b', hb', hgrow.same.1.trans hkey, hrev'.trans hrev⟩ }

theorem operationOk_grows (ho : OperationOk s sc a o) : OperationOk s sc a' o := by
  obtain ⟨hpos, r, hr, hid, howner, hle⟩ := ho.owned
  obtain ⟨r', hr', hgrow⟩ := h.devices r hr
  exact { ho with
    owned := ⟨hpos, r', hr', hgrow.same.1.trans hid, hgrow.same.2.1.trans howner,
      hle.trans hgrow.generation⟩ }

theorem outboxOk_grows {x : OutboxRow} (hx : OutboxOk a x) : OutboxOk a' x := by
  obtain ⟨o, ho, hid, hold⟩ := hx.owned
  refine ⟨hx.fence.trans h.fence, hx.finished, o, h.operation ho, hid, fun hs => ?_⟩
  obtain ⟨r, hr, hdev, hlt⟩ := hold hs
  obtain ⟨r', hr', hgrow⟩ := h.devices r hr
  exact ⟨r', hr', hgrow.same.1.trans hdev, hlt.trans_le hgrow.generation⟩

theorem intentOk_grows {i : IntentRow} (hi : IntentOk s a i) : IntentOk s a' i := by
  obtain ⟨o, ho, b, hb, hid, hkey, hdev, haddr, hgen⟩ := hi.owned
  obtain ⟨b', hb', hgrow⟩ := h.bindings b hb
  exact ⟨hi.epoch, ⟨hi.fence.1, hi.fence.2.trans h.fence⟩, o, h.operation ho, b', hb', hid,
    hgrow.same.1.trans hkey, hdev.trans hgrow.same.2.1.symm, hgrow.same.2.2.1.trans haddr, hgen⟩

theorem revokedBefore_grows {generation : ℕ} (hr : RevokedBefore a r generation) :
    RevokedBefore a' r generation := by
  obtain ⟨o, ho, rest⟩ := hr
  exact ⟨o, h.operation ho, rest⟩

theorem deviceOk_grows (hr : DeviceOk s sc a r) (hcur : Current a' r) : DeviceOk s sc a' r :=
  { hr with
    current := hcur
    history := by
      intro g hpos hle
      obtain ⟨o, ho, hdev, hgen, hlatest⟩ := hr.history g hpos hle
      refine ⟨o, h.operation ho, hdev, hgen, fun hg => { hlatest hg with state := ?_ }⟩
      exact (hlatest hg).state.imp_right (And.imp_right (revokedBefore_grows h))
    revoked := fun hstate => revokedBefore_grows h (hr.revoked hstate) }

theorem bindingOk_grows (hb : BindingOk s a b) (howned : Owned a' b) : BindingOk s a' b := by
  obtain ⟨x, hx, hreserved⟩ := hb.reserved
  refine { hb with owned := howned, reserved := ⟨x, h.addresses x hx, hreserved⟩, buried := ?_ }
  intro hpos
  obtain ⟨t, ht, hkey, hgen⟩ := hb.buried hpos
  obtain ⟨t', ht', hgrow⟩ := h.tombstones t ht
  exact ⟨t', ht', hgrow.same.1.trans hkey, hgrow.same.2.1.trans hgen⟩

theorem addressOwner_grows {id : String}
    (hid : ∃ r ∈ a.devices, r.deviceId = id) : ∃ r ∈ a'.devices, r.deviceId = id := by
  obtain ⟨r, hr, hid⟩ := hid
  obtain ⟨r', hr', hgrow⟩ := h.devices r hr
  exact ⟨r', hr', hgrow.same.1.trans hid⟩

end

theorem core_of_eq (h : CoreInv s sc a) (hg : AuthGrows a a') (hd : a'.devices = a.devices)
    (ha : a'.addresses = a.addresses) (hb : a'.bindings = a.bindings)
    (ht : a'.tombstones = a.tombstones) (ho : a'.operations = a.operations) : CoreInv s sc a' where
  devices := by
    intro r hr
    rw [hd] at hr
    have hok := h.devices r hr
    exact deviceOk_grows hg hok (by simpa only [Current, hb] using hok.current)
  room := by
    rw [hd]
    exact h.room
  addresses := by
    intro x hx
    exact addressOwner_grows hg (h.addresses x (ha ▸ hx))
  bindings := by
    intro b hb'
    have hok := h.bindings b (hb ▸ hb')
    exact bindingOk_grows hg hok (by simpa only [Owned, hd] using hok.owned)
  quota := by
    rw [hb]
    exact h.quota
  tombstones := fun t htm => tombstoneOk_grows hg (h.tombstones t (ht ▸ htm))
  operations := fun o hom => operationOk_grows hg (h.operations o (ho ▸ hom))
  unique := by
    rw [ho]
    exact h.unique

theorem jobs_of_grows (h : JobsInv s a) (hg : AuthGrows a a')
    (hfence : a'.metaRow.executorFence < maxInt64)
    (hjobs : ∀ o ∈ a'.operations, o ∈ a.operations ∨ ∃ x ∈ a'.outbox, x.operationId = o.operationId)
    (hout : ∀ x ∈ a'.outbox, OutboxOk a' x) (hint : ∀ i ∈ a'.intents, IntentOk s a' i) :
    JobsInv s a' where
  policy := by
    rw [hg.metaRow]
    exact h.policy
  fence := hfence
  jobs := by
    intro o ho
    rcases hjobs o ho with hold | hnew
    · obtain ⟨x, hx, hid⟩ := h.jobs o hold
      obtain ⟨x', hx', hgrow⟩ := hg.outbox x hx
      exact ⟨x', hx', hgrow.same.trans hid⟩
    · exact hnew
  outbox := hout
  intents := hint

/-! ## Changes of the outbox -/

/-- A change of the outbox keeps the invariant if every row is in order that was in order before. -/
theorem inv_of_outbox (h : AuthInv s sc a) {p : OutboxRow → Bool} {change : OutboxRow → OutboxRow}
    {hkey : ∀ x, (change x).operationId = x.operationId} {m : MetaRow}
    (ha : a' = { a with metaRow := m, outbox := a.outbox.update p change hkey })
    (hg : AuthGrows a a') (hfence : m.executorFence < maxInt64)
    (hrow : ∀ x, p x = true → OutboxOk a' x → OutboxOk a' (change x)) : AuthInv s sc a' := by
  subst ha
  refine ⟨core_of_eq h.core hg rfl rfl rfl rfl rfl, jobs_of_grows h.jobs hg hfence
    (fun _ ho => .inl ho) (fun x hx => ?_) fun i hi => intentOk_grows hg (h.jobs.intents i hi)⟩
  dsimp only at hx
  obtain ⟨y, hy, rfl⟩ := mem_update.mp hx
  have hok := outboxOk_grows hg (h.jobs.outbox y hy)
  split_ifs with hp
  · exact hrow y hp hok
  · exact hok

theorem mark_grows {p : OutboxRow → Bool} (code : String)
    (hp : ∀ x, p x = true → unfinished x = true) :
    AuthGrows a { a with
      outbox := a.outbox.update p (fun x => { x with state := .degraded, lastError := code })
        fun _ => rfl } :=
  { AuthGrows.refl a with
    outbox := by
      refine covers_update OutboxGrows.refl ?_ fun x _ hpx => ⟨rfl, le_rfl, le_rfl, fun hs => ?_⟩
      · exact fun _ => rfl
      have hu := hp x hpx
      rw [unfinished, hs] at hu
      exact absurd hu (by decide) }

theorem mark_inv (h : AuthInv s sc a)
    {p : OutboxRow → Bool} {code : String} (hp : ∀ x, p x = true → unfinished x = true) :
    AuthInv s sc { a with
      outbox := a.outbox.update p (fun x => { x with state := .degraded, lastError := code })
        fun _ => rfl } := by
  refine inv_of_outbox h rfl (mark_grows code hp) h.jobs.fence fun x _ hok => ?_
  obtain ⟨o, ho, hid, -⟩ := hok.owned
  exact ⟨hok.fence, (fun hdone => nomatch hdone), o, ho, hid, fun hs => nomatch hs⟩

theorem supersede_grows (id : String) : AuthGrows a (supersedeJob id a) :=
  { AuthGrows.refl a with
    outbox := by
      refine covers_update OutboxGrows.refl ?_ fun _ _ _ => ⟨rfl, le_rfl, le_rfl, fun _ => rfl⟩
      exact fun _ => rfl }

theorem supersede_inv (h : AuthInv s sc a) (ho : o ∈ a.operations) (hr : r ∈ a.devices)
    (hdev : r.deviceId = o.deviceId)
    (hold : o.epoch ≠ s.policy.epoch ∨ o.generation ≠ r.generation) :
    AuthInv s sc (supersedeJob o.operationId a) := by
  refine inv_of_outbox h rfl (supersede_grows o.operationId) h.jobs.fence fun x hid hok => ?_
  have hok' := h.core.operations o ho
  obtain ⟨-, r', hr', hdev', -, hle⟩ := hok'.owned
  cases Table.eq_of_key hr' hr (hdev'.trans hdev.symm)
  have hlt : o.generation < r.generation :=
    lt_of_le_of_ne hle (hold.resolve_left fun hne => hne hok'.epoch)
  exact ⟨hok.fence, (fun hdone => nomatch hdone), o, ho, (of_decide_eq_true hid).symm,
    fun _ => ⟨r, hr, hdev, hlt⟩⟩

theorem le_nextFence (a : Authority) : a.metaRow.executorFence ≤ nextFence a := by
  unfold nextFence
  split <;> omega

theorem claim_grows (h : JobsInv s a) (ho : o ∈ a.operations) (hr : r ∈ a.devices)
    (hdev : r.deviceId = o.deviceId) (hgen : o.generation = r.generation) :
    AuthGrows a (claimJob o.operationId a) :=
  { AuthGrows.refl a with
    metaRow := rfl
    fence := le_nextFence a
    outbox := by
      refine covers_update OutboxGrows.refl ?_ fun x hx hid => ⟨rfl, Nat.le_succ _,
        (h.outbox x hx).fence.trans (le_nextFence a), fun hs => ?_⟩
      · exact fun _ => rfl
      exact absurd hs (latest_not_superseded h ho hr hdev hgen hx (of_decide_eq_true hid)) }

theorem claim_inv (h : AuthInv s sc a) (ho : o ∈ a.operations) (hr : r ∈ a.devices)
    (hdev : r.deviceId = o.deviceId) (hgen : o.generation = r.generation)
    (hfence : nextFence a ≠ maxInt64) : AuthInv s sc (claimJob o.operationId a) := by
  have hlt : nextFence a < maxInt64 := by
    have hmax := h.jobs.fence
    unfold nextFence at hfence ⊢
    split at hfence <;> split <;> omega
  refine inv_of_outbox h rfl (claim_grows h.jobs ho hr hdev hgen) hlt fun x _ hok => ?_
  obtain ⟨o, ho, hid, -⟩ := hok.owned
  exact ⟨le_rfl, (fun hdone => nomatch hdone), o, ho, hid, fun hs => nomatch hs⟩

/-! ## Intents -/

theorem upsertIntent_rows (t : Table IntentRow.key) (i : IntentRow) :
    ∃ n : IntentRow, n.key = i.key ∧
      (∀ j, j ∈ upsertIntent t i ↔ j = n ∨ j ∈ t ∧ j.key ≠ i.key) ∧
      ((∀ old ∈ t, old.key ≠ i.key) ∧ n = i ∨
        ∃ old ∈ t, old.key = i.key ∧ n = { old with fence := i.fence, state := .prepared }) := by
  unfold upsertIntent
  cases hfind : t.find i.key with
  | none => exact ⟨i, rfl, fun j => mem_put, .inl ⟨find_eq_none.mp hfind, rfl⟩⟩
  | some old =>
    obtain ⟨hold, hkey⟩ := find_eq_some.mp hfind
    refine ⟨{ old with fence := i.fence, state := .prepared }, hkey, fun j => ?_,
      .inr ⟨old, hold, hkey, rfl⟩⟩
    rw [← hkey]
    exact mem_put

/-- A property of rows that survives refreshing holds after any number of upserts. -/
theorem upsertIntents_rule {P : IntentRow → Prop} {is : List IntentRow} {t : Table IntentRow.key}
    (ht : ∀ j ∈ t, P j) (hnew : ∀ i ∈ is, P i)
    (hold : ∀ i ∈ is, ∀ old, P old → P { old with fence := i.fence, state := .prepared }) :
    ∀ j ∈ is.foldl upsertIntent t, P j := by
  induction is generalizing t with
  | nil => exact ht
  | cons i rest ih =>
    rw [foldl_cons]
    apply ih
    · intro j hj
      obtain ⟨n, -, hmem, hn⟩ := upsertIntent_rows t i
      rcases (hmem j).mp hj with rfl | ⟨hjt, -⟩
      · rcases hn with ⟨-, rfl⟩ | ⟨old, hot, -, rfl⟩
        · exact hnew j mem_cons_self
        · exact hold i mem_cons_self old (ht old hot)
      · exact ht j hjt
    · exact fun i hi => hnew i (mem_cons_of_mem _ hi)
    · exact fun i hi => hold i (mem_cons_of_mem _ hi)

theorem upsertIntents_covers (fence : ℕ) {is : List IntentRow} {t : Table IntentRow.key}
    (ht : ∀ j ∈ t, j.fence ≤ fence) (hnew : ∀ i ∈ is, i.fence = fence) :
    Covers IntentGrows t (is.foldl upsertIntent t) := by
  induction is generalizing t with
  | nil => exact covers_refl IntentGrows.refl t
  | cons i rest ih =>
    obtain ⟨n, -, hmem, hn⟩ := upsertIntent_rows t i
    have hfence : i.fence = fence := hnew i mem_cons_self
    have hbound : ∀ j ∈ upsertIntent t i, j.fence ≤ fence := by
      intro j hj
      rcases (hmem j).mp hj with rfl | ⟨hjt, -⟩
      · rcases hn with ⟨hfree, rfl⟩ | ⟨old, -, -, rfl⟩
        · exact hfence.le
        · exact hfence.le
      · exact ht j hjt
    have hfirst : Covers IntentGrows t (upsertIntent t i) := by
      intro j hj
      by_cases hj' : j.key = i.key
      · refine ⟨n, (hmem n).mpr (.inl rfl), ?_⟩
        rcases hn with ⟨hfree, rfl⟩ | ⟨old, hot, hok, rfl⟩
        · exact absurd hj' (hfree j hj)
        · cases Table.eq_of_key hot hj (hok.trans hj'.symm)
          exact ⟨⟨rfl, rfl, rfl, rfl, rfl, rfl⟩, (ht j hj).trans hfence.ge⟩
      · exact ⟨j, (hmem j).mpr (.inr ⟨hj, hj'⟩), IntentGrows.refl j⟩
    exact covers_trans IntentGrows.trans hfirst
      (ih hbound fun i hi => hnew i (mem_cons_of_mem _ hi))

theorem intents_grows (h : JobsInv s a) (hf : FrameOk s a f) (actions : List PlannedAction) :
    AuthGrows a (announceIntents f actions a) :=
  { AuthGrows.refl a with
    intents := by
      refine upsertIntents_covers f.fence ?_ ?_
      · intro j hj
        rw [hf.fence]
        exact (h.intents j hj).fence.2
      · intro i hi
        obtain ⟨x, -, rfl⟩ := mem_map.mp hi
        rfl }

theorem intents_inv (h : AuthInv s sc a) (hf : FrameOk s a f) {actions : List PlannedAction}
    (hact : ∀ x ∈ actions, ∃ b ∈ a.bindings, b.deviceId = f.device.id ∧ b.publicKey = x.key ∧
      b.address = x.address) : AuthInv s sc (announceIntents f actions a) := by
  have hg := intents_grows h.jobs hf actions
  refine ⟨core_of_eq h.core hg rfl rfl rfl rfl rfl, jobs_of_grows h.jobs hg h.jobs.fence
    (fun _ ho => .inl ho) (fun x hx => outboxOk_grows hg (h.jobs.outbox x hx)) ?_⟩
  have hfence : ∀ i ∈ actions.map (intentOf f), i.fence = a.metaRow.executorFence := by
    intro i hi
    obtain ⟨x, -, rfl⟩ := mem_map.mp hi
    exact hf.fence
  have hpos : 0 < a.metaRow.executorFence := hf.fence ▸ hf.fence_pos
  refine upsertIntents_rule (fun j hj => intentOk_grows hg (h.jobs.intents j hj)) ?_ ?_
  · intro i hi
    obtain ⟨x, hx, rfl⟩ := mem_map.mp hi
    obtain ⟨b, hb, hdev, hkey, haddr⟩ := hact x hx
    obtain ⟨o, ho, hid, hodev, hgen⟩ := hf.operation
    exact ⟨hf.epoch, ⟨hf.fence_pos, hf.fence.le⟩,
      o, ho, b, hb, hid, hkey, hodev.trans hdev.symm, haddr, hgen⟩
  · intro i hi old hold
    refine ⟨hold.epoch, ⟨?_, ?_⟩, hold.owned⟩
    · exact (hfence i hi).symm ▸ hpos
    · exact (hfence i hi).le

/-! ## Enrollment -/

theorem enroll_grows {t : Table DeviceRow.deviceId}
    (h : a.devices.insert r = some t) : AuthGrows a { a with devices := t } :=
  { AuthGrows.refl a with devices := covers_insert DeviceGrows.refl h }

variable {now : ℤ}

theorem enroll_inv (h : AuthInv s sc a) {id owner : String} {validUntil : ℤ}
    {t : Table DeviceRow.deviceId} (hnow : sc.time now) (hid : identifier id = true)
      (howner : identifier owner = true) (hlater : now < validUntil)
    (hyear : validUntil < year2201) (hroom : (a.devices.rows.length : ℤ) < s.resources.devices)
    (ht : a.devices.insert (freshDevice id owner validUntil) = some t) :
    AuthInv s sc { a with devices := t } := by
  have hg := enroll_grows ht
  have hkeep : ∀ r ∈ a.devices, r ∈ t := fun r hr => (mem_of_insert ht r).mpr (.inl hr)
  refine ⟨?_, jobs_of_grows h.jobs hg h.jobs.fence (fun _ ho => .inl ho)
    (fun x hx => outboxOk_grows hg (h.jobs.outbox x hx))
    fun i hi => intentOk_grows hg (h.jobs.intents i hi)⟩
  refine ⟨?_, ?_, ?_, ?_, h.core.quota, ?_, ?_, h.core.unique⟩
  · intro r hr
    rcases (mem_of_insert ht r).mp hr with hr | rfl
    · exact deviceOk_grows hg (h.core.devices r hr) (h.core.devices r hr).current
    · refine ⟨⟨hid, howner⟩, ⟨now, hnow, hlater, hyear⟩, le_rfl, .inl ⟨rfl, rfl⟩, ?_, nofun⟩
      intro g hpos hle
      exact absurd hpos (Nat.not_lt.mpr hle)
  · rw [(insert_eq_some ht).1, length_append]
    push_cast
    exact hroom
  · exact fun x hx => addressOwner_grows hg (h.core.addresses x hx)
  · intro b hb
    have hok := h.core.bindings b hb
    obtain ⟨r, hr, rest⟩ := hok.owned
    exact bindingOk_grows hg hok ⟨r, hkeep r hr, rest⟩
  · exact fun x hx => tombstoneOk_grows hg (h.core.tombstones x hx)
  · exact fun o ho => operationOk_grows hg (h.core.operations o ho)

/-! ## Verified results -/

theorem settleBinding_same (d : Device) (b : BindingRow) :
    (settleBinding d b).publicKey = b.publicKey ∧
    (settleBinding d b).deviceId = b.deviceId ∧ (settleBinding d b).address = b.address ∧
    (settleBinding d b).managedBy = b.managedBy ∧
    (settleBinding d b).createdGeneration = b.createdGeneration ∧
    (settleBinding d b).revokedGeneration = b.revokedGeneration := by
  unfold settleBinding
  split_ifs <;> exact ⟨rfl, rfl, rfl, rfl, rfl, rfl⟩

theorem mem_settle_bindings :
    b ∈ (settle f now a).bindings ↔ ∃ x ∈ a.bindings, settleBinding f.device x = b := by
  dsimp only [settle]
  rw [mem_update]
  simp only [if_true]

theorem mem_settle_devices {x : DeviceRow} (hr : r ∈ a.devices) (hd : r.device = f.device) :
    x ∈ (settle f now a).devices ↔ x ∈ a.devices ∧ x.deviceId ≠ r.deviceId ∨
      x = { r with appliedGeneration := r.generation } := by
  have hgen : f.device.generation = r.generation := by rw [← hd]; rfl
  have hid : f.device.id = r.deviceId := by rw [← hd]; rfl
  dsimp only [settle]
  rw [hgen, hid, mem_update_single hr]
  intro y hy
  constructor
  · intro hp
    simp only [Bool.and_eq_true, decide_eq_true_eq] at hp
    exact hp.1
  · intro hk
    cases Table.eq_of_key hy hr hk
    simp

theorem result_grows (h : AuthInv s sc a) (hf : FrameOk s a f) (now : ℤ) :
    AuthGrows a (settle f now a) := by
  obtain ⟨r, hr, hd⟩ := hf.device
  have hgen : f.device.generation = r.generation := by rw [← hd]; rfl
  have hid : f.device.id = r.deviceId := by rw [← hd]; rfl
  obtain ⟨o, ho, hoid, hodev, hogen⟩ := hf.operation
  refine { AuthGrows.refl a with
    devices := ?_, bindings := ?_, tombstones := ?_, outbox := ?_, intents := ?_ }
  · intro x hx
    by_cases hk : x.deviceId = r.deviceId
    · cases Table.eq_of_key hx hr hk
      exact ⟨_, (mem_settle_devices hr hd).mpr (.inr rfl), ⟨rfl, rfl, rfl⟩, le_rfl,
        (h.core.devices r hr).applied, id, id, fun _ => ⟨rfl, rfl, rfl⟩⟩
    · exact ⟨x, (mem_settle_devices hr hd).mpr (.inl ⟨hx, hk⟩), DeviceGrows.refl x⟩
  · intro b hb
    refine ⟨_, mem_settle_bindings.mpr ⟨b, hb, rfl⟩, ?_⟩
    unfold settleBinding
    split_ifs with hdev
    · exact BindingGrows.refl b
    · obtain ⟨r', hr', hdev', -, -, hle, -⟩ := (h.core.bindings b hb).owned
      cases Table.eq_of_key hr' hr (hdev'.trans ((not_not.mp hdev).trans hid))
      exact { BindingGrows.refl b with removed := hle.trans hgen.ge }
    · exact { BindingGrows.refl b with applied := fun _ => rfl }
    · exact BindingGrows.refl b
  · refine covers_update TombstoneGrows.refl ?_ fun t _ hp => ⟨⟨rfl, rfl, rfl, rfl⟩, .inl ?_⟩
    · exact fun _ => rfl
    simp only [Bool.and_eq_true, decide_eq_true_eq] at hp
    exact hp.1
  · refine covers_update OutboxGrows.refl ?_ fun x hx hp => ⟨rfl, le_rfl, le_rfl, fun hs => ?_⟩
    · exact fun _ => rfl
    simp only [Bool.and_eq_true, decide_eq_true_eq] at hp
    have hlatest := latest_not_superseded h.jobs ho hr (hid.symm.trans hodev.symm)
      (hogen.trans hgen) hx (hp.1.trans hoid.symm)
    exact absurd hs hlatest
  · refine covers_update IntentGrows.refl ?_ fun i _ _ => ⟨⟨rfl, rfl, rfl, rfl, rfl, rfl⟩, le_rfl⟩
    exact fun _ => rfl

theorem current_settle (f : Frame) (now : ℤ) (h : Current a r) : Current (settle f now a) r := by
  rcases h with h | ⟨hact, b, hb, hdev, hrev, hcre, hkey, haddr⟩
  · exact .inl h
  · obtain ⟨h1, h2, h3, -, h5, h6⟩ := settleBinding_same f.device b
    refine .inr ⟨hact, _, mem_settle_bindings.mpr ⟨b, hb, rfl⟩, ?_⟩
    rw [h1, h2, h3, h5, h6]
    exact ⟨hdev, hrev, hcre, hkey, haddr⟩

/-- A result changes nothing of a device but what is applied. -/
theorem settle_device (now : ℤ) (hf : FrameOk s a f) (hr : r ∈ a.devices) :
    ∃ n, { r with appliedGeneration := n } ∈ (settle f now a).devices := by
  obtain ⟨d, hd, hdev⟩ := hf.device
  by_cases hk : r.deviceId = d.deviceId
  · cases Table.eq_of_key hr hd hk
    exact ⟨_, (mem_settle_devices hd hdev).mpr (.inr rfl)⟩
  · exact ⟨r.appliedGeneration, (mem_settle_devices hd hdev).mpr (.inl ⟨hr, hk⟩)⟩

theorem bindingOk_settle (hg : AuthGrows a (settle f now a)) (hf : FrameOk s a f)
    (hok : BindingOk s a b) :
    BindingOk s (settle f now a) (settleBinding f.device b) := by
  obtain ⟨r, hr, hdev, hcre, hrev, hrem, hcur⟩ := hok.owned
  obtain ⟨n, hn⟩ := settle_device now hf hr
  have hold := bindingOk_grows hg hok ⟨_, hn, hdev, hcre, hrev, hrem, hcur⟩
  unfold settleBinding
  split_ifs with hother hrevoked
  · exact hold
  · obtain ⟨r', hr', hd⟩ := hf.device
    have hid : f.device.id = r'.deviceId := by rw [← hd]; rfl
    have hgen : f.device.generation = r'.generation := by rw [← hd]; rfl
    cases Table.eq_of_key hr hr' (hdev.trans ((not_not.mp hother).trans hid))
    exact { hold with
      removed := fun hz => absurd hz hrevoked.ne'
      owned := ⟨_, hn, hdev, hcre, hrev, hgen.le, hcur⟩ }
  · exact { hold with }
  · exact hold

theorem result_core (h : AuthInv s sc a) (hf : FrameOk s a f) (now : ℤ) :
    CoreInv s sc (settle f now a) := by
  have hg := result_grows h hf now
  obtain ⟨r, hr, hd⟩ := hf.device
  refine ⟨?_, ?_, ?_, ?_, ?_, ?_, ?_, h.core.unique⟩
  · intro x hx
    rcases (mem_settle_devices hr hd).mp hx with ⟨hx, -⟩ | rfl
    · have hok := h.core.devices x hx
      exact deviceOk_grows hg hok (current_settle f now hok.current)
    have hok := h.core.devices r hr
    refine ⟨hok.names, hok.valid, le_rfl, current_settle f now hok.current, fun g hpos hle => ?_,
      hok.revoked⟩
    obtain ⟨o, ho, hdev, hgen, hlatest⟩ := hok.history g hpos hle
    exact ⟨o, ho, hdev, hgen, fun hg =>
      ⟨(hlatest hg).state, (hlatest hg).apply, (hlatest hg).other⟩⟩
  · dsimp only [settle]
    rw [update_length]
    exact h.core.room
  · exact fun x hx => addressOwner_grows hg (h.core.addresses x hx)
  · intro b' hb'
    obtain ⟨b, hb, rfl⟩ := mem_settle_bindings.mp hb'
    exact bindingOk_settle hg hf (h.core.bindings b hb)
  · intro id
    dsimp only [settle]
    rw [count_update fun b => by rw [(settleBinding_same f.device b).2.1]]
    exact h.core.quota id
  · intro t ht
    dsimp only [settle] at ht
    obtain ⟨t', ht', rfl⟩ := mem_update.mp ht
    have hok := tombstoneOk_grows hg (h.core.tombstones t' ht')
    split
    · exact ⟨hok.time, hok.positive, hok.grave⟩
    · exact hok
  · exact fun o ho => operationOk_grows hg (h.core.operations o ho)

theorem result_inv (h : AuthInv s sc a) (hf : FrameOk s a f) (now : ℤ) :
    AuthInv s sc (settle f now a) := by
  have hg := result_grows h hf now
  refine ⟨result_core h hf now, jobs_of_grows h.jobs hg h.jobs.fence (fun _ ho => .inl ho) ?_ ?_⟩
  · intro x hx
    dsimp only [settle] at hx
    obtain ⟨y, hy, rfl⟩ := mem_update.mp hx
    have hok := outboxOk_grows hg (h.jobs.outbox y hy)
    split_ifs with hp
    · simp only [Bool.and_eq_true, decide_eq_true_eq] at hp
      obtain ⟨o, ho, hid, -⟩ := hok.owned
      refine ⟨hok.fence, fun _ => ⟨?_, by simp⟩, o, ho, hid, fun hs => absurd hs (by simp)⟩
      exact hp.2.symm ▸ hf.fence_pos
    · exact hok
  · intro i hi
    dsimp only [settle] at hi
    obtain ⟨j, hj, rfl⟩ := mem_update.mp hi
    have hok := intentOk_grows hg (h.jobs.intents j hj)
    split
    · exact ⟨hok.epoch, hok.fence, hok.owned⟩
    · exact hok

end DaxiangVpn.DeviceAuthInvariant
