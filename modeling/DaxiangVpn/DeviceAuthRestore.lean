import DaxiangVpn.DeviceAuthMoves

/-!
# Backups against later databases

`restoreCompare` decides whether the latest database can be a later state of the
store a backup was taken from: retained rows are still there, immutable columns
are unchanged, and mutable ones have moved forward. What `Grows` says about runs
is all of that except for finished jobs, which `Process` may claim again.
-/

namespace DaxiangVpn.DeviceAuthRestore

open CheckedSteps RelationTable DeviceAuthTables DeviceAuthSubmit DeviceAuthProcess
open DeviceAuthWorld DeviceAuthChanges DeviceAuthFrames DeviceAuthGrowth
  DeviceAuthMoves TransitionRun

/-! ## The comparison -/

section

variable {κ ρ : Type} [DecidableEq κ] [DecidableEq ρ] {key : ρ → κ}

/-- One table of `restoreCompare`; `carry` puts the mutable columns of the older
row into the newer one, so that the others remain to be compared. -/
def compareTable (carry : ρ → ρ → ρ) (moved : ρ → ρ → Except String Unit)
    (backup latest : Table key) : Except String Unit :=
  eachRow (fun old => do
    let now ← demand (latest.find (key old)) "latest_missing_retained_history"
    deny (carry old now ≠ old) "immutable_authority_fact_changed"
    moved old now) backup.rows

/-- A table without mutable columns. -/
def compareFixed (backup latest : Table key) : Except String Unit :=
  compareTable (fun _ now => now) (fun _ _ => .ok ()) backup latest

/-- A comparison passes when every row of the backup has such a successor. -/
theorem compareTable_ok {R : ρ → ρ → Prop} {carry : ρ → ρ → ρ} {moved : ρ → ρ → Except String Unit}
    {backup latest : Table key} (h : Covers R backup latest)
      (hkey : ∀ old now, R old now → key now = key old)
    (hcarry : ∀ old now, R old now → carry old now = old)
    (hmoved : ∀ old now, R old now → moved old now = .ok ()) :
    compareTable carry moved backup latest = .ok () := by
  rw [compareTable, eachRow_ok]
  intro old hold
  obtain ⟨now, hnow, hR⟩ := h old hold
  rw [demand_bind_ok]
  refine ⟨now, find_eq_some.mpr ⟨hnow, hkey old now hR⟩, ?_⟩
  rw [deny_bind_ok]
  exact ⟨by simp [hcarry old now hR], hmoved old now hR⟩

/-- A table without mutable columns passes when all rows are still there. -/
theorem compareFixed_ok {backup latest : Table key} (h : ∀ r ∈ backup, r ∈ latest) :
    compareFixed backup latest = .ok () :=
  compareTable_ok (covers_of_subset (R := Eq) (fun _ => rfl) h)
    (fun _ _ h => by rw [h]) (fun _ _ h => h.symm) fun _ _ _ => rfl

end

/-- A nullable column was set and has another value now. -/
def rewritten {α : Type} [DecidableEq α] (old now : Option α) : Bool :=
  decide (old ≠ none) && decide (now ≠ old)

theorem rewritten_eq_false {α : Type} [DecidableEq α] {old now : Option α} (h : Sticky old now) :
    rewritten old now = false := by
  rcases h with h | h <;> simp [rewritten, h]

/-- `deviceauth_meta`. -/
def compareMeta (old now : MetaRow) : Except String Unit := do
  deny ({ now with executorFence := old.executorFence } ≠ old) "immutable_authority_fact_changed"
  deny (now.executorFence < old.executorFence) "executor_watermark_regressed"

/-- `deviceauth_devices`. -/
def deviceMoved (old now : DeviceRow) : Except String Unit := do
  deny (now.generation < old.generation || now.appliedGeneration < old.appliedGeneration ||
    (old.state ≠ .active && now.state = .active) ||
    (old.state = .revoked && now.state ≠ .revoked)) "device_authority_regressed"
  deny (now.generation = old.generation && (now.state ≠ old.state ||
    now.currentKey ≠ old.currentKey || now.currentAddress ≠ old.currentAddress))
    "device_generation_conflict"

/-- `deviceauth_bindings`. -/
def bindingMoved (old now : BindingRow) : Except String Unit := do
  deny (now.revokedGeneration < old.revokedGeneration ||
    now.removedGeneration < old.removedGeneration || now.applied.toNat < old.applied.toNat)
    "binding_negative_fact_regressed"
  deny (0 < old.revokedGeneration && now.revokedGeneration ≠ old.revokedGeneration)
    "binding_revocation_changed"

/-- `deviceauth_outbox`. -/
def outboxMoved (old now : OutboxRow) : Except String Unit :=
  deny (now.attempts < old.attempts || now.fence < old.fence ||
    ((old.state = .done || old.state = .superseded) && old.state ≠ now.state))
    "outbox_history_regressed"

/-- `restoreCompare`; challenges are not compared. -/
def restoreCompare (backup latest : DB) : Except String Unit := do
  compareMeta backup.metaRow latest.metaRow
  compareTable (fun old now => { now with
    state := old.state, generation := old.generation, appliedGeneration := old.appliedGeneration,
    currentKey := old.currentKey, currentAddress := old.currentAddress })
    deviceMoved backup.devices latest.devices
  compareFixed backup.addresses latest.addresses
  compareTable (fun old now => { now with
    revokedGeneration := old.revokedGeneration, removedGeneration := old.removedGeneration,
    applied := old.applied })
    bindingMoved backup.bindings latest.bindings
  compareTable (fun old now => { now with verifiedAt := old.verifiedAt })
    (fun old now => deny (rewritten old.verifiedAt now.verifiedAt)
      "tombstone_verification_regressed")
    backup.tombstones latest.tombstones
  compareFixed backup.operations latest.operations
  compareTable (fun old now => { old with operationId := now.operationId })
    outboxMoved backup.outbox latest.outbox
  compareTable (fun old now => { now with fence := old.fence, state := old.state })
    (fun old now => deny (now.fence < old.fence) "intent_fence_regressed")
    backup.intents latest.intents
  compareTable (fun old now => { now with
    consumedDevice := old.consumedDevice, consumedAt := old.consumedAt })
    (fun old now => deny (rewritten old.consumedDevice now.consumedDevice ||
      rewritten old.consumedAt now.consumedAt) "activation_consumption_regressed")
    backup.activations latest.activations
  compareTable
    (fun old now => { now with revokedAt := old.revokedAt, replacedBy := old.replacedBy })
    (fun old now => deny (rewritten old.revokedAt now.revokedAt ||
      rewritten old.replacedBy now.replacedBy) "credential_negative_fact_regressed")
    backup.credentials latest.credentials
  compareFixed backup.requests latest.requests
  compareFixed backup.receipts latest.receipts
  compareFixed backup.cancellations latest.cancellations
  compareFixed backup.audit latest.audit

/-! ## Growth passes the comparison -/

theorem deviceMoved_ok {old now : DeviceRow} (h : DeviceGrows old now) :
    deviceMoved old now = .ok () := by
  rw [deviceMoved, deny_bind_ok, deny_ok]
  refine ⟨by simpa [h.generation, h.applied] using ⟨h.left, h.revoked⟩, ?_⟩
  by_cases hg : now.generation = old.generation
  · obtain ⟨hs, hk, ha⟩ := h.still hg
    simp [hs, hk, ha]
  · simp [hg]

theorem bindingMoved_ok {old now : BindingRow} (h : BindingGrows old now) :
    bindingMoved old now = .ok () := by
  have hrevoked : old.revokedGeneration ≤ now.revokedGeneration := by
    rcases h.revoked with hr | hr <;> omega
  have happlied : old.applied.toNat ≤ now.applied.toNat := by
    cases ha : old.applied with
    | false => exact Nat.zero_le _
    | true => rw [h.applied ha]
  rw [bindingMoved, deny_bind_ok, deny_ok]
  refine ⟨by simp [hrevoked, h.removed, happlied], ?_⟩
  rcases h.revoked with hr | hr <;> simp [hr]

/-- Jobs that evolved, finished ones staying finished. -/
def JobGrows (old now : OutboxRow) : Prop :=
  OutboxGrows old now ∧ (old.state = .done → now.state = .done)

theorem outboxMoved_ok {old now : OutboxRow} (h : JobGrows old now) :
    outboxMoved old now = .ok () := by
  have hfinal : old.state = .done ∨ old.state = .superseded → old.state = now.state := by
    rintro (hs | hs)
    · rw [hs, h.2 hs]
    · rw [hs, h.1.superseded hs]
  rw [outboxMoved, deny_ok]
  simpa [h.1.attempts, h.1.fence] using hfinal

/-- A database that evolved, finished jobs staying finished, passes the comparison. -/
theorem restoreCompare_ok {db db' : DB} (h : Grows db db')
    (hjobs : Covers JobGrows db.outbox db'.outbox) : restoreCompare db db' = .ok () := by
  have ha := h.authority
  have hr := h.registry
  have hmeta : compareMeta db.metaRow db'.metaRow = .ok () := by
    rw [compareMeta, deny_bind_ok, deny_ok]
    refine ⟨?_, by simpa using ha.fence⟩
    rw [ha.metaRow]
    simp
  simp only [restoreCompare, bind_ok]
  refine ⟨(), hmeta, (), ?_, (), compareFixed_ok ha.addresses, (), ?_, (), ?_, (),
    compareFixed_ok fun _ => ha.operation, (), ?_, (), ?_, (), ?_, (), ?_, (),
    compareFixed_ok hr.requests, (), compareFixed_ok hr.receipts, (),
    compareFixed_ok hr.cancellations, compareFixed_ok hr.audit⟩
  · refine compareTable_ok ha.devices (fun _ _ h => h.same.1) ?_ fun _ _ => deviceMoved_ok
    rintro ⟨⟩ ⟨⟩ ⟨⟨rfl, rfl, rfl⟩, -⟩
    rfl
  · refine compareTable_ok ha.bindings (fun _ _ h => h.same.1) ?_ fun _ _ => bindingMoved_ok
    rintro ⟨⟩ ⟨⟩ ⟨⟨rfl, rfl, rfl, rfl, rfl⟩, -⟩
    rfl
  · refine compareTable_ok ha.tombstones ?_ ?_ fun _ _ h =>
      deny_ok.mpr (rewritten_eq_false h.verified)
    · rintro ⟨⟩ ⟨⟩ ⟨⟨rfl, rfl, -⟩, -⟩
      rfl
    · rintro ⟨⟩ ⟨⟩ ⟨⟨rfl, rfl, rfl, rfl⟩, -⟩
      rfl
  · refine compareTable_ok hjobs (fun _ _ h => h.1.same) ?_ fun _ _ => outboxMoved_ok
    rintro ⟨⟩ ⟨⟩ ⟨⟨rfl, -⟩, -⟩
    rfl
  · refine compareTable_ok ha.intents ?_ ?_ fun _ _ h => deny_ok.mpr (by simpa using h.fence)
    · rintro ⟨⟩ ⟨⟩ ⟨⟨rfl, rfl, rfl, -⟩, -⟩
      rfl
    · rintro ⟨⟩ ⟨⟩ ⟨⟨rfl, rfl, rfl, rfl, rfl, rfl⟩, -⟩
      rfl
  · refine compareTable_ok hr.activations (fun _ _ h => h.same.1) ?_ fun _ _ h =>
      deny_ok.mpr (by simp [rewritten_eq_false h.device, rewritten_eq_false h.time])
    rintro ⟨⟩ ⟨⟩ ⟨⟨rfl, rfl, rfl, rfl, rfl⟩, -⟩
    rfl
  · refine compareTable_ok hr.credentials (fun _ _ h => h.same.1) ?_ fun _ _ h =>
      deny_ok.mpr (by simp [rewritten_eq_false h.revoked, rewritten_eq_false h.replaced])
    rintro ⟨⟩ ⟨⟩ ⟨⟨rfl, rfl, rfl, rfl⟩, -⟩
    rfl

/-! ## Finished jobs -/

/-- `Process` is not called for a finished job. -/
def spared (a : Authority) (id : String) : Prop :=
  ∀ x ∈ a.outbox, x.operationId = id → x.state ≠ .done

/-- Runs in which finished jobs are left alone. -/
def sparing : Scope := ⟨fun _ => True, fun _ => True, spared, fun _ _ => True⟩

/-- Evolution of a job as far as finishing goes. -/
def DoneKept (old now : OutboxRow) : Prop :=
  now.operationId = old.operationId ∧ (old.state = .done → now.state = .done)

theorem doneKept_refl (x : OutboxRow) : DoneKept x x := ⟨rfl, id⟩

theorem doneKept_trans (a b c : OutboxRow) (h : DoneKept a b) (h' : DoneKept b c) : DoneKept a c :=
  ⟨h'.1.trans h.1, h'.2 ∘ h.2⟩

theorem doneKept_update {t : Table OutboxRow.operationId} {p : OutboxRow → Bool}
    {f : OutboxRow → OutboxRow} (hf : ∀ x, (f x).operationId = x.operationId)
    (h : ∀ x ∈ t, p x = true → x.state ≠ .done) : Covers DoneKept t (t.update p f hf) :=
  covers_update doneKept_refl hf fun x hx hp => ⟨hf x, fun hs => absurd hs (h x hx hp)⟩

variable {s : Store} {db db' : DB}

/-- A change of the authority that leaves finished jobs alone keeps them. -/
theorem authChange_done {a a' : Authority} (h : AuthChange s sparing a a') :
    Covers DoneKept a.outbox a'.outbox := by
  have hunfinished : ∀ x : OutboxRow, unfinished x = true → x.state ≠ .done := by
    intro x hx hs
    simp [unfinished, hs] at hx
  cases h with
  | enroll | intents => exact covers_refl doneKept_refl _
  | @commit now id cmd r a' hnow hr hid howner hactive hcmd hscope hnew h =>
    have hold : Covers DoneKept a.outbox (supersedeJobs r.device (r.device.generation + 1) a) := by
      refine doneKept_update _ fun x hx hp => hunfinished x ?_
      rw [outdated, Bool.and_eq_true] at hp
      exact hp.1
    exact covers_trans doneKept_trans hold
      (covers_of_subset doneKept_refl fun x hx => (h.outbox x).mpr (.inl hx))
  | mark hp => exact doneKept_update (by exact fun _ => rfl) fun x hx hpx =>
    hunfinished x (hp x hpx)
  | supersede ho hr hdev hold htouch | claim ho hr hdev hgen hfence htouch =>
    exact doneKept_update (by exact fun _ => rfl) fun x hx hp => htouch x hx (of_decide_eq_true hp)
  | result =>
    refine covers_update doneKept_refl ?_ fun x hx hp => ⟨rfl, fun _ => rfl⟩
    exact fun _ => rfl

theorem changes_done (h : Changes s sparing db db') : Covers DoneKept db.outbox db'.outbox := by
  induction h with
  | refl => exact covers_refl doneKept_refl _
  | tail _ hlast ih =>
    refine covers_trans doneKept_trans ih ?_
    cases hlast with
    | authority h => exact authChange_done h
    | registry | activate => exact covers_refl doneKept_refl _

/-- Jobs that evolved and stay finished are one and the same row. -/
theorem covers_job (h : Covers OutboxGrows db.outbox db'.outbox)
    (hdone : Covers DoneKept db.outbox db'.outbox) : Covers JobGrows db.outbox db'.outbox := by
  intro x hx
  obtain ⟨y, hy, hgrows⟩ := h x hx
  obtain ⟨z, hz, hzid, hzdone⟩ := hdone x hx
  cases Table.eq_of_key hz hy (hzid.trans hgrows.same.symm)
  exact ⟨y, hy, hgrows, hzdone⟩

/-- A backup taken at any time of a run passes the comparison with the database at
any later time, unless `Process` was called for a finished job in between. -/
theorem run_compared (s : Store) (runtime : List Peer) (time : ℤ) (inputs later : List Input)
    (h : Along (step s) (fun w i => ∀ id, i.act = .process id → spared w.db.toAuthority id)
      (run (step s) (init s runtime time) inputs) later) :
    restoreCompare (run (step s) (init s runtime time) inputs).db
      (run (step s) (init s runtime time) (inputs ++ later)).db = .ok () := by
  rw [run_append]
  have hinv : WorldInv s .all (run (step s) (init s runtime time) inputs) :=
    run_worldInv (init_worldInv s .all runtime time) (along_all s _ _)
  refine restoreCompare_ok (run_grows hinv (along_all s _ _)) (covers_job
    (run_grows hinv (along_all s _ _)).authority.outbox ?_)
  refine run_related (FrameInv s) (fun w w' => Covers DoneKept w.db.outbox w'.db.outbox)
    (fun w => covers_refl doneKept_refl _) (fun _ _ _ => covers_trans doneKept_trans)
    (fun w i hw _ => step_frameInv hw i) (fun w i hw hok => ?_) hinv.frame h
  exact changes_done (step_changes hw ⟨fun _ => trivial, fun _ _ _ _ => trivial,
    fun _ _ _ _ => trivial, hok, fun _ _ _ _ _ => trivial⟩)

/-- A backup before the first attempt and the database after the verified result. -/
theorem sampleConverged_compared :
    restoreCompare (run (step sampleStore) (init sampleStore [] 0) (sampleConverged.take 2)).db
      (run (step sampleStore) (init sampleStore [] 0) sampleConverged).db = .ok () := by
  refine run_compared sampleStore [] 0 (sampleConverged.take 2) (sampleConverged.drop 2)
    ⟨?_, ?_, ?_, ?_, ?_, ?_, trivial⟩
  · rintro id ⟨⟩
    unfold spared
    decide +kernel
  all_goals rintro id ⟨⟩

/-- A finished operation that is processed once more is superseded, and the comparison of a backup
from before with the database of the device that has converged again fails. -/
theorem reclaimed_regresses :
    (run (step sampleStore) (init sampleStore [] 0) sampleConverged).db.outbox.rows.map
      (·.state) = [.done] ∧
      (run (step sampleStore) (init sampleStore [] 0) sampleReplaced).db.outbox.rows.map (·.state) =
        [.superseded, .done] ∧
      restoreCompare (run (step sampleStore) (init sampleStore [] 0) sampleConverged).db
        (run (step sampleStore) (init sampleStore [] 0) sampleReplaced).db =
          .error "outbox_history_regressed" := by
  decide +kernel

end DaxiangVpn.DeviceAuthRestore
