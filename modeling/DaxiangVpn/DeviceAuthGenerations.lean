import DaxiangVpn.DeviceAuthInvariant

/-!
# New generations

A committed command revokes the device's keys, writes their tombstones, may add
one key, moves the device to the next generation and supersedes its older jobs.
It keeps the invariant of the authority, and so does every other change.
-/

namespace DaxiangVpn.DeviceAuthGenerations

open RelationTable DeviceAuthTables DeviceAuthSubmit Nat DeviceAuthChanges DeviceAuthGrowth
  DeviceAuthInvariant

/-! ## Growth of a commit -/

variable {s : Store} {sc : Scope} {a a' : Authority} {now : ℤ} {id : String} {cmd : Command}
  {r : DeviceRow} {b : BindingRow}

section

variable (h : Committed s now id cmd r.device a a')
include h

theorem mem_commit_devices (hr : r ∈ a.devices) {x : DeviceRow} : x ∈ a'.devices ↔ x ∈ a.devices ∧
    x.deviceId ≠ r.deviceId ∨ x = advanceDevice cmd r.device (r.generation + 1) r := by
  rw [h.devices]
  refine mem_update_single hr fun y hy => ⟨fun hp => ?_, fun hk => ?_⟩
  · simp only [Bool.and_eq_true, decide_eq_true_eq] at hp
    exact hp.1
  · cases Table.eq_of_key hy hr hk
    simp [DeviceRow.device]

theorem mem_commit_bindings :
    b ∈ a'.bindings ↔ (∃ x ∈ a.bindings, revokeBinding r.device (r.generation + 1) x = b) ∨
      cmd.action = .apply ∧ b = newBinding s cmd r.device (r.generation + 1) := by
  have hrev : b ∈ (revokeBindings r.device (r.generation + 1) a).rows ↔
      ∃ x ∈ a.bindings, revokeBinding r.device (r.generation + 1) x = b := by
    rw [← mem_def, revokeBindings, mem_update]
    simp only [if_true]
  rw [mem_def, h.bindings, List.mem_append]
  refine or_congr hrev ?_
  split_ifs with ha
  · simp only [List.mem_singleton, ha, true_and]
    exact Iff.rfl
  · simp [ha]

theorem mem_commit_operations {o : OperationRow} : o ∈ a'.operations ↔
      o ∈ a.operations ∨ o = newOperation s now id cmd r.device (r.generation + 1) := by
  rw [mem_def, h.operations, List.mem_append, List.mem_singleton, mem_def]
  exact Iff.rfl

end

theorem revokeBinding_same (d : Device) (g : ℕ) (b : BindingRow) :
    (revokeBinding d g b).publicKey = b.publicKey ∧
    (revokeBinding d g b).deviceId = b.deviceId := by
  unfold revokeBinding
  split <;> exact ⟨rfl, rfl⟩

theorem advanceDevice_grows (hactive : cmd.action = .apply → r.state = .active) :
    DeviceGrows r (advanceDevice cmd r.device (r.generation + 1) r) where
  same := ⟨rfl, rfl, rfl⟩
  generation := le_succ _
  applied := le_rfl
  left := by
    intro hne
    have ha : cmd.action ≠ .apply := fun ha => hne (hactive ha)
    change nextState cmd r.device ≠ .active
    unfold nextState
    split
    · simp
    · cases hc : cmd.action with
      | apply => exact absurd hc ha
      | disable | expire | revoke => simp [desiredState]
  revoked := by
    intro hrev
    exact if_pos hrev
  still := by
    intro hg
    change r.generation + 1 = r.generation at hg
    omega

section

variable (h : Committed s now id cmd r.device a a')
include h

theorem commit_grows (hr : r ∈ a.devices) (hactive : cmd.action = .apply → r.state = .active) :
    AuthGrows a a' where
  metaRow := by
    rw [h.metaRow]
  fence := by
    rw [h.metaRow]
  devices := by
    intro x hx
    by_cases hk : x.deviceId = r.deviceId
    · cases Table.eq_of_key hx hr hk
      exact ⟨_, (mem_commit_devices h hr).mpr (.inr rfl), advanceDevice_grows hactive⟩
    · exact ⟨x, (mem_commit_devices h hr).mpr (.inl ⟨hx, hk⟩), DeviceGrows.refl x⟩
  addresses := fun x hx => (h.addresses x).mpr (.inl hx)
  bindings := by
    intro b hb
    refine ⟨_, (mem_commit_bindings h).mpr (.inl ⟨b, hb, rfl⟩), ?_⟩
    unfold revokeBinding
    split_ifs with hlive
    · exact { BindingGrows.refl b with revoked := .inl hlive.2 }
    · exact BindingGrows.refl b
  tombstones := covers_of_subset TombstoneGrows.refl fun t ht => (h.tombstones t).mpr (.inl ht)
  operations := ⟨_, h.operations.symm⟩
  outbox := by
    intro x hx
    have hcov : Covers OutboxGrows a.outbox (supersedeJobs r.device (r.generation + 1) a) := by
      exact covers_update OutboxGrows.refl _ fun _ _ _ => ⟨rfl, le_rfl, le_rfl, fun _ => rfl⟩
    obtain ⟨x', hx', hgrow⟩ := hcov x hx
    exact ⟨x', (h.outbox x').mpr (.inl hx'), hgrow⟩
  intents := by
    rw [h.intents]
    exact covers_refl IntentGrows.refl _

/-! ## The invariant after a commit -/

theorem mem_commit_other (hb : b ∈ a.bindings) (hdev : b.deviceId ≠ r.deviceId) :
    b ∈ a'.bindings := by
  refine (mem_commit_bindings h).mpr (.inl ⟨b, hb, ?_⟩)
  exact if_neg fun hc => hdev hc.1

theorem current_advance (hactive : cmd.action = .apply → r.state = .active) :
    Current a' (advanceDevice cmd r.device (r.generation + 1) r) := by
  by_cases ha : cmd.action = .apply
  · refine .inr ⟨?_, newBinding s cmd r.device (r.generation + 1),
      (mem_commit_bindings h).mpr (.inr ⟨ha, rfl⟩), rfl, rfl, rfl, if_pos ha, if_pos ha⟩
    have hne : r.device.state ≠ .revoked := by
      change r.state ≠ .revoked
      simp [hactive ha]
    change nextState cmd r.device = .active
    rw [nextState, if_neg hne, ha]
    rfl
  · exact .inl ⟨if_neg ha, if_neg ha⟩

/-- A commit makes its operation the latest one. -/
theorem latest_advance (hrevoked : r.state = .revoked → RevokedBefore a r (r.generation + 1))
    (hactive : cmd.action = .apply → r.state = .active) :
    Latest a' (advanceDevice cmd r.device (r.generation + 1) r)
      (newOperation s now id cmd r.device (r.generation + 1)) := by
  refine ⟨?_, fun ha => ?_, fun ha => ⟨if_neg ha, if_neg ha⟩⟩
  · change nextState cmd r.device = desiredState cmd.action ∨ nextState cmd r.device = .revoked ∧ _
    unfold nextState
    split
    · rename_i hstate
      obtain ⟨o, ho, rest⟩ := hrevoked hstate
      exact .inr ⟨rfl, o, (mem_commit_operations h).mpr (.inl ho), rest⟩
    · exact .inl rfl
  · change cmd.action = .apply at ha
    have hne : r.device.state ≠ .revoked := by
      change r.state ≠ .revoked
      simp [hactive ha]
    refine ⟨?_, if_pos ha, if_pos ha⟩
    change nextState cmd r.device = .active
    rw [nextState, if_neg hne, ha]
    rfl

theorem bindingOk_new (hr : r ∈ a.devices) (hcmd : WellFormed s cmd)
    (ha : cmd.action = .apply) : BindingOk s a' (newBinding s cmd r.device (r.generation + 1)) := by
  obtain ⟨hkey, haddr⟩ := hcmd.apply ha
  refine ⟨hkey, rfl, haddr, succ_pos _, .inl rfl, fun _ => rfl, ?_, ?_, ?_⟩
  · exact ⟨_, (mem_commit_devices h hr).mpr (.inr rfl), rfl, le_rfl, zero_le _, zero_le _,
      fun _ => if_pos ha⟩
  · exact ⟨⟨cmd.address, r.deviceId⟩, (h.addresses _).mpr (.inr ⟨ha, rfl⟩), rfl, rfl⟩
  · exact fun hc => absurd hc (lt_irrefl 0)

theorem quota_commit (hinv : CoreInv s sc a) (device : String) :
    a'.bindings.count (fun b => b.deviceId = device) ≤ 4096 := by
  have hold : (revokeBindings r.device (r.generation + 1) a).count (fun b => b.deviceId = device) =
      a.bindings.count fun b => b.deviceId = device :=
    count_update fun b => by rw [(revokeBinding_same r.device (r.generation + 1) b).2]
  have hquota := hinv.quota device
  unfold Table.count at hold hquota ⊢
  rw [h.bindings, List.countP_append]
  change (revokeBindings r.device (r.generation + 1) a).rows.countP _ + _ ≤ _
  rw [hold]
  split_ifs with ha
  · have hroom := h.room ha
    change a.bindings.rows.countP (fun b => b.deviceId = r.deviceId) < 4096 at hroom
    rw [List.countP_singleton]
    split_ifs with hd
    · have hd' : r.deviceId = device := of_decide_eq_true hd
      rw [← hd']
      omega
    · exact hquota
  · exact hquota

theorem deviceOk_advance (hinv : CoreInv s sc a) (hr : r ∈ a.devices)
    (hactive : cmd.action = .apply → r.state = .active) :
    DeviceOk s sc a' (advanceDevice cmd r.device (r.generation + 1) r) := by
  have hok := hinv.devices r hr
  have hlatest := latest_advance h hok.revoked hactive
  have hnew := (mem_commit_operations h).mpr (.inr rfl)
  refine ⟨hok.names, hok.valid, hok.applied.trans (le_succ _), current_advance h hactive,
    fun g hpos hle => ?_, fun hstate => ?_⟩
  · change g ≤ r.generation + 1 at hle
    by_cases hg : g = r.generation + 1
    · exact ⟨_, hnew, rfl, hg.symm, fun _ => hlatest⟩
    · obtain ⟨o, ho, hdev, hgen, -⟩ := hok.history g hpos (by omega)
      exact ⟨o, (mem_commit_operations h).mpr (.inl ho), hdev, hgen, fun hg' => absurd hg' hg⟩
  · rcases hlatest.state with hdesired | ⟨-, o, ho, hdev, haction, hlt⟩
    · refine ⟨_, hnew, rfl, ?_, Nat.lt_succ_self _⟩
      exact desiredState_revoked (hdesired.symm.trans hstate)
    · exact ⟨o, ho, hdev, haction, hlt.trans (Nat.lt_succ_self _)⟩

/-- A binding that existed before a commit is in order after it. -/
theorem bindingOk_revoke (hinv : CoreInv s sc a) (hr : r ∈ a.devices) (hg : AuthGrows a a')
    (hb : b ∈ a.bindings) :
    BindingOk s a' (revokeBinding r.device (r.generation + 1) b) := by
  have hok := hinv.bindings b hb
  obtain ⟨x, hx, hxdev, hcre, hrev, hrem, hcur⟩ := hok.owned
  have hnext := (mem_commit_devices h hr).mpr (.inr rfl)
  unfold revokeBinding
  split_ifs with hlive
  · cases Table.eq_of_key hx hr (hxdev.trans hlive.1)
    obtain ⟨y, hy, hreserved⟩ := hok.reserved
    refine { hok with
      ordered := .inr (lt_succ_of_le hcre)
      removed := fun hc => absurd hc (succ_ne_zero _)
      owned := ⟨_, hnext, hxdev, hcre.trans (le_succ _), le_rfl, hrem.trans (le_succ _),
        fun hc => absurd hc (succ_ne_zero _)⟩
      reserved := ⟨y, hg.addresses y hy, hreserved⟩
      buried := fun _ => ⟨⟨b.publicKey, r.generation + 1, cmd.reason, now, none⟩, ?_, rfl, rfl⟩ }
    refine (h.tombstones _).mpr (.inr (List.mem_map.mpr ⟨b, mem_select.mpr ⟨hb, ?_⟩, rfl⟩))
    simp [hlive]
  · apply bindingOk_grows hg hok
    by_cases hk : x.deviceId = r.deviceId
    · cases Table.eq_of_key hx hr hk
      exact ⟨_, hnext, hxdev, hcre.trans (le_succ _), hrev.trans (le_succ _),
        hrem.trans (le_succ _), fun hz => absurd ⟨hxdev.symm, hz⟩ hlive⟩
    · exact ⟨x, (mem_commit_devices h hr).mpr (.inl ⟨hx, hk⟩), hxdev, hcre, hrev, hrem, hcur⟩

theorem commit_core (hinv : CoreInv s sc a) (hg : AuthGrows a a') (hnow : sc.time now)
    (hr : r ∈ a.devices) (hid : r.deviceId = cmd.deviceId) (howner : r.ownerId = cmd.actor.ownerId)
    (hactive : cmd.action = .apply → r.state = .active) (hcmd : WellFormed s cmd)
    (hscope : cmd.action ≠ .expire → sc.command cmd) : CoreInv s sc a' where
  devices := by
    intro x hx
    rcases (mem_commit_devices h hr).mp hx with ⟨hx, hne⟩ | rfl
    · have hok := hinv.devices x hx
      apply deviceOk_grows hg hok
      rcases hok.current with hnone | ⟨hact, b, hb, hdev, rest⟩
      · exact .inl hnone
      · exact .inr ⟨hact, b, mem_commit_other h hb (hdev ▸ hne), hdev, rest⟩
    · exact deviceOk_advance h hinv hr hactive
  room := by
    have hlen : a'.devices.rows.length = a.devices.rows.length := by
      rw [h.devices]
      exact update_length
    rw [hlen]
    exact hinv.room
  addresses := by
    intro x hx
    rcases (h.addresses x).mp hx with hx | ⟨-, rfl⟩
    · exact addressOwner_grows hg (hinv.addresses x hx)
    · exact ⟨_, (mem_commit_devices h hr).mpr (.inr rfl), rfl⟩
  bindings := by
    intro b hb
    rcases (mem_commit_bindings h).mp hb with ⟨x, hx, rfl⟩ | ⟨ha, rfl⟩
    · exact bindingOk_revoke h hinv hr hg hx
    · exact bindingOk_new h hr hcmd ha
  quota := quota_commit h hinv
  tombstones := by
    intro t ht
    rcases (h.tombstones t).mp ht with ht | ht
    · exact tombstoneOk_grows hg (hinv.tombstones t ht)
    obtain ⟨b, hb, rfl⟩ := List.mem_map.mp ht
    obtain ⟨hb, hp⟩ := mem_select.mp hb
    simp only [Bool.and_eq_true, decide_eq_true_eq] at hp
    refine ⟨hnow, succ_pos _, _, (mem_commit_bindings h).mpr (.inl ⟨b, hb, rfl⟩), ?_, ?_⟩
    · exact (revokeBinding_same r.device (r.generation + 1) b).1
    · change (if _ then _ else b).revokedGeneration = _
      rw [if_pos hp]
      rfl
  operations := by
    intro o ho
    rcases (mem_commit_operations h).mp ho with ho | rfl
    · exact operationOk_grows hg (hinv.operations o ho)
    · refine ⟨⟨hcmd.actor, hcmd.idempotencyKey⟩, rfl, ⟨rfl, rfl, rfl, hid.symm⟩, hscope, rfl,
        ⟨hnow, ?_⟩, succ_pos _, ?_⟩
      · exact le_add_of_nonneg_right s.budget_pos.le
      · exact ⟨_, (mem_commit_devices h hr).mpr (.inr rfl), rfl, howner, le_rfl⟩
  unique := by
    have hnewer : ∀ o ∈ a.operations, o.deviceId = r.deviceId →
      o.generation ≠ r.generation + 1 := by
      intro o ho hdev hgen
      obtain ⟨-, x, hx, hxdev, -, hle⟩ := (hinv.operations o ho).owned
      cases Table.eq_of_key hx hr (hxdev.trans hdev)
      omega
    intro o ho o' ho' hdev hgen
    rcases (mem_commit_operations h).mp ho with ho | rfl
    · rcases (mem_commit_operations h).mp ho' with ho' | rfl
      · exact hinv.unique o ho o' ho' hdev hgen
      · exact absurd hgen (hnewer o ho hdev)
    · rcases (mem_commit_operations h).mp ho' with ho' | rfl
      · exact absurd hgen.symm (hnewer o' ho' hdev.symm)
      · rfl

theorem commit_jobs (hinv : AuthInv s sc a) (hg : AuthGrows a a') (hr : r ∈ a.devices) :
    JobsInv s a' := by
  refine jobs_of_grows hinv.jobs hg (h.metaRow ▸ hinv.jobs.fence) ?_ ?_ ?_
  · intro o ho
    rcases (mem_commit_operations h).mp ho with ho | rfl
    · exact .inl ho
    · exact .inr ⟨_, (h.outbox _).mpr (.inr rfl), rfl⟩
  · intro x hx
    rcases (h.outbox x).mp hx with hx | rfl
    · obtain ⟨y, hy, rfl⟩ := mem_update.mp hx
      have hok := outboxOk_grows hg (hinv.jobs.outbox y hy)
      split_ifs with hp
      · simp only [outdated, Bool.and_eq_true, has_eq_true, decide_eq_true_eq] at hp
        obtain ⟨-, o, ho, ⟨hoid, hodev⟩, hlt⟩ := hp
        refine ⟨hok.fence, fun hd => absurd hd (by simp), o, hg.operation ho, hoid, fun _ => ?_⟩
        exact ⟨_, (mem_commit_devices h hr).mpr (.inr rfl), hodev.symm, hlt⟩
      · exact hok
    · refine ⟨zero_le _, fun hd => absurd hd (by simp), _,
        (mem_commit_operations h).mpr (.inr rfl), rfl, fun hs => absurd hs (by simp)⟩
  · intro i hi
    exact intentOk_grows hg (hinv.jobs.intents i (h.intents ▸ hi))

end

/-! ## Every change -/

theorem authChange_grows (hinv : AuthInv s sc a)
    (h : AuthChange s sc a a') : AuthGrows a a' := by
  cases h with
  | enroll hnow hid howner hlater hyear hroom h => exact enroll_grows h
  | commit hnow hr hid howner hactive hcmd hscope hnew h => exact commit_grows h hr hactive
  | mark hp => exact mark_grows _ hp
  | supersede => exact supersede_grows _
  | claim ho hr hdev hgen => exact claim_grows hinv.jobs ho hr hdev hgen
  | intents hf => exact intents_grows hinv.jobs hf _
  | result hnow hf => exact result_grows hinv hf _

theorem authChange_inv (hinv : AuthInv s sc a)
    (h : AuthChange s sc a a') : AuthInv s sc a' := by
  cases h with
  | enroll hnow hid howner hlater hyear hroom h =>
    exact enroll_inv hinv hnow hid howner hlater hyear hroom h
  | commit hnow hr hid howner hactive hcmd hscope hnew h =>
    have hg := commit_grows h hr hactive
    exact ⟨commit_core h hinv.core hg hnow hr hid howner hactive hcmd hscope,
      commit_jobs h hinv hg hr⟩
  | mark hp => exact mark_inv hinv hp
  | supersede ho hr hdev hold => exact supersede_inv hinv ho hr hdev hold
  | claim ho hr hdev hgen hfence => exact claim_inv hinv ho hr hdev hgen hfence
  | intents hf hact => exact intents_inv hinv hf hact
  | result hnow hf => exact result_inv hinv hf _

theorem emptyDB_authInv (s : Store) (sc : Scope) : AuthInv s sc (emptyDB s).toAuthority := by
  have hroom : (0 : ℤ) ≤ s.resources.devices := (normalizeResources_devices s.resources_normal).1.le
  have hfence : 0 < maxInt64 := by decide
  refine ⟨⟨?_, hroom, ?_, ?_, fun _ => zero_le _, ?_, ?_, ?_⟩,
    ⟨⟨rfl, rfl, rfl, rfl, rfl⟩, hfence, ?_, ?_, ?_⟩⟩
  all_goals exact fun x hx => absurd hx (not_mem_empty x)

end DaxiangVpn.DeviceAuthGenerations
