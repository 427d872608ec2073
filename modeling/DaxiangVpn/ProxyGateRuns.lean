import DaxiangVpn.ProxyGateQuarantine

/-!
# Runs of the proxy gate

Late attachments decide under the lock and go on outside. While one is running its
registration is neither announced nor reaped, so without a caller that releases
the registration no activation begins, and the scope it closes in the end is the
one it has seen.
-/

namespace DaxiangVpn.ProxyGateRuns

open ProxyGate ProxyGateQuarantine WriteFence NetipPrefix TransitionRun List

/-! ## Calls in progress -/

/-- The registration a late attachment is about. -/
def attachment : Thread → Option ℕ
  | .attaching r _ _ => some r
  | .readying r => some r
  | .untracking _ => none

/-- The registrations of late attachments. -/
def attachments (threads : List Thread) : List ℕ := threads.filterMap attachment

/-- A caller releases the registration in this step: by itself, by the second section of
`Untrack`, with its admission, or by the end of a close of its fence that no
quarantine stops. -/
def Frees (s : System) (e : Event) (r : ℕ) : Prop :=
  match e with
  | .release q => q = r
  | .thread i => s.threads[i]? = some (.untracking r)
  | .releaseAdmission a => (s.gate.regs r).admission = a
  | .fenceThread q i _ => q = r ∧ (s.gate.regs r).quarantined = false ∧
    (s.gate.regs r).fence.any (fun f => decide (f.threads[i]? = some (.closing .releasing))) = true
  | _ => False

/-- A late attachment announces the registration in this step. -/
def Announces (s : System) (e : Event) (r : ℕ) : Prop :=
  match e with
  | .thread i => s.threads[i]? = some (.readying r)
  | _ => False

/-- What holds of the gate and the calls in progress. -/
structure SysInv (s : System) : Prop where
  gate : Inv s.gate
  late : ∀ r ∈ attachments s.threads, r < s.gate.regCount ∧ (s.gate.regs r).attached = true ∧
    (s.gate.regs r).ready = 0
  once : (attachments s.threads).Nodup
  found : ∀ r, .untracking r ∈ s.threads → r < s.gate.regCount

variable {r : ℕ} {owner : String} {e : Event} {g g' : Gate} {s' : System} {now : ℤ}

section

variable {s : System}

theorem attachments_getElem {threads : List Thread} {i : ℕ} {t : Thread}
    (h : threads[i]? = some t) :
    (attachments threads).Perm (attachments (t :: threads.eraseIdx i)) := by
  obtain ⟨hi, rfl⟩ := List.getElem?_eq_some_iff.mp h
  exact ((getElem_cons_eraseIdx_perm hi).symm).filterMap attachment

theorem attachments_set {threads : List Thread} {i : ℕ} {t t' : Thread} (h : threads[i]? = some t)
    (heq : attachment t' = attachment t) :
    (attachments (threads.set i t')).Perm (attachments threads) := by
  obtain ⟨hi, -⟩ := List.getElem?_eq_some_iff.mp h
  have hset : (attachments (threads.set i t')).Perm (attachments (t' :: threads.eraseIdx i)) :=
    (set_perm_cons_eraseIdx hi t').filterMap attachment
  refine hset.trans ?_
  have hcons : attachments (t' :: threads.eraseIdx i) = attachments (t :: threads.eraseIdx i) := by
    simp only [attachments, filterMap_cons, heq]
  rw [hcons]
  exact (attachments_getElem h).symm

theorem onFence_moves {freed announced : ℕ → Prop} (r : ℕ) (change : Bool → Fence → Fence) :
    Moves freed announced s.gate (s.onFence r change).gate := by
  unfold System.onFence
  split
  · exact .refl _
  · exact .of_reg rfl (.keep _ _ _ rfl) rfl rfl

theorem onFence_inv (h : Inv s.gate) (r : ℕ) (change : Bool → Fence → Fence) :
    Inv (s.onFence r change).gate := by
  unfold System.onFence
  split
  · exact h
  · exact fence_inv h r _

theorem onFence_threads (r : ℕ) (change : Bool → Fence → Fence) :
    (s.onFence r change).threads = s.threads ∧
    (s.onFence r change).gate.regCount = s.gate.regCount := by
  unfold System.onFence
  split <;> exact ⟨rfl, rfl⟩

theorem advanceFence_moves {announced : ℕ → Prop} (r i : ℕ) (fails : Bool) :
    Moves (Frees s (.fenceThread r i fails)) announced s.gate (s.advanceFence r i fails).gate := by
  unfold System.advanceFence
  cases hfence : (s.gate.regs r).fence with
  | none => exact .refl _
  | some =>
    dsimp only
    split_ifs with hlast
    · simp only [System.onFence, hfence]
      refine release_moves _ fun hfree => ⟨rfl, hfree, ?_⟩
      rw [hfence, Option.any_some, decide_eq_true_eq]
      exact hlast
    · exact onFence_moves r _

theorem advanceFence_inv (h : Inv s.gate) (hr : r < s.gate.regCount) (i : ℕ) (fails : Bool) :
    Inv (s.advanceFence r i fails).gate := by
  unfold System.advanceFence
  split
  · exact h
  · split
    · refine release_inv (onFence_inv h r _) ?_
      rw [(onFence_threads r _).2]
      exact hr
    · exact onFence_inv h r _

theorem advance_moves (i : ℕ) :
    Moves (Frees s (.thread i)) (Announces s (.thread i)) s.gate (s.advance i).gate := by
  unfold System.advance
  cases hthread : s.threads[i]? with
  | none => exact .refl _
  | some t =>
    cases t with
    | attaching r owner => exact beginInvalidate_moves owner
    | readying => exact .of_reg rfl (.announce hthread rfl) rfl rfl
    | untracking => exact release_alone_moves hthread

theorem step_moves (h : Inv s.gate) (e : Event) :
    Moves (Frees s e) (Announces s e) s.gate (step s e).gate := by
  have hattached : ∀ {freed announced : ℕ → Prop} {r : ℕ} {result : Gate × Attach},
      Moves freed announced s.gate result.1 →
      Moves freed announced s.gate (s.attached r result).gate := by
    intro freed announced r result hmoves
    unfold System.attached
    split <;> exact hmoves
  cases e with
  | tick => exact .refl _
  | acquireSource => exact acquireSource_moves ..
  | reserve =>
    simp only [step]
    split
    · exact reserve_moves ..
    · exact .refl _
  | attach =>
    simp only [step]
    split
    · exact hattached (attach_moves ..)
    · exact .refl _
  | attachFenced =>
    simp only [step]
    split
    · exact hattached (attachFenced_moves ..)
    · exact .refl _
  | abort r =>
    simp only [step]
    split
    · exact abort_moves r
    · exact .refl _
  | release =>
    simp only [step]
    split
    · exact release_alone_moves rfl
    · exact .refl _
  | untrack =>
    simp only [step]
    split <;> exact .refl _
  | releaseAdmission a =>
    simp only [step]
    split_ifs with ha
    · exact releaseAdmission_moves (h.client a ha).2
    · exact .refl _
  | closeFor owner => exact beginInvalidate_moves owner
  | own owner => exact own_moves owner
  | grant =>
    simp only [step]
    split
    · exact grant_moves ..
    · exact .refl _
  | thread i => exact advance_moves i
  | take r => exact take_moves r
  | closeReturned r =>
    simp only [step]
    split
    · exact closeReturned_moves r
    · exact .refl _
  | workerRelease r => exact workerRelease_moves h r
  | finishCleanup => exact finishCleanup_moves
  | write r | setDeadline r | closeFence r => exact onFence_moves r _
  | fenceThread r i fails =>
    simp only [step]
    split
    · exact advanceFence_moves r i fails
    · exact .refl _

theorem step_gate_inv (h : SysInv s) (e : Event) : Inv (step s e).gate := by
  have hgate := h.gate
  have hattached : ∀ {r : ℕ} {result : Gate × Attach}, Inv result.1 →
    Inv (s.attached r result).gate := by
    intro r result hinv
    unfold System.attached
    split <;> exact hinv
  cases e with
  | tick => exact hgate
  | acquireSource => exact acquireSource_inv hgate ..
  | reserve =>
    simp only [step]
    split_ifs with ha
    · exact reserve_inv hgate s.now ha
    · exact hgate
  | attach =>
    simp only [step]
    split
    · exact hattached (attach_inv hgate ..)
    · exact hgate
  | attachFenced =>
    simp only [step]
    split
    · exact hattached (attachFenced_inv hgate ..)
    · exact hgate
  | abort =>
    simp only [step]
    split_ifs with hr
    · exact abort_inv hgate hr
    · exact hgate
  | release =>
    simp only [step]
    split_ifs with hr
    · exact release_inv hgate hr
    · exact hgate
  | untrack =>
    simp only [step]
    split <;> exact hgate
  | releaseAdmission =>
    simp only [step]
    split_ifs with ha
    · exact releaseAdmission_inv hgate ha
    · exact hgate
  | closeFor owner => exact beginInvalidate_inv hgate owner
  | own owner => exact own_inv hgate owner
  | grant =>
    simp only [step]
    split
    · exact grant_inv hgate ..
    · exact hgate
  | thread i =>
    simp only [step, System.advance]
    cases hthread : s.threads[i]? with
    | none => exact hgate
    | some t =>
      cases t with
      | attaching r owner => exact beginInvalidate_inv hgate owner
      | readying r =>
        have hmem : r ∈ attachments s.threads :=
          (attachments_getElem hthread).mem_iff.mpr mem_cons_self
        exact closeReady_inv hgate (h.late r hmem).2.1 (h.late r hmem).2.2
      | untracking r => exact release_inv hgate (h.found r (mem_of_getElem? hthread))
  | take r => exact take_inv hgate r
  | closeReturned r =>
    simp only [step]
    split
    · exact closeReturned_inv hgate r
    · exact hgate
  | workerRelease r => exact workerRelease_inv hgate r
  | finishCleanup => exact finishCleanup_inv hgate
  | write r | setDeadline r | closeFence r => exact onFence_inv hgate r _
  | fenceThread r i fails =>
    simp only [step]
    split_ifs with hr
    · exact advanceFence_inv hgate hr i fails
    · exact hgate

/-- A late attachment finds its registration not decided and does not announce it. -/
structure Late (x y : Registration) : Prop where
  attached : x.attached = false
  aborted : x.aborted = false
  now_attached : y.attached = true
  ready : y.ready = x.ready
  released : y.released = x.released

/-- The late branch of `Attach`. -/
theorem attach_late {c : Conn} {q : Bool}
    (h : (g.attach now r c).2 = .late q owner) : Late (g.regs r) ((g.attach now r c).1.regs r) := by
  unfold Gate.attach at h ⊢
  split at h
  · cases h
  rename_i hattached
  rw [if_neg hattached]
  rw [Bool.not_eq_true] at hattached
  split at h
  · cases h
  rename_i hopen
  rw [if_neg hopen]
  simp only [not_or, Bool.not_eq_true] at hopen
  split at h
  · rename_i hclosed
    rw [if_pos hclosed]
    rw [setReg_self]
    exact ⟨hattached, hopen.1, rfl, rfl, rfl⟩
  · cases h

/-- The late branch of `AttachFenced`. -/
theorem attachFenced_late {c : Conn} {q : Bool}
    (h : (g.attachFenced now r c).2 = .late q owner) :
    Late (g.regs r) ((g.attachFenced now r c).1.regs r) := by
  unfold Gate.attachFenced at h ⊢
  split at h
  · cases h
  rename_i hother
  rw [if_neg hother]
  split at h
  · cases h
  rename_i hopen
  rw [if_neg hopen]
  simp only [not_or, Bool.not_eq_true] at hopen
  split at h
  · rename_i hclosed
    rw [if_pos hclosed]
    rw [setReg_self]
    exact ⟨hopen.1, hopen.2.1, rfl, rfl, rfl⟩
  · cases h

/-- What a step does to the calls in progress. -/
inductive ThreadMove (s : System) (e : Event) (s' : System) : Prop
  /-- No late attachment begins or ends. -/
  | same (perm : (attachments s'.threads).Perm (attachments s.threads))
      (quiet : ∀ r, ¬ Announces s e r)
      (old : ∀ t ∈ s'.threads, t ∈ s.threads ∨
        (∃ r, t = .readying r) ∨ ∃ r, t = .untracking r ∧ r < s.gate.regCount)
  /-- A late attachment begins. -/
  | start (r : ℕ) (t : Thread) (bound : r < s.gate.regCount)
      (late : Late (s.gate.regs r) (s'.gate.regs r)) (threads : s'.threads = t :: s.threads)
      (kind : t = .readying r ∨ ∃ owner, t = .attaching r owner s.gate.epoch)
      (quiet : ∀ q, ¬ Announces s e q)
  /-- A late attachment ends. -/
  | finish (r : ℕ) (by_thread : Announces s e r)
      (perm : (attachments s.threads).Perm (r :: attachments s'.threads))
      (old : ∀ t ∈ s'.threads, t ∈ s.threads)

theorem ThreadMove.refl (hthreads : s'.threads = s.threads)
    (hquiet : ∀ r, ¬ Announces s e r) : ThreadMove s e s' := by
  refine .same ?_ hquiet fun t ht => .inl ?_
  · rw [hthreads]
  · rw [hthreads] at ht
    exact ht

theorem attached_threadMove (hr : r < s.gate.regCount) {result : Gate × Attach}
    (hlate : ∀ q owner, result.2 = .late q owner → Late (s.gate.regs r) (result.1.regs r))
    (hquiet : ∀ q, ¬ Announces s e q) : ThreadMove s e (s.attached r result) := by
  obtain ⟨g, decision⟩ := result
  cases decision with
  | done => exact .refl rfl hquiet
  | late q owner =>
    have hlate := hlate q owner rfl
    cases q with
    | false => exact .start r _ hr hlate rfl (.inr ⟨owner, rfl⟩) hquiet
    | true => exact .start r _ hr hlate rfl (.inl rfl) hquiet

/-- What the next section of a call does to the calls in progress. -/
theorem advance_threadMove (i : ℕ) : ThreadMove s (.thread i) (s.advance i) := by
  unfold System.advance
  cases hthread : s.threads[i]? with
  | none => exact .refl rfl fun r hr => by cases hthread.symm.trans hr
  | some t =>
    cases t with
    | attaching r =>
      refine .same (attachments_set hthread rfl) (fun q hq => ?_) fun t ht => ?_
      · cases hthread.symm.trans hq
      · rcases mem_or_eq_of_mem_set ht with hold | rfl
        · exact .inl hold
        · exact .inr (.inl ⟨r, rfl⟩)
    | readying r =>
      refine .finish r hthread (attachments_getElem hthread) fun t ht => ?_
      exact (eraseIdx_sublist s.threads i).mem ht
    | untracking =>
      refine .same ?_ (fun q hq => ?_) fun t ht => .inl ((eraseIdx_sublist s.threads i).mem ht)
      · exact (attachments_getElem hthread).symm
      · cases hthread.symm.trans hq

theorem step_threadMove (h : Inv s.gate) (e : Event) : ThreadMove s e (step s e) := by
  cases e with
  | thread i => exact advance_threadMove i
  | attach =>
    simp only [step]
    split_ifs with hr
    · exact attached_threadMove hr (fun _ _ hlate => attach_late hlate) fun _ => not_false
    · exact .refl rfl fun _ => not_false
  | attachFenced =>
    simp only [step]
    split_ifs with hr
    · exact attached_threadMove hr (fun _ _ hlate => attachFenced_late hlate) fun _ => not_false
    · exact .refl rfl fun _ => not_false
  | untrack a c r =>
    simp only [step]
    split_ifs with hr
    · refine .same (.refl _) (fun _ => not_false) fun t ht => ?_
      rcases mem_cons.mp ht with rfl | hold
      · exact .inr (.inr ⟨r, rfl, (h.member a r (Finset.mem_of_mem_filter r hr)).1⟩)
      · exact .inl hold
    · exact .refl rfl fun _ => not_false
  | write r | setDeadline r | closeFence r => exact .refl (onFence_threads r _).1 fun _ => not_false
  | fenceThread r =>
    refine .refl ?_ fun _ => not_false
    simp only [step]
    split
    · unfold System.advanceFence
      split
      · rfl
      · split <;> exact (onFence_threads r _).1
    · rfl
  | tick | acquireSource | closeFor | own | take | workerRelease | finishCleanup => exact .refl rfl fun _ => not_false
  | reserve | abort | release | releaseAdmission | grant | closeReturned => exact .refl (by simp only [step]; split <;> rfl) fun _ => not_false

theorem attached_stays {A B : Prop} {x y : Registration} (h : RegMove A B x y)
    (hattached : x.attached = true) (hquiet : ¬ B) : y.attached = true ∧ y.ready = x.ready := by
  cases h with
  | keep q c f heq =>
    rw [heq]
    exact ⟨hattached, rfl⟩
  | attach c n f hno => cases hattached.symm.trans hno
  | announce hby => exact absurd hby hquiet
  | abandon rel hno => cases hattached.symm.trans hno
  | release f _ _ _ heq | reap _ _ heq =>
    rw [heq]
    exact ⟨hattached, rfl⟩

theorem announces_unique {q : ℕ} (hq : Announces s e q) (hr : Announces s e r) : q = r := by
  cases e with
  | thread => cases hq.symm.trans hr; rfl
  | _ => exact hq.elim

theorem step_sysInv (h : SysInv s) (e : Event) : SysInv (step s e) := by
  have hmoves := step_moves h.gate e
  have hstays : ∀ r ∈ attachments s.threads, ¬ Announces s e r → r < (step s e).gate.regCount ∧
      ((step s e).gate.regs r).attached = true ∧ ((step s e).gate.regs r).ready = 0 := by
    intro r hr hquiet
    obtain ⟨hlt, hattached, hready⟩ := h.late r hr
    obtain ⟨hattached', hready'⟩ := attached_stays (hmoves.reg r hlt) hattached hquiet
    exact ⟨lt_of_lt_of_le hlt hmoves.regCount, hattached', hready'.trans hready⟩
  have hfound : ∀ r, .untracking r ∈ s.threads → r < (step s e).gate.regCount := fun r hr =>
    lt_of_lt_of_le (h.found r hr) hmoves.regCount
  have hgate := step_gate_inv h e
  cases step_threadMove h.gate e with
  | same hperm hquiet hold =>
    refine ⟨hgate, fun r hr => hstays r (hperm.mem_iff.mp hr) (hquiet r),
      hperm.nodup_iff.mpr h.once, fun r hr => ?_⟩
    rcases hold _ hr with hr | ⟨q, hq⟩ | ⟨q, hq, hlt⟩
    · exact hfound r hr
    · cases hq
    · cases hq
      exact lt_of_lt_of_le hlt hmoves.regCount
  | start r t hr hlate hthreads hkind hquiet =>
    have hattachment : attachment t = some r := by
      rcases hkind with rfl | ⟨owner, rfl⟩ <;> rfl
    have hcons : attachments (step s e).threads = r :: attachments s.threads := by
      simp only [attachments, hthreads, filterMap_cons, hattachment]
    have hnew : r ∉ attachments s.threads := fun hmem => by
      cases (h.late r hmem).2.1.symm.trans hlate.attached
    refine ⟨hgate, fun q hq => ?_, ?_, fun q hq => ?_⟩
    · rw [hcons] at hq
      rcases mem_cons.mp hq with rfl | hq
      · have hready := ((h.gate.regOk q).pending hlate.attached hlate.aborted).1
        exact ⟨lt_of_lt_of_le hr hmoves.regCount, hlate.now_attached, hlate.ready.trans hready⟩
      · exact hstays q hq (hquiet q)
    · rw [hcons]
      exact nodup_cons.mpr ⟨hnew, h.once⟩
    · rw [hthreads] at hq
      rcases mem_cons.mp hq with rfl | hq
      · cases hattachment
      · exact hfound q hq
  | finish r hby hperm hold =>
    have hnodup := nodup_cons.mp (hperm.nodup_iff.mp h.once)
    refine ⟨hgate, fun q hq => ?_, hnodup.2, fun q hq => hfound q (hold _ hq)⟩
    refine hstays q (hperm.mem_iff.mpr (mem_cons_of_mem r hq)) fun hby' => ?_
    rw [announces_unique hby' hby] at hq
    exact hnodup.1 hq

theorem new_sysInv (managed : List IpPrefix) (now : ℤ) : SysInv (.new managed now) := by
  refine ⟨⟨fun _ => regOk_new 0 0, ?_, ?_, ?_, ?_, ?_, ?_, ?_, ?_, ?_, ?_⟩, ?_, ?_, ?_⟩ <;>
    simp [System.new, Gate.new, attachments]

theorem run_sysInv (managed : List IpPrefix) (now : ℤ) (events : List Event) :
    SysInv (run step (.new managed now) events) := by
  refine run_invariant SysInv (fun s e h _ => step_sysInv h e) (new_sysInv managed now)
    (along_of_forall (fun _ _ => trivial) _ _)

end

/-! ## Quarantine -/

/-- A registration is released when a caller does so after the connection was attached or
given up, or by a worker after the connection was announced and closed. -/
theorem released_after {A B : Prop} {x y : Registration} (h : RegMove A B x y) (hok : RegOk x)
    (hbefore : x.released = false) (hafter : y.released = true) :
    (x.attached = true ∨ y.aborted = true) ∧ (x.quarantined = true →
      (x.attached = true ∨ x.aborted = true) ∧ (x.attached = true → x.closeReturned = true)) := by
  cases h with
  | keep q c f heq | attach c n f hno heq | announce hby heq =>
    rw [heq] at hafter
    cases hbefore.symm.trans hafter
  | abandon rel hno hfree heq =>
    rw [heq] at hafter ⊢
    refine ⟨.inr rfl, fun hquarantined => ?_⟩
    cases (hfree hafter).symm.trans hquarantined
  | release f hby hfree hdecided heq =>
    rw [heq]
    refine ⟨hdecided, fun hquarantined => ?_⟩
    cases hfree.symm.trans hquarantined
  | reap hready hclosed heq =>
    have hdecided := hok.decided (.inl hready)
    rw [heq]
    refine ⟨hdecided, fun _ => ⟨hdecided, fun hattached => hclosed.resolve_left fun hnone => ?_⟩⟩
    rw [hok.conn, hnone] at hattached
    cases hattached

theorem admissions_of_own (h : (g.own owner).2 = .ok ()) : g.admissions = ∅ := by
  unfold Gate.own at h
  split at h
  · cases h
  · rename_i hempty
    rw [not_or, not_not] at hempty
    exact hempty.2

/-- What is not released is kept, and nothing leaves quarantine early. -/
structure Quarantines (s : System) : Prop where
  /-- What a successful reservation returns is a new registration of its admission, not yet
  released. -/
  reserved : ∀ a r, a < s.gate.admCount → (s.gate.reserve s.now a).2 = .ok r →
    s.gate.regCount = r ∧ (step s (.reserve a)).gate.regCount = r + 1 ∧
      ((step s (.reserve a)).gate.regs r).released = false ∧
      ((step s (.reserve a)).gate.regs r).admission = a ∧
      r ∈ ((step s (.reserve a)).gate.adms a).registrations
  kept : ∀ r, r < s.gate.regCount → (s.gate.regs r).released = false →
    r ∈ (s.gate.adms (s.gate.regs r).admission).registrations ∧
      (s.gate.regs r).admission ∈ s.gate.admissions
  once : ∀ r, r < s.gate.regCount → (s.gate.regs r).ready ≤ 1
  /-- The gate takes an owner when all registrations are released, and each was aborted or
  has its connection. -/
  own : ∀ owner, (s.gate.own owner).2 = .ok () → ∀ r, r < s.gate.regCount →
    (s.gate.regs r).released = true ∧
    ((s.gate.regs r).aborted = true ∨ (s.gate.regs r).attached = true)
  /-- A step releases a registration that was attached before, or that it aborts or that was
  aborted; one in quarantine was decided before, and its connection closed. -/
  release : ∀ e r, r < s.gate.regCount → (s.gate.regs r).released = false →
    ((step s e).gate.regs r).released = true →
    ((s.gate.regs r).attached = true ∨ ((step s e).gate.regs r).aborted = true) ∧
    ((s.gate.regs r).quarantined = true →
      ((s.gate.regs r).attached = true ∨ (s.gate.regs r).aborted = true) ∧
      ((s.gate.regs r).attached = true → (s.gate.regs r).closeReturned = true))

/-- What a successful reservation leaves. -/
theorem reserve_ok {a : ℕ} (h : g.reserve now a = (g', .ok r)) :
    g.regCount = r ∧ g'.regCount = r + 1 ∧ g'.regs r = .new a g.epoch ∧
      r ∈ (g'.adms a).registrations := by
  unfold Gate.reserve at h
  split_ifs at h
  · cases h
  · cases h
  · cases h
    simp

/-- The gate keeps its quarantine in every interleaving. -/
theorem run_quarantines (managed : List IpPrefix) (now : ℤ) (events : List Event) :
    Quarantines (run step (.new managed now) events) := by
  have h := run_sysInv managed now events
  refine ⟨fun a r ha hok => ?_, fun r hr hfalse => ?_, fun r _ => (h.gate.regOk r).once,
    fun owner hok r hr => ?_, fun e r hr hbefore hafter => ?_⟩
  · obtain ⟨hold, hcount, hnew, hmem⟩ := reserve_ok (Prod.ext rfl hok)
    simp only [step, if_pos ha]
    exact ⟨hold, hcount, congrArg Registration.released hnew,
      congrArg Registration.admission hnew, hmem⟩
  · have hmem := h.gate.kept r hr hfalse
    exact ⟨hmem, h.gate.listed _ (h.gate.belongs r hr) (.inl (Finset.ne_empty_of_mem hmem))⟩
  · have hreleased := h.gate.all_released (admissions_of_own hok) hr
    exact ⟨hreleased, ((h.gate.regOk r).decided (.inr hreleased)).symm⟩
  · exact released_after ((step_moves h.gate e).reg r hr) (h.gate.regOk r) hbefore hafter

/-! ## Activations -/

/-- No caller releases a registration while a late attachment of it is running. -/
def Undisturbed (s : System) (e : Event) : Prop := ∀ r ∈ attachments s.threads, ¬ Frees s e r

/-- The step closes nothing of an activation after this one. -/
structure Spares (s s' : System) (epoch : ℕ) : Prop where
  admissions : ∀ a, (s.gate.adms a).cancelled = false → (s'.gate.adms a).cancelled = true →
    (s.gate.adms a).epoch ≤ epoch
  owner : s.gate.owner ≠ "" → s'.gate.owner = "" → s.gate.epoch ≤ epoch

def isCleanup : Event → Bool
  | .take _ => true
  | .closeReturned _ => true
  | .workerRelease _ => true
  | .finishCleanup => true
  | _ => false

/-- Work that was decided before closes nothing of a later activation. -/
structure Harmless (s : System) : Prop where
  attach : ∀ i r owner epoch, s.threads[i]? = some (.attaching r owner epoch) →
    Spares s (step s (.thread i)) epoch
  /-- The capacity check of an admission. -/
  acquire : ∀ a, Spares s (step s (.acquireSource a)) s.gate.epoch
  reserve : ∀ a, Spares s (step s (.reserve a)) s.gate.epoch
  closing : ∀ b r, s.gate.cleanup = some b → r ∈ b.closing → r ∈ b.registrations
  /-- The cleanup changes registrations of its batch. -/
  cleanup : ∀ e r, isCleanup e = true → (step s e).gate.regs r ≠ s.gate.regs r →
    ∃ b, s.gate.cleanup = some b ∧ r ∈ b.registrations
  batch : ∀ e b b', s.gate.cleanup = some b → (step s e).gate.cleanup = some b' →
    b'.task = b.task ∧ b'.registrations = b.registrations

section

variable {s : System}

/-- What holds while nobody disturbs late attachments. -/
structure Guarded (s : System) : Prop where
  sys : SysInv s
  /-- A late attachment that will close has a registration that is not released, and the
  activation it has seen is the present one. -/
  decided : ∀ r owner e, .attaching r owner e ∈ s.threads →
    (s.gate.regs r).released = false ∧ e = s.gate.epoch

theorem mem_attachments {e : ℕ} (h : .attaching r owner e ∈ s.threads) :
    r ∈ attachments s.threads :=
  mem_filterMap.mpr ⟨_, h, rfl⟩

theorem unreleased_stays {A B : Prop} {x y : Registration} (h : RegMove A B x y)
    (hattached : x.attached = true) (hready : x.ready = 0) (hreleased : x.released = false)
    (hkept : ¬ A) : y.released = false := by
  cases h with
  | keep q c f heq =>
    rw [heq]
    exact hreleased
  | attach c n f hno => cases hattached.symm.trans hno
  | announce hby heq =>
    rw [heq]
    exact hreleased
  | abandon rel hno => cases hattached.symm.trans hno
  | release f hby => exact absurd hby hkept
  | reap => omega

theorem epoch_stays (h : Inv s.gate) (hr : r < s.gate.regCount)
    (hreleased : (s.gate.regs r).released = false) (e : Event) :
    (step s e).gate.epoch = s.gate.epoch := by
  refine (step_moves h e).epoch.resolve_right fun hempty => ?_
  cases (h.all_released hempty hr).symm.trans hreleased

theorem step_guarded (h : Guarded s) (hok : Undisturbed s e) : Guarded (step s e) := by
  have hgate := h.sys.gate
  have hkeeps : ∀ r owner n, .attaching r owner n ∈ s.threads →
      ((step s e).gate.regs r).released = false ∧ n = (step s e).gate.epoch := by
    intro r owner n hmem
    have hin := mem_attachments hmem
    obtain ⟨hr, hattached, hready⟩ := h.sys.late r hin
    obtain ⟨hreleased, hepoch⟩ := h.decided r owner n hmem
    exact ⟨unreleased_stays ((step_moves hgate e).reg r hr) hattached hready hreleased (hok r hin),
      hepoch.trans (epoch_stays hgate hr hreleased e).symm⟩
  refine ⟨step_sysInv h.sys e, fun r owner n hmem => ?_⟩
  cases step_threadMove hgate e with
  | same hperm hquiet hold =>
    rcases hold _ hmem with hmem | ⟨q, hq⟩ | ⟨q, hq, -⟩
    · exact hkeeps r owner n hmem
    · cases hq
    · cases hq
  | start q t hq hlate hthreads hkind =>
    rw [hthreads] at hmem
    rcases mem_cons.mp hmem with heq | hmem
    · rcases hkind with rfl | ⟨owner', rfl⟩
      · cases heq
      · cases heq
        have hreleased := ((hgate.regOk r).pending hlate.attached hlate.aborted).2
        exact ⟨hlate.released.trans hreleased, (epoch_stays hgate hq hreleased e).symm⟩
    · exact hkeeps r owner n hmem
  | finish q hby hperm hold => exact hkeeps r owner n (hold _ hmem)

theorem beginInvalidate_spares (h : Inv s.gate) (owner : String) {e : ℕ}
    (hgate : s'.gate = s.gate.beginInvalidate owner) (he : e = s.gate.epoch) : Spares s s' e := by
  refine ⟨fun a hbefore hafter => ?_, fun _ _ => he.ge⟩
  rw [hgate] at hafter
  unfold Gate.beginInvalidate at hafter
  split at hafter
  · cases hbefore.symm.trans hafter
  split at hafter
  · cases hbefore.symm.trans hafter
  · dsimp only at hafter
    split at hafter
    · rename_i ha
      exact (h.admEpoch a ha).trans_le he.ge
    · cases hbefore.symm.trans hafter

theorem Spares.of_cancelled (hadm : ∀ a, (s.gate.adms a).cancelled = false →
    (s'.gate.adms a).cancelled = false) : Spares s s' s.gate.epoch := by
  refine ⟨fun a hbefore hafter => ?_, fun _ _ => le_rfl⟩
  cases (hadm a hbefore).symm.trans hafter

/-- The capacity check of an admission closes the activation that it sees. -/
theorem acquireSource_spares (h : Inv s.gate) (a : Addr) :
    Spares s (step s (.acquireSource a)) s.gate.epoch := by
  simp only [step, Gate.acquireSource]
  split
  · exact .of_cancelled fun _ ha => ha
  split
  · exact .of_cancelled fun _ ha => ha
  split
  · exact beginInvalidate_spares h "" rfl rfl
  · refine .of_cancelled fun a' ha => ?_
    by_cases heq : a' = s.gate.admCount
    · subst heq
      simp [System.withGate, Gate.createAdmission]
    · simpa [System.withGate, Gate.createAdmission, Function.update_of_ne heq] using ha

/-- The capacity check of a reservation closes the activation that it sees. -/
theorem reserve_spares (h : Inv s.gate) (a : ℕ) : Spares s (step s (.reserve a)) s.gate.epoch := by
  simp only [step, Gate.reserve]
  split
  · split
    · exact .of_cancelled fun _ ha => ha
    · split
      · exact beginInvalidate_spares h "" rfl rfl
      · refine .of_cancelled fun a' ha => ?_
        by_cases heq : a' = a
        · subst heq
          simpa [System.withGate] using ha
        · simpa [System.withGate, Function.update_of_ne heq] using ha
  · exact .of_cancelled fun _ ha => ha

def SameBatch (g g' : Gate) : Prop := ∀ b b', g.cleanup = some b → g'.cleanup = some b' →
  b'.task = b.task ∧ b'.registrations = b.registrations

theorem SameBatch.refl (h : g'.cleanup = g.cleanup) : SameBatch g g' := by
  intro b b' hb hb'
  cases hb'.symm.trans (h.trans hb)
  exact ⟨rfl, rfl⟩

theorem SameBatch.of_some {b b' : Batch} (h : g.cleanup = some b) (h' : g'.cleanup = some b')
    (heq : b'.task = b.task ∧ b'.registrations = b.registrations) : SameBatch g g' := by
  intro x x' hx hx'
  cases h.symm.trans hx
  cases h'.symm.trans hx'
  exact heq

theorem beginInvalidate_batch (g : Gate) (owner : String) :
    SameBatch g (g.beginInvalidate owner) := by
  unfold Gate.beginInvalidate
  split
  · exact .refl rfl
  · cases hcleanup : g.cleanup with
    | some => exact .refl hcleanup.symm
    | none => exact fun b b' hb => by cases hcleanup.symm.trans hb

/-- Owner, lease and cleanup stay. -/
structure SameHead (g g' : Gate) : Prop where
  owner : g'.owner = g.owner
  expires : g'.expires = g.expires
  cleanup : g'.cleanup = g.cleanup

theorem SameHead.refl (g : Gate) : SameHead g g := ⟨rfl, rfl, rfl⟩

theorem SameHead.sweep (h : SameHead g g') (a : ℕ) : SameHead g (g'.sweep a) := by
  unfold Gate.sweep
  split
  · exact ⟨h.owner, h.expires, h.cleanup⟩
  · exact h

theorem SameHead.release (h : SameHead g g') (r : ℕ) : SameHead g (g'.release r) := by
  rcases release_cases g' r with heq | ⟨-, -, heq⟩
  · rw [heq]
    exact h
  · rw [heq]
    have hdrop : SameHead g (g'.drop r) := ⟨h.owner, h.expires, h.cleanup⟩
    exact hdrop.sweep _

theorem abort_head (g : Gate) (r : ℕ) : SameHead g (g.abort r) := by
  unfold Gate.abort
  split
  · exact .refl g
  · dsimp only
    split
    · exact ⟨rfl, rfl, rfl⟩
    · refine .sweep ?_ _
      exact ⟨rfl, rfl, rfl⟩

theorem releaseAdmission_head (g : Gate) (a : ℕ) : SameHead g (g.releaseAdmission a) := by
  unfold Gate.releaseAdmission
  split
  · exact .refl g
  · dsimp only
    refine .sweep ?_ a
    split <;> split <;> exact ⟨rfl, rfl, rfl⟩

theorem attach_head (g : Gate) (now : ℤ) (r : ℕ) (c : Conn) : SameHead g (g.attach now r c).1 := by
  unfold Gate.attach
  split
  · exact .refl g
  · split
    · exact .refl g
    · split <;> exact ⟨rfl, rfl, rfl⟩

theorem attachFenced_head (g : Gate) (now : ℤ) (r : ℕ) (c : Conn) :
    SameHead g (g.attachFenced now r c).1 := by
  unfold Gate.attachFenced
  split
  · exact .refl g
  · split
    · exact .refl g
    · split <;> exact ⟨rfl, rfl, rfl⟩

theorem onFence_head (r : ℕ) (change : Bool → Fence → Fence) :
    SameHead s.gate (s.onFence r change).gate := by
  unfold System.onFence
  split <;> exact ⟨rfl, rfl, rfl⟩

/-- What a step does to owner, lease and cleanup. -/
inductive HeadMove (g : Gate) (e : Event) (g' : Gate) : Prop
  | same (head : SameHead g g')
  | reject (owner : String) (eq : g' = g.beginInvalidate owner)
  | lease (command : (∃ owner, e = .own owner) ∨ ∃ owner u a, e = .grant owner u a)
      (cleanup : g'.cleanup = g.cleanup)
  | cleanup (owner : g'.owner = g.owner) (expires : g'.expires = g.expires) (batch : SameBatch g g')

theorem step_head (s : System) (e : Event) : HeadMove s.gate e (step s e).gate := by
  have hsame : HeadMove s.gate e s.gate := .same (.refl _)
  have hattached : ∀ {r : ℕ} {result : Gate × Attach}, SameHead s.gate result.1 →
      HeadMove s.gate e (s.attached r result).gate := by
    intro r result h
    unfold System.attached
    split <;> exact .same h
  cases e with
  | tick => exact hsame
  | acquireSource =>
    simp only [step, Gate.acquireSource]
    split
    · exact hsame
    · split
      · exact hsame
      · split
        · exact .reject "" rfl
        · exact .same ⟨rfl, rfl, rfl⟩
  | reserve =>
    simp only [step, Gate.reserve]
    split
    · split
      · exact hsame
      · split
        · exact .reject "" rfl
        · exact .same ⟨rfl, rfl, rfl⟩
    · exact hsame
  | attach =>
    simp only [step]
    split
    · exact hattached (attach_head ..)
    · exact hsame
  | attachFenced =>
    simp only [step]
    split
    · exact hattached (attachFenced_head ..)
    · exact hsame
  | abort =>
    simp only [step]
    split
    · exact .same (abort_head ..)
    · exact hsame
  | release =>
    simp only [step]
    split
    · exact .same (.release (.refl _) _)
    · exact hsame
  | untrack =>
    simp only [step]
    split <;> exact hsame
  | releaseAdmission =>
    simp only [step]
    split
    · exact .same (releaseAdmission_head ..)
    · exact hsame
  | closeFor owner => exact .reject owner rfl
  | own owner =>
    refine .lease (.inl ⟨owner, rfl⟩) ?_
    simp only [step, Gate.own]
    split
    · rfl
    · split <;> rfl
  | grant owner untilTime asked =>
    refine .lease (.inr ⟨owner, untilTime, asked, rfl⟩) ?_
    simp only [step, Gate.grant]
    split
    · split
      · rfl
      · split <;> rfl
    · rfl
  | thread =>
    simp only [step, System.advance]
    split
    · exact hsame
    · exact .reject _ rfl
    · exact .same ⟨rfl, rfl, rfl⟩
    · exact .same (.release (.refl _) _)
  | take =>
    simp only [step, Gate.take]
    split
    · exact hsame
    · rename_i b hb
      split
      · exact .cleanup rfl rfl (.of_some hb rfl ⟨rfl, rfl⟩)
      · exact hsame
  | closeReturned =>
    simp only [step, Gate.closeReturned]
    split
    · split
      · exact hsame
      · split
        · exact .same ⟨rfl, rfl, rfl⟩
        · exact hsame
    · exact hsame
  | workerRelease =>
    simp only [step, Gate.workerRelease]
    split
    · exact hsame
    · rename_i b hb
      split
      · exact .cleanup rfl rfl (.of_some hb rfl ⟨rfl, rfl⟩)
      · exact hsame
  | finishCleanup =>
    simp only [step, Gate.finishCleanup]
    split
    · exact hsame
    · split
      · exact .cleanup rfl rfl nofun
      · exact hsame
  | write r | setDeadline r | closeFence r => exact .same (onFence_head r _)
  | fenceThread r =>
    simp only [step]
    split
    · unfold System.advanceFence
      split
      · exact hsame
      · split
        · exact .same ((onFence_head r _).release r)
        · exact .same (onFence_head r _)
    · exact hsame

theorem step_batch (s : System) (e : Event) : SameBatch s.gate (step s e).gate := by
  cases step_head s e with
  | same head => exact .refl head.cleanup
  | reject owner heq =>
    rw [heq]
    exact beginInvalidate_batch s.gate owner
  | lease command cleanup => exact .refl cleanup
  | cleanup owner expires batch => exact batch

theorem cleanup_changes (h : Inv s.gate) (he : isCleanup e = true)
    (hne : (step s e).gate.regs r ≠ s.gate.regs r) :
    ∃ b, s.gate.cleanup = some b ∧ r ∈ b.registrations := by
  cases hcleanup : s.gate.cleanup with
  | none =>
    exfalso
    apply hne
    cases e with
    | take => simp only [step, Gate.take, System.withGate, hcleanup]
    | closeReturned =>
      simp only [step, Gate.closeReturned, hcleanup]
      split <;> rfl
    | workerRelease => simp only [step, Gate.workerRelease, System.withGate, hcleanup]
    | finishCleanup => simp only [step, Gate.finishCleanup, System.withGate, hcleanup]
    | _ => cases he
  | some b =>
    have hbatch := h.batch b hcleanup
    refine ⟨b, rfl, hbatch.captured r ?_⟩
    by_contra hnot
    rw [not_or] at hnot
    apply hne
    cases e with
    | take =>
      simp only [step, Gate.take, System.withGate, hcleanup]
      split <;> rfl
    | closeReturned =>
      simp only [step, Gate.closeReturned, hcleanup]
      split
      · dsimp only [System.withGate]
        split_ifs with hq
        · refine setReg_of_ne s.gate (fun heq => hnot.2 ?_) _
          rw [heq]
          exact hq.1
        · rfl
      · rfl
    | workerRelease =>
      simp only [step, Gate.workerRelease, System.withGate, hcleanup]
      split_ifs with hq
      · refine Function.update_of_ne (fun heq => hnot.2 ?_) ..
        rw [heq]
        exact hq.1
      · rfl
    | finishCleanup =>
      simp only [step, Gate.finishCleanup, System.withGate, hcleanup]
      split <;> rfl
    | _ => cases he

end

/-- Without callers that disturb late attachments, work that was decided under one activation
closes nothing of a later one, in every interleaving and for every owner. -/
theorem run_harmless (managed : List IpPrefix) (now : ℤ) (events : List Event)
    (hok : Along step Undisturbed (.new managed now) events) :
    Harmless (run step (.new managed now) events) := by
  have hstart : Guarded (.new managed now) :=
    ⟨new_sysInv managed now, nofun⟩
  have h : Guarded (run step (.new managed now) events) :=
    run_invariant Guarded (fun s e hs he => step_guarded hs he) hstart hok
  have hgate := h.sys.gate
  refine ⟨fun i r owner e hthread => ?_, acquireSource_spares hgate, reserve_spares hgate,
    fun b r hb hr => (hgate.batch b hb).captured r (.inr hr),
    fun e r he hne => cleanup_changes hgate he hne, fun e => step_batch _ e⟩
  have hdecided := h.decided r owner e (mem_of_getElem? hthread)
  refine beginInvalidate_spares hgate owner ?_ hdecided.2
  simp only [step, System.advance, hthread]
  rfl

/-- The lease of an owner expires before the client of an admission is attached. -/
def lateEvents : List Event :=
  [.own "hub", .grant "hub" 1000 0, .acquireSource ⟨.v4, 7, by decide⟩, .tick 2000,
    .attach 0 (.raw 3)]

/-- A late attachment is about to close the scope of its owner, and may. -/
theorem run_harmless_late :
    (run step (.new [⟨⟨.v4, 0, by decide⟩, 0, by decide⟩] 0) lateEvents).threads =
      [.attaching 0 "hub" 1] ∧
    Harmless (run step (.new [⟨⟨.v4, 0, by decide⟩, 0, by decide⟩] 0) lateEvents) := by
  refine ⟨by decide, run_harmless _ 0 lateEvents ?_⟩
  exact ⟨fun _ _ h => h, fun _ _ h => h, fun _ _ h => h, fun _ _ h => h, fun _ _ h => h, trivial⟩

end DaxiangVpn.ProxyGateRuns
