import DaxiangVpn.ProxyGateRuns
import DaxiangVpn.WriteFenceSafety

/-!
# Fences of the proxy gate

The invariant of a fence holds of every registration in every run of the gate. A
permit is given in a live scope, and a live scope belongs to the present activation.
-/

namespace DaxiangVpn.ProxyGateFences
open Function

open ProxyGate ProxyGateQuarantine ProxyGateRuns WriteFence WriteFenceSafety
  NetipPrefix TransitionRun

/-! ## What a step does to a fence -/

/-- No fence is changed; a new registration has none. -/
def KeepsFences (g g' : Gate) : Prop :=
  ∀ r, (g'.regs r).fence = (g.regs r).fence ∨ (g'.regs r).fence = none

section

variable {g : Gate}

theorem KeepsFences.of_regs {g' : Gate} (h : g'.regs = g.regs) : KeepsFences g g' := by
  intro r
  rw [h]
  exact .inl rfl

theorem KeepsFences.of_reg {g' : Gate} {r : ℕ} {x : Registration} (h : g'.regs = update g.regs r x)
    (hx : x.fence = (g.regs r).fence ∨ x.fence = none) : KeepsFences g g' := by
  intro q
  rw [h]
  by_cases hq : q = r
  · subst hq
    rw [update_self]
    exact hx
  · rw [update_of_ne hq]
    exact .inl rfl

theorem setReg_fences (r : ℕ) (f : Registration → Registration)
    (hf : ∀ x, (f x).fence = x.fence) : KeepsFences g (g.setReg r f) :=
  .of_reg rfl (.inl (hf _))

theorem attach_fences (now : ℤ) (r : ℕ) (c : Conn) : KeepsFences g (g.attach now r c).1 := by
  unfold Gate.attach
  split
  · exact .of_regs rfl
  · split
    · exact .of_regs rfl
    · split <;>
      · dsimp only
        exact setReg_fences r _ fun _ => rfl

theorem closeReady_fences (r : ℕ) : KeepsFences g (g.closeReady r) :=
  setReg_fences r _ fun _ => rfl

theorem closeReturned_fences (r : ℕ) : KeepsFences g (g.closeReturned r) := by
  unfold Gate.closeReturned
  split
  · exact .of_regs rfl
  · split
    · exact setReg_fences r _ fun _ => rfl
    · exact .of_regs rfl

theorem beginInvalidate_fences (owner : String) : KeepsFences g (g.beginInvalidate owner) := by
  unfold Gate.beginInvalidate
  split
  · exact .of_regs rfl
  · split
    · exact .of_regs rfl
    · intro r
      dsimp only
      split <;> exact .inl rfl

theorem release_fences (r : ℕ) : KeepsFences g (g.release r) := by
  rcases release_cases g r with heq | ⟨-, -, heq⟩
  · rw [heq]
    exact .of_regs rfl
  · rw [heq]
    exact .of_reg ((sweep_regs ..).1.trans (drop_regs ..)) (.inl rfl)

theorem abort_fences (r : ℕ) : KeepsFences g (g.abort r) := by
  unfold Gate.abort
  split
  · exact .of_regs rfl
  dsimp only
  split
  · exact .of_reg rfl (.inl rfl)
  · refine .of_reg ((sweep_regs ..).1.trans ((drop_regs ..).trans (update_idem ..))) ?_
    rw [setReg_self]
    exact .inl rfl

theorem releaseAdmission_fences (a : ℕ) : KeepsFences g (g.releaseAdmission a) := by
  unfold Gate.releaseAdmission
  split
  · exact .of_regs rfl
  dsimp only
  split
  · split
    · refine .of_reg ((sweep_regs ..).1.trans ((drop_regs ..).trans (update_idem ..))) ?_
      rw [setReg_self]
      exact .inl rfl
    · exact .of_reg ((sweep_regs ..).1.trans (drop_regs ..)) (.inl rfl)
  · split
    · exact .of_reg (sweep_regs ..).1 (.inl rfl)
    · exact .of_regs (sweep_regs ..).1

end

/-- What may happen to the fence of a registration in one step. -/
inductive FenceMove (s : System) (r : ℕ) (x : Option Fence) : Prop
  | keep (eq : x = (s.gate.regs r).fence ∨ x = none)
  /-- It is made for a registration that exists. -/
  | new (c : Conn) (bound : r < s.gate.regCount) (eq : x = some (.new c))
      (none : (s.gate.regs r).fence = none)
  | start (f f' : Fence) (before : (s.gate.regs r).fence = some f) (eq : x = some f')
      (call : f' = f.beginWrite (s.live r f) ∨
        (∃ kind deadline, f' = f.updateDeadline (s.live r f) s.now kind deadline) ∨
        f' = f.beginClose)
  | advance (f : Fence) (i : ℕ) (fails : Bool) (before : (s.gate.regs r).fence = some f)
      (eq : x = some (f.advance (s.live r f) fails s.now i))

section

variable {s : System}

theorem onFence_fence (q r : ℕ) (change : Bool → Fence → Fence) :
    ((s.onFence q change).gate.regs r).fence = (s.gate.regs r).fence ∨ q = r ∧ ∃ f,
    (s.gate.regs r).fence = some f ∧
    ((s.onFence q change).gate.regs r).fence = some (change (s.live r f) f) := by
  unfold System.onFence
  cases hfence : (s.gate.regs q).fence with
  | none => exact .inl rfl
  | some f =>
    dsimp only [System.withGate]
    by_cases hq : r = q
    · subst hq
      rw [setReg_self]
      exact .inr ⟨rfl, f, hfence, rfl⟩
    · rw [setReg_of_ne s.gate hq]
      exact .inl rfl

theorem step_fence (s : System) (e : Event) (r : ℕ) :
    FenceMove s r ((step s e).gate.regs r).fence := by
  have hattached : ∀ {q : ℕ} {result : Gate × Attach} {x : Gate}, result.1 = x →
      ((s.attached q result).gate.regs r).fence = (x.regs r).fence := by
    intro q result x hx
    unfold System.attached
    split <;> rw [← hx] <;> rfl
  have hsame : FenceMove s r (s.gate.regs r).fence := .keep (.inl rfl)
  cases e with
  | tick => exact hsame
  | acquireSource =>
    simp only [step, Gate.acquireSource]
    split
    · exact hsame
    · split
      · exact hsame
      · split
        · exact .keep (beginInvalidate_fences "" r)
        · exact .keep (KeepsFences.of_reg rfl (.inr rfl) r)
  | reserve =>
    simp only [step, Gate.reserve]
    split
    · split
      · exact hsame
      · split
        · exact .keep (beginInvalidate_fences "" r)
        · exact .keep (KeepsFences.of_reg rfl (.inr rfl) r)
    · exact hsame
  | attach q c =>
    simp only [step]
    split
    · rw [hattached rfl]
      exact .keep (attach_fences s.now q c r)
    · exact hsame
  | attachFenced q c =>
    simp only [step]
    split_ifs with hq
    · rw [hattached rfl]
      unfold Gate.attachFenced
      split
      · exact hsame
      split
      · exact hsame
      rename_i hopen
      simp only [not_or, Bool.not_eq_true, Option.isSome_eq_false_iff, Option.isNone_iff_eq_none]
        at hopen
      split <;>
      · dsimp only
        by_cases hr : r = q
        · subst hr
          rw [setReg_self]
          exact .new c hq rfl hopen.2.2.2
        · rw [setReg_of_ne s.gate hr]
          exact hsame
    · exact hsame
  | abort q =>
    simp only [step]
    split
    · exact .keep (abort_fences q r)
    · exact hsame
  | release q =>
    simp only [step]
    split
    · exact .keep (release_fences q r)
    · exact hsame
  | untrack =>
    simp only [step]
    split <;> exact hsame
  | releaseAdmission a =>
    simp only [step]
    split
    · exact .keep (releaseAdmission_fences a r)
    · exact hsame
  | closeFor owner => exact .keep (beginInvalidate_fences owner r)
  | own =>
    simp only [step, Gate.own]
    split
    · exact hsame
    · split <;> exact hsame
  | grant =>
    simp only [step, Gate.grant]
    split
    · split
      · exact hsame
      · split <;> exact hsame
    · exact hsame
  | thread =>
    simp only [step, System.advance]
    split
    · exact hsame
    · exact .keep (beginInvalidate_fences _ r)
    · exact .keep (closeReady_fences _ r)
    · exact .keep (release_fences _ r)
  | take =>
    simp only [step, Gate.take]
    split
    · exact hsame
    · split <;> exact hsame
  | closeReturned q =>
    simp only [step]
    split
    · exact .keep (closeReturned_fences q r)
    · exact hsame
  | workerRelease q =>
    simp only [step, Gate.workerRelease]
    split
    · exact hsame
    · split
      · exact .keep (KeepsFences.of_reg (drop_regs s.gate q) (.inl rfl) r)
      · exact hsame
  | finishCleanup =>
    simp only [step, Gate.finishCleanup]
    split
    · exact hsame
    · split <;> exact hsame
  | write q =>
    rcases onFence_fence q r fun live f => f.beginWrite live with heq | ⟨rfl, f, hf, heq⟩
    · exact .keep (.inl heq)
    · exact .start f _ hf heq (.inl rfl)
  | setDeadline q kind deadline =>
    rcases onFence_fence q r fun live f => f.updateDeadline live s.now kind deadline with
      heq | ⟨rfl, f, hf, heq⟩
    · exact .keep (.inl heq)
    · exact .start f _ hf heq (.inr (.inl ⟨kind, deadline, rfl⟩))
  | closeFence q =>
    rcases onFence_fence q r fun _ f => f.beginClose with heq | ⟨rfl, f, hf, heq⟩
    · exact .keep (.inl heq)
    · exact .start f _ hf heq (.inr (.inr rfl))
  | fenceThread q i fails =>
    simp only [step]
    split
    · have hadvance : FenceMove s r
          ((s.onFence q fun live x => x.advance live fails s.now i).gate.regs r).fence := by
        rcases onFence_fence q r fun live x => x.advance live fails s.now i with
          heq | ⟨rfl, f, hf, heq⟩
        · exact .keep (.inl heq)
        · exact .advance f i fails hf heq
      unfold System.advanceFence
      split
      · exact hsame
      split
      · rcases release_fences (g := (s.onFence q fun live x => x.advance live fails s.now i).gate) q
          r with
          heq | heq
        · exact heq ▸ hadvance
        · exact .keep (.inr heq)
      · exact hadvance
    · exact hsame

/-- What holds of all fences. -/
structure FencesOk (s : System) : Prop where
  fence : ∀ r f, (s.gate.regs r).fence = some f → FenceOk s.now f
  bound : ∀ r f, (s.gate.regs r).fence = some f → r < s.gate.regCount

theorem live_open {r : ℕ} {f : Fence} (h : s.live r f = true) : f.closed = false := by
  unfold System.live at h
  rw [Bool.and_eq_true, Bool.not_eq_true'] at h
  exact h.1

theorem step_now (s : System) (e : Event) : s.now ≤ (step s e).now := by
  have honFence : ∀ r change, s.now ≤ (s.onFence r change).now := by
    intro r change
    unfold System.onFence
    split <;> exact le_rfl
  have hattached : ∀ r result, s.now ≤ (s.attached r result).now := by
    intro r result
    unfold System.attached
    split <;> exact le_rfl
  cases e with
  | tick d => exact Int.le_add_of_nonneg_right (Int.natCast_nonneg d)
  | thread =>
    simp only [step, System.advance]
    split <;> exact le_rfl
  | write r | setDeadline r | closeFence r => exact honFence r _
  | fenceThread r =>
    simp only [step]
    split
    · unfold System.advanceFence
      split
      · exact le_rfl
      · split <;> exact honFence r _
    · exact le_rfl
  | attach r | attachFenced r =>
    simp only [step]
    split
    · exact hattached r _
    · exact le_rfl
  | acquireSource | closeFor | own | take | workerRelease | finishCleanup => exact le_rfl
  | _ =>
    simp only [step]
    split <;> exact le_rfl

theorem step_fencesOk (hgate : Inv s.gate) (h : FencesOk s) (e : Event) : FencesOk (step s e) := by
  have hcount := (step_moves hgate e).regCount
  have hboth : ∀ r f, ((step s e).gate.regs r).fence = some f → FenceOk s.now f ∧
    r < s.gate.regCount := by
    intro r f hf
    cases step_fence s e r with
    | keep heq =>
      rcases heq with heq | heq
      · exact ⟨h.fence r f (heq.symm.trans hf), h.bound r f (heq.symm.trans hf)⟩
      · cases heq.symm.trans hf
    | new c hr heq =>
      cases heq.symm.trans hf
      exact ⟨new_ok s.now c, hr⟩
    | start f₀ f' hbefore heq hcall =>
      cases heq.symm.trans hf
      have hok := h.fence r f₀ hbefore
      refine ⟨?_, h.bound r f₀ hbefore⟩
      rcases hcall with rfl | ⟨kind, deadline, rfl⟩ | rfl
      · exact beginWrite_ok hok live_open
      · exact updateDeadline_ok hok live_open kind deadline
      · exact beginClose_ok hok
    | advance f₀ i fails hbefore heq =>
      cases heq.symm.trans hf
      exact ⟨advance_ok (h.fence r f₀ hbefore) live_open fails i, h.bound r f₀ hbefore⟩
  exact ⟨fun r f hf => (hboth r f hf).1.later (step_now s e),
    fun r f hf => lt_of_lt_of_le (hboth r f hf).2 hcount⟩

theorem run_fencesOk (managed : List IpPrefix) (now : ℤ) (events : List Event) :
    FencesOk (run step (.new managed now) events) ∧
    SysInv (run step (.new managed now) events) := by
  refine run_invariant (fun s => FencesOk s ∧ SysInv s)
    (fun s e h _ => ⟨step_fencesOk h.2.gate h.1 e, step_sysInv h.2 e⟩)
    ⟨⟨fun r f hf => ?_, fun r f hf => ?_⟩, new_sysInv managed now⟩
    (along_of_forall (fun _ _ => trivial) _ _)
  · cases hf
  · cases hf

/-- The activation a registration was reserved under is live and has not expired. -/
def ActivationLive (s : System) (r : ℕ) : Prop :=
  s.gate.owner ≠ "" ∧ (∃ expires, s.gate.expires = some expires ∧ s.now < expires) ∧
    (s.gate.regs r).epoch = s.gate.epoch

theorem activationLive_of_live (h : Inv s.gate) {r : ℕ} (hr : r < s.gate.regCount) {f : Fence}
    (hlive : s.live r f = true) : ActivationLive s r := by
  simp only [System.live, Gate.scopeLive, Bool.and_eq_true, Bool.not_eq_true'] at hlive
  obtain ⟨-, ⟨⟨⟨⟨⟨hreleased, -⟩, -⟩, -⟩, -⟩, -⟩, hopen⟩ := hlive
  unfold Gate.isOpen at hopen
  cases hexpires : s.gate.expires with
  | none =>
    rw [hexpires] at hopen
    cases hopen
  | some expires =>
    rw [hexpires] at hopen
    simp only [Bool.and_eq_true, decide_eq_true_eq] at hopen
    exact ⟨hopen.1, ⟨expires, hexpires, hopen.2⟩, h.regEpoch r hr hreleased⟩

end

/-! ## Safety of all fences -/

/-- What a fenced connection keeps in all states and steps. -/
structure FenceSafe (s : System) : Prop where
  /-- At most one permit of each kind is outstanding. -/
  permits : ∀ r f, (s.gate.regs r).fence = some f → f.threads.countP isWriting ≤ 1 ∧
    f.threads.countP isUpdating ≤ 1 ∧ f.threads.countP isRevoking ≤ 1
  /-- A permit for a write or a future deadline is given in the activation of the
  registration. -/
  given : ∀ e r f f', (s.gate.regs r).fence = some f → ((step s e).gate.regs r).fence = some f' →
    f.threads.countP isWriting < f'.threads.countP isWriting ∨
      f.threads.countP isUpdating < f'.threads.countP isUpdating → ActivationLive s r
  /-- An update decides to return no error in a scope that is live after its raw update. -/
  result : ∀ r f f' i fails kind deadline stage stage' result, (s.gate.regs r).fence = some f →
    ((step s (.fenceThread r i fails)).gate.regs r).fence = some f' →
    f.threads[i]? = some (.updating kind deadline stage) → updateResult stage = none →
    f'.threads[i]? = some (.updating kind deadline stage') → updateResult stage' = some result →
    result = .closed ∨ s.live r f = true ∧ stage = .updated (decide (result = .failed))
  /-- An update that returns the error of a closed scope leaves a past deadline. -/
  repaired : ∀ r f kind deadline, (s.gate.regs r).fence = some f →
    .updating kind deadline (.leaving .closed) ∈ f.threads → lastRepair f.calls = true
  /-- On a completed fence nothing is in progress, and the last raw deadline is past. -/
  completed : ∀ r f, (s.gate.regs r).fence = some f → f.completed = true →
    (∀ t ∈ f.threads, t = .closing .releasing) ∧ lastPast f.calls = true
  /-- A completed fence stays so, and no raw deadline is set any more. -/
  stays : ∀ e r f f', (s.gate.regs r).fence = some f → ((step s e).gate.regs r).fence = some f' →
    f.completed = true → f'.completed = true ∧ f'.calls = f.calls

theorem flag_lt {a b : Bool} (h : a.toNat < b.toNat) : a = false ∧ b = true := by
  revert h
  cases a <;> cases b <;> decide

/-- A call that begins gets its permit in a live scope. -/
theorem start_live {f f' : Fence} {live : Bool} {now : ℤ}
    (hcall : f' = f.beginWrite live ∨
    (∃ kind deadline, f' = f.updateDeadline live now kind deadline) ∨
      f' = f.beginClose)
    (hgiven : f.writeActive = false ∧ f'.writeActive = true ∨
      f.deadlineActive = false ∧ f'.deadlineActive = true) : live = true := by
  have hsame : f'.writeActive = f.writeActive → f'.deadlineActive = f.deadlineActive →
    live = true := by
    intro hwrite hdeadline
    rcases hgiven with ⟨hbefore, hafter⟩ | ⟨hbefore, hafter⟩
    · cases (hwrite.symm.trans hafter).symm.trans hbefore
    · cases (hdeadline.symm.trans hafter).symm.trans hbefore
  by_contra hdead
  rw [Bool.not_eq_true] at hdead
  subst hdead
  have hfalse : f'.writeActive = f.writeActive ∧ f'.deadlineActive = f.deadlineActive := by
    rcases hcall with rfl | ⟨kind, deadline, rfl⟩ | rfl
    · exact ⟨rfl, rfl⟩
    · unfold Fence.updateDeadline
      split
      · split
        · unfold Fence.beginRevoke
          split <;> exact ⟨rfl, rfl⟩
        · simp [Fence.beginUpdate]
      · simp [Fence.beginUpdate]
    · unfold Fence.beginClose
      split <;> exact ⟨rfl, rfl⟩
  cases hsame hfalse.1 hfalse.2

theorem start_completed {f f' : Fence} {live : Bool} {now : ℤ} (hok : FenceOk now f)
    (hlive : live = true → f.closed = false) (hcompleted : f.completed = true)
    (hcall : f' = f.beginWrite live ∨
    (∃ kind deadline, f' = f.updateDeadline live now kind deadline) ∨
      f' = f.beginClose) : f' = f := by
  obtain ⟨hclosed, hidle, -⟩ := hok.of_completed hcompleted
  have hdead : live = false := by
    by_contra hfalse
    rw [Bool.not_eq_false] at hfalse
    cases hclosed.symm.trans (hlive hfalse)
  rcases hcall with rfl | ⟨kind, deadline, rfl⟩ | rfl
  · simp [Fence.beginWrite, hdead]
  · unfold Fence.updateDeadline
    split
    · split
      · simp [Fence.beginRevoke, hclosed]
      · simp [Fence.beginUpdate, hdead]
    · simp [Fence.beginUpdate, hdead]
  · simp [Fence.beginClose, hidle]

theorem fenceThread_fence {s : System} {r i : ℕ} {fails : Bool} {f f' : Fence}
    (hr : r < s.gate.regCount) (hf : (s.gate.regs r).fence = some f)
    (hf' : ((step s (.fenceThread r i fails)).gate.regs r).fence = some f') :
    f' = f.advance (s.live r f) fails s.now i := by
  have honFence : ((s.onFence r fun live x => x.advance live fails s.now i).gate.regs r).fence =
      some (f.advance (s.live r f) fails s.now i) := by
    unfold System.onFence
    rw [hf]
    dsimp only [System.withGate]
    rw [setReg_self]
  simp only [step, if_pos hr, System.advanceFence, hf] at hf'
  split at hf'
  · rcases release_fences (g := (s.onFence r fun live x => x.advance live fails s.now i).gate) r
      r with
      heq | heq
    · cases (heq.trans honFence).symm.trans hf'
      rfl
    · cases heq.symm.trans hf'
  · cases honFence.symm.trans hf'
    rfl

/-- The write fence is safe in every interleaving. -/
theorem run_fenceSafe (managed : List IpPrefix) (now : ℤ) (events : List Event) :
    FenceSafe (run step (.new managed now) events) := by
  obtain ⟨h, hsys⟩ := run_fencesOk managed now events
  generalize run step (.new managed now) events = s at h hsys
  refine ⟨fun r f hf => ?_, fun e r f f' hf hf' hlt => ?_,
    fun r f f' i fails kind deadline stage stage' result hf hf' hi hnone hi' hresult => ?_,
    fun r f kind deadline hf hmem => ?_, fun r f hf hcompleted => ?_,
    fun e r f f' hf hf' hcompleted => ?_⟩
  · have hok := h.fence r f hf
    rw [hok.write, hok.update, hok.revoke]
    exact ⟨Bool.toNat_le _, Bool.toNat_le _, Bool.toNat_le _⟩
  · have hok := h.fence r f hf
    have hok' := (step_fencesOk hsys.gate h e).fence r f' hf'
    rw [hok.write, hok'.write, hok.update, hok'.update] at hlt
    have hgiven := hlt.imp flag_lt flag_lt
    cases step_fence s e r with
    | keep heq =>
      rcases heq with heq | heq
      · cases (heq.trans hf).symm.trans hf'
        omega
      · cases heq.symm.trans hf'
    | new c _ _ hno => cases hno.symm.trans hf
    | start f₀ f₁ hbefore heq hcall =>
      cases hbefore.symm.trans hf
      cases heq.symm.trans hf'
      exact activationLive_of_live hsys.gate (h.bound r f hf) (start_live hcall hgiven)
    | advance f₀ i fails hbefore heq =>
      cases hbefore.symm.trans hf
      cases heq.symm.trans hf'
      have hflags := advance_flags f (s.live r f) fails s.now i
      rcases hgiven with ⟨hno, hyes⟩ | ⟨hno, hyes⟩
      · cases (hflags.1 hyes).symm.trans hno
      · cases (hflags.2 hyes).symm.trans hno
  · cases fenceThread_fence (h.bound r f hf) hf hf'
    exact advance_result hi hnone hi' hresult
  · refine (h.fence r f hf).repaired (List.countP_pos_iff.mpr ⟨_, hmem, rfl⟩)
  · have hdone := (h.fence r f hf).of_completed hcompleted
    exact ⟨hdone.2.2.1, hdone.2.2.2⟩
  · have hok := h.fence r f hf
    cases step_fence s e r with
    | keep heq =>
      rcases heq with heq | heq
      · cases (heq.trans hf).symm.trans hf'
        exact ⟨hcompleted, rfl⟩
      · cases heq.symm.trans hf'
    | new c _ _ hno => cases hno.symm.trans hf
    | start f₀ f₁ hbefore heq hcall =>
      cases hbefore.symm.trans hf
      cases heq.symm.trans hf'
      rw [start_completed hok live_open hcompleted hcall]
      exact ⟨hcompleted, rfl⟩
    | advance f₀ i fails hbefore heq =>
      cases hbefore.symm.trans hf
      cases heq.symm.trans hf'
      exact advance_completed hok hcompleted (s.live r f) fails i

end DaxiangVpn.ProxyGateFences
