import DaxiangVpn.DeviceAuthPolicy
import DaxiangVpn.TransitionRun

/-!
# The reconciliation scheduler

`Tick` goes through the devices from a cursor that outlives the cycle. The cursor moves before the
context is checked, so a cycle that is cut at that check passes over a device. The devices, in the
order of their ids, are the same in every cycle; all that a cycle meets is an input.
-/

namespace DaxiangVpn.DeviceAuthScheduler

open DeviceAuthPolicy TransitionRun List Nat

/-! ## Cycles -/

/-- An error of a cycle. -/
inductive Failure
  | context
  | store (e : Err)
  deriving DecidableEq

structure Cycle where
  /-- The clock at its start. -/
  now : ℤ
  /-- The first error of the sweeps, of `RefreshDeadlines` and of the query for the devices. -/
  before : Option Failure
  /-- Whether the context is done at an attempt's check. -/
  done : ℕ → Bool
  /-- What `Reconcile` returns at an attempt. -/
  reconcile : ℕ → Option Failure

/-- The scheduler, with the devices it reconciled so far, the first one first. -/
structure Scheduler where
  cursor : ℕ
  lastCycle : ℤ
  errorCode : String
  visits : List String

/-- `NewScheduler`. -/
def Scheduler.new : Scheduler := ⟨0, 0, "", []⟩

/-- The cursor moves on. -/
def Scheduler.advance (ids : List String) (s : Scheduler) : Scheduler :=
  { s with cursor := (s.cursor + 1) % ids.length }

/-- The device at the cursor is reconciled. -/
def Scheduler.visit (ids : List String) (s : Scheduler) : Scheduler :=
  { s.advance ids with visits := s.visits ++ [ids.getD s.cursor ""] }

/-- The error that a cycle keeps: neither `ErrSuperseded` nor `ErrExpired`. -/
def kept (result : Option Failure) : Option Failure → Option Failure
  | none => result
  | some e => if e = .store .superseded ∨ e = .store .expired then result else some e

/-- The loop of `Tick`: attempts left, the attempt, and the error so far. -/
def attempts (ids : List String) (c : Cycle) :
    ℕ → ℕ → Scheduler → Option Failure → Scheduler × Option Failure
  | 0, _, s, result => (s, result)
  | n + 1, i, s, result =>
    if c.done i then (s.advance ids, some .context)
    else attempts ids c n (i + 1) (s.visit ids) (kept result (c.reconcile i))

/-- `fail`, for a cycle that ends in an error. -/
def fail : Scheduler × Option Failure → Scheduler × Option Failure
  | (s, some e) => ({ s with errorCode := "reconciliation_degraded" }, some e)
  | (s, none) => (s, none)

def tick (ids : List String) (s : Scheduler) (c : Cycle) : Scheduler × Option Failure :=
  let s := { s with lastCycle := c.now, errorCode := "" }
  if c.before.isSome then fail (s, c.before)
  else if ids.length = 0 then ({ s with cursor := 0 }, none)
  else fail (attempts ids c ids.length 0 { s with cursor := s.cursor % ids.length } none)

/-- One cycle after the other. -/
def step (ids : List String) (s : Scheduler) (c : Cycle) : Scheduler := (tick ids s c).1

/-! ## The order of the visits -/

/-- The devices are visited in turn. -/
structure Fair (ids visits : List String) : Prop where
  /-- After a device comes its cyclic successor. -/
  next : ∀ j, j + 1 < visits.length →
    ∃ k < ids.length, visits[j]? = ids[k]? ∧ visits[j + 1]? = ids[(k + 1) % ids.length]?
  /-- As many visits as there are devices visit each device once. -/
  once : ∀ j, j + ids.length ≤ visits.length → ((visits.drop j).take ids.length).Perm ids

/-- The visits go round the devices, and the cursor is where they stopped. -/
structure Rotates (ids : List String) (s : Scheduler) : Prop where
  cursor : s.cursor % ids.length = s.visits.length % ids.length
  visits : ∀ j < s.visits.length, s.visits[j]? = ids[j % ids.length]?

section

variable {ids : List String} {s : Scheduler}

theorem Rotates.mod_lt (h : Rotates ids s) {j : ℕ} (hj : j < s.visits.length) :
    j % ids.length < ids.length := by
  have hvisit := h.visits j hj
  rw [List.getElem?_eq_getElem hj] at hvisit
  exact (List.getElem?_eq_some_iff.mp hvisit.symm).1

theorem Rotates.fair (h : Rotates ids s) : Fair ids s.visits where
  next j hj := by
    refine ⟨j % ids.length, h.mod_lt (by omega), h.visits j (by omega), ?_⟩
    rw [h.visits (j + 1) hj, mod_add_mod]
  once j hj := by
    have hwindow : (s.visits.drop j).take ids.length = ids.rotate j := by
      refine ext_getElem? fun k => ?_
      by_cases hk : k < ids.length
      · rw [List.getElem?_take_of_lt hk, List.getElem?_drop, h.visits (j + k) (by omega),
          List.getElem?_rotate hk, add_comm]
      · rw [List.getElem?_eq_none (by rw [length_take]; omega),
          List.getElem?_eq_none (by rw [length_rotate]; omega)]
    rw [hwindow]
    exact rotate_perm ids j

theorem Rotates.visit (h : Rotates ids s) (hcursor : s.cursor < ids.length) :
    Rotates ids (s.visit ids) where
  cursor := by
    simp only [Scheduler.visit, Scheduler.advance, length_append, length_singleton, mod_mod]
    rw [add_mod, h.cursor, ← add_mod]
  visits j hj := by
    simp only [Scheduler.visit, length_append, length_singleton] at hj ⊢
    by_cases hlast : j < s.visits.length
    · rw [List.getElem?_append_left hlast, h.visits j hlast]
    · obtain rfl : j = s.visits.length := by omega
      rw [List.getElem?_concat_length, ← h.cursor, mod_eq_of_lt hcursor, getD_eq_getElem?_getD,
        List.getElem?_eq_getElem hcursor]
      rfl

theorem attempts_rotates {c : Cycle} (n i : ℕ) (result : Option Failure)
    (hdone : ∀ k, k < i + n → c.done k = false) (hcursor : s.cursor < ids.length)
    (h : Rotates ids s) : Rotates ids (attempts ids c n i s result).1 := by
  induction n generalizing i s result with
  | zero => exact h
  | succ n ih =>
    have hgo : ¬ c.done i = true := by
      rw [hdone i (by omega)]
      exact Bool.false_ne_true
    simp only [attempts, if_neg hgo]
    exact ih _ _ (fun k hk => hdone k (by omega)) (mod_lt _ (by omega)) (h.visit hcursor)

theorem Rotates.fail {r : Scheduler × Option Failure} (h : Rotates ids r.1) :
    Rotates ids (fail r).1 := by
  obtain ⟨s, _ | e⟩ := r
  · exact h
  · exact ⟨h.cursor, h.visits⟩

theorem step_rotates {c : Cycle} (h : Rotates ids s) (hdone : ∀ i < ids.length, c.done i = false) :
    Rotates ids (step ids s c) := by
  unfold step tick
  split_ifs with hbefore hids
  · exact Rotates.fail ⟨h.cursor, h.visits⟩
  · have hvisits : s.visits.length = 0 := by
      by_contra hvisits
      have hlt := h.mod_lt (j := 0) (by omega)
      omega
    exact ⟨by rw [hvisits], h.visits⟩
  · refine Rotates.fail
      (attempts_rotates _ _ _ (fun k hk => hdone k (by omega)) (mod_lt _ (by omega)) ⟨?_, h.visits⟩)
    exact (mod_mod _ _).trans h.cursor

end

/-- The devices are visited in turn as long as no cycle is cut at the check after the cursor moved.
A cycle may end before its loop or during its last `Reconcile`, and any `Reconcile` may fail. -/
theorem run_fair (ids : List String) (cycles : List Cycle)
    (hdone : ∀ c ∈ cycles, ∀ i < ids.length, c.done i = false) :
    Fair ids (run (step ids) .new cycles).visits := by
  have hnew : Rotates ids .new := ⟨rfl, fun j hj => absurd hj (not_lt_zero j)⟩
  refine Rotates.fair ?_
  induction cycles using List.reverseRecOn with
  | nil => exact hnew
  | append_singleton cycles c ih =>
    rw [run_append]
    exact step_rotates (ih fun c hc => hdone c (mem_append_left _ hc))
      (hdone c (mem_append_right _ (mem_singleton_self c)))

/-- A cycle whose `Reconcile` calls all fail. -/
def failing : Cycle := ⟨0, none, fun _ => false, fun _ => some (.store .verification)⟩

/-- A cycle whose context ends during the first `Reconcile`. -/
def slow : Cycle := ⟨0, none, fun i => i != 0, fun _ => some .context⟩

/-- Two devices whose reconciliations all fail are visited in turn. -/
theorem failing_fair : Fair ["a", "b"] (run (step ["a", "b"]) .new [failing, failing]).visits :=
  run_fair ["a", "b"] [failing, failing] fun c hc i _ => by
    simp only [mem_cons, not_mem_nil, or_false, or_self] at hc
    rw [hc]
    rfl

/-- While the first of two devices is slow, the second one is passed over and the first one comes
again. -/
theorem slow_starves : ¬ Fair ["a", "b"] (run (step ["a", "b"]) .new [slow, slow]).visits := by
  intro h
  have hvisits : (run (step ["a", "b"]) .new [slow, slow]).visits = ["a", "a"] := by decide
  rw [hvisits] at h
  exact absurd (h.next 0 (by decide)) (by decide)

end DaxiangVpn.DeviceAuthScheduler
