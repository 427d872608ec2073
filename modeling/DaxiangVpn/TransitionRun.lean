import Mathlib.Tactic

/-!
# Runs of a deterministic step function

All nondeterminism of an environment is an input, so a run is a fold of the
step function over a list of inputs. A guard restricts the inputs step by step,
each against the state it meets.
-/

namespace DaxiangVpn.TransitionRun

variable {σ ι : Type} (step : σ → ι → σ)

/-- The state after all inputs. -/
def run (w : σ) (inputs : List ι) : σ := inputs.foldl step w

/-- Every state of the run, the first one included. -/
def visited : σ → List ι → List σ
  | w, [] => [w]
  | w, i :: rest => w :: visited (step w i) rest

/-- Every input meets the guard in the state it is given to. -/
def Along (ok : σ → ι → Prop) : σ → List ι → Prop
  | _, [] => True
  | w, i :: rest => ok w i ∧ Along ok (step w i) rest

/-- A guard that can be evaluated can be evaluated along a run. -/
instance decidableAlong (ok : σ → ι → Prop) [∀ w i, Decidable (ok w i)] :
    ∀ w inputs, Decidable (Along step ok w inputs)
  | _, [] => .isTrue trivial
  | w, i :: rest => @instDecidableAnd _ _ _ (decidableAlong ok (step w i) rest)

variable {step}

theorem run_append (w : σ) (first second : List ι) :
    run step w (first ++ second) = run step (run step w first) second := by
  simp [run, List.foldl_append]

/-- One more input is one more step. -/
theorem run_cons (w : σ) (i : ι) (rest : List ι) :
    run step w (i :: rest) = run step (step w i) rest := rfl

variable {ok : σ → ι → Prop} {w : σ} {inputs : List ι}

theorem along_append (w : σ) (first second : List ι) : Along step ok w (first ++ second) ↔
      Along step ok w first ∧ Along step ok (run step w first) second := by
  induction first generalizing w with
  | nil => simp [Along, run]
  | cons i rest ih =>
    simp only [List.cons_append, Along, ih, run_cons]
    exact and_assoc.symm

/-- A guard that every step meets holds along every run. -/
theorem along_of_forall (h : ∀ w i, ok w i) (w : σ) (inputs : List ι) : Along step ok w inputs := by
  induction inputs generalizing w with
  | nil => trivial
  | cons i rest ih => exact ⟨h w i, ih _⟩

/-- Two guards hold along a run exactly when their conjunction does. -/
theorem along_and {ok' : σ → ι → Prop} (h : Along step ok w inputs) (h' : Along step ok' w inputs) :
    Along step (fun w i => ok w i ∧ ok' w i) w inputs := by
  induction inputs generalizing w with
  | nil => trivial
  | cons i rest ih => exact ⟨⟨h.1, h'.1⟩, ih h.2 h'.2⟩

section

variable (inv : σ → Prop) (hstep : ∀ w i, inv w → ok w i → inv (step w i)) (h0 : inv w)
include inv hstep h0

/-- What holds first and survives every guarded step holds after the run. -/
theorem run_invariant (hok : Along step ok w inputs) : inv (run step w inputs) := by
  induction inputs generalizing w with
  | nil => exact h0
  | cons i rest ih => exact ih (hstep w i h0 hok.1) hok.2

/-- What holds first and survives every guarded step holds in every visited state. -/
theorem visited_invariant (hok : Along step ok w inputs) : ∀ v ∈ visited step w inputs, inv v := by
  induction inputs generalizing w with
  | nil => simpa [visited] using h0
  | cons i rest ih =>
    intro v hv
    rcases List.mem_cons.mp hv with rfl | hv
    · exact h0
    · exact ih (hstep w i h0 hok.1) hok.2 v hv

end

theorem run_mem_visited (w : σ) (first second : List ι) :
    run step w first ∈ visited step w (first ++ second) := by
  induction first generalizing w with
  | nil => cases second <;> simp [run, visited]
  | cons i rest ih => exact List.mem_cons_of_mem _ (ih (step w i))

/-- A reflexive, transitive relation that every guarded step respects
relates the first state of a run to its last. -/
theorem run_related (inv : σ → Prop) (rel : σ → σ → Prop) (hrefl : ∀ w, rel w w)
    (htrans : ∀ a b c, rel a b → rel b c → rel a c) (hinv : ∀ w i, inv w → ok w i → inv (step w i))
    (hstep : ∀ w i, inv w → ok w i → rel w (step w i)) (h0 : inv w) (hok : Along step ok w inputs) :
    rel w (run step w inputs) := by
  induction inputs generalizing w with
  | nil => exact hrefl w
  | cons i rest ih =>
    exact htrans _ _ _ (hstep w i h0 hok.1) (ih (hinv w i h0 hok.1) hok.2)

end DaxiangVpn.TransitionRun
