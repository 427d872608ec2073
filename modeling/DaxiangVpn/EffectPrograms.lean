import DaxiangVpn.TransitionRun

/-!
# Programs with effects

A program is a result, or an effect and what follows each of its answers. The rules say what every
effect of a program meets, whatever the answers are, against a view that answers may change. A
session runs one program after the other on a world.
-/

namespace DaxiangVpn.EffectPrograms

open TransitionRun

/-- A program with effects `E`, answers `R` and results `α`. -/
inductive Prog (E : Type) (R : E → Type) (α : Type) : Type
  /-- A result. -/
  | done (a : α)
  | effect (e : E) (next : R e → Prog E R α)

section

variable {E : Type} {R : E → Type} {G α β : Type}

/-- Go on with the result. -/
def Prog.bind : Prog E R α → (α → Prog E R β) → Prog E R β
  | .done a, f => f a
  | .effect e next, f => .effect e fun r => (next r).bind f

instance : Monad (Prog E R) where
  pure := .done
  bind := Prog.bind

def perform (e : E) : Prog E R (R e) := .effect e .done

/-! ## Rules -/

/-- Every effect meets `pre` and the result meets `post`, when answers change the view as `can`
allows. -/
def Prog.Meets (can : G → ∀ e, R e → G → Prop) (pre : G → E → Prop) (post : G → α → Prop) : G →
    Prog E R α → Prop
  | g, .done a => post g a
  | g, .effect e next => pre g e ∧ ∀ r g', can g e r g' → (next r).Meets can pre post g'

variable {can : G → ∀ e, R e → G → Prop} {pre : G → E → Prop} {post : G → α → Prop} {g : G}

/-- A program goes on with every result that meets the condition. -/
theorem meets_bind {m : G → α → Prop} {after : G → β → Prop} {p : Prog E R α} {f : α → Prog E R β}
    (hp : p.Meets can pre m g) (hf : ∀ g a, m g a → (f a).Meets can pre after g) :
    (p >>= f).Meets can pre after g := by
  induction p generalizing g with
  | done a => exact hf g a hp
  | effect e next ih => exact ⟨hp.1, fun r g' hr => ih r (hp.2 r g' hr)⟩

/-- A condition of the result may be weakened. -/
theorem meets_mono {m : G → α → Prop} {p : Prog E R α} (hp : p.Meets can pre m g)
    (h : ∀ g a, m g a → post g a) :
    p.Meets can pre post g := by
  induction p generalizing g with
  | done a => exact h g a hp
  | effect e next ih => exact ⟨hp.1, fun r g' hr => ih r (hp.2 r g' hr)⟩

/-- An effect, and what follows every possible answer. -/
theorem meets_perform {after : G → β → Prop} {e : E} {f : R e → Prog E R β} (h : pre g e)
    (hf : ∀ r g', can g e r g' → (f r).Meets can pre after g') :
    ((perform e : Prog E R (R e)) >>= f).Meets can pre after g := ⟨h, hf⟩

/-- Both branches meet the condition. -/
theorem meets_ite {c : Prop} [Decidable c] {p q : Prog E R α} (hp : c → p.Meets can pre post g)
    (hq : ¬ c → q.Meets can pre post g) : (if c then p else q).Meets can pre post g := by
  split_ifs with h
  · exact hp h
  · exact hq h

end

/-! ## Sessions -/

/-- A world, the program that runs on it, and what the programs gave, the last one first. -/
structure Session (W E : Type) (R : E → Type) (α : Type) where
  world : W
  running : Option (Prog E R α)
  results : List α

/-- What happens in a session. -/
inductive Event (E : Type) (C : E → Type) (I : Type)
  | start (i : I)
  /-- The environment chooses how the effect that is reached goes. -/
  | choose (f : ∀ e, C e)
  | stop

section

variable {W E : Type} {R C : E → Type} {G I α : Type} (handle : W → ∀ e, C e → W × R e)
  (program : I → Prog E R α)

/-- One event. A program starts only when no other one runs. -/
def step (s : Session W E R α) : Event E C I → Session W E R α
  | .start i =>
    match s.running with
    | none => { s with running := some (program i) }
    | some _ => s
  | .choose f =>
    match s.running with
    | some (.effect e next) =>
      ⟨(handle s.world e (f e)).1, some (next (handle s.world e (f e)).2), s.results⟩
    | some (.done a) => ⟨s.world, none, a :: s.results⟩
    | none => s
  | .stop => { s with running := none }

/-- Every choice of the event is possible. -/
def Event.Allowed (ok : ∀ e, C e → Prop) : Event E C I → Prop
  | .choose f => ∀ e, ok e (f e)
  | _ => True

variable {handle program} {can : G → ∀ e, R e → G → Prop} {pre : G → E → Prop} {post : G → α → Prop}
  {ok : ∀ e, C e → Prop}

/-- What holds first, and is kept by every effect that meets its condition and by every result,
holds after every session of programs that meet their conditions. -/
theorem session_invariant (inv : W → List α → G → Prop)
    (hhandle : ∀ w l g e c, inv w l g → pre g e → ok e c →
      ∃ g', can g e (handle w e c).2 g' ∧ inv (handle w e c).1 l g')
    (hdone : ∀ w l g a, inv w l g → post g a → inv w (a :: l) g)
    (hprogram : ∀ i g, (program i).Meets can pre post g) {w : W} {g : G} (hw : inv w [] g)
    {events : List (Event E C I)} (hevents : ∀ event ∈ events, event.Allowed ok) :
    ∃ g, inv (run (step handle program) ⟨w, none, []⟩ events).world
      (run (step handle program) ⟨w, none, []⟩ events).results g := by
  suffices h : ∀ (s : Session W E R α) (g : G), inv s.world s.results g →
      (∀ p ∈ s.running, p.Meets can pre post g) →
      ∃ g, inv (run (step handle program) s events).world
      (run (step handle program) s events).results g by
    exact h ⟨w, none, []⟩ g hw nofun
  induction events with
  | nil => exact fun s g hs _ => ⟨g, hs⟩
  | cons event rest ih =>
    intro s g hs hrunning
    have hrest := ih fun event' h => hevents event' (List.mem_cons_of_mem event h)
    have hallowed := hevents event List.mem_cons_self
    rw [run_cons]
    cases event with
    | start i =>
      unfold step
      dsimp only
      split
      · refine hrest _ g hs fun p hp => ?_
        cases hp
        exact hprogram i g
      · exact hrest s g hs hrunning
    | stop => exact hrest _ g hs nofun
    | choose f =>
      unfold step
      dsimp only
      split
      · rename_i e next heq
        obtain ⟨hpre, hnext⟩ := hrunning _ heq
        obtain ⟨g', hcan, hinv⟩ := hhandle s.world s.results g e (f e) hs hpre (hallowed e)
        refine hrest _ g' hinv fun p hp => ?_
        cases hp
        exact hnext _ g' hcan
      · rename_i a heq
        exact hrest _ g (hdone s.world s.results g a hs (hrunning _ heq)) nofun
      · exact hrest s g hs hrunning

end

/-! ## Whole programs -/

section

variable {W E : Type} {R C : E → Type} {α : Type}

/-- Run a program to its end. The environment chooses how each effect goes. -/
def exec (handle : W → ∀ e, C e → W × R e) : W → (ℕ → ∀ e, C e) → Prog E R α → W × α
  | w, _, .done a => (w, a)
  | w, choices, .effect e next =>
    exec handle (handle w e (choices 0 e)).1 (fun n => choices (n + 1))
    (next (handle w e (choices 0 e)).2)

/-- The world itself as the view of a program. -/
def Shows (handle : W → ∀ e, C e → W × R e) (w : W) (e : E) (r : R e) (w' : W) : Prop :=
  ∃ c, handle w e c = (w', r)

/-- What every effect that meets its condition keeps holds at the end, and so does the condition of
the result. -/
theorem exec_meets {handle : W → ∀ e, C e → W × R e} {inv : W → Prop} {pre : W → E → Prop}
    {post : W → α → Prop} (hinv : ∀ w e c, inv w → pre w e → inv (handle w e c).1)
      {p : Prog E R α} {w : W}
    (hp : p.Meets (Shows handle) pre post w) (hw : inv w) (choices : ℕ → ∀ e, C e) :
    inv (exec handle w choices p).1 ∧ post (exec handle w choices p).1
      (exec handle w choices p).2 := by
  induction p generalizing w choices with
  | done => exact ⟨hw, hp⟩
  | effect e next ih =>
    exact ih _ (hp.2 _ _ ⟨choices 0 e, rfl⟩) (hinv w e (choices 0 e) hw hp.1)
      fun n => choices (n + 1)

end

end DaxiangVpn.EffectPrograms
