import Mathlib.Tactic

/-!
# Programs whose calls may fail or crash

A program works on a state through calls of its environment. A script says
what befalls each call in turn: it works, it fails, or the process crashes in it,
and a failed or crashed call may have taken effect or not. Past the end of the
script every call works. The rules speak about all scripts of allowed verdicts.
-/

namespace DaxiangVpn.FaultyProgram

/-- What befalls one call. -/
inductive Verdict
  /-- The call takes effect and returns. -/
  | works
  /-- The call returns an error, having taken effect or not. -/
  | fails (done : Bool)
  /-- The process ends in the call, which has taken effect or not. -/
  | crashes (done : Bool)

/-- How a program ends. -/
inductive Outcome (ε α : Type)
  | ok (value : α)
  | error (err : ε)
  /-- It does not return. -/
  | crashed

/-- What a program leaves behind. -/
structure Ended (σ ε α : Type) where
  /-- How it ended. -/
  outcome : Outcome ε α
  /-- The verdicts it did not use. -/
  script : List Verdict
  state : σ

def Program (σ ε α : Type) : Type := List Verdict → σ → Ended σ ε α

variable {σ ε α β ρ : Type}

namespace Program

/-- Return a value. -/
def ret (a : α) : Program σ ε α := fun script s => ⟨.ok a, script, s⟩

def throw (e : ε) : Program σ ε α := fun script s => ⟨.error e, script, s⟩

/-- The second program after the first, unless that one failed. -/
def andThen (m : Program σ ε α) (f : α → Program σ ε β) : Program σ ε β := fun script s =>
  match m script s with
  | ⟨.ok a, rest, t⟩ => f a rest t
  | ⟨.error e, rest, t⟩ => ⟨.error e, rest, t⟩
  | ⟨.crashed, rest, t⟩ => ⟨.crashed, rest, t⟩

instance : Monad (Program σ ε) where
  pure := ret
  bind := andThen

def call (effect : σ → σ) (value : σ → α) (e : ε) : Program σ ε α
  | [], s => ⟨.ok (value s), [], effect s⟩
  | .works :: rest, s => ⟨.ok (value s), rest, effect s⟩
  | .fails done :: rest, s => ⟨.error e, rest, if done then effect s else s⟩
  | .crashes done :: rest, s => ⟨.crashed, rest, if done then effect s else s⟩

/-- Change local variables. -/
def modify (f : σ → σ) : Program σ ε Unit := fun script s => ⟨.ok (), script, f s⟩

/-- Return the error when the condition holds. -/
def deny (bad : Bool) (e : ε) : Program σ ε Unit := if bad then throw e else ret ()

/-- Use a checked value. -/
def check : Except ε α → Program σ ε α
  | .ok a => ret a
  | .error e => throw e

/-- Run a program and drop its error. -/
def attempt (m : Program σ ε α) : Program σ ε Unit := fun script s =>
  match m script s with
  | ⟨.ok _, rest, t⟩ => ⟨.ok (), rest, t⟩
  | ⟨.error _, rest, t⟩ => ⟨.ok (), rest, t⟩
  | ⟨.crashed, rest, t⟩ => ⟨.crashed, rest, t⟩

/-- Run a program for every row. -/
def forEach (f : ρ → Program σ ε Unit) : List ρ → Program σ ε Unit
  | [] => ret ()
  | r :: rest => do
    f r
    forEach f rest

end Program

open Program

/-- The value satisfies the first predicate, or there is none and the second holds. -/
def Outcome.Holds (value : α → Prop) (failed : Prop) : Outcome ε α → Prop
  | .ok a => value a
  | .error _ => failed
  | .crashed => failed

/-- From states with `P`, over scripts of allowed verdicts, the program returns a
value and a state with `Q`, or it ends in a state with `E`. -/
def Ensures (allowed : Verdict → Prop) (P : σ → Prop) (m : Program σ ε α) (Q : α → σ → Prop)
    (E : σ → Prop) : Prop :=
  ∀ script s, (∀ v ∈ script, allowed v) → P s →
    (∀ v ∈ (m script s).script, allowed v) ∧
      (m script s).outcome.Holds (fun a => Q a (m script s).state) (E (m script s).state)

def Faulty (allowed : Verdict → Prop) : Prop := ∃ v, allowed v ∧ v ≠ .works

variable {e : ε}

section

variable {allowed : Verdict → Prop} {P P' : σ → Prop} {m : Program σ ε α} {Q Q' : α → σ → Prop}
  {E E' : σ → Prop}

/-- Returning a value changes nothing. -/
theorem ensures_ret {a : α} (h : ∀ s, P s → Q a s) :
    Ensures allowed P (ret a : Program σ ε α) Q E :=
  fun _ s hscript hs => ⟨hscript, h s hs⟩

/-- Returning an error changes nothing. -/
theorem ensures_throw (h : ∀ s, P s → E s) : Ensures allowed P (throw e : Program σ ε α) Q E :=
  fun _ s hscript hs => ⟨hscript, h s hs⟩

/-- The postcondition of the first program is the precondition of the second. -/
theorem ensures_bind {f : α → Program σ ε β} {R : β → σ → Prop} (hm : Ensures allowed P m Q E)
    (hf : ∀ a, Ensures allowed (Q a) (f a) R E) : Ensures allowed P (m >>= f) R E := by
  intro script s hscript hs
  obtain ⟨hrest, hpost⟩ := hm script s hscript hs
  have hbind : (m >>= f) script s = andThen m f script s := rfl
  rw [hbind, andThen]
  cases hrun : m script s with
  | mk outcome rest t =>
    rw [hrun] at hrest hpost
    cases outcome with
    | ok a => exact hf a rest t hrest hpost
    | error => exact ⟨hrest, hpost⟩
    | crashed => exact ⟨hrest, hpost⟩

/-- The postconditions may be weakened, the precondition strengthened. -/
theorem Ensures.weaken (h : Ensures allowed P m Q E) (hpost : ∀ a s, Q a s → Q' a s)
    (hend : ∀ s, E s → E' s := by exact fun _ h => h)
    (hpre : ∀ s, P' s → P s := by exact fun _ h => h) : Ensures allowed P' m Q' E' := by
  intro script s hscript hs
  obtain ⟨hrest, hholds⟩ := h script s hscript (hpre s hs)
  refine ⟨hrest, ?_⟩
  cases hout : (m script s).outcome with
  | ok a =>
    rw [hout] at hholds
    exact hpost a _ hholds
  | error | crashed =>
    rw [hout] at hholds
    exact hend _ hholds

/-- A part of the precondition that does not depend on the state. -/
theorem ensures_of_fact {fact : Prop} (h : fact → Ensures allowed P m Q E) :
    Ensures allowed (fun s => fact ∧ P s) m Q E :=
  fun script s hscript hs => h hs.1 script s hscript hs.2

/-- A call that works takes effect; a fault leaves either state. -/
theorem ensures_call {effect : σ → σ} {value : σ → α} (hok : ∀ s, P s → Q (value s) (effect s))
    (hfault : Faulty allowed → ∀ s, P s → E s ∧ E (effect s)) :
    Ensures allowed P (call effect value e) Q E := by
  intro script s hscript hs
  have hleft : ∀ done : Bool, Faulty allowed → E (if done then effect s else s) := by
    intro done hfaulty
    cases done with
    | true => exact (hfault hfaulty s hs).2
    | false => exact (hfault hfaulty s hs).1
  cases script with
  | nil => exact ⟨hscript, hok s hs⟩
  | cons v rest =>
    have hrest : ∀ v ∈ rest, allowed v := fun v hv => hscript v (List.mem_cons_of_mem _ hv)
    have hv : allowed v := hscript v List.mem_cons_self
    cases v with
    | works => exact ⟨hrest, hok s hs⟩
    | fails done | crashes done => exact ⟨hrest, hleft done ⟨_, hv, by simp⟩⟩

variable {R : Unit → σ → Prop} {script : List Verdict}

/-- Local variables change as written. -/
theorem ensures_modify {f : σ → σ} (h : ∀ s, P s → R () (f s)) :
    Ensures allowed P (modify f : Program σ ε Unit) R E :=
  fun _ s hscript hs => ⟨hscript, h s hs⟩

/-- A refusal ends the program or the condition is false. -/
theorem ensures_deny {bad : Bool} (hbad : bad = true → ∀ s, P s → E s)
    (hgood : bad = false → ∀ s, P s → R () s) :
    Ensures allowed P (deny bad e : Program σ ε Unit) R E := by
  cases bad with
  | true => exact ensures_throw (hbad rfl)
  | false => exact ensures_ret (hgood rfl)

/-- A checked value is used or its error ends the program. -/
theorem ensures_check {x : Except ε α} (hok : ∀ a, x = .ok a → ∀ s, P s → Q a s)
    (herr : ∀ e, x = .error e → ∀ s, P s → E s) : Ensures allowed P (check x) Q E := by
  cases x with
  | ok a => exact ensures_ret (hok a rfl)
  | error e => exact ensures_throw (herr e rfl)

/-- What follows a refusal knows that its condition is false. -/
theorem ensures_deny_bind {bad : Bool} {f : Unit → Program σ ε α}
    (hbad : bad = true → ∀ s, P s → E s) (hgood : bad = false → Ensures allowed P (f ()) Q E) :
    Ensures allowed P (deny bad e >>= f) Q E :=
  ensures_bind (ensures_deny hbad fun hfalse _ hs => (⟨hfalse, hs⟩ : bad = false ∧ P _)) fun _ =>
    ensures_of_fact hgood

/-- What follows a check knows the value. -/
theorem ensures_check_bind {x : Except ε β} {f : β → Program σ ε α}
    (hok : ∀ b, x = .ok b → Ensures allowed P (f b) Q E)
    (herr : ∀ e, x = .error e → ∀ s, P s → E s) : Ensures allowed P (check x >>= f) Q E :=
  ensures_bind (ensures_check (fun b hb _ hs => (⟨hb, hs⟩ : x = .ok b ∧ P _)) herr) fun b =>
    ensures_of_fact (hok b)

/-- After a dropped error both postconditions are possible. -/
theorem ensures_attempt (h : Ensures allowed P m Q E) (hok : ∀ a s, Q a s → R () s)
    (hend : ∀ s, E s → R () s) :
    Ensures allowed P (attempt m) R E := by
  intro script s hscript hs
  obtain ⟨hrest, hpost⟩ := h script s hscript hs
  rw [attempt]
  cases hrun : m script s with
  | mk outcome rest t =>
    rw [hrun] at hrest hpost
    cases outcome with
    | ok a => exact ⟨hrest, hok a t hpost⟩
    | error => exact ⟨hrest, hend t hpost⟩
    | crashed => exact ⟨hrest, hpost⟩

/-- A loop keeps a condition on the rows it has done. -/
theorem ensures_forEach {f : ρ → Program σ ε Unit} {rows : List ρ} {I : List ρ → σ → Prop}
    (hstep : ∀ done r rest, rows = done ++ r :: rest →
      Ensures allowed (I done) (f r) (fun _ => I (done ++ [r])) E) :
    Ensures allowed (I []) (forEach f rows) (fun _ => I rows) E := by
  suffices hall : ∀ done rest, rows = done ++ rest →
      Ensures allowed (I done) (forEach f rest) (fun _ => I rows) E from hall [] rows rfl
  intro done rest
  induction rest generalizing done with
  | nil =>
    intro hrows
    rw [List.append_nil] at hrows
    exact ensures_ret fun s hs => hrows ▸ hs
  | cons r rest ih =>
    intro hrows
    exact ensures_bind (hstep done r rest hrows) fun _ => ih (done ++ [r]) (by simpa using hrows)

/-- A condition that holds however the program ends. -/
theorem Ensures.always {R : σ → Prop} (h : Ensures allowed P m Q E) (hok : ∀ a s, Q a s → R s)
    (hend : ∀ s, E s → R s) (hscript : ∀ v ∈ script, allowed v) {s : σ} (hs : P s) :
    R (m script s).state := by
  have hholds := (h script s hscript hs).2
  cases hout : (m script s).outcome with
  | ok a =>
    rw [hout] at hholds
    exact hok a _ hholds
  | error | crashed =>
    rw [hout] at hholds
    exact hend _ hholds

theorem Ensures.returned (h : Ensures allowed P m Q E) (hscript : ∀ v ∈ script, allowed v) {s : σ}
    (hs : P s) {a : α} (hok : (m script s).outcome = .ok a) : Q a (m script s).state := by
  have hholds := (h script s hscript hs).2
  rw [hok] at hholds
  exact hholds

end

end DaxiangVpn.FaultyProgram
