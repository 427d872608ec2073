import Mathlib.Tactic

/-!
# Checked sequences of refusals

A transaction body is a sequence of refusals (`if bad then return err`),
lookups that may fail and loops over rows that stop at the first error. The
lemmas invert a successful run into the facts that every check established.
-/

namespace DaxiangVpn.CheckedSteps

variable {ε α β ρ σ : Type}

/-- Return the error when the condition holds. -/
def deny (bad : Bool) (e : ε) : Except ε Unit := if bad then .error e else .ok ()

/-- Use the value that was found, or return the error. -/
def demand (found : Option α) (e : ε) : Except ε α :=
  match found with
  | some a => .ok a
  | none => .error e

variable {f : α → Except ε β} {e : ε} {rows : List ρ} {found : Option α} {b : β} {bad : Bool}

/-- A sequence succeeds exactly when both of its parts do. -/
theorem bind_ok {x : Except ε α} : (x >>= f) = .ok b ↔ ∃ a, x = .ok a ∧ f a = .ok b := by
  cases x with
  | error => simp [bind, Except.bind]
  | ok => simp [bind, Except.bind]

/-- A refusal is passed exactly when its condition is false. -/
theorem deny_ok {u : Unit} : deny bad e = .ok u ↔ bad = false := by
  cases bad <;> simp [deny]

/-- A lookup is passed exactly when it finds its value. -/
theorem demand_ok {a : α} : demand found e = .ok a ↔ found = some a := by
  cases found <;> simp [demand]

/-- After a refusal that is passed, the rest decides. -/
theorem deny_bind_ok {f : Unit → Except ε β} :
    (deny bad e >>= f) = .ok b ↔ bad = false ∧ f () = .ok b := by
  cases bad <;> simp [deny, bind, Except.bind]

/-- After a lookup that is passed, the rest decides on the value found. -/
theorem demand_bind_ok :
    (demand found e >>= f) = .ok b ↔ ∃ a, found = some a ∧ f a = .ok b := by
  cases found <;> simp [demand, bind, Except.bind]

/-- What follows a passed check succeeds. -/
theorem rest_ok {x : Except ε Unit} {f : Unit → Except ε β} (h : (x >>= f) = .ok b) :
    f () = .ok b := by
  obtain ⟨⟨⟩, -, hrest⟩ := bind_ok.mp h
  exact hrest

/-- Returning a value succeeds with that value only. -/
theorem pure_ok {a b : α} : (pure a : Except ε α) = .ok b ↔ a = b := by
  simp [pure, Except.pure]

theorem bind_avoids {x : Except ε α} (hx : x ≠ .error e)
    (hf : ∀ a, x = .ok a → f a ≠ .error e) : (x >>= f) ≠ .error e := by
  cases x with
  | error => exact fun h => hx (congrArg Except.error (Except.error.inj h))
  | ok a => exact hf a rfl

/-- A refusal with another error, or one that is passed, gives way to the rest. -/
theorem deny_bind_avoids {e' : ε} {f : Unit → Except ε β}
    (hf : bad = false → f () ≠ .error e) (h : bad = true → e' ≠ e := by exact fun _ => by decide) :
    (deny bad e' >>= f) ≠ .error e := by
  cases bad with
  | true => exact fun heq => h rfl (Except.error.inj heq)
  | false => exact hf rfl

/-- A lookup with another error gives way to the rest. -/
theorem demand_bind_avoids {e' : ε} (hf : ∀ a, found = some a → f a ≠ .error e)
    (h : found = none → e' ≠ e := by exact fun _ => by decide) :
    (demand found e' >>= f) ≠ .error e := by
  cases found with
  | none => exact fun heq => h rfl (Except.error.inj heq)
  | some a => exact hf a rfl

/-- Run a check on every row, stopping at the first error. -/
def eachRow (f : ρ → Except ε Unit) : List ρ → Except ε Unit
  | [] => .ok ()
  | r :: rest => do
    f r
    eachRow f rest

/-- A loop of checks succeeds exactly when every row passes. -/
theorem eachRow_ok {f : ρ → Except ε Unit} {u : Unit} :
    eachRow f rows = .ok u ↔ ∀ r ∈ rows, f r = .ok () := by
  induction rows with
  | nil => simp [eachRow]
  | cons r rest ih =>
    rw [eachRow, bind_ok]
    simp only [ih, List.forall_mem_cons]
    constructor
    · rintro ⟨⟨⟩, hr, hrest⟩
      exact ⟨hr, hrest⟩
    · rintro ⟨hr, hrest⟩
      exact ⟨(), hr, hrest⟩

/-- Fold a fallible body over the rows, stopping at the first error. -/
def foldRows (f : σ → ρ → Except ε σ) : σ → List ρ → Except ε σ
  | acc, [] => .ok acc
  | acc, r :: rest => do
    let acc' ← f acc r
    foldRows f acc' rest

theorem foldRows_cons_ok {f : σ → ρ → Except ε σ} {acc out : σ} {r : ρ} {rest : List ρ} :
    foldRows f acc (r :: rest) = .ok out ↔ ∃ acc', f acc r = .ok acc' ∧
    foldRows f acc' rest = .ok out := by
  rw [foldRows, bind_ok]

/-- A property of accumulator and processed rows that every body keeps
holds of the result of a successful fold. -/
theorem foldRows_rule {f : σ → ρ → Except ε σ} (inv : List ρ → σ → Prop)
    (hstep : ∀ seen acc r acc', inv seen acc → f acc r = .ok acc' → inv (seen ++ [r]) acc')
    {seen : List ρ} {acc out : σ} (h0 : inv seen acc) (h : foldRows f acc rows = .ok out) :
      inv (seen ++ rows) out := by
  induction rows generalizing seen acc with
  | nil =>
    cases h
    simpa using h0
  | cons r rest ih =>
    obtain ⟨acc', hr, hrest⟩ := foldRows_cons_ok.mp h
    have hnext := ih (hstep seen acc r acc' h0 hr) hrest
    simpa using hnext

/-- Apply a fallible function to every row, stopping at the first error. -/
def mapRows (f : ρ → Except ε σ) : List ρ → Except ε (List σ)
  | [] => .ok []
  | r :: rest => do
    let b ← f r
    let bs ← mapRows f rest
    pure (b :: bs)

/-- A successful map pairs every row with its result, in order. -/
theorem mapRows_ok {f : ρ → Except ε σ} {out : List σ}
    (h : mapRows f rows = .ok out) : List.Forall₂ (fun r b => f r = .ok b) rows out := by
  induction rows generalizing out with
  | nil =>
    cases h
    exact .nil
  | cons r rest ih =>
    obtain ⟨b, hb, h⟩ := bind_ok.mp h
    obtain ⟨bs, hbs, h⟩ := bind_ok.mp h
    cases pure_ok.mp h
    exact .cons hb (ih hbs)

/-- Every row of a successful map has its result in the output. -/
theorem mapRows_mem {f : ρ → Except ε σ} {out : List σ}
    (h : mapRows f rows = .ok out) : ∀ r ∈ rows, ∃ b ∈ out, f r = .ok b := by
  have hpair := mapRows_ok h
  clear h
  induction hpair with
  | nil => simp
  | cons hb _ ih =>
    intro r hr
    rcases List.mem_cons.mp hr with rfl | hr
    · exact ⟨_, List.mem_cons_self, hb⟩
    · obtain ⟨b, hbm, hrb⟩ := ih r hr
      exact ⟨b, List.mem_cons_of_mem _ hbm, hrb⟩

theorem mapRows_fixed {f : ρ → Except ε ρ} (h : ∀ r ∈ rows, f r = .ok r) :
    mapRows f rows = .ok rows := by
  induction rows with
  | nil => rfl
  | cons r rest ih =>
    have htail := ih fun x hx => h x (List.mem_cons_of_mem _ hx)
    rw [mapRows, h r (by simp), htail]
    rfl

end DaxiangVpn.CheckedSteps
