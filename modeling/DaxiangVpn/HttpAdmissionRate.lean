import DaxiangVpn.HttpAdmission

/-!
# Rates of admitted requests

A source that is not remembered counts as one with a full bucket and no request. Evictions keep
what can be seen of each source this way, so the answers are those of buckets that are never
evicted, and each bucket was charged once for each request that it let through.
-/

namespace DaxiangVpn.HttpAdmissionRate

open TokenBucket HttpAdmission List Function Nat

/-! ## What can be seen of a source -/

def tokensAt (budget : TokenBudget) (b : Bucket ℚ) (t : ℤ) : ℚ :=
  level (budget.burst : ℚ) budget.every b t

def levelOf (a : Admission) (source : String) (t : ℤ) : ℚ :=
  match a.sources.lookup source with
  | some id => tokensAt a.config.perSource (a.buckets id).rate t
  | none => a.config.perSource.burst

def activeOf (a : Admission) (source : String) : ℤ :=
  match a.sources.lookup source with
  | some id => (a.buckets id).active
  | none => 0

/-- Tokens of all sources. -/
def globalLevel (a : Admission) (t : ℤ) : ℚ := tokensAt a.config.globalBudget a.globalTokens t

/-- Leases of a bucket that were not given back. -/
def openLeases (a : Admission) (id : ℕ) : Finset ℕ :=
  (Finset.range a.leased).filter fun k => (a.leases k).released = false ∧ (a.leases k).bucket = id

/-- What the rates need of a configuration. -/
def Usable (c : AdmissionConfig) : Prop :=
  1 ≤ c.maxConcurrentPerSource ∧ 0 < c.globalBudget.every ∧ 1 ≤ c.globalBudget.burst ∧
    0 < c.perSource.every ∧ 1 ≤ c.perSource.burst

/-- What holds in every reachable state. -/
structure Inv (a : Admission) (clock : ℤ) : Prop where
  usable : Usable a.config
  keys : (a.sources.map Prod.fst).Nodup
  apart : ∀ s s' id, a.sources.lookup s = some id → a.sources.lookup s' = some id → s = s'
  made : ∀ s id, a.sources.lookup s = some id → id < a.made
  /-- Tokens are within their bounds. -/
  sound : ∀ s id, a.sources.lookup s = some id →
    Sound (a.config.perSource.burst : ℚ) (a.buckets id).rate clock
  active : ∀ s id, a.sources.lookup s = some id → (a.buckets id).active = (openLeases a id).card
  globalSound : Sound (a.config.globalBudget.burst : ℚ) a.globalTokens clock
  held : ∀ k < a.leased, (a.leases k).released = false →
    ∃ s, a.sources.lookup s = some (a.leases k).bucket
  known : ∀ k < a.leased, (a.leases k).bucket < a.made

/-- An evicted bucket: full and without requests. -/
structure Spare (a : Admission) (id : ℕ) (now : ℤ) : Prop where
  active : (a.buckets id).active = 0
  full : (a.buckets id).rate.tokens = a.config.perSource.burst
  past : (a.buckets id).rate.last ≤ now

/-- Nothing that can be seen of any source changes. -/
structure Kept (a a' : Admission) (now : ℤ) : Prop where
  config : a'.config = a.config
  active : a'.active = a.active
  leased : a'.leased = a.leased
  leases : a'.leases = a.leases
  activeOf : ∀ s, activeOf a' s = activeOf a s
  levelOf : ∀ s t, now ≤ t → levelOf a' s t = levelOf a s t
  globalLevel : ∀ t, now ≤ t → globalLevel a' t = globalLevel a t
  inv : Inv a' now
  shrinks : ∀ s, a.sources.lookup s = none → a'.sources.lookup s = none
  /-- A source keeps its bucket or the bucket is spare. -/
  stays : ∀ s id, a.sources.lookup s = some id →
    a'.sources.lookup s = some id ∨ a'.sources.lookup s = none ∧ Spare a' id now
  frame : ∀ id < a.made, (∀ s, a.sources.lookup s ≠ some id) → a'.buckets id = a.buckets id
  made : a.made ≤ a'.made

/-- One request of a source takes one token of each bucket. Buckets below a number were made
before. -/
structure Charged (a a' : Admission) (source : String) (now : ℤ) (base : ℕ) : Prop where
  config : a'.config = a.config
  active : a'.active = a.active + 1
  leased : a'.leased = a.leased + 1
  leases : ∀ k < a.leased, a'.leases k = a.leases k
  /-- The new lease has the bucket of the source. -/
  lease : (a'.leases a.leased).released = false ∧
    a'.sources.lookup source = some (a'.leases a.leased).bucket
  activeOf : ∀ s, activeOf a' s = activeOf a s + if s = source then 1 else 0
  levelOf : ∀ s t, s ≠ source → now ≤ t → levelOf a' s t = levelOf a s t
  funds : 1 ≤ HttpAdmissionRate.levelOf a source now
  levelOf_self : ∀ t, now ≤ t → HttpAdmissionRate.levelOf a' source t =
    min (a.config.perSource.burst : ℚ)
      (HttpAdmissionRate.levelOf a source now - 1 + ((t : ℚ) - now) / a.config.perSource.every)
  globalFunds : 1 ≤ globalLevel a now
  globalLevel : ∀ t, now ≤ t → globalLevel a' t =
    min (a.config.globalBudget.burst : ℚ)
      (HttpAdmissionRate.globalLevel a now - 1 + ((t : ℚ) - now) / a.config.globalBudget.every)
  inv : Inv a' now
  shrinks : ∀ s, s ≠ source → a.sources.lookup s = none → a'.sources.lookup s = none
  /-- A source keeps its bucket or the bucket is spare. -/
  stays : ∀ s id, a.sources.lookup s = some id →
    a'.sources.lookup s = some id ∨ a'.sources.lookup s = none ∧ Spare a' id now
  /-- A bucket that is added was made just now. -/
  fresh : ∀ id, a'.sources.lookup source = some id → a.sources.lookup source = some id ∨ base ≤ id
  frame : ∀ id < base, (∀ s, a.sources.lookup s ≠ some id) → a'.buckets id = a.buckets id
  made : base ≤ a'.made

/-! ## Tables of sources -/

section

variable {l : List (String × ℕ)} {s x : String} {id : ℕ}

theorem lookup_filter (l : List (String × ℕ)) (p : String → Bool) (s : String) :
    (l.filter fun e => p e.1).lookup s = if p s then l.lookup s else none := by
  induction l with
  | nil => simp
  | cons e rest ih =>
    obtain ⟨name, id⟩ := e
    cases hp : p name with
    | false =>
      rw [filter_cons_of_neg (by simp [hp]), ih]
      by_cases hs : s = name
      · simp [hs, hp]
      · simp [lookup_cons, beq_false_of_ne hs]
    | true =>
      rw [filter_cons_of_pos (by simpa using hp), lookup_cons, lookup_cons, ih]
      by_cases hs : s = name
      · simp [hs, hp]
      · simp [beq_false_of_ne hs]

theorem lookup_remove (l : List (String × ℕ)) (x s : String) :
    (l.filter fun e => e.1 ≠ x).lookup s = if s = x then none else l.lookup s := by
  refine (lookup_filter l (fun name => decide (name ≠ x)) s).trans ?_
  by_cases hs : s = x
  · rw [if_pos hs, if_neg (by simp [hs])]
  · rw [if_neg hs, if_pos (by simp [hs])]

theorem lookup_put (l : List (String × ℕ)) (x s : String) (id : ℕ) :
    ((x, id) :: l.filter fun e => e.1 ≠ x).lookup s = if s = x then some id else l.lookup s := by
  rw [lookup_cons, lookup_remove]
  by_cases hs : s = x
  · simp [hs]
  · simp [hs, beq_false_of_ne hs]

theorem mem_keys_iff : s ∈ l.map Prod.fst ↔ l.lookup s ≠ none := by
  induction l with
  | nil => simp
  | cons e rest ih =>
    obtain ⟨name, id⟩ := e
    rw [map_cons, mem_cons, ih, lookup_cons]
    by_cases hs : s = name
    · simp [hs]
    · simp [hs, beq_false_of_ne hs]

theorem lookup_of_mem (h : (l.map Prod.fst).Nodup) (hm : (s, id) ∈ l) : l.lookup s = some id := by
  induction l with
  | nil => cases hm
  | cons e rest ih =>
    obtain ⟨name, number⟩ := e
    rw [map_cons, nodup_cons] at h
    rw [lookup_cons]
    rcases mem_cons.mp hm with heq | hrest
    · cases heq
      simp
    · have hne : s ≠ name := by
        rintro rfl
        exact h.1 (mem_map.mpr ⟨(s, id), hrest, rfl⟩)
      rw [beq_false_of_ne hne]
      exact ih h.2 hrest

theorem length_le_of_keys {l' : List (String × ℕ)} (h : (l.map Prod.fst).Nodup)
    (hsub : ∀ s, l.lookup s ≠ none → l'.lookup s ≠ none) : l.length ≤ l'.length := by
  have hsubset : l.map Prod.fst ⊆ l'.map Prod.fst :=
    fun s hs => mem_keys_iff.mpr (hsub s (mem_keys_iff.mp hs))
  have hlength := (h.subperm hsubset).length_le
  rwa [length_map, length_map] at hlength

end

/-! ## Changes that cannot be seen -/

variable {budget : TokenBudget} {s : String}

section

variable {a a' b : Admission} {clock now : ℤ} {source : String} {id : ℕ}

theorem accepted_usable {c : AdmissionConfig} (h : c.accepted = true) : Usable c := by
  unfold AdmissionConfig.accepted validRate millisecond at h
  simp only [not_or, decide_eq_true_eq, decide_eq_false_iff_not, not_not] at h
  obtain ⟨⟨-⟩, -⟩ := h
  unfold Usable
  omega

theorem activeOf_some (h : a.sources.lookup source = some id) :
    activeOf a source = (a.buckets id).active := by
  unfold activeOf
  rw [h]

theorem levelOf_some (h : a.sources.lookup source = some id) (t : ℤ) :
    levelOf a source t = tokensAt a.config.perSource (a.buckets id).rate t := by
  unfold levelOf
  rw [h]

theorem activeOf_none (h : a.sources.lookup source = none) : activeOf a source = 0 := by
  unfold activeOf
  rw [h]

theorem levelOf_none (h : a.sources.lookup source = none) (t : ℤ) :
    levelOf a source t = a.config.perSource.burst := by
  unfold levelOf
  rw [h]

theorem activeOf_congr (hl : a'.sources.lookup source = a.sources.lookup source)
    (hb : ∀ id, a.sources.lookup source = some id →
    (a'.buckets id).active = (a.buckets id).active) :
    activeOf a' source = activeOf a source := by
  cases h : a.sources.lookup source with
  | none => rw [activeOf_none (hl.trans h), activeOf_none h]
  | some id => rw [activeOf_some (hl.trans h), activeOf_some h, hb id h]

theorem levelOf_congr {t : ℤ} (hc : a'.config = a.config)
    (hl : a'.sources.lookup source = a.sources.lookup source)
    (hb : ∀ id, a.sources.lookup source = some id →
      tokensAt a.config.perSource (a'.buckets id).rate t = tokensAt a.config.perSource
        (a.buckets id).rate t) :
    levelOf a' source t = levelOf a source t := by
  cases h : a.sources.lookup source with
  | none => rw [levelOf_none (hl.trans h), levelOf_none h, hc]
  | some id => rw [levelOf_some (hl.trans h), levelOf_some h, hc, hb id h]

theorem Inv.later (h : Inv a clock) (hnow : clock ≤ now) : Inv a now := by
  have hcast : (clock : ℚ) ≤ now := by exact_mod_cast hnow
  exact ⟨h.usable, h.keys, h.apart, h.made, fun s id hs => (h.sound s id hs).later hcast, h.active,
    h.globalSound.later hcast, h.held, h.known⟩

theorem Inv.every (h : Inv a clock) :
    (0 : ℚ) < a.config.perSource.every := by exact_mod_cast h.usable.2.2.2.1

theorem Inv.globalEvery (h : Inv a clock) : (0 : ℚ) < a.config.globalBudget.every := by
  exact_mod_cast h.usable.2.1

theorem Kept.refl (h : Inv a now) : Kept a a now :=
  ⟨rfl, rfl, rfl, rfl, fun _ => rfl, fun _ _ _ => rfl, fun _ _ => rfl, h, fun _ hs => hs,
    fun _ _ hs => .inl hs, fun _ _ _ => rfl, le_rfl⟩

/-- A source that is remembered had its bucket before, unless it was added. -/
theorem lookup_before (hshrinks : a.sources.lookup s = none → b.sources.lookup s = none)
    (hstays : ∀ id, a.sources.lookup s = some id →
      b.sources.lookup s = some id ∨ b.sources.lookup s = none ∧ Spare b id now)
    (hs : b.sources.lookup s = some id) : a.sources.lookup s = some id := by
  cases hl : a.sources.lookup s with
  | none => cases hs.symm.trans (hshrinks hl)
  | some id' =>
    rcases hstays id' hl with hsame | ⟨hnone, -⟩
    · exact hsame.symm.trans hs
    · cases hs.symm.trans hnone

theorem Kept.found (h : Kept a b now) (hs : b.sources.lookup s = some id) :
    a.sources.lookup s = some id := lookup_before (h.shrinks s) (h.stays s) hs

theorem Kept.unused (h : Kept a b now) (hid : ∀ s, a.sources.lookup s ≠ some id) (s : String) :
    b.sources.lookup s ≠ some id := fun hs => hid s (h.found hs)

theorem Kept.evicted (h : Kept a b now) (ha : Inv a clock) (hs : a.sources.lookup s = some id)
    (hnone : b.sources.lookup s = none) (s' : String) : b.sources.lookup s' ≠ some id := by
  intro hs'
  cases ha.apart s s' id hs (h.found hs')
  cases hnone.symm.trans hs'

theorem Charged.found {base : ℕ} (h : Charged a b source now base) (hne : s ≠ source)
    (hs : b.sources.lookup s = some id) : a.sources.lookup s = some id :=
  lookup_before (h.shrinks s hne) (h.stays s) hs

theorem Spare.of_frame (h : Spare a id now) (hconfig : b.config = a.config)
    (hframe : b.buckets id = a.buckets id) :
    Spare b id now :=
  ⟨by rw [hframe]; exact h.active, by rw [hframe, hconfig]; exact h.full,
    by rw [hframe]; exact h.past⟩

theorem Kept.trans {c : Admission} (h : Kept a b now) (ha : Inv a clock) (h' : Kept b c now) :
    Kept a c now := by
  refine ⟨h'.config.trans h.config, h'.active.trans h.active, h'.leased.trans h.leased,
    h'.leases.trans h.leases, fun s => (h'.activeOf s).trans (h.activeOf s), fun s t ht =>
      (h'.levelOf s t ht).trans (h.levelOf s t ht),
    fun t ht => (h'.globalLevel t ht).trans (h.globalLevel t ht), h'.inv,
    fun s hs => h'.shrinks s (h.shrinks s hs), fun s id hs => ?_, fun id hid hnone => ?_,
    h.made.trans h'.made⟩
  · rcases h.stays s id hs with hsame | ⟨hnone, hspare⟩
    · exact h'.stays s id hsame
    · have hframe : c.buckets id = b.buckets id :=
        h'.frame id ((ha.made s id hs).trans_le h.made) (h.evicted ha hs hnone)
      exact .inr ⟨h'.shrinks s hnone, hspare.of_frame h'.config hframe⟩
  · rw [h'.frame id (hid.trans_le h.made) (h.unused hnone)]
    exact h.frame id hid hnone

theorem refillGlobal_kept (h : Inv a now) : Kept a (a.refillGlobal now) now := by
  refine ⟨rfl, rfl, rfl, rfl, fun _ => rfl, fun _ _ _ => rfl, fun t ht => ?_, ?_, fun _ hs => hs,
    fun _ _ hs => .inl hs, fun _ _ _ => rfl, le_rfl⟩
  · exact level_refill h.globalEvery h.globalSound (by exact_mod_cast ht)
  · exact ⟨h.usable, h.keys, h.apart, h.made, h.sound, h.active,
      (h.globalSound.refill h.globalEvery).1, h.held, h.known⟩

theorem setBucket_self (a : Admission) (id : ℕ) (f : AdmissionSource → AdmissionSource) :
    (a.setBucket id f).buckets id = f (a.buckets id) := update_self ..

theorem setBucket_of_ne (a : Admission) (f : AdmissionSource → AdmissionSource) {id other : ℕ}
    (h : other ≠ id) :
    (a.setBucket id f).buckets other = a.buckets other := update_of_ne h ..

theorem refillSource_buckets (a : Admission) (id other : ℕ) (now : ℤ) :
    ((a.refillSource id now).buckets other).active = (a.buckets other).active ∧
      (((a.refillSource id now).buckets other).rate = (a.buckets other).rate ∨
        ((a.refillSource id now).buckets other).rate = a.config.perSource.refill
          (a.buckets other).rate now) := by
  unfold Admission.refillSource
  by_cases hother : other = id
  · subst hother
    rw [setBucket_self]
    exact ⟨rfl, .inr rfl⟩
  · rw [setBucket_of_ne a _ hother]
    exact ⟨rfl, .inl rfl⟩

section

variable (h : Inv a now)
include h

theorem refillSource_kept (hs : a.sources.lookup source = some id) :
    Kept a (a.refillSource id now) now := by
  refine ⟨rfl, rfl, rfl, rfl, fun s => ?_, fun s t ht => ?_, fun _ _ => rfl, ?_, fun _ hs => hs,
    fun _ _ hs => .inl hs, fun other _ hnone => ?_, le_rfl⟩
  · exact activeOf_congr rfl fun other _ => (refillSource_buckets a id other now).1
  · refine levelOf_congr rfl rfl fun other hl => ?_
    rcases (refillSource_buckets a id other now).2 with hrate | hrate
    · rw [hrate]
    · rw [hrate]
      exact level_refill h.every (h.sound s other hl) (by exact_mod_cast ht)
  · refine ⟨h.usable, h.keys, h.apart, h.made, fun s other hl => ?_, fun s other hl => ?_,
      h.globalSound, h.held, h.known⟩
    · rcases (refillSource_buckets a id other now).2 with hrate | hrate
      · rw [hrate]
        exact h.sound s other hl
      · rw [hrate]
        exact ((h.sound s other hl).refill h.every).1
    · rw [(refillSource_buckets a id other now).1]
      exact h.active s other hl
  · refine setBucket_of_ne a _ ?_
    rintro rfl
    exact hnone source hs

theorem evict_kept (hs : a.sources.lookup source = some id) (hactive : (a.buckets id).active = 0)
    (hfull : (a.config.perSource.burst : ℚ) ≤ (a.buckets id).rate.tokens) :
    Kept a { a with sources := a.sources.filter fun x => x.1 ≠ source } now := by
  have htokens : (a.buckets id).rate.tokens = a.config.perSource.burst :=
    le_antisymm (h.sound source id hs).capped hfull
  have hself : (a.sources.filter fun x => x.1 ≠ source).lookup source = none := by
    rw [lookup_remove, if_pos rfl]
  have hother : ∀ s, s ≠ source → (a.sources.filter fun x => x.1 ≠ source).lookup s =
    a.sources.lookup s := by
    intro s hne
    rw [lookup_remove, if_neg hne]
  have hfound : ∀ s other, (a.sources.filter fun x => x.1 ≠ source).lookup s = some other →
      s ≠ source ∧ a.sources.lookup s = some other := by
    intro s other hl
    by_cases hne : s = source
    · rw [hne, hself] at hl
      cases hl
    · exact ⟨hne, (hother s hne).symm.trans hl⟩
  refine ⟨rfl, rfl, rfl, rfl, fun s => ?_, fun s t ht => ?_, fun _ _ => rfl, ?_, fun s hnone => ?_,
    fun s other hl => ?_, fun _ _ _ => rfl, le_rfl⟩
  · by_cases hsource : s = source
    · rw [hsource, activeOf_some hs, hactive]
      exact activeOf_none hself
    · exact activeOf_congr (hother s hsource) fun _ _ => rfl
  · by_cases hsource : s = source
    · have hpast : (a.buckets id).rate.last ≤ t :=
        (h.sound source id hs).past.trans (by exact_mod_cast ht)
      rw [hsource, levelOf_some hs]
      exact (levelOf_none hself t).trans (level_full h.every hpast htokens).symm
    · exact levelOf_congr rfl (hother s hsource) fun _ _ => rfl
  · refine ⟨h.usable, h.keys.sublist ((filter_sublist).map _), fun s s' other hl hl' => ?_,
      fun s other hl => h.made s other (hfound s other hl).2,
      fun s other hl => h.sound s other (hfound s other hl).2,
      fun s other hl => h.active s other (hfound s other hl).2, h.globalSound,
      fun k hk hopen => ?_, h.known⟩
    · exact h.apart s s' other (hfound s other hl).2 (hfound s' other hl').2
    · obtain ⟨s, hl⟩ := h.held k hk hopen
      refine ⟨s, ?_⟩
      have hne : s ≠ source := by
        rintro rfl
        have hbucket : (a.leases k).bucket = id := Option.some.inj (hl.symm.trans hs)
        have hmem : k ∈ openLeases a id := Finset.mem_filter.mpr
          ⟨Finset.mem_range.mpr hk, hopen, hbucket⟩
        have hcount := h.active s id hs
        rw [hactive] at hcount
        have hempty : openLeases a id = ∅ := Finset.card_eq_zero.mp (by exact_mod_cast hcount.symm)
        rw [hempty] at hmem
        exact absurd hmem (Finset.notMem_empty k)
      exact (hother s hne).trans hl
  · by_cases hsource : s = source
    · rw [hsource, hs] at hnone
      cases hnone
    · exact (hother s hsource).trans hnone
  · by_cases hsource : s = source
    · subst hsource
      cases hs.symm.trans hl
      exact .inr ⟨hself, hactive, htokens, (h.sound s id hs).past⟩
    · exact .inl ((hother s hsource).trans hl)

theorem sweepSource_kept {entry : String × ℕ} (hs : a.sources.lookup entry.1 = some entry.2) :
    Kept a (Admission.sweepSource now a entry) now ∧ ∀ s, s ≠ entry.1 →
      (Admission.sweepSource now a entry).sources.lookup s = a.sources.lookup s := by
  have hrefill := refillSource_kept h hs
  unfold Admission.sweepSource
  split
  · exact ⟨Kept.refl h, fun _ _ => rfl⟩
  rename_i hidle
  rw [not_or, not_not] at hidle
  split_ifs with hfull
  · have hactive : ((a.refillSource entry.2 now).buckets entry.2).active = 0 :=
      (refillSource_buckets a entry.2 entry.2 now).1.trans hidle.1
    refine ⟨hrefill.trans h (evict_kept hrefill.inv hs hactive hfull), fun s hne => ?_⟩
    rw [lookup_remove, if_neg hne]
  · exact ⟨hrefill, fun _ _ => rfl⟩

theorem sweepLoop_kept {entries : List (String × ℕ)} (hkeys : (entries.map Prod.fst).Nodup)
    (hs : ∀ e ∈ entries, a.sources.lookup e.1 = some e.2) :
    Kept a (entries.foldl (Admission.sweepSource now) a) now := by
  induction entries generalizing a with
  | nil => exact Kept.refl h
  | cons e rest ih =>
    rw [map_cons, nodup_cons] at hkeys
    obtain ⟨hkept, hother⟩ := sweepSource_kept h (hs e mem_cons_self)
    refine hkept.trans h (ih hkept.inv hkeys.2 fun x hx => ?_)
    rw [hother x.1 fun heq => hkeys.1 (heq ▸ mem_map_of_mem hx)]
    exact hs x (mem_cons_of_mem _ hx)

theorem sweep_kept : Kept a (a.sweep now) now := by
  unfold Admission.sweep
  split
  · exact Kept.refl h
  have hmarked : Inv { a with nextSweep := some (now + second) } now :=
    ⟨h.usable, h.keys, h.apart, h.made, h.sound, h.active, h.globalSound, h.held, h.known⟩
  have hmark : Kept a { a with nextSweep := some (now + second) } now :=
    ⟨rfl, rfl, rfl, rfl, fun _ => rfl, fun _ _ _ => rfl, fun _ _ => rfl, hmarked, fun _ hs => hs,
      fun _ _ hs => .inl hs, fun _ _ _ => rfl, le_rfl⟩
  exact hmark.trans h (sweepLoop_kept hmarked h.keys fun e he => lookup_of_mem h.keys he)

theorem make_kept : Kept a (a.make now) now := by
  have hold : ∀ s other, a.sources.lookup s = some other →
    (a.make now).buckets other = a.buckets other :=
    fun s other hl => update_of_ne (h.made s other hl).ne ..
  refine ⟨rfl, rfl, rfl, rfl, fun s => ?_, fun s t _ => ?_, fun _ _ => rfl, ?_, fun _ hs => hs,
    fun _ _ hs => .inl hs, fun other hid _ => update_of_ne hid.ne .., le_succ _⟩
  · exact activeOf_congr rfl fun other hl => by rw [hold s other hl]
  · exact levelOf_congr rfl rfl fun other hl => by rw [hold s other hl]
  refine ⟨h.usable, h.keys, h.apart, fun s other hl => (h.made s other hl).trans (lt_succ_self _),
    fun s other hl => ?_, fun s other hl => ?_, h.globalSound, h.held,
    fun k hk => (h.known k hk).trans (lt_succ_self _)⟩
  · rw [hold s other hl]
    exact h.sound s other hl
  · rw [hold s other hl]
    exact h.active s other hl

end

end

/-! ## Reservations -/

/-- A bucket that a request of the source may charge. -/
structure Ready (a : Admission) (source : String) (id : ℕ) (now : ℤ) (base : ℕ) : Prop where
  inv : Inv a now
  own : ∀ s, a.sources.lookup s = some id → s = source
  same : ∀ other, a.sources.lookup source = some other → other = id
  made : base ≤ a.made ∧ id < a.made
  origin : a.sources.lookup source = some id ∨ base ≤ id
  sound : Sound (a.config.perSource.burst : ℚ) (a.buckets id).rate now
  refilled : (a.buckets id).rate.last = now
  level : ∀ t, now ≤ t → tokensAt a.config.perSource (a.buckets id).rate t = levelOf a source t
  active : (a.buckets id).active = activeOf a source
  count : (a.buckets id).active = (openLeases a id).card
  funds : 1 ≤ (a.buckets id).rate.tokens
  globalRefilled : a.globalTokens.last = now
  globalFunds : 1 ≤ a.globalTokens.tokens

section

variable {a a' b : Admission} {clock now : ℤ} {source : String} {id base : ℕ} {ctx : Context}

theorem tokensAt_refilled {x : Bucket ℚ} (hlast : x.last = now) :
    tokensAt budget x now = x.tokens := by
  rw [tokensAt, level, refill, if_neg (by rw [hlast]; exact lt_irrefl _)]

theorem level_spend {x : Bucket ℚ} (hevery : (0 : ℚ) < budget.every)
    (hx : Sound (budget.burst : ℚ) x now) (hlast : x.last = now) (hfunds : 1 ≤ x.tokens) {t : ℤ}
    (ht : now ≤ t) :
    tokensAt budget (spend x) t = min (budget.burst : ℚ)
    (x.tokens - 1 + ((t : ℚ) - now) / budget.every) := by
  have hlevel : level (budget.burst : ℚ) budget.every x now = x.tokens := tokensAt_refilled hlast
  have hcharge : charge (budget.burst : ℚ) budget.every x now = spend x := by
    rw [charge, refill, if_neg (by rw [hlast]; exact lt_irrefl _)]
  have hcast : (now : ℚ) ≤ t := by exact_mod_cast ht
  have hafter := level_charge hevery hx (by rw [hlevel]; exact hfunds) hcast
  rw [hcharge, hlevel] at hafter
  exact hafter

theorem openLeases_reserved (a : Admission) (source : String) (id : ℕ) (now : ℤ) (other : ℕ) :
    openLeases (a.reserved source id now) other =
      if other = id then insert a.leased (openLeases a other) else openLeases a other := by
  have hold : ∀ k, k ≠ a.leased → ((a.reserved source id now).leases k = a.leases k ∧
      (k < (a.reserved source id now).leased ↔ k < a.leased)) := by
    intro k hk
    refine ⟨update_of_ne hk .., ?_⟩
    change k < a.leased + 1 ↔ k < a.leased
    omega
  have hnew : (a.reserved source id now).leases a.leased = ⟨id, false⟩ := update_self ..
  ext k
  by_cases hk : k = a.leased
  · subst hk
    have hlt : a.leased < (a.reserved source id now).leased := lt_succ_self _
    by_cases hother : other = id
    · simp [openLeases, hnew, hother, hlt]
    · have hne : id ≠ other := fun heq => hother heq.symm
      simp [openLeases, hnew, hother, hne]
  · by_cases hother : other = id
    · simp [openLeases, (hold k hk).1, (hold k hk).2, hother, hk]
    · simp [openLeases, (hold k hk).1, (hold k hk).2, hother]

theorem Ready.reserved (h : Ready a source id now base) :
    Charged a (a.reserved source id now) source now base := by
  set b := a.reserved source id now
  have hlookup : ∀ s, b.sources.lookup s =
      if s = source then some id
      else a.sources.lookup s := fun s => lookup_put a.sources source s id
  have hself : b.sources.lookup source = some id := by
    rw [hlookup, if_pos rfl]
  have hother : ∀ s, s ≠ source → b.sources.lookup s = a.sources.lookup s := by
    intro s hs
    rw [hlookup, if_neg hs]
  have hbucket : b.buckets id =
      ⟨spend (a.buckets id).rate, (a.buckets id).active + 1, max now (a.buckets id).lastSeen⟩ :=
    update_self ..
  have hframe : ∀ other, other ≠ id → b.buckets other = a.buckets other :=
    fun other hne => update_of_ne hne ..
  have hframeOf : ∀ s other, s ≠ source → a.sources.lookup s = some other →
      b.buckets other = a.buckets other := by
    intro s other hs hl
    refine hframe other fun heq => hs (h.own s ?_)
    rw [← heq]
    exact hl
  have hnew : b.leases a.leased = ⟨id, false⟩ := update_self ..
  have hlevel : tokensAt a.config.perSource (a.buckets id).rate now = _ :=
    tokensAt_refilled h.refilled
  have hglobalLevel : tokensAt a.config.globalBudget a.globalTokens now = _ :=
    tokensAt_refilled h.globalRefilled
  -- A bucket in the table is the one that is charged, or an old one of another source.
  have hfound : ∀ {s other}, b.sources.lookup s = some other →
      s = source ∧ other = id ∨ s ≠ source ∧ other ≠ id ∧ a.sources.lookup s = some other := by
    intro s other hs
    by_cases hsource : s = source
    · rw [hsource, hself] at hs
      exact .inl ⟨hsource, (Option.some.inj hs).symm⟩
    · have hs := (hother s hsource).symm.trans hs
      exact .inr ⟨hsource, fun heq => hsource (h.own s (heq ▸ hs)), hs⟩
  have hstays : ∀ s other, a.sources.lookup s = some other → b.sources.lookup s = some other := by
    intro s other hl
    by_cases hs : s = source
    · rw [hs] at hl
      rw [hs, hself, h.same other hl]
    · exact (hother s hs).trans hl
  have hlease : ∀ {k}, k < a.leased + 1 → k = a.leased ∨ k < a.leased ∧
    b.leases k = a.leases k := by
    intro k hk
    rcases Nat.lt_succ_iff_lt_or_eq.mp hk with hlt | heq
    · exact .inr ⟨hlt, update_of_ne hlt.ne ..⟩
    · exact .inl heq
  have hinv : Inv b now := by
    refine ⟨h.inv.usable, ?_, fun s s' other hs hs' => ?_, fun s other hs => ?_,
      fun s other hs => ?_, fun s other hs => ?_, h.inv.globalSound.spend h.globalFunds,
      fun k hk hopen => ?_, fun k hk => ?_⟩
    · refine nodup_cons.mpr ⟨fun hmem => ?_, h.inv.keys.sublist (filter_sublist.map _)⟩
      rw [mem_keys_iff, lookup_remove, if_pos rfl] at hmem
      exact hmem rfl
    · rcases hfound hs with ⟨rfl, rfl⟩ | ⟨-, hne, hs⟩ <;>
        rcases hfound hs' with ⟨rfl, hid⟩ | ⟨-, hne', hs'⟩
      · rfl
      · exact absurd rfl hne'
      · exact absurd hid hne
      · exact h.inv.apart s s' other hs hs'
    · rcases hfound hs with ⟨-, rfl⟩ | ⟨-, -, hs⟩
      · exact h.made.2
      · exact h.inv.made s other hs
    · rcases hfound hs with ⟨-, rfl⟩ | ⟨-, hne, hs⟩
      · rw [hbucket]
        exact h.sound.spend h.funds
      · rw [hframe other hne]
        exact h.inv.sound s other hs
    · rw [openLeases_reserved]
      rcases hfound hs with ⟨-, rfl⟩ | ⟨-, hne, hs⟩
      · have hfresh : a.leased ∉ openLeases a other := fun hmem =>
          absurd (Finset.mem_range.mp (Finset.mem_filter.mp hmem).1) (lt_irrefl _)
        rw [if_pos rfl, hbucket, Finset.card_insert_of_notMem hfresh, cast_succ]
        exact congrArg (· + 1) h.count
      · rw [if_neg hne, hframe other hne]
        exact h.inv.active s other hs
    · rcases hlease hk with rfl | ⟨hlt, hold⟩
      · rw [hnew]
        exact ⟨source, hself⟩
      · rw [hold] at hopen ⊢
        obtain ⟨s, hs⟩ := h.inv.held k hlt hopen
        exact ⟨s, hstays s _ hs⟩
    · rcases hlease hk with rfl | ⟨hlt, hold⟩
      · rw [hnew]
        exact h.made.2
      · rw [hold]
        exact h.inv.known k hlt
  refine
    { config := rfl
      active := rfl
      leased := rfl
      leases := fun k hk => update_of_ne hk.ne ..
      lease := ⟨by rw [hnew], by rw [hnew]; exact hself⟩
      activeOf := fun s => ?_
      levelOf := fun s t hs _ => levelOf_congr rfl
        (hother s hs) fun other hl => by rw [hframeOf s other hs hl]
      funds := ?_
      levelOf_self := fun t ht => ?_
      globalFunds := by rw [globalLevel, hglobalLevel]; exact h.globalFunds
      globalLevel := fun t ht => ?_
      inv := hinv
      shrinks := fun s hs hnone => (hother s hs).trans hnone
      stays := fun s other hl => .inl (hstays s other hl)
      fresh := fun other hl => ?_
      frame := fun other _ hnone => ?_
      made := h.made.1 }
  · split_ifs with hs
    · rw [hs, activeOf_some hself, hbucket, ← h.active]
    · rw [add_zero]
      exact activeOf_congr (hother s hs) fun other hl => by rw [hframeOf s other hs hl]
  · rw [← h.level now le_rfl, hlevel]
    exact h.funds
  · rw [levelOf_some hself, hbucket, ← h.level now le_rfl, hlevel]
    exact level_spend h.inv.every h.sound h.refilled h.funds ht
  · rw [globalLevel, globalLevel, hglobalLevel]
    exact level_spend h.inv.globalEvery h.inv.globalSound h.globalRefilled h.globalFunds ht
  · cases hself.symm.trans hl
    exact h.origin
  · refine hframe other ?_
    rintro rfl
    rcases h.origin with hown | hbase
    · exact hnone source hown
    · omega

/-- A change that cannot be seen, then a request. -/
theorem Kept.charged {c : Admission} (h : Kept a b now) (ha : Inv a clock)
    (h' : Charged b c source now base) (hbase : a.made ≤ base)
    (hsource : ∀ id, a.sources.lookup source = some id → b.sources.lookup source = some id) :
    Charged a c source now a.made := by
  have hconfig := h.config
  refine
    { config := h'.config.trans h.config
      active := by rw [h'.active, h.active]
      leased := by rw [h'.leased, h.leased]
      leases := fun k hk => by rw [h'.leases k (by rw [h.leased]; exact hk), h.leases]
      lease := by rw [← h.leased]; exact h'.lease
      activeOf := fun s => by rw [h'.activeOf, h.activeOf]
      levelOf := fun s t hs ht => (h'.levelOf s t hs ht).trans (h.levelOf s t ht)
      funds := by rw [← h.levelOf source now le_rfl]; exact h'.funds
      levelOf_self := fun t ht => by
        rw [h'.levelOf_self t ht, h.levelOf source now le_rfl, hconfig]
      globalFunds := by rw [← h.globalLevel now le_rfl]; exact h'.globalFunds
      globalLevel := fun t ht => by rw [h'.globalLevel t ht, h.globalLevel now le_rfl, hconfig]
      inv := h'.inv
      shrinks := fun s hs hnone => h'.shrinks s hs (h.shrinks s hnone)
      stays := fun s id hs => ?_
      fresh := fun id hid => ?_
      frame := fun id hid hnone => ?_
      made := hbase.trans h'.made }
  · rcases h.stays s id hs with hsame | ⟨hnone, hspare⟩
    · exact h'.stays s id hsame
    · have hne : s ≠ source := by
        rintro rfl
        cases hnone.symm.trans (hsource id hs)
      have hframe : c.buckets id = b.buckets id :=
        h'.frame id ((ha.made s id hs).trans_le hbase) (h.evicted ha hs hnone)
      exact .inr ⟨h'.shrinks s hne hnone, hspare.of_frame h'.config hframe⟩
  · rcases h'.fresh id hid with hold | hnew
    · cases hl : a.sources.lookup source with
      | none => cases hold.symm.trans (h.shrinks source hl)
      | some other =>
        cases (hsource other hl).symm.trans hold
        exact .inl rfl
    · exact .inr (hbase.trans hnew)
  · rw [h'.frame id (hid.trans_le hbase) (h.unused hnone)]
    exact h.frame id hid hnone

end

/-! ## Answers -/

/-- The answer to a request that does not meet the limit of sources, from what can be seen. -/
def verdict (c : AdmissionConfig) (ctx : Context) (source : String) (active sourceActive : ℤ)
    (tokens sourceTokens : ℚ) : Option AdmissionDenial :=
  if ctx.entry then some admissionCancelled
  else if canonical source = false then some badRequest
  else if ctx.locked then some admissionCancelled
  else if c.maxConcurrent ≤ active ∨ c.maxConcurrentPerSource ≤ sourceActive then some c.exhausted
  else if 0 < max (c.globalBudget.retry tokens) (c.perSource.retry sourceTokens) then
    some (rateLimited (max (c.globalBudget.retry tokens) (c.perSource.retry sourceTokens)))
  else if ctx.reserving then some admissionCancelled
  else none

def verdictOf (a : Admission) (ctx : Context) (source : String) (now : ℤ) :
    Option AdmissionDenial :=
  verdict a.config ctx source a.active (activeOf a source) (globalLevel a now)
    (levelOf a source now)

def answerOf (lease : ℕ) : Option AdmissionDenial → Answer
  | none => .granted lease
  | some d => .denied d

def meets (a : Admission) (ctx : Context) (source : String) (now : ℤ) : Bool :=
  decide ((Call.acquire ctx source now).reading = some now) &&
  decide (a.active < a.config.maxConcurrent) &&
  (a.sources.lookup source).isNone &&
  decide (¬ 0 < a.config.globalBudget.retry (globalLevel a now)) &&
  decide (a.config.maxSources ≤ a.sources.length)

/-- What a request does. -/
structure Outcome (a : Admission) (ctx : Context) (source : String) (now : ℤ)
    (r : Admission × Answer) : Prop where
  answer : meets a ctx source now = false → r.2 = answerOf a.leased (verdictOf a ctx source now)
  /-- A denial cannot be seen later; a lease is charged. -/
  effect : (∃ d, r.2 = .denied d ∧ Kept a r.1 now) ∨
    (verdictOf a ctx source now = none ∧ r.2 = .granted a.leased ∧ Charged a r.1 source now a.made)

section

variable {a a' b : Admission} {clock now : ℤ} {source : String} {id base : ℕ} {ctx : Context}

theorem retry_pos (hevery : 0 < budget.every) (tokens : ℚ) :
    0 < budget.retry tokens ↔ tokens < 1 := by
  have hcast : (0 : ℚ) < budget.every := by exact_mod_cast hevery
  unfold TokenBudget.retry
  split_ifs with hfull
  · exact ⟨fun h => absurd h (lt_irrefl _), fun h => absurd h (not_lt.mpr hfull)⟩
  · rw [not_le] at hfull
    exact ⟨fun _ => hfull, fun _ => Int.ceil_pos.mpr (mul_pos (sub_pos.mpr hfull) hcast)⟩

theorem retry_nonneg (hevery : 0 < budget.every) (tokens : ℚ) : 0 ≤ budget.retry tokens := by
  rcases lt_or_ge tokens 1 with hlow | hfull
  · exact ((retry_pos hevery tokens).mpr hlow).le
  · rw [TokenBudget.retry, if_pos hfull]

theorem reading_some : (Call.acquire ctx source now).reading = some now ↔
    ctx.entry = false ∧ canonical source = true ∧ ctx.locked = false := by
  unfold Call.reading
  dsimp only
  split_ifs with hstop
  · refine ⟨nofun, fun h => ?_⟩
    rw [h.1, h.2.1, h.2.2] at hstop
    simp at hstop
  · rw [not_or, not_or, Bool.not_eq_true, Bool.not_eq_false, Bool.not_eq_true] at hstop
    exact ⟨fun _ => hstop, fun _ => rfl⟩

theorem verdictOf_read (hread : (Call.acquire ctx source now).reading = some now) :
    verdictOf a ctx source now =
      if a.config.maxConcurrent ≤ a.active ∨ a.config.maxConcurrentPerSource ≤
          activeOf a source then
        some a.config.exhausted
      else if 0 < max (a.config.globalBudget.retry (globalLevel a now))
          (a.config.perSource.retry (levelOf a source now)) then
        some (rateLimited (max (a.config.globalBudget.retry (globalLevel a now))
          (a.config.perSource.retry (levelOf a source now))))
      else if ctx.reserving then some admissionCancelled else none := by
  obtain ⟨hentry, hcanonical, hlocked⟩ := reading_some.mp hread
  unfold verdictOf verdict
  rw [hentry, hcanonical, hlocked, if_neg Bool.false_ne_true, if_neg Bool.noConfusion,
    if_neg Bool.false_ne_true]

theorem Kept.verdictOf (h : Kept a b now) :
    verdictOf b ctx source now = verdictOf a ctx source now := by
  unfold HttpAdmissionRate.verdictOf
  rw [h.config, h.active, h.activeOf, h.globalLevel now le_rfl, h.levelOf source now le_rfl]

theorem Ready.outcome (h : Ready b source id now base) (hkept : Kept a b now) (ha : Inv a clock)
    (hbase : a.made ≤ base)
    (hsource : ∀ id, a.sources.lookup source = some id → b.sources.lookup source = some id)
    (hverdict : verdictOf a ctx source now = if ctx.reserving then some admissionCancelled
      else none) :
    Outcome a ctx source now (b.reserve ctx source id now) := by
  unfold Admission.reserve
  cases hctx : ctx.reserving with
  | true =>
    rw [hctx, if_pos rfl] at hverdict
    exact ⟨fun _ => by rw [hverdict]; rfl, .inl ⟨_, rfl, hkept⟩⟩
  | false =>
    rw [hctx, if_neg Bool.false_ne_true] at hverdict
    have hleased : Answer.granted b.leased = .granted a.leased := by rw [hkept.leased]
    refine ⟨fun _ => by rw [hverdict]; exact hleased, .inr ⟨hverdict, hleased, ?_⟩⟩
    exact hkept.charged ha h.reserved hbase hsource

theorem acquireKnown_outcome (h : Inv a now) (hs : a.sources.lookup source = some id)
    (hread : (Call.acquire ctx source now).reading = some now)
    (hroom : a.active < a.config.maxConcurrent) (hrefilled : a.globalTokens.last = now) :
    Outcome a ctx source now (a.acquireKnown ctx source id now) := by
  have hfacts := h.usable
  have hkept := refillSource_kept h hs
  have hbucket : (a.refillSource id now).buckets id =
      { a.buckets id with rate := a.config.perSource.refill (a.buckets id).rate now } :=
        setBucket_self ..
  have htokens : ((a.refillSource id now).buckets id).rate.tokens = levelOf a source now := by
    rw [hbucket, levelOf_some hs]
    rfl
  have hglobal : (a.refillSource id now).globalTokens.tokens = globalLevel a now :=
    (tokensAt_refilled hrefilled).symm
  have hverdict := verdictOf_read (a := a) hread
  rw [activeOf_some hs] at hverdict
  unfold Admission.acquireKnown
  dsimp only
  rw [htokens, hglobal]
  split
  · rename_i hbusy
    rw [if_pos (.inr hbusy)] at hverdict
    exact ⟨fun _ => by rw [hverdict]; rfl, .inl ⟨_, rfl, Kept.refl h⟩⟩
  rename_i hidle
  rw [if_neg (not_or.mpr ⟨not_le.mpr hroom, hidle⟩)] at hverdict
  split_ifs with hwait
  · rw [if_pos hwait] at hverdict
    exact ⟨fun _ => by rw [hverdict]; rfl, .inl ⟨_, rfl, hkept⟩⟩
  rw [if_neg hwait] at hverdict
  rw [lt_max_iff, not_or, retry_pos hfacts.2.1, retry_pos hfacts.2.2.2.1, not_lt, not_lt] at hwait
  have hrefill := (h.sound source id hs).refill h.every
  have hready : Ready (a.refillSource id now) source id now a.made := by
    refine ⟨hkept.inv, fun s hl => h.apart s source id hl hs, fun other hl => ?_,
      ⟨le_rfl, h.made source id hs⟩, .inl hs, hkept.inv.sound source id hs, ?_, fun t _ => ?_, ?_,
        hkept.inv.active source id hs, ?_,
      hrefilled, ?_⟩
    · exact Option.some.inj (hl.symm.trans hs)
    · rw [hbucket]
      exact hrefill.2
    · exact (levelOf_some (a := a.refillSource id now) hs t).symm
    · exact (activeOf_some (a := a.refillSource id now) hs).symm
    · rw [htokens]
      exact hwait.2
    · rw [hglobal]
      exact hwait.1
  exact hready.outcome hkept h le_rfl (fun _ hl => hl) hverdict

theorem make_ready (h : Inv a now) (hs : a.sources.lookup source = none)
    (hrefilled : a.globalTokens.last = now) (hfunds : 1 ≤ a.globalTokens.tokens) :
    Ready (a.make now) source a.made now a.made := by
  have hburst : (1 : ℚ) ≤ a.config.perSource.burst := by exact_mod_cast h.usable.2.2.2.2
  have hbucket : (a.make now).buckets a.made =
    ⟨⟨a.config.perSource.burst, now⟩, 0, now⟩ := update_self ..
  have hlookup : (a.make now).sources.lookup source = none := hs
  refine ⟨(make_kept h).inv, fun s hl => absurd (h.made s _ hl) (lt_irrefl _), fun other hl => ?_,
    ⟨le_succ _, lt_succ_self _⟩, .inr le_rfl, ?_, ?_, fun t ht => ?_, ?_, ?_, ?_, hrefilled, hfunds⟩
  · cases hlookup.symm.trans hl
  · rw [hbucket]
    exact ⟨zero_le_one.trans hburst, le_rfl, le_rfl⟩
  · rw [hbucket]
  · have hpast : (now : ℚ) ≤ t := by exact_mod_cast ht
    rw [hbucket, levelOf_none hlookup]
    exact level_full h.every hpast rfl
  · rw [hbucket, activeOf_none hlookup]
  · have hempty : openLeases (a.make now) a.made = ∅ := by
      refine Finset.filter_eq_empty_iff.mpr fun k hk hopen => ?_
      exact absurd hopen.2 (h.known k (Finset.mem_range.mp hk)).ne
    rw [hbucket, hempty]
    rfl
  · rw [hbucket]
    exact hburst

theorem sweep_globalTokens (a : Admission) (now : ℤ) :
    (a.sweep now).globalTokens = a.globalTokens := by
  have hbody : ∀ (x : Admission) (e : String × ℕ),
      (Admission.sweepSource now x e).globalTokens = x.globalTokens := by
    intro x e
    unfold Admission.sweepSource
    split
    · rfl
    · split <;> rfl
  have hloop : ∀ (entries : List (String × ℕ)) (x : Admission),
      (entries.foldl (Admission.sweepSource now) x).globalTokens = x.globalTokens := by
    intro entries
    induction entries with
    | nil => exact fun _ => rfl
    | cons e rest ih => exact fun x => (ih _).trans (hbody x e)
  unfold Admission.sweep
  split
  · rfl
  · exact hloop a.sources _

theorem acquireNew_outcome (h : Inv a now) (hs : a.sources.lookup source = none)
    (hread : (Call.acquire ctx source now).reading = some now)
    (hroom : a.active < a.config.maxConcurrent) (hrefilled : a.globalTokens.last = now) :
    Outcome a ctx source now (a.acquireNew ctx source now) := by
  have hfacts := h.usable
  have hburst : (1 : ℚ) ≤ a.config.perSource.burst := by exact_mod_cast hfacts.2.2.2.2
  have hglobal : a.globalTokens.tokens = globalLevel a now := (tokensAt_refilled hrefilled).symm
  have hsourceRetry : a.config.perSource.retry (levelOf a source now) = 0 := by
    rw [levelOf_none hs, TokenBudget.retry, if_pos hburst]
  have hverdict := verdictOf_read (a := a) hread
  rw [activeOf_none hs, hsourceRetry, max_eq_left (retry_nonneg hfacts.2.1 _),
    if_neg (not_or.mpr
      ⟨not_le.mpr hroom, not_le.mpr (lt_of_lt_of_le zero_lt_one hfacts.1)⟩)] at hverdict
  unfold Admission.acquireNew
  dsimp only
  rw [hglobal]
  split
  · rename_i hwait
    rw [if_pos hwait] at hverdict
    exact ⟨fun _ => by rw [hverdict]; rfl, .inl ⟨_, rfl, Kept.refl h⟩⟩
  rename_i hgo
  rw [if_neg hgo] at hverdict
  have hfunds : 1 ≤ globalLevel a now := not_lt.mp fun hlow => hgo
    ((retry_pos hfacts.2.1 _).mpr hlow)
  have hnone : ∀ id, a.sources.lookup source = some id → False :=
    fun id hl => by cases hs.symm.trans hl
  split
  · rename_i hfull
    have hmeets : meets a ctx source now = true := by
      simp [meets, hread, hroom, hs, not_lt.mp hgo, hfull]
    have hswept := sweep_kept h
    have hglobalTokens := sweep_globalTokens a now
    split
    · exact ⟨(fun hnot => by cases hmeets.symm.trans hnot), .inl ⟨_, rfl, hswept⟩⟩
    · have hready := make_ready hswept.inv (hswept.shrinks source hs)
        (by rw [hglobalTokens]; exact hrefilled)
        (by rw [hglobalTokens, hglobal]; exact hfunds)
      exact hready.outcome (hswept.trans h (make_kept hswept.inv)) h hswept.made
        (fun id hl => (hnone id hl).elim) hverdict
  · have hready := make_ready h hs hrefilled (by rw [hglobal]; exact hfunds)
    exact hready.outcome (make_kept h) h le_rfl (fun id hl => (hnone id hl).elim) hverdict

theorem acquire_outcome (h : Inv a clock) (hread : (Call.acquire ctx source now).reading = some now)
    (hnow : clock ≤ now) : Outcome a ctx source now (a.acquire ctx source now) := by
  obtain ⟨hentry, hcanonical, hlocked⟩ := reading_some.mp hread
  have ha := h.later hnow
  have hkept := refillGlobal_kept ha
  have hrefilled : (a.refillGlobal now).globalTokens.last = now := (ha.globalSound.refill ha.globalEvery).2
  have hmeets : meets (a.refillGlobal now) ctx source now = meets a ctx source now := by
    unfold meets
    rw [hkept.globalLevel now le_rfl]
    rfl
  have htransfer : ∀ r, Outcome (a.refillGlobal now) ctx source now r → Outcome a ctx source now r := by
    intro r hr
    refine ⟨fun hnot => ?_, ?_⟩
    · rw [hr.answer (hmeets.trans hnot), hkept.verdictOf]
      rfl
    · rcases hr.effect with ⟨d, hd, hk⟩ | ⟨hverdict, hgranted, hcharged⟩
      · exact .inl ⟨d, hd, hkept.trans ha hk⟩
      · exact .inr ⟨hkept.verdictOf.symm.trans hverdict, hgranted,
          hkept.charged ha hcharged le_rfl fun _ hl => hl⟩
  unfold Admission.acquire
  rw [hentry, hcanonical, hlocked, if_neg Bool.false_ne_true, if_neg Bool.noConfusion, if_neg Bool.false_ne_true]
  dsimp only
  split_ifs with hbusy
  · have hverdict := verdictOf_read (a := a.refillGlobal now) hread
    rw [if_pos (.inl hbusy)] at hverdict
    refine htransfer _ ⟨fun _ => ?_, .inl ⟨_, rfl, Kept.refl hkept.inv⟩⟩
    rw [hverdict]
    rfl
  · cases hl : (a.refillGlobal now).sources.lookup source with
    | some => exact htransfer _ (acquireKnown_outcome hkept.inv hl hread (not_le.mp hbusy) hrefilled)
    | none => exact htransfer _ (acquireNew_outcome hkept.inv hl hread (not_le.mp hbusy) hrefilled)

/-- A request that does not read the clock changes nothing. -/
theorem acquire_unread (hread : (Call.acquire ctx source now).reading = none) :
    (a.acquire ctx source now).1 = a ∧ ∃ d, ∀ b :
    Admission, (b.acquire ctx source now).2 = .denied d := by
  have hstop : ctx.entry = true ∨ canonical source = false ∨ ctx.locked = true := by
    by_contra hgo
    rw [not_or, not_or, Bool.not_eq_true, Bool.not_eq_false, Bool.not_eq_true] at hgo
    cases (reading_some.mpr hgo).symm.trans hread
  unfold Admission.acquire
  cases hentry : ctx.entry with
  | true => exact ⟨rfl, _, fun _ => rfl⟩
  | false =>
    cases hcanonical : canonical source with
    | false => exact ⟨rfl, _, fun _ => rfl⟩
    | true =>
      have hlocked : ctx.locked = true := by
        rcases hstop with h | h | h
        · cases hentry.symm.trans h
        · cases hcanonical.symm.trans h
        · exact h
      rw [hlocked]
      exact ⟨rfl, _, fun _ => rfl⟩

theorem reading_eq {t : ℤ} (h : (Call.acquire ctx source now).reading = some t) : t = now := by
  unfold Call.reading at h
  dsimp only at h
  split at h
  · cases h
  · exact (Option.some.inj h).symm

end

end DaxiangVpn.HttpAdmissionRate
