import DaxiangVpn.HttpAdmissionRate

/-!
# Admission over runs of calls

The times of granted leases are charges of a bucket that is never evicted, so every window of time
has few of them. A run after an eviction and the run with the evicted bucket kept show the same.
-/

namespace DaxiangVpn.HttpAdmissionRuns

open TokenBucket HttpAdmission HttpAdmissionRate List Function Option Finset

/-! ## Releases -/

section

variable {a : Admission} {clock : ℤ} {k : ℕ}

theorem openLeases_release (hk : k < a.leased) (hopen : (a.leases k).released = false) (id : ℕ) :
    openLeases (a.release k) id =
      if id = (a.leases k).bucket then (openLeases a id).erase k else openLeases a id := by
  unfold Admission.release
  rw [if_pos ⟨hk, hopen⟩]
  ext j
  by_cases hj : j = k
  · subst hj
    by_cases hid : id = (a.leases j).bucket
    · simp [openLeases, hid]
    · have hne : (a.leases j).bucket ≠ id := fun heq => hid heq.symm
      simp [openLeases, hid, hne]
  · by_cases hid : id = (a.leases k).bucket
    · simp [openLeases, hid, hj, Admission.setBucket]
    · simp [openLeases, hid, hj, Admission.setBucket]

/-- What the release of an open lease does. -/
structure Freed (a a' : Admission) (k : ℕ) (clock : ℤ) : Prop where
  inv : Inv a' clock
  config : a'.config = a.config
  sources : a'.sources = a.sources
  active : a'.active = a.active - 1
  activeOf : ∀ s, activeOf a' s = activeOf a s - if a.sources.lookup s =
    some (a.leases k).bucket then 1 else 0
  levelOf : ∀ s t, levelOf a' s t = levelOf a s t
  globalLevel : ∀ t, globalLevel a' t = globalLevel a t
  leases : a'.leases = update a.leases k { a.leases k with released := true }
  leased : a'.leased = a.leased

theorem release_freed (h : Inv a clock) (hk : k < a.leased)
    (hopen : (a.leases k).released = false) :
    Freed a (a.release k) k clock := by
  have hopenLeases := openLeases_release hk hopen
  have hstep : a.release k =
    { a.setBucket (a.leases k).bucket fun x => { x with active := x.active - 1 } with
      active := a.active - 1
      leases := update a.leases k { a.leases k with released := true } } := if_pos ⟨hk, hopen⟩
  have hbuckets : ∀ id, ((a.release k).buckets id).rate = (a.buckets id).rate ∧
    ((a.release k).buckets id).active =
      (a.buckets id).active - if id = (a.leases k).bucket then 1 else 0 := by
    intro id
    rw [hstep]
    split_ifs with hid
    · rw [hid, setBucket_self]
      exact ⟨rfl, rfl⟩
    · rw [sub_zero, setBucket_of_ne a _ hid]
      exact ⟨rfl, rfl⟩
  have hleases : ∀ j, ((a.release k).leases j).bucket = (a.leases j).bucket ∧
      (((a.release k).leases j).released = false → (a.leases j).released = false) := by
    intro j
    rw [hstep]
    dsimp only
    by_cases hj : j = k
    · rw [hj, update_self]
      exact ⟨rfl, fun _ => hopen⟩
    · rw [update_of_ne hj]
      exact ⟨rfl, id⟩
  rw [hstep] at hopenLeases hbuckets hleases ⊢
  refine ⟨⟨h.usable, h.keys, h.apart, h.made, fun s id hl => ?_, fun s id hl => ?_, h.globalSound,
    fun j hj hfree => ?_, fun j hj => ?_⟩, rfl, rfl, rfl, fun s => ?_, fun s t => ?_,
    fun t => rfl, rfl, rfl⟩
  · rw [(hbuckets id).1]
    exact h.sound s id hl
  · rw [(hbuckets id).2, hopenLeases, h.active s id hl]
    by_cases hid : id = (a.leases k).bucket
    · have hmem : k ∈ openLeases a id :=
        Finset.mem_filter.mpr ⟨Finset.mem_range.mpr hk, hopen, hid.symm⟩
      have hpos : 0 < (openLeases a id).card := card_pos.mpr ⟨k, hmem⟩
      rw [if_pos hid, if_pos hid, card_erase_of_mem hmem]
      omega
    · rw [if_neg hid, if_neg hid, sub_zero]
  · rw [(hleases j).1]
    exact h.held j hj ((hleases j).2 hfree)
  · rw [(hleases j).1]
    exact h.known j hj
  · unfold activeOf
    dsimp only [Admission.setBucket]
    cases hl : a.sources.lookup s with
    | none => simp
    | some id =>
      simp only [Option.some.injEq]
      exact (hbuckets id).2
  · exact levelOf_congr rfl rfl fun id _ => by rw [(hbuckets id).1]

theorem release_closed (h : ¬ (k < a.leased ∧ (a.leases k).released = false)) :
    a.release k = a := if_neg h

end

/-! ## Ledgers -/

/-- A bucket that is never evicted and was charged at some times has a level. -/
structure Booked (budget : TokenBudget) (start : ℤ) (times : List ℚ) (tokens : ℤ → ℚ)
    (clock : ℤ) : Prop where
  funded : Funded (budget.burst : ℚ) budget.every ⟨budget.burst, start⟩ times
  past : (charges (budget.burst : ℚ) budget.every ⟨budget.burst, start⟩ times).last ≤ clock
  level : ∀ t, clock ≤ t →
    tokens t = tokensAt budget (charges (budget.burst : ℚ) budget.every ⟨budget.burst, start⟩ times)
      t

def times (source : String) (log : List (String × ℤ)) : List ℚ :=
  (log.filter fun g => g.1 = source).map fun g => (g.2 : ℚ)

/-- The buckets of a state are those of the leases that were granted. -/
structure Ledger (a : Admission) (start clock : ℤ) (log : List (String × ℤ)) : Prop where
  inv : Inv a clock
  source : ∀ s, Booked a.config.perSource start (times s log) (levelOf a s) clock
  total : Booked a.config.globalBudget start (log.map fun g => (g.2 : ℚ)) (globalLevel a) clock

def clockAfter (clock : ℤ) (calls : List Call) : ℤ :=
  calls.foldl (fun t c => c.reading.getD t) clock

variable {calls : List Call} {s : String} {a' : Admission}

section

variable {budget : TokenBudget} {start clock now : ℤ} {ts : List ℚ}
  {tokens tokens' : ℤ → ℚ} {a : Admission}
  {log : List (String × ℤ)}

theorem Booked.keep (h : Booked budget start ts tokens clock) (hnow : clock ≤ now)
    (hsame : ∀ t, now ≤ t → tokens' t = tokens t) : Booked budget start ts tokens' now := by
  have hcast : (clock : ℚ) ≤ now := by exact_mod_cast hnow
  exact ⟨h.funded, h.past.trans hcast, fun t ht => (hsame t ht).trans (h.level t (hnow.trans ht))⟩

theorem full_sound (hburst : 1 ≤ budget.burst) :
    Sound (budget.burst : ℚ) (⟨budget.burst, start⟩ : Bucket ℚ) start := by
  have hcast : (0 : ℚ) ≤ budget.burst := by exact_mod_cast (zero_le_one.trans hburst)
  exact ⟨hcast, le_rfl, le_rfl⟩

theorem Booked.charge (h : Booked budget start ts tokens clock) (hevery : 0 < budget.every)
    (hburst : 1 ≤ budget.burst) (hnow : clock ≤ now) (hfunds : 1 ≤ tokens now)
    (hcharged : ∀ t, now ≤ t → tokens' t = min (budget.burst : ℚ)
    (tokens now - 1 + ((t : ℚ) - now) / budget.every)) :
    Booked budget start (ts ++ [(now : ℚ)]) tokens' now := by
  have heveryCast : (0 : ℚ) < budget.every := by exact_mod_cast hevery
  have hcast : (clock : ℚ) ≤ now := by exact_mod_cast hnow
  have hlevel := h.level now hnow
  rw [hlevel] at hfunds
  have hsound := (h.funded.sound heveryCast (full_sound hburst)).later (h.past.trans hcast)
  have hafter := hsound.charge heveryCast hfunds
  refine ⟨h.funded.append (h.past.trans hcast) hfunds, ?_, fun t ht => ?_⟩
  · rw [charges_append]
    exact hafter.2.le
  · have htcast : (now : ℚ) ≤ t := by exact_mod_cast ht
    rw [charges_append, hcharged t ht, hlevel]
    exact (level_charge heveryCast hsound hfunds htcast).symm

theorem times_append (s source : String) (log : List (String × ℤ)) (now : ℤ) :
    times s (log ++ [(source, now)]) = if s = source then times s log ++ [(now : ℚ)]
      else times s log := by
  unfold times
  rw [filter_append, map_append]
  by_cases hs : s = source
  · subst hs
    simp
  · have hne : source ≠ s := fun heq => hs heq.symm
    simp [hs, hne]

theorem step_ledger (h : Ledger a start clock log) (c : Call)
    (hclock : ∀ now, c.reading = some now → clock ≤ now) :
    Ledger (step a c).1 start (c.reading.getD clock) (log ++ (grantOf a c).toList) := by
  cases c with
  | release k =>
    rw [grantOf, toList_none, append_nil]
    by_cases hopen : k < a.leased ∧ (a.leases k).released = false
    · have hfreed := release_freed h.inv hopen.1 hopen.2
      refine ⟨hfreed.inv, fun s => ?_, ?_⟩
      · rw [show (step a (.release k)).1.config = a.config from hfreed.config]
        exact (h.source s).keep le_rfl fun t _ => hfreed.levelOf s t
      · rw [show (step a (.release k)).1.config = a.config from hfreed.config]
        exact h.total.keep le_rfl fun t _ => hfreed.globalLevel t
    · have hsame : (step a (.release k)).1 = a := release_closed hopen
      rw [hsame]
      exact h
  | acquire ctx source now =>
    cases hread : (Call.acquire ctx source now).reading with
    | none =>
      obtain ⟨hsame, d, hd⟩ := acquire_unread (a := a) hread
      rw [step, grantOf, hsame, hd a]
      rw [toList_none, append_nil]
      exact h
    | some t =>
      cases reading_eq hread
      have hnow := hclock now hread
      have hout := acquire_outcome h.inv hread hnow
      rcases hout.effect with ⟨d, hd, hkept⟩ | ⟨-, hgranted, hcharged⟩
      · rw [step, grantOf, hd]
        rw [toList_none, append_nil]
        refine ⟨hkept.inv, fun s => ?_, ?_⟩
        · rw [hkept.config]
          exact (h.source s).keep hnow (hkept.levelOf s)
        · rw [hkept.config]
          exact h.total.keep hnow hkept.globalLevel
      · rw [step, grantOf, hgranted]
        rw [toList_some]
        refine ⟨hcharged.inv, fun s => ?_, ?_⟩
        · rw [hcharged.config, times_append]
          by_cases hs : s = source
          · subst hs
            rw [if_pos rfl]
            exact (h.source s).charge h.inv.usable.2.2.2.1 h.inv.usable.2.2.2.2 hnow hcharged.funds
              hcharged.levelOf_self
          · rw [if_neg hs]
            exact (h.source s).keep hnow fun t ht => hcharged.levelOf s t hs ht
        · rw [hcharged.config, map_append]
          exact h.total.charge h.inv.usable.2.1 h.inv.usable.2.2.1 hnow hcharged.globalFunds
            hcharged.globalLevel

theorem steady_append (first second : List Call) :
    Steady clock (first ++ second) ↔ Steady clock first ∧
    Steady (clockAfter clock first) second := by
  induction first generalizing clock with
  | nil => exact ⟨fun h => ⟨trivial, h⟩, fun h => h.2⟩
  | cons c rest ih =>
    have hrest : Steady (c.reading.getD clock) (rest ++ second) ↔ _ := ih
    exact ⟨fun h => ⟨⟨h.1, (hrest.mp h.2).1⟩, (hrest.mp h.2).2⟩,
      fun h => ⟨h.1.1, hrest.mpr ⟨h.1.2, h.2⟩⟩⟩

theorem run_ledger (h : Ledger a start clock log) (hclock : Steady clock calls) :
    Ledger (after a calls) start (clockAfter clock calls) (log ++ grants a calls) := by
  induction calls generalizing a clock log with
  | nil =>
    rw [grants, append_nil]
    exact h
  | cons c rest ih =>
    have hstep := step_ledger h c hclock.1
    rw [grants, ← append_assoc]
    exact ih hstep hclock.2

theorem new_ledger {config : AdmissionConfig} (h : newAdmission config start = some a) :
    Ledger a start start [] ∧ a.config = config := by
  unfold newAdmission at h
  split at h
  · rename_i haccepted
    have husable := accepted_usable haccepted
    cases h
    have hfound : ∀ (s : String) (id : ℕ), ([] : List (String × ℕ)).lookup s ≠ some id := nofun
    refine ⟨⟨⟨husable, nodup_nil, fun s _ id hl => absurd hl (hfound s id),
      fun s id hl => absurd hl (hfound s id), fun s id hl => absurd hl (hfound s id), fun s id hl =>
        absurd hl (hfound s id), full_sound husable.2.2.1,
      fun k hk => absurd hk (Nat.not_lt_zero k), fun k hk => absurd hk (Nat.not_lt_zero k)⟩,
      fun s => ⟨trivial, le_rfl, fun t ht => ?_⟩, ⟨trivial, le_rfl, fun t _ => rfl⟩⟩, rfl⟩
    have hevery : (0 : ℚ) < config.perSource.every := by exact_mod_cast husable.2.2.2.1
    have hpast : (start : ℚ) ≤ t := by exact_mod_cast ht
    have hfull : tokensAt config.perSource ⟨config.perSource.burst, start⟩ t =
      config.perSource.burst :=
      level_full hevery hpast rfl
    exact hfull.symm
  · cases h

theorem Booked.window (h : Booked budget start ts tokens clock) (hevery : 0 < budget.every)
    (hburst : 1 ≤ budget.burst) (first : ℚ) {length : ℚ} (hlength : 0 ≤ length) :
    ((ts.countP fun t => decide (first ≤ t ∧ t ≤ first + length)) : ℚ) ≤ budget.burst +
      length / budget.every :=
  h.funded.window (by exact_mod_cast hevery) (full_sound hburst) first hlength

end

/-! ## Runs that show the same -/

/-- Two states that show the same of each source. The second remembers more sources. -/
structure Same (a b : Admission) (clock : ℤ) : Prop where
  left : Inv a clock
  right : Inv b clock
  config : b.config = { a.config with maxSources := b.config.maxSources }
  active : b.active = a.active
  leased : b.leased = a.leased
  released : ∀ k < a.leased, (b.leases k).released = (a.leases k).released
  activeOf : ∀ s, activeOf b s = activeOf a s
  levelOf : ∀ s t, clock ≤ t → levelOf b s t = levelOf a s t
  globalLevel : ∀ t, clock ≤ t → globalLevel b t = globalLevel a t
  /-- Open leases are of the same source. -/
  handles : ∀ k < a.leased, (a.leases k).released = false → ∃ s,
    a.sources.lookup s = some (a.leases k).bucket ∧ b.sources.lookup s = some (b.leases k).bucket

def NeverMeets (a : Admission) : List Call → Prop
  | [] => True
  | c :: rest => (∀ ctx source now, c = .acquire ctx source now → meets a ctx source now = false) ∧
      NeverMeets (step a c).1 rest

section

variable {a b e : Admission} {clock now : ℤ} {ctx : Context} {source : String}

theorem activeOf_pos (ha : Inv a clock) {k : ℕ} (hk : k < a.leased)
    (hopen : (a.leases k).released = false) (hs : a.sources.lookup s = some (a.leases k).bucket) :
    0 < activeOf a s := by
  have hmem : k ∈ openLeases a (a.leases k).bucket :=
    Finset.mem_filter.mpr ⟨Finset.mem_range.mpr hk, hopen, rfl⟩
  rw [activeOf_some hs, ha.active s _ hs]
  exact_mod_cast card_pos.mpr ⟨k, hmem⟩

theorem Kept.handle (h : Kept a a' now) (ha : Inv a clock) {k : ℕ} (hk : k < a.leased)
    (hopen : (a.leases k).released = false) (hs : a.sources.lookup s = some (a.leases k).bucket) :
    a'.sources.lookup s = some (a'.leases k).bucket := by
  rw [h.leases]
  rcases h.stays s _ hs with hsame | ⟨hnone, -⟩
  · exact hsame
  · have hpos := activeOf_pos ha hk hopen hs
    rw [← h.activeOf, activeOf_none hnone] at hpos
    exact absurd hpos (lt_irrefl _)

theorem Same.kept {b' : Admission} (h : Same a b clock) (hnow : clock ≤ now) (ha : Kept a a' now)
    (hb : Kept b b' now) : Same a' b' now := by
  refine ⟨ha.inv,
    hb.inv, by rw [hb.config, ha.config]; exact h.config, by rw [hb.active, ha.active, h.active],
    by rw [hb.leased, ha.leased, h.leased], fun k hk => ?_,
      fun s => by rw [hb.activeOf, ha.activeOf, h.activeOf],
    fun s t ht => ?_, fun t ht => ?_, fun k hk hopen => ?_⟩
  · rw [ha.leased] at hk
    rw [hb.leases, ha.leases]
    exact h.released k hk
  · rw [hb.levelOf s t ht, ha.levelOf s t ht, h.levelOf s t (hnow.trans ht)]
  · rw [hb.globalLevel t ht, ha.globalLevel t ht, h.globalLevel t (hnow.trans ht)]
  · rw [ha.leased] at hk
    rw [ha.leases] at hopen
    obtain ⟨s, hs, hs'⟩ := h.handles k hk hopen
    refine ⟨s, Kept.handle ha h.left hk hopen hs, Kept.handle hb h.right
      (by rw [h.leased]; exact hk) ?_ hs'⟩
    rw [h.released k hk]
    exact hopen

theorem Charged.handle {base : ℕ} (h : Charged a a' source now base) (ha : Inv a clock) {k : ℕ}
    (hk : k < a.leased) (hopen : (a.leases k).released = false)
    (hs : a.sources.lookup s = some (a.leases k).bucket) :
    a'.sources.lookup s = some (a'.leases k).bucket := by
  rw [h.leases k hk]
  rcases h.stays s _ hs with hsame | ⟨hnone, -⟩
  · exact hsame
  · have hpos := activeOf_pos ha hk hopen hs
    have hactive := h.activeOf s
    rw [activeOf_none hnone] at hactive
    split at hactive <;> omega

section

variable (h : Same a b clock)
include h

theorem Same.budgets :
    b.config.perSource = a.config.perSource ∧ b.config.globalBudget = a.config.globalBudget :=
  ⟨by rw [h.config], by rw [h.config]⟩

theorem Same.charged {b' : Admission} {base base' : ℕ} (hnow : clock ≤ now)
    (ha : Charged a a' source now base) (hb : Charged b b' source now base') : Same a' b' now := by
  refine ⟨ha.inv,
    hb.inv, by rw [hb.config, ha.config]; exact h.config, by rw [hb.active, ha.active, h.active],
    by rw [hb.leased, ha.leased, h.leased], fun k hk => ?_,
      fun s => by rw [hb.activeOf, ha.activeOf, h.activeOf],
    fun s t ht => ?_, fun t ht => ?_, fun k hk hopen => ?_⟩
  · by_cases hold : k < a.leased
    · rw [hb.leases k (by rw [h.leased]; exact hold), ha.leases k hold]
      exact h.released k hold
    · have hk' : k = a.leased := by
        rw [ha.leased] at hk
        omega
      rw [hk', ha.lease.1, ← h.leased, hb.lease.1]
  · by_cases hs : s = source
    · rw [hs, hb.levelOf_self t ht, ha.levelOf_self t ht, h.levelOf source now hnow, h.budgets.1]
    · rw [hb.levelOf s t hs ht, ha.levelOf s t hs ht, h.levelOf s t (hnow.trans ht)]
  · rw [hb.globalLevel t ht, ha.globalLevel t ht, h.globalLevel now hnow, h.budgets.2]
  · by_cases hold : k < a.leased
    · rw [ha.leases k hold] at hopen
      obtain ⟨s, hs, hs'⟩ := h.handles k hold hopen
      refine ⟨s, Charged.handle ha h.left hold hopen hs,
        Charged.handle hb h.right (by rw [h.leased]; exact hold) ?_ hs'⟩
      rw [h.released k hold]
      exact hopen
    · have hk' : k = a.leased := by
        rw [ha.leased] at hk
        omega
      refine ⟨source, by rw [hk']; exact ha.lease.2, ?_⟩
      rw [hk', ← h.leased]
      exact hb.lease.2

theorem Same.verdictOf (hnow : clock ≤ now) :
    verdictOf b ctx source now = verdictOf a ctx source now := by
  unfold HttpAdmissionRate.verdictOf
  rw [h.active, h.activeOf, h.globalLevel now hnow, h.levelOf source now hnow, h.config]
  rfl

theorem Same.release (k : ℕ) : Same (a.release k) (b.release k) clock := by
  by_cases hopen : k < a.leased ∧ (a.leases k).released = false
  · have hopen' : k < b.leased ∧ (b.leases k).released = false := by
      rw [h.leased, h.released k hopen.1]
      exact hopen
    have ha := release_freed h.left hopen.1 hopen.2
    have hb := release_freed h.right hopen'.1 hopen'.2
    obtain ⟨own, hown, hown'⟩ := h.handles k hopen.1 hopen.2
    have hsame : ∀ s, b.sources.lookup s = some (b.leases k).bucket ↔
        a.sources.lookup s = some (a.leases k).bucket := by
      intro s
      constructor
      · intro hs
        rw [h.right.apart s own _ hs hown']
        exact hown
      · intro hs
        rw [h.left.apart s own _ hs hown]
        exact hown'
    refine ⟨ha.inv,
      hb.inv, by rw [hb.config, ha.config]; exact h.config, by rw [hb.active, ha.active, h.active],
      by rw [hb.leased, ha.leased, h.leased], fun j hj => ?_, fun s => ?_, fun s t ht =>
        ?_, fun t ht => ?_,
      fun j hj hfree => ?_⟩
    · rw [ha.leased] at hj
      rw [ha.leases, hb.leases]
      by_cases hjk : j = k
      · rw [hjk, update_self, update_self]
      · rw [update_of_ne hjk, update_of_ne hjk]
        exact h.released j hj
    · rw [ha.activeOf, hb.activeOf, h.activeOf]
      simp only [hsame]
    · rw [ha.levelOf, hb.levelOf, h.levelOf s t ht]
    · rw [ha.globalLevel, hb.globalLevel, h.globalLevel t ht]
    · rw [ha.leased] at hj
      rw [ha.leases] at hfree ⊢
      rw [ha.sources, hb.sources, hb.leases]
      by_cases hjk : j = k
      · rw [hjk, update_self] at hfree
        cases hfree
      · rw [update_of_ne hjk] at hfree ⊢
        rw [update_of_ne hjk]
        exact h.handles j hj hfree
  · have hclosed : ¬ (k < b.leased ∧ (b.leases k).released = false) := by
      rintro ⟨hk, hfree⟩
      rw [h.leased] at hk
      rw [h.released k hk] at hfree
      exact hopen ⟨hk, hfree⟩
    rw [release_closed hopen, release_closed hclosed]
    exact h

theorem Same.step (c : Call) (hclock : ∀ now, c.reading = some now → clock ≤ now)
    (ha : ∀ ctx source now, c = .acquire ctx source now → meets a ctx source now = false)
    (hb : ∀ ctx source now, c = .acquire ctx source now → meets b ctx source now = false) :
    (step a c).2 = (step b c).2 ∧ Same (step a c).1 (step b c).1 (c.reading.getD clock) := by
  cases c with
  | release k => exact ⟨rfl, h.release k⟩
  | acquire ctx source now =>
    cases hread : (Call.acquire ctx source now).reading with
    | none =>
      obtain ⟨hsame, d, hd⟩ := acquire_unread (a := a) hread
      have hsame' : (b.acquire ctx source now).1 = b := (acquire_unread hread).1
      refine ⟨congrArg some ((hd a).trans (hd b).symm), ?_⟩
      change Same (a.acquire ctx source now).1 (b.acquire ctx source now).1 clock
      rw [hsame, hsame']
      exact h
    | some =>
      cases reading_eq hread
      have hnow := hclock now hread
      have hleft := acquire_outcome h.left hread hnow
      have hright := acquire_outcome h.right hread hnow
      have hanswer := hleft.answer (ha ctx source now rfl)
      have hanswer' := hright.answer (hb ctx source now rfl)
      rw [h.verdictOf hnow, h.leased] at hanswer'
      have hequal : (a.acquire ctx source now).2 = (b.acquire ctx source now).2 :=
        hanswer.trans hanswer'.symm
      refine ⟨congrArg some hequal, ?_⟩
      rcases hleft.effect with ⟨d, hd, hkept⟩ | ⟨-, hgranted, hcharged⟩
      · rcases hright.effect with ⟨d', hd', hkept'⟩ | ⟨hverdict', hgranted', -⟩
        · exact h.kept hnow hkept hkept'
        · rw [hd, hgranted'] at hequal
          cases hequal
      · rcases hright.effect with ⟨d', hd', -⟩ | ⟨-, -, hcharged'⟩
        · rw [hgranted, hd'] at hequal
          cases hequal
        · exact h.charged hnow hcharged hcharged'

theorem Same.answers (hclock : Steady clock calls)
    (ha : NeverMeets a calls) (hb : NeverMeets b calls) : answers a calls = answers b calls := by
  induction calls generalizing a b clock with
  | nil => rfl
  | cons c rest ih =>
    obtain ⟨hanswer, hsame⟩ := h.step c hclock.1 ha.1 hb.1
    unfold HttpAdmission.answers
    rw [hanswer, ih hsame hclock.2 ha.2 hb.2]

end

/-- What a call may do to the buckets of sources. -/
structure Evicting (a e : Admission) (now : ℤ) : Prop where
  inv : Inv e now
  /-- A source keeps its bucket or the bucket is spare. -/
  stays : ∀ s id, a.sources.lookup s = some id →
    e.sources.lookup s = some id ∨ e.sources.lookup s = none ∧ Spare e id now
  owner : ∀ s s' id, a.sources.lookup s = some id → e.sources.lookup s' = some id → s' = s
  made : a.made ≤ e.made

theorem Outcome.evicting {r : Admission × Answer} (h : Outcome a ctx source now r)
    (ha : Inv a clock) :
    Evicting a r.1 now := by
  rcases h.effect with ⟨d, -, hkept⟩ | ⟨-, -, hcharged⟩
  · exact ⟨hkept.inv, hkept.stays, fun s s' id hs hs' => ha.apart s' s id
      (hkept.found hs') hs, hkept.made⟩
  refine ⟨hcharged.inv, hcharged.stays, fun s s' id hs hs' => ?_, hcharged.made⟩
  by_cases hsource : s' = source
  · subst hsource
    rcases hcharged.fresh id hs' with hold | hnew
    · exact ha.apart s' s id hold hs
    · exact absurd (ha.made s id hs) (not_lt.mpr hnew)
  · exact ha.apart s' s id (hcharged.found hsource hs') hs

/-- The state after a call, with some evicted buckets kept and another limit of sources. -/
def keeping (before after : Admission) (keep : String → Bool) (limit : ℤ) : Admission :=
  { after with
    sources := after.sources ++
      before.sources.filter fun x => keep x.1 && (after.sources.lookup x.1).isNone
    config := { after.config with maxSources := limit } }

theorem keeping_lookup (a e : Admission) (keep : String → Bool) (limit : ℤ) (s : String) :
    (keeping a e keep limit).sources.lookup s =
      (e.sources.lookup s).or (if keep s && (e.sources.lookup s).isNone then a.sources.lookup s
        else none) := by
  unfold keeping
  rw [lookup_append, lookup_filter a.sources fun name => keep name &&
    (e.sources.lookup name).isNone]

/-- Keeping spare buckets cannot be seen. -/
theorem Evicting.same (h : Evicting a e now) (ha : Inv a clock) (keep : String → Bool) (limit : ℤ) :
    Same e (keeping a e keep limit) now := by
  set b := keeping a e keep limit
  have hold : ∀ s id, e.sources.lookup s = some id → b.sources.lookup s = some id := by
    intro s id hs
    rw [keeping_lookup, hs, some_or]
  have hgone : ∀ s, b.sources.lookup s = none → e.sources.lookup s = none := by
    intro s hl
    cases hs : e.sources.lookup s with
    | none => rfl
    | some id => cases hl.symm.trans (hold s id hs)
  have hnew : ∀ s id, e.sources.lookup s = none → b.sources.lookup s = some id →
      a.sources.lookup s = some id ∧ Spare e id now := by
    intro s id hs hl
    rw [keeping_lookup, hs, none_or] at hl
    split at hl
    · refine ⟨hl, ?_⟩
      rcases h.stays s id hl with hsame | hspare
      · cases hs.symm.trans hsame
      · exact hspare.2
    · cases hl
  have hcases : ∀ s id, b.sources.lookup s = some id → e.sources.lookup s = some id ∨
      e.sources.lookup s = none ∧ a.sources.lookup s = some id ∧ Spare e id now := by
    intro s id hl
    cases hs : e.sources.lookup s with
    | some other => exact .inl ((hold s other hs).symm.trans hl)
    | none => exact .inr ⟨rfl, hnew s id hs hl⟩
  have hempty : ∀ s id, e.sources.lookup s = none → a.sources.lookup s = some id →
    openLeases e id = ∅ := by
    intro s id hs hl
    refine filter_eq_empty_iff.mpr fun k hk hopen => ?_
    obtain ⟨s', hs'⟩ := h.inv.held k (Finset.mem_range.mp hk) hopen.1
    rw [hopen.2] at hs'
    cases h.owner s s' id hl hs'
    cases hs.symm.trans hs'
  have hburst : (0 : ℚ) ≤ e.config.perSource.burst := by
    exact_mod_cast zero_le_one.trans h.inv.usable.2.2.2.2
  have hinv : Inv b now := by
    refine ⟨h.inv.usable, ?_, fun s s' id hl hl' => ?_, fun s id hl => ?_, fun s id hl => ?_,
      fun s id hl => ?_, h.inv.globalSound, fun k hk hopen => ?_, h.inv.known⟩
    · change ((e.sources ++ a.sources.filter _).map Prod.fst).Nodup
      rw [map_append]
      refine List.Nodup.append h.inv.keys (ha.keys.sublist (filter_sublist.map _))
        fun s hs hs' => ?_
      rw [mem_keys_iff] at hs hs'
      rw [lookup_filter a.sources fun name => keep name && (e.sources.lookup name).isNone] at hs'
      cases hl : e.sources.lookup s with
      | none => exact hs hl
      | some =>
        rw [hl] at hs'
        simp at hs'
    · rcases hcases s id hl with hs | ⟨hs, hsa, -⟩
      · rcases hcases s' id hl' with hs' | ⟨hs', hsa', -⟩
        · exact h.inv.apart s s' id hs hs'
        · exact h.owner s' s id hsa' hs
      · rcases hcases s' id hl' with hs' | ⟨hs', hsa', -⟩
        · exact (h.owner s s' id hsa hs').symm
        · exact ha.apart s s' id hsa hsa'
    · rcases hcases s id hl with hs | ⟨-, hsa, -⟩
      · exact h.inv.made s id hs
      · exact (ha.made s id hsa).trans_le h.made
    · rcases hcases s id hl with hs | ⟨-, -, hspare⟩
      · exact h.inv.sound s id hs
      · have hfull : (e.buckets id).rate.tokens = e.config.perSource.burst := hspare.full
        exact ⟨by rw [show (b.buckets id).rate.tokens = _ from hfull]; exact hburst,
          hfull.le, hspare.past⟩
    · change (e.buckets id).active = (openLeases e id).card
      rcases hcases s id hl with hs | ⟨hs, hsa, hspare⟩
      · exact h.inv.active s id hs
      · rw [hempty s id hs hsa, hspare.active]
        rfl
    · obtain ⟨s, hs⟩ := h.inv.held k hk hopen
      exact ⟨s, hold s _ hs⟩
  refine ⟨h.inv, hinv, rfl, rfl, rfl, fun _ _ => rfl, fun s => ?_, fun s t ht => ?_, fun _ _ => rfl,
    fun k hk hopen => ?_⟩
  · cases hl : b.sources.lookup s with
    | none => rw [activeOf_none hl, activeOf_none (hgone s hl)]
    | some id =>
      rw [activeOf_some hl]
      rcases hcases s id hl with hs | ⟨hs, -, hspare⟩
      · exact (activeOf_some hs).symm
      · exact hspare.active.trans (activeOf_none hs).symm
  · cases hl : b.sources.lookup s with
    | none =>
      rw [levelOf_none hl, levelOf_none (hgone s hl)]
      rfl
    | some id =>
      rw [levelOf_some hl]
      rcases hcases s id hl with hs | ⟨hs, -, hspare⟩
      · exact (levelOf_some hs t).symm
      · have htcast : (now : ℚ) ≤ t := by exact_mod_cast ht
        have hfull : tokensAt e.config.perSource (e.buckets id).rate t = e.config.perSource.burst :=
          level_full h.inv.every (hspare.past.trans htcast) hspare.full
        exact hfull.trans (levelOf_none hs t).symm
  · obtain ⟨s, hs⟩ := h.inv.held k hk hopen
    exact ⟨s, hs, hold s _ hs⟩

theorem step_length (h : Inv a clock) (c : Call)
    (hclock : ∀ now, c.reading = some now → clock ≤ now) :
    Inv (step a c).1 (c.reading.getD clock) ∧ (step a c).1.config = a.config ∧
      (step a c).1.sources.length ≤ a.sources.length + 1 := by
  cases c with
  | release k =>
    by_cases hopen : k < a.leased ∧ (a.leases k).released = false
    · have hfreed := release_freed h hopen.1 hopen.2
      have hsources : (step a (.release k)).1.sources = a.sources := hfreed.sources
      exact ⟨hfreed.inv, hfreed.config, by rw [hsources]; exact Nat.le_succ _⟩
    · have hsame : (step a (.release k)).1 = a := release_closed hopen
      rw [hsame]
      exact ⟨h, rfl, Nat.le_succ _⟩
  | acquire ctx source now =>
    cases hread : (Call.acquire ctx source now).reading with
    | none =>
      have hsame : (step a (.acquire ctx source now)).1 = a := (acquire_unread hread).1
      rw [hsame]
      exact ⟨h, rfl, Nat.le_succ _⟩
    | some =>
      cases reading_eq hread
      rcases (acquire_outcome h hread (hclock now hread)).effect with ⟨d, -,
        hkept⟩ | ⟨-, -, hcharged⟩
      · refine ⟨hkept.inv, hkept.config,
          (length_le_of_keys hkept.inv.keys fun s hs hnone => ?_).trans (Nat.le_succ _)⟩
        exact hs (hkept.shrinks s hnone)
      have hlength : (step a (.acquire ctx source now)).1.sources.length ≤
        ((source, 0) :: a.sources).length := by
        refine length_le_of_keys hcharged.inv.keys fun s hs hnone => ?_
        rw [lookup_cons] at hnone
        by_cases hsource : s = source
        · simp [hsource] at hnone
        · rw [beq_false_of_ne hsource] at hnone
          exact hs (hcharged.shrinks s hsource hnone)
      exact ⟨hcharged.inv, hcharged.config, hlength⟩

theorem after_config (h : Inv a clock) (hclock : Steady clock calls) :
    (after a calls).config = a.config := by
  induction calls generalizing a clock with
  | nil => rfl
  | cons c rest ih =>
    obtain ⟨hinv, hconfig, -⟩ := step_length h c hclock.1
    exact (ih hinv hclock.2).trans hconfig

theorem neverMeets_of_large (h : Inv a clock) (hclock : Steady clock calls)
    (hlarge : (a.sources.length + calls.length : ℤ) < a.config.maxSources) :
    NeverMeets a calls := by
  induction calls generalizing a clock with
  | nil => trivial
  | cons c rest ih =>
    rw [length_cons, Nat.cast_succ] at hlarge
    refine ⟨fun ctx source now _ => ?_, ?_⟩
    · have hnot : ¬ a.config.maxSources ≤ a.sources.length := by omega
      unfold meets
      rw [decide_eq_false hnot, Bool.and_false]
    · obtain ⟨hinv, hconfig, hlength⟩ := step_length h c hclock.1
      refine ih hinv hclock.2 ?_
      rw [hconfig]
      omega

end

/-! ## The rates of a run -/

/-- Leases in each window of time. -/
structure RateLimited (config : AdmissionConfig) (log : List (String × ℤ)) : Prop where
  source : ∀ (s : String) (first length : ℚ), 0 ≤ length →
    ((log.countP fun g => decide (g.1 = s ∧ first ≤ g.2 ∧ (g.2 : ℚ) ≤ first + length)) : ℚ) ≤
      config.perSource.burst + length / config.perSource.every
  /-- Leases of all sources. -/
  total : ∀ first length : ℚ, 0 ≤ length →
    ((log.countP fun g => decide (first ≤ g.2 ∧ (g.2 : ℚ) ≤ first + length)) : ℚ) ≤
      config.globalBudget.burst + length / config.globalBudget.every

/-- No bucket loses a token. -/
def Unspent (a a' : Admission) (now : ℤ) : Prop :=
  (∀ s t, now ≤ t → levelOf a' s t = levelOf a s t) ∧ ∀ t, now ≤ t →
  globalLevel a' t = globalLevel a t

theorem Ledger.rateLimited {a : Admission} {start clock : ℤ} {log : List (String × ℤ)}
    (h : Ledger a start clock log) : RateLimited a.config log := by
  have husable := h.inv.usable
  refine ⟨fun s first length hlength => ?_, fun first length hlength => ?_⟩
  · have hwindow := (h.source s).window husable.2.2.2.1 husable.2.2.2.2 first hlength
    unfold times at hwindow
    rw [countP_map, countP_filter] at hwindow
    refine le_of_eq_of_le ?_ hwindow
    refine congrArg Nat.cast (countP_congr fun g _ => ?_)
    simp [and_comm]
  · have hwindow := h.total.window husable.2.1 husable.2.2.1 first hlength
    rw [countP_map] at hwindow
    exact hwindow

/-- In every window of time each source is granted at most its burst and what accrues in the
window, and so are all sources together; a denial spends no token; and calls that never meet the
limit of sources are answered as if evicted buckets had been kept, under any limit that these
buckets do not meet either. -/
theorem run_rateLimited {config : AdmissionConfig} {start : ℤ} {a : Admission}
    (h : newAdmission config start = some a) (calls : List Call) (hclock : Steady start calls) :
    RateLimited config (grants a calls) ∧
      (∀ ctx source now d, Steady start (calls ++ [.acquire ctx source now]) →
        ((after a calls).acquire ctx source now).2 = .denied d →
        Unspent (after a calls) ((after a calls).acquire ctx source now).1 now) ∧
      ∀ ctx source now keep limit later, Steady start (calls ++ .acquire ctx source now :: later) →
        (NeverMeets ((after a calls).acquire ctx source now).1 later →
          NeverMeets (keeping (after a calls) ((after a calls).acquire ctx source now).1 keep limit)
            later →
          answers ((after a calls).acquire ctx source now).1 later =
            answers (keeping (after a calls) ((after a calls).acquire ctx source now).1 keep limit)
              later) ∧
        (((keeping (after a calls) ((after a calls).acquire ctx source now).1 keep
          limit).sources.length +
            later.length : ℤ) < limit →
          NeverMeets (keeping (after a calls) ((after a calls).acquire ctx source now).1 keep limit)
            later) := by
  obtain ⟨hledger, hconfig⟩ := new_ledger h
  have hrun := run_ledger hledger hclock
  rw [nil_append] at hrun
  have hinv := hrun.inv
  refine ⟨?_, fun ctx source now d hsteady hdenied => ?_,
    fun ctx source now keep limit later hsteady => ?_⟩
  · have hlimited := hrun.rateLimited
    rw [after_config hledger.inv hclock, hconfig] at hlimited
    exact hlimited
  · rw [steady_append] at hsteady
    cases hread : (Call.acquire ctx source now).reading with
    | none =>
      rw [(acquire_unread (a := after a calls) hread).1]
      exact ⟨fun _ _ _ => rfl, fun _ _ => rfl⟩
    | some =>
      cases reading_eq hread
      rcases (acquire_outcome hinv hread (hsteady.2.1 now hread)).effect with ⟨d', -,
        hkept⟩ | ⟨-, hgranted, -⟩
      · exact ⟨hkept.levelOf, hkept.globalLevel⟩
      · cases hgranted.symm.trans hdenied
  · rw [steady_append] at hsteady
    obtain ⟨-, hnow, hlater⟩ := hsteady
    have hevicting : Evicting (after a calls) ((after a calls).acquire ctx source now).1
        ((Call.acquire ctx source now).reading.getD (clockAfter start calls)) := by
      cases hread : (Call.acquire ctx source now).reading with
      | none =>
        rw [(acquire_unread (a := after a calls) hread).1]
        exact ⟨hinv, fun _ _ hs => .inl hs, fun s s' id hs hs' => hinv.apart s' s id hs' hs, le_rfl⟩
      | some =>
        cases reading_eq hread
        exact Outcome.evicting (acquire_outcome hinv hread (hnow now hread)) hinv
    have hsame := hevicting.same hinv keep limit
    exact ⟨fun hnever hkept => hsame.answers hlater hnever hkept, fun hlarge =>
      neverMeets_of_large hsame.right hlater hlarge⟩

/-- A context that is never done. -/
def live : Context := ⟨false, false, false⟩

/-- An admission with the default configuration. -/
def fresh : Admission :=
  ⟨defaultAdmissionConfig, 0, ⟨40, 0⟩, [], none, fun _ => ⟨⟨0, 0⟩, 0, 0⟩, 0, fun _ => ⟨0, false⟩, 0⟩

/-- The default configuration is accepted. -/
theorem fresh_new : newAdmission defaultAdmissionConfig 0 = some fresh := by
  rw [newAdmission, if_pos (by decide)]
  simp [fresh, defaultAdmissionConfig]

/-- Two requests of one source, and the first one's end. -/
def twoCalls : List Call := [.acquire live "10.0.0.1" 5, .acquire live "10.0.0.1" 7, .release 0]

/-- Two requests of one source are within its rate. -/
theorem twoCalls_rateLimited :
    newAdmission defaultAdmissionConfig 0 = some fresh ∧ Steady 0 twoCalls ∧
      grants fresh twoCalls = [("10.0.0.1", 5), ("10.0.0.1", 7)] ∧
      RateLimited defaultAdmissionConfig (grants fresh twoCalls) := by
  have hread : ∀ now : ℤ, (Call.acquire live "10.0.0.1" now).reading = some now := fun now =>
    reading_some.mpr ⟨rfl, by decide +kernel, rfl⟩
  have hsteady : Steady 0 twoCalls := by
    refine ⟨fun now hnow => ?_, fun now hnow => ?_, nofun, trivial⟩
    · rw [hread] at hnow
      cases hnow
      decide
    · rw [hread] at hnow ⊢
      cases hnow
      decide
  exact ⟨fresh_new, hsteady, by decide +kernel, (run_rateLimited fresh_new twoCalls hsteady).1⟩

end DaxiangVpn.HttpAdmissionRuns
