import DaxiangVpn.HttpAdmissionRuns
import DaxiangVpn.TransitionRun
import Mathlib.Algebra.BigOperators.Group.Finset.Basic

/-!
# Leases and buckets over runs

Acquisitions, releases and evictions interleave while the clock does not go back. The books outside
of the admission list the leases that were granted in an answer and not given back since, with the
source that asked. A lease holds the number of its bucket, so a release must never meet a bucket
that was evicted and made again.
-/

namespace DaxiangVpn.HttpAdmissionBooks

open HttpAdmission HttpAdmissionRate HttpAdmissionRuns TransitionRun Function Finset

/-- An admission, the last reading of its clock, and each lease that was granted and not given back
with its source. -/
structure Books where
  admission : Admission
  clock : ℤ
  granted : List (ℕ × String)

/-- What happens next; the clock is read some time after the last reading. -/
inductive Move
  | acquire (ctx : Context) (source : String) (elapsed : ℕ)
  | release (lease : ℕ)
  | sweep (elapsed : ℕ)

/-- One move. Only the answer of a request says what is entered into the books. -/
def move (s : Books) : Move → Books
  | .acquire ctx source elapsed =>
    ⟨(s.admission.acquire ctx source (s.clock + elapsed)).1, s.clock + elapsed,
      match (s.admission.acquire ctx source (s.clock + elapsed)).2 with
      | .granted k => (k, source) :: s.granted
      | .denied _ => s.granted⟩
  | .release k =>
    { s with admission := s.admission.release k, granted := s.granted.filter fun g => g.1 ≠ k }
  | .sweep elapsed =>
    { s with admission := s.admission.sweep (s.clock + elapsed), clock := s.clock + elapsed }

/-- Limits, and the bucket of each lease that is not given back. -/
structure Limited (c : AdmissionConfig) (a : Admission) (granted : List (ℕ × String)) : Prop where
  /-- No answer names a lease that is still out. -/
  distinct : (granted.map Prod.fst).Nodup
  /-- The admission knows the same leases as the books. -/
  known : ∀ k, k ∈ granted.map Prod.fst ↔ k < a.leased ∧ (a.leases k).released = false
  total : a.active = granted.length
  limit : a.active ≤ c.maxConcurrent
  source : ∀ name, activeOf a name ≤ c.maxConcurrentPerSource
  room : a.sources.length ≤ c.maxSources
  reached : ∀ g ∈ granted, a.sources.lookup g.2 = some (a.leases g.1).bucket

/-- The counts of all buckets and of each source agree with the leases. -/
structure Balanced (c : AdmissionConfig) (a : Admission) (granted : List (ℕ × String)) : Prop
    extends Limited c a granted where
  buckets : a.active = (a.sources.map fun e => (a.buckets e.2).active).sum
  leases : ∀ name, activeOf a name = (granted.filter fun g => g.2 = name).length

/-- What every step keeps. -/
structure Tidy (c : AdmissionConfig) (a : Admission) (clock : ℤ) (granted : List (ℕ × String)) :
    Prop extends Limited c a granted where
  inv : Inv a clock
  config : a.config = c

section

variable {c : AdmissionConfig} {a a' : Admission} {clock now : ℤ} {granted : List (ℕ × String)}
  {ctx : Context} {source : String} {base k : ℕ}

/-- A lease of the books is open. -/
theorem Limited.open (h : Limited c a granted) {g : ℕ × String} (hg : g ∈ granted) :
    g.1 < a.leased ∧ (a.leases g.1).released = false :=
  (h.known g.1).mp (List.mem_map_of_mem hg)

/-- A step that grants nothing and gives nothing back. -/
theorem Tidy.kept (h : Tidy c a clock granted) (hk : Kept a a' now) : Tidy c a' now granted := by
  have hlength : a'.sources.length ≤ a.sources.length :=
    length_le_of_keys hk.inv.keys fun s hs hnone => hs (hk.shrinks s hnone)
  refine ⟨⟨h.distinct, fun k => ?_, hk.active.trans h.total, hk.active.le.trans h.limit,
    fun name => (hk.activeOf name).le.trans (h.source name),
    (Int.ofNat_le.mpr hlength).trans h.room, fun g hg => ?_⟩, hk.inv, hk.config.trans h.config⟩
  · rw [hk.leased, hk.leases]
    exact h.known k
  · obtain ⟨hlt, hopen⟩ := h.open hg
    exact Kept.handle hk h.inv hlt hopen (h.reached g hg)

/-- A granted request. -/
theorem Tidy.charged (h : Tidy c a clock granted) (hc : Charged a a' source now base)
    (hlimit : a.active < c.maxConcurrent) (hsource : activeOf a source < c.maxConcurrentPerSource)
    (hroom : a'.sources.length ≤ c.maxSources) : Tidy c a' now ((a.leased, source) :: granted) := by
  have hnew : a.leased ∉ granted.map Prod.fst := fun hmem => lt_irrefl _ ((h.known _).mp hmem).1
  refine ⟨⟨List.nodup_cons.mpr ⟨hnew, h.distinct⟩, fun k => ?_, ?_, hc.active.le.trans hlimit,
    fun name => ?_, hroom, fun g hg => ?_⟩, hc.inv, hc.config.trans h.config⟩
  · rw [List.map_cons, List.mem_cons, h.known, hc.leased, Nat.lt_succ_iff_lt_or_eq]
    by_cases hk : k = a.leased
    · simp [hk, hc.lease.1]
    · by_cases hlt : k < a.leased
      · simp [hk, hlt, hc.leases k hlt]
      · simp [hk, hlt]
  · rw [hc.active, h.total, List.length_cons]
    push_cast
    rfl
  · rw [hc.activeOf name]
    split_ifs with heq
    · rw [heq]
      exact hsource
    · rw [add_zero]
      exact h.source name
  · rcases List.mem_cons.mp hg with rfl | hg
    · exact hc.lease.2
    · obtain ⟨hlt, hopen⟩ := h.open hg
      exact Charged.handle hc h.inv hlt hopen (h.reached g hg)

/-- The first release of a lease. -/
theorem Tidy.freed (h : Tidy c a clock granted) (hf : Freed a a' k clock)
    (hk : k ∈ granted.map Prod.fst) : Tidy c a' clock (granted.filter fun g => g.1 ≠ k) := by
  have hmap : (granted.filter fun g => g.1 ≠ k).map Prod.fst = (granted.map Prod.fst).erase k := by
    rw [h.distinct.erase_eq_filter, List.filter_map]
    exact congrArg _ (List.filter_congr fun g _ => Bool.eq_iff_iff.mpr (by simp))
  have hlength := List.length_erase_of_mem hk
  have hpos := List.length_pos_of_mem hk
  rw [← hmap, List.length_map, List.length_map] at hlength
  rw [List.length_map] at hpos
  have htotal := h.total
  have hlimit := h.limit
  refine ⟨⟨hmap ▸ h.distinct.erase k, fun j => ?_, ?_, ?_, fun name => ?_, ?_, fun g hg => ?_⟩,
    hf.inv, hf.config.trans h.config⟩
  · rw [hmap, h.distinct.mem_erase_iff, h.known, hf.leased, hf.leases]
    by_cases hj : j = k
    · simp [hj]
    · simp [hj]
  · rw [hf.active, hlength]
    omega
  · rw [hf.active]
    omega
  · have hsource := h.source name
    rw [hf.activeOf]
    split_ifs
    · omega
    · omega
  · rw [hf.sources]
    exact h.room
  · obtain ⟨hg, hne⟩ := List.mem_filter.mp hg
    rw [hf.sources, hf.leases, update_of_ne (of_decide_eq_true hne)]
    exact h.reached g hg

theorem reserve_length (a : Admission) (ctx : Context) (source : String) (id : ℕ) (now : ℤ) :
    (a.reserve ctx source id now).1.sources.length ≤ a.sources.length + 1 := by
  unfold Admission.reserve
  split
  · exact Nat.le_succ _
  · exact Nat.succ_le_succ (List.length_filter_le _ _)

theorem acquireNew_room (h : Inv a now) (hroom : a.sources.length ≤ a.config.maxSources) :
    ((a.acquireNew ctx source now).1.sources.length : ℤ) ≤ a.config.maxSources := by
  have hswept : (a.sweep now).sources.length ≤ a.sources.length :=
    length_le_of_keys (sweep_kept h).inv.keys fun s hs hnone => hs ((sweep_kept h).shrinks s hnone)
  have hlength (b : Admission) : ((b.make now).reserve ctx source b.made now).1.sources.length ≤
    b.sources.length + 1 :=
    reserve_length (b.make now) ctx source b.made now
  unfold Admission.acquireNew
  dsimp only
  split_ifs with hrate hfull hstill
  · exact hroom
  · exact (Int.ofNat_le.mpr hswept).trans hroom
  · have hlength := hlength (a.sweep now)
    omega
  · have hlength := hlength a
    omega

theorem acquire_room (h : Inv a clock) (hread : (Call.acquire ctx source now).reading = some now)
    (hnow : clock ≤ now) (hc : Charged a (a.acquire ctx source now).1 source now base)
    (hroom : a.sources.length ≤ a.config.maxSources) :
    (a.acquire ctx source now).1.sources.length ≤ a.config.maxSources := by
  cases hl : a.sources.lookup source with
  | some =>
    refine (Int.ofNat_le.mpr (length_le_of_keys hc.inv.keys fun s hs hnone => ?_)).trans hroom
    by_cases hsource : s = source
    · cases hl.symm.trans (hsource ▸ hnone)
    · exact hs (hc.shrinks s hsource hnone)
  | none =>
    obtain ⟨hentry, hcanonical, hlocked⟩ := reading_some.mp hread
    have hl' : (a.refillGlobal now).sources.lookup source = none := hl
    unfold Admission.acquire
    rw [hentry, hcanonical, hlocked, if_neg Bool.false_ne_true, if_neg Bool.noConfusion,
      if_neg Bool.false_ne_true]
    dsimp only
    rw [hl']
    split
    · exact hroom
    · exact acquireNew_room (refillGlobal_kept (h.later hnow)).inv hroom

/-- The open leases of the bucket of a source are those that the books have for the source. -/
theorem Tidy.openLeases (h : Tidy c a clock granted) {name : String} {id : ℕ}
    (hl : a.sources.lookup name = some id) :
    (openLeases a id).card = (granted.filter fun g => g.2 = name).length := by
  have hkeys : ((granted.filter fun g => g.2 = name).map Prod.fst).Nodup :=
    h.distinct.sublist (List.filter_sublist.map _)
  rw [← List.length_map Prod.fst, ← List.toFinset_card_of_nodup hkeys]
  refine congrArg card (Finset.ext fun k => ?_)
  rw [HttpAdmissionRate.openLeases, mem_filter, Finset.mem_range, List.mem_toFinset, List.mem_map]
  constructor
  · rintro ⟨hlt, hopen, hbucket⟩
    obtain ⟨g, hg, rfl⟩ := List.mem_map.mp ((h.known k).mpr ⟨hlt, hopen⟩)
    have hname := h.inv.apart _ _ id (hbucket ▸ h.reached g hg) hl
    exact ⟨g, List.mem_filter.mpr ⟨hg, decide_eq_true hname⟩, rfl⟩
  rintro ⟨g, hg, rfl⟩
  obtain ⟨hg, hname⟩ := List.mem_filter.mp hg
  obtain ⟨hlt, hopen⟩ := h.open hg
  have hreached := h.reached g hg
  rw [of_decide_eq_true hname, hl] at hreached
  exact ⟨hlt, hopen, (Option.some.inj hreached).symm⟩

/-- The books split by source. -/
theorem length_eq_sum {names : List String} (hnames : names.Nodup)
    (h : ∀ g ∈ granted, g.2 ∈ names) :
    (names.map fun name => (granted.filter fun g => g.2 = name).length).sum = granted.length := by
  have hcount (name : String) : (granted.filter fun g => g.2 = name).length =
      (granted.map Prod.snd : Multiset String).count name := by
    rw [Multiset.coe_count, List.count, List.countP_map, List.countP_eq_length_filter]
    rfl
  rw [← List.sum_toFinset _ hnames, sum_congr rfl fun name _ => hcount name,
    Multiset.sum_count_eq_card, Multiset.coe_card, List.length_map]
  intro name hname
  obtain ⟨g, hg, rfl⟩ := List.mem_map.mp (Multiset.mem_coe.mp hname)
  exact List.mem_toFinset.mpr (h g hg)

theorem Tidy.balanced (h : Tidy c a clock granted) : Balanced c a granted := by
  refine ⟨h.toLimited, ?_, fun name => ?_⟩
  · have hbucket : a.sources.map (fun e => (a.buckets e.2).active) = (a.sources.map Prod.fst).map
        fun name => ((granted.filter fun g => g.2 = name).length : ℤ) := by
      rw [List.map_map]
      refine List.map_congr_left fun e he => ?_
      have hl := lookup_of_mem h.inv.keys he
      rw [h.inv.active e.1 e.2 hl, h.openLeases hl]
      rfl
    have hnames : ∀ g ∈ granted, g.2 ∈ a.sources.map Prod.fst := by
      intro g hg
      rw [mem_keys_iff, h.reached g hg]
      exact Option.some_ne_none _
    rw [h.total, hbucket, ← length_eq_sum h.inv.keys hnames, Nat.cast_list_sum,
      List.map_map]
    rfl
  · cases hl : a.sources.lookup name with
    | some id => rw [activeOf_some hl, h.inv.active name id hl, h.openLeases hl]
    | none =>
      rw [activeOf_none hl, List.filter_eq_nil_iff.mpr, List.length_nil, Nat.cast_zero]
      rintro g hg hname
      cases hl.symm.trans (of_decide_eq_true hname ▸ h.reached g hg)

end

/-- What a run keeps. -/
abbrev Books.Ok (c : AdmissionConfig) (s : Books) : Prop := Tidy c s.admission s.clock s.granted

theorem move_ok {c : AdmissionConfig} {s : Books} (h : s.Ok c) (m : Move) : (move s m).Ok c := by
  have hnow (elapsed : ℕ) : s.clock ≤ s.clock + elapsed :=
    le_add_of_nonneg_right (Int.natCast_nonneg _)
  cases m with
  | acquire ctx source elapsed =>
    have hnow := hnow elapsed
    unfold move
    dsimp only
    cases hread : (Call.acquire ctx source (s.clock + elapsed)).reading with
    | none =>
      obtain ⟨hsame, d, hd⟩ := acquire_unread (a := s.admission) hread
      rw [hd, hsame]
      exact h.kept (Kept.refl (h.inv.later hnow))
    | some =>
      cases reading_eq hread
      rcases (acquire_outcome h.inv hread hnow).effect with ⟨d, hd, hkept⟩ | ⟨hverdict,
        hgranted, hcharged⟩
      · rw [hd]
        exact h.kept hkept
      rw [hgranted]
      rw [verdictOf_read hread] at hverdict
      split_ifs at hverdict with hfull
      rw [not_or, not_le, not_le, h.config] at hfull
      have hroom := acquire_room h.inv hread hnow hcharged (h.config.symm ▸ h.room)
      exact h.charged hcharged hfull.1 hfull.2 (h.config ▸ hroom)
  | release k =>
    by_cases hk : k ∈ s.granted.map Prod.fst
    · obtain ⟨hlt, hopen⟩ := (h.known k).mp hk
      exact h.freed (release_freed h.inv hlt hopen) hk
    · have hall : (s.granted.filter fun g => g.1 ≠ k) = s.granted :=
        List.filter_eq_self.mpr fun g hg =>
          decide_eq_true fun heq => hk (heq ▸ List.mem_map_of_mem hg)
      rw [move, hall, release_closed fun hopen => hk ((h.known k).mpr hopen)]
      exact h
  | sweep elapsed => exact h.kept (sweep_kept (h.inv.later (hnow elapsed)))

theorem new_ok {c : AdmissionConfig} {start : ℤ} {a : Admission}
    (h : newAdmission c start = some a) : Books.Ok c ⟨a, start, []⟩ := by
  obtain ⟨hledger, hconfig⟩ := new_ledger h
  unfold newAdmission at h
  split_ifs at h with haccepted
  cases h
  unfold AdmissionConfig.accepted at haccepted
  simp only [not_or, decide_eq_true_eq] at haccepted
  refine ⟨⟨List.nodup_nil, fun k => ?_, rfl, ?_, fun name => ?_, ?_, List.forall_mem_nil _⟩,
    hledger.inv, hconfig⟩
  · simp
  · change 0 ≤ c.maxConcurrent
    omega
  · change 0 ≤ c.maxConcurrentPerSource
    omega
  · change 0 ≤ c.maxSources
    omega

/-- In every interleaving the counts of the leases and of the buckets agree with the answers and are
within their limits, and the bucket of a lease that is not given back is the one that its source
has. -/
theorem run_balanced {config : AdmissionConfig} {start : ℤ} {a : Admission}
    (h : newAdmission config start = some a) (moves : List Move) :
    Balanced config (run move ⟨a, start, []⟩ moves).admission
      (run move ⟨a, start, []⟩ moves).granted :=
  (run_invariant (Books.Ok config) (fun _ m hs (_ : True) => move_ok hs m) (new_ok h)
    (along_of_forall (fun _ _ => trivial) _ moves)).balanced

/-- Two requests of one source and one of another. The first lease is given back, twice. -/
def sampleMoves : List Move :=
  [.acquire live "10.0.0.1" 5, .acquire live "10.0.0.1" 1, .release 0, .acquire live "10.0.0.2" 2,
    .release 0, .sweep 7]

/-- Two of the three granted leases are out. -/
theorem sampleMoves_balanced : newAdmission defaultAdmissionConfig 0 = some fresh ∧
    (run move ⟨fresh, 0, []⟩ sampleMoves).granted = [(2, "10.0.0.2"), (1, "10.0.0.1")] ∧
    Balanced defaultAdmissionConfig (run move ⟨fresh, 0, []⟩ sampleMoves).admission
      (run move ⟨fresh, 0, []⟩ sampleMoves).granted :=
  ⟨fresh_new, by decide +kernel, run_balanced fresh_new _⟩

end DaxiangVpn.HttpAdmissionBooks
