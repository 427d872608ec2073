import Mathlib.Data.List.Sort
import DaxiangVpn.ControlFrames
import DaxiangVpn.HttpAdmission

/-!
# The source policy of the proxy gate

A policy names the sources under the gate and those outside of it. Whether a prefix is covered is
decided by one sweep over the managed prefixes in the order of their first addresses; it decides
the same as asking for every address of the prefix.
-/

namespace DaxiangVpn.ProxyGatePolicy

open NetipPrefix List
open HttpAdmission (unmap)
open ControlFrames (digest)

/-! ## Model -/

structure Policy where
  version : ℤ
  epoch : String
  interface : String
  managedBy : String
  policySHA256 : String
  profileSHA256 : String
  listener : String
  managedSources : List String
  /-- None for `null`. -/
  retainedSources : Option (List String)

def maxSources : ℕ := 512

/-- The pattern `identifier`. -/
def identifier (s : String) : Bool :=
  s.toList.length ≤ 32 && s.toList.head?.any Char.isAlphanum &&
    s.toList.all fun c => c.isAlphanum || c = '_' || c = '.' || c = '-'

/-- `netip.ParseAddrPort` of an address without colons; the others are refused anyway. -/
def parseAddrPort (s : String) : Option (Addr × ℕ) :=
  match s.toList.splitOn ':' with
  | [host, port] =>
    if port ≠ [] ∧ port.all Char.isDigit ∧ Nat.ofDigitChars 10 port 0 < 65536 then
      (parseAddr host).map fun a => (a, Nat.ofDigitChars 10 port 0)
    else none
  | _ => none

def validListener (s : String) : Bool :=
  (parseAddrPort s).any fun ap => String.ofList (ap.1.text ++ ':' :: Nat.toDigits 10 ap.2) = s &&
    ap.1.family = .v4 && !ap.1.isUnspecified && !ap.1.isMulticast && ap.2 ≠ 0

def validSource (s : String) : Option IpPrefix :=
  (parsePrefix s).filter fun pr => pr.string = s && pr = pr.masked && pr.addr.family = .v4 &&
    !pr.addr.isUnspecified && !pr.addr.isMulticast && 8 ≤ pr.bits

/-- The loop body of `Validate`: a source overlaps none before it. -/
def admitSource (prefixes : List IpPrefix) (s : String) : Option (List IpPrefix) :=
  (validSource s).bind fun pr =>
    if prefixes.any fun old => old.overlaps pr then none else some (prefixes ++ [pr])

def Policy.validate (p : Policy) : Bool :=
  p.version = 1 && identifier p.epoch && identifier p.interface && p.interface.utf8ByteSize ≤ 15 &&
    identifier p.managedBy && digest p.policySHA256 && digest p.profileSHA256 &&
    p.managedSources ≠ [] && p.managedSources.length ≤ maxSources &&
    p.retainedSources.any (fun l => l.length ≤ maxSources) && validListener p.listener &&
    ((p.managedSources ++ p.retainedSources.getD []).foldlM admitSource []).isSome

def Policy.isManaged (p : Policy) (a : Addr) : Bool :=
  p.managedSources.any fun s => (parsePrefix s).any fun pr => pr.contains (unmap a)

def span (q : IpPrefix) : ℕ × ℕ := (q.addr.value, q.addr.value + 2 ^ (32 - q.bits) - 1)

/-- The loop of `Covers`, from the next address that is not covered yet. -/
def sweep (last : ℕ) : ℕ → List (ℕ × ℕ) → Bool
  | _, [] => false
  | next, r :: rest =>
    if r.2 < next then sweep last next rest
    else if next < r.1 then false
    else if last < r.2 + 1 then true
    else sweep last (r.2 + 1) rest

/-- `Policy.Covers`. First addresses differ, so there is one order to sort by them. -/
def Policy.covers (p : Policy) (pr : IpPrefix) : Bool :=
  p.validate && pr.addr.family = .v4 && pr = pr.masked &&
    sweep (span pr).2 (span pr).1
      (((p.managedSources.filterMap parsePrefix).map span).insertionSort fun r r' => r.1 ≤ r'.1)

/-! ## The sweep -/

/-- A sweep decides whether all addresses up to the last are in some range. -/
theorem sweep_iff {last : ℕ} {ranges : List (ℕ × ℕ)}
    (hsort : ranges.Pairwise fun r r' => r.1 ≤ r'.1) {next : ℕ} (hnext : next ≤ last) :
    sweep last next ranges = true ↔
      ∀ x, next ≤ x → x ≤ last → ∃ r ∈ ranges, r.1 ≤ x ∧ x ≤ r.2 := by
  induction ranges generalizing next with
  | nil => simpa [sweep] using ⟨next, le_rfl, hnext⟩
  | cons r rest ih =>
    obtain ⟨hfirst, hrest⟩ := pairwise_cons.mp hsort
    simp only [exists_mem_cons_iff]
    rw [sweep]
    split
    · rename_i hpast
      rw [ih hrest hnext]
      refine forall_congr' fun x => imp_congr_right fun hx => imp_congr_right fun _ => ?_
      exact ⟨.inr, fun h => h.resolve_left fun hr => by omega⟩
    split
    · rename_i hgap
      refine iff_of_false Bool.false_ne_true fun hall => ?_
      rcases hall next le_rfl hnext with hr | ⟨r', hr', hlow, -⟩
      · omega
      · have hstart := hfirst r' hr'
        omega
    · split_ifs with hmore
      · exact iff_of_true rfl fun x hx hlast => .inl (by omega)
      · rw [ih hrest (by omega)]
        constructor
        · intro hall x hx hlast
          by_cases hin : x ≤ r.2
          · exact .inl (by omega)
          · exact .inr (hall x (by omega) hlast)
        · intro hall x hx hlast
          exact (hall x (by omega) hlast).resolve_left (by omega)

variable {q : IpPrefix}

section

variable (hfamily : q.addr.family = .v4) (hmasked : q = q.masked)
include hfamily hmasked

theorem masked_value : q.addr.value = q.addr.value / 2 ^ (32 - q.bits) * 2 ^ (32 - q.bits) := by
  have hvalue := congrArg (fun p : IpPrefix => p.addr.value) hmasked
  simpa only [IpPrefix.masked, keepBits, Addr.bitLen, hfamily, Family.width] using hvalue

theorem contains_iff (a : Addr) :
    q.contains a = true ↔ a.family = .v4 ∧ (span q).1 ≤ a.value ∧ a.value ≤ (span q).2 := by
  have hwidth : q.addr.bitLen = 32 := by rw [Addr.bitLen, hfamily]; rfl
  have hvalue := masked_value hfamily hmasked
  rw [IpPrefix.contains, decide_eq_true_eq, hfamily, hwidth, eq_comm, @eq_comm ℕ, span]
  refine and_congr_right fun _ => ?_
  rw [Nat.div_eq_iff (Nat.two_pow_pos _), ← hvalue]

theorem span_fits : (span q).2 < 2 ^ 32 := by
  have hfits := q.addr.fits
  rw [hfamily] at hfits
  have hbits : 2 ^ (32 - q.bits) * 2 ^ (32 - (32 - q.bits)) = 2 ^ 32 := by
    rw [← pow_add]
    congr 1
    omega
  have hblock : q.addr.value / 2 ^ (32 - q.bits) < 2 ^ (32 - (32 - q.bits)) :=
    Nat.div_lt_of_lt_mul (hbits ▸ hfits)
  have hnext := Nat.mul_le_mul_left (2 ^ (32 - q.bits)) (Nat.succ_le_of_lt hblock)
  rw [hbits, Nat.mul_succ, Nat.mul_comm, ← masked_value hfamily hmasked] at hnext
  unfold span
  omega

end

theorem overlaps_of_contains {p : IpPrefix} {a : Addr} (hp : p.contains a = true)
    (hq : q.contains a = true) :
    p.overlaps q = true := by
  simp only [IpPrefix.contains, decide_eq_true_eq] at hp hq
  have hfamily : p.addr.family = q.addr.family := hp.1.trans hq.1.symm
  have hlen : q.addr.bitLen = p.addr.bitLen := by rw [Addr.bitLen, Addr.bitLen, hfamily]
  -- equal leading bits stay equal when fewer of them are read
  have hcoarse : ∀ {x y m k : ℕ}, m ≤ k → x / 2 ^ m = y / 2 ^ m → x / 2 ^ k = y / 2 ^ k := by
    intro x y m k hmk h
    obtain ⟨d, rfl⟩ := Nat.exists_eq_add_of_le hmk
    rw [pow_add, ← Nat.div_div_eq_div_mul, ← Nat.div_div_eq_div_mul, h]
  rw [hlen] at hq
  rw [IpPrefix.overlaps, decide_eq_true_eq]
  exact ⟨hfamily, (hcoarse (by omega) hp.2).trans (hcoarse (by omega) hq.2).symm⟩

/-! ## Validated policies -/

theorem admit_apart {sources : List String} {before after : List IpPrefix}
    (h : sources.foldlM admitSource before = some after)
    (hbefore : before.Pairwise fun p q => p.overlaps q = false) :
    (after.Pairwise fun p q => p.overlaps q = false) ∧
      ∃ new, after = before ++ new ∧ sources.map validSource = new.map some := by
  induction sources generalizing before with
  | nil =>
    cases h
    exact ⟨hbefore, [], (append_nil _).symm, rfl⟩
  | cons s sources ih =>
    rw [foldlM_cons] at h
    obtain ⟨next, hnext, hrest⟩ := Option.bind_eq_some_iff.mp h
    obtain ⟨pr, hpr, hnext⟩ := Option.bind_eq_some_iff.mp hnext
    split at hnext
    · cases hnext
    rename_i hclear
    cases hnext
    have hclear' : ∀ old ∈ before, old.overlaps pr = false := by simpa using hclear
    obtain ⟨hafter, new, rfl, hnew⟩ := ih hrest (pairwise_append.mpr
      ⟨hbefore, pairwise_singleton _ _, fun old hold q hq => by
        rw [mem_singleton.mp hq]
        exact hclear' old hold⟩)
    exact ⟨hafter, pr :: new, by simp, by rw [map_cons, map_cons, hpr, hnew]⟩

/-- What the policy decides about addresses. -/
structure Exact (p : Policy) : Prop where
  /-- A prefix is covered when each of its addresses is managed. -/
  covers : ∀ pr, pr.addr.family = .v4 → pr = pr.masked →
    (p.covers pr = true ↔ ∀ a, pr.contains a = true → p.isManaged a = true)
  apart : ∀ a, p.isManaged a = true → ∀ s ∈ p.retainedSources.getD [], ∀ q,
    parsePrefix s = some q → q.contains (unmap a) = false

theorem validSource_some {s : String} (h : validSource s = some q) :
    parsePrefix s = some q ∧ q.addr.family = .v4 ∧ q = q.masked := by
  obtain ⟨hparse, hchecks⟩ := Option.filter_eq_some_iff.mp h
  simp only [Bool.and_eq_true, decide_eq_true_eq] at hchecks
  exact ⟨hparse, hchecks.1.1.1.2, hchecks.1.1.1.1.2⟩

/-- A valid policy decides about addresses and prefixes exactly. -/
theorem validate_exact (p : Policy) (h : p.validate = true) : Exact p := by
  have hloop := (Bool.and_eq_true_iff.mp h).2
  obtain ⟨after, hafter⟩ := Option.isSome_iff_exists.mp hloop
  obtain ⟨hapart, new, rfl, hnew⟩ := admit_apart hafter List.Pairwise.nil
  rw [map_append] at hnew
  obtain ⟨managed, retained, rfl, hmanaged, hretained⟩ := append_eq_map_iff.mp hnew
  have hsource : ∀ s ∈ p.managedSources, ∃ q ∈ managed,
    parsePrefix s = some q ∧ q.addr.family = .v4 ∧ q = q.masked := by
    intro s hs
    obtain ⟨q, hq, hvalid⟩ := mem_map.mp (hmanaged ▸ mem_map_of_mem (f := validSource) hs)
    exact ⟨q, hq, validSource_some hvalid.symm⟩
  have hkept : ∀ s ∈ p.retainedSources.getD [], ∃ q ∈ retained, parsePrefix s = some q := by
    intro s hs
    obtain ⟨q, hq, hvalid⟩ := mem_map.mp (hretained ▸ mem_map_of_mem (f := validSource) hs)
    exact ⟨q, hq, (validSource_some hvalid.symm).1⟩
  have hasked : ∀ a, p.isManaged a = true ↔
      ∃ s ∈ p.managedSources, ∃ q, parsePrefix s = some q ∧ q.contains (unmap a) = true := by
    intro a
    simp only [Policy.isManaged, any_eq_true, Option.any_eq_true]
  constructor
  · intro pr hfamily hmasked
    have hpos := Nat.two_pow_pos (32 - pr.bits)
    have hle : (span pr).1 ≤ (span pr).2 := by
      unfold span
      omega
    have hcovers : p.covers pr = true ↔ sweep (span pr).2 (span pr).1 (((p.managedSources.filterMap
        parsePrefix).map span).insertionSort fun r r' => r.1 ≤ r'.1) = true := by
      rw [Policy.covers, h, decide_eq_true hfamily, decide_eq_true hmasked]
      rfl
    rw [hcovers, sweep_iff (pairwise_insertionSort _ _) hle]
    have hv4 : ∀ a : Addr, a.family = .v4 → unmap a = a :=
      fun a ha => if_neg (by simp [Addr.is4In6, ha])
    constructor
    · intro hranges a ha
      obtain ⟨hfour, hlow, hhigh⟩ := (contains_iff hfamily hmasked a).mp ha
      obtain ⟨r, hr, hin⟩ := hranges a.value hlow hhigh
      obtain ⟨q, hq, rfl⟩ := mem_map.mp ((mem_insertionSort _).mp hr)
      obtain ⟨s, hs, hparse⟩ := mem_filterMap.mp hq
      obtain ⟨m, -, hparse', hchecks⟩ := hsource s hs
      cases hparse.symm.trans hparse'
      rw [hasked, hv4 a hfour]
      exact ⟨s, hs, q, hparse, (contains_iff hchecks.1 hchecks.2 a).mpr ⟨hfour, hin⟩⟩
    · intro hall x hlow hhigh
      have hx := hall ⟨.v4, x, hhigh.trans_lt (span_fits hfamily hmasked)⟩
        ((contains_iff hfamily hmasked _).mpr ⟨rfl, hlow, hhigh⟩)
      rw [hasked, hv4 _ rfl] at hx
      obtain ⟨s, hs, q, hparse, hin⟩ := hx
      obtain ⟨m, -, hparse', hchecks⟩ := hsource s hs
      cases hparse.symm.trans hparse'
      refine ⟨span q, (mem_insertionSort _).mpr (mem_map_of_mem ?_),
        ((contains_iff hchecks.1 hchecks.2 _).mp hin).2⟩
      exact mem_filterMap.mpr ⟨s, hs, hparse⟩
  · intro a hmanaged' s hs q hq
    obtain ⟨s', hs', q', hq', hin⟩ := (hasked a).mp hmanaged'
    obtain ⟨m, hm, hparse, -⟩ := hsource s' hs'
    obtain ⟨r, hr, hparse'⟩ := hkept s hs
    cases hq'.symm.trans hparse
    cases hq.symm.trans hparse'
    by_contra hcommon
    have hoverlap := overlaps_of_contains hin (Bool.of_not_eq_false hcommon)
    rw [(pairwise_append.mp hapart).2.2 q' hm q hr] at hoverlap
    cases hoverlap

/-- Two adjacent managed prefixes and a retained one. -/
def samplePolicy : Policy :=
  ⟨1, "epoch-1", "wg0", "hub", String.ofList (List.replicate 64 'a'), String.ofList
    (List.replicate 64 'b'), "10.0.0.1:1080", ["10.1.128.0/17", "10.1.0.0/17"],
    some ["10.2.0.0/16"]⟩

/-- Two adjacent halves cover the prefix that they make up. -/
theorem validate_exact_adjacent : samplePolicy.validate = true ∧ Exact samplePolicy ∧
    (parsePrefix "10.1.0.0/16").any samplePolicy.covers = true :=
  ⟨by decide +kernel, validate_exact samplePolicy (by decide +kernel), by decide +kernel⟩

end DaxiangVpn.ProxyGatePolicy
