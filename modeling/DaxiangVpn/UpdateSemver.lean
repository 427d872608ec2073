import DaxiangVpn.UpdateVersions
import Mathlib.Data.Sum.Order
import Mathlib.Order.WithBot

/-!
# Semantic versions

`parseVersion` reads the versions of SemVer 2.0 within fixed bounds, and `compareVersion` is the
precedence of SemVer 2.0. A numeric identifier counts as a natural number of any size, although the
comparison looks at its length and text only.
-/

namespace DaxiangVpn.UpdateSemver

open UpdateVersions List Nat

/-! ## SemVer 2.0 -/

/-- A numeric identifier is zero or has no zero in front. -/
def NumericId (s : List Char) : Prop :=
  s ≠ [] ∧ (∀ c ∈ s, isDigit c = true) ∧ (s.head? = some '0' → s = ['0'])

def AlphanumericId (s : List Char) : Prop :=
  (∀ c ∈ s, isIdChar c = true) ∧ ∃ c ∈ s, isDigit c = false

/-- A prerelease identifier. -/
def PreId (s : List Char) : Prop := NumericId s ∨ AlphanumericId s

/-- A build identifier: an alphanumeric one or digits. -/
def BuildId (s : List Char) : Prop := s ≠ [] ∧ ∀ c ∈ s, isIdChar c = true

/-- Identifiers with dots between them. -/
def dotted (ids : List (List Char)) : List Char := ['.'].intercalate ids

/-- Optional identifiers after their mark. -/
def marked (mark : Char) (ids : List (List Char)) : List Char :=
  if ids = [] then [] else mark :: dotted ids

structure Parts where
  major : List Char
  minor : List Char
  patch : List Char
  pre : List (List Char)
  build : List (List Char)

def Parts.text (p : Parts) : List Char :=
  dotted [p.major, p.minor, p.patch] ++ marked '-' p.pre ++ marked '+' p.build

/-- The parts are those of a version of SemVer 2.0. -/
structure Parts.Valid (p : Parts) : Prop where
  core : ∀ s ∈ [p.major, p.minor, p.patch], NumericId s
  pre : ∀ id ∈ p.pre, PreId id
  build : ∀ id ∈ p.build, BuildId id

/-- At most eight identifiers of at most sixty-four bytes. -/
def Few (ids : List (List Char)) : Prop := ids.length ≤ 8 ∧ ∀ id ∈ ids, id.length ≤ 64

structure Parts.Bounded (p : Parts) : Prop where
  core : ∀ s ∈ [p.major, p.minor, p.patch], natOf s < 2 ^ 32
  pre : Few p.pre
  build : Few p.build

def Parts.version (p : Parts) : Version := ⟨natOf p.major, natOf p.minor, natOf p.patch, p.pre⟩

/-- Numbers come before texts. -/
abbrev Identifier := ℕ ⊕ₗ List Char

def identifier (s : List Char) : Identifier := if numeric s then Sum.inlₗ (natOf s) else Sum.inrₗ s

/-- A release comes after all of its prereleases. -/
def preRank (pre : List (List Char)) : WithTop (List Identifier) :=
  if pre = [] then ⊤ else WithTop.some (pre.map identifier)

/-- The precedence of SemVer 2.0. -/
def Parts.rank (p : Parts) : ℕ ×ₗ ℕ ×ₗ ℕ ×ₗ WithTop (List Identifier) :=
  toLex (natOf p.major, toLex (natOf p.minor, toLex (natOf p.patch, preRank p.pre)))

/-! ## Texts -/

variable {s main core : List Char} {ids : List (List Char)}

variable {c : Char}

theorem not_mem_dotted (hc : c ≠ '.') (h : ∀ id ∈ ids, c ∉ id) : c ∉ dotted ids := by
  unfold dotted
  induction ids with
  | nil => exact not_mem_nil
  | cons x ids ih =>
    rw [forall_mem_cons] at h
    cases ids with
    | nil => simpa using h.1
    | cons =>
      rw [intercalate_cons_cons, mem_append, mem_append, mem_singleton]
      rintro ((hx | hdot) | hrest)
      · exact h.1 hx
      · exact hc hdot
      · exact ih h.2 hrest

theorem splitOn_dotted (h : ∀ id ∈ ids, '.' ∉ id) (hne : ids ≠ []) :
    (dotted ids).splitOn '.' = ids :=
  splitOn_intercalate '.' h hne

theorem isIdChar_of_isDigit (h : isDigit c = true) : isIdChar c = true := by
  simp [isIdChar, h]

theorem PreId.chars (h : PreId s) : ∀ c ∈ s, isIdChar c = true := by
  rcases h with h | h
  · exact fun c hc => isIdChar_of_isDigit (h.2.1 c hc)
  · exact h.1

theorem not_mem_of_chars {p : Char → Bool} (hc : p c = false) (h : ∀ d ∈ s, p d = true) :
    c ∉ s := by
  intro hmem
  rw [h c hmem] at hc
  cases hc

theorem numericId_iff : NumericId s ↔ numeric s = true ∧ padded s = false := by
  cases s with
  | nil => simp [NumericId, numeric]
  | cons c t => cases t <;> simp [NumericId, numeric, padded]

theorem numeric_of_numericId (h : NumericId s) : numeric s = true := (numericId_iff.mp h).1

theorem numeric_of_alphanumericId (h : AlphanumericId s) : numeric s = false := by
  obtain ⟨c, hc, hdigit⟩ := h.2
  have hall : s.all isDigit = false := by
    rw [all_eq_false]
    exact ⟨c, hc, by simp [hdigit]⟩
  rw [numeric, hall, Bool.and_false]

/-- The checks of a prerelease identifier are those of the grammar. -/
theorem preId_iff :
    PreId s ↔ s ≠ [] ∧ (numeric s = true → padded s = false) ∧ ∀ c ∈ s, isIdChar c = true := by
  constructor
  · intro h
    refine ⟨?_, ?_, h.chars⟩
    · rcases h with h | ⟨-, c, hc, -⟩
      · exact h.1
      · exact ne_nil_of_mem hc
    · intro hnumeric
      rcases h with h | h
      · exact (numericId_iff.mp h).2
      · rw [numeric_of_alphanumericId h] at hnumeric
        cases hnumeric
  · rintro ⟨hne, hpadded, hchars⟩
    by_cases hnumeric : numeric s = true
    · exact .inl (numericId_iff.mpr ⟨hnumeric, hpadded hnumeric⟩)
    · refine .inr ⟨hchars, ?_⟩
      simpa [numeric, hne] using hnumeric

theorem parseNumber_iff {n : ℕ} :
    parseNumber s = some n ↔ NumericId s ∧ natOf s < 2 ^ 32 ∧ natOf s = n := by
  rw [numericId_iff]
  unfold parseNumber
  split <;> simp_all

/-- Identifiers that `validVersionIDs` accepts. -/
def Ids (prerelease : Bool) (ids : List (List Char)) : Prop :=
  Few ids ∧ ∀ id ∈ ids, if prerelease then PreId id else BuildId id

variable {prerelease : Bool}

theorem validVersionIDs_iff :
    validVersionIDs s prerelease = true ↔ Ids prerelease (s.splitOn '.') := by
  unfold validVersionIDs Ids Few
  cases prerelease
  · simp only [BuildId]
    simp
    grind
  · simp only [preId_iff]
    simp
    grind

theorem Ids.chars (h : Ids prerelease ids) : ∀ id ∈ ids, ∀ c ∈ id, isIdChar c = true := by
  intro id hid
  have hone := h.2 id hid
  cases prerelease with
  | false => exact hone.2
  | true => exact PreId.chars hone

theorem Ids.splitOn (h : Ids prerelease ids) (hne : ids ≠ []) : (dotted ids).splitOn '.' = ids :=
  splitOn_dotted (fun id hid => not_mem_of_chars (by decide) (h.chars id hid)) hne

theorem Ids.not_mem (h : Ids prerelease ids) {mark : Char} (hmark : c ≠ mark)
    (hdot : c ≠ '.') (hc : isIdChar c = false) : c ∉ marked mark ids := by
  unfold marked
  split
  · exact not_mem_nil
  · rw [mem_cons, not_or]
    exact ⟨hmark, not_mem_dotted hdot fun id hid => not_mem_of_chars hc (h.chars id hid)⟩

theorem Ids.nil (prerelease : Bool) : Ids prerelease [] := by
  simp [Ids, Few]

theorem marked_splitOn (mark : Char) (s : List Char) : marked mark (s.splitOn '.') = mark :: s := by
  rw [marked, if_neg (splitOn_ne_nil _ _), dotted, intercalate_splitOn]

theorem cutBuild_some (h : cutBuild s = some main) :
    ∃ build, Ids false build ∧ s = main ++ marked '+' build := by
  have hs : ['+'].intercalate (s.splitOn '+') = s := intercalate_splitOn '+'
  unfold cutBuild at h
  split at h
  · rename_i hsplit
    cases h
    rw [hsplit] at hs
    exact ⟨[], Ids.nil _, by simpa [marked] using hs.symm⟩
  · rename_i build hsplit
    split at h
    · rename_i hvalid
      cases h
      refine ⟨build.splitOn '.', validVersionIDs_iff.mp hvalid, ?_⟩
      rw [marked_splitOn, ← hs, hsplit]
      simp
    · cases h
  · cases h

theorem cutBuild_marked (hmain : '+' ∉ main) {build : List (List Char)} (h : Ids false build) :
    cutBuild (main ++ marked '+' build) = some main := by
  by_cases hne : build = []
  · have hsplit : main.splitOn '+' = [main] := by
      simpa using splitOn_intercalate '+' (by simpa using hmain) (cons_ne_nil main [])
    rw [hne, marked, if_pos rfl, append_nil, cutBuild, hsplit]
  have hbuild : '+' ∉ dotted build :=
    not_mem_dotted (by decide) fun id hid => not_mem_of_chars (by decide) (h.chars id hid)
  have hsplit : (main ++ '+' :: dotted build).splitOn '+' = [main, dotted build] := by
    simpa using splitOn_intercalate '+' (by simpa using ⟨hmain, hbuild⟩)
      (cons_ne_nil main [dotted build])
  have hvalid : validVersionIDs (dotted build) false = true := by
    rw [validVersionIDs_iff, h.splitOn hne]
    exact h
  rw [marked, if_neg hne, cutBuild, hsplit]
  exact if_pos hvalid

/-- Optional identifiers without their mark. -/
def optional (ids : List (List Char)) : Option (List Char) :=
  if ids = [] then none else some (dotted ids)

theorem parsePre_iff {o : Option (List Char)} :
    parsePre o = some ids ↔ o = optional ids ∧ Ids true ids := by
  constructor
  · intro h
    cases o with
    | none =>
      cases h
      exact ⟨rfl, Ids.nil _⟩
    | some =>
      rw [parsePre] at h
      split at h
      · rename_i hvalid
        cases h
        refine ⟨?_, validVersionIDs_iff.mp hvalid⟩
        rw [optional, if_neg (splitOn_ne_nil _ _), dotted, intercalate_splitOn]
      · cases h
  · rintro ⟨rfl, h⟩
    unfold optional
    by_cases hne : ids = []
    · rw [if_pos hne, hne]
      rfl
    · have hsplit := h.splitOn hne
      rw [if_neg hne, parsePre, hsplit]
      exact if_pos (validVersionIDs_iff.mpr (hsplit.symm ▸ h))

theorem before_hyphen (h : '-' ∉ core) : ∀ c ∈ core, decide (c ≠ '-') = true := fun _ hc =>
  decide_eq_true fun heq => h (heq ▸ hc)

theorem cutHyphen_append (h : '-' ∉ core) (s : List Char) :
    cutHyphen (core ++ '-' :: s) = (core, some s) := by
  have hall := before_hyphen h
  rw [cutHyphen, takeWhile_append_of_pos hall, dropWhile_append_of_pos hall, if_pos (by simp)]
  simp

theorem cutHyphen_self (h : '-' ∉ core) : cutHyphen core = (core, none) := by
  have htake : (core ++ []).takeWhile (· ≠ '-') = core ++ [].takeWhile (· ≠ '-') :=
    takeWhile_append_of_pos (before_hyphen h)
  rw [cutHyphen, if_neg h]
  simpa using htake

theorem cutHyphen_marked (h : '-' ∉ core) :
    cutHyphen (core ++ marked '-' ids) = (core, optional ids) := by
  unfold marked optional
  by_cases hne : ids = []
  · rw [if_pos hne, if_pos hne, append_nil]
    exact cutHyphen_self h
  · rw [if_neg hne, if_neg hne]
    exact cutHyphen_append h _

theorem cutHyphen_some (h : (cutHyphen main).2 = optional ids) :
    main = (cutHyphen main).1 ++ marked '-' ids := by
  unfold optional at h
  by_cases hmem : '-' ∈ main
  · obtain ⟨core, s, rfl, hcore⟩ := eq_append_cons_of_mem hmem
    rw [cutHyphen_append hcore] at h ⊢
    split at h
    · cases h
    · rename_i hne
      cases h
      rw [marked, if_neg hne]
  · rw [cutHyphen_self hmem] at h ⊢
    split at h
    · rename_i hne
      rw [marked, if_pos hne, append_nil]
    · cases h

/-- The texts that are read are versions of SemVer 2.0. -/
theorem parseVersion_some {s : String} {v : Version} (h : parseVersion s = some v) :
    ∃ p : Parts, p.Valid ∧ p.Bounded ∧ s.toList = p.text ∧ s.utf8ByteSize ≤ 128 ∧
    v = p.version := by
  unfold parseVersion at h
  split at h
  · cases h
  rename_i hsize
  simp only [Option.bind_eq_bind, Option.bind_eq_some_iff] at h
  obtain ⟨main, hmain, pre, hpre, h⟩ := h
  split at h
  · rename_i major minor patch hsplit
    simp only [Option.bind_eq_some_iff, parseNumber_iff] at h
    obtain ⟨_, ⟨hmajor, hmajorLt, rfl⟩, _, ⟨hminor, hminorLt, rfl⟩, _,
      ⟨hpatch, hpatchLt, rfl⟩, hv⟩ := h
    obtain ⟨build, hbuild, hs⟩ := cutBuild_some hmain
    obtain ⟨hhyphen, hids⟩ := parsePre_iff.mp hpre
    have hcore : (cutHyphen main).1 = dotted [major, minor, patch] := by
      rw [← hsplit, dotted, intercalate_splitOn]
    refine ⟨⟨major, minor, patch, pre, build⟩, ⟨?_, hids.2, hbuild.2⟩,
      ⟨?_, hids.1, hbuild.1⟩, ?_, by omega, ?_⟩
    · simp [hmajor, hminor, hpatch]
    · simpa using ⟨hmajorLt, hminorLt, hpatchLt⟩
    · rw [hs, cutHyphen_some hhyphen, hcore]
      rfl
    · cases hv
      rfl
  · cases h

theorem Parts.Valid.not_mem_core {p : Parts} (h : p.Valid) (hdot : c ≠ '.')
    (hc : isDigit c = false) :
    c ∉ dotted [p.major, p.minor, p.patch] :=
  not_mem_dotted hdot fun s hs => not_mem_of_chars hc (h.core s hs).2.1

theorem parseVersion_text {s : String} {p : Parts} (hvalid : p.Valid) (hbounded : p.Bounded)
    (hs : s.toList = p.text) (hsize : s.utf8ByteSize ≤ 128) : parseVersion s = some p.version := by
  have hpre : Ids true p.pre := ⟨hbounded.pre, hvalid.pre⟩
  have hbuild : Ids false p.build := ⟨hbounded.build, hvalid.build⟩
  have hne : s.utf8ByteSize ≠ 0 := by
    intro hzero
    rw [String.utf8ByteSize_eq_zero_iff.mp hzero] at hs
    simp [Parts.text, dotted] at hs
  have hmain : cutBuild s.toList = some (dotted [p.major, p.minor, p.patch] ++
    marked '-' p.pre) := by
    rw [hs]
    refine cutBuild_marked ?_ hbuild
    rw [mem_append, not_or]
    exact ⟨hvalid.not_mem_core (by decide) (by decide), hpre.not_mem (by decide)
      (by decide) (by decide)⟩
  have hsplit : (dotted [p.major, p.minor, p.patch]).splitOn '.' = [p.major, p.minor, p.patch] :=
    splitOn_dotted (fun s hs => not_mem_of_chars (by decide) (hvalid.core s hs).2.1)
      (cons_ne_nil _ _)
  have hnumber : ∀ s ∈ [p.major, p.minor, p.patch], parseNumber s = some (natOf s) := fun s hs =>
    parseNumber_iff.mpr ⟨hvalid.core s hs, hbounded.core s hs, rfl⟩
  have hmajor := hnumber p.major (by simp)
  have hminor := hnumber p.minor (by simp)
  have hpatch := hnumber p.patch (by simp)
  unfold parseVersion
  rw [if_neg (by omega)]
  simp only [Option.bind_eq_bind, hmain, Option.bind_some,
    cutHyphen_marked (hvalid.not_mem_core (c := '-') (by decide) (by decide)),
    parsePre_iff.mpr ⟨rfl, hpre⟩, hsplit, hmajor, hminor, hpatch]
  rfl

/-! ## Numbers -/

theorem natOf_foldl (s : List Char) (n : ℕ) :
    s.foldl (fun n c => 10 * n + (c.toNat - '0'.toNat)) n = n * 10 ^ s.length + natOf s := by
  induction s generalizing n with
  | nil => simp [natOf]
  | cons c s ih =>
    rw [natOf, foldl_cons, foldl_cons, ih, ih, length_cons, pow_succ]
    ring

theorem natOf_cons (c : Char) (s : List Char) :
    natOf (c :: s) = (c.toNat - '0'.toNat) * 10 ^ s.length + natOf s := by
  rw [natOf, foldl_cons, natOf_foldl, mul_zero, zero_add]

theorem digit_toNat (h : isDigit c = true) : '0'.toNat ≤ c.toNat ∧ c.toNat ≤ '9'.toNat := by
  simpa [isDigit, Char.le_def, UInt32.le_iff_toNat_le] using h

theorem natOf_lt (h : ∀ c ∈ s, isDigit c = true) : natOf s < 10 ^ s.length := by
  induction s with
  | nil => simp [natOf]
  | cons c s ih =>
    have hc := digit_toNat (h c mem_cons_self)
    have hs := ih fun d hd => h d (mem_cons_of_mem _ hd)
    have hdigit : c.toNat - '0'.toNat ≤ 9 := by
      have hnine : '9'.toNat = '0'.toNat + 9 := rfl
      omega
    calc natOf (c :: s) = (c.toNat - '0'.toNat) * 10 ^ s.length + natOf s := natOf_cons c s
      _ < 9 * 10 ^ s.length + 10 ^ s.length :=
        add_lt_add_of_le_of_lt (mul_le_mul_right _ hdigit) hs
      _ = 10 ^ (c :: s).length := by
        rw [length_cons, pow_succ]
        ring

variable {x y : List Char}

theorem natOf_cons_lt {d : Char} (hc : isDigit c = true) (hx : ∀ e ∈ x, isDigit e = true)
    (hlength : x.length = y.length) (h : c < d) : natOf (c :: x) < natOf (d :: y) := by
  have hvalue : c.toNat - '0'.toNat + 1 ≤ d.toNat - '0'.toNat := by
    have hlt : c.toNat < d.toNat := h
    have hzero := (digit_toNat hc).1
    omega
  calc natOf (c :: x) = (c.toNat - '0'.toNat) * 10 ^ x.length + natOf x := natOf_cons c x
    _ < (c.toNat - '0'.toNat) * 10 ^ x.length + 10 ^ x.length := Nat.add_lt_add_left (natOf_lt hx) _
    _ = (c.toNat - '0'.toNat + 1) * 10 ^ y.length := by rw [succ_mul, hlength]
    _ ≤ (d.toNat - '0'.toNat) * 10 ^ y.length := mul_le_mul_right _ hvalue
    _ ≤ natOf (d :: y) := (natOf_cons d y).symm ▸ le_add_right _ _

theorem order_natOf (hx : ∀ c ∈ x, isDigit c = true) (hy : ∀ c ∈ y, isDigit c = true)
    (hlength : x.length = y.length) : order x y = order (natOf x) (natOf y) := by
  induction x generalizing y with
  | nil =>
    rw [eq_nil_of_length_eq_zero hlength.symm, (order_compares _ _).eq_eq.mpr rfl,
      (order_compares _ _).eq_eq.mpr rfl]
  | cons c x ih =>
    cases y with
    | nil => cases hlength
    | cons d y =>
      rw [forall_mem_cons] at hx hy
      have htail : x.length = y.length := Nat.succ.inj hlength
      rw [order_cons]
      rcases lt_trichotomy c d with h | h | h
      · rw [(order_compares _ _).eq_lt.mpr h,
          (order_compares _ _).eq_lt.mpr (natOf_cons_lt hx.1 hx.2 htail h)]
        rfl
      · rw [h, (order_compares _ _).eq_eq.mpr rfl, Ordering.eq_then, ih hx.2 hy.2 htail, natOf_cons,
          natOf_cons, htail]
        exact (cmp_add_left _ _ _).symm
      · rw [(order_compares _ _).eq_gt.mpr h,
          (order_compares _ _).eq_gt.mpr (natOf_cons_lt hy.1 hy.2 htail.symm h)]
        rfl

/-- A longer number without a zero in front is larger. -/
theorem natOf_lt_of_length (hx : NumericId x) (hy : NumericId y) (h : x.length < y.length) :
    natOf x < natOf y := by
  cases y with
  | nil => cases h
  | cons d y =>
    have hpos : 0 < x.length := length_pos_iff.mpr hx.1
    have hzero : d ≠ '0' := by
      intro hd
      have hone := congrArg List.length (hy.2.2 (congrArg some hd))
      simp only [length_cons, length_nil] at hone h
      omega
    have hvalue : 1 ≤ d.toNat - '0'.toNat := by
      have hle := (digit_toNat (hy.2.1 d mem_cons_self)).1
      have hne : d.toNat ≠ '0'.toNat := fun heq => hzero (Char.toNat_inj.mp heq)
      omega
    calc natOf x < 10 ^ x.length := natOf_lt hx.2.1
      _ ≤ 1 * 10 ^ y.length := by
        rw [one_mul]
        exact Nat.pow_le_pow_right (by decide) (Nat.lt_succ_iff.mp h)
      _ ≤ (d.toNat - '0'.toNat) * 10 ^ y.length := mul_le_mul_right _ hvalue
      _ ≤ natOf (d :: y) := (natOf_cons d y).symm ▸ le_add_right _ _

/-- The comparison by length and text is that of natural numbers. -/
theorem numericId_order (hx : NumericId x) (hy : NumericId y) :
    (order x.length y.length).then (order x y) = order (natOf x) (natOf y) := by
  rcases lt_trichotomy x.length y.length with h | h | h
  · rw [(order_compares _ _).eq_lt.mpr h, (order_compares _ _).eq_lt.mpr
      (natOf_lt_of_length hx hy h)]
    rfl
  · rw [h, (order_compares _ _).eq_eq.mpr rfl, Ordering.eq_then, order_natOf hx.2.1 hy.2.1 h]
  · rw [(order_compares _ _).eq_gt.mpr h, (order_compares _ _).eq_gt.mpr
      (natOf_lt_of_length hy hx h)]
    rfl

theorem natOf_injective (hx : NumericId x) (hy : NumericId y) (h : natOf x = natOf y) : x = y := by
  have horder := numericId_order hx hy
  rw [h, (order_compares _ _).eq_eq.mpr rfl, Ordering.then_eq_eq] at horder
  exact (order_compares _ _).eq_eq.mp horder.2

/-! ## Precedence -/

theorem identifier_order (hx : PreId x) (hy : PreId y) :
    order (idKey x) (idKey y) = order (identifier x) (identifier y) := by
  unfold idKey identifier
  rw [order_lex, order_lex]
  rcases hx with hx | hx
  · rw [numeric_of_numericId hx]
    rcases hy with hy | hy
    · rw [numeric_of_numericId hy, if_pos rfl, if_pos rfl, if_pos rfl, if_pos rfl,
        (order_compares _ _).eq_eq.mpr rfl, Ordering.eq_then, numericId_order hx hy]
      exact (Sum.Lex.inl_strictMono.cmp_map_eq _ _).symm
    · rw [numeric_of_alphanumericId hy]
      exact ((order_compares _ _).eq_lt.mpr (Sum.Lex.inl_lt_inr _ _)).symm
  · rw [numeric_of_alphanumericId hx]
    rcases hy with hy | hy
    · rw [numeric_of_numericId hy]
      exact ((order_compares _ _).eq_gt.mpr (Sum.Lex.inl_lt_inr _ _)).symm
    · rw [numeric_of_alphanumericId hy]
      exact (Sum.Lex.inr_strictMono.cmp_map_eq _ _).symm

theorem identifiers_order {xs ys : List (List Char)} (hxs : ∀ x ∈ xs, PreId x) (hys : ∀ y ∈ ys, PreId y) :
    order (xs.map idKey) (ys.map idKey) = order (xs.map identifier) (ys.map identifier) := by
  induction xs generalizing ys with
  | nil =>
    cases ys with
    | nil => rw [map_nil, map_nil, (order_compares _ _).eq_eq.mpr rfl, (order_compares _ _).eq_eq.mpr rfl]
    | cons => exact ((order_compares _ _).eq_lt.mpr (nil_lt_cons _ _)).trans ((order_compares _ _).eq_lt.mpr (nil_lt_cons _ _)).symm
  | cons x xs ih =>
    cases ys with
    | nil => exact ((order_compares _ _).eq_gt.mpr (nil_lt_cons _ _)).trans ((order_compares _ _).eq_gt.mpr (nil_lt_cons _ _)).symm
    | cons =>
      rw [forall_mem_cons] at hxs hys
      simp only [map_cons]
      rw [order_cons, order_cons, identifier_order hxs.1 hys.1, ih hxs.2 hys.2]

theorem compareVersion_rank {p q : Parts} (hp : p.Valid) (hq : q.Valid) :
    compareVersion p.version q.version = order p.rank q.rank := by
  have hpre : (order (if p.pre = [] then 1 else 0) (if q.pre = [] then 1 else 0)).then
        (order (p.pre.map idKey) (q.pre.map idKey)) = order (preRank p.pre) (preRank q.pre) := by
    unfold preRank
    by_cases hpn : p.pre = [] <;> by_cases hqn : q.pre = []
    · rw [hpn, hqn, (order_compares _ _).eq_eq.mpr rfl, (order_compares _ _).eq_eq.mpr rfl,
        (order_compares _ _).eq_eq.mpr rfl]
      rfl
    · rw [if_pos hpn, if_neg hqn, if_pos hpn, if_neg hqn]
      exact ((order_compares _ _).eq_gt.mpr (WithTop.coe_lt_top _)).symm
    · rw [if_neg hpn, if_pos hqn, if_neg hpn, if_pos hqn]
      exact ((order_compares _ _).eq_lt.mpr (WithTop.coe_lt_top _)).symm
    · rw [if_neg hpn, if_neg hqn, if_neg hpn, if_neg hqn, (order_compares _ _).eq_eq.mpr rfl,
        Ordering.eq_then, identifiers_order hp.pre hq.pre]
      exact (WithTop.coe_strictMono.cmp_map_eq _ _).symm
  rw [compareVersion_eq]
  unfold precedence Parts.rank Parts.version
  rw [order_lex, order_lex, order_lex, order_lex, hpre, order_lex, order_lex, order_lex]

theorem idKey_injective : Function.Injective idKey := by
  intro x y h
  exact congrArg (fun k => (ofLex (ofLex k).2).2) h

theorem compareVersion_same {p q : Parts} (hp : p.Valid) (hq : q.Valid)
    (h : compareVersion p.version q.version = .eq) : { p with build := q.build } = q := by
  have hkey := compareVersion_eq_eq.mp h
  have hmajor : natOf p.major = natOf q.major := congrArg (fun k => (ofLex k).1) hkey
  have hminor : natOf p.minor = natOf q.minor := congrArg (fun k => (ofLex (ofLex k).2).1) hkey
  have hpatch : natOf p.patch = natOf q.patch :=
    congrArg (fun k => (ofLex (ofLex (ofLex k).2).2).1) hkey
  have hpre : p.pre.map idKey = q.pre.map idKey :=
    congrArg (fun k => (ofLex (ofLex (ofLex (ofLex k).2).2).2).2) hkey
  cases p
  cases q
  simp only [Parts.mk.injEq]
  refine ⟨natOf_injective (hp.core _ (by simp)) (hq.core _ (by simp)) hmajor,
    natOf_injective (hp.core _ (by simp)) (hq.core _ (by simp)) hminor,
    natOf_injective (hp.core _ (by simp)) (hq.core _ (by simp)) hpatch,
    idKey_injective.list_map hpre, trivial⟩

/-- Version handling is that of SemVer 2.0. -/
structure Semver : Prop where
  /-- Exactly the versions within the bounds are read. -/
  accepts : ∀ s v, parseVersion s = some v ↔
    ∃ p : Parts, p.Valid ∧ p.Bounded ∧ s.toList = p.text ∧ s.utf8ByteSize ≤ 128 ∧ v = p.version
  compares : ∀ p q : Parts, p.Valid → q.Valid → compareVersion p.version q.version =
    cmp p.rank q.rank
  /-- The comparison the other way round is the opposite one. -/
  swap : ∀ a b, compareVersion b a = (compareVersion a b).swap
  trans : ∀ a b c, compareVersion a b ≠ .gt → compareVersion b c ≠ .gt → compareVersion a c ≠ .gt
  /-- Equal versions differ in their build metadata only. -/
  same : ∀ p q : Parts, p.Valid → q.Valid →
    (compareVersion p.version q.version = .eq ↔ { p with build := q.build } = q)

/-- Versions are read and compared as semantic versions. -/
theorem version_semver : Semver where
  accepts s v := by
    constructor
    · exact parseVersion_some
    · rintro ⟨p, hvalid, hbounded, hs, hsize, rfl⟩
      exact parseVersion_text hvalid hbounded hs hsize
  compares _ _ := compareVersion_rank
  swap a b := by
    rw [compareVersion_eq, compareVersion_eq]
    exact (cmp_swap _ _).symm
  trans a b c hab hbc := by
    rw [compareVersion_eq, Ne, (order_compares _ _).eq_gt, not_lt] at hab hbc ⊢
    exact hab.trans hbc
  same p q hp hq := by
    refine ⟨compareVersion_same hp hq, fun h => ?_⟩
    rw [← h, compareVersion_eq]
    exact (order_compares _ _).eq_eq.mpr rfl

end DaxiangVpn.UpdateSemver
