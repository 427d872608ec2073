import Mathlib.Data.List.Lex
import Mathlib.Data.Prod.Lex
import Mathlib.Data.Char
import Mathlib.Tactic

/-!
# Versions of updates

Versions are compared by major, minor and patch number, then by their prerelease identifiers. The
comparison is that of a linear order of precedences, so it is transitive; versions that differ in
their build metadata only have one precedence.
-/

namespace DaxiangVpn.UpdateVersions

/-! ## Reading -/

/-- A version without its build metadata. -/
structure Version where
  major : ℕ
  minor : ℕ
  patch : ℕ
  pre : List (List Char)

def isDigit (c : Char) : Bool := '0' ≤ c ∧ c ≤ '9'

def isIdChar (c : Char) : Bool := isDigit c || ('A' ≤ c ∧ c ≤ 'Z') || ('a' ≤ c ∧ c ≤ 'z') || c = '-'

def numeric (s : List Char) : Bool := s ≠ [] && s.all isDigit

/-- A number with a zero in front. -/
def padded (s : List Char) : Bool := 1 < s.length && s.head? = some '0'

/-- `validVersionIDs`. A character of more than one byte is refused anyway, so characters are
counted. -/
def validVersionIDs (s : List Char) (prerelease : Bool) : Bool :=
  (s.splitOn '.').length ≤ 8 && (s.splitOn '.').all fun id =>
    id ≠ [] && id.length ≤ 64 && !(prerelease && numeric id && padded id) && id.all isIdChar

/-- Value of decimal digits. -/
def natOf (s : List Char) : ℕ := s.foldl (fun n c => 10 * n + (c.toNat - '0'.toNat)) 0

/-- One number of a version, of thirty-two bits. -/
def parseNumber (s : List Char) : Option ℕ :=
  if numeric s && !padded s && natOf s < 2 ^ 32 then some (natOf s) else none

/-- Text around the first hyphen. -/
def cutHyphen (s : List Char) : List Char × Option (List Char) :=
  (s.takeWhile (· ≠ '-'), if '-' ∈ s then some ((s.dropWhile (· ≠ '-')).drop 1) else none)

/-- Text before the build metadata, when this is valid. -/
def cutBuild (s : List Char) : Option (List Char) :=
  match s.splitOn '+' with
  | [main] => some main
  | [main, build] => if validVersionIDs build false then some main else none
  | _ => none

/-- Prerelease identifiers, when they are valid. -/
def parsePre : Option (List Char) → Option (List (List Char))
  | none => some []
  | some s => if validVersionIDs s true then some (s.splitOn '.') else none

def parseVersion (s : String) : Option Version := do
  if s.utf8ByteSize = 0 ∨ 128 < s.utf8ByteSize then none
  let main ← cutBuild s.toList
  let pre ← parsePre (cutHyphen main).2
  match (cutHyphen main).1.splitOn '.' with
  | [major, minor, patch] => do
    let major ← parseNumber major
    let minor ← parseNumber minor
    let patch ← parseNumber patch
    some ⟨major, minor, patch, pre⟩
  | _ => none

/-! ## Comparison -/

/-- `cmp` in the linear order of the type; on lists, `cmp` alone would take the bare `<` of the core
library. -/
def order {α : Type} [LinearOrder α] (a b : α) : Ordering := cmp a b

/-- Two identifiers. -/
def compareId (x y : List Char) : Ordering :=
  if x = y then .eq
  else if numeric x && !numeric y then .lt
  else if !numeric x && numeric y then .gt
  else if numeric x && x.length ≠ y.length then (if x.length < y.length then .lt else .gt)
  else order x y

/-- Identifiers one by one; the shorter list comes first. -/
def compareIds : List (List Char) → List (List Char) → Ordering
  | [], [] => .eq
  | [], _ :: _ => .lt
  | _ :: _, [] => .gt
  | x :: xs, y :: ys =>
    match compareId x y with
    | .eq => compareIds xs ys
    | o => o

/-- Prereleases come before their release. -/
def comparePre (a b : List (List Char)) : Ordering :=
  if a = [] ∧ b = [] then .eq
  else if a = [] then .gt
  else if b = [] then .lt
  else compareIds a b

def compareVersion (a b : Version) : Ordering :=
  if a.major < b.major then .lt
  else if b.major < a.major then .gt
  else if a.minor < b.minor then .lt
  else if b.minor < a.minor then .gt
  else if a.patch < b.patch then .lt
  else if b.patch < a.patch then .gt
  else comparePre a.pre b.pre

/-! ## Precedence -/

/-- Precedence of an identifier: numbers come first, by length and then by text. -/
abbrev IdKey := ℕ ×ₗ ℕ ×ₗ List Char

abbrev Precedence := ℕ ×ₗ ℕ ×ₗ ℕ ×ₗ ℕ ×ₗ List IdKey

/-- Precedence of an identifier. -/
def idKey (x : List Char) : IdKey :=
  toLex (if numeric x then 0 else 1, toLex (if numeric x then x.length else 0, x))

/-- Precedence of a version: a release comes after its prereleases. -/
def precedence (v : Version) : Precedence :=
  toLex (v.major,
  toLex (v.minor, toLex (v.patch, toLex (if v.pre = [] then 1 else 0, v.pre.map idKey))))

section

variable {α β : Type} [LinearOrder α] [LinearOrder β]

theorem order_compares (a b : α) : (order a b).Compares a b := cmp_compares a b

/-- A comparison in a pair is that of the first parts, or of the second ones when they are equal. -/
theorem order_lex (a a' : α) (b b' : β) :
    order (toLex (a, b)) (toLex (a', b')) = (order a a').then (order b b') := by
  rcases lt_trichotomy a a' with h | h | h
  · rw [(order_compares _ _).eq_lt.mpr (Prod.Lex.toLex_lt_toLex.mpr (.inl h)),
      (order_compares _ _).eq_lt.mpr h]
    rfl
  · subst h
    rw [(order_compares _ _).eq_eq.mpr rfl, Ordering.eq_then]
    rcases lt_trichotomy b b' with h | h | h
    · have hlex : toLex (a, b) < toLex (a, b') := Prod.Lex.toLex_lt_toLex.mpr (.inr ⟨rfl, h⟩)
      rw [(order_compares _ _).eq_lt.mpr hlex, (order_compares _ _).eq_lt.mpr h]
    · rw [h, (order_compares _ _).eq_eq.mpr rfl, (order_compares _ _).eq_eq.mpr rfl]
    · have hlex : toLex (a, b') < toLex (a, b) := Prod.Lex.toLex_lt_toLex.mpr (.inr ⟨rfl, h⟩)
      rw [(order_compares _ _).eq_gt.mpr hlex, (order_compares _ _).eq_gt.mpr h]
  · rw [(order_compares _ _).eq_gt.mpr (Prod.Lex.toLex_lt_toLex.mpr (.inl h)),
      (order_compares _ _).eq_gt.mpr h]
    rfl

theorem order_cons (a b : α) (as bs : List α) :
    order (a :: as) (b :: bs) = (order a b).then (order as bs) := by
  rcases lt_trichotomy a b with h | h | h
  · rw [(order_compares _ _).eq_lt.mpr (List.cons_lt_cons_iff.mpr (.inl h)),
      (order_compares _ _).eq_lt.mpr h]
    rfl
  · subst h
    rw [(order_compares _ _).eq_eq.mpr rfl, Ordering.eq_then]
    rcases lt_trichotomy as bs with h | h | h
    · rw [(order_compares _ _).eq_lt.mpr (List.cons_lt_cons_iff.mpr (.inr ⟨rfl, h⟩)),
        (order_compares _ _).eq_lt.mpr h]
    · rw [h, (order_compares _ _).eq_eq.mpr rfl, (order_compares _ _).eq_eq.mpr rfl]
    · rw [(order_compares _ _).eq_gt.mpr (List.cons_lt_cons_iff.mpr (.inr ⟨rfl, h⟩)),
        (order_compares _ _).eq_gt.mpr h]
  · rw [(order_compares _ _).eq_gt.mpr (List.cons_lt_cons_iff.mpr (.inl h)),
      (order_compares _ _).eq_gt.mpr h]
    rfl

theorem order_then (m n : ℕ) (o : Ordering) :
    (order m n).then o = if m < n then .lt else if n < m then .gt else o := by
  rcases lt_trichotomy m n with h | h | h
  · rw [if_pos h, (order_compares _ _).eq_lt.mpr h]
    rfl
  · subst h
    rw [if_neg (lt_irrefl _), if_neg (lt_irrefl _), (order_compares _ _).eq_eq.mpr rfl,
      Ordering.eq_then]
  · rw [if_neg h.asymm, if_pos h, (order_compares _ _).eq_gt.mpr h]
    rfl

end

theorem compareId_eq (x y : List Char) : compareId x y = order (idKey x) (idKey y) := by
  unfold compareId idKey
  rw [order_lex, order_lex, order_then, order_then]
  by_cases hxy : x = y
  · subst hxy
    rw [if_pos rfl, if_neg (lt_irrefl _), if_neg (lt_irrefl _), if_neg (lt_irrefl _),
      if_neg (lt_irrefl _), (order_compares _ _).eq_eq.mpr rfl]
  rw [if_neg hxy]
  cases hx : numeric x with
  | false =>
    cases hy : numeric y with
    | false => simp
    | true => simp
  | true =>
    cases hy : numeric y with
    | false => simp
    | true =>
      rcases lt_trichotomy x.length y.length with h | h | h
      · simp [h, h.ne]
      · simp [h]
      · simp [h, h.asymm, h.ne']

theorem compareIds_eq (xs ys : List (List Char)) :
    compareIds xs ys = order (xs.map idKey) (ys.map idKey) := by
  induction xs generalizing ys with
  | nil =>
    cases ys with
    | nil => exact ((order_compares _ _).eq_eq.mpr rfl).symm
    | cons => exact ((order_compares _ _).eq_lt.mpr (List.nil_lt_cons _ _)).symm
  | cons x xs ih =>
    cases ys with
    | nil => exact ((order_compares _ _).eq_gt.mpr (List.nil_lt_cons _ _)).symm
    | cons y =>
      rw [List.map_cons, List.map_cons, order_cons, ← compareId_eq, ← ih, compareIds]
      cases compareId x y <;> rfl

theorem compareVersion_eq (a b : Version) :
    compareVersion a b = order (precedence a) (precedence b) := by
  unfold compareVersion precedence
  rw [order_lex, order_lex, order_lex, order_lex, order_then, order_then, order_then, order_then,
    ← compareIds_eq]
  have hpre : comparePre a.pre b.pre =
      if (if a.pre = [] then 1 else 0) < (if b.pre = [] then 1 else 0) then .lt
      else if (if b.pre = [] then 1 else 0) < (if a.pre = [] then 1 else 0) then .gt
      else compareIds a.pre b.pre := by
    unfold comparePre
    by_cases ha : a.pre = [] <;> by_cases hb : b.pre = []
    · rw [ha, hb]
      rfl
    · simp [ha, hb]
    · simp [ha, hb]
    · simp [ha, hb]
  rw [hpre]

/-- A version does not come before another one when its precedence does not. -/
theorem compareVersion_ne_lt {a b : Version} :
    compareVersion a b ≠ .lt ↔ precedence b ≤ precedence a := by
  rw [compareVersion_eq, Ne, (order_compares _ _).eq_lt, not_lt]

theorem compareVersion_eq_eq {a b : Version} :
    compareVersion a b = .eq ↔ precedence a = precedence b := by
  rw [compareVersion_eq, (order_compares _ _).eq_eq]

end DaxiangVpn.UpdateVersions
