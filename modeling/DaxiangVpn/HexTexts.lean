import Mathlib.Data.String.Basic
import Mathlib.Tactic

/-!
# Characters and hexadecimal texts

Spaces and control characters of Unicode, and texts of lower-case hexadecimal digits. Digits are
ASCII characters, so the number of the bytes of such a text is the number of its characters.
-/

namespace DaxiangVpn.HexTexts

open List

open Nat (digitChar)

/-! ## Characters -/

/-- The spaces of Unicode. -/
def isSpace (c : Char) : Bool :=
  let n := c.toNat
  (9 ≤ n && n ≤ 13) || n = 32 || n = 133 || n = 160 || n = 5760 || (8192 ≤ n && n ≤ 8202) ||
    n = 8232 || n = 8233 || n = 8239 || n = 8287 || n = 12288

/-- The control characters of Unicode. -/
def isControl (c : Char) : Bool := c.toNat < 32 || (127 ≤ c.toNat && c.toNat < 160)

/-- The text without the spaces at both ends. -/
def trimSpace (s : String) : String :=
  String.ofList (((s.toList.dropWhile isSpace).reverse.dropWhile isSpace).reverse)

/-- A lower-case hexadecimal digit. -/
def isHex (c : Char) : Bool :=
  (48 ≤ c.toNat && c.toNat ≤ 57) || (97 ≤ c.toNat && c.toNat ≤ 102)

theorem isHex_iff {c : Char} :
    isHex c = true ↔ 48 ≤ c.toNat ∧ c.toNat ≤ 57 ∨ 97 ≤ c.toNat ∧ c.toNat ≤ 102 := by
  simp [isHex]

/-- A hexadecimal digit is neither a space nor a control character. -/
theorem isHex_plain {c : Char} (h : isHex c = true) :
    isSpace c = false ∧ isControl c = false ∧ c.toNat ≤ 127 := by
  rw [isHex_iff] at h
  refine ⟨?_, ?_, by omega⟩
  · unfold isSpace
    simp only [Bool.or_eq_false_iff, Bool.and_eq_false_iff, decide_eq_false_iff_not]
    omega
  · unfold isControl
    simp only [Bool.or_eq_false_iff, Bool.and_eq_false_iff, decide_eq_false_iff_not]
    omega

theorem isHex_digitChar {d : ℕ} (h : d < 16) : isHex (digitChar d) = true := by
  interval_cases d <;> decide

/-! ## Texts -/

/-- A text of so many lower-case hexadecimal digits. -/
def lowerHex (n : ℕ) (v : String) : Bool := v.length = n && v.toList.all isHex

theorem lowerHex_iff {n : ℕ} {v : String} :
    lowerHex n v = true ↔ v.length = n ∧ ∀ c ∈ v.toList, isHex c = true := by
  simp [lowerHex]

/-- Every byte as two digits. -/
def encodeHex (b : List UInt8) : String :=
  String.ofList (b.flatMap fun x => [digitChar (x.toNat / 16), digitChar (x.toNat % 16)])

theorem lowerHex_encodeHex (b : List UInt8) : lowerHex (2 * b.length) (encodeHex b) = true := by
  rw [lowerHex_iff, encodeHex, String.length_ofList, String.toList_ofList]
  refine ⟨by simp [length_flatMap, mul_comm], fun c hc => ?_⟩
  obtain ⟨x, -, hx⟩ := mem_flatMap.mp hc
  have hbyte : x.toNat < 256 := x.toNat_lt
  rcases mem_cons.mp hx with rfl | hx
  · exact isHex_digitChar (by omega)
  · rw [mem_singleton.mp hx]
    exact isHex_digitChar (by omega)

/-- The bytes of a text. -/
def textBytes (s : String) : List UInt8 := s.toUTF8.data.toList

/-- The text of ASCII codes. -/
def asciiText (codes : List UInt8) : String := String.ofList (codes.map fun c => Char.ofNat c.toNat)

theorem utf8EncodeChar_ascii {c : UInt8} (h : c.toNat ≤ 127) :
    String.utf8EncodeChar (Char.ofNat c.toNat) = [c] := by
  have hchar : (Char.ofNat c.toNat).toNat = c.toNat := by
    unfold Char.ofNat
    rw [dif_pos (.inl (by omega))]
    rfl
  have hval : (Char.ofNat c.toNat).val.toNat = c.toNat := hchar
  unfold String.utf8EncodeChar
  simp only [hval]
  rw [if_pos h, UInt8.ofNat_toNat]

theorem textBytes_asciiText {codes : List UInt8} (h : ∀ c ∈ codes, c.toNat ≤ 127) :
    textBytes (asciiText codes) = codes := by
  rw [textBytes, asciiText, String.toUTF8, String.toByteArray_ofList, List.utf8Encode,
    data_toByteArray, toList_toArray, flatMap_map]
  induction codes with
  | nil => rfl
  | cons c rest ih =>
    obtain ⟨hc, hrest⟩ := forall_mem_cons.mp h
    rw [flatMap_cons, utf8EncodeChar_ascii hc, ih hrest, singleton_append]

/-- A text of ASCII characters has one byte for each. -/
theorem utf8Len_ascii {cs : List Char} (h : ∀ c ∈ cs, c.toNat ≤ 127) :
    String.utf8Len cs = cs.length := by
  induction cs with
  | nil => rfl
  | cons c rest ih =>
    have hc : c.utf8Size = 1 := Char.utf8Size_eq_one_iff.mpr (h c mem_cons_self)
    rw [String.utf8Len_cons, ih fun x hx => h x (mem_cons_of_mem _ hx), hc, length_cons]

/-- The bytes of a hexadecimal text. -/
theorem lowerHex_bytes {n : ℕ} {v : String} (h : lowerHex n v = true) : v.utf8ByteSize = n := by
  obtain ⟨hlen, hall⟩ := lowerHex_iff.mp h
  rw [← String.ofList_toList (s := v), String.utf8ByteSize_ofList,
    utf8Len_ascii fun c hc => (isHex_plain (hall c hc)).2.2, String.length_toList, hlen]

end DaxiangVpn.HexTexts
