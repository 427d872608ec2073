import Mathlib.Data.List.DropRight
import DaxiangVpn.HexTexts

/-!
# Base64

Three bytes are four characters; a rest of one or two bytes is two or three characters. The reader
skips line ends and does not look at the unused bits of the last character, as the standard Go
package does. The alphabet is that of URLs, without padding; the standard one, with padding, is
given through it.
-/

namespace DaxiangVpn.Base64Url
open List HexTexts

abbrev Bytes := List UInt8

/-- The characters of the values below sixty-four: `A` to `Z`, `a` to `z`, `0` to `9`, `-` and
`_`. -/
def alphabet : Bytes :=
  ((List.range 26).map (65 + ·) ++ (List.range 26).map (97 + ·) ++ (List.range 10).map (48 + ·) ++
    [45, 95]).map UInt8.ofNat

def char (n : ℕ) : UInt8 := alphabet.getD n 0

def value (c : UInt8) : Option ℕ := if c ∈ alphabet then some (alphabet.idxOf c) else none

/-- The values of six bits of bytes. -/
def split : Bytes → List ℕ
  | [] => []
  | [x] => [x.toNat / 4, x.toNat % 4 * 16]
  | [x, y] => [x.toNat / 4, x.toNat % 4 * 16 + y.toNat / 16, y.toNat % 16 * 4]
  | x :: y :: z :: rest =>
    x.toNat / 4 :: (x.toNat % 4 * 16 + y.toNat / 16) :: (y.toNat % 16 * 4 + z.toNat / 64) ::
      z.toNat % 64 :: split rest

def encode (bytes : Bytes) : Bytes := (split bytes).map char

/-- Bytes of the values of characters. -/
def join : List ℕ → Option Bytes
  | [] => some []
  | [_] => none
  | [a, b] => some [UInt8.ofNat (a * 4 + b / 16)]
  | [a, b, c] => some [UInt8.ofNat (a * 4 + b / 16), UInt8.ofNat (b % 16 * 16 + c / 4)]
  | a :: b :: c :: d :: rest =>
    (join rest).map fun bytes =>
      UInt8.ofNat (a * 4 + b / 16) :: UInt8.ofNat (b % 16 * 16 + c / 4) ::
        UInt8.ofNat (c % 4 * 64 + d) :: bytes

/-- The characters of line ends. -/
def lineEnd (c : UInt8) : Bool := c = 10 ∨ c = 13

def decode (text : Bytes) : Option Bytes := ((text.filter fun c => !lineEnd c).mapM value).bind join

/-! ## Round trip -/

theorem char_mem {n : ℕ} (h : n < 64) : char n ∈ alphabet := by
  have hall : ∀ i : Fin 64, char i ∈ alphabet := by decide +kernel
  exact hall ⟨n, h⟩

theorem value_char {n : ℕ} (h : n < 64) : value (char n) = some n := by
  have hall : ∀ i : Fin 64, value (char i) = some i := by decide +kernel
  exact hall ⟨n, h⟩

/-- Values of six bits are below sixty-four. -/
theorem split_lt (bytes : Bytes) : ∀ n ∈ split bytes, n < 64 := by
  fun_induction split bytes with
  | case1 => exact nofun
  | case2 x =>
    have hx := x.toNat_lt
    simp only [forall_mem_cons, not_mem_nil, false_implies, implies_true, and_true]
    omega
  | case3 x y =>
    have hx := x.toNat_lt
    have hy := y.toNat_lt
    simp only [forall_mem_cons, not_mem_nil, false_implies, implies_true, and_true]
    omega
  | case4 x y z rest ih =>
    have hx := x.toNat_lt
    have hy := y.toNat_lt
    have hz := z.toNat_lt
    simp only [forall_mem_cons]
    exact ⟨by omega, by omega, by omega, by omega, ih⟩

/-- A byte of its number. -/
theorem ofNat_eq {x : UInt8} {n : ℕ} (h : n = x.toNat) : UInt8.ofNat n = x := by
  rw [h, UInt8.ofNat_toNat]

theorem join_split (bytes : Bytes) : join (split bytes) = some bytes := by
  fun_induction split bytes with
  | case1 => rfl
  | case2 x => rw [join, ofNat_eq (x := x) (by omega)]
  | case3 x y =>
    have hy := y.toNat_lt
    rw [join, ofNat_eq (x := x) (by omega), ofNat_eq (x := y) (by omega)]
  | case4 x y z rest ih =>
    have hy := y.toNat_lt
    have hz := z.toNat_lt
    rw [join, ih, ofNat_eq (x := x) (by omega), ofNat_eq (x := y) (by omega), ofNat_eq
      (x := z) (by omega)]
    rfl

theorem encode_mem (bytes : Bytes) : ∀ c ∈ encode bytes, c ∈ alphabet := by
  intro c hc
  obtain ⟨n, hn, rfl⟩ := mem_map.mp hc
  exact char_mem (split_lt bytes n hn)

theorem encode_eq_nil {bytes : Bytes} : encode bytes = [] ↔ bytes = [] := by
  rw [encode, map_eq_nil_iff]
  fun_cases split bytes with
  | case1 => exact ⟨fun _ => rfl, fun _ => rfl⟩
  | case2 | case3 | case4 => exact ⟨nofun, nofun⟩

theorem mapM_value {values : List ℕ} (h : ∀ n ∈ values, n < 64) :
    (values.map char).mapM value = some values := by
  induction values with
  | nil => rfl
  | cons n rest ih =>
    obtain ⟨hn, hrest⟩ := forall_mem_cons.mp h
    rw [map_cons, mapM_cons, value_char hn, ih hrest]
    rfl

theorem lineEnd_eq_false {c : UInt8} (h : c ∈ alphabet) : lineEnd c = false := by
  have hall : ∀ c ∈ alphabet, lineEnd c = false := by decide +kernel
  exact hall c h

theorem decode_encode (bytes : Bytes) : decode (encode bytes) = some bytes := by
  have hkept : (encode bytes).filter (fun c => !lineEnd c) = encode bytes := by
    refine filter_eq_self.mpr fun c hc => ?_
    rw [lineEnd_eq_false (encode_mem bytes c hc)]
    rfl
  rw [decode, hkept, encode, mapM_value (split_lt bytes)]
  exact join_split bytes

/-! ## The standard alphabet -/

/-- A character of the URL alphabet in the standard one, with `+` and `/`. -/
def toStd (c : UInt8) : UInt8 := if c = 45 then 43 else if c = 95 then 47 else c

def ofStd (c : UInt8) : UInt8 := if c = 43 then 45 else if c = 47 then 95 else c

/-- Groups of four characters, the last one filled up with `=`. -/
def padded (text : Bytes) : Bytes := text ++ replicate ((4 - text.length % 4) % 4) 61

def encodeStd (bytes : Bytes) : String := asciiText (padded ((encode bytes).map toStd))

def decodeStd (text : String) : Option Bytes :=
  if (textBytes text).length % 4 = 0 then decode (((textBytes text).rdropWhile (· = 61)).map ofStd)
  else none

theorem toStd_alphabet :
    ∀ c ∈ alphabet, ofStd (toStd c) = c ∧ toStd c ≠ 61 ∧ (toStd c).toNat ≤ 127 := by
  decide +kernel

theorem rdropWhile_padded {text : Bytes} (h : ∀ c ∈ text, c ≠ 61) :
    (padded text).rdropWhile (· = 61) = text := by
  have hkept : text.reverse.dropWhile (fun c => decide (c = 61)) = text.reverse := by
    cases hr : text.reverse with
    | nil => rfl
    | cons c =>
      have hc := h c (mem_reverse.mp (hr ▸ mem_cons_self))
      rw [dropWhile_cons_of_neg (by simpa using hc)]
  rw [rdropWhile, padded, reverse_append, dropWhile_append_of_pos (by simp), hkept, reverse_reverse]

theorem decodeStd_encodeStd (bytes : Bytes) : decodeStd (encodeStd bytes) = some bytes := by
  have hstd := fun c hc => toStd_alphabet c (encode_mem bytes c hc)
  have hchars : ∀ c ∈ (encode bytes).map toStd, c ≠ 61 ∧ c.toNat ≤ 127 := by
    intro c hc
    obtain ⟨d, hd, rfl⟩ := mem_map.mp hc
    exact (hstd d hd).2
  have hbytes : textBytes (encodeStd bytes) = padded ((encode bytes).map toStd) := by
    refine textBytes_asciiText fun c hc => ?_
    rcases mem_append.mp hc with hc | hc
    · exact (hchars c hc).2
    · rw [eq_of_mem_replicate hc]
      decide
  have hlen : (padded ((encode bytes).map toStd)).length % 4 = 0 := by
    rw [padded, length_append, length_replicate]
    omega
  have hurl : ((encode bytes).map toStd).map ofStd = encode bytes := by
    rw [map_map]
    exact (map_congr_left fun c hc => (hstd c hc).1).trans (map_id _)
  rw [decodeStd, hbytes, if_pos hlen, rdropWhile_padded fun c hc => (hchars c hc).1,
    hurl, decode_encode]

theorem encodeStd_ne {bytes : Bytes} (h : bytes ≠ []) : encodeStd bytes ≠ "" := by
  intro hempty
  have hnil := map_eq_nil_iff.mp (String.ofList_eq_empty_iff.mp hempty)
  exact h (encode_eq_nil.mp (map_eq_nil_iff.mp (append_eq_nil_iff.mp hnil).1))

end DaxiangVpn.Base64Url
