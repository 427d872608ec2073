import Mathlib.Tactic

/-!
# Addresses and prefixes of the standard `net/netip` package

Addresses are numbers below the width of their family. Prefixes are compared by
their leading bits. The text forms are the documented ones: dotted decimals
without leading zeros, colon groups with the first longest zero run elided, a
decimal bit count after one slash. Printing and parsing agree on every prefix
outside the IPv4-mapped range, which every caller refuses before printing.
-/

namespace DaxiangVpn.NetipPrefix
open List Option
open Nat (digitChar)

/-- The two address families; an IPv4-mapped address is an IPv6 address. -/
inductive Family
  | v4
  | v6
  deriving DecidableEq

/-- Number of bits of an address of the family. -/
def Family.width : Family → ℕ
  | .v4 => 32
  | .v6 => 128

/-- An address as a number of its family. -/
structure Addr where
  family : Family
  /-- Big-endian value of the address bytes. -/
  value : ℕ
  fits : value < 2 ^ family.width
  deriving DecidableEq

def Addr.bitLen (a : Addr) : ℕ := a.family.width

/-- `Addr.Is4In6`: an IPv6 address inside `::ffff:0:0/96`. -/
def Addr.is4In6 (a : Addr) : Bool := a.family = .v6 ∧ a.value / 2 ^ 32 = 65535

/-- `Addr.IsUnspecified`: `0.0.0.0` or `::`. -/
def Addr.isUnspecified (a : Addr) : Bool := a.value = 0

/-- `Addr.IsMulticast`: `224.0.0.0/4` or `ff00::/8`. -/
def Addr.isMulticast (a : Addr) : Bool :=
  match a.family with
  | .v4 => a.value / 2 ^ 28 = 14
  | .v6 => a.value / 2 ^ 120 = 255

/-- `Addr.IsLoopback`: `127.0.0.0/8` or `::1`. -/
def Addr.isLoopback (a : Addr) : Bool :=
  match a.family with
  | .v4 => a.value / 2 ^ 24 = 127
  | .v6 => a.value = 1

/-- An address with a number of leading bits. -/
structure IpPrefix where
  /-- The address as written, before masking. -/
  addr : Addr
  /-- Number of leading bits that count. -/
  bits : ℕ
  fits : bits ≤ addr.bitLen
  deriving DecidableEq

/-- Value with only the first `bits` bits of a `width`-bit number kept. -/
def keepBits (width bits value : ℕ) : ℕ := value / 2 ^ (width - bits) * 2 ^ (width - bits)

theorem keepBits_le (width bits value : ℕ) : keepBits width bits value ≤ value :=
  Nat.div_mul_le_self _ _

theorem keepBits_width (width value : ℕ) : keepBits width width value = value := by
  simp [keepBits]

/-- `Prefix.Masked`: the same prefix with its host bits cleared. -/
def IpPrefix.masked (p : IpPrefix) : IpPrefix :=
  ⟨⟨p.addr.family, keepBits p.addr.bitLen p.bits p.addr.value,
    lt_of_le_of_lt (keepBits_le _ _ _) p.addr.fits⟩, p.bits, p.fits⟩

def IpPrefix.isHost (p : IpPrefix) : Bool := p.bits = p.addr.bitLen

variable {p : IpPrefix} {n d : ℕ}

theorem masked_of_isHost (h : p.isHost = true) : p.masked = p := by
  rcases p with ⟨⟨family, value, hv⟩, bits, hbits⟩
  have hb : bits = family.width := of_decide_eq_true h
  subst hb
  simp only [IpPrefix.masked, Addr.bitLen, keepBits_width]

/-- `Prefix.Contains`: same family and equal leading bits. -/
def IpPrefix.contains (p : IpPrefix) (a : Addr) : Bool :=
  p.addr.family = a.family ∧
    p.addr.value / 2 ^ (p.addr.bitLen - p.bits) = a.value / 2 ^ (p.addr.bitLen - p.bits)

/-- `Prefix.Overlaps`: same family and equal in the shorter prefix's bits. -/
def IpPrefix.overlaps (p q : IpPrefix) : Bool :=
  p.addr.family = q.addr.family ∧
    p.addr.value / 2 ^ (p.addr.bitLen - min p.bits q.bits) =
      q.addr.value / 2 ^ (p.addr.bitLen - min p.bits q.bits)

theorem keepBits_div {width bits value k : ℕ} (h : width - bits ≤ k) :
    keepBits width bits value / 2 ^ k = value / 2 ^ k := by
  have hsplit : 2 ^ k = 2 ^ (width - bits) * 2 ^ (k - (width - bits)) := by
    rw [← pow_add, Nat.add_sub_cancel' h]
  rw [keepBits, hsplit, ← Nat.div_div_eq_div_mul, ← Nat.div_div_eq_div_mul,
    Nat.mul_div_cancel _ (Nat.two_pow_pos _)]

theorem masked_overlaps (p q : IpPrefix) : p.masked.overlaps q = p.overlaps q := by
  set n := p.addr.bitLen - min p.bits q.bits
  have hbits : p.addr.bitLen - p.bits ≤ p.addr.bitLen - min p.bits q.bits := by omega
  have hvalue : keepBits p.addr.bitLen p.bits p.addr.value / 2 ^ n =
      p.addr.value / 2 ^ n := keepBits_div hbits
  refine decide_eq_decide.mpr (and_congr Iff.rfl ?_)
  change keepBits _ _ _ / 2 ^ n = q.addr.value / 2 ^ n ↔ _
  rw [hvalue]

theorem masked_is4In6 (h : p.addr.is4In6 = false) : p.masked.addr.is4In6 = false := by
  unfold Addr.is4In6 IpPrefix.masked at *
  simp only [decide_eq_false_iff_not, not_and] at h ⊢
  intro hfam hval
  by_cases hk : p.addr.bitLen - p.bits ≤ 32
  · rw [keepBits_div hk] at hval
    exact h hfam hval
  have hsplit : 2 ^ (p.addr.bitLen - p.bits) = 2 ^ 32 *
    (2 * 2 ^ (p.addr.bitLen - p.bits - 33)) := by
    rw [← pow_succ', ← pow_add]
    congr 1
    omega
  rw [keepBits, hsplit, Nat.mul_left_comm, Nat.mul_div_cancel_left _ (Nat.two_pow_pos 32),
    Nat.mul_left_comm] at hval
  omega

/-! ## Digits of an address -/

/-- The `n` big-endian digits of a number. -/
def digits (base : ℕ) : ℕ → ℕ → List ℕ
  | 0, _ => []
  | n + 1, v => digits base n (v / base) ++ [v % base]

/-- The number that big-endian digits denote. -/
def ofDigits (base : ℕ) (ds : List ℕ) : ℕ := ds.foldl (fun acc d => acc * base + d) 0

theorem digits_length (base n v : ℕ) : (digits base n v).length = n := by
  induction n generalizing v with
  | zero => rfl
  | succ n ih => simp [digits, ih]

theorem digits_lt {base : ℕ} (hb : 0 < base) (n v : ℕ) : ∀ d ∈ digits base n v, d < base := by
  induction n generalizing v with
  | zero => simp [digits]
  | succ n ih =>
    intro d hd
    simp only [digits, mem_append, mem_singleton] at hd
    rcases hd with hd | rfl
    · exact ih (v / base) d hd
    · exact Nat.mod_lt v hb

theorem ofDigits_digits {base : ℕ} (hb : 0 < base) (n v : ℕ) (hv : v < base ^ n) :
    ofDigits base (digits base n v) = v := by
  induction n generalizing v with
  | zero =>
    have h0 : v = 0 := by simpa using hv
    simp [digits, ofDigits, h0]
  | succ n ih =>
    have hdiv : v / base < base ^ n := by
      rw [Nat.div_lt_iff_lt_mul hb]
      rwa [pow_succ] at hv
    have hrec := ih (v / base) hdiv
    simp only [ofDigits] at hrec
    simp only [digits, ofDigits, foldl_append, foldl_cons, foldl_nil, hrec]
    exact Nat.div_add_mod' v base

/-! ## Characters -/

def digitValue (c : Char) : Option ℕ :=
  let n := c.toNat
  if 48 ≤ n ∧ n ≤ 57 then some (n - 48)
  else if 97 ≤ n ∧ n ≤ 102 then some (n - 87)
  else if 65 ≤ n ∧ n ≤ 70 then some (n - 55)
  else none

theorem digitValue_digitChar (hd : d < 16) : digitValue (digitChar d) = some d := by
  interval_cases d <;> decide

theorem digitChar_ne (hd : d < 16) : digitChar d ≠ '.' ∧ digitChar d ≠ ':' ∧ digitChar d ≠ '/' := by
  interval_cases d <;> decide

/-- A number below a thousand in decimals, without leading zeros. -/
def decimal (n : ℕ) : List Char :=
  if n < 10 then [digitChar n]
  else if n < 100 then [digitChar (n / 10), digitChar (n % 10)]
  else [digitChar (n / 100), digitChar (n / 10 % 10), digitChar (n % 10)]

def decimalValue (c : Char) : Option ℕ := (digitValue c).filter (fun d => d < 10)

/-- Read up to three decimals; a leading zero is only the number zero. -/
def readDecimal : List Char → Option ℕ
  | [a] => decimalValue a
  | [a, b] => do
    let x ← decimalValue a
    let y ← decimalValue b
    if x = 0 then none else some (10 * x + y)
  | [a, b, c] => do
    let x ← decimalValue a
    let y ← decimalValue b
    let z ← decimalValue c
    if x = 0 then none else some (100 * x + 10 * y + z)
  | _ => none

theorem decimalValue_digitChar (hd : d < 10) : decimalValue (digitChar d) = some d := by
  simp [decimalValue, digitValue_digitChar (show d < 16 by omega), hd]

theorem readDecimal_decimal (hn : n < 1000) : readDecimal (decimal n) = some n := by
  unfold decimal
  split
  · rename_i h
    exact decimalValue_digitChar h
  split_ifs with h
  · simp only [readDecimal, decimalValue_digitChar (show n / 10 < 10 by omega),
      decimalValue_digitChar (show n % 10 < 10 by omega), bind_eq_bind, bind_some]
    rw [if_neg (by omega)]
    congr 1
    omega
  · simp only [readDecimal, decimalValue_digitChar (show n / 100 < 10 by omega),
      decimalValue_digitChar (show n / 10 % 10 < 10 by omega),
      decimalValue_digitChar (show n % 10 < 10 by omega), bind_eq_bind, bind_some]
    rw [if_neg (by omega)]
    congr 1
    omega

theorem decimal_chars (hn : n < 1000) : '.' ∉ decimal n ∧ ':' ∉ decimal n ∧ '/' ∉ decimal n := by
  have hall : ∀ c ∈ decimal n, c ≠ '.' ∧ c ≠ ':' ∧ c ≠ '/' := by
    intro c hc
    unfold decimal at hc
    split at hc
    · simp only [mem_singleton] at hc
      exact hc ▸ digitChar_ne (by omega)
    split at hc
    · simp only [mem_cons, not_mem_nil, or_false] at hc
      rcases hc with rfl | rfl <;> exact digitChar_ne (by omega)
    · simp only [mem_cons, not_mem_nil, or_false] at hc
      rcases hc with rfl | rfl | rfl <;> exact digitChar_ne (by omega)
  exact ⟨fun h => (hall _ h).1 rfl, fun h => (hall _ h).2.1 rfl, fun h => (hall _ h).2.2 rfl⟩

/-- A group below 65536 in hexadecimal, without leading zeros. -/
def hexGroup (n : ℕ) : List Char :=
  if n < 16 then [digitChar n]
  else if n < 256 then [digitChar (n / 16), digitChar (n % 16)]
  else if n < 4096 then [digitChar (n / 256), digitChar (n / 16 % 16), digitChar (n % 16)]
  else [digitChar (n / 4096), digitChar (n / 256 % 16), digitChar (n / 16 % 16), digitChar (n % 16)]

/-- Read one to four hexadecimal digits. -/
def readHex (cs : List Char) : Option ℕ :=
  if cs = [] ∨ 4 < cs.length then none
  else cs.foldl (fun acc c => acc.bind fun v => (digitValue c).map fun d => v * 16 + d) (some 0)

theorem readHex_hexGroup (hn : n < 65536) : readHex (hexGroup n) = some n := by
  unfold hexGroup
  split
  · rename_i h
    simp [readHex, digitValue_digitChar h]
  split
  · rename_i h
    simp [readHex, digitValue_digitChar (show n / 16 < 16 by omega),
      digitValue_digitChar (show n % 16 < 16 by omega)]
    omega
  split_ifs with h
  · simp [readHex, digitValue_digitChar (show n / 256 < 16 by omega),
      digitValue_digitChar (show n / 16 % 16 < 16 by omega),
      digitValue_digitChar (show n % 16 < 16 by omega)]
    omega
  · simp [readHex, digitValue_digitChar (show n / 4096 < 16 by omega),
      digitValue_digitChar (show n / 256 % 16 < 16 by omega),
      digitValue_digitChar (show n / 16 % 16 < 16 by omega),
      digitValue_digitChar (show n % 16 < 16 by omega)]
    omega

theorem hexGroup_chars (hn : n < 65536) :
    hexGroup n ≠ [] ∧ '.' ∉ hexGroup n ∧ ':' ∉ hexGroup n ∧ '/' ∉ hexGroup n := by
  have hne : hexGroup n ≠ [] := by
    unfold hexGroup
    split_ifs <;> simp
  have hall : ∀ c ∈ hexGroup n, c ≠ '.' ∧ c ≠ ':' ∧ c ≠ '/' := by
    intro c hc
    unfold hexGroup at hc
    split_ifs at hc <;> simp only [mem_cons, not_mem_nil, or_false] at hc
    · exact hc ▸ digitChar_ne (by omega)
    · rcases hc with rfl | rfl <;> exact digitChar_ne (by omega)
    · rcases hc with rfl | rfl | rfl <;> exact digitChar_ne (by omega)
    · rcases hc with rfl | rfl | rfl | rfl <;> exact digitChar_ne (by omega)
  exact ⟨hne, fun h => (hall _ h).1 rfl, fun h => (hall _ h).2.1 rfl, fun h => (hall _ h).2.2 rfl⟩

/-! ## Text forms -/

/-- Dotted decimals of a 32-bit value. -/
def print4 (v : ℕ) : List Char := ['.'].intercalate ((digits 256 4 v).map decimal)

/-- `netip`'s IPv4 reader: four decimals of at most 255. -/
def read4 (cs : List Char) : Option ℕ :=
  match cs.splitOn '.' with
  | [a, b, c, d] => do
    let w ← (readDecimal a).filter (fun n => n < 256)
    let x ← (readDecimal b).filter (fun n => n < 256)
    let y ← (readDecimal c).filter (fun n => n < 256)
    let z ← (readDecimal d).filter (fun n => n < 256)
    some (ofDigits 256 [w, x, y, z])
  | _ => none

theorem read4_print4 {v : ℕ} (hv : v < 2 ^ 32) : read4 (print4 v) = some v := by
  have hlt : ∀ d ∈ digits 256 4 v, d < 256 := digits_lt (by omega) 4 v
  have hsplit : (print4 v).splitOn '.' = (digits 256 4 v).map decimal := by
    apply splitOn_intercalate
    · intro l hl
      obtain ⟨d, hd, rfl⟩ := mem_map.mp hl
      exact (decimal_chars (by have h := hlt d hd; omega)).1
    · simp [digits]
  have hval := ofDigits_digits (by omega : 0 < 256) 4 v (by simpa using hv)
  have hlen := digits_length 256 4 v
  obtain ⟨w, x, y, z, hd⟩ : ∃ w x y z, digits 256 4 v = [w, x, y, z] := by
    match hds : digits 256 4 v, hlen with
    | [w, x, y, z], _ => exact ⟨w, x, y, z, rfl⟩
  rw [hd] at hsplit hval hlt
  have hread : ∀ n ∈ [w, x, y, z],
      (readDecimal (decimal n)).filter (fun m => decide (m < 256)) = some n := by
    intro n hn
    have h := hlt n hn
    rw [readDecimal_decimal (by omega)]
    simp [h]
  simp only [map_cons, map_nil] at hsplit
  simp only [read4, hsplit, hread w (by simp), hread x (by simp), hread y (by simp),
    hread z (by simp), bind_eq_bind, bind_some, hval]

/-- Start and length of the first longest run of at least two zero groups;
length zero when there is none. -/
def zeroRun (gs : List ℕ) : ℕ × ℕ :=
  (List.range gs.length).foldl (fun best i =>
    let l := ((gs.drop i).takeWhile (· == 0)).length
    if 2 ≤ l ∧ best.2 < l then (i, l) else best) (0, 0)

/-- Colon groups as separate texts; the elided run is an empty text, doubled
where it touches an end. -/
def groupTexts (gs : List ℕ) : List (List Char) :=
  let (start, len) := zeroRun gs
  if len = 0 then gs.map hexGroup
  else
    let left := (gs.take start).map hexGroup
    let right := (gs.drop (start + len)).map hexGroup
    (if left = [] then [[]] else left) ++ [[]] ++ (if right = [] then [[]] else right)

/-- Text of a 128-bit value; mapped addresses show their IPv4 part dotted. -/
def print6 (v : ℕ) : List Char :=
  if v / 2 ^ 32 = 65535 then "::ffff:".toList ++ print4 (v % 2 ^ 32)
  else [':'].intercalate (groupTexts (digits 65536 8 v))

/-- Read hexadecimal groups; the last text may be a dotted IPv4 address. -/
def readGroups : List (List Char) → Option (List ℕ)
  | [] => some []
  | [t] =>
    match readHex t with
    | some g => some [g]
    | none => (read4 t).map fun v => [v / 65536, v % 65536]
  | t :: rest => do
    let g ← readHex t
    let gs ← readGroups rest
    some (g :: gs)

/-- Texts after the elision: one empty text means nothing follows it. -/
def readTail (ts : List (List Char)) : Option (List ℕ) :=
  match ts with
  | [] => none
  | [[]] => some []
  | _ => readGroups ts

/-- Groups of an IPv6 text cut at its colons. The elision is one empty text
between groups, doubled at either end, and stands for at least one group. -/
def readTexts (ts : List (List Char)) : Option (List ℕ) :=
  if [] ∉ ts then (readGroups ts).filter (fun gs => gs.length = 8)
  else do
    let left ← (ts.takeWhile (· ≠ [])).mapM readHex
    let rest := ts.dropWhile (· ≠ [])
    let right ← readTail (if left = [] then rest.drop 2 else rest.drop 1)
    if left.length + right.length < 8 ∧ (left = [] → rest.take 2 = [[], []]) then
      some (left ++ List.replicate (8 - left.length - right.length) 0 ++ right)
    else none

/-- `netip`'s IPv6 reader, without zones. -/
def read6 (cs : List Char) : Option ℕ := (readTexts (cs.splitOn ':')).map (ofDigits 65536)

/-- What the elided run is: a stretch of zero groups inside the list. -/
def IsZeroRun (gs : List ℕ) (run : ℕ × ℕ) : Prop :=
  run.2 = 0 ∨ 2 ≤ run.2 ∧ gs = gs.take run.1 ++ List.replicate run.2 0 ++ gs.drop (run.1 + run.2)

theorem leading_zeros (gs : List ℕ) : gs = List.replicate (gs.takeWhile (· == 0)).length 0 ++
      gs.drop (gs.takeWhile (· == 0)).length := by
  induction gs with
  | nil => rfl
  | cons g gs ih =>
    by_cases h : g = 0
    · subst h
      simpa [replicate_succ] using ih
    · simp [h]

theorem zeroRun_spec (gs : List ℕ) : IsZeroRun gs (zeroRun gs) := by
  have hfold : ∀ (is : List ℕ) (best : ℕ × ℕ), IsZeroRun gs best →
    IsZeroRun gs (is.foldl (fun best i =>
        let l := ((gs.drop i).takeWhile (· == 0)).length
        if 2 ≤ l ∧ best.2 < l then (i, l) else best) best) := by
    intro is
    induction is with
    | nil => exact fun best h => h
    | cons i is ih =>
      intro best hbest
      simp only [foldl_cons]
      apply ih
      split_ifs with hl
      · refine .inr ⟨hl.1, ?_⟩
        have hlead := leading_zeros (gs.drop i)
        rw [drop_drop] at hlead
        calc gs = gs.take i ++ gs.drop i := (take_append_drop i gs).symm
          _ = _ := by
            rw [append_assoc, ← hlead]
      · exact hbest
  exact hfold _ (0, 0) (.inl rfl)

variable {gs : List ℕ}

theorem readGroups_hexGroup (hg : ∀ g ∈ gs, g < 65536) :
    readGroups (gs.map hexGroup) = some gs := by
  induction gs with
  | nil => rfl
  | cons g gs ih =>
    have hhead := readHex_hexGroup (hg g (by simp))
    cases gs with
    | nil => simp [readGroups, hhead]
    | cons =>
      have htail := ih fun x hx => hg x (mem_cons_of_mem _ hx)
      simp only [map_cons] at htail ⊢
      simp [readGroups, hhead, htail]

theorem mapM_readHex_hexGroup (hg : ∀ g ∈ gs, g < 65536) :
    (gs.map hexGroup).mapM readHex = some gs := by
  induction gs with
  | nil => rfl
  | cons g gs ih =>
    have htail := ih fun x hx => hg x (mem_cons_of_mem _ hx)
    simp [readHex_hexGroup (hg g (by simp)), htail]

theorem ne_nil_of_mem_hexGroup (hg : ∀ g ∈ gs, g < 65536) : ∀ t ∈ gs.map hexGroup, t ≠ [] := by
  intro t ht
  obtain ⟨g, hm, rfl⟩ := mem_map.mp ht
  exact (hexGroup_chars (hg g hm)).1

theorem readTexts_groupTexts (hlen : gs.length = 8) (hg : ∀ g ∈ gs, g < 65536) :
    readTexts (groupTexts gs) = some gs := by
  rcases hrun : zeroRun gs with ⟨start, len⟩
  have hspec := zeroRun_spec gs
  rw [hrun] at hspec
  unfold groupTexts
  rw [hrun]
  dsimp only
  by_cases h0 : len = 0
  · rw [if_pos h0]
    have hno : [] ∉ gs.map hexGroup := fun hm => ne_nil_of_mem_hexGroup hg [] hm rfl
    simp [readTexts, hno, readGroups_hexGroup hg, hlen]
  rw [if_neg h0]
  obtain ⟨-, hgs⟩ := hspec.resolve_left h0
  set left := gs.take start with hleft
  set right := gs.drop (start + len) with hright
  have hl : ∀ g ∈ left, g < 65536 := fun g hm => hg g (mem_of_mem_take hm)
  have hr : ∀ g ∈ right, g < 65536 := fun g hm => hg g (mem_of_mem_drop hm)
  have hcount : left.length + len + right.length = 8 := by
    have hlength := congrArg List.length hgs
    simp only [length_append, length_replicate] at hlength
    omega
  have htail : readTail (if right.map hexGroup = [] then [[]] else right.map hexGroup) =
      some right := by
    cases hcase : right with
    | nil => simp [readTail]
    | cons g =>
      have hne : hexGroup g ≠ [] := (hexGroup_chars (hr g (by simp [hcase]))).1
      have hread := readGroups_hexGroup hr
      rw [hcase] at hread
      simp only [map_cons] at hread ⊢
      rw [if_neg (by simp)]
      unfold readTail
      split
      · simp at *
      · rename_i heq
        simp only [List.cons.injEq] at heq
        exact absurd heq.1 hne
      · exact hread
  have hfill : 8 - left.length - right.length = len := by omega
  have hsum : left.length + right.length < 8 := by omega
  cases hcase : left with
  | nil =>
    rw [hcase] at hgs hfill hsum
    simp only [map_nil, if_true]
    simp only [length_nil, Nat.zero_add, Nat.sub_zero] at hfill hsum
    have hparse : readTexts ([[]] ++ [[]] ++
        (if right.map hexGroup = [] then [[]] else right.map hexGroup)) =
        (readTail (if right.map hexGroup = [] then [[]] else right.map hexGroup)).bind fun r =>
          if r.length < 8 then some (List.replicate (8 - r.length) 0 ++ r) else none := by
      simp [readTexts]
    rw [hparse, htail, bind_some, if_pos hsum, hfill]
    simpa using hgs.symm
  | cons g rest =>
    have hmap := mapM_readHex_hexGroup hl
    have hnonempty := ne_nil_of_mem_hexGroup hl
    rw [hcase] at hmap hnonempty hgs hfill hsum
    rw [if_neg (by simp : ¬ (g :: rest).map hexGroup = [])]
    have hin : ([] : List Char) ∈ (g :: rest).map hexGroup ++ [[]] ++
        (if right.map hexGroup = [] then [[]] else right.map hexGroup) := by simp
    have htake : ((g :: rest).map hexGroup ++ [[]] ++
        (if right.map hexGroup = [] then [[]] else right.map hexGroup)).takeWhile
          (fun t => decide (t ≠ [])) = (g :: rest).map hexGroup := by
      rw [append_assoc, takeWhile_append_of_pos (by simpa using hnonempty)]
      simp
    have hdrop : ((g :: rest).map hexGroup ++ [[]] ++
        (if right.map hexGroup = [] then [[]] else right.map hexGroup)).dropWhile
          (fun t => decide (t ≠ [])) =
        [] :: (if right.map hexGroup = [] then [[]] else right.map hexGroup) := by
      rw [append_assoc, dropWhile_append_of_pos (by simpa using hnonempty)]
      simp
    simp only [readTexts, hin, not_true, if_false, htake, hdrop, hmap, bind_eq_bind, bind_some]
    simp only [reduceCtorEq, if_false, drop_succ_cons, drop_zero, htail,
      bind_some, false_implies, and_true]
    rw [if_pos hsum, hfill, ← hgs]

/-- The texts of an address are never empty and hold no colon and no other separator. -/
theorem groupTexts_chars (hg : ∀ g ∈ gs, g < 65536) :
    ∀ t ∈ groupTexts gs, ':' ∉ t ∧ '.' ∉ t ∧ '/' ∉ t := by
  have hhex : ∀ part : List ℕ, (∀ g ∈ part, g ∈ gs) →
      ∀ t ∈ part.map hexGroup, ':' ∉ t ∧ '.' ∉ t ∧ '/' ∉ t := by
    intro part hpart t ht
    obtain ⟨g, hm, rfl⟩ := mem_map.mp ht
    obtain ⟨-, hdot, hcolon, hslash⟩ := hexGroup_chars (hg g (hpart g hm))
    exact ⟨hcolon, hdot, hslash⟩
  intro t ht
  unfold groupTexts at ht
  dsimp only at ht
  split at ht
  · exact hhex gs (fun g hm => hm) t ht
  simp only [mem_append, mem_singleton] at ht
  rcases ht with (ht | rfl) | ht
  · split at ht
    · simp only [mem_singleton] at ht
      simp [ht]
    · exact hhex _ (fun g hm => mem_of_mem_take hm) t ht
  · simp
  · split at ht
    · simp only [mem_singleton] at ht
      simp [ht]
    · exact hhex _ (fun g hm => mem_of_mem_drop hm) t ht

/-- Texts joined by a separator hold another character only inside a text. -/
theorem not_mem_intercalate {c sep : Char} (hne : c ≠ sep) {ts : List (List Char)}
    (h : ∀ t ∈ ts, c ∉ t) : c ∉ [sep].intercalate ts := by
  induction ts with
  | nil => simp
  | cons t ts ih =>
    cases ts with
    | nil => simpa using h t (by simp)
    | cons =>
      have htail := ih fun x hx => h x (mem_cons_of_mem _ hx)
      rw [intercalate_cons_cons]
      simp only [mem_append, mem_singleton, not_or]
      exact ⟨⟨h t (by simp), hne⟩, htail⟩

theorem read6_print6 {v : ℕ} (hv : v < 2 ^ 128) (hm : v / 2 ^ 32 ≠ 65535) :
    read6 (print6 v) = some v := by
  have hlt : ∀ g ∈ digits 65536 8 v, g < 65536 := digits_lt (by omega) 8 v
  have hlen := digits_length 65536 8 v
  have htexts := readTexts_groupTexts hlen hlt
  have hne : groupTexts (digits 65536 8 v) ≠ [] := by
    intro h0
    rw [h0] at htexts
    simp [readTexts, readGroups] at htexts
    simp [htexts.1] at hlen
  have hsplit : (print6 v).splitOn ':' = groupTexts (digits 65536 8 v) := by
    rw [print6, if_neg hm]
    exact splitOn_intercalate _ (fun t ht => (groupTexts_chars hlt t ht).1) hne
  rw [read6, hsplit, htexts, map_some, ofDigits_digits (by omega) 8 v (by simpa using hv)]

def Addr.text (a : Addr) : List Char :=
  match a.family with
  | .v4 => print4 a.value
  | .v6 => print6 a.value

def Addr.ofValue (family : Family) (v : ℕ) : Option Addr :=
  if h : v < 2 ^ family.width then some ⟨family, v, h⟩ else none

/-- `netip.ParseAddr` without zones: the dotted form, or else the colon form. -/
def parseAddr (cs : List Char) : Option Addr :=
  match read4 cs with
  | some v => Addr.ofValue .v4 v
  | none => (read6 cs).bind (Addr.ofValue .v6)

/-- `netip.ParsePrefix`: an address, one slash and a decimal bit count. -/
def parsePrefix (s : String) : Option IpPrefix :=
  match s.toList.splitOn '/' with
  | [address, count] => do
    let addr ← parseAddr address
    let bits ← readDecimal count
    if h : bits ≤ addr.bitLen then some ⟨addr, bits, h⟩ else none
  | _ => none

def IpPrefix.string (p : IpPrefix) : String :=
  String.ofList (p.addr.text ++ '/' :: decimal p.bits)

/-- A printed address outside the mapped range reads back. -/
theorem parseAddr_text {a : Addr} (hm : a.is4In6 = false) : parseAddr a.text = some a := by
  rcases a with ⟨family, value, hv⟩
  cases family with
  | v4 =>
    simp only [parseAddr, Addr.text, read4_print4 (by simpa [Family.width] using hv)]
    simp only [Addr.ofValue]
    rw [dif_pos hv]
  | v6 =>
    have hnot : value / 2 ^ 32 ≠ 65535 := by
      simpa [Addr.is4In6] using hm
    have hlt : ∀ g ∈ digits 65536 8 value, g < 65536 := digits_lt (by omega) 8 value
    have hnone : read4 (print6 value) = none := by
      have hdot : '.' ∉ print6 value := by
        rw [print6, if_neg hnot]
        exact not_mem_intercalate (by decide) fun t ht => (groupTexts_chars hlt t ht).2.1
      have hsplit : (print6 value).splitOn '.' = [print6 value] := by
        have h : (['.'].intercalate [print6 value]).splitOn '.' = [print6 value] :=
          splitOn_intercalate '.' (by simpa using hdot) (by simp)
        simpa using h
      simp [read4, hsplit]
    have hread := read6_print6 (by simpa [Family.width] using hv) hnot
    simp only [parseAddr, Addr.text, hnone, hread, bind_some, Addr.ofValue]
    rw [dif_pos hv]

/-- A printed prefix outside the mapped range reads back. -/
theorem parsePrefix_string (hm : p.addr.is4In6 = false) : parsePrefix p.string = some p := by
  have hbits : p.bits < 1000 := by
    have h := p.fits
    unfold Addr.bitLen at h
    cases hf : p.addr.family <;> simp only [hf, Family.width] at h <;> omega
  have hslash : '/' ∉ p.addr.text := by
    rcases hp : p.addr with ⟨family, value, hv⟩
    cases family with
    | v4 =>
      apply not_mem_intercalate (by decide)
      intro t ht
      obtain ⟨d, hd, rfl⟩ := mem_map.mp ht
      have hlt := digits_lt (by omega : 0 < 256) 4 value d hd
      exact (decimal_chars (by omega)).2.2
    | v6 =>
      have hnot : value / 2 ^ 32 ≠ 65535 := by
        simpa [hp, Addr.is4In6] using hm
      have hlt : ∀ g ∈ digits 65536 8 value, g < 65536 := digits_lt (by omega) 8 value
      simp only [Addr.text]
      rw [print6, if_neg hnot]
      exact not_mem_intercalate (by decide) fun t ht => (groupTexts_chars hlt t ht).2.2
  have hsplit : p.string.toList.splitOn '/' = [p.addr.text, decimal p.bits] := by
    have h : (['/'].intercalate [p.addr.text, decimal p.bits]).splitOn '/' =
        [p.addr.text, decimal p.bits] := splitOn_intercalate '/'
      (by simpa using ⟨hslash, (decimal_chars hbits).2.2⟩) (by simp)
    simpa [IpPrefix.string, intercalate_cons_cons] using h
  simp only [parsePrefix, hsplit, parseAddr_text hm, readDecimal_decimal hbits,
    bind_eq_bind, bind_some]
  rw [dif_pos p.fits]

theorem string_ne_empty (p : IpPrefix) : p.string ≠ "" := by
  intro h
  have hl := congrArg String.toList h
  simp [IpPrefix.string] at hl

example :
    (parsePrefix "10.20.0.7/32").map IpPrefix.string = some "10.20.0.7/32" := by decide +kernel

example :
    (parsePrefix "FD00:0:0:1::7/64").map (fun p => p.masked.string) = some "fd00:0:0:1::/64" := by
  decide +kernel

end DaxiangVpn.NetipPrefix
