import Mathlib.Data.List.Basic

/-!
# Counts of suppressed output

The output of the engine's dependencies is never kept. A decoder that remembers a position and four
flags counts its lines by their level, while the output arrives in pieces of any length.
-/

namespace DaxiangVpn.EngineCapture

open List

/-! ## The decoder -/

def newline : UInt8 := 10

/-- `WARN[`. -/
def warnLevel : List UInt8 := [87, 65, 82, 78, 91]

/-- `ERROR[`. -/
def errorLevel : List UInt8 := [69, 82, 82, 79, 82, 91]

/-- Lines of each kind. -/
structure EngineOutputCapture where
  warnings : ℕ
  errors : ℕ
  unknown : ℕ

/-- What is remembered of a line. -/
structure RawLevelDecoder where
  /-- Bytes that were compared. -/
  position : ℕ
  /-- They begin `WARN[`. -/
  warn : Bool
  /-- They begin `ERROR[`. -/
  fail : Bool
  recognized : Bool
  seen : Bool

def reset : RawLevelDecoder := ⟨0, true, true, false, false⟩

/-- The end of a line, also of one without a newline. -/
def RawLevelDecoder.finish (d : RawLevelDecoder) (c : EngineOutputCapture) : EngineOutputCapture :=
  if d.seen && !d.recognized then { c with unknown := c.unknown + 1 } else c

/-- The loop body of `consume`. -/
def consumeByte (s : RawLevelDecoder × EngineOutputCapture) (b : UInt8) :
    RawLevelDecoder × EngineOutputCapture :=
  if b = newline then (reset, s.1.finish s.2)
  else if 6 ≤ s.1.position then ({ s.1 with seen := true }, s.2)
  else
    let warn := s.1.warn && decide (warnLevel[s.1.position]? = some b)
    let fail := s.1.fail && decide (errorLevel[s.1.position]? = some b)
    let isWarn := warn && decide (s.1.position + 1 = 5)
    let isError := fail && decide (s.1.position + 1 = 6)
    (⟨s.1.position + 1, warn, fail, s.1.recognized || isWarn || isError, true⟩,
      ⟨s.2.warnings + isWarn.toNat, s.2.errors + isError.toNat, s.2.unknown⟩)

def consume (s : RawLevelDecoder × EngineOutputCapture) (data : List UInt8) :
    RawLevelDecoder × EngineOutputCapture :=
  data.foldl consumeByte s

/-- What a read of the pipe returns. -/
structure Read where
  data : List UInt8
  /-- It is the last one. -/
  failed : Bool

/-- The loop of `drain`; it goes on as long as no read fails. -/
def drainFrom (s : RawLevelDecoder × EngineOutputCapture) : List Read → Option EngineOutputCapture
  | [] => none
  | r :: rest =>
    if r.failed then some ((consume s r.data).1.finish (consume s r.data).2)
    else drainFrom (consume s r.data) rest

def drain (reads : List Read) : Option EngineOutputCapture := drainFrom (reset, ⟨0, 0, 0⟩) reads

/-! ## Lines -/

def isWarning (line : List UInt8) : Bool := warnLevel.isPrefixOf line

def isError (line : List UInt8) : Bool := errorLevel.isPrefixOf line

def isUnknown (line : List UInt8) : Bool := !line.isEmpty && !isWarning line && !isError line

/-- The lines of a stream, the last one without a newline. -/
def lines (stream : List UInt8) : List (List UInt8) := stream.splitOn newline

/-- Lines of each kind are added. -/
def EngineOutputCapture.add (c : EngineOutputCapture)
    (ls : List (List UInt8)) : EngineOutputCapture :=
  ⟨c.warnings + ls.countP isWarning, c.errors + ls.countP isError, c.unknown + ls.countP isUnknown⟩

def decoderAt (line : List UInt8) : RawLevelDecoder :=
  ⟨(line.take 6).length, (line.take 6).isPrefixOf warnLevel, (line.take 6).isPrefixOf errorLevel,
    isWarning line || isError line, !line.isEmpty⟩

/-- A level is counted when it is complete, before its line ends. -/
def EngineOutputCapture.begun (c : EngineOutputCapture) (line : List UInt8) : EngineOutputCapture :=
  ⟨c.warnings + (isWarning line).toNat, c.errors + (isError line).toNat, c.unknown⟩

section

variable {line : List UInt8} {b : UInt8} (c : EngineOutputCapture)

theorem isPrefixOf_concat (l level : List UInt8) (b : UInt8) :
    (l ++ [b]).isPrefixOf level = (l.isPrefixOf level && decide (level[l.length]? = some b)) := by
  induction l generalizing level with
  | nil =>
    cases level with
    | nil => rfl
    | cons => simp [List.isPrefixOf, Bool.beq_eq_decide_eq, eq_comm]
  | cons a l ih =>
    cases level with
    | nil => rfl
    | cons => simp [List.isPrefixOf, ih, Bool.and_assoc]

/-- A level is complete with the byte at its end, or was so before. -/
theorem level_concat (level l : List UInt8) (b : UInt8) : level.isPrefixOf (l ++ [b]) =
      (level.isPrefixOf l ||
        ((l ++ [b]).isPrefixOf level && decide (l.length + 1 = level.length))) := by
  rw [Bool.eq_iff_iff]
  simp only [Bool.or_eq_true, Bool.and_eq_true, decide_eq_true_eq, isPrefixOf_iff_prefix]
  rw [prefix_concat_iff]
  constructor
  · rintro (heq | hstart)
    · refine .inr ⟨heq ▸ prefix_rfl, ?_⟩
      rw [heq, length_append, length_singleton]
    · exact .inl hstart
  · rintro (hstart | ⟨hstart, hlength⟩)
    · exact .inr hstart
    · refine .inl (hstart.eq_of_length ?_).symm
      rw [length_append, length_singleton, hlength]

theorem level_concat_toNat (level l : List UInt8) (b : UInt8) :
    (level.isPrefixOf (l ++ [b])).toNat = (level.isPrefixOf l).toNat +
      ((l ++ [b]).isPrefixOf level && decide (l.length + 1 = level.length)).toNat := by
  rw [level_concat]
  cases hold : level.isPrefixOf l with
  | false => rw [Bool.false_or, Bool.toNat_false, Nat.zero_add]
  | true =>
    have hlength := ( isPrefixOf_iff_prefix.mp hold).length_le
    have hnot : decide (l.length + 1 = level.length) = false := decide_eq_false (by omega)
    rw [hnot, Bool.and_false, Bool.or_false, Bool.toNat_false, Nat.add_zero]

theorem level_of_long {level : List UInt8} (h : level.length ≤ 6) (hline : 6 ≤ line.length) :
    level.isPrefixOf (line ++ [b]) = level.isPrefixOf line := by
  rw [level_concat, Bool.or_eq_left_iff_imp]
  intro hlast
  rw [Bool.and_eq_true, decide_eq_true_eq] at hlast
  omega

theorem countP_toNat (p : List UInt8 → Bool) (line : List UInt8) (ls : List (List UInt8)) :
    (line :: ls).countP p = ls.countP p + (p line).toNat := by
  cases hp : p line <;> simp [hp]

theorem finish_decoderAt (line : List UInt8) :
    (decoderAt line).finish (c.begun line) = c.add [line] := by
  unfold RawLevelDecoder.finish EngineOutputCapture.add EngineOutputCapture.begun
  cases hseen : line.isEmpty <;> cases hwarn : isWarning line <;> cases herror : isError line <;>
    simp [decoderAt, isUnknown, hseen, hwarn, herror]

theorem add_append (first second : List (List UInt8)) :
    (c.add first).add second = c.add (first ++ second) := by
  simp only [EngineOutputCapture.add, countP_append, Nat.add_assoc]

theorem consumeByte_decoderAt (hb : b ≠ newline) :
    consumeByte (decoderAt line, c.begun line) b =
      (decoderAt (line ++ [b]), c.begun (line ++ [b])) := by
  unfold consumeByte
  rw [if_neg hb]
  by_cases hlong : 6 ≤ line.length
  · have hposition : 6 ≤ (decoderAt line).position := by simp [decoderAt, hlong]
    have hwarn : isWarning (line ++ [b]) = isWarning line := level_of_long (by decide) hlong
    have herror : isError (line ++ [b]) = isError line := level_of_long (by decide) hlong
    have hseen : (line ++ [b]).isEmpty = false := by simp
    rw [if_pos hposition]
    simp only [decoderAt, EngineOutputCapture.begun, hwarn, herror, hseen,
      take_append_of_le_length hlong, Bool.not_false]
  · have hlength : (line ++ [b]).length ≤ 6 := by
      rw [length_append, length_singleton]
      omega
    have htake : line.take 6 = line := take_of_length_le (by omega)
    have hseen : (line ++ [b]).isEmpty = false := by simp
    have hposition : (decoderAt line).position = line.length := congrArg List.length htake
    have hwarn : isWarning (line ++ [b]) = _ := level_concat warnLevel line b
    have herror : isError (line ++ [b]) = _ := level_concat errorLevel line b
    have hwarnings : (isWarning (line ++ [b])).toNat = _ := level_concat_toNat warnLevel line b
    have herrors : (isError (line ++ [b])).toNat = _ := level_concat_toNat errorLevel line b
    rw [isPrefixOf_concat] at hwarn herror hwarnings herrors
    have hswap : ∀ p q r t : Bool, (p || q || r || t) = (p || r || (q || t)) := by decide
    rw [hposition, if_neg hlong]
    refine Prod.ext ?_ ?_
    · simp only [decoderAt, htake, take_of_length_le hlength, hseen, hwarn, herror,
        isPrefixOf_concat, length_append, length_singleton]
      rw [hswap]
      rfl
    · simp only [decoderAt, EngineOutputCapture.begun, htake, hwarnings, herrors, Nat.add_assoc]
      rfl

theorem consumeByte_newline (line : List UInt8) :
    consumeByte (decoderAt line, c.begun line) newline =
      (decoderAt [], (c.add [line]).begun []) := by
  rw [consumeByte, if_pos rfl, finish_decoderAt]
  rfl

/-- The decoder counts each line once, whatever was counted before. -/
theorem consume_lines (hline : newline ∉ line) (data : List UInt8) :
    (consume (decoderAt line, c.begun line) data).1.finish
      (consume (decoderAt line, c.begun line) data).2 =
      c.add (lines (line ++ data)) := by
  induction data generalizing line c with
  | nil =>
    rw [append_nil, lines, splitOn_eq_singleton hline]
    exact finish_decoderAt c line
  | cons b rest ih =>
    unfold consume
    rw [foldl_cons]
    by_cases hb : b = newline
    · subst hb
      rw [consumeByte_newline, lines, splitOn_append_cons_self_of_not_mem hline]
      exact (ih (c.add [line]) not_mem_nil).trans (add_append c [line] _)
    · rw [consumeByte_decoderAt c hb, append_cons line b rest]
      exact ih c fun hmem => (mem_append.mp hmem).elim hline fun h => hb (mem_singleton.mp h).symm

end

theorem drainFrom_reads (s : RawLevelDecoder × EngineOutputCapture) (reads : List (List UInt8))
    (last : List UInt8) :
    drainFrom s (reads.map (fun data => ⟨data, false⟩) ++ [⟨last, true⟩]) =
      some ((consume s (reads.flatten ++ last)).1.finish
        (consume s (reads.flatten ++ last)).2) := by
  induction reads generalizing s with
  | nil => rfl
  | cons data rest ih =>
    have hjoin : consume s ((data :: rest).flatten ++ last) = consume (consume s data)
      (rest.flatten ++ last) := by
      rw [flatten_cons, append_assoc]
      exact foldl_append
    rw [hjoin]
    exact ih (consume s data)

theorem kinds (line : List UInt8) :
    (isWarning line).toNat + (isError line).toNat + (isUnknown line).toNat =
      (!line.isEmpty).toNat := by
  cases line with
  | nil => rfl
  | cons b rest =>
    have hnot : ¬ (isWarning (b :: rest) = true ∧ isError (b :: rest) = true) := by
      intro hboth
      simp [isWarning, isError, warnLevel, errorLevel, List.isPrefixOf] at hboth
      exact absurd (hboth.1.1.trans hboth.2.1.symm) (by decide)
    unfold isUnknown
    cases hwarn : isWarning (b :: rest) <;> cases herror : isError (b :: rest) <;> simp_all

theorem countP_kinds (ls : List (List UInt8)) :
    ls.countP isWarning + ls.countP isError + ls.countP isUnknown = ls.countP fun line =>
      !line.isEmpty := by
  induction ls with
  | nil => rfl
  | cons line ls ih =>
    have hkind := kinds line
    simp only [countP_toNat, ← ih]
    omega

/-- For every stream and every way of reading it, the lines of each level and the other lines that
are not empty are counted, each of them once. -/
theorem drain_counts (reads : List (List UInt8)) (last : List UInt8) :
    let ls := lines (reads.flatten ++ last)
    drain (reads.map (fun data => ⟨data, false⟩) ++ [⟨last, true⟩]) =
        some ⟨ls.countP isWarning, ls.countP isError, ls.countP isUnknown⟩ ∧
      ls.countP isWarning + ls.countP isError + ls.countP isUnknown = ls.countP fun line =>
        !line.isEmpty := by
  refine ⟨?_, countP_kinds _⟩
  have hlines := consume_lines ⟨0, 0, 0⟩ not_mem_nil (reads.flatten ++ last)
  simp only [EngineOutputCapture.add, Nat.zero_add, nil_append] at hlines
  rw [← hlines]
  exact drainFrom_reads _ reads last

end DaxiangVpn.EngineCapture
