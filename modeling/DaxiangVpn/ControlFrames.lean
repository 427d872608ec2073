import DaxiangVpn.HexTexts

/-!
# Frames of the control connection

A frame is one canonical JSON object and a line feed. A decoded text is encoded
again and compared, so no other JSON text of a message is accepted; the parser
below reads the canonical text only. Characters stand for bytes: all bytes of a
frame that is accepted are ASCII.
-/

namespace DaxiangVpn.ControlFrames
open HexTexts List Nat

/-! ## Model -/

def maxMessageBytes : ℕ := 1024

/-- Largest sequence number. -/
def maxSequence : ℕ := 9007199254740991

/-- What a message says. -/
inductive Action
  /-- The receiver begins a session. -/
  | hello
  | closed
  | grant
  /-- The receiver has executed a command. -/
  | ack
  deriving DecidableEq

def Action.text : Action → List Char
  | .hello => "hello".toList
  | .closed => "closed".toList
  | .grant => "grant".toList
  | .ack => "ack".toList

def actionOf (text : List Char) : Option Action :=
  [Action.hello, .closed, .grant, .ack].find? fun a => a.text = text

structure Message where
  version : ℤ
  binding : String
  session : String
  nonce : String
  sequence : ℕ
  action : Action
  untilUnixNano : ℤ
  deriving DecidableEq

/-- The text of a digest. -/
def digest (s : String) : Bool := lowerHex 64 s

/-- The text of an identifier. -/
def validID (s : String) : Bool := decide (s.toList.length = 32) && digest (s ++ s)

/-- The decimal text of an integer. -/
def intText (z : ℤ) : List Char :=
  if z < 0 then '-' :: Nat.toDigits 10 z.natAbs else Nat.toDigits 10 z.natAbs

/-- The fields of a message as they stand in its text. -/
inductive Key
  | version
  | binding
  | session
  | nonce
  | sequence
  | action
  | untilUnixNano

/-- What stands before the value of a field. -/
def Key.text : Key → List Char
  | .version => "\x7b\"version\":".toList
  | .binding => ",\"binding\":\"".toList
  | .session => ",\"session\":\"".toList
  | .nonce => ",\"nonce\":\"".toList
  | .sequence => ",\"sequence\":".toList
  | .action => ",\"action\":\"".toList
  | .untilUnixNano => ",\"until_unix_nano\":".toList

/-- `json.Marshal` of a message whose texts need no escapes. -/
def marshal (m : Message) : List Char :=
  Key.version.text ++ intText m.version ++
    Key.binding.text ++ m.binding.toList ++ ['"'] ++
    Key.session.text ++ m.session.toList ++ ['"'] ++
    Key.nonce.text ++ m.nonce.toList ++ ['"'] ++
    Key.sequence.text ++ Nat.toDigits 10 m.sequence ++
    Key.action.text ++ m.action.text ++ ['"'] ++
    Key.untilUnixNano.text ++ intText m.untilUnixNano ++ ['\x7d']

/-- Read a fixed text. -/
def expect : List Char → List Char → Option (List Char)
  | [], b => some b
  | _ :: _, [] => none
  | c :: literal, d :: b => if c = d then expect literal b else none

/-- Read a text up to its quote. -/
def takeText (b : List Char) : Option (List Char × List Char) :=
  match b.dropWhile (fun c => decide (c ≠ '"')) with
  | [] => none
  | _ :: rest => some (b.takeWhile (fun c => decide (c ≠ '"')), rest)

/-- Read a natural number. -/
def takeNat (b : List Char) : Option (ℕ × List Char) :=
  if b.takeWhile Char.isDigit = [] then none
  else some (Nat.ofDigitChars 10 (b.takeWhile Char.isDigit) 0, b.dropWhile Char.isDigit)

/-- Read an integer. -/
def takeInt : List Char → Option (ℤ × List Char)
  | '-' :: b => (takeNat b).map fun x => (-(x.1 : ℤ), x.2)
  | b => (takeNat b).map fun x => ((x.1 : ℤ), x.2)

/-- The number fits 64 bits with a sign. -/
def int64 (z : ℤ) : Bool := decide (-9223372036854775808 ≤ z) && decide (z < 9223372036854775808)

def textField (k : Key) (b : List Char) : Option (List Char × List Char) :=
  (expect k.text b).bind takeText

/-- Read a field that is a natural number. -/
def natField (k : Key) (b : List Char) : Option (ℕ × List Char) := (expect k.text b).bind takeNat

/-- Read a field that is an integer. -/
def intField (k : Key) (b : List Char) : Option (ℤ × List Char) := (expect k.text b).bind takeInt

/-- `json.Unmarshal` of a canonical text. -/
def unmarshal (b : List Char) : Option Message := do
  let (version, b) ← intField .version b
  let (binding, b) ← textField .binding b
  let (session, b) ← textField .session b
  let (nonce, b) ← textField .nonce b
  let (sequence, b) ← natField .sequence b
  let (text, b) ← textField .action b
  let action ← actionOf text
  let (untilUnixNano, b) ← intField .untilUnixNano b
  if b = ['\x7d'] then
    some ⟨version, .ofList binding, .ofList session, .ofList nonce, sequence, action, untilUnixNano⟩
  else none

/-- The checks of the fields. -/
def validMessage (m : Message) : Bool :=
  decide (m.version = 1) && digest m.binding && validID m.session && validID m.nonce &&
    decide (m.sequence ≤ maxSequence) && decide (0 ≤ m.untilUnixNano) && int64 m.untilUnixNano

def decodeMessage (b : List Char) : Option Message :=
  if b = [] ∨ maxMessageBytes < b.length then none
  else match unmarshal b with
    | none => none
    | some m => if validMessage m = true ∧ b = marshal m then some m else none

/-- What a read of a frame finds. -/
inductive Read
  | blocked
  /-- No message begins here. -/
  | failed
  | message (m : Message) (rest : List Char)

/-- The bytes of the first line. -/
def line (input : List Char) : List Char := input.takeWhile fun c => decide (c ≠ '\n')

/-- `readMessage` of the bytes that have come. The reader holds one line. -/
def readMessage (input : List Char) : Read :=
  if maxMessageBytes < (line input).length then .failed
  else if (line input).length = input.length then .blocked
  else match decodeMessage (line input) with
    | none => .failed
    | some m => .message m (input.drop ((line input).length + 1))

/-- The bytes that `writeMessage` writes. -/
def frame (m : Message) : List Char := marshal m ++ ['\n']

/-! ## Round trip -/

theorem expect_append (literal b : List Char) : expect literal (literal ++ b) = some b := by
  induction literal with
  | nil => rfl
  | cons c literal ih => simpa [expect] using ih

theorem takeText_append {s : List Char} (hs : ∀ c ∈ s, c ≠ '"') (b : List Char) :
    takeText (s ++ '"' :: b) = some (s, b) := by
  have hpos : ∀ c ∈ s, decide (c ≠ '"') = true := fun c hc => decide_eq_true (hs c hc)
  unfold takeText
  rw [dropWhile_append_of_pos hpos, takeWhile_append_of_pos hpos]
  simp

/-- What follows a number is no digit. -/
def Stops (b : List Char) : Prop := ∃ c rest, b = c :: rest ∧ c.isDigit = false

theorem Key.stops (k : Key) (b : List Char) : Stops (k.text ++ b) := by
  cases k <;> exact ⟨_, _, rfl, by decide⟩

variable {b input : List Char} {m : Message}

theorem takeNat_append (n : ℕ) (hb : Stops b) : takeNat (Nat.toDigits 10 n ++ b) = some (n, b) := by
  obtain ⟨c, rest, rfl, hc⟩ := hb
  have hpos : ∀ d ∈ Nat.toDigits 10 n, d.isDigit = true := fun d hd =>
    isDigit_of_mem_toDigits (by decide) (by decide) hd
  have hvalue : Nat.ofDigitChars 10 (Nat.toDigits 10 n) 0 = n :=
    ofDigitChars_toDigits (by decide) (by decide)
  unfold takeNat
  rw [takeWhile_append_of_pos hpos, dropWhile_append_of_pos hpos]
  simp [hc, hvalue]

/-- An integer is read up to what follows. -/
theorem takeInt_append (z : ℤ) (hb : Stops b) : takeInt (intText z ++ b) = some (z, b) := by
  unfold intText
  split_ifs with hneg
  · rw [cons_append]
    simp only [takeInt, takeNat_append _ hb, Option.map_some]
    congr 2
    omega
  have hhead : ∀ d ∈ Nat.toDigits 10 z.natAbs, d ≠ '-' := by
    rintro d hd rfl
    cases isDigit_of_mem_toDigits (by decide) (by decide) hd
  have hread := takeNat_append z.natAbs hb
  cases hdigits : Nat.toDigits 10 z.natAbs with
  | nil =>
    obtain ⟨c, rest, rfl, hc⟩ := hb
    rw [hdigits] at hread
    simp [takeNat, hc] at hread
  | cons d digits =>
    rw [hdigits] at hread hhead
    have hd := hhead d mem_cons_self
    rw [cons_append] at hread ⊢
    have hint : takeInt (d :: (digits ++ b)) =
        (takeNat (d :: (digits ++ b))).map fun x => ((x.1 : ℤ), x.2) := by
      unfold takeInt
      split
      · rename_i heq
        cases heq
        exact absurd rfl hd
      · rfl
    rw [hint, hread, Option.map_some]
    congr 2
    omega

/-- The texts of a message have no quotes and no line feeds. -/
def Plain (m : Message) : Prop :=
  (∀ c ∈ m.binding.toList, c ≠ '"' ∧ c ≠ '\n') ∧ (∀ c ∈ m.session.toList, c ≠ '"' ∧ c ≠ '\n') ∧
    ∀ c ∈ m.nonce.toList, c ≠ '"' ∧ c ≠ '\n'

theorem actionOf_text (a : Action) : actionOf a.text = some a := by
  cases a <;> decide

theorem text_plain (a : Action) : ∀ c ∈ a.text, c ≠ '"' ∧ c ≠ '\n' := by
  have hall : a.text.all (fun c => decide (c ≠ '"' ∧ c ≠ '\n')) = true := by cases a <;> decide
  exact fun c hc => of_decide_eq_true (all_eq_true.mp hall c hc)

theorem textField_append (k : Key) {s : List Char} (hs : ∀ c ∈ s, c ≠ '"') (b : List Char) :
    textField k (k.text ++ (s ++ '"' :: b)) = some (s, b) := by
  rw [textField, expect_append, Option.bind_some, takeText_append hs]

theorem natField_append (k : Key) (n : ℕ) (hb : Stops b) :
    natField k (k.text ++ (Nat.toDigits 10 n ++ b)) = some (n, b) := by
  rw [natField, expect_append, Option.bind_some, takeNat_append n hb]

theorem intField_append (k : Key) (z : ℤ) (hb : Stops b) :
    intField k (k.text ++ (intText z ++ b)) = some (z, b) := by
  rw [intField, expect_append, Option.bind_some, takeInt_append z hb]

/-- A message is read back from its canonical text. -/
theorem unmarshal_marshal (h : Plain m) : unmarshal (marshal m) = some m := by
  obtain ⟨hbinding, hsession, hnonce⟩ := h
  have hend : Stops ['\x7d'] := ⟨_, _, rfl, by decide⟩
  have hb : ∀ c ∈ m.binding.toList, c ≠ '"' := fun c hc => (hbinding c hc).1
  have hs : ∀ c ∈ m.session.toList, c ≠ '"' := fun c hc => (hsession c hc).1
  have hn : ∀ c ∈ m.nonce.toList, c ≠ '"' := fun c hc => (hnonce c hc).1
  have ha : ∀ c ∈ m.action.text, c ≠ '"' := fun c hc => (text_plain m.action c hc).1
  unfold unmarshal marshal
  simp only [append_assoc, cons_append, nil_append, Option.bind_eq_bind]
  rw [intField_append _ _ (Key.stops _ _)]
  dsimp only [Option.bind_some]
  rw [textField_append _ hb]
  dsimp only [Option.bind_some]
  rw [textField_append _ hs]
  dsimp only [Option.bind_some]
  rw [textField_append _ hn]
  dsimp only [Option.bind_some]
  rw [natField_append _ _ (Key.stops _ _)]
  dsimp only [Option.bind_some]
  rw [textField_append _ ha]
  dsimp only [Option.bind_some]
  rw [actionOf_text]
  rw [intField_append _ _ hend]
  dsimp only [Option.bind_some]
  rw [if_pos rfl, String.ofList_toList, String.ofList_toList, String.ofList_toList]

theorem isHex_ne {c : Char} (h : isHex c = true) : c ≠ '"' ∧ c ≠ '\n' := by
  refine ⟨?_, ?_⟩ <;>
  · rintro rfl
    revert h
    decide

theorem validID_hex {s : String} (h : validID s = true) : ∀ c ∈ s.toList, isHex c = true := by
  simp only [validID, digest, Bool.and_eq_true, lowerHex_iff, String.toList_append, mem_append] at h
  exact fun c hc => h.2.2 c (.inl hc)

theorem plain_of_valid (hbinding : digest m.binding = true)
    (hsession : validID m.session = true) (hnonce : validID m.nonce = true) : Plain m := by
  have hbinding := (lowerHex_iff.mp hbinding).2
  exact ⟨fun c hc => isHex_ne (hbinding c hc), fun c hc => isHex_ne (validID_hex hsession c hc),
    fun c hc => isHex_ne (validID_hex hnonce c hc)⟩

theorem decodeMessage_some (h : decodeMessage b = some m) :
    validMessage m = true ∧ b = marshal m := by
  unfold decodeMessage at h
  split at h
  · cases h
  split at h
  · cases h
  · split at h
    · rename_i hvalid
      cases h
      exact hvalid
    · cases h

theorem decodeMessage_marshal {m' : Message} (h : Plain m)
    (hm : decodeMessage (marshal m) = some m') : m' = m := by
  unfold decodeMessage at hm
  rw [unmarshal_marshal h] at hm
  split at hm
  · cases hm
  · dsimp only at hm
    split at hm
    · cases hm
      rfl
    · cases hm

theorem intText_plain (z : ℤ) : ∀ c ∈ intText z, c ≠ '\n' := by
  have hdigits : ∀ c ∈ Nat.toDigits 10 z.natAbs, c ≠ '\n' := by
    rintro c hc rfl
    cases isDigit_of_mem_toDigits (by decide) (by decide) hc
  unfold intText
  split
  · rintro c hc
    rcases mem_cons.mp hc with rfl | hc
    · decide
    · exact hdigits c hc
  · exact hdigits

/-- The text of a message has no line feed. -/
theorem marshal_plain (h : Plain m) : ∀ c ∈ marshal m, c ≠ '\n' := by
  obtain ⟨hbinding, hsession, hnonce⟩ := h
  have hkey : ∀ k : Key, ∀ c ∈ k.text, c ≠ '\n' := by
    intro k
    have hall : k.text.all (fun c => decide (c ≠ '\n')) = true := by cases k <;> decide
    exact fun c hc => of_decide_eq_true (all_eq_true.mp hall c hc)
  have hquote : ∀ c ∈ ['"'], c ≠ '\n' := by simp
  have hend : ∀ c ∈ ['\x7d'], c ≠ '\n' := by simp
  have hsequence : ∀ c ∈ Nat.toDigits 10 m.sequence, c ≠ '\n' := by
    rintro c hc rfl
    cases isDigit_of_mem_toDigits (by decide) (by decide) hc
  have happend : ∀ {a b : List Char}, (∀ c ∈ a, c ≠ '\n') → (∀ c ∈ b, c ≠ '\n') →
      ∀ c ∈ a ++ b, c ≠ '\n' := by
    intro a b ha hb c hc
    rcases mem_append.mp hc with hc | hc
    · exact ha c hc
    · exact hb c hc
  repeat' apply happend
  all_goals first
    | exact hkey _
    | exact hquote
    | exact hend
    | exact hsequence
    | exact intText_plain _
    | exact fun c hc => (hbinding c hc).2
    | exact fun c hc => (hsession c hc).2
    | exact fun c hc => (hnonce c hc).2
    | exact fun c hc => (text_plain m.action c hc).2

theorem readMessage_nil : readMessage [] = .blocked := by
  simp [readMessage, line, maxMessageBytes]

theorem line_self (h : '\n' ∉ input) : line input = input := by
  have hpos : ∀ c ∈ input, decide (c ≠ '\n') = true := by
    refine fun c hc => decide_eq_true ?_
    rintro rfl
    exact h hc
  have happend : (input ++ []).takeWhile (fun c => decide (c ≠ '\n')) =
      input ++ [].takeWhile fun c => decide (c ≠ '\n') := takeWhile_append_of_pos hpos
  simpa [line] using happend

theorem line_frame (h : Plain m) (rest : List Char) : line (frame m ++ rest) = marshal m := by
  have hpos : ∀ c ∈ marshal m, decide (c ≠ '\n') = true := fun c hc =>
    decide_eq_true (marshal_plain h c hc)
  unfold line frame
  rw [append_assoc, takeWhile_append_of_pos hpos]
  simp

variable {rest : List Char}

theorem readMessage_incomplete (h : '\n' ∉ input) : readMessage input ≠ .message m rest := by
  unfold readMessage
  rw [line_self h]
  split
  · exact Read.noConfusion
  · rw [if_pos rfl]
    exact Read.noConfusion

theorem readMessage_frame {m' : Message} (h : Plain m)
    (hm : readMessage (frame m) = .message m' rest) : m' = m ∧ rest = [] := by
  have hline : line (frame m) = marshal m := by simpa using line_frame h []
  unfold readMessage at hm
  rw [hline] at hm
  split at hm
  · cases hm
  split at hm
  · cases hm
  split at hm
  · cases hm
  · rename_i hdecode
    cases hm
    refine ⟨decodeMessage_marshal h hdecode, ?_⟩
    simp [frame]

theorem line_split (h : (line input).length ≠ input.length) :
    input = line input ++ '\n' :: input.drop ((line input).length + 1) := by
  induction input with
  | nil => exact absurd rfl h
  | cons c input ih =>
    by_cases hc : c = '\n'
    · subst hc
      simp [line]
    have hline : line (c :: input) = c :: line input := by
      simp [line, hc]
    rw [hline] at h ⊢
    simp only [length_cons, ne_eq, add_right_cancel_iff] at h
    rw [cons_append, length_cons, drop_succ_cons]
    exact congrArg (c :: ·) (ih h)

theorem readMessage_message
    (h : readMessage input = .message m rest) :
    validMessage m = true ∧ input = frame m ++ rest := by
  unfold readMessage at h
  split at h
  · cases h
  split at h
  · cases h
  rename_i hcomplete
  split at h
  · cases h
  rename_i hdecode
  cases h
  obtain ⟨hvalid, hline⟩ := decodeMessage_some hdecode
  refine ⟨hvalid, ?_⟩
  have hsplit := line_split hcomplete
  rw [hline] at hsplit ⊢
  rw [frame, append_assoc]
  exact hsplit

/-! ## Streams of frames -/

/-- The loop of `writeMessage`, with the number of bytes that each `Write` takes: the pieces that go
out, if the loop ends. -/
def writeLoop : List ℕ → List Char → Option (List (List Char))
  | _, [] => some []
  | [], _ :: _ => none
  | n :: takes, c :: b =>
    if n = 0 then none else (writeLoop takes ((c :: b).drop n)).map ((c :: b).take n :: ·)

def writeMessage (takes : List ℕ) (m : Message) : Option (List (List Char)) :=
  if maxMessageBytes < (marshal m).length then none else writeLoop takes (frame m)

/-- A call of `readMessage` waits for further pieces until it returns. What came beyond the message
stays in the reader. -/
def readNext (input : List Char) (pieces : List (List Char)) :
    Option (Message × List Char × List (List Char)) :=
  match readMessage input with
  | .message m rest => some (m, rest, pieces)
  | .failed => none
  | .blocked =>
    match pieces with
    | [] => none
    | piece :: pieces => readNext (input ++ piece) pieces

/-- Successive calls of `readMessage`. -/
def readAll : ℕ → List Char → List (List Char) → Option (List Message)
  | 0, _, _ => some []
  | n + 1, input, pieces =>
    (readNext input pieces).bind fun r => (readAll n r.2.1 r.2.2).map (r.1 :: ·)

theorem plain_of_validMessage (h : validMessage m = true) : Plain m := by
  simp only [validMessage, Bool.and_eq_true] at h
  exact plain_of_valid h.1.1.1.1.1.2 h.1.1.1.1.2 h.1.1.1.2

theorem marshal_length (h : validMessage m = true) : (marshal m).length ≤ maxMessageBytes := by
  simp only [validMessage, validID, digest, int64, Bool.and_eq_true, decide_eq_true_eq] at h
  obtain ⟨⟨⟨⟨⟨⟨hversion, hbinding⟩, hsession⟩, hnonce⟩, hsequence⟩, hfrom⟩, -, huntil⟩ := h
  have hnumber : (Nat.toDigits 10 m.sequence).length ≤ 16 :=
    toDigits_length 10 _ 16 (by decide) (by unfold maxSequence at hsequence; omega)
  have hend : (intText m.untilUnixNano).length ≤ 19 := by
    rw [intText, if_neg (by omega)]
    exact toDigits_length 10 _ 19 (by decide) (by omega)
  have haction : m.action.text.length ≤ 6 := by cases m.action <;> decide
  have hone : (intText m.version).length = 1 := by rw [hversion]; decide
  have hkey : ∀ k : Key, k.text.length ≤ 19 := by
    intro k
    cases k <;> decide
  have hdigest : m.binding.toList.length = 64 := by
    rw [String.length_toList]
    exact (lowerHex_iff.mp hbinding).1
  have h1 := hkey .version
  have h2 := hkey .binding
  have h3 := hkey .session
  have h4 := hkey .nonce
  have h5 := hkey .sequence
  have h6 := hkey .action
  have h7 := hkey .untilUnixNano
  unfold marshal maxMessageBytes
  simp only [length_append, length_singleton, hdigest, hsession.1, hnonce.1, hone]
  omega

theorem decodeMessage_iff : decodeMessage b = some m ↔ validMessage m = true ∧ b = marshal m := by
  refine ⟨decodeMessage_some, ?_⟩
  rintro ⟨hvalid, hb⟩
  have hpos : 0 < (marshal m).length := by
    unfold marshal
    simp only [length_append, length_singleton]
    omega
  have hne : ¬ (marshal m = [] ∨ maxMessageBytes < (marshal m).length) :=
    not_or.mpr ⟨ne_nil_of_length_pos hpos, not_lt.mpr (marshal_length hvalid)⟩
  rw [hb, decodeMessage, if_neg hne, unmarshal_marshal (plain_of_validMessage hvalid)]
  exact if_pos ⟨hvalid, rfl⟩

theorem readMessage_append (h : validMessage m = true) (rest : List Char) :
    readMessage (frame m ++ rest) = .message m rest := by
  have hlong : ¬ (marshal m).length = (frame m ++ rest).length := by simp [frame]
  unfold readMessage
  rw [line_frame (plain_of_validMessage h), if_neg (not_lt.mpr (marshal_length h)), if_neg hlong,
    decodeMessage_iff.mpr ⟨h, rfl⟩]
  simp [frame]

theorem readMessage_part (h : validMessage m = true) (hinput : marshal m = input ++ rest) :
    readMessage input = .blocked := by
  have hfeed : '\n' ∉ input := fun hc =>
    marshal_plain (plain_of_validMessage h) _ (hinput ▸ mem_append_left _ hc) rfl
  have hlength := marshal_length h
  rw [hinput, length_append] at hlength
  unfold readMessage
  rw [line_self hfeed, if_neg (by omega), if_pos rfl]

theorem readNext_frame (h : validMessage m = true) {pieces : List (List Char)}
    (hbytes : input ++ pieces.flatten = frame m ++ rest) :
    ∃ input' pieces', readNext input pieces = some (m, input', pieces') ∧ input' ++
      pieces'.flatten = rest := by
  induction pieces generalizing input with
  | nil =>
    rw [flatten_nil, append_nil] at hbytes
    exact ⟨rest, [], by rw [readNext, hbytes, readMessage_append h], by simp⟩
  | cons piece pieces ih =>
    rcases append_eq_append_iff.mp hbytes with ⟨more, hframe, hmore⟩ | ⟨more, hinput, hmore⟩
    · rcases eq_nil_or_concat more with rfl | ⟨more, c, rfl⟩
      · rw [append_nil] at hframe
        have hread := readMessage_append h []
        rw [append_nil, hframe] at hread
        exact ⟨[], piece :: pieces, by rw [readNext, hread], hmore⟩
      · -- the input ends within the frame, so its line feed is still to come
        rw [frame, concat_eq_append, ← append_assoc] at hframe
        have hpart := readMessage_part h (append_inj_left' hframe rfl)
        rw [readNext, hpart]
        rw [flatten_cons, ← append_assoc] at hbytes
        exact ih hbytes
    · exact ⟨more, piece :: pieces, by rw [readNext, hinput, readMessage_append h], hmore.symm⟩

theorem readAll_frames {ms : List Message} (h : ∀ m ∈ ms, validMessage m = true)
    {pieces : List (List Char)} (hbytes : input ++ pieces.flatten = (ms.map frame).flatten) :
      readAll ms.length input pieces = some ms := by
  induction ms generalizing input pieces with
  | nil => rfl
  | cons m ms ih =>
    obtain ⟨input', pieces', hread, hrest⟩ := readNext_frame (h m mem_cons_self) hbytes
    have htail := ih (fun x hx => h x (mem_cons_of_mem _ hx)) hrest
    rw [length_cons, readAll, hread, Option.bind_some, htail, Option.map_some]

theorem writeLoop_flatten {takes : List ℕ} {out : List (List Char)}
    (h : writeLoop takes b = some out) :
    out.flatten = b := by
  induction takes generalizing b out with
  | nil =>
    cases b with
    | nil => cases h; rfl
    | cons => cases h
  | cons n takes ih =>
    cases b with
    | nil => cases h; rfl
    | cons =>
      rw [writeLoop] at h
      split at h
      · cases h
      · obtain ⟨rest, hrest, rfl⟩ := Option.map_eq_some_iff.mp h
        rw [flatten_cons, ih hrest, take_append_drop]

theorem writeLoop_ends {takes : List ℕ} (htakes : ∀ n ∈ takes, n ≠ 0)
    (hlong : b.length ≤ takes.length) :
    ∃ out, writeLoop takes b = some out := by
  induction takes generalizing b with
  | nil =>
    rw [length_eq_zero_iff.mp (le_zero.mp hlong)]
    exact ⟨[], rfl⟩
  | cons n takes ih =>
    cases b with
    | nil => exact ⟨[], rfl⟩
    | cons c b =>
      have hn := htakes n mem_cons_self
      have hshort : ((c :: b).drop n).length ≤ takes.length := by
        simp only [length_drop, length_cons] at hlong ⊢
        omega
      obtain ⟨rest, hrest⟩ := ih (fun k hk => htakes k (mem_cons_of_mem _ hk)) hshort
      exact ⟨_, by rw [writeLoop, if_neg hn, hrest, Option.map_some]⟩

/-- Frames are canonical and end by themselves. -/
structure SelfDelimiting : Prop where
  /-- Exactly the encodings of valid messages are accepted, each as its message. -/
  accepts : ∀ b m, decodeMessage b = some m ↔ validMessage m = true ∧ b = marshal m
  /-- Different accepted texts are different messages. -/
  distinct : ∀ b b' m, decodeMessage b = some m → decodeMessage b' = some m → b = b'
  writes : ∀ m takes, validMessage m = true → (∀ n ∈ takes, n ≠ 0) →
    (frame m).length ≤ takes.length →
    ∃ out, writeMessage takes m = some out
  /-- What is written is read back in order, in whatever pieces it comes. -/
  reads : ∀ ms outs, (∀ m ∈ ms, validMessage m = true) →
    List.Forall₂ (fun m out => ∃ takes, writeMessage takes m = some out) ms outs →
    ∀ pieces, pieces.flatten = outs.flatten.flatten → readAll ms.length [] pieces = some ms

/-- The frames of the control connection are canonical and end by themselves. -/
theorem frames_selfDelimiting : SelfDelimiting where
  accepts := fun _ _ => decodeMessage_iff
  distinct := fun _ _ _ hm hm' => (decodeMessage_some hm).2.trans (decodeMessage_some hm').2.symm
  writes := by
    intro m takes hvalid htakes hlong
    rw [writeMessage, if_neg (not_lt.mpr (marshal_length hvalid))]
    exact writeLoop_ends htakes hlong
  reads := by
    intro ms outs hvalid hwritten pieces hpieces
    have hflatten : outs.flatten.flatten = (ms.map frame).flatten := by
      clear hvalid hpieces
      induction hwritten with
      | nil => rfl
      | cons hout _ ih =>
        obtain ⟨takes, hout⟩ := hout
        rw [writeMessage] at hout
        split at hout
        · cases hout
        · rw [flatten_cons, flatten_append, writeLoop_flatten hout, ih, map_cons, flatten_cons]
    exact readAll_frames hvalid (by rw [nil_append, hpieces, hflatten])

end DaxiangVpn.ControlFrames
