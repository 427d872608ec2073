import Mathlib.Data.List.TakeWhile
import DaxiangVpn.Base64Url

/-!
# Headers of a FETCH through the tunnel

The egress writes the status, one line for each header value and an end marker, and then the body.
The hub reads the lines back, trims each of them and adds the headers that it can parse. A value
that is empty encodes to nothing, so trimming takes the separator before it and the header is
dropped.
-/

namespace DaxiangVpn.FetchHeaders

open Base64Url List Function Nat

/-! ## Functions of the standard library -/

/-- A text of ASCII characters. -/
def ascii (s : String) : Bytes := s.toList.map fun c => UInt8.ofNat c.toNat

/-- `strings.CutPrefix`: what follows a leading text. -/
def cut : Bytes → Bytes → Option Bytes
  | [], s => some s
  | _ :: _, [] => none
  | c :: lead, d :: s => if c = d then cut lead s else none

def asciiSpace (c : UInt8) : Bool := c ∈ [9, 10, 11, 12, 13, 32]

/-- The parts of `strings` that decode characters beyond ASCII: `TrimFunc` and `TrimRightFunc` with
`unicode.IsSpace`. -/
structure Unicode where
  trimFunc : Bytes → Bytes
  trimRightFunc : Bytes → Bytes

/-- The end of `strings.TrimSpace`. -/
def trimEnd (u : Unicode) (s : Bytes) : Bytes :=
  match s.reverse.dropWhile asciiSpace with
  | [] => []
  | c :: rest => if 128 ≤ c then u.trimRightFunc (c :: rest).reverse else (c :: rest).reverse

def trimSpace (u : Unicode) (s : Bytes) : Bytes :=
  match s.dropWhile asciiSpace with
  | [] => []
  | c :: rest => if 128 ≤ c then u.trimFunc (c :: rest) else trimEnd u (c :: rest)

/-- `strings.SplitN` at the first space into two parts. -/
def splitSpace (s : Bytes) : Option (Bytes × Bytes) :=
  match s.dropWhile (· ≠ 32) with
  | [] => none
  | _ :: after => some (s.takeWhile (· ≠ 32), after)

def atoi (s : Bytes) : Option ℤ :=
  let number (digits : List Char) : Option ℤ :=
    if digits ≠ [] ∧ digits.all Char.isDigit then some (Nat.ofDigitChars 10 digits 0) else none
  let signed : Option ℤ :=
    match s.map fun c => Char.ofNat c.toNat with
    | '-' :: digits => (number digits).map Neg.neg
    | '+' :: digits => number digits
    | digits => number digits
  signed.filter fun z => -2 ^ 63 ≤ z ∧ z < 2 ^ 63

/-- `bufio.Reader.ReadString` up to a line end, from a stream that arrives in pieces. -/
def readString : List Bytes → Option (Bytes × List Bytes)
  | [] => none
  | piece :: rest =>
    match piece.dropWhile (· ≠ 10) with
    | _ :: after => some (piece.takeWhile (· ≠ 10) ++ [10], after :: rest)
    | [] => (readString rest).map fun line => (piece ++ line.1, line.2)

def validHeaderFieldByte (c : UInt8) : Bool :=
  c ∈ ascii "!#$%&'*+-.^_\x60|~0123456789ABCDEFGHIJKLMNOPQRSTUVWXYZabcdefghijklmnopqrstuvwxyz"

/-- Upper case at the start and after each dash, lower case elsewhere. -/
def canonicalCase : Bool → Bytes → Bytes
  | _, [] => []
  | upper, c :: rest =>
    let c := if upper ∧ 97 ≤ c ∧ c ≤ 122 then c - 32
      else if ¬ upper ∧ 65 ≤ c ∧ c ≤ 90 then c + 32 else c
    c :: canonicalCase (c = 45) rest

def canonicalMIMEHeaderKey (name : Bytes) : Bytes :=
  if name.all validHeaderFieldByte then canonicalCase true name else name

/-- The values of each name. -/
abbrev Values := Bytes → List Bytes

/-- `http.Header.Add`. -/
def addHeader (h : Values) (name value : Bytes) : Values :=
  update h (canonicalMIMEHeaderKey name) (h (canonicalMIMEHeaderKey name) ++ [value])

/-! ## The egress -/

/-- A response header: a map from canonical names to values, in the order in which it is visited. -/
structure Header where
  /-- Names with their values. -/
  entries : List (Bytes × List Bytes)
  /-- A name is there once. -/
  nodup : (entries.map Prod.fst).Nodup
  canonical : ∀ entry ∈ entries, canonicalMIMEHeaderKey entry.1 = entry.1

def Header.values (h : Header) : Values := fun name => (h.entries.lookup name).getD []

def headerLine (name value : Bytes) : Bytes :=
  ascii "HEADER " ++ encode name ++ [32] ++ encode value ++ [10]

/-- What `handleFetchStream` writes for a response. -/
def handleFetchStream (status : Fin 1000) (h : Header) (body : Bytes) : Bytes :=
  ascii "STATUS " ++ ascii (String.ofList (Nat.toDigits 10 status)) ++ [10] ++
    (h.entries.flatMap fun entry => entry.2.flatMap fun value => headerLine entry.1 value) ++
    ascii "ENDHDR\n" ++ body

/-! ## The hub -/

def parseEncodedHeader (line : Bytes) : Option (Bytes × Bytes) := do
  let rest ← cut (ascii "HEADER ") line
  let parts ← splitSpace rest
  let name ← decode parts.1
  let value ← decode parts.2
  some (name, value)

/-- What the hub answers. -/
inductive Reply
  | failed (code : ℕ) (text : Bytes)
  /-- The handler panics, so the connection is closed without a response. -/
  | panicked
  /-- A response, with the status that was sent ahead of it. -/
  | response (ahead : Option ℤ) (status : ℤ) (header : Values) (body : List Bytes)

/-- Statuses that `net/http` sends ahead of a response. -/
def informational (status : ℤ) : Bool := 100 ≤ status ∧ status ≤ 199 ∧ status ≠ 101

def aheadStatus (status : ℤ) : Option ℤ := if informational status then some status else none

/-- The status of the response, which is 200 after an informational one. -/
def finalStatus (status : ℤ) : ℤ := if informational status then 200 else status

/-- `WriteHeader` of `net/http` and the copy of the body. -/
def writeHeader (status : ℤ) (header : Values) (body : List Bytes) : Reply :=
  if status < 100 ∨ 999 < status then .panicked
  else .response (aheadStatus status) (finalStatus status) header body

/-- The loop over header lines, for at most so many lines: headers, and the pieces after the end
marker. A stream of so many bytes has no more lines. -/
def readHeaders (u : Unicode) : ℕ → List Bytes → Values → Option (Values × List Bytes)
  | 0, _, _ => none
  | n + 1, pieces, header =>
    match readString pieces with
    | none => none
    | some (raw, rest) =>
      let line := trimSpace u raw
      if line = ascii "ENDHDR" then some (header, rest)
      else
        match parseEncodedHeader line with
        | some (name, value) => readHeaders u n rest (addHeader header name value)
        | none => readHeaders u n rest header

/-- What `handleFetchAdmission` answers after the status line; `readErr` is the error at the end of
the stream. -/
def handleFetchAdmission (u : Unicode) (statusLine : Bytes) (pieces : List Bytes)
    (readErr : Bytes) : Reply :=
  match cut (ascii "ERR ") statusLine with
  | some text => .failed 502 text
  | none =>
    match cut (ascii "STATUS ") statusLine with
    | none => .failed 502 (ascii "invalid fetch response")
    | some statusText =>
      match atoi statusText with
      | none => .failed 502 (ascii "invalid fetch status")
      | some status =>
        match readHeaders u pieces.flatten.length pieces fun _ => [] with
        | none => .failed 502 readErr
        | some (header, body) => writeHeader status header body

/-- A FETCH over a stream that arrives in pieces. The status line is read when the command is
opened. -/
def fetch (u : Unicode) (pieces : List Bytes) (readErr : Bytes) : Reply :=
  match readString pieces with
  | none => .failed 503 (ascii "no usable reverse client session")
  | some (line, rest) => handleFetchAdmission u (trimSpace u line) rest readErr

/-! ## Lines -/

variable {pieces : List Bytes} {c : UInt8}

section

variable {u : Unicode}

theorem cut_append (lead s : Bytes) : cut lead (lead ++ s) = some s := by
  induction lead with
  | nil => rfl
  | cons c lead ih => rw [cons_append, cut, if_pos rfl, ih]

/-- A line is read up to its end, however the stream is cut into pieces. -/
theorem readString_line {line tail : Bytes} (hline : 10 ∉ line)
    (h : pieces.flatten = line ++ 10 :: tail) :
    ∃ rest, readString pieces = some (line ++ [10], rest) ∧ rest.flatten = tail := by
  have hbefore : ∀ l : Bytes, 10 ∉ l → ∀ c ∈ l, decide (c ≠ 10) = true := by
    intro l hl c hc
    exact decide_eq_true fun heq => hl (heq ▸ hc)
  induction pieces generalizing line with
  | nil => cases (append_eq_nil_iff.mp h.symm).2
  | cons piece rest ih =>
    rw [flatten_cons] at h
    unfold readString
    split
    · rename_i c after hdrop
      have hc : c = 10 := by
        have hhead := head_dropWhile_not (fun c : UInt8 => decide (c ≠ 10)) (l := piece)
          (by rw [hdrop]; exact cons_ne_nil c after)
        simp only [hdrop, head_cons, decide_eq_false_iff_not, not_not] at hhead
        exact hhead
      subst hc
      have hpiece : piece = piece.takeWhile (fun c => decide (c ≠ 10)) ++ 10 :: after := by
        rw [← hdrop, takeWhile_append_dropWhile]
      have hfirst : 10 ∉ piece.takeWhile (fun c => decide (c ≠ 10)) := by
        intro hmem
        have hne := mem_takeWhile_imp hmem
        simp at hne
      rw [hpiece, append_assoc, cons_append] at h
      have htake := congrArg (List.takeWhile fun c => decide (c ≠ 10)) h
      have hrest := congrArg (List.dropWhile fun c => decide (c ≠ 10)) h
      rw [takeWhile_append_of_pos (hbefore _ hfirst), takeWhile_append_of_pos
        (hbefore _ hline)] at htake
      rw [dropWhile_append_of_pos (hbefore _ hfirst), dropWhile_append_of_pos
        (hbefore _ hline)] at hrest
      simp only [takeWhile_cons, dropWhile_cons, ne_eq, not_true_eq_false, decide_false,
        Bool.false_eq_true, if_false, append_nil] at htake hrest
      refine ⟨after :: rest, ?_, ?_⟩
      · rw [htake]
      · rw [flatten_cons]
        exact (List.cons.inj hrest).2
    · rename_i hdrop
      have hnone : 10 ∉ piece := by
        intro hmem
        have hall := dropWhile_eq_nil_iff.mp hdrop 10 hmem
        simp at hall
      rcases append_eq_append_iff.mp h with ⟨line', hsplit, hrest⟩ | ⟨more, hsplit, hrest⟩
      · have hline' : 10 ∉ line' := fun hmem => hline (hsplit ▸ mem_append_right piece hmem)
        obtain ⟨pieces', hread, hflat⟩ := ih hline' hrest
        refine ⟨pieces', ?_, hflat⟩
        rw [hread, hsplit, append_assoc]
        rfl
      · cases more with
        | nil =>
          rw [append_nil] at hsplit
          obtain ⟨pieces', hread, hflat⟩ :=
            ih (show (10 : UInt8) ∉ ([] : Bytes) from not_mem_nil) hrest.symm
          refine ⟨pieces', ?_, hflat⟩
          rw [hread, hsplit]
          rfl
        | cons c =>
          have hc : c = 10 := (List.cons.inj hrest).1.symm
          exact absurd (by rw [hsplit, hc]; exact mem_append_right _ mem_cons_self) hnone

/-- Characters at which trimming stops without looking beyond ASCII. -/
def Solid (c : UInt8) : Prop := asciiSpace c = false ∧ ¬ 128 ≤ c

/-- Spaces are trimmed after a text that begins and ends with solid characters. -/
theorem trimSpace_append {s z p q : Bytes} {d : UInt8} (hfront : s = c :: p)
    (hback : s = q ++ [d]) (hc : Solid c) (hd : Solid d) (hspaces : z.all asciiSpace = true) :
    trimSpace u (s ++ z) = s := by
  have hstart : (s ++ z).dropWhile asciiSpace = c :: (p ++ z) := by
    rw [hfront, cons_append, dropWhile_cons_of_neg]
    rw [hc.1]
    exact Bool.false_ne_true
  have hend : (s ++ z).reverse.dropWhile asciiSpace = d :: q.reverse := by
    have hrev : (s ++ z).reverse = z.reverse ++ d :: q.reverse := by
      rw [hback, reverse_append, reverse_append]
      rfl
    rw [hrev,
      dropWhile_append_of_pos fun e he => all_eq_true.mp hspaces e (mem_reverse.mp he),
      dropWhile_cons_of_neg]
    rw [hd.1]
    exact Bool.false_ne_true
  have hwhole : c :: (p ++ z) = s ++ z := by
    rw [hfront]
    rfl
  unfold trimSpace
  rw [hstart]
  dsimp only
  rw [if_neg hc.2, hwhole]
  unfold trimEnd
  rw [hend]
  dsimp only
  rw [if_neg hd.2, hback]
  simp only [reverse_cons, reverse_reverse]

theorem solid_of_mem (h : c ∈ alphabet) : Solid c := by
  have hall : ∀ c ∈ alphabet, asciiSpace c = false ∧ ¬ 128 ≤ c := by decide +kernel
  exact hall c h

theorem ne_space_of_mem (h : c ∈ alphabet) : c ≠ 32 := by
  rintro rfl
  cases (solid_of_mem h).1

theorem encode_last {bytes : Bytes} (h : bytes ≠ []) :
    ∃ back d, encode bytes = back ++ [d] ∧ Solid d := by
  have hne : encode bytes ≠ [] := fun hnil => h (encode_eq_nil.mp hnil)
  refine ⟨(encode bytes).dropLast, (encode bytes).getLast hne,
    (dropLast_append_getLast hne).symm, ?_⟩
  exact solid_of_mem (encode_mem bytes _ (getLast_mem hne))

/-- A header line without its end. -/
def headerText (name value : Bytes) : Bytes :=
  ascii "HEADER " ++ encode name ++ [32] ++ encode value

theorem trimSpace_headerLine (name : Bytes) {value : Bytes} (h : value ≠ []) :
    trimSpace u (headerLine name value) = headerText name value := by
  obtain ⟨back, d, hlast, hd⟩ := encode_last h
  have hback : headerText name value = (ascii "HEADER " ++ encode name ++ [32] ++ back) ++ [d] := by
    rw [headerText, hlast, ← append_assoc]
  exact trimSpace_append (p := ascii "EADER " ++ encode name ++ [32] ++ encode value) rfl hback
    ⟨rfl, by decide⟩ hd rfl

theorem parseEncodedHeader_headerText (name value : Bytes) :
    parseEncodedHeader (headerText name value) = some (name, value) := by
  have hcut : cut (ascii "HEADER ") (headerText name value) =
    some (encode name ++ 32 :: encode value) := by
    rw [headerText, append_assoc, append_assoc, cut_append]
    rfl
  have hbefore : ∀ c ∈ encode name, decide (c ≠ 32) = true := fun c hc =>
    decide_eq_true (ne_space_of_mem (encode_mem name c hc))
  have hsplit : splitSpace (encode name ++ 32 :: encode value) =
    some (encode name, encode value) := by
    unfold splitSpace
    rw [dropWhile_append_of_pos hbefore, takeWhile_append_of_pos hbefore]
    simp
  simp only [parseEncodedHeader, hcut, hsplit, decode_encode, bind, Option.bind]

/-- A header line without a value is trimmed down to its name, without the separator. -/
theorem trimSpace_headerLine_nil (name : Bytes) : trimSpace u (headerLine name []) =
    if name = [] then ascii "HEADER" else ascii "HEADER " ++ encode name := by
  split_ifs with hname
  · subst hname
    exact trimSpace_append (s := ascii "HEADER") (z := [32, 32, 10]) (p := ascii "EADER")
      (q := ascii "HEADE") rfl rfl ⟨rfl, by decide⟩ ⟨rfl, by decide⟩ rfl
  obtain ⟨back, d, hlast, hd⟩ := encode_last hname
  have hline : headerLine name [] = (ascii "HEADER " ++ encode name) ++ [32, 10] := by
    rw [headerLine, append_assoc, append_assoc]
    rfl
  have hback : ascii "HEADER " ++ encode name = (ascii "HEADER " ++ back) ++ [d] := by
    rw [hlast, ← append_assoc]
  rw [hline]
  exact trimSpace_append (p := ascii "EADER " ++ encode name) rfl hback ⟨rfl, by decide⟩ hd rfl

theorem parseEncodedHeader_empty (name : Bytes) :
    parseEncodedHeader (trimSpace u (headerLine name [])) = none := by
  rw [trimSpace_headerLine_nil]
  split_ifs
  · rfl
  · have hsplit : splitSpace (encode name) = none := by
      have hnone : (encode name).dropWhile (fun c => decide (c ≠ 32)) = [] :=
        dropWhile_eq_nil_iff.mpr fun c hc => decide_eq_true (ne_space_of_mem (encode_mem name c hc))
      rw [splitSpace, hnone]
    simp only [parseEncodedHeader, cut_append, hsplit, bind, Option.bind]

def addLine (h : Values) (line : Bytes × Bytes) : Values :=
  if line.2 = [] then h else addHeader h line.1 line.2

theorem trimSpace_end : trimSpace u (ascii "ENDHDR" ++ [10]) = ascii "ENDHDR" :=
  trimSpace_append (p := ascii "NDHDR") (q := ascii "ENDHD") rfl rfl ⟨rfl, by decide⟩
    ⟨rfl, by decide⟩ rfl

theorem trimSpace_headerLine_ne (name value : Bytes) :
    trimSpace u (headerLine name value) ≠ ascii "ENDHDR" := by
  intro heq
  by_cases hvalue : value = []
  · rw [hvalue, trimSpace_headerLine_nil] at heq
    split_ifs at heq
    · cases congrArg (List.head? ·) heq
    · cases congrArg (List.head? ·) heq
  · rw [trimSpace_headerLine name hvalue] at heq
    cases congrArg (List.head? ·) heq

theorem headerText_line (name value : Bytes) : 10 ∉ headerText name value := by
  have hnot : ∀ bytes, 10 ∉ encode bytes := fun bytes hmem => by
    cases lineEnd_eq_false (encode_mem bytes 10 hmem)
  intro hmem
  rw [headerText] at hmem
  simp only [mem_append, hnot, or_false] at hmem
  revert hmem
  decide

/-- The loop reads all header lines, whatever the pieces are, and stops after the end marker. -/
theorem readHeaders_lines (lines : List (Bytes × Bytes)) {n : ℕ} {body : Bytes} {v : Values}
    (hn : lines.length < n)
    (h : pieces.flatten = lines.flatMap (fun line => headerLine line.1 line.2) ++
      ascii "ENDHDR\n" ++ body) :
    ∃ rest, readHeaders u n pieces v = some (lines.foldl addLine v, rest) ∧
    rest.flatten = body := by
  induction lines generalizing n pieces v with
  | nil =>
    obtain ⟨m, rfl⟩ := exists_eq_succ_of_ne_zero hn.ne'
    have hline : 10 ∉ ascii "ENDHDR" := by decide
    obtain ⟨rest, hread, hrest⟩ := readString_line hline h
    refine ⟨rest, ?_, hrest⟩
    simp only [readHeaders, hread, trimSpace_end, if_true, foldl_nil]
  | cons line lines ih =>
    obtain ⟨m, rfl⟩ := exists_eq_succ_of_ne_zero (ne_zero_of_lt hn)
    have hsplit : pieces.flatten = headerText line.1 line.2 ++
        10 :: (lines.flatMap (fun line => headerLine line.1 line.2) ++
          ascii "ENDHDR\n" ++ body) := by
      rw [h, flatMap_cons, headerLine, headerText]
      simp only [append_assoc, cons_append, nil_append]
    obtain ⟨rest, hread, hrest⟩ := readString_line (headerText_line line.1 line.2) hsplit
    have hraw : headerText line.1 line.2 ++ [10] = headerLine line.1 line.2 := rfl
    obtain ⟨rest', hread', hrest'⟩ := ih (n := m) (v := addLine v line)
      (lt_of_succ_lt_succ hn) hrest
    refine ⟨rest', ?_, hrest'⟩
    rw [readHeaders, hread]
    dsimp only
    rw [hraw, if_neg (trimSpace_headerLine_ne line.1 line.2), foldl_cons, ← hread']
    unfold addLine
    split_ifs with hvalue
    · rw [hvalue, parseEncodedHeader_empty]
    · rw [trimSpace_headerLine line.1 hvalue, parseEncodedHeader_headerText]

/-! ## Headers -/

/-- All values of a header with their names. -/
def Header.lines (h : Header) : List (Bytes × Bytes) :=
  h.entries.flatMap fun entry => entry.2.map fun value => (entry.1, value)

theorem foldl_addLine_values {name : Bytes} (hname : canonicalMIMEHeaderKey name = name)
    (values : List Bytes) (header : Values) :
    (values.map fun value => (name, value)).foldl addLine header =
      update header name (header name ++ values.filter (· ≠ [])) := by
  induction values generalizing header with
  | nil => rw [map_nil, foldl_nil, filter_nil, append_nil, update_eq_self]
  | cons value values ih =>
    rw [map_cons, foldl_cons, ih]
    unfold addLine addHeader
    by_cases hvalue : value = []
    · rw [if_pos hvalue, filter_cons_of_neg (by simp [hvalue])]
    · rw [if_neg hvalue, filter_cons_of_pos (by simp [hvalue]), hname, update_self, update_idem,
        append_assoc]
      rfl

theorem foldl_addLine_entries {entries : List (Bytes × List Bytes)}
    (hnodup : (entries.map Prod.fst).Nodup)
    (hcanonical : ∀ entry ∈ entries, canonicalMIMEHeaderKey entry.1 = entry.1) (header : Values)
    (name : Bytes) :
    (entries.flatMap fun entry => entry.2.map fun value => (entry.1, value)).foldl
      addLine header name =
      header name ++ ((entries.lookup name).getD []).filter (· ≠ []) := by
  induction entries generalizing header with
  | nil => simp
  | cons entry entries ih =>
    obtain ⟨key, values⟩ := entry
    obtain ⟨hkey, hrest⟩ := forall_mem_cons.mp hcanonical
    rw [map_cons, nodup_cons] at hnodup
    rw [flatMap_cons, foldl_append, ih hnodup.2 hrest, foldl_addLine_values hkey]
    by_cases hname : name = key
    · subst hname
      have hnone : entries.lookup name = none := by
        refine lookup_eq_none_iff.mpr fun p hp => ?_
        rw [bne_iff_ne]
        exact fun heq => hnodup.1 (mem_map.mpr ⟨p, hp, heq.symm⟩)
      rw [update_self, hnone, lookup_cons_self]
      simp
    · have hother : (name == key) = false := beq_false_of_ne hname
      rw [update_of_ne hname, lookup_cons, hother]

theorem foldl_addLine_lines (h : Header) :
    h.lines.foldl addLine (fun _ => []) = fun name => (h.values name).filter (· ≠ []) := by
  funext name
  rw [Header.lines, foldl_addLine_entries h.nodup h.canonical]
  rfl

/-! ## Status -/

theorem toNat_digit {c : Char} (h : c.isDigit = true) : 48 ≤ c.toNat ∧ c.toNat ≤ 57 := by
  simp only [Char.isDigit, Bool.and_eq_true, decide_eq_true_eq] at h
  exact h

theorem ofNat_digit {c : Char} (h : c.isDigit = true) :
    Char.ofNat (UInt8.ofNat c.toNat).toNat = c := by
  have hrange : c.toNat < 256 := (toNat_digit h).2.trans_lt (by decide)
  rw [UInt8.toNat_ofNat', mod_eq_of_lt hrange, Char.ofNat_toNat]

theorem solid_digit {c : Char} (h : c.isDigit = true) : Solid (UInt8.ofNat c.toNat) := by
  obtain ⟨hlow, hhigh⟩ := toNat_digit h
  have hall : ∀ n : Fin 58, 48 ≤ n.val → asciiSpace (UInt8.ofNat n) = false ∧
    ¬ 128 ≤ UInt8.ofNat n := by decide
  exact hall ⟨c.toNat, lt_succ_of_le hhigh⟩ hlow

def digits (status : Fin 1000) : Bytes := ascii (String.ofList (Nat.toDigits 10 status))

theorem solid_digits {status : Fin 1000} (h : c ∈ digits status) : Solid c := by
  rw [digits, ascii, String.toList_ofList] at h
  obtain ⟨d, hd, rfl⟩ := mem_map.mp h
  exact solid_digit (isDigit_of_mem_toDigits (by decide) (by decide) hd)

theorem atoi_digits (status : Fin 1000) : atoi (digits status) = some (status : ℤ) := by
  have hdigit : ∀ c ∈ Nat.toDigits 10 status, c.isDigit = true := fun c hc =>
    isDigit_of_mem_toDigits (by decide) (by decide) hc
  have hchars : (digits status).map (fun c => Char.ofNat c.toNat) = Nat.toDigits 10 status := by
    rw [digits, ascii, String.toList_ofList, map_map]
    exact (map_congr_left fun c hc => ofNat_digit (hdigit c hc)).trans (map_id _)
  have hvalue : Nat.ofDigitChars 10 (Nat.toDigits 10 status) 0 = status :=
    ofDigitChars_toDigits (by decide) (by decide)
  have hall : (Nat.toDigits 10 status).all Char.isDigit = true := all_eq_true.mpr hdigit
  have hrange : -2 ^ 63 ≤ ((status : ℕ) : ℤ) ∧ ((status : ℕ) : ℤ) < 2 ^ 63 := by
    omega
  unfold atoi
  dsimp only
  rw [hchars]
  split
  · rename_i digits hdigits
    rw [hdigits] at hdigit
    cases hdigit '-' mem_cons_self
  · rename_i digits hdigits
    rw [hdigits] at hdigit
    cases hdigit '+' mem_cons_self
  · rw [if_pos ⟨toDigits_ne_nil, hall⟩, hvalue, Option.filter_some, if_pos (decide_eq_true hrange)]

theorem trimSpace_status (status : Fin 1000) :
    trimSpace u (ascii "STATUS " ++ digits status ++ [10]) = ascii "STATUS " ++ digits status := by
  have hne : digits status ≠ [] := by
    rw [digits, ascii, String.toList_ofList]
    exact fun hnil => toDigits_ne_nil (map_eq_nil_iff.mp hnil)
  have hback : ascii "STATUS " ++ digits status =
      (ascii "STATUS " ++ (digits status).dropLast) ++ [(digits status).getLast hne] := by
    rw [append_assoc, dropLast_append_getLast]
  exact trimSpace_append (p := ascii "TATUS " ++ digits status) rfl hback ⟨rfl, by decide⟩
    (solid_digits (getLast_mem hne)) rfl

theorem status_line (status : Fin 1000) : 10 ∉ ascii "STATUS " ++ digits status := by
  intro hmem
  rcases mem_append.mp hmem with hmem | hmem
  · revert hmem
    decide
  · cases (solid_digits hmem).1

/-! ## Responses -/

theorem length_le_flatMap (lines : List (Bytes × Bytes)) :
    lines.length ≤ (lines.flatMap fun line => headerLine line.1 line.2).length := by
  induction lines with
  | nil => exact le_rfl
  | cons line =>
    have hline : (headerLine line.1 line.2).length = (headerText line.1 line.2).length +
      1 := length_append
    rw [flatMap_cons, length_append, length_cons, hline]
    omega

/-- However the stream is cut into pieces, the hub answers with the status, the values of each name
that are not empty, and the body. -/
theorem fetch_values (u : Unicode) (status : Fin 1000) (h : Header) {body : Bytes}
    (hpieces : pieces.flatten = handleFetchStream status h body) (readErr : Bytes) :
    ∃ rest, fetch u pieces readErr =
        writeHeader (status : ℤ) (fun name => (h.values name).filter (· ≠ [])) rest ∧
      rest.flatten = body := by
  have hstream : pieces.flatten = (ascii "STATUS " ++ digits status) ++
      10 :: (h.lines.flatMap (fun line => headerLine line.1 line.2) ++
        ascii "ENDHDR\n" ++ body) := by
    have hlines :
      (h.entries.flatMap fun entry => entry.2.flatMap fun value => headerLine entry.1 value) =
        h.lines.flatMap fun line => headerLine line.1 line.2 := by
      rw [Header.lines, flatMap_assoc]
      exact flatMap_congr fun entry _ => by rw [flatMap_map]
    rw [hpieces, handleFetchStream, hlines, digits]
    simp only [append_assoc, cons_append, nil_append]
  obtain ⟨rest, hread, hrest⟩ := readString_line (status_line status) hstream
  have hbudget : h.lines.length < rest.flatten.length := by
    have hlength := length_le_flatMap h.lines
    have hend : (ascii "ENDHDR\n").length = 7 := rfl
    rw [hrest, length_append, length_append, hend]
    omega
  obtain ⟨rest', hheaders, hbody⟩ := readHeaders_lines (u := u)
    (v := fun _ => []) h.lines hbudget hrest
  refine ⟨rest', ?_, hbody⟩
  have herr : cut (ascii "ERR ") (ascii "STATUS " ++ digits status) = none := rfl
  rw [foldl_addLine_lines] at hheaders
  simp only [fetch, hread, trimSpace_status, handleFetchAdmission, herr, cut_append,
    atoi_digits, hheaders]

/-- The values of a name are those of its entry. -/
theorem Header.values_of_mem {h : Header} {entry : Bytes × List Bytes}
    (hentry : entry ∈ h.entries) :
    h.values entry.1 = entry.2 := by
  obtain ⟨before, after, hentries⟩ := append_of_mem hentry
  have hnodup := h.nodup
  rw [hentries, map_append, nodup_append] at hnodup
  have hlookup : h.entries.lookup entry.1 = some entry.2 := by
    refine lookup_eq_some_iff.mpr ⟨before, after, hentries, fun p hp => ?_⟩
    rw [bne_iff_ne]
    exact (hnodup.2.2 p.1 (mem_map_of_mem hp) entry.1 mem_cons_self).symm
  rw [Header.values, hlookup]
  rfl

/-- The header lines that are dropped are those of empty values. -/
theorem filter_values_iff (h : Header) : (fun name => (h.values name).filter (· ≠ [])) = h.values ↔
    ∀ entry ∈ h.entries, ∀ value ∈ entry.2, value ≠ [] := by
  constructor
  · intro hall entry hentry value hvalue
    have hname := congrFun hall entry.1
    rw [Header.values_of_mem hentry] at hname
    exact of_decide_eq_true (filter_eq_self.mp hname value hvalue)
  intro hvalues
  funext name
  refine filter_eq_self.mpr fun value hvalue => decide_eq_true ?_
  unfold Header.values at hvalue
  cases hlookup : h.entries.lookup name with
  | none =>
    rw [hlookup] at hvalue
    cases hvalue
  | some values =>
    rw [hlookup] at hvalue
    obtain ⟨before, after, hentries, -⟩ := lookup_eq_some_iff.mp hlookup
    refine hvalues (name, values) ?_ value hvalue
    rw [hentries]
    exact mem_append_right before mem_cons_self

/-- The hub answers with exactly the headers of the response, and stops at the body, if and only if
no value is empty and the status is one that `WriteHeader` takes. -/
theorem fetch_roundtrip (u : Unicode) (status : Fin 1000) (h : Header) (pieces : List Bytes)
    (body : Bytes) (hpieces : pieces.flatten = handleFetchStream status h body) (readErr : Bytes) :
    (∃ rest, fetch u pieces readErr =
        .response (aheadStatus status) (finalStatus status) h.values rest ∧ rest.flatten = body) ↔
      100 ≤ status.val ∧ ∀ entry ∈ h.entries, ∀ value ∈ entry.2, value ≠ [] := by
  obtain ⟨rest, hfetch, hbody⟩ := fetch_values u status h hpieces readErr
  rw [hfetch, ← filter_values_iff]
  unfold writeHeader
  constructor
  · rintro ⟨rest', hreply, -⟩
    split_ifs at hreply with hrefused
    injection hreply with _ _ hheader _
    exact ⟨by omega, hheader⟩
  · rintro ⟨hstatus, hheader⟩
    rw [if_neg (by omega), hheader]
    exact ⟨rest, rfl, hbody⟩

end

/-- A response with two values of one name. -/
def sampleHeader : Header where
  entries := [(ascii "Set-Cookie", [ascii "a=1", ascii "b=2"])]
  nodup := by decide
  canonical := by decide +kernel

/-- Trimming of text beyond ASCII, which no line of a response has. -/
def plainText : Unicode := ⟨id, id⟩

/-- The headers of the sample arrive, also when every byte is a read of its own. -/
theorem sampleHeader_roundtrip : ∃ rest,
    fetch plainText ((handleFetchStream 200 sampleHeader (ascii "ok")).map fun c => [c]) [] =
      .response none 200 sampleHeader.values rest ∧ rest.flatten = ascii "ok" :=
  (fetch_roundtrip plainText 200 sampleHeader _ _ (by decide +kernel) []).mpr
    ⟨by decide, by decide⟩

/-- A response with one value, which is empty. -/
def emptyValue : Header where
  entries := [(ascii "X-Empty", [[]])]
  nodup := by decide
  canonical := by decide +kernel

/-- The headers of an answer. -/
def Reply.header : Reply → Values
  | .response _ _ header _ => header
  | _ => fun _ => []

/-- The header with the empty value is dropped. -/
theorem emptyValue_dropped : emptyValue.values (ascii "X-Empty") = [[]] ∧
    (fetch plainText [handleFetchStream 200 emptyValue (ascii "ok")] []).header (ascii "X-Empty") =
      [] := by
  decide +kernel

end DaxiangVpn.FetchHeaders
