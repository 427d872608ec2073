import DaxiangVpn.NetipPrefix

/-!
# Frames of a striped connection

A striped download is cut into frames with consecutive sequence numbers, which
the egress sends round-robin over its lanes and closes with one empty frame.
Every lane is a byte stream that arrives in arbitrary pieces and may be cut at
any byte.
-/

namespace DaxiangVpn.StripedFrames

open NetipPrefix List

/-! ## Codec -/

def stripedFrameHeaderSize : ℕ := 12

def stripedChunkSize : ℕ := 32 * 1024

/-- Sequence numbers are unsigned 64-bit integers. -/
def seqRange : ℕ := 2 ^ 64

/-- The low bytes of a number, the highest first. -/
def bigEndian (n v : ℕ) : List UInt8 := (digits 256 n v).map UInt8.ofNat

/-- The number that bytes denote, the highest first. -/
def ofBigEndian (bytes : List UInt8) : ℕ := ofDigits 256 (bytes.map UInt8.toNat)

@[simp] theorem bigEndian_length (n v : ℕ) : (bigEndian n v).length = n := by
  rw [bigEndian, length_map, digits_length]

theorem ofBigEndian_bigEndian {n v : ℕ} (hv : v < 256 ^ n) : ofBigEndian (bigEndian n v) = v := by
  have hbytes : (bigEndian n v).map UInt8.toNat = digits 256 n v := by
    rw [bigEndian, map_map]
    conv_rhs => rw [← map_id (digits 256 n v)]
    apply map_congr_left
    intro d hd
    have hlt : d < 256 := digits_lt (by decide) n v d hd
    exact Nat.mod_eq_of_lt hlt
  rw [ofBigEndian, hbytes, ofDigits_digits (by decide) n v hv]

/-- `stripedOutboundFrame`. -/
structure OutboundFrame where
  seq : ℕ
  /-- Payload; empty in the last frame. -/
  data : List UInt8

/-- `writeStripedFrame`: the bytes of a frame. -/
def writeStripedFrame (frame : OutboundFrame) : List UInt8 :=
  bigEndian 8 frame.seq ++ bigEndian 4 frame.data.length ++ frame.data

/-- What an error of a lane reader wraps. -/
inductive ReadErr
  | eof
  /-- `io.ErrUnexpectedEOF`. -/
  | unexpectedEOF
  /-- The frame exceeds the chunk size. -/
  | tooLarge
  /-- Another error of the connection. -/
  | broken
  deriving DecidableEq

/-- How a lane ends after its last byte. -/
inductive LaneEnd
  | closed
  /-- The connection failed. -/
  | broken

/-- `stripedFrameResult`, by the branch that the relay takes. -/
inductive FrameResult
  | data (seq : ℕ) (bytes : List UInt8)
  | last (seq : ℕ)
  | failed (err : ReadErr)

def FrameResult.bytes : FrameResult → ℕ
  | .data _ payload => payload.length
  | _ => 0

/-- Whether a result is an error rather than a frame. -/
def FrameResult.isFailed : FrameResult → Bool
  | .failed _ => true
  | _ => false

/-- `io.ReadFull`: the bytes that were read and the pieces that remain. -/
def readFull : ℕ → List (List UInt8) → List UInt8 × List (List UInt8)
  | _, [] => ([], [])
  | n, piece :: rest =>
    if piece.length ≤ n then
      let (bytes, left) := readFull (n - piece.length) rest
      (piece ++ bytes, left)
    else (piece.take n, piece.drop n :: rest)

theorem readFull_flatten (n : ℕ) (pieces : List (List UInt8)) :
    (readFull n pieces).1 = pieces.flatten.take n ∧
    (readFull n pieces).2.flatten = pieces.flatten.drop n := by
  induction pieces generalizing n with
  | nil => simp [readFull]
  | cons piece rest ih =>
    rw [readFull]
    split_ifs with hle
    · obtain ⟨hbytes, hleft⟩ := ih (n - piece.length)
      constructor
      · rw [flatten_cons, take_append, take_of_length_le hle]
        exact congrArg (piece ++ ·) hbytes
      · rw [flatten_cons, drop_append, drop_of_length_le hle, nil_append]
        exact hleft
    · have hpos : n - piece.length = 0 := by omega
      constructor
      · rw [flatten_cons, take_append, hpos, take_zero, append_nil]
      · rw [flatten_cons, flatten_cons, drop_append, hpos, drop_zero]

/-- Error of a read that got fewer bytes than it asked for. -/
def shortRead (ending : LaneEnd) (got : ℕ) : ReadErr :=
  match ending with
  | .broken => .broken
  | .closed => if got = 0 then .eof else .unexpectedEOF

/-- `readStripedFrame`, and the pieces that remain. -/
def readStripedFrame (ending : LaneEnd) (pieces : List (List UInt8)) :
    FrameResult × List (List UInt8) :=
  let (header, rest) := readFull stripedFrameHeaderSize pieces
  if header.length < stripedFrameHeaderSize then (.failed (shortRead ending header.length), rest)
  else
    let seq := ofBigEndian (header.take 8)
    let length := ofBigEndian (header.drop 8)
    if length = 0 then (.last seq, rest)
    else if stripedChunkSize < length then (.failed .tooLarge, rest)
    else
      let (bytes, rest) := readFull length rest
      if bytes.length < length then (.failed (shortRead ending bytes.length), rest)
      else (.data seq bytes, rest)

/-- `readStripedFrames`: the results of a lane, up to an error or the empty frame. -/
def readStripedFrames (ending : LaneEnd) : ℕ → List (List UInt8) → List FrameResult
  | 0, _ => []
  | fuel + 1, pieces =>
    match readStripedFrame ending pieces with
    | (.data seq bytes, rest) => .data seq bytes :: readStripedFrames ending fuel rest
    | (result, _) => [result]

/-- All results of a lane; a frame has a header, so its bytes bound their number. -/
def laneResults (ending : LaneEnd) (pieces : List (List UInt8)) : List FrameResult :=
  readStripedFrames ending (pieces.flatten.length + 1) pieces

/-! ## Sender -/

/-- The loop of `stripedClientGroup.run` over the reads of the target: the
frames in the order they are sent, each with its lane. -/
def dispatch (lanes : ℕ) : ℕ → ℕ → List (List UInt8) → List (ℕ × OutboundFrame)
  | seq, lane, [] => [(lane % lanes, ⟨seq, []⟩)]
  | seq, lane, data :: rest =>
    if data = [] then dispatch lanes seq lane rest
    else (lane, ⟨seq, data⟩) :: dispatch lanes ((seq + 1) % seqRange) ((lane + 1) % lanes) rest

def laneBytes (lanes : ℕ) (reads : List (List UInt8)) (lane : ℕ) : List UInt8 :=
  ((dispatch lanes 0 0 reads).filter fun x => x.1 = lane).flatMap fun x => writeStripedFrame x.2

/-- The frame at a position of the stream of payloads; the one after the last
payload is empty. -/
def frameAt (payloads : List (List UInt8)) (i : ℕ) : OutboundFrame :=
  ⟨i % seqRange, payloads.getD i []⟩

def lanePositions (lanes count lane : ℕ) : List ℕ :=
  (List.range (count + 1)).filter fun i => i % lanes = lane

/-- Frames are numbered consecutively and dealt round-robin. -/
theorem dispatch_eq (lanes : ℕ) (reads : List (List UInt8)) : dispatch lanes 0 0 reads =
      (List.range ((reads.filter (· ≠ [])).length + 1)).map fun i =>
        (i % lanes, frameAt (reads.filter (· ≠ [])) i) := by
  have hgen : ∀ (reads before : List (List UInt8)),
      dispatch lanes (before.length % seqRange) (before.length % lanes) reads =
        (List.range' before.length ((reads.filter (· ≠ [])).length + 1)).map fun i =>
          (i % lanes, frameAt (before ++ reads.filter (· ≠ [])) i) := by
    intro reads
    induction reads with
    | nil =>
      intro before
      simp [dispatch, frameAt]
    | cons data rest ih =>
      intro before
      rw [dispatch]
      split_ifs with hempty
      · rw [ih before]
        simp [hempty]
      have hnext := ih (before ++ [data])
      rw [length_append, length_singleton, ← Nat.mod_add_mod before.length seqRange,
        ← Nat.mod_add_mod before.length lanes] at hnext
      rw [hnext]
      have hfilter : (data :: rest).filter (· ≠ []) = data :: rest.filter (· ≠ []) := by
        simp [hempty]
      rw [hfilter, length_cons, List.range'_succ, map_cons, append_assoc, singleton_append]
      congr 1
      simp [frameAt]
  have hstart := hgen reads []
  simpa [range_eq_range'] using hstart

theorem laneBytes_eq (lanes : ℕ) (reads : List (List UInt8)) (lane : ℕ) :
    laneBytes lanes reads lane =
      ((lanePositions lanes (reads.filter (· ≠ [])).length lane).map
        (frameAt (reads.filter (· ≠ [])))).flatMap writeStripedFrame := by
  rw [laneBytes, dispatch_eq, filter_map, lanePositions]
  simp only [flatMap_map]
  rfl

/-! ## Lane reader -/

def frameResult (frame : OutboundFrame) : FrameResult :=
  if frame.data = [] then .last frame.seq else .data frame.seq frame.data

/-- A frame that a header can describe. -/
structure Sendable (frame : OutboundFrame) : Prop where
  seq : frame.seq < seqRange
  size : frame.data.length ≤ stripedChunkSize

theorem writeStripedFrame_length (frame : OutboundFrame) :
    (writeStripedFrame frame).length = stripedFrameHeaderSize + frame.data.length := by
  simp only [writeStripedFrame, length_append, bigEndian_length, stripedFrameHeaderSize]

variable {frame : OutboundFrame}

theorem header_fields (h : Sendable frame) (rest : List UInt8) :
    ofBigEndian (((writeStripedFrame frame ++ rest).take stripedFrameHeaderSize).take 8) =
      frame.seq ∧
    ofBigEndian (((writeStripedFrame frame ++ rest).take stripedFrameHeaderSize).drop 8) =
      frame.data.length := by
  have htake : (writeStripedFrame frame ++ rest).take stripedFrameHeaderSize =
      bigEndian 8 frame.seq ++ bigEndian 4 frame.data.length := by
    rw [writeStripedFrame, append_assoc, take_left']
    simp [stripedFrameHeaderSize]
  have hseq : frame.seq < 256 ^ 8 := by
    have hlt := h.seq
    exact hlt
  have hsize : frame.data.length < 256 ^ 4 := by
    have hle := h.size
    norm_num [stripedChunkSize] at hle ⊢
    omega
  rw [htake]
  constructor
  · rw [take_left' (bigEndian_length 8 frame.seq), ofBigEndian_bigEndian hseq]
  · rw [drop_left' (bigEndian_length 8 frame.seq), ofBigEndian_bigEndian hsize]

variable {pieces : List (List UInt8)}

/-- A complete frame is read back, and the bytes after it remain. -/
theorem readStripedFrame_whole (h : Sendable frame) (ending : LaneEnd) {rest : List UInt8}
    (hp : pieces.flatten = writeStripedFrame frame ++ rest) :
    (readStripedFrame ending pieces).1 = frameResult frame ∧
    (readStripedFrame ending pieces).2.flatten = rest := by
  obtain ⟨hheader, hleft⟩ := readFull_flatten stripedFrameHeaderSize pieces
  obtain ⟨hseq, hlen⟩ := header_fields h rest
  have hlength := writeStripedFrame_length frame
  rw [hp] at hheader hleft
  have hfull : ¬ (readFull stripedFrameHeaderSize pieces).1.length < stripedFrameHeaderSize := by
    rw [hheader, length_take, length_append, hlength]
    omega
  have hbody : (readFull stripedFrameHeaderSize pieces).2.flatten = frame.data ++ rest := by
    rw [hleft, writeStripedFrame, append_assoc, drop_left']
    simp [stripedFrameHeaderSize]
  obtain ⟨hdata, hremain⟩ := readFull_flatten frame.data.length
    (readFull stripedFrameHeaderSize pieces).2
  rw [hbody] at hdata hremain
  rw [take_left' rfl] at hdata
  rw [drop_left' rfl] at hremain
  unfold readStripedFrame
  simp only [if_neg hfull]
  rw [hheader, hseq, hlen]
  by_cases hempty : frame.data = []
  · simp only [hempty, length_nil, if_true, frameResult]
    rw [hempty, nil_append] at hbody
    exact ⟨trivial, hbody⟩
  · have hpos : frame.data.length ≠ 0 := fun hz => hempty (eq_nil_of_length_eq_zero hz)
    have hchunk : ¬ stripedChunkSize < frame.data.length := not_lt.mpr h.size
    simp only [if_neg hpos, if_neg hchunk, hdata, lt_irrefl, if_false, frameResult, if_neg hempty]
    exact ⟨trivial, hremain⟩

theorem readStripedFrame_cut (h : Sendable frame) (ending : LaneEnd)
    (hp : pieces.flatten <+: writeStripedFrame frame)
    (hne : pieces.flatten ≠ writeStripedFrame frame) :
    ∃ err, (readStripedFrame ending pieces).1 = .failed err := by
  obtain ⟨missing, hmissing⟩ := hp
  have hlength := writeStripedFrame_length frame
  have hshort : pieces.flatten.length < stripedFrameHeaderSize + frame.data.length := by
    rw [← hlength, ← hmissing, length_append]
    have hpos : missing.length ≠ 0 := by
      intro hz
      rw [eq_nil_of_length_eq_zero hz, append_nil] at hmissing
      exact hne hmissing
    omega
  obtain ⟨hheader, hleft⟩ := readFull_flatten stripedFrameHeaderSize pieces
  unfold readStripedFrame
  by_cases hhead : (readFull stripedFrameHeaderSize pieces).1.length < stripedFrameHeaderSize
  · exact ⟨_, by simp only [if_pos hhead]; rfl⟩
  have hlong : stripedFrameHeaderSize ≤ pieces.flatten.length := by
    rw [hheader, length_take] at hhead
    omega
  obtain ⟨-, hlen⟩ := header_fields h []
  rw [append_nil, ← hmissing, take_append_of_le_length hlong, ← hheader] at hlen
  simp only [if_neg hhead, hlen]
  have hpos : frame.data.length ≠ 0 := by omega
  have hchunk : ¬ stripedChunkSize < frame.data.length := not_lt.mpr h.size
  have hbody : (readFull frame.data.length (readFull stripedFrameHeaderSize pieces).2).1.length <
      frame.data.length := by
    rw [(readFull_flatten _ _).1, hleft, length_take, length_drop]
    omega
  exact ⟨_, by simp only [if_neg hpos, if_neg hchunk, if_pos hbody]; rfl⟩

theorem readStripedFrame_end (ending : LaneEnd) (hp : pieces.flatten = []) :
    (readStripedFrame ending pieces).1 = .failed (shortRead ending 0) := by
  obtain ⟨hheader, -⟩ := readFull_flatten stripedFrameHeaderSize pieces
  rw [hp, take_nil] at hheader
  have hshort : (readFull stripedFrameHeaderSize pieces).1.length < stripedFrameHeaderSize := by
    rw [hheader]
    decide
  unfold readStripedFrame
  simp only [if_pos hshort]
  rw [hheader]
  rfl

/-- What a reader makes of a lane: an initial part of its frames, and then
nothing after an empty frame, or one error. -/
structure LaneRead (ending : LaneEnd) (frames : List OutboundFrame) (whole : Prop)
    (results : List FrameResult) (got : List OutboundFrame) (tail : List FrameResult) : Prop where
  results : results = got.map frameResult ++ tail
  sent : got <+: frames
  /-- After an empty frame nothing is read, otherwise there is one error. -/
  ends : tail = [] ∧ (∃ frame ∈ got, frame.data = []) ∨ ∃ err, tail = [.failed err] ∧
    (∀ frame ∈ got, frame.data ≠ []) ∧ (whole → got = frames ∧ err = shortRead ending 0)

theorem readStripedFrames_laneRead (ending : LaneEnd) {frames : List OutboundFrame}
    (hsend : ∀ frame ∈ frames, Sendable frame) {fuel : ℕ}
    (hp : pieces.flatten <+: frames.flatMap writeStripedFrame)
    (hfuel : pieces.flatten.length < fuel) :
    ∃ got tail, LaneRead ending frames (pieces.flatten = frames.flatMap writeStripedFrame)
      (readStripedFrames ending fuel pieces) got tail := by
  induction frames generalizing pieces fuel with
  | nil =>
    obtain ⟨fuel, rfl⟩ : ∃ n, fuel = n + 1 := ⟨fuel - 1, by omega⟩
    have hend := readStripedFrame_end ending (prefix_nil.mp hp)
    have hres : readStripedFrames ending (fuel + 1) pieces = [.failed (shortRead ending 0)] := by
      rw [readStripedFrames]
      rcases hread : readStripedFrame ending pieces with ⟨result, rest⟩
      rw [hread] at hend
      rw [show result = _ from hend]
    exact ⟨[], _, ⟨hres, nil_prefix, .inr ⟨_, rfl, by simp, fun _ => ⟨rfl, rfl⟩⟩⟩⟩
  | cons frame frames ih =>
    obtain ⟨fuel, rfl⟩ : ∃ n, fuel = n + 1 := ⟨fuel - 1, by omega⟩
    have hframe := hsend frame mem_cons_self
    have hlength := writeStripedFrame_length frame
    rw [flatMap_cons] at hp
    by_cases hlong : (writeStripedFrame frame).length ≤ pieces.flatten.length
    · obtain ⟨rest, hrest⟩ := prefix_of_prefix_length_le (prefix_append _ _) hp hlong
      have hp' : rest <+: frames.flatMap writeStripedFrame := by
        rw [← hrest] at hp
        exact (prefix_append_right_inj _).mp hp
      obtain ⟨hfirst, hleft⟩ := readStripedFrame_whole hframe ending hrest.symm
      by_cases hempty : frame.data = []
      · have hres : readStripedFrames ending (fuel + 1) pieces = [frameResult frame] := by
          rw [readStripedFrames]
          rcases hread : readStripedFrame ending pieces with ⟨result, left⟩
          rw [hread] at hfirst
          rw [show result = _ from hfirst, frameResult, if_pos hempty]
        exact ⟨[frame], [], ⟨by rw [hres]; rfl, by simp, .inl ⟨rfl, frame, by simp, hempty⟩⟩⟩
      · have hres : readStripedFrames ending (fuel + 1) pieces = frameResult frame ::
            readStripedFrames ending fuel (readStripedFrame ending pieces).2 := by
          rw [readStripedFrames]
          rcases hread : readStripedFrame ending pieces with ⟨result, left⟩
          rw [hread] at hfirst
          rw [show result = _ from hfirst, frameResult, if_neg hempty]
        have hfuel' : (readStripedFrame ending pieces).2.flatten.length < fuel := by
          rw [← hrest, length_append, hlength, stripedFrameHeaderSize] at hfuel
          rw [hleft]
          omega
        obtain ⟨got, tail, hgot⟩ := ih (fun x hx => hsend x (mem_cons_of_mem _ hx))
          (by rw [hleft]; exact hp') hfuel'
        refine ⟨frame :: got, tail, ⟨by rw [hres, hgot.results]; rfl,
          cons_prefix_cons.mpr ⟨rfl, hgot.sent⟩, ?_⟩⟩
        rcases hgot.ends with ⟨htail, x, hx, hxe⟩ | ⟨err, htail, hfull, hwhole⟩
        · exact .inl ⟨htail, x, mem_cons_of_mem _ hx, hxe⟩
        · refine .inr ⟨err, htail, forall_mem_cons.mpr ⟨hempty, hfull⟩, fun hall => ?_⟩
          rw [← hrest, flatMap_cons] at hall
          obtain ⟨hg, he⟩ := hwhole (hleft.trans (append_cancel_left hall))
          exact ⟨by rw [hg], he⟩
    · have hcut : pieces.flatten <+: writeStripedFrame frame :=
        prefix_of_prefix_length_le hp (prefix_append _ _) (by omega)
      have hne : pieces.flatten ≠ writeStripedFrame frame := fun heq => hlong (by rw [heq])
      obtain ⟨err, herr⟩ := readStripedFrame_cut hframe ending hcut hne
      have hres : readStripedFrames ending (fuel + 1) pieces = [.failed err] := by
        rw [readStripedFrames]
        rcases hread : readStripedFrame ending pieces with ⟨result, left⟩
        rw [hread] at herr
        rw [show result = _ from herr]
      refine ⟨[], _, ⟨hres, nil_prefix, .inr ⟨err, rfl, by simp, fun hall => ?_⟩⟩⟩
      rw [hall, flatMap_cons, length_append] at hlong
      omega

theorem lanePositions_sorted (lanes count lane : ℕ) :
    (lanePositions lanes count lane).Pairwise (· < ·) :=
  pairwise_lt_range.filter _

theorem mem_lanePositions {lanes count lane i : ℕ} :
    i ∈ lanePositions lanes count lane ↔ i ≤ count ∧ i % lanes = lane := by
  rw [lanePositions, mem_filter, mem_range, decide_eq_true_eq, Nat.lt_succ_iff]

theorem laneResults_spec {lanes lane : ℕ} (ending : LaneEnd) {reads : List (List UInt8)}
    (hreads : ∀ data ∈ reads, data.length ≤ stripedChunkSize)
    (hp : pieces.flatten <+: laneBytes lanes reads lane) :
    ∃ got tail, LaneRead ending ((lanePositions lanes (reads.filter (· ≠ [])).length lane).map
      (frameAt (reads.filter (· ≠ [])))) (pieces.flatten = laneBytes lanes reads lane)
      (laneResults ending pieces) got tail := by
  rw [laneBytes_eq] at hp ⊢
  refine readStripedFrames_laneRead ending (fun frame hframe => ?_) hp (Nat.lt_succ_self _)
  obtain ⟨i, -, rfl⟩ := mem_map.mp hframe
  refine ⟨Nat.mod_lt _ (by decide), ?_⟩
  rw [frameAt, getD_eq_getElem?_getD]
  cases hget : (reads.filter (· ≠ []))[i]? with
  | none => simp
  | some data => exact hreads data (mem_of_mem_filter (mem_of_getElem? hget))

end DaxiangVpn.StripedFrames
