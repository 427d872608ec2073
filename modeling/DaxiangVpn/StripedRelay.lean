import Mathlib.Data.List.GetD
import DaxiangVpn.RelationTable
import DaxiangVpn.TransitionRun
import DaxiangVpn.StripedFrames

/-!
# Reassembly of a striped connection

The hub receives the results of all lane readers over one channel, in any
interleaving that keeps the order of each lane, and writes payloads to the client
in sequence. Sequence numbers are taken modulo the range of their type; the
window of pending bytes keeps every outstanding frame within one turn of that
range, because the frames of a lane arrive in order.
-/

namespace DaxiangVpn.StripedRelay

open RelationTable TransitionRun StripedFrames List Function

/-! ## The relay -/

def maxStripedPendingBytes : ℕ := 8 * 1024 * 1024

/-- Errors of `writeOrderedStripedFramesMeasured`. -/
inductive RelayErr
  /-- `io.ErrUnexpectedEOF`. -/
  | unexpectedEOF
  | windowExceeded
  | read (err : ReadErr)
  | write

/-- Payloads that wait for an earlier one, by sequence number. -/
abbrev Pending := Table (Prod.fst : ℕ × List UInt8 → ℕ)

/-- The locals of `writeOrderedStripedFramesMeasured`. -/
structure Relay where
  /-- Sequence number that is written next. -/
  nextSeq : ℕ
  /-- Readers that have not reported the end of their lane. -/
  activeReaders : ℕ
  pending : Pending
  pendingBytes : ℕ
  /-- Sequence number of the empty frame. -/
  eofSeq : Option ℕ
  /-- Bytes that the client has taken. -/
  written : List UInt8
  writes : ℕ
  /-- Error the function returned, once it has returned. -/
  outcome : Option (Option RelayErr)

/-- Error that is returned when no more results come. -/
def Relay.finish (r : Relay) : Option RelayErr :=
  if r.eofSeq = some r.nextSeq then none else some .unexpectedEOF

/-- The loop ends with its last reader. -/
def Relay.leave (r : Relay) : Relay :=
  if r.activeReaders = 0 then { r with outcome := some r.finish } else r

/-- The inner loop. The client's answer to a write is the number of bytes after
which it failed, if it did. -/
def drain (client : ℕ → Option ℕ) : ℕ → Relay → Relay
  | 0, r => r
  | fuel + 1, r =>
    if r.eofSeq = some r.nextSeq then { r with outcome := some none }
    else
      match r.pending.find r.nextSeq with
      | none => r
      | some (_, data) =>
        match client r.writes with
        | some n => { r with
            written := r.written ++ data.take n, writes := r.writes + 1,
            outcome := some (some .write) }
        | none => drain client fuel { r with
            written := r.written ++ data, writes := r.writes + 1,
            pending := r.pending.delete fun x => x.1 = r.nextSeq,
            pendingBytes := r.pendingBytes - data.length,
            nextSeq := (r.nextSeq + 1) % seqRange }

/-- Run the inner loop until it stops by itself. -/
def Relay.drained (client : ℕ → Option ℕ) (r : Relay) : Relay :=
  drain client (r.pending.rows.length + 1) r

/-- Keep a payload. -/
def Relay.store (r : Relay) (seq : ℕ) (data : List UInt8) : Relay :=
  { r with pending := r.pending.put (seq, data), pendingBytes := r.pendingBytes + data.length }

/-- One result from the channel. -/
def Relay.receive (client : ℕ → Option ℕ) (r : Relay) : FrameResult → Relay
  | .failed .eof => Relay.leave { r with activeReaders := r.activeReaders - 1 }
  | .failed err => { r with outcome := some (some (.read err)) }
  | .last seq => Relay.drained client { r with eofSeq := some seq }
  | .data seq data =>
    if maxStripedPendingBytes < (r.store seq data).pendingBytes then
      { r.store seq data with outcome := some (some .windowExceeded) }
    else (r.store seq data).drained client

/-- The relay before its first result. -/
def Relay.start (laneCount : ℕ) : Relay :=
  Relay.leave ⟨0, laneCount, .empty, 0, none, [], 0, none⟩

/-- The relay and what the lane readers still have to send. -/
structure Connection where
  /-- Results of each lane that were not received yet. -/
  queues : ℕ → List FrameResult
  relay : Relay

/-- What the channel yields next. -/
inductive Arrival
  | result (lane : ℕ)
  /-- The channel was closed, because its readers are done or were stopped. -/
  | closed
  deriving DecidableEq

/-- Change the relay as long as it has not returned. -/
def Connection.relayed (x : Connection) (f : Relay → Relay) : Relay :=
  if x.relay.outcome = none then f x.relay else x.relay

def step (client : ℕ → Option ℕ) (x : Connection) : Arrival → Connection
  | .closed => { x with relay := x.relayed fun r => { r with outcome := some r.finish } }
  | .result lane =>
    match x.queues lane with
    | [] => x
    | result :: rest =>
      ⟨update x.queues lane rest, x.relayed fun r => r.receive client result⟩

def connect (lanes : ℕ) (ending : ℕ → LaneEnd) (pieces : ℕ → List (List UInt8)) : Connection :=
  ⟨fun lane => if lane < lanes then laneResults (ending lane) (pieces lane) else [],
    Relay.start lanes⟩

/-- The results that a schedule takes from the lanes. -/
def received (queues : ℕ → List FrameResult) : List Arrival → List FrameResult
  | [] => []
  | .closed :: rest => received queues rest
  | .result lane :: rest =>
    match queues lane with
    | [] => received queues rest
    | result :: left => result :: received (update queues lane left) rest

/-- Bytes of the payloads that a schedule takes from the lanes. -/
def receivedBytes (queues : ℕ → List FrameResult) (schedule : List Arrival) : ℕ :=
  ((received queues schedule).map FrameResult.bytes).sum

/-- At every arrival the bytes of received payloads that were not written, with the payload that
arrives, are within the window. -/
def Fits (client : ℕ → Option ℕ) (x : Connection) (schedule : List Arrival) : Prop :=
  ∀ n < schedule.length, receivedBytes x.queues (schedule.take (n + 1)) ≤
    (run (step client) x (schedule.take n)).relay.written.length + maxStripedPendingBytes

/-! ## What the relay holds -/

variable {x : Connection} {k i : ℕ}

section

variable {payloads : List (List UInt8)} {n : ℕ} {held : List ℕ} {ended : Bool} {r : Relay}
  {client : ℕ → Option ℕ}

/-- The pending entry of a position. -/
def entry (payloads : List (List UInt8)) (i : ℕ) : ℕ × List UInt8 :=
  (i % seqRange, payloads.getD i [])

/-- Bytes of the payloads at the given positions. -/
def weight (payloads : List (List UInt8)) (held : List ℕ) : ℕ :=
  (held.map fun i => (payloads.getD i []).length).sum

/-- The relay has written the payloads before a position and holds those at the
given positions, all within one turn of the sequence numbers. -/
structure Holding (payloads : List (List UInt8)) (n : ℕ) (held : List ℕ)
    (ended : Bool) (r : Relay) :
    Prop where
  next : r.nextSeq = n % seqRange
  bound : n ≤ payloads.length
  written : r.written = (payloads.take n).flatten
  pending : r.pending.rows = held.map (entry payloads)
  nodup : held.Nodup
  range : ∀ i ∈ held, n ≤ i ∧ i < payloads.length ∧ i < n + seqRange
  bytes : r.pendingBytes = weight payloads held
  eof : r.eofSeq = if ended then some (payloads.length % seqRange) else none
  close : ended = true → payloads.length < n + seqRange

/-- Two positions within one turn have different sequence numbers. -/
theorem position_of_seq {j n : ℕ} (hi : n ≤ i ∧ i < n + seqRange) (hj : n ≤ j ∧ j < n + seqRange)
    (h : i % seqRange = j % seqRange) : i = j := by
  unfold seqRange at *
  omega

section

variable (h : Holding payloads n held ended r)
include h

/-- The relay sees the end exactly when everything was written. -/
theorem Holding.eof_iff : r.eofSeq = some r.nextSeq ↔ ended = true ∧ n = payloads.length := by
  have hbound := h.bound
  rw [h.eof, h.next]
  cases hended : ended with
  | false => simp
  | true =>
    have hclose := h.close hended
    simp only [if_true, Option.some.injEq, true_and]
    constructor
    · intro heq
      exact (position_of_seq ⟨hbound, hclose⟩ ⟨le_rfl, by simp [seqRange]⟩ heq).symm
    · intro heq
      rw [heq]

theorem Holding.isPrefix : r.written <+: payloads.flatten := by
  rw [h.written]
  exact ⟨(payloads.drop n).flatten, by rw [← flatten_append, take_append_drop]⟩

theorem Holding.find : r.pending.find r.nextSeq = if n ∈ held then some (entry payloads n)
    else none := by
  split_ifs with hn
  · refine find_eq_some.mpr ⟨?_, h.next.symm⟩
    rw [mem_def, h.pending]
    exact mem_map_of_mem hn
  refine find_eq_none.mpr fun x hx hkey => hn ?_
  rw [mem_def, h.pending] at hx
  obtain ⟨i, hi, rfl⟩ := mem_map.mp hx
  obtain ⟨hlow, -, hhigh⟩ := h.range i hi
  rw [h.next] at hkey
  have hsame := position_of_seq ⟨hlow, hhigh⟩ ⟨le_rfl, by simp [seqRange]⟩ hkey
  exact hsame ▸ hi

theorem Holding.advance (hn : n ∈ held) (w : ℕ) :
    Holding payloads (n + 1) (held.erase n) ended { r with
      written := r.written ++ payloads.getD n [], writes := w,
      pending := r.pending.delete fun x => x.1 = r.nextSeq,
      pendingBytes := r.pendingBytes - (payloads.getD n []).length,
      nextSeq := (r.nextSeq + 1) % seqRange } where
  next := by
    rw [h.next, Nat.mod_add_mod]
  bound := (h.range n hn).2.1
  written := by
    have hlt := (h.range n hn).2.1
    rw [h.written, take_add_one, flatten_append, List.getElem?_eq_getElem hlt,
      getD_eq_getElem _ _ hlt]
    simp
  pending := by
    have hkeys : ∀ i ∈ held, (!decide ((entry payloads i).1 = r.nextSeq)) = (i != n) := by
      intro i hi
      obtain ⟨hlow, -, hhigh⟩ := h.range i hi
      rw [h.next]
      by_cases hin : i = n
      · simp [hin, entry]
      · have hne : (entry payloads i).1 ≠ n % seqRange := fun heq =>
          hin (position_of_seq ⟨hlow, hhigh⟩ ⟨le_rfl, by simp [seqRange]⟩ heq)
        simp [hin, hne]
    dsimp only [Table.delete]
    rw [h.pending, filter_map, h.nodup.erase_eq_filter]
    exact congrArg (List.map (entry payloads)) (filter_congr hkeys)
  nodup := h.nodup.erase n
  range := by
    intro i hi
    obtain ⟨hne, hmem⟩ := h.nodup.mem_erase_iff.mp hi
    obtain ⟨hlow, hlen, hhigh⟩ := h.range i hmem
    omega
  bytes := by
    have hsum := sum_map_erase (fun i => (payloads.getD i []).length) hn
    rw [h.bytes, weight, weight, ← hsum, Nat.add_sub_cancel_left]
  eof := h.eof
  close := fun he => by
    have hclose := h.close he
    omega

/-- What the inner loop leaves behind. -/
inductive Drained (payloads : List (List UInt8)) (client : ℕ → Option ℕ) (n : ℕ) (held : List ℕ)
    (ended : Bool) (r r' : Relay) : Prop
  | waiting (n' : ℕ) (held' : List ℕ) (hold : Holding payloads n' held' ended r')
    (outcome : r'.outcome = none) (le : n ≤ n') (mem : ∀ i, i ∈ held' ↔ i ∈ held ∧ n' ≤ i)
    (missing : n' ∉ held') (unfinished : ended = true → n' ≠ payloads.length)
    (passed : ∀ j, n ≤ j → j < n' → j ∈ held) (bytes : r'.pendingBytes ≤ r.pendingBytes)
    (total : r'.written.length + r'.pendingBytes = r.written.length + r.pendingBytes)
    (readers : r'.activeReaders = r.activeReaders)
  | complete (outcome : r'.outcome = some none) (written : r'.written = payloads.flatten)
  | refused (k bytes : ℕ) (client : client k = some bytes)
    (outcome : r'.outcome = some (some .write)) (written : r'.written <+: payloads.flatten)

/-- The inner loop writes in order for as long as it can. -/
theorem drain_spec {fuel : ℕ} (hout : r.outcome = none)
    (hfuel : held.length < fuel) :
    Drained payloads client n held ended r (drain client fuel r) := by
  induction fuel generalizing n held r with
  | zero => omega
  | succ fuel ih =>
    rw [drain]
    by_cases heof : r.eofSeq = some r.nextSeq
    · obtain ⟨-, hn⟩ := h.eof_iff.mp heof
      rw [if_pos heof]
      refine .complete rfl ?_
      rw [h.written, hn, take_length]
    rw [if_neg heof, h.find]
    by_cases hn : n ∈ held
    · have hlt := (h.range n hn).2.1
      rw [if_pos hn]
      cases hclient : client r.writes with
      | some k =>
        refine .refused r.writes k hclient rfl ?_
        have hstep := (h.advance hn 0).isPrefix
        refine List.IsPrefix.trans ?_ hstep
        exact prefix_append_right_inj _ |>.mpr ( take_prefix k _)
      | none =>
        have hlen : (held.erase n).length < fuel := by
          rw [length_erase_of_mem hn]
          have hpos := length_pos_of_mem hn
          omega
        cases ih (h.advance hn (r.writes + 1)) hout hlen with
        | waiting n' held' hold outcome le mem missing unfinished passed bytes total readers =>
          refine .waiting n' held' hold outcome (by omega) (fun i => ?_) missing unfinished
            (fun j hj hj' => ?_) (bytes.trans (Nat.sub_le _ _)) (total.trans ?_) readers
          · rw [mem i, h.nodup.mem_erase_iff]
            constructor
            · rintro ⟨⟨-, hi⟩, hle⟩
              exact ⟨hi, hle⟩
            · rintro ⟨hi, hle⟩
              exact ⟨⟨by omega, hi⟩, hle⟩
          · by_cases hjn : j = n
            · exact hjn ▸ hn
            · exact (h.nodup.mem_erase_iff.mp (passed j (by omega) hj')).2
          · have hsum := sum_map_erase (fun i => (payloads.getD i []).length) hn
            have hbytes := h.bytes
            rw [weight, ← hsum] at hbytes
            dsimp only
            rw [length_append]
            omega
        | complete outcome written => exact .complete outcome written
        | refused k bytes hk outcome written => exact .refused k bytes hk outcome written
    · rw [if_neg hn]
      refine .waiting n held h hout le_rfl (fun i => ?_) hn (fun he hlen => heof ?_)
        (fun j hj hj' => by omega) le_rfl rfl rfl
      · exact ⟨fun hi => ⟨hi, (h.range i hi).1⟩, fun hi => hi.1⟩
      · exact h.eof_iff.mpr ⟨he, hlen⟩

theorem Holding.drained (hout : r.outcome = none) :
    Drained payloads client n held ended r (r.drained client) := by
  refine drain_spec h hout ?_
  rw [h.pending, length_map]
  exact Nat.lt_succ_self _

theorem Holding.store (hnew : i ∉ held) (hi : n ≤ i ∧ i < payloads.length ∧ i < n + seqRange) :
    Holding payloads n (held ++ [i]) ended (r.store (i % seqRange) (payloads.getD i [])) where
  next := h.next
  bound := h.bound
  written := h.written
  pending := by
    have hfree : ∀ a ∈ r.pending, a.1 ≠ (entry payloads i).1 := by
      intro a ha hkey
      rw [mem_def, h.pending] at ha
      obtain ⟨j, hj, rfl⟩ := mem_map.mp ha
      obtain ⟨hlow, -, hhigh⟩ := h.range j hj
      exact hnew (position_of_seq ⟨hlow, hhigh⟩ ⟨hi.1, hi.2.2⟩ hkey ▸ hj)
    change (r.pending.put (entry payloads i)).rows = _
    rw [put_of_free hfree, h.pending, map_append, map_singleton]
  nodup := by
    rw [nodup_append]
    refine ⟨h.nodup, nodup_singleton i, fun a ha b hb hab => ?_⟩
    rw [mem_singleton.mp hb] at hab
    exact hnew (hab ▸ ha)
  range := by
    intro j hj
    rcases mem_append.mp hj with hj | hj
    · exact h.range j hj
    · rw [mem_singleton.mp hj]
      exact hi
  bytes := by
    change r.pendingBytes + _ = _
    rw [h.bytes, weight, weight, map_append, sum_append]
    simp
  eof := h.eof
  close := h.close

/-- Held positions that go down by whole rounds are bounded by the held bytes. -/
theorem Holding.round_bound (hfull : ∀ d ∈ payloads, d ≠ []) {lanes : ℕ}
    (hlanes : 0 < lanes) (hi : n ≤ i) (hdown : ∀ t, n + t * lanes ≤ i → i - t * lanes ∈ held) :
    i < n + lanes * r.pendingBytes := by
  have hweight : held.length ≤ weight payloads held := by
    have hone : ∀ j ∈ held, 1 ≤ (payloads.getD j []).length := by
      intro j hj
      have hlt := (h.range j hj).2.1
      rw [getD_eq_getElem _ _ hlt]
      exact length_pos_iff.mpr (hfull _ (getElem_mem hlt))
    have hsum := sum_le_sum (f := fun _ => 1) (g := fun j => (payloads.getD j []).length) hone
    simpa [weight] using hsum
  have hrounds : ((List.range ((i - n) / lanes + 1)).map fun t => i - t * lanes).length ≤
    held.length := by
    have hle : ∀ t ∈ List.range ((i - n) / lanes + 1), n + t * lanes ≤ i := by
      intro t ht
      have ht' : t ≤ (i - n) / lanes := Nat.lt_succ_iff.mp (mem_range.mp ht)
      have hmul := (Nat.le_div_iff_mul_le hlanes).mp ht'
      omega
    refine (List.Nodup.subperm ?_ ?_).length_le
    · refine List.Nodup.map_on (fun t ht t' ht' heq => ?_) nodup_range
      have h1 := hle t ht
      have h2 := hle t' ht'
      exact Nat.eq_of_mul_eq_mul_right hlanes (by omega)
    · intro x hx
      obtain ⟨t, ht, rfl⟩ := mem_map.mp hx
      exact hdown t (hle t ht)
  rw [length_map, length_range] at hrounds
  rw [h.bytes]
  have hdiv : i - n < lanes * ((i - n) / lanes + 1) := Nat.lt_mul_div_succ _ hlanes
  have hmul : lanes * ((i - n) / lanes + 1) ≤ lanes * weight payloads held :=
    Nat.mul_le_mul_left _ (hrounds.trans hweight)
  omega

end

end

/-! ## The lanes -/

section

variable {payloads : List (List UInt8)} {lanes : ℕ} {client : ℕ → Option ℕ}

/-- What the reader of a lane reports for a position. -/
def resultAt (payloads : List (List UInt8)) (i : ℕ) : FrameResult :=
  frameResult (frameAt payloads i)

variable {i k : ℕ} {done' : ℕ → List ℕ}

theorem resultAt_payload (hfull : ∀ d ∈ payloads, d ≠ []) (hi : i < payloads.length) :
    resultAt payloads i = .data (i % seqRange) (payloads.getD i []) := by
  have hne : payloads.getD i [] ≠ [] := by
    rw [getD_eq_getElem _ _ hi]
    exact hfull _ (getElem_mem hi)
  exact if_neg hne

theorem resultAt_last : resultAt payloads payloads.length = .last (payloads.length % seqRange) := by
  simp [resultAt, frameResult, frameAt]

/-- The lane of the empty frame. -/
def lastLane (payloads : List (List UInt8)) (lanes : ℕ) : ℕ := payloads.length % lanes

/-- Lanes that may still report: the last lane, which never reports its end,
and those with results to come. -/
def openLanes (payloads : List (List UInt8)) (lanes : ℕ)
    (queues : ℕ → List FrameResult) : Finset ℕ :=
  (Finset.range lanes).filter fun k => k = lastLane payloads lanes ∨ queues k ≠ []

/-- Positions that were received and that are still to come on each lane, with
the errors at the end of the lanes. The flag says that all frames arrive. -/
structure LanesInv (payloads : List (List UInt8)) (lanes : ℕ) (calm : Prop)
    (queues : ℕ → List FrameResult) (done left : ℕ → List ℕ) (tail : ℕ → List FrameResult) :
    Prop where
  order : ∀ k, done k ++ left k <+: lanePositions lanes payloads.length k
  results : ∀ k, queues k = (left k).map (resultAt payloads) ++ tail k
  /-- A lane ends with at most one error. -/
  tails : ∀ k, tail k = [] ∨ ∃ err, tail k = [.failed err] ∧
    (calm → err = .eof ∧ k ≠ lastLane payloads lanes)
  /-- All frames come when all arrive. -/
  complete : calm → ∀ k, k < lanes → done k ++ left k = lanePositions lanes payloads.length k
  ends : calm → ∀ k, k < lanes → k ≠ lastLane payloads lanes → left k ≠ [] → tail k ≠ []
  outside : ∀ k, lanes ≤ k → queues k = []

/-- What the relay holds against the positions that were received. -/
structure Running (payloads : List (List UInt8)) (lanes : ℕ) (done : ℕ → List ℕ) (n : ℕ)
    (held : List ℕ) (r : Relay) : Prop where
  hold : Holding payloads n held (decide (payloads.length ∈ done (lastLane payloads lanes))) r
  missing : n ∉ held
  held : ∀ i, i ∈ held ↔ i < payloads.length ∧ i ∈ done (i % lanes) ∧ n ≤ i
  passed : ∀ j, j < n → j ∈ done (j % lanes)
  unfinished : payloads.length ∈ done (lastLane payloads lanes) → n ≠ payloads.length
  window : r.pendingBytes ≤ maxStripedPendingBytes

/-- The relay waits in order with the bytes that it got, or has returned with an initial part of the
stream, which is all of it when there was no error. -/
structure Sound (payloads : List (List UInt8)) (lanes : ℕ) (calm : Prop) (done : ℕ → List ℕ)
    (queues : ℕ → List FrameResult) (got : ℕ) (r : Relay) : Prop where
  running : r.outcome = none → (∃ n held, Running payloads lanes done n held r) ∧
    (calm → r.activeReaders = (openLanes payloads lanes queues).card)
  account : r.outcome = none → r.written.length + r.pendingBytes = got
  returned : ∀ err, r.outcome = some err → r.written <+: payloads.flatten ∧
    (err = none → r.written = payloads.flatten) ∧ (calm → err = none)

/-- Earlier positions of a lane are received before later ones. -/
theorem mem_done_of_lt {positions done left : List ℕ} (hsort : positions.Pairwise (· < ·))
    (horder : done ++ left <+: positions) {j : ℕ} (hi : i ∈ done ∨ left.head? = some i)
    (hj : j ∈ positions) (hlt : j < i) : j ∈ done := by
  obtain ⟨rest, rfl⟩ := horder
  rw [append_assoc, pairwise_append] at hsort
  obtain ⟨-, hrest, hcross⟩ := hsort
  rw [append_assoc] at hj
  rcases mem_append.mp hj with hj | hj
  · exact hj
  rcases hi with hi | hi
  · have hij := hcross i hi j hj
    omega
  cases left with
  | nil => cases hi
  | cons =>
    cases hi
    rcases mem_cons.mp hj with rfl | hj
    · omega
    · have hij := (pairwise_cons.mp hrest).1 j hj
      omega

theorem head_not_done {positions done left : List ℕ} (hsort : positions.Pairwise (· < ·))
    (horder : done ++ left <+: positions) (hi : left.head? = some i) : i ∉ done := by
  obtain ⟨rest, rfl⟩ := horder
  intro hmem
  rw [append_assoc, pairwise_append] at hsort
  cases left with
  | nil => cases hi
  | cons =>
    cases hi
    exact lt_irrefl _ (hsort.2.2 _ hmem _ mem_cons_self)

variable {calm : Prop} {queues : ℕ → List FrameResult} {done left : ℕ → List ℕ}
  {tail : ℕ → List FrameResult} {n got : ℕ} {held : List ℕ} {r : Relay}

section

variable (h : Running payloads lanes done n held r)
  (horder : ∀ k, done k ++ left k <+: lanePositions lanes payloads.length k)
include h horder

theorem Running.down (hi : i ∈ held) (t : ℕ) (ht : n + t * lanes ≤ i) : i - t * lanes ∈ held := by
  obtain ⟨hlen, hdone, -⟩ := (h.held i).mp hi
  have hmod : (i - t * lanes) % lanes = i % lanes := by
    rw [Nat.mul_comm t lanes] at ht ⊢
    exact Nat.sub_mul_mod (by omega)
  refine (h.held _).mpr ⟨by omega, ?_, by omega⟩
  rw [hmod]
  by_cases hzero : i - t * lanes = i
  · rw [hzero]
    exact hdone
  · exact mem_done_of_lt (lanePositions_sorted _ _ _) (horder _) (.inl hdone)
      (mem_lanePositions.mpr ⟨by omega, hmod⟩) (by omega)

theorem Running.next_bound (hfull : ∀ d ∈ payloads, d ≠ []) (hlanes : 0 < lanes)
    (hmax : lanes * (maxStripedPendingBytes + 1) < seqRange)
    (hi : (left k).head? = some i) : n ≤ i ∧ i < n + seqRange := by
  have hpos : i ∈ lanePositions lanes payloads.length k :=
    (horder k).subset (mem_append_right _ (mem_of_head? hi))
  obtain ⟨hle, hlane⟩ := mem_lanePositions.mp hpos
  have hnew := head_not_done (lanePositions_sorted _ _ _) (horder k) hi
  have hlow : n ≤ i := by
    by_contra hlt
    exact hnew (hlane ▸ h.passed i (not_le.mp hlt))
  refine ⟨hlow, ?_⟩
  rw [Nat.mul_succ] at hmax
  by_cases hround : i < n + lanes
  · omega
  have hmod : (i - lanes) % lanes = k := by
    rw [← Nat.mod_eq_sub_mod (by omega), hlane]
  have hdone : i - lanes ∈ done k :=
    mem_done_of_lt (lanePositions_sorted _ _ _) (horder k) (.inr hi)
      (mem_lanePositions.mpr ⟨by omega, hmod⟩) (by omega)
  have hheld : i - lanes ∈ held := (h.held _).mpr ⟨by omega, hmod.symm ▸ hdone, by omega⟩
  have hbound := h.hold.round_bound hfull hlanes (by omega) (h.down horder hheld)
  have hwindow := Nat.mul_le_mul_left lanes h.window
  omega

end

theorem openLanes_update {rest : List FrameResult}
    (hold : k = lastLane payloads lanes ∨ queues k ≠ [])
    (hnew : k = lastLane payloads lanes ∨ rest ≠ []) :
    openLanes payloads lanes (update queues k rest) = openLanes payloads lanes queues := by
  refine Finset.filter_congr fun j _ => ?_
  by_cases hj : j = k
  · subst hj
    simp only [update_self]
    exact ⟨fun _ => hold, fun _ => hnew⟩
  · rw [update_of_ne hj]

theorem mem_done_update {j m : ℕ} :
    j ∈ update done k (done k ++ [i]) m ↔ j ∈ done m ∨ m = k ∧ j = i := by
  by_cases hm : m = k
  · subst hm
    simp
  · simp [hm]

theorem Sound.of_returned {err : Option RelayErr} (hout : r.outcome = some err)
    (hwritten : r.written <+: payloads.flatten) (hall : err = none → r.written = payloads.flatten)
    (hcalm : calm → err = none) : Sound payloads lanes calm done queues got r := by
  refine ⟨fun hnone => ?_, fun hnone => ?_, fun err' herr => ?_⟩
  · cases hout.symm.trans hnone
  · cases hout.symm.trans hnone
  · cases hout.symm.trans herr
    exact ⟨hwritten, hall, hcalm⟩

/-- What the inner loop leaves behind is sound. -/
theorem sound_of_drained {held' : List ℕ} {r' : Relay} (h : Drained payloads client n held'
      (decide (payloads.length ∈ done' (lastLane payloads lanes))) r r')
    (hheld : ∀ i, i ∈ held' ↔ i < payloads.length ∧ i ∈ done' (i % lanes) ∧ n ≤ i)
    (hpassed : ∀ j, j < n → j ∈ done' (j % lanes))
    (hwindow : r.pendingBytes ≤ maxStripedPendingBytes)
    (hreaders : calm → r.activeReaders = (openLanes payloads lanes queues).card)
    (hclient : calm → ∀ k, client k = none) (hgot : r.written.length + r.pendingBytes = got) :
    Sound payloads lanes calm done' queues got r' := by
  cases h with
  | waiting n' held'' hold outcome le mem missing unfinished passed bytes total readers =>
    refine ⟨fun _ => ⟨⟨n', held'', hold, missing, fun i => ?_, fun j hj => ?_, fun hend => ?_,
      bytes.trans hwindow⟩, fun hcalm => readers.trans (hreaders hcalm)⟩, fun _ => total.trans hgot,
      fun err herr => ?_⟩
    · rw [mem i, hheld i]
      constructor
      · rintro ⟨⟨hlen, hdone, -⟩, hle⟩
        exact ⟨hlen, hdone, hle⟩
      · rintro ⟨hlen, hdone, hle⟩
        exact ⟨⟨hlen, hdone, le.trans hle⟩, hle⟩
    · by_cases hjn : j < n
      · exact hpassed j hjn
      · exact ((hheld j).mp (passed j (not_lt.mp hjn) hj)).2.1
    · exact unfinished (decide_eq_true hend)
    · cases outcome.symm.trans herr
  | complete outcome written =>
    exact .of_returned outcome (by rw [written]) (fun _ => written) fun _ => rfl
  | refused k bytes hk outcome written =>
    refine .of_returned outcome written (fun hno => nomatch hno) fun hcalm => ?_
    rw [hclient hcalm k] at hk
    cases hk

/-- A relay that returns an error while it waits has written an initial part. -/
theorem sound_of_error (err : Option RelayErr) (hr : Running payloads lanes done n held r)
    (herr : err ≠ none) (hcalm : ¬ calm) {r' : Relay} (hout : r'.outcome = some err)
    (hwritten : r'.written = r.written) :
    Sound payloads lanes calm done' queues got r' :=
  .of_returned hout (hwritten ▸ hr.hold.isPrefix)
    (fun hno => absurd hno herr) fun hc => absurd hc hcalm

theorem Running.finish (hr : Running payloads lanes done n held r) : r.finish ≠ none := by
  unfold Relay.finish
  split_ifs with heof
  · obtain ⟨hend, hn⟩ := hr.hold.eof_iff.mp heof
    exact absurd hn (hr.unfinished (of_decide_eq_true hend))
  · simp

theorem Running.readers (hr : Running payloads lanes done n held r) (readers : ℕ) :
    Running payloads lanes done n held { r with activeReaders := readers } :=
  ⟨⟨hr.hold.next, hr.hold.bound, hr.hold.written, hr.hold.pending, hr.hold.nodup, hr.hold.range,
    hr.hold.bytes, hr.hold.eof, hr.hold.close⟩, hr.missing, hr.held, hr.passed,
    hr.unfinished, hr.window⟩

/-- Results come from the lanes only. -/
theorem LanesInv.lane_lt (h : LanesInv payloads lanes calm queues done left tail)
    (hk : queues k ≠ []) : k < lanes :=
  not_le.mp fun hge => hk (h.outside k hge)

theorem receive_position (hfull : ∀ d ∈ payloads, d ≠ []) (hlanes : 0 < lanes)
    (hmax : lanes * (maxStripedPendingBytes + 1) < seqRange)
    (hinv : LanesInv payloads lanes calm queues done left tail)
    (hr : Running payloads lanes done n held r) (hout : r.outcome = none)
    (hreaders : calm → r.activeReaders = (openLanes payloads lanes queues).card)
    (hclient : calm → ∀ k, client k = none) {rest : List ℕ} (hleft : left k = i :: rest)
    (hfits : calm → i < payloads.length →
      r.pendingBytes + (payloads.getD i []).length ≤ maxStripedPendingBytes) :
    Sound payloads lanes calm (update done k (done k ++ [i])) queues
      (r.written.length + r.pendingBytes + (resultAt payloads i).bytes)
      (r.receive client (resultAt payloads i)) := by
  have hhead : (left k).head? = some i := by rw [hleft]; rfl
  have hpos : i ∈ lanePositions lanes payloads.length k :=
    (hinv.order k).subset (mem_append_right _ (mem_of_head? hhead))
  obtain ⟨hle, hlane⟩ := mem_lanePositions.mp hpos
  have hnew := head_not_done (lanePositions_sorted _ _ _) (hinv.order k) hhead
  obtain ⟨hlow, hhigh⟩ := hr.next_bound hinv.order hfull hlanes hmax hhead
  have hpassed : ∀ j, j < n → j ∈ update done k (done k ++ [i]) (j % lanes) :=
    fun j hj => mem_done_update.mpr (.inl (hr.passed j hj))
  by_cases hlast : i = payloads.length
  · subst hlast
    have hend : payloads.length ∈ update done k (done k ++ [payloads.length])
        (lastLane payloads lanes) := mem_done_update.mpr (.inr ⟨hlane, rfl⟩)
    rw [resultAt_last]
    have hhold : Holding payloads n held (decide (payloads.length ∈
        update done k (done k ++ [payloads.length]) (lastLane payloads lanes)))
        { r with eofSeq := some (payloads.length % seqRange) } := by
      rw [decide_eq_true hend]
      exact ⟨hr.hold.next, hr.hold.bound, hr.hold.written, hr.hold.pending, hr.hold.nodup,
        hr.hold.range, hr.hold.bytes, rfl, fun _ => hhigh⟩
    refine sound_of_drained (hhold.drained hout)
      (fun j => ?_) hpassed hr.window hreaders hclient rfl
    rw [hr.held j, mem_done_update]
    constructor
    · rintro ⟨hlen, hdone, hj⟩
      exact ⟨hlen, .inl hdone, hj⟩
    · rintro ⟨hlen, hdone | ⟨-, rfl⟩, hj⟩
      · exact ⟨hlen, hdone, hj⟩
      · exact absurd hlen (lt_irrefl _)
  · have hlen : i < payloads.length := lt_of_le_of_ne hle hlast
    have hend : payloads.length ∈ update done k (done k ++ [i]) (lastLane payloads lanes) ↔
        payloads.length ∈ done (lastLane payloads lanes) := by
      rw [mem_done_update]
      exact or_iff_left fun hbad => hlast hbad.2.symm
    have hfresh : i ∉ held := fun hmem => hnew (hlane ▸ ((hr.held i).mp hmem).2.1)
    have hstore := hr.hold.store hfresh ⟨hlow, hlen, hhigh⟩
    rw [resultAt_payload hfull hlen, Relay.receive]
    split_ifs with hover
    · refine sound_of_error (some .windowExceeded) hr (by simp) (fun hcalm => ?_) rfl rfl
      have hfit := hfits hcalm hlen
      change maxStripedPendingBytes < r.pendingBytes + _ at hover
      omega
    rw [← decide_eq_decide.mpr hend] at hstore
    refine sound_of_drained (hstore.drained hout) (fun j => ?_) hpassed (not_lt.mp hover) hreaders
      hclient (Nat.add_assoc _ _ _).symm
    rw [mem_append, mem_singleton, hr.held j, mem_done_update]
    constructor
    · rintro (⟨hjlen, hdone, hj⟩ | rfl)
      · exact ⟨hjlen, .inl hdone, hj⟩
      · exact ⟨hlen, .inr ⟨hlane, rfl⟩, hlow⟩
    · rintro ⟨hjlen, hdone | ⟨-, rfl⟩, hj⟩
      · exact .inl ⟨hjlen, hdone, hj⟩
      · exact .inr rfl

theorem receive_failed (client : ℕ → Option ℕ) (hlanes : 0 < lanes)
    (hinv : LanesInv payloads lanes calm queues done left tail)
    (hr : Running payloads lanes done n held r) (hout : r.outcome = none)
    (hreaders : calm → r.activeReaders = (openLanes payloads lanes queues).card) {err : ReadErr}
    (hqueue : queues k = [.failed err]) (hend : calm → err = .eof ∧ k ≠ lastLane payloads lanes) :
    Sound payloads lanes calm done (update queues k []) (r.written.length + r.pendingBytes)
      (r.receive client (.failed err)) := by
  have hk := hinv.lane_lt (by rw [hqueue]; exact cons_ne_nil _ _)
  have hcard : calm → (openLanes payloads lanes queues).card =
      (openLanes payloads lanes (update queues k [])).card + 1 := by
    intro hcalm
    have hne := (hend hcalm).2
    have hmem : k ∈ openLanes payloads lanes queues := by
      simp [openLanes, hk, hqueue]
    have herase : openLanes payloads lanes (update queues k []) =
        (openLanes payloads lanes queues).erase k := by
      ext j
      by_cases hj : j = k
      · subst hj
        simp [openLanes, hne]
      · simp [openLanes, hj]
    rw [herase, Finset.card_erase_of_mem hmem]
    have hpos := Finset.card_pos.mpr ⟨k, hmem⟩
    omega
  have hlastOpen : calm → 0 < (openLanes payloads lanes (update queues k [])).card := by
    intro _
    refine Finset.card_pos.mpr ⟨lastLane payloads lanes, ?_⟩
    exact Finset.mem_filter.mpr ⟨Finset.mem_range.mpr (Nat.mod_lt _ hlanes), .inl rfl⟩
  by_cases heof : err = .eof
  · subst heof
    rw [Relay.receive, Relay.leave]
    split_ifs with hzero
    · refine sound_of_error _ hr (hr.readers _).finish (fun hcalm => ?_) rfl rfl
      have h1 := hreaders hcalm
      have h2 := hcard hcalm
      have h3 := hlastOpen hcalm
      dsimp only at hzero
      omega
    · refine ⟨fun _ => ⟨⟨n, held, hr.readers _⟩, fun hcalm => ?_⟩, fun _ => rfl, fun err herr => ?_⟩
      · have h1 := hreaders hcalm
        have h2 := hcard hcalm
        dsimp only
        omega
      · change r.outcome = some err at herr
        cases hout.symm.trans herr
  · have hrec : r.receive client (.failed err) = { r with outcome := some (some (.read err)) } := by
      cases err with
      | eof => exact absurd rfl heof
      | unexpectedEOF => rfl
      | tooLarge => rfl
      | broken => rfl
    rw [hrec]
    exact sound_of_error (some (.read err)) hr (by simp) (fun hcalm => heof (hend hcalm).1) rfl rfl

/-- Lanes and relay of a connection after so many bytes were received. -/
def Inv (payloads : List (List UInt8)) (lanes : ℕ) (calm : Prop) (got : ℕ)
    (x : Connection) : Prop :=
  ∃ done left tail, LanesInv payloads lanes calm x.queues done left tail ∧
    Sound payloads lanes calm done x.queues got x.relay

/-- The lanes after one position was taken from the front of a lane. -/
theorem LanesInv.take (h : LanesInv payloads lanes calm queues done left tail)
    {rest : List ℕ} (hleft : left k = i :: rest) :
    LanesInv payloads lanes calm (update queues k (rest.map (resultAt payloads) ++ tail k))
      (update done k (done k ++ [i])) (update left k rest) tail where
  order := by
    intro j
    by_cases hj : j = k
    · subst hj
      have horder := h.order j
      rw [hleft] at horder
      simpa using horder
    · simpa [hj] using h.order j
  results := by
    intro j
    by_cases hj : j = k
    · subst hj
      simp
    · simpa [hj] using h.results j
  tails := h.tails
  complete := by
    intro hcalm j hlt
    by_cases hj : j = k
    · subst hj
      have hcomplete := h.complete hcalm j hlt
      rw [hleft] at hcomplete
      simpa using hcomplete
    · simpa [hj] using h.complete hcalm j hlt
  ends := by
    intro hcalm j hlt hlast hne
    by_cases hj : j = k
    · subst hj
      exact h.ends hcalm j hlt hlast (by rw [hleft]; simp)
    · exact h.ends hcalm j hlt hlast (by simpa [hj] using hne)
  outside := by
    intro j hge
    by_cases hj : j = k
    · subst hj
      have hempty := h.outside j hge
      rw [h.results, hleft] at hempty
      simp at hempty
    · simpa [hj] using h.outside j hge

theorem LanesInv.close (h : LanesInv payloads lanes calm queues done left tail)
    (hleft : left k = []) :
    LanesInv payloads lanes calm (update queues k []) done left (update tail k []) where
  order := h.order
  results := by
    intro j
    by_cases hj : j = k
    · subst hj
      simp [hleft]
    · simpa [hj] using h.results j
  tails := by
    intro j
    by_cases hj : j = k
    · subst hj
      simp
    · simpa [hj] using h.tails j
  complete := h.complete
  ends := by
    intro hcalm j hlt hlast hne
    have hj : j ≠ k := fun hj => hne (hj ▸ hleft)
    simpa [hj] using h.ends hcalm j hlt hlast hne
  outside := by
    intro j hge
    by_cases hj : j = k
    · simp [hj]
    · simpa [hj] using h.outside j hge

/-- An arrival concerns only a relay that has not returned. -/
theorem Sound.relayed {f : Relay → Relay} {queues' : ℕ → List FrameResult}
    (h : Sound payloads lanes calm done queues got x.relay) {got' : ℕ}
    (hf : x.relay.outcome = none → Sound payloads lanes calm done' queues' got' (f x.relay)) :
    Sound payloads lanes calm done' queues' got' (x.relayed f) := by
  unfold Connection.relayed
  split_ifs with hout
  · exact hf hout
  · exact ⟨fun hnone => absurd hnone hout, fun hnone => absurd hnone hout, h.returned⟩

/-- Bytes of the payload that arrives. -/
def arriving (x : Connection) : Arrival → ℕ
  | .closed => 0
  | .result lane => ((x.queues lane).head?.map FrameResult.bytes).getD 0

theorem step_inv (hfull : ∀ d ∈ payloads, d ≠ []) (hlanes : 0 < lanes)
    (hmax : lanes * (maxStripedPendingBytes + 1) < seqRange)
    (hclient : calm → ∀ k, client k = none) {a : Arrival}
    (h : Inv payloads lanes calm got x) (ha : calm → a ≠ .closed ∧
      got + arriving x a ≤ x.relay.written.length + maxStripedPendingBytes) :
    Inv payloads lanes calm (got + arriving x a) (step client x a) := by
  obtain ⟨done, left, tail, hinv, hsound⟩ := h
  cases a with
  | closed =>
    refine ⟨done, left, tail, hinv, ?_⟩
    dsimp only [step]
    refine hsound.relayed fun hout => ?_
    obtain ⟨⟨n, held, hr⟩, -⟩ := hsound.running hout
    exact sound_of_error _ hr hr.finish (fun hcalm => (ha hcalm).1 rfl) rfl rfl
  | result k =>
    cases hqueue : x.queues k with
    | nil =>
      have hstep : step client x (.result k) = x := by
        rw [step, hqueue]
      rw [hstep, arriving, hqueue]
      exact ⟨done, left, tail, hinv, hsound⟩
    | cons result rest =>
      have hstep : step client x (.result k) =
          ⟨update x.queues k rest, x.relayed fun r => r.receive client result⟩ := by
        rw [step, hqueue]
      rw [arriving, hqueue] at ha
      rw [hstep, arriving, hqueue]
      have hresults := hinv.results k
      rw [hqueue] at hresults
      cases hleft : left k with
      | cons i more =>
        rw [hleft, map_cons, cons_append] at hresults
        obtain ⟨rfl, rfl⟩ := List.cons.inj hresults
        have hopen : calm → openLanes payloads lanes (update x.queues k
            (more.map (resultAt payloads) ++ tail k)) = openLanes payloads lanes x.queues := by
          intro hcalm
          refine openLanes_update (.inr (by rw [hqueue]; simp)) ?_
          by_cases hlast : k = lastLane payloads lanes
          · exact .inl hlast
          · have hk := hinv.lane_lt (by rw [hqueue]; exact cons_ne_nil _ _)
            have htail := hinv.ends hcalm k hk hlast (by rw [hleft]; simp)
            exact .inr fun hnil => htail (append_eq_nil_iff.mp hnil).2
        refine ⟨_, _, _, hinv.take hleft, ?_⟩
        dsimp only
        refine hsound.relayed fun hout => ?_
        obtain ⟨⟨n, held, hr⟩, hreaders⟩ := hsound.running hout
        have hgot := hsound.account hout
        have hfits : calm → i < payloads.length →
            x.relay.pendingBytes + (payloads.getD i []).length ≤ maxStripedPendingBytes := by
          intro hcalm hi
          have hfit : got + (resultAt payloads i).bytes ≤
              x.relay.written.length + maxStripedPendingBytes := (ha hcalm).2
          rw [resultAt_payload hfull hi, FrameResult.bytes] at hfit
          omega
        have hnext := receive_position hfull hlanes hmax hinv hr hout hreaders hclient hleft hfits
        rw [hgot] at hnext
        refine ⟨fun hnone => ⟨(hnext.running hnone).1, fun hcalm => ?_⟩,
          hnext.account, hnext.returned⟩
        rw [hopen hcalm]
        exact (hnext.running hnone).2 hcalm
      | nil =>
        rw [hleft, map_nil, nil_append] at hresults
        rcases hinv.tails k with hnil | ⟨err, herr, hend⟩
        · rw [hnil] at hresults
          cases hresults
        rw [herr] at hresults
        obtain ⟨rfl, rfl⟩ := List.cons.inj hresults
        refine ⟨_, _, _, hinv.close hleft, ?_⟩
        dsimp only
        refine hsound.relayed fun hout => ?_
        obtain ⟨⟨n, held, hr⟩, hreaders⟩ := hsound.running hout
        have hnext := receive_failed client hlanes hinv hr hout hreaders hqueue hend
        rw [hsound.account hout] at hnext
        exact hnext

theorem receivedBytes_cons (client : ℕ → Option ℕ) (x : Connection) (a : Arrival)
    (rest : List Arrival) : receivedBytes x.queues (a :: rest) =
      arriving x a + receivedBytes (step client x a).queues rest := by
  cases a with
  | closed => simp [receivedBytes, received, arriving, step]
  | result k => cases hq : x.queues k <;> simp [receivedBytes, received, arriving, step, hq]

/-- All frames arrive within the window. -/
theorem run_calm (hfull : ∀ d ∈ payloads, d ≠ []) (hlanes : 0 < lanes)
    (hmax : lanes * (maxStripedPendingBytes + 1) < seqRange) (hclient : ∀ k, client k = none)
    {schedule : List Arrival} (h : Inv payloads lanes True got x)
    (hopen : ∀ a ∈ schedule, a ≠ .closed)
    (hfits : ∀ n < schedule.length, got + receivedBytes x.queues (schedule.take (n + 1)) ≤
      (run (step client) x (schedule.take n)).relay.written.length + maxStripedPendingBytes) :
    ∃ got', Inv payloads lanes True got' (run (step client) x schedule) := by
  induction schedule generalizing x got with
  | nil => exact ⟨got, h⟩
  | cons a rest ih =>
    obtain ⟨ha, hrest⟩ := forall_mem_cons.mp hopen
    have hfirst := hfits 0 (Nat.succ_pos _)
    rw [take_succ_cons, receivedBytes_cons client] at hfirst
    have hstep := step_inv hfull hlanes hmax (fun _ => hclient) h fun _ => ⟨ha, hfirst⟩
    refine ih hstep hrest fun n hn => ?_
    have hnext := hfits (n + 1) (Nat.succ_lt_succ hn)
    rw [take_succ_cons, take_succ_cons, receivedBytes_cons client, run_cons, ← Nat.add_assoc]
      at hnext
    exact hnext

end

/-! ## Whole connections -/

section

variable {lanes : ℕ} {reads : List (List UInt8)} {ending : ℕ → LaneEnd}
  {pieces : ℕ → List (List UInt8)} {client : ℕ → Option ℕ}

theorem flatten_payloads (reads : List (List UInt8)) :
    (reads.filter (· ≠ [])).flatten = reads.flatten := by
  induction reads with
  | nil => rfl
  | cons data rest ih =>
    by_cases hempty : data = []
    · simp [hempty, ← ih]
    · simp [hempty, ← ih]

/-- Every lane arrives whole and is closed cleanly. -/
def Whole (lanes : ℕ) (reads : List (List UInt8)) (ending : ℕ → LaneEnd)
    (pieces : ℕ → List (List UInt8)) : Prop :=
  ∀ k, k < lanes → (pieces k).flatten = laneBytes lanes reads k ∧ ending k = .closed

theorem lane_split (ending : LaneEnd) {pieces : List (List UInt8)}
    (hreads : ∀ data ∈ reads, data.length ≤ stripedChunkSize)
    (hp : pieces.flatten <+: laneBytes lanes reads k) :
    ∃ left tail, left <+: lanePositions lanes (reads.filter (· ≠ [])).length k ∧
      laneResults ending pieces = left.map (resultAt (reads.filter (· ≠ []))) ++ tail ∧
      (tail = [] ∧ (reads.filter (· ≠ [])).length ∈ left ∨ ∃ err, tail = [.failed err] ∧
        (reads.filter (· ≠ [])).length ∉ left ∧ (pieces.flatten = laneBytes lanes reads k →
          left = lanePositions lanes (reads.filter (· ≠ [])).length k ∧
          err = shortRead ending 0)) := by
  obtain ⟨got, tail, hread⟩ := laneResults_spec ending hreads hp
  obtain ⟨left, hleft, rfl⟩ := prefix_map_iff.mp hread.sent
  have hempty : ∀ i ∈ left, (frameAt (reads.filter (· ≠ [])) i).data = [] ↔
      i = (reads.filter (· ≠ [])).length := by
    intro i hi
    obtain ⟨hle, -⟩ := mem_lanePositions.mp (hleft.subset hi)
    rw [frameAt]
    constructor
    · intro hnil
      by_contra hne
      have hlt := lt_of_le_of_ne hle hne
      rw [getD_eq_getElem _ _ hlt] at hnil
      have hmem := getElem_mem hlt
      rw [show (reads.filter (· ≠ []))[i] = [] from hnil] at hmem
      simp at hmem
    · rintro rfl
      simp
  refine ⟨left, tail, hleft, ?_, ?_⟩
  · rw [hread.results, map_map]
    rfl
  rcases hread.ends with ⟨htail, frame, hframe, hnil⟩ | ⟨err, htail, hne, hwhole⟩
  · obtain ⟨i, hi, rfl⟩ := mem_map.mp hframe
    exact .inl ⟨htail, (hempty i hi).mp hnil ▸ hi⟩
  · refine .inr ⟨err, htail, fun hmem => ?_, fun hall => ?_⟩
    · exact hne _ (mem_map_of_mem hmem) ((hempty _ hmem).mpr rfl)
    · obtain ⟨hgot, herr⟩ := hwhole hall
      refine ⟨hleft.eq_of_length ?_, herr⟩
      simpa using congrArg List.length hgot

theorem positions_of_last {count : ℕ} {left : List ℕ} (h : left <+: lanePositions lanes count k)
    (hmem : count ∈ left) : left = lanePositions lanes count k := by
  obtain ⟨rest, hrest⟩ := h
  cases rest with
  | nil => simpa using hrest
  | cons i =>
    have hsort := lanePositions_sorted lanes count k
    have hi : i ∈ lanePositions lanes count k := by simp [← hrest]
    rw [← hrest, pairwise_append] at hsort
    have hlt := hsort.2.2 count hmem i mem_cons_self
    have hle := (mem_lanePositions.mp hi).1
    omega

theorem connect_inv (calm : Prop) (hlanes : 0 < lanes)
    (hreads : ∀ data ∈ reads, data.length ≤ stripedChunkSize)
    (hcut : ∀ k, k < lanes → (pieces k).flatten <+: laneBytes lanes reads k)
    (hcalm : calm → Whole lanes reads ending pieces) :
    Inv (reads.filter (· ≠ [])) lanes calm 0 (connect lanes ending pieces) := by
  set payloads := reads.filter (· ≠ [])
  have hsplit : ∀ k, ∃ left tail, left <+: lanePositions lanes payloads.length k ∧
      (connect lanes ending pieces).queues k = left.map (resultAt payloads) ++ tail ∧
      (tail = [] ∨ ∃ err, tail = [.failed err] ∧
      (calm → err = .eof ∧ k ≠ lastLane payloads lanes)) ∧
      (calm → k < lanes → left = lanePositions lanes payloads.length k ∧
        (k ≠ lastLane payloads lanes → tail ≠ [])) := by
    intro k
    by_cases hk : k < lanes
    · obtain ⟨left, tail, hleft, hres, hends⟩ := lane_split (ending k) hreads (hcut k hk)
      refine ⟨left, tail, hleft, by simp only [connect, if_pos hk]; exact hres, ?_, ?_⟩
      · rcases hends with ⟨htail, -⟩ | ⟨err, htail, hno, hwhole⟩
        · exact .inl htail
        · refine .inr ⟨err, htail, fun hc => ?_⟩
          obtain ⟨hall, hend⟩ := hcalm hc k hk
          obtain ⟨hl, herr⟩ := hwhole hall
          refine ⟨by rw [herr, hend]; rfl, fun hlast => hno ?_⟩
          rw [hl]
          exact mem_lanePositions.mpr ⟨le_rfl, hlast.symm⟩
      · intro hc _
        obtain ⟨hall, -⟩ := hcalm hc k hk
        rcases hends with ⟨htail, hmem⟩ | ⟨err, htail, -, hwhole⟩
        · refine ⟨positions_of_last hleft hmem, fun hlast => absurd ?_ hlast⟩
          exact (mem_lanePositions.mp (hleft.subset hmem)).2.symm
        · exact ⟨(hwhole hall).1, fun _ => by rw [htail]; simp⟩
    · exact ⟨[], [], nil_prefix, by simp [connect, hk], .inl rfl, fun _ hlt => absurd hlt hk⟩
  choose left tail hleft hqueue htails hwhole using hsplit
  have hstart : (connect lanes ending pieces).relay = ⟨0, lanes, .empty, 0, none, [], 0, none⟩ := by
    exact if_neg hlanes.ne'
  refine ⟨fun _ => [], left, tail, ⟨hleft, hqueue, htails, fun hc k hk => (hwhole k hc hk).1,
    fun hc k hk hlast _ => (hwhole k hc hk).2 hlast, fun k hge => ?_⟩, ?_⟩
  · simp [connect, not_lt.mpr hge]
  rw [hstart]
  refine ⟨fun _ => ⟨⟨0, [], ⟨rfl, Nat.zero_le _, rfl, rfl, nodup_nil, by simp, rfl, by simp,
    by simp⟩, by simp, by simp, by simp, by simp, Nat.zero_le _⟩, fun hc => ?_⟩, fun _ => rfl,
    nofun⟩
  have hall : openLanes payloads lanes (connect lanes ending pieces).queues =
    Finset.range lanes := by
    refine Finset.filter_true_of_mem fun k hk => ?_
    by_cases hlast : k = lastLane payloads lanes
    · exact .inl hlast
    · refine .inr fun hnil => ?_
      rw [hqueue k] at hnil
      exact (hwhole k hc (Finset.mem_range.mp hk)).2 hlast (append_eq_nil_iff.mp hnil).2
  rw [hall, Finset.card_range]

/-- When every frame was received, the relay has returned without an error. -/
theorem inv_finished {payloads : List (List UInt8)} (hlanes : 0 < lanes)
    {got : ℕ} (h : Inv payloads lanes True got x)
    (hall : ∀ k, k < lanes → ∀ result ∈ x.queues k, result.isFailed = true) :
    x.relay.outcome = some none := by
  obtain ⟨done, left, tail, hinv, hsound⟩ := h
  have hdone : ∀ k, k < lanes → done k = lanePositions lanes payloads.length k := by
    intro k hk
    have hnil : left k = [] := by
      cases hleft : left k with
      | nil => rfl
      | cons i =>
        have hmem : resultAt payloads i ∈ x.queues k := by
          rw [hinv.results k, hleft]
          simp
        have herr := hall k hk _ hmem
        unfold resultAt frameResult at herr
        split at herr <;> cases herr
    have hcomplete := hinv.complete trivial k hk
    rwa [hnil, append_nil] at hcomplete
  cases hout : x.relay.outcome with
  | some err => rw [(hsound.returned err hout).2.2 trivial]
  | none =>
    obtain ⟨⟨n, held, hr⟩, -⟩ := hsound.running hout
    have hmem : ∀ i, i ≤ payloads.length → i ∈ done (i % lanes) := by
      intro i hi
      rw [hdone _ (Nat.mod_lt _ hlanes)]
      exact mem_lanePositions.mpr ⟨hi, rfl⟩
    rcases lt_or_eq_of_le hr.hold.bound with hlt | heq
    · exact absurd ((hr.held n).mpr ⟨hlt, hmem n hlt.le, le_rfl⟩) hr.missing
    · exact absurd heq (hr.unfinished (hmem _ le_rfl))

/-- For every stream that is read in chunks, dealt over the lanes and received
in any interleaving, with any lane cut at any byte: the client gets an initial
part of the stream, and all of it when the relay returns no error. The relay
does return none when every frame arrives, the received bytes that are not
written stay within the window as each frame arrives, and the client takes what
it is given, whenever the other lanes close. -/
theorem relay_delivers (lanes : ℕ) (hlanes : 0 < lanes)
    (hmax : lanes * (maxStripedPendingBytes + 1) < seqRange) (reads : List (List UInt8))
    (hreads : ∀ data ∈ reads, data.length ≤ stripedChunkSize) (ending : ℕ → LaneEnd)
    (pieces : ℕ → List (List UInt8))
    (hcut : ∀ k, k < lanes → (pieces k).flatten <+: laneBytes lanes reads k)
    (client : ℕ → Option ℕ) (schedule : List Arrival) :
    let x := run (step client) (connect lanes ending pieces) schedule
    x.relay.written <+: reads.flatten ∧
      (x.relay.outcome = some none → x.relay.written = reads.flatten) ∧
      (Whole lanes reads ending pieces → (∀ k, client k = none) →
        (∀ a ∈ schedule, a ≠ .closed) → Fits client (connect lanes ending pieces) schedule →
        (∀ k, k < lanes → ∀ result ∈ x.queues k, result.isFailed = true) →
        x.relay.outcome = some none) := by
  intro x
  have hfull : ∀ d ∈ reads.filter (· ≠ []), d ≠ [] := fun d hd => by
    simpa using (mem_filter.mp hd).2
  have hfree : Along (step client) (fun _ _ => True) (connect lanes ending pieces) schedule :=
    along_of_forall (fun _ _ => trivial) _ _
  have hsafe : ∃ got, Inv (reads.filter (· ≠ [])) lanes False got x := by
    refine run_invariant (fun w => ∃ got, Inv _ lanes False got w) (fun w a h _ => ?_) ?_ hfree
    · obtain ⟨got, h⟩ := h
      exact ⟨_, step_inv hfull hlanes hmax (fun hno => hno.elim) h fun hno => hno.elim⟩
    · exact ⟨0, connect_inv _ hlanes hreads hcut fun hno => hno.elim⟩
  rw [← flatten_payloads reads]
  refine ⟨?_, fun hnil => ?_, fun hwhole hclient hopen hfits hall => ?_⟩
  · obtain ⟨got, done, left, tail, -, hsound⟩ := hsafe
    cases hout : x.relay.outcome with
    | none =>
      obtain ⟨⟨n, held, hr⟩, -⟩ := hsound.running hout
      exact hr.hold.isPrefix
    | some err => exact (hsound.returned err hout).1
  · obtain ⟨got, done, left, tail, -, hsound⟩ := hsafe
    exact (hsound.returned none hnil).2.1 rfl
  · have hstart := connect_inv True hlanes hreads hcut fun _ => hwhole
    obtain ⟨got, hcalm⟩ := run_calm hfull hlanes hmax hclient hstart hopen fun n hn =>
      (Nat.zero_add _).trans_le (hfits n hn)
    exact inv_finished hlanes hcalm hall

/-- Two lanes carry three bytes in two payloads. -/
def sampleReads : List (List UInt8) := [[7], [], [8, 9]]

/-- The second payload arrives first and its lane closes early; the client still
gets all bytes. -/
theorem relay_delivers_sample :
    let x := run (step fun _ => none) (connect 2 (fun _ => .closed) fun k => [laneBytes 2 sampleReads k])
      [.result 1, .result 1, .result 0, .result 0]
    x.relay.outcome = some none ∧ x.relay.written = [7, 8, 9] := by
  have h := relay_delivers 2 (by decide) (by decide) sampleReads (by decide) (fun _ => .closed)
    (fun k => [laneBytes 2 sampleReads k]) (fun k _ => by simp) (fun _ => none)
    [.result 1, .result 1, .result 0, .result 0]
  have hfits : Fits (fun _ => none) (connect 2 (fun _ => .closed) fun k => [laneBytes 2 sampleReads k])
      [.result 1, .result 1, .result 0, .result 0] := by
    unfold Fits
    decide +kernel
  have hnil := h.2.2 (fun k _ => ⟨by simp, rfl⟩) (fun _ => rfl) (by decide) hfits (by decide +kernel)
  exact ⟨hnil, h.2.1 hnil⟩

end

/-! ## The window at its edge -/

section

/-- Sequence numbers and sizes of the payloads among results. -/
def payloadsOf (results : List FrameResult) : List (ℕ × ℕ) :=
  results.filterMap fun result =>
    match result with
    | .data seq data => some (seq, data.length)
    | _ => none

/-- Bytes of the payloads that wait for an earlier one. -/
def outOfOrder (results : List FrameResult) : ℕ :=
  (((payloadsOf results).filter fun p => (List.range p.1).any fun n =>
    decide (n ∉ (payloadsOf results).map Prod.fst)).map Prod.snd).sum

theorem received_replicate (queues : ℕ → List FrameResult) (k m : ℕ) (rest : List Arrival) :
    received queues (List.replicate m (.result k) ++ rest) =
      (queues k).take m ++ received (update queues k ((queues k).drop m)) rest := by
  induction m generalizing queues with
  | zero => simp
  | succ m ih =>
    rw [replicate_succ, cons_append, received]
    cases hq : queues k with
    | nil =>
      rw [ih queues, hq]
      simp
    | cons =>
      dsimp only
      rw [ih, update_self, update_idem, take_succ_cons, drop_succ_cons, cons_append]

theorem queues_replicate (client : ℕ → Option ℕ) (x : Connection) (k m : ℕ) :
    (run (step client) x (List.replicate m (.result k))).queues = update x.queues k
      ((x.queues k).drop m) := by
  induction m generalizing x with
  | zero => simp [run]
  | succ m ih =>
    rw [replicate_succ, run_cons, ih, step]
    cases hq : x.queues k with
    | nil => simp [hq]
    | cons => simp

theorem outcome_kept (client : ℕ → Option ℕ) {err : Option RelayErr}
    (h : x.relay.outcome = some err) (schedule : List Arrival) :
    (run (step client) x schedule).relay.outcome = some err := by
  induction schedule generalizing x with
  | nil => exact h
  | cons a rest ih =>
    refine ih ?_
    have hkeep : ∀ f, x.relayed f = x.relay := by
      intro f
      exact if_neg (by simp [h])
    cases a with
    | closed =>
      rw [step, hkeep]
      exact h
    | result =>
      rw [step]
      split
      · exact h
      · dsimp only
        rw [hkeep]
        exact h

/-- A relay that waits for its first payload and has the given bytes pending. -/
structure Stalled (bytes : ℕ) (r : Relay) : Prop where
  outcome : r.outcome = none
  next : r.nextSeq = 0
  first : ∀ x ∈ r.pending, x.1 ≠ 0
  eof : r.eofSeq = none
  bytes : r.pendingBytes = bytes

variable {data : List UInt8}

theorem Stalled.receive {bytes seq : ℕ} {r : Relay} (h : Stalled bytes r)
    (hseq : seq ≠ 0) (hfit : bytes + data.length ≤ maxStripedPendingBytes) (client : ℕ → Option ℕ) :
    Stalled (bytes + data.length) (r.receive client (.data seq data)) := by
  have hstore : Stalled (bytes + data.length) (r.store seq data) := by
    refine ⟨h.outcome, h.next, fun x hx => ?_, h.eof, ?_⟩
    · rcases mem_put.mp hx with rfl | ⟨hx, -⟩
      · exact hseq
      · exact h.first x hx
    · change r.pendingBytes + _ = _
      rw [h.bytes]
  have hfind : (r.store seq data).pending.find (r.store seq data).nextSeq = none := by
    rw [hstore.next]
    exact find_eq_none.mpr hstore.first
  have hdrain : (r.store seq data).drained client = r.store seq data := by
    rw [Relay.drained, drain, hstore.eof, if_neg (by simp), hfind]
  rw [Relay.receive, if_neg (by rw [hstore.bytes]; omega), hdrain]
  exact hstore

/-- A lane whose payloads come after the first one fills the window. -/
theorem Stalled.run (client : ℕ → Option ℕ) {m size bytes : ℕ} (h : Stalled bytes x.relay)
    (hlong : m ≤ (x.queues k).length)
    (hqueue : ∀ result ∈ (x.queues k).take m, ∃ seq data, result = .data seq data ∧ seq ≠ 0 ∧
    data.length = size)
    (hfit : bytes + m * size ≤ maxStripedPendingBytes) :
    Stalled (bytes + m * size)
    (TransitionRun.run (step client) x (List.replicate m (.result k))).relay := by
  induction m generalizing x bytes with
  | zero =>
    rw [Nat.zero_mul, Nat.add_zero]
    exact h
  | succ m ih =>
    cases hq : x.queues k with
    | nil => simp [hq] at hlong
    | cons result left =>
      obtain ⟨seq, data, rfl, hseq, hsize⟩ := hqueue result (by simp [hq])
      rw [Nat.succ_mul] at hfit ⊢
      have hstep : step client x (.result k) =
          ⟨update x.queues k left, x.relay.receive client (.data seq data)⟩ := by
        rw [step, hq]
        simp only [Connection.relayed, if_pos h.outcome]
      have hroom : bytes + data.length ≤ maxStripedPendingBytes := by omega
      have hnext := h.receive hseq hroom client
      rw [replicate_succ, run_cons, hstep]
      rw [hsize] at hnext
      have hrest := ih (x := ⟨update x.queues k left,
        x.relay.receive client (.data seq data)⟩) hnext (by simpa [hq] using hlong)
        (fun r hr => hqueue r (by
          simp only [update_self] at hr
          rw [hq, take_succ_cons]
          exact mem_cons_of_mem _ hr)) (by omega)
      rw [show bytes + (m * size + size) = bytes + size + m * size by omega]
      exact hrest

/-- A payload that passes the window ends the relay, the first one too. -/
theorem Stalled.exceeds {bytes seq : ℕ} {left : List FrameResult} (h : Stalled bytes x.relay)
    (hqueue : x.queues k = .data seq data :: left)
    (hfull : maxStripedPendingBytes < bytes + data.length) (client : ℕ → Option ℕ) :
    (step client x (.result k)).relay.outcome = some (some .windowExceeded) := by
  have hstore : maxStripedPendingBytes < (x.relay.store seq data).pendingBytes := by
    rw [← h.bytes] at hfull
    exact hfull
  simp only [step, hqueue, Connection.relayed, if_pos h.outcome]
  rw [Relay.receive, if_pos hstore]

def zeroChunk : List UInt8 := List.replicate stripedChunkSize 0

/-- A target that sends 512 full chunks. -/
def edgeReads : List (List UInt8) := List.replicate 512 zeroChunk

/-- The connection over two lanes that arrive whole. -/
def edgeConnection : Connection :=
  connect 2 (fun _ => .closed) fun k => [laneBytes 2 edgeReads k]

/-- The second lane is received before the first. -/
def edgeSchedule : List Arrival :=
  List.replicate 256 (.result 1) ++ List.replicate 257 (.result 0)

theorem zeroChunk_length : zeroChunk.length = stripedChunkSize := length_replicate

theorem edgeReads_payloads : edgeReads.filter (· ≠ []) = edgeReads := by
  refine filter_eq_self.mpr fun data hdata => ?_
  have hne : data ≠ [] := by
    rw [eq_of_mem_replicate hdata]
    intro hnil
    have hlen := zeroChunk_length
    rw [hnil] at hlen
    cases hlen
  simpa using hne

theorem edge_result (hi : i < 512) : resultAt edgeReads i = .data i zeroChunk := by
  have hlen : i < edgeReads.length := by
    rw [edgeReads, length_replicate]
    exact hi
  have hfull : ∀ d ∈ edgeReads, d ≠ [] := by
    intro d hd
    rw [← edgeReads_payloads] at hd
    simpa using (mem_filter.mp hd).2
  have hseq : i % seqRange = i := Nat.mod_eq_of_lt (by unfold seqRange; omega)
  have hget : edgeReads[i] = zeroChunk := getElem_replicate hlen
  rw [resultAt_payload hfull hlen, hseq, getD_eq_getElem _ _ hlen, hget]

theorem edge_whole : Whole 2 edgeReads (fun _ => .closed) fun k => [laneBytes 2 edgeReads k] :=
  fun _ _ => ⟨by simp, rfl⟩

theorem edgeReads_chunks : ∀ data ∈ edgeReads, data.length ≤ stripedChunkSize := by
  intro data hdata
  rw [eq_of_mem_replicate hdata, zeroChunk_length]

theorem edge_queue (hk : k < 2) : edgeConnection.queues k =
    (lanePositions 2 512 k).map (resultAt edgeReads) ++ if k = 0 then [] else [.failed .eof] := by
  have hcount : edgeReads.length = 512 := length_replicate
  have hcut : [laneBytes 2 edgeReads k].flatten <+: laneBytes 2 edgeReads k := by
    rw [flatten_singleton]
  obtain ⟨left, tail, hleft, hres, hends⟩ := lane_split .closed edgeReads_chunks hcut
  rw [edgeReads_payloads, hcount] at hleft hends
  rw [edgeReads_payloads] at hres
  have hqueue : edgeConnection.queues k = left.map (resultAt edgeReads) ++ tail := by
    rw [← hres]
    exact if_pos hk
  rw [hqueue]
  rcases hends with ⟨rfl, hmem⟩ | ⟨err, rfl, hno, hwhole⟩
  · have hlane := (mem_lanePositions.mp (hleft.subset hmem)).2
    rw [positions_of_last hleft hmem, if_pos hlane.symm]
  · have hwholes := hwhole flatten_singleton
    have hk0 : k ≠ 0 := fun hz => hno (hwholes.1 ▸ mem_lanePositions.mpr ⟨le_rfl, by rw [hz]⟩)
    have herr : err = .eof := hwholes.2
    rw [if_neg hk0, ← hwholes.1, herr]

theorem edge_even : lanePositions 2 512 0 = (List.range 257).map (2 * ·) := by decide +kernel

theorem edge_odd : lanePositions 2 512 1 = (List.range 256).map (2 * · + 1) := by decide +kernel

theorem edge_queue_even :
    edgeConnection.queues 0 = (List.range 257).map fun j => resultAt edgeReads (2 * j) := by
  rw [edge_queue (by decide), edge_even, if_pos rfl, append_nil, map_map]
  rfl

theorem edge_queue_odd : edgeConnection.queues 1 =
    ((List.range 256).map fun j => resultAt edgeReads (2 * j + 1)) ++ [.failed .eof] := by
  rw [edge_queue (by decide), edge_odd, if_neg (by decide), map_map]
  rfl

theorem mem_payloadsOf {results : List FrameResult} {p : ℕ × ℕ} :
    p ∈ payloadsOf results ↔ ∃ data, .data p.1 data ∈ results ∧ data.length = p.2 := by
  unfold payloadsOf
  rw [mem_filterMap]
  constructor
  · rintro ⟨result, hmem, hsome⟩
    cases result with
    | data seq data =>
      cases hsome
      exact ⟨data, hmem, rfl⟩
    | last => cases hsome
    | failed => cases hsome
  · rintro ⟨data, hmem, hlen⟩
    exact ⟨_, hmem, congrArg (fun n => some (p.1, n)) hlen⟩

theorem edge_data {seq : ℕ} (hi : i ≤ 512)
    (h : resultAt edgeReads i = .data seq data) : i < 512 ∧ seq = i ∧ data = zeroChunk := by
  have hcount : edgeReads.length = 512 := length_replicate
  rcases lt_or_eq_of_le hi with hlt | rfl
  · rw [edge_result hlt] at h
    cases h
    exact ⟨hlt, rfl, rfl⟩
  · have hlast : resultAt edgeReads edgeReads.length = _ := resultAt_last
    rw [hcount] at hlast
    cases hlast.symm.trans h

theorem edge_received (m : ℕ) : received edgeConnection.queues (edgeSchedule.take m) =
    ((List.range (min m 256)).map fun j => resultAt edgeReads (2 * j + 1)) ++
      (List.range (min (m - 256) 257)).map fun j => resultAt edgeReads (2 * j) := by
  have hsched : edgeSchedule.take m = List.replicate (min m 256) (.result 1) ++
      (List.replicate (min (m - 256) 257) (.result 0) ++ []) := by
    rw [edgeSchedule, take_append, take_replicate, take_replicate, length_replicate, append_nil]
  rw [hsched, received_replicate, received_replicate, update_of_ne (by decide), edge_queue_odd,
    edge_queue_even, take_append_of_le_length (by simp), ← map_take, ← map_take, take_range,
    take_range, received, append_nil, min_assoc, min_assoc, min_self, min_self]

/-- The bytes that wait for an earlier payload never exceed the window. -/
theorem edge_backlog (m : ℕ) :
    outOfOrder (received edgeConnection.queues (edgeSchedule.take m)) ≤ maxStripedPendingBytes := by
  rw [edge_received]
  set odds := (List.range (min m 256)).map fun j => resultAt edgeReads (2 * j + 1) with hodds
  set evens := (List.range (min (m - 256) 257)).map fun j => resultAt edgeReads (2 * j) with hevens
  have hmemOdd : ∀ p ∈ payloadsOf odds, p.2 = stripedChunkSize := by
    intro p hp
    obtain ⟨data, hdata, hlen⟩ := mem_payloadsOf.mp hp
    obtain ⟨j, hj, hres⟩ := mem_map.mp hdata
    have hj' := mem_range.mp hj
    obtain ⟨-, -, rfl⟩ := edge_data (by omega) hres
    rw [← hlen, zeroChunk_length]
  have hlenOdd : (payloadsOf odds).length ≤ 256 := by
    refine (length_filterMap_le _ _).trans ?_
    rw [hodds, length_map, length_range]
    omega
  have hmemEven : ∀ p ∈ payloadsOf evens, ∀ n, n < p.1 →
    n ∈ (payloadsOf (odds ++ evens)).map Prod.fst := by
    intro p hp n hn
    obtain ⟨data, hdata, -⟩ := mem_payloadsOf.mp hp
    obtain ⟨j, hj, hres⟩ := mem_map.mp hdata
    have hj' := mem_range.mp hj
    obtain ⟨-⟩ := edge_data (by omega) hres
    refine mem_map.mpr
      ⟨(n, stripedChunkSize), mem_payloadsOf.mpr ⟨zeroChunk, ?_, zeroChunk_length⟩, rfl⟩
    rw [← edge_result (by omega : n < 512), mem_append]
    rcases Nat.even_or_odd' n with ⟨c, rfl | rfl⟩
    · exact .inr (mem_map.mpr ⟨c, mem_range.mpr (by omega), rfl⟩)
    · exact .inl (mem_map.mpr ⟨c, mem_range.mpr (by omega), rfl⟩)
  have hsplit : payloadsOf (odds ++ evens) = payloadsOf odds ++ payloadsOf evens :=
    filterMap_append
  have hnone : (payloadsOf evens).filter (fun p => (List.range p.1).any fun n =>
      decide (n ∉ (payloadsOf (odds ++ evens)).map Prod.fst)) = [] := by
    refine filter_eq_nil_iff.mpr fun p hp hany => ?_
    obtain ⟨n, hn, hno⟩ := any_eq_true.mp hany
    exact of_decide_eq_true hno (hmemEven p hp n (mem_range.mp hn))
  have hbound : ∀ q : ℕ × ℕ → Bool,
      (((payloadsOf odds).filter q).map Prod.snd).sum ≤ 256 * stripedChunkSize := by
    intro q
    have hle : ∀ v ∈ ((payloadsOf odds).filter q).map Prod.snd, v ≤ stripedChunkSize := by
      intro v hv
      obtain ⟨p, hp, rfl⟩ := mem_map.mp hv
      exact (hmemOdd p (mem_of_mem_filter hp)).le
    have hsum := sum_le_card_nsmul _ _ hle
    rw [length_map, smul_eq_mul] at hsum
    exact hsum.trans (Nat.mul_le_mul_right _ ((length_filter_le _ _).trans hlenOdd))
  have htotal := hbound fun p => (List.range p.1).any fun n =>
    decide (n ∉ (payloadsOf (odds ++ evens)).map Prod.fst)
  unfold outOfOrder
  rw [hsplit, filter_append, ← hsplit, hnone, append_nil]
  exact htotal

/-- The window counts the payload that arrives in order as well: on two lanes
that arrive whole, with at most eight mebibytes ever out of order, the relay fails
when the first payload comes after 256 later ones. -/
theorem relay_window_edge : (∀ data ∈ edgeReads, data.length ≤ stripedChunkSize) ∧
      Whole 2 edgeReads (fun _ => .closed) (fun k => [laneBytes 2 edgeReads k]) ∧
      (∀ m, outOfOrder (received edgeConnection.queues (edgeSchedule.take m)) ≤
        maxStripedPendingBytes) ∧
      (∀ k, k < 2 → ∀ result ∈ (run (step fun _ => none) edgeConnection edgeSchedule).queues k,
        result.isFailed = true) ∧
      (run (step fun _ => none) edgeConnection edgeSchedule).relay.outcome =
        some (some .windowExceeded) := by
  refine ⟨edgeReads_chunks, edge_whole, edge_backlog, ?_, ?_⟩
  · rw [edgeSchedule, run_append, queues_replicate, queues_replicate]
    intro k hk result hresult
    obtain rfl | rfl : k = 0 ∨ k = 1 := by omega
    · rw [update_self, update_of_ne (by decide), edge_queue_even] at hresult
      rw [drop_eq_nil_of_le (by simp)] at hresult
      cases hresult
    · rw [update_of_ne (by decide), update_self, edge_queue_odd,
        drop_left' (by rw [length_map, length_range])] at hresult
      rw [mem_singleton.mp hresult]
      rfl
  · have hstart : Stalled 0 edgeConnection.relay :=
      ⟨rfl, rfl, fun x hx => absurd hx not_mem_nil, rfl, rfl⟩
    have hlength : 256 ≤ (edgeConnection.queues 1).length := by
      rw [edge_queue_odd, length_append, length_map, length_range]
      omega
    have hqueue : ∀ result ∈ (edgeConnection.queues 1).take 256, ∃ seq data,
        result = .data seq data ∧ seq ≠ 0 ∧ data.length = stripedChunkSize := by
      intro result hresult
      rw [edge_queue_odd, take_left' (by rw [length_map, length_range])] at hresult
      obtain ⟨j, hj, rfl⟩ := mem_map.mp hresult
      have hj' := mem_range.mp hj
      have hlt : 2 * j + 1 < 512 := by omega
      exact ⟨2 * j + 1, zeroChunk, edge_result hlt, by omega, zeroChunk_length⟩
    have hstall := hstart.run (fun _ => none) hlength hqueue (by decide)
    rw [edgeSchedule, run_append]
    set x := run (step fun _ => none) edgeConnection (List.replicate 256 (.result 1)) with hx
    have hfirst : x.queues 0 = .data 0 zeroChunk ::
        ((List.range 256).map fun j => resultAt edgeReads (2 * (j + 1))) := by
      rw [hx, queues_replicate, update_of_ne (by decide), edge_queue_even, range_succ_eq_map,
        map_cons, map_map]
      exact congrArg₂ List.cons (edge_result (by decide)) rfl
    have hfull : maxStripedPendingBytes < 0 + 256 * stripedChunkSize + zeroChunk.length := by
      rw [zeroChunk_length]
      decide
    have hfail := hstall.exceeds hfirst hfull fun _ => none
    rw [replicate_succ, run_cons]
    exact outcome_kept _ hfail _

end

end DaxiangVpn.StripedRelay
