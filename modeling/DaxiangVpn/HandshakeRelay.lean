import DaxiangVpn.TransitionRun

/-!
# The relay that replays a ClientHello

Two goroutines relay between a client and a target. Until the target answers, the client's bytes are
kept, and a silent target may be replaced by a new connection that gets them again. In secure mode
writes are serialized by their own lock and the state lock is free during them; in legacy mode the
state lock is held. A write may transmit any part of its bytes over time. A connection transmits
nothing further after one of its writes failed.
-/

namespace DaxiangVpn.HandshakeRelay


abbrev Bytes := List UInt8

/-! ## The shared state -/

def handshakeMaxDials : ℕ := 3

def handshakeReplayLimit : ℕ := 16 * 1024

/-- `handshakeRelay`. Connections are numbered. -/
structure Relay where
  secure : Bool
  target : ℕ
  /-- Bytes of the client that a new target gets again. -/
  replay : Bytes
  replayOK : Bool
  seenClient : Bool
  /-- The first bytes were a ClientHello. -/
  armed : Bool
  settled : Bool
  closed : Bool

def looksLikeTLSClientHello (p : Bytes) : Bool :=
  6 ≤ p.length && p[0]? = some 0x16 && p[1]? = some 0x03 && p[5]? = some 0x01

variable (r : Relay) (st : State)

/-- Look at the first bytes of the client. -/
def Relay.sniff (p : Bytes) : Relay :=
  if r.seenClient then r
  else if looksLikeTLSClientHello p then { r with seenClient := true, armed := true }
  else { r with seenClient := true, replayOK := false, replay := [] }

def Relay.keep (p : Bytes) : Relay :=
  if r.replayOK then
    if handshakeReplayLimit < r.replay.length + p.length then
      { r with replayOK := false, replay := [] }
    else { r with replay := r.replay ++ p }
  else r

/-- `writeToTarget` before the write. -/
def Relay.record (p : Bytes) : Relay :=
  if r.replayOK && !r.settled then (r.sniff p).keep p else r

/-- A failed write is reported as a success. -/
def Relay.forgives (r : Relay) : Bool := r.armed && r.replayOK && !r.settled && !r.closed

def Relay.settle (r : Relay) : Relay := { r with settled := true, replayOK := false, replay := [] }

def Relay.retryable (r : Relay) : Bool :=
  r.armed && r.replayOK && !r.settled && !r.closed && decide (0 < r.replay.length)

/-- `disarm` gives whether it did. -/
def Relay.disarms (r : Relay) : Bool := !(!r.armed || r.settled || r.closed)

def Relay.disarm (r : Relay) : Relay :=
  if r.disarms then { r with armed := false, replayOK := false, replay := [] } else r

/-- `swapTarget` goes on. -/
def Relay.swaps (r : Relay) : Bool := !(r.closed || !r.replayOK || r.settled)

/-! ## Goroutines -/

/-- How a read ends. -/
inductive ReadEnd
  | more
  | timeout
  | failed

/-- Where the goroutine of the client is. -/
inductive Client
  | reading
  /-- It has read bytes, and whether the read also ended. -/
  | holding (p : Bytes) (ended : Bool)
  | writing (c : ℕ) (rest : Bytes) (ended : Bool)
  | wrote (failed : Bool) (ended : Bool)
  /-- It is about to close both ends. -/
  | closing
  | done

/-- Where the main goroutine is. -/
inductive Main
  | reading
  | got (p : Bytes) (r : ReadEnd)
  | forwarding (p : Bytes) (r : ReadEnd)
  | judging (timeout : Bool)
  /-- It may not retry after a deadline. -/
  | disarming
  | dialing
  | swapping (c : ℕ)
  /-- It writes the rest of the replay to the new connection. -/
  | replaying (c : ℕ) (rest : Bytes)
  /-- It is about to close both ends. -/
  | closing
  | done

structure Conn where
  sent : Bytes
  dead : Bool
  received : Bytes

/-- A dial of a new connection, with what was known then. -/
structure Redial where
  received : ℕ → Bytes
  first : Option Bytes

/-- The relay, both goroutines, the connections, and what was ever read, written and dialed. -/
structure State where
  /-- Shared state. -/
  relay : Relay
  client : Client
  main : Main
  /-- The connection that the main goroutine reads. -/
  tc : ℕ
  dials : ℕ
  /-- `settled` of the main goroutine. -/
  answered : Bool
  conns : ℕ → Conn
  used : ℕ
  /-- Bytes read from the client. -/
  stream : Bytes
  /-- Bytes of the client that were given to a write. -/
  taken : Bytes
  /-- First bytes of the client that were given to a write. -/
  first : Option Bytes
  forwarded : Bytes
  /-- Dials of new connections. -/
  redials : List Redial

/-- The goroutine of the client holds a lock during its write. -/
def Client.busy : Client → Bool
  | .writing _ _ _ => true
  | .wrote _ _ => true
  | _ => false

/-- The main goroutine holds a lock during its write. -/
def Main.busy : Main → Bool
  | .replaying _ _ => true
  | _ => false

def State.freeForMain (st : State) : Bool := st.relay.secure || !st.client.busy

def State.freeForClient (st : State) : Bool := st.relay.secure || !st.main.busy

def State.setConn (c : ℕ) (conn : Conn) : State :=
  { st with conns := Function.update st.conns c conn }

def Conn.transmit (conn : Conn) (rest : Bytes) (n : ℕ) : Conn :=
  if conn.dead then conn else { conn with sent := conn.sent ++ rest.take n }

def Conn.remains (conn : Conn) (rest : Bytes) (n : ℕ) : Bytes :=
  if conn.dead then rest else rest.drop n

/-- A write may return without an error. -/
def Conn.completes (conn : Conn) (rest : Bytes) : Bool := conn.dead || rest.isEmpty

def ReadEnd.next : ReadEnd → Main
  | .more => .reading
  | .timeout => .judging true
  | .failed => .judging false

/-- `client.Read`. -/
def clientRead (p : Bytes) (ended : Bool) : State :=
  match st.client with
  | .reading =>
    if p = [] then (if ended then { st with client := .closing } else st)
    else { st with client := .holding p ended, stream := st.stream ++ p }
  | _ => st

/-- `writeToTarget` up to the write. -/
def clientPrepare (st : State) : State :=
  match st.client with
  | .holding p ended =>
    if st.main.busy then st
    else if st.relay.closed then { st with client := .closing }
    else { st with client := .writing st.relay.target p ended, relay := st.relay.record p
                   taken := st.taken ++ p, first := st.first.or (some p) }
  | _ => st

/-- The write transmits bytes. -/
def clientTransmit (n : ℕ) : State :=
  match st.client with
  | .writing c rest ended =>
    { st.setConn c ((st.conns c).transmit rest n) with client := .writing c ((st.conns c).remains rest n) ended }
  | _ => st

/-- The write returns. -/
def clientComplete (ok : Bool) : State :=
  match st.client with
  | .writing c rest ended =>
    if ok then
      (if (st.conns c).completes rest then { st with client := .wrote false ended } else st)
    else { st.setConn c { st.conns c with dead := true } with client := .wrote true ended }
  | _ => st

/-- `writeToTarget` after the write. -/
def clientFinish (st : State) : State :=
  match st.client with
  | .wrote failed ended =>
    if (failed && !st.relay.forgives) || ended then { st with client := .closing }
    else { st with client := .reading }
  | _ => st

/-- `closeBoth` of the goroutine of the client. -/
def clientClose (st : State) : State :=
  match st.client with
  | .closing =>
    if st.freeForClient then { st with relay := { st.relay with closed := true }, client := .done }
    else st
  | _ => st

/-- `tc.Read`. -/
def mainRead (p : Bytes) (r : ReadEnd) : State :=
  match st.main with
  | .reading =>
    if p = [] then { st with main := r.next }
    else { st.setConn st.tc { st.conns st.tc with received := (st.conns st.tc).received ++ p } with
           main := .got p r }
  | _ => st

/-- The first bytes settle the relay. -/
def mainSettle (st : State) : State :=
  match st.main with
  | .got p r =>
    if st.answered then { st with main := .forwarding p r }
    else if st.freeForMain then
      { st with relay := st.relay.settle, answered := true, main := .forwarding p r }
    else st
  | _ => st

/-- `client.Write`. -/
def mainForward (n : ℕ) (ok : Bool) : State :=
  match st.main with
  | .forwarding p r =>
    if ok then { st with forwarded := st.forwarded ++ p, main := r.next }
    else { st with forwarded := st.forwarded ++ p.take n, main := .closing }
  | _ => st

/-- A read ended: retry, disarm or give up. -/
def mainJudge (st : State) : State :=
  match st.main with
  | .judging timeout =>
    if st.answered then { st with main := .closing }
    else if st.freeForMain then
      if !st.relay.retryable || decide (handshakeMaxDials ≤ st.dials) then
        { st with main := if timeout then .disarming else .closing }
      else { st with main := .dialing }
    else st
  | _ => st

/-- `disarm` after a deadline. -/
def mainDisarm (st : State) : State :=
  match st.main with
  | .disarming =>
    if st.freeForMain then
      { st with relay := st.relay.disarm, main := if st.relay.disarms then .reading else .closing }
    else st
  | _ => st

/-- `redial`. -/
def mainDial (ok : Bool) : State :=
  match st.main with
  | .dialing =>
    let noted := { st with redials := ⟨fun c => (st.conns c).received, st.first⟩ :: st.redials }
    if ok then { noted with main := .swapping st.used, used := st.used + 1, dials := st.dials + 1 }
    else { noted with main := .closing }
  | _ => st

/-- `swapTarget` up to the write. -/
def mainSwap (st : State) : State :=
  match st.main with
  | .swapping c =>
    if st.client.busy then st
    else if st.relay.swaps then
      { st with relay := { st.relay with target := c }, main := .replaying c st.relay.replay }
    else { st with main := .closing }
  | _ => st

/-- The replay transmits bytes. -/
def mainTransmit (n : ℕ) : State :=
  match st.main with
  | .replaying c rest =>
    { st.setConn c ((st.conns c).transmit rest n) with main := .replaying c ((st.conns c).remains rest n) }
  | _ => st

/-- The replay returns. -/
def mainComplete (ok : Bool) : State :=
  match st.main with
  | .replaying c rest =>
    if ok then (if (st.conns c).completes rest then { st with tc := c, main := .reading } else st)
    else { st.setConn c { st.conns c with dead := true } with main := .closing }
  | _ => st

/-- `closeBoth` of the main goroutine. -/
def mainClose (st : State) : State :=
  match st.main with
  | .closing =>
    if st.freeForMain then { st with relay := { st.relay with closed := true }, main := .done }
    else st
  | _ => st

/-- The session of a secure relay is cancelled. -/
def cancel (st : State) : State :=
  if st.relay.secure then { st with relay := { st.relay with closed := true } } else st

/-- What happens. -/
inductive Event
  /-- `client.Read`. -/
  | clientRead (p : Bytes) (ended : Bool)
  /-- `writeToTarget` up to the write. -/
  | clientPrepare
  | clientTransmit (n : ℕ)
  /-- The write returns. -/
  | clientComplete (ok : Bool)
  /-- `writeToTarget` after the write. -/
  | clientFinish
  /-- `closeBoth`. -/
  | clientClose
  /-- `tc.Read`. -/
  | mainRead (p : Bytes) (r : ReadEnd)
  /-- The first bytes settle the relay. -/
  | mainSettle
  /-- `client.Write`. -/
  | mainForward (n : ℕ) (ok : Bool)
  /-- A read ended. -/
  | mainJudge
  /-- `disarm`. -/
  | mainDisarm
  /-- `redial`. -/
  | mainDial (ok : Bool)
  /-- `swapTarget` up to the write. -/
  | mainSwap
  | mainTransmit (n : ℕ)
  /-- The replay returns. -/
  | mainComplete (ok : Bool)
  /-- `closeBoth`. -/
  | mainClose
  | cancel

/-- One event. An event that its goroutine does not wait for does nothing. -/
def step (st : State) : Event → State
  | .clientRead p ended => clientRead st p ended
  | .clientPrepare => clientPrepare st
  | .clientTransmit n => clientTransmit st n
  | .clientComplete ok => clientComplete st ok
  | .clientFinish => clientFinish st
  | .clientClose => clientClose st
  | .mainRead p r => mainRead st p r
  | .mainSettle => mainSettle st
  | .mainForward n ok => mainForward st n ok
  | .mainJudge => mainJudge st
  | .mainDisarm => mainDisarm st
  | .mainDial ok => mainDial st ok
  | .mainSwap => mainSwap st
  | .mainTransmit n => mainTransmit st n
  | .mainComplete ok => mainComplete st ok
  | .mainClose => mainClose st
  | .cancel => cancel st

/-- A connection on which nothing happened. -/
def Conn.new : Conn := ⟨[], false, []⟩

/-- The start of `relayWithHandshakeRetryContext`. -/
def start (secure : Bool) : State where
  relay := ⟨secure, 0, [], true, false, false, false, false⟩
  client := .reading
  main := .reading
  tc := 0
  dials := 1
  answered := false
  conns _ := .new
  used := 1
  stream := []
  taken := []
  first := none
  forwarded := []
  redials := []

end DaxiangVpn.HandshakeRelay
