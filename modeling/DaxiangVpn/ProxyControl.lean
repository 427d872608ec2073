import DaxiangVpn.ControlFrames
import DaxiangVpn.ProxyGate

/-!
# Control sessions of the proxy gate

The receiver serves one connection after the other. Each step of a session is one
locked section of the gate, one read or one write; a controller at the other end of
the connection writes commands and reads their acknowledgements. A write that
fails may have written any part of its frame. What the session has seen, and what
both ends have executed, sent and returned, is recorded, which the program does
not do.
-/

namespace DaxiangVpn.ProxyControl

open ProxyGate ControlFrames NetipPrefix

/-- Shortest lease, in nanoseconds. -/
def minLease : ℤ := 100000000

/-! ## Waiting for a closed gate -/

/-- The first section of `AwaitClosed`: nothing to wait for, or the running cleanup. -/
def awaitClosed (g : Gate) (now : ℤ) : Except Err (Option ℕ) :=
  if g.isOpen now then .error .closed
  else match g.cleanup with
    | none => if g.admissions = ∅ then .ok none else .error .cleanupUnknown
    | some b => .ok (some b.task)

def taskDone (g : Gate) (task : ℕ) : Bool := g.cleanup.all fun b => decide (b.task ≠ task)

/-! ## The receiver -/

/-- A command that the receiver has executed. -/
structure Executed where
  message : Message
  gate : Gate
  now : ℤ

/-- What happened in a session. -/
inductive Mark
  /-- The session took the gate. -/
  | activated
  /-- A command was received and passed the checks. -/
  | received (m : Message)
  | granted (m : Message) (now : ℤ)
  | acknowledged (m : Message)

/-- Where a session is. -/
inductive Phase
  | greeting
  | reading
  | closing (m : Message)
  /-- It is about to look for a cleanup. -/
  | awaiting (m : Message)
  | waiting (m : Message) (task : ℕ)
  /-- It is about to take the gate again. -/
  | owning (m : Message)
  /-- It is about to look at the clock. -/
  | asking (m : Message)
  | granting (m : Message) (asked : ℤ)
  | acking (m : Message)
  /-- It is about to give up its activation. -/
  | leaving
  | ended
  deriving DecidableEq

structure Session where
  session : String
  nonce : String
  /-- The last command, or the greeting. -/
  base : Message
  /-- End of the lease it has granted. -/
  expires : Option ℤ
  closedACK : Bool
  phase : Phase
  /-- What happened, the last first. -/
  history : List Mark
  log : List Executed

/-! ## The controller -/

inductive Call
  | closed
  | grantUntil (untilTime : ℤ)

/-- Where a controller is. -/
inductive ClientPhase
  | connecting
  | idle
  /-- A call waits for its acknowledgement; what was executed when it began. -/
  | waiting (k : Call) (m : Message) (start : List Executed)
  | failed

/-- A call that has returned no error. -/
structure Completed where
  call : Call
  message : Message
  /-- What was executed when it began. -/
  before : List Executed
  /-- What was executed when it returned. -/
  after : List Executed

/-- A controller. -/
structure Client where
  binding : String
  /-- The last command that was acknowledged, or the greeting. -/
  base : Message
  phase : ClientPhase
  /-- Commands it has begun to write, the last first. -/
  sent : List Message
  /-- Calls that have returned no error. -/
  completed : List Completed

/-- A connection, its session and its controller. -/
structure Link where
  session : Session
  /-- Bytes on their way to the receiver. -/
  input : List Char
  /-- Bytes on their way to the controller. -/
  output : List Char
  /-- Somebody else has written to the receiver. -/
  tampered : Bool
  client : Client

def Link.withSession (l : Link) (s : Session) : Link := { l with session := s }

def Link.goto (l : Link) (p : Phase) : Link := l.withSession { l.session with phase := p }

def Link.say (l : Link) (m : Message) (fails : Bool) (written : ℕ) (history : List Mark) : Link :=
  if maxMessageBytes < (marshal m).length then l.goto .leaving
  else if fails then { l with output := l.output ++ (frame m).take written }.goto .leaving
  else { l with
    output := l.output ++ frame m
    session := { l.session with phase := .reading, history := history } }

/-- What a command that passed the checks leads to. -/
def Session.dispatch (s : Session) (m : Message) : Phase :=
  match m.action with
  | .closed => if m.untilUnixNano ≠ 0 then .leaving else .closing m
  | .grant => if s.closedACK = false ∨ m.untilUnixNano ≤ 0 then .leaving else .asking m
  | _ => .leaving

/-- The checks of a command. -/
def Session.rejects (s : Session) (now : ℤ) (m : Message) : Bool :=
  (s.expires.any fun e => decide (e ≤ now)) || decide (m.binding ≠ s.base.binding) ||
    decide (m.session ≠ s.base.session) || decide (m.nonce ≠ s.base.nonce) ||
    decide (m.sequence ≠ s.base.sequence + 1) || decide (maxSequence < m.sequence)

/-- The session reads a command. -/
def Link.read (l : Link) (now : ℤ) (fails : Bool) : Link :=
  if fails then l.goto .leaving
  else match readMessage l.input with
    | .blocked => l
    | .failed => l.goto .leaving
    | .message m rest =>
      if l.session.rejects now m then { l with input := rest }.goto .leaving
      else { l with
        input := rest
        session := { l.session with
          phase := l.session.dispatch m
          history := .received m :: l.session.history } }

def Session.reactivated (s : Session) (m : Message) (g : Gate) (now : ℤ) : Session :=
  { s with
    base := m
    expires := none
    closedACK := true
    phase := .acking m
    history := .activated :: s.history
    log := s.log ++ [⟨m, g, now⟩] }

def Session.leased (s : Session) (m : Message) (g : Gate) (now : ℤ) : Session :=
  { s with
    base := m
    expires := some m.untilUnixNano
    phase := .acking m
    history := .granted m now :: s.history
    log := s.log ++ [⟨m, g, now⟩] }

/-- The next step of the session. The environment says whether a read, a write or a wait
fails; a cancelled context and an invalid namespace are failures too. -/
def serve (s : System) (l : Link) (fails : Bool) (written : ℕ) : System × Link :=
  match l.session.phase with
  | .greeting => (s, l.say l.session.base fails written l.session.history)
  | .reading => (s, l.read s.now fails)
  | .closing m => (ProxyGate.step s (.closeFor l.session.session), l.goto (.awaiting m))
  | .awaiting m =>
    match awaitClosed s.gate s.now with
    | .error _ => (s, l.goto .leaving)
    | .ok none => (s, l.goto (.owning m))
    | .ok (some task) => (s, l.goto (.waiting m task))
  | .waiting m task =>
    if fails then (s, l.goto .leaving)
    else if taskDone s.gate task = false then (s, l)
    else if s.gate.isOpen s.now then (s, l.goto .leaving)
    else (s, l.goto (.owning m))
  | .owning m =>
    match (s.gate.own l.session.session).2 with
    | .error _ => (s, l.goto .leaving)
    | .ok _ =>
      (ProxyGate.step s (.own l.session.session),
        l.withSession (l.session.reactivated m
          (ProxyGate.step s (.own l.session.session)).gate s.now))
  | .asking m => (s, l.goto (.granting m s.now))
  | .granting m asked =>
    match (s.gate.grant l.session.session m.untilUnixNano asked).2 with
    | .error _ => (s, l.goto .leaving)
    | .ok _ =>
      (ProxyGate.step s (.grant l.session.session m.untilUnixNano asked),
        l.withSession (l.session.leased m
          (ProxyGate.step s (.grant l.session.session m.untilUnixNano asked)).gate s.now))
  | .acking m =>
    (s, l.say { m with action := .ack } fails written (.acknowledged m :: l.session.history))
  | .leaving => (ProxyGate.step s (.closeFor l.session.session), l.goto .ended)
  | .ended => (s, l)

/-- The controller gives up. -/
def Link.fail (l : Link) : Link := { l with client := { l.client with phase := .failed } }

/-- The controller reads the greeting. -/
def Link.connect (l : Link) (fails : Bool) : Link :=
  match l.client.phase with
  | .connecting =>
    if fails then l.fail
    else match readMessage l.output with
      | .blocked => l
      | .failed => l.fail
      | .message h rest =>
        if h.binding ≠ l.client.binding ∨ h.action ≠ .hello ∨ h.sequence ≠ 0 ∨
            h.untilUnixNano ≠ 0 then
          { l with output := rest }.fail
        else { l with output := rest, client := { l.client with base := h, phase := .idle } }
  | _ => l

/-- The first part of `command`: write the message. -/
def Link.command (l : Link) (k : Call) (action : Action) (untilTime : ℤ) (fails : Bool)
    (written : ℕ) : Link :=
  let m : Message := { l.client.base with
    sequence := l.client.base.sequence + 1, action := action, untilUnixNano := untilTime }
  if maxSequence ≤ l.client.base.sequence then l.fail
  else if maxMessageBytes < (marshal m).length then l.fail
  else if fails then
    { l with
      input := l.input ++ (frame m).take written
      client := { l.client with phase := .failed, sent := m :: l.client.sent } }
  else
    { l with
      input := l.input ++ frame m
      client := { l.client with phase := .waiting k m l.session.log, sent := m :: l.client.sent } }

/-- A call begins. While another one is running it is refused and closes the connection; this shows
in later reads and writes only, which may fail at any time, so the link is unchanged here. -/
def Link.call (l : Link) (now : ℤ) (k : Call) (fails : Bool) (written : ℕ) : Link :=
  match l.client.phase with
  | .idle =>
    match k with
    | .closed => l.command k .closed 0 fails written
    | .grantUntil untilTime =>
      if untilTime - now < minLease ∨ maxLease < untilTime - now then l.fail
      else l.command k .grant untilTime fails written
  | _ => l

/-- The acknowledgement is not the one of the command, or it comes too late. -/
def refuses (m a : Message) (now : ℤ) : Bool :=
  decide (a.version ≠ m.version) || decide (a.binding ≠ m.binding) ||
    decide (a.session ≠ m.session) ||
    decide (a.nonce ≠ m.nonce) || decide (a.sequence ≠ m.sequence) || decide (a.action ≠ .ack) ||
    decide (a.untilUnixNano ≠ m.untilUnixNano) ||
    (decide (m.untilUnixNano ≠ 0) && decide (m.untilUnixNano ≤ now))

/-- The second part of `command`: read the acknowledgement. -/
def Link.reply (l : Link) (now : ℤ) (fails : Bool) : Link :=
  match l.client.phase with
  | .waiting k m start =>
    if fails then l.fail
    else match readMessage l.output with
      | .blocked => l
      | .failed => l.fail
      | .message a rest =>
        if refuses m a now then { l with output := rest }.fail
        else { l with
          output := rest
          client := { l.client with
            base := m
            phase := .idle
            completed := ⟨k, m, start, l.session.log⟩ :: l.client.completed } }
  | _ => l

/-! ## The system -/

/-- The digest of a policy. -/
structure Binding where
  text : String
  valid : digest text = true

/-- The gate, the connections and the digest of the policy. -/
structure Control where
  system : System
  binding : Binding
  links : ℕ → Link
  /-- Their number. The last one may be served. -/
  count : ℕ

def Session.none : Session :=
  ⟨"", "", ⟨1, "", "", "", 0, .hello, 0⟩, Option.none, false, .ended, [], []⟩

/-- A connection that never was. -/
def Link.none : Link := ⟨.none, [], [], false, ⟨"", ⟨1, "", "", "", 0, .hello, 0⟩, .failed, [], []⟩⟩

/-- A receiver without connections. -/
def Control.new (managed : List IpPrefix) (binding : Binding) (now : ℤ) : Control :=
  ⟨.new managed now, binding, fun _ => .none, 0⟩

/-- The connection of a session that has taken the gate. -/
def Link.new (binding session nonce clientBinding : String) : Link :=
  ⟨⟨session, nonce, ⟨1, binding, session, nonce, 0, .hello, 0⟩, Option.none, false, .greeting,
    [.activated], []⟩, [], [], false,
    ⟨clientBinding, ⟨1, "", "", "", 0, .hello, 0⟩, .connecting, [], []⟩⟩

/-- What the gate does without its sessions: only they own it and grant leases. -/
def external : ProxyGate.Event → Bool
  | .own _ => false
  | .grant _ _ _ => false
  | .closeFor owner => decide (owner = "")
  | _ => true

/-- What happens next. -/
inductive Event
  | gate (e : ProxyGate.Event)
  /-- A connection is accepted, with new identifiers. -/
  | accept (session nonce clientBinding : String)
  /-- The next step of the session. -/
  | serve (fails : Bool) (written : ℕ)
  /-- Bytes that no controller wrote. -/
  | inject (i : ℕ) (bytes : List Char)
  /-- A controller reads the greeting. -/
  | connect (i : ℕ) (fails : Bool)
  | call (i : ℕ) (k : Call) (fails : Bool) (written : ℕ)
  /-- A controller reads its acknowledgement. -/
  | reply (i : ℕ) (fails : Bool)
  /-- A controller is closed, by `Close` or with its process. -/
  | close (i : ℕ)

/-- Change a connection. -/
def Control.setLink (c : Control) (i : ℕ) (l : Link) : Control :=
  { c with links := Function.update c.links i l }

/-- No session is being served. -/
def Control.free (c : Control) : Bool :=
  decide (c.count = 0) || decide ((c.links (c.count - 1)).session.phase = .ended)

def step (c : Control) : Event → Control
  | .gate e => if external e then { c with system := ProxyGate.step c.system e } else c
  | .accept session nonce clientBinding =>
    if c.free && validID session && validID nonce then
      match (c.system.gate.own session).2 with
      | .error _ => c
      | .ok _ =>
        { c with
          system := ProxyGate.step c.system (.own session)
          links := Function.update c.links c.count (.new c.binding.text session nonce clientBinding)
          count := c.count + 1 }
    else c
  | .serve fails written =>
    if c.count = 0 then c
    else
      { c.setLink (c.count - 1) (serve c.system (c.links (c.count - 1)) fails written).2 with
        system := (serve c.system (c.links (c.count - 1)) fails written).1 }
  | .inject i bytes =>
    c.setLink i { c.links i with input := (c.links i).input ++ bytes, tampered := true }
  | .connect i fails => c.setLink i ((c.links i).connect fails)
  | .call i k fails written => c.setLink i ((c.links i).call c.system.now k fails written)
  | .reply i fails => c.setLink i ((c.links i).reply c.system.now fails)
  | .close i => c.setLink i (c.links i).fail

end DaxiangVpn.ProxyControl
