import DaxiangVpn.ProxyControlSessions

/-!
# Acknowledgements of control sessions

A controller has one command on its way. Until its acknowledgement is complete on the
connection, the receiver has it before it, works on it, or is about to answer; so a
call that returns no error has been executed, and nothing else since it began.
-/

namespace DaxiangVpn.ProxyControlAcks

open ProxyGate hiding step Event
open ProxyGateQuarantine ControlFrames ProxyControl ProxyControlSessions List
open NetipPrefix TransitionRun

/-! ## What a call is about -/

def actionOfCall : Call → Action
  | .closed => .closed
  | .grantUntil _ => .grant

/-- The end of the lease of a call. -/
def untilOfCall : Call → ℤ
  | .closed => 0
  | .grantUntil u => u

def commandOf (base : Message) (k : Call) : Message :=
  { base with
    sequence := base.sequence + 1, action := actionOfCall k, untilUnixNano := untilOfCall k }

/-- The gate has no live lease, no admission and no registration that is not released. -/
def Quiet (e : Executed) : Prop :=
  e.gate.isOpen e.now = false ∧ e.gate.admissions = ∅ ∧
    ∀ r, r < e.gate.regCount → (e.gate.regs r).released = true

def Done (session : String) (k : Call) (m : Message) (e : Executed) : Prop :=
  e.message = m ∧ m.action = actionOfCall k ∧ m.untilUnixNano = untilOfCall k ∧
    match k with
    | .closed => Quiet e
    | .grantUntil u => e.gate.owner = session ∧ e.gate.expires = some u

/-! ## What is on the connection -/

/-- The session waits for a command or is giving up. -/
def Settled (s : Session) : Prop := s.phase = .reading ∨ s.phase = .leaving ∨ s.phase = .ended

/-- The session gives up. -/
def Gone (s : Session) : Prop := s.phase = .leaving ∨ s.phase = .ended

def Working (s : Session) (m : Message) : Prop :=
  m.action = .closed ∧
  (s.phase = .closing m ∨ s.phase = .awaiting m ∨ (∃ t, s.phase = .waiting m t) ∨
    s.phase = .owning m) ∨
  m.action = .grant ∧ (s.phase = .asking m ∨ ∃ a, s.phase = .granting m a)

/-- The connection of a controller that has not given up. -/
inductive Wire (l : Link) : Prop
  | greet (client : l.client.phase = .connecting) (phase : l.session.phase = .greeting)
      (input : l.input = []) (output : l.output = []) (plain : Plain l.session.base)
  | greeted (client : l.client.phase = .connecting) (phase : Settled l.session)
      (input : l.input = []) (output : l.output = frame l.session.base)
      (plain : Plain l.session.base)
  /-- No answer will come. -/
  | mute (client : l.client.phase = .connecting ∨ ∃ k m start, l.client.phase = .waiting k m start)
      (phase : Gone l.session) (output : '\n' ∉ l.output)
  | idle (client : l.client.phase = .idle) (phase : Settled l.session) (input : l.input = [])
      (output : l.output = []) (base : l.session.base = l.client.base) (plain : Plain l.client.base)
  | asked (k : Call) (m : Message) (client : l.client.phase = .waiting k m l.session.log)
      (phase : Settled l.session) (input : l.input = frame m) (output : l.output = [])
      (command : m = commandOf l.client.base k) (plain : Plain m)
  | working (k : Call) (m : Message) (client : l.client.phase = .waiting k m l.session.log)
      (phase : Working l.session m) (input : l.input = []) (output : l.output = [])
      (command : m = commandOf l.client.base k) (plain : Plain m)
  | acking (k : Call) (m : Message) (start : List Executed) (e : Executed)
      (client : l.client.phase = .waiting k m start) (phase : l.session.phase = .acking m)
      (input : l.input = []) (output : l.output = []) (base : l.session.base = m)
      (log : l.session.log = start ++ [e]) (done : Done l.session.session k m e) (plain : Plain m)
  | acked (k : Call) (m : Message) (start : List Executed) (e : Executed)
      (client : l.client.phase = .waiting k m start) (phase : Settled l.session)
      (input : l.input = []) (output : l.output = frame { m with action := .ack })
      (base : l.session.base = m) (log : l.session.log = start ++ [e])
      (done : Done l.session.session k m e) (plain : Plain m)

variable {start : List Executed} {binding session : String} {m : Message}

section

variable {l : Link} {s : System} {m : Message} {k : Call}

theorem take_frame (h : Plain m) (n : ℕ) :
    (frame m).take n = frame m ∨ '\n' ∉ (frame m).take n := by
  unfold frame
  by_cases hn : n ≤ (marshal m).length
  · right
    rw [take_append_of_le_length hn]
    exact fun hmem => marshal_plain h '\n' (mem_of_mem_take hmem) rfl
  · left
    refine take_of_length_le ?_
    rw [length_append, length_singleton]
    omega

/-- What a session that writes a message leaves on the connection. -/
theorem say_output (h : Plain m) (hout : l.output = []) (fails : Bool) (written : ℕ)
    (history : List Mark) :
    ((l.say m fails written history).input = l.input ∧
    (l.say m fails written history).client = l.client ∧
      (l.say m fails written history).session.session = l.session.session ∧
      (l.say m fails written history).session.base = l.session.base ∧
      (l.say m fails written history).session.log = l.session.log) ∧
    (Settled (l.say m fails written history).session ∧
    (l.say m fails written history).output = frame m ∨
      Gone (l.say m fails written history).session ∧
      '\n' ∉ (l.say m fails written history).output) := by
  unfold Link.say
  split
  · refine ⟨⟨rfl, rfl, rfl, rfl, rfl⟩, .inr ⟨.inl rfl, ?_⟩⟩
    change '\n' ∉ l.output
    rw [hout]
    exact not_mem_nil
  split
  · refine ⟨⟨rfl, rfl, rfl, rfl, rfl⟩, ?_⟩
    have houtput : ({ l with output := l.output ++ (frame m).take written }.goto .leaving).output =
        (frame m).take written := by
      change l.output ++ (frame m).take written = (frame m).take written
      rw [hout, nil_append]
    rw [houtput]
    rcases take_frame h written with hall | hpart
    · exact .inl ⟨.inr (.inl rfl), hall⟩
    · exact .inr ⟨.inl rfl, hpart⟩
  · refine ⟨⟨rfl, rfl, rfl, rfl, rfl⟩, .inl ⟨.inl rfl, ?_⟩⟩
    rw [hout, nil_append]

theorem goto_self {p : Phase} (h : l.session.phase = p) : l = l.goto p := by
  subst h
  rfl

theorem serve_settled (h : Settled l.session) (hin : l.input = []) (fails : Bool) (written : ℕ) :
    ∃ p, (serve s l fails written).2 = l.goto p ∧ Settled (l.goto p).session := by
  unfold serve
  rcases h with hp | hp | hp
  · rw [hp]
    dsimp only
    unfold Link.read
    split
    · exact ⟨.leaving, rfl, .inr (.inl rfl)⟩
    · rw [hin, readMessage_nil]
      exact ⟨.reading, goto_self hp, .inl rfl⟩
  · rw [hp]
    exact ⟨.ended, rfl, .inr (.inr rfl)⟩
  · rw [hp]
    exact ⟨.ended, goto_self hp, .inr (.inr rfl)⟩

theorem serve_gone (h : Gone l.session) (fails : Bool) (written : ℕ) :
    ∃ p, (serve s l fails written).2 = l.goto p ∧ Gone (l.goto p).session := by
  unfold serve
  rcases h with hp | hp
  · rw [hp]
    exact ⟨.ended, rfl, .inr rfl⟩
  · rw [hp]
    exact ⟨.ended, goto_self hp, .inr rfl⟩

/-- A session that does not answer leaves a waiting controller without one. -/
theorem Wire.silence {p : Phase} (hclient : l.client.phase = .waiting k m start)
    (hout : l.output = []) (hp : p = .leaving ∨ p = .ended) : Wire (l.goto p) := by
  refine .mute (.inr ⟨k, m, start, hclient⟩) hp ?_
  change '\n' ∉ l.output
  rw [hout]
  exact not_mem_nil

theorem Wire.read (hclient : l.client.phase = .waiting k m l.session.log)
    (hphase : l.session.phase = .reading) (hin : l.input = frame m) (hout : l.output = [])
    (hcommand : m = commandOf l.client.base k) (hplain : Plain m) (now : ℤ) (fails : Bool) :
    Wire (l.read now fails) := by
  unfold Link.read
  split
  · exact .silence hclient hout (.inl rfl)
  split
  · exact .asked k m hclient (.inl hphase) hin hout hcommand hplain
  · exact .silence hclient hout (.inl rfl)
  rename_i m' rest hread
  rw [hin] at hread
  obtain ⟨rfl, rfl⟩ := readMessage_frame hplain hread
  split
  · refine .mute (.inr ⟨k, m', _, hclient⟩) (.inl rfl) ?_
    rw [hout]
    exact not_mem_nil
  have hgone : ∀ history : List Mark, Wire { l with
      input := []
      session := { l.session with phase := .leaving, history := history } } := by
    intro history
    refine .mute (.inr ⟨k, m', _, hclient⟩) (.inl rfl) ?_
    rw [hout]
    exact not_mem_nil
  cases haction : m'.action with
  | hello | ack =>
    simp only [Session.dispatch, haction]
    exact hgone _
  | closed =>
    simp only [Session.dispatch, haction]
    split
    · exact hgone _
    · exact .working k m' hclient (.inl ⟨haction, .inl rfl⟩) rfl hout hcommand hplain
  | grant =>
    simp only [Session.dispatch, haction]
    split
    · exact hgone _
    · exact .working k m' hclient (.inr ⟨haction, .inl rfl⟩) rfl hout hcommand hplain

theorem quiet_of_own (h : Inv s.gate) (hok : (s.gate.own session).2 = .ok ())
    (m : Message) : Quiet ⟨m, (ProxyGate.step s (.own session)).gate, s.now⟩ := by
  obtain ⟨-, hempty, hgate⟩ := own_ok hok
  have hstep : (ProxyGate.step s (.own session)).gate =
      { s.gate with owner := session, expires := none, epoch := s.gate.epoch + 1 } := hgate
  rw [hstep]
  exact ⟨rfl, hempty, fun r hr => h.all_released hempty hr⟩

theorem serve_working (h : SessionOk binding s.now l.session) (hsys : Inv s.gate)
    (hclient : l.client.phase = .waiting k m l.session.log) (hphase : Working l.session m)
    (hin : l.input = []) (hout : l.output = []) (hcommand : m = commandOf l.client.base k)
    (hplain : Plain m) (fails : Bool) (written : ℕ) : Wire (serve s l fails written).2 := by
  have haction : m.action = actionOfCall k := by rw [hcommand]; rfl
  have huntil : m.untilUnixNano = untilOfCall k := by rw [hcommand]; rfl
  have hleave : Wire (l.goto .leaving) := .silence hclient hout (.inl rfl)
  have hgoto : ∀ p, Working (l.goto p).session m → Wire (l.goto p) := fun p hp =>
    .working k m hclient hp hin hout hcommand hplain
  rcases hphase with ⟨hclosed, hp | hp | ⟨task, hp⟩ | hp⟩ | ⟨hgrant, hp | ⟨asked, hp⟩⟩
  · simp only [serve, hp]
    exact hgoto _ (.inl ⟨hclosed, .inr (.inl rfl)⟩)
  · simp only [serve, hp]
    split
    · exact hleave
    · exact hgoto _ (.inl ⟨hclosed, .inr (.inr (.inr rfl))⟩)
    · exact hgoto _ (.inl ⟨hclosed, .inr (.inr (.inl ⟨_, rfl⟩))⟩)
  · simp only [serve, hp]
    split
    · exact hleave
    split
    · exact .working k m hclient (.inl ⟨hclosed, .inr (.inr (.inl ⟨task, hp⟩))⟩) hin hout
        hcommand hplain
    · split
      · exact hleave
      · exact hgoto _ (.inl ⟨hclosed, .inr (.inr (.inr rfl))⟩)
  · simp only [serve, hp]
    split
    · exact hleave
    rename_i hok
    have hk : k = .closed := by
      cases k with
      | closed => rfl
      | grantUntil => cases hclosed.symm.trans haction
    subst hk
    exact .acking .closed m l.session.log _ hclient rfl hin hout rfl rfl
      ⟨rfl, haction, huntil, quiet_of_own hsys hok m⟩ hplain
  · simp only [serve, hp]
    exact hgoto _ (.inr ⟨hgrant, .inr ⟨_, rfl⟩⟩)
  · have hphase := h.phase
    unfold PhaseOk at hphase
    rw [hp] at hphase
    simp only [serve, hp]
    split
    · exact hleave
    rename_i hok
    have hstep := granted_gate hok hphase.2.2.2
    cases k with
    | closed => cases hgrant.symm.trans haction
    | grantUntil u =>
      refine .acking (.grantUntil u) m l.session.log _ hclient rfl hin hout rfl rfl
        ⟨rfl, haction, huntil, ?_, ?_⟩ hplain
      · rw [hstep]
        exact (grant_ok hok).2.1
      · rw [hstep]
        exact congrArg some huntil

theorem Wire.greetingSaid {l' : Link} (hclient : l'.client.phase = .connecting)
    (hin : l'.input = []) (hplain : Plain l'.session.base)
    (hout : Settled l'.session ∧ l'.output = frame l'.session.base ∨
      Gone l'.session ∧ '\n' ∉ l'.output) : Wire l' := by
  rcases hout with ⟨hsettled, hframe⟩ | ⟨hgone, hmute⟩
  · exact .greeted hclient hsettled hin hframe hplain
  · exact .mute (.inl hclient) hgone hmute

/-- The receiver has written an acknowledgement, or a part of it. -/
theorem Wire.ackSaid {l' : Link} {e : Executed}
    (hclient : l'.client.phase = .waiting k m start) (hin : l'.input = [])
    (hbase : l'.session.base = m) (hlog : l'.session.log = start ++ [e])
    (hdone : Done l'.session.session k m e) (hplain : Plain m)
    (hout : Settled l'.session ∧ l'.output = frame { m with action := .ack } ∨
      Gone l'.session ∧ '\n' ∉ l'.output) : Wire l' := by
  rcases hout with ⟨hsettled, hframe⟩ | ⟨hgone, hmute⟩
  · exact .acked k m start e hclient hsettled hin hframe hbase hlog hdone hplain
  · exact .mute (.inr ⟨k, m, start, hclient⟩) hgone hmute

theorem serve_greeting (client : l.client.phase = .connecting) (phase : l.session.phase = .greeting)
    (input : l.input = []) (output : l.output = []) (plain : Plain l.session.base)
    (fails : Bool) (written : ℕ) : Wire (serve s l fails written).2 := by
  have hserve : (serve s l fails written).2 = l.say l.session.base fails written
    l.session.history := by
    unfold serve
    rw [phase]
  have hsay := say_output plain output fails written l.session.history
  rw [hserve]
  generalize l.say l.session.base fails written l.session.history = l' at hsay
  obtain ⟨⟨hin, hclient, -, hbase, -⟩, hout⟩ := hsay
  rw [← hbase] at plain hout
  exact .greetingSaid ((congrArg Client.phase hclient).trans client) (hin.trans input) plain hout

theorem serve_acking {e : Executed} (client : l.client.phase = .waiting k m start)
    (phase : l.session.phase = .acking m) (input : l.input = []) (output : l.output = [])
    (base : l.session.base = m) (log : l.session.log = start ++ [e])
    (done : Done l.session.session k m e) (plain : Plain m) (fails : Bool) (written : ℕ) :
    Wire (serve s l fails written).2 := by
  have hserve : (serve s l fails written).2 =
      l.say { m with action := .ack } fails written (.acknowledged m :: l.session.history) := by
    unfold serve
    rw [phase]
  have hplain : Plain { m with action := .ack } := plain
  have hsay := say_output hplain output fails written (.acknowledged m :: l.session.history)
  rw [hserve]
  generalize l.say { m with action := .ack } fails written (.acknowledged m :: l.session.history) =
    l' at hsay
  obtain ⟨⟨hin, hclient, hsession, hbase, hlog⟩, hout⟩ := hsay
  rw [← hsession] at done
  exact .ackSaid ((congrArg Client.phase hclient).trans client) (hin.trans input) (hbase.trans base)
    (hlog.trans log) done plain hout

/-- A step of the receiver keeps the connection in order. -/
theorem serve_wire (h : SessionOk binding s.now l.session) (hsys : Inv s.gate)
    (w : Wire l) (fails : Bool) (written : ℕ) : Wire (serve s l fails written).2 := by
  cases w with
  | greet client phase input output plain =>
    exact serve_greeting client phase input output plain fails written
  | greeted client phase input output plain =>
    obtain ⟨p, heq, hp⟩ := serve_settled phase input fails written (s := s)
    rw [heq]
    exact .greeted client hp input output plain
  | mute client phase output =>
    obtain ⟨p, heq, hp⟩ := serve_gone phase fails written (s := s)
    rw [heq]
    exact .mute client hp output
  | idle client phase input output base plain =>
    obtain ⟨p, heq, hp⟩ := serve_settled phase input fails written (s := s)
    rw [heq]
    exact .idle client hp input output base plain
  | asked k m client phase input output command plain =>
    rcases phase with hp | hp
    · have hserve : (serve s l fails written).2 = l.read s.now fails := by
        unfold serve
        rw [hp]
      rw [hserve]
      exact .read client hp input output command plain s.now fails
    · obtain ⟨p, heq, hgone⟩ := serve_gone hp fails written (s := s)
      rw [heq]
      exact .asked k m client (.inr hgone) input output command plain
  | working k m client phase input output command plain =>
    exact serve_working h hsys client phase input output command plain fails written
  | acking k m start e client phase input output base log done plain =>
    exact serve_acking client phase input output base log done plain fails written
  | acked k m start e client phase input output base log done plain =>
    obtain ⟨p, heq, hp⟩ := serve_settled phase input fails written (s := s)
    rw [heq]
    exact .acked k m start e client hp input output base log done plain

end

/-! ## The controller's steps -/

/-- Every call that returned no error was executed, and nothing else while it ran. -/
def CallsDone (l : Link) : Prop :=
  ∀ x ∈ l.client.completed, ∃ e, x.after = x.before ++ [e] ∧
  Done l.session.session x.call x.message e

/-- What holds of a connection that only its own controller writes to. -/
structure LinkOk (l : Link) : Prop where
  wire : l.client.phase = .failed ∨ Wire l
  calls : CallsDone l

section

variable {l : Link}

theorem Wire.greeting (w : Wire l) (hphase : l.client.phase = .connecting)
    {rest : List Char} (hread : readMessage l.output = .message m rest) :
    Settled l.session ∧ l.input = [] ∧ m = l.session.base ∧ rest = [] ∧ Plain l.session.base := by
  cases w with
  | greet client phase input output =>
    rw [output, readMessage_nil] at hread
    cases hread
  | greeted client phase input output plain =>
    rw [output] at hread
    obtain ⟨hm, hrest⟩ := readMessage_frame plain hread
    exact ⟨phase, input, hm, hrest, plain⟩
  | mute client phase output => exact absurd hread (readMessage_incomplete output)
  | idle client | asked k m client | working k m client | acking k m start e client
  | acked k m start e client => cases hphase.symm.trans client

theorem Wire.answer (w : Wire l) {k : Call}
    (hphase : l.client.phase = .waiting k m start) {a : Message} {rest : List Char}
    (hread : readMessage l.output = .message a rest) :
    Settled l.session ∧ l.input = [] ∧ rest = [] ∧
    l.session.base = m ∧ Plain m ∧ ∃ e, l.session.log = start ++ [e] ∧
    Done l.session.session k m e := by
  have hsilent : l.output = [] → False := by
    intro hout
    rw [hout, readMessage_nil] at hread
    cases hread
  cases w with
  | greet client phase input output => exact (hsilent output).elim
  | greeted client => cases hphase.symm.trans client
  | mute client phase output => exact absurd hread (readMessage_incomplete output)
  | idle client phase input output | asked k m client phase input output
  | working k m client phase input output | acking k m start e client phase input output =>
    exact (hsilent output).elim
  | acked k m start e client phase input output base log done plain =>
    cases hphase.symm.trans client
    rw [output] at hread
    have hack : Plain { m with action := .ack } := plain
    exact ⟨phase, input, (readMessage_frame hack hread).2, base, plain, e, log, done⟩

theorem LinkOk.connect (h : LinkOk l) (fails : Bool) : LinkOk (l.connect fails) := by
  unfold Link.connect
  split
  · rename_i hphase
    have w : Wire l := h.wire.resolve_left fun hfailed => by cases hphase.symm.trans hfailed
    split
    · exact ⟨.inl rfl, h.calls⟩
    split
    · exact h
    · exact ⟨.inl rfl, h.calls⟩
    · rename_i m rest hread
      split
      · exact ⟨.inl rfl, h.calls⟩
      · obtain ⟨hsettled, hin, rfl, rfl, hplain⟩ := w.greeting hphase hread
        exact ⟨.inr (.idle rfl hsettled hin rfl rfl hplain), h.calls⟩
  · exact h

theorem LinkOk.idle (h : LinkOk l) (hphase : l.client.phase = .idle) :
    Settled l.session ∧ l.input = [] ∧ l.output = [] ∧ l.session.base = l.client.base ∧
    Plain l.client.base := by
  have w : Wire l := h.wire.resolve_left fun hfailed => by cases hphase.symm.trans hfailed
  cases w with
  | idle client phase input output base plain => exact ⟨phase, input, output, base, plain⟩
  | greet client | greeted client => cases hphase.symm.trans client
  | mute client =>
    rcases client with hc | ⟨k, m, start, hc⟩
    · cases hphase.symm.trans hc
    · cases hphase.symm.trans hc
  | asked k m client | working k m client => cases hphase.symm.trans client
  | acking k m start e client | acked k m start e client => cases hphase.symm.trans client

/-- What beginning a call leads to. -/
inductive Called (l : Link) (k : Call) : Link → Prop
  | refused : Called l k l.fail
  | ignored (busy : l.client.phase ≠ .idle) : Called l k l
  /-- A part of the command is written. -/
  | cut (idle : l.client.phase = .idle) (n : ℕ) : Called l k
      { l with
        input := l.input ++ (frame (commandOf l.client.base k)).take n
        client := { l.client with
          phase := .failed, sent := commandOf l.client.base k :: l.client.sent } }
  | asked (idle : l.client.phase = .idle) : Called l k
      { l with
        input := l.input ++ frame (commandOf l.client.base k)
        client := { l.client with
          phase := .waiting k (commandOf l.client.base k) l.session.log
          sent := commandOf l.client.base k :: l.client.sent } }

theorem command_called (hphase : l.client.phase = .idle) (k : Call) (fails : Bool) (written : ℕ) :
    Called l k (l.command k (actionOfCall k) (untilOfCall k) fails written) := by
  unfold Link.command
  dsimp only
  split
  · exact .refused
  · split
    · exact .refused
    · split
      · exact .cut hphase written
      · exact .asked hphase

theorem call_called (l : Link) (now : ℤ) (k : Call) (fails : Bool) (written : ℕ) :
    Called l k (l.call now k fails written) := by
  unfold Link.call
  split
  · rename_i hphase
    split
    · exact command_called hphase .closed fails written
    · split
      · exact .refused
      · exact command_called hphase (.grantUntil _) fails written
  · rename_i hbusy
    exact .ignored hbusy

theorem LinkOk.call (h : LinkOk l) (now : ℤ) (k : Call) (fails : Bool) (written : ℕ) :
    LinkOk (l.call now k fails written) := by
  have hcalled := call_called l now k fails written
  generalize l.call now k fails written = l' at hcalled
  cases hcalled with
  | refused | cut => exact ⟨.inl rfl, h.calls⟩
  | ignored => exact h
  | asked idle =>
    obtain ⟨hsettled, hin, hout, -, hplain⟩ := h.idle idle
    refine ⟨.inr (.asked k (commandOf l.client.base k) rfl hsettled ?_ hout rfl hplain), h.calls⟩
    rw [hin, nil_append]

/-- What reading an acknowledgement leads to. -/
inductive Replied (l : Link) : Link → Prop
  | unknown : Replied l l
  | failed (output : List Char) : Replied l { l with output := output }.fail
  /-- The command was executed while it ran, and nothing is left on the wire. -/
  | done (k : Call) (m : Message) (start : List Executed) (e : Executed)
      (waits : l.client.phase = .waiting k m start) (settled : Settled l.session)
      (input : l.input = []) (base : l.session.base = m) (plain : Plain m)
      (log : l.session.log = start ++ [e]) (executed : Done l.session.session k m e) : Replied l
      { l with
        output := []
        client := { l.client with
          base := m
          phase := .idle
          completed := ⟨k, m, start, l.session.log⟩ :: l.client.completed } }

theorem reply_replied (h : LinkOk l) (now : ℤ) (fails : Bool) : Replied l (l.reply now fails) := by
  unfold Link.reply
  split
  · rename_i k m start hphase
    have w : Wire l := h.wire.resolve_left fun hfailed => by cases hphase.symm.trans hfailed
    split
    · exact .failed l.output
    split
    · exact .unknown
    · exact .failed l.output
    rename_i a rest hread
    split
    · exact .failed rest
    · obtain ⟨hsettled, hin, rfl, hbase, hplain, e, hlog, hdone⟩ := w.answer hphase hread
      exact .done k m start e hphase hsettled hin hbase hplain hlog hdone
  · exact .unknown

theorem LinkOk.reply (h : LinkOk l) (now : ℤ) (fails : Bool) : LinkOk (l.reply now fails) := by
  have hreplied := reply_replied h now fails
  generalize l.reply now fails = l' at hreplied
  cases hreplied with
  | unknown => exact h
  | failed => exact ⟨.inl rfl, h.calls⟩
  | done k m start e waits settled input base plain log executed =>
    refine ⟨.inr (.idle rfl settled input rfl base plain), fun x hx => ?_⟩
    rcases mem_cons.mp hx with rfl | hx
    · exact ⟨e, log, executed⟩
    · exact h.calls x hx

end

/-! ## Runs -/

/-- Every connection that only its own controller writes to. -/
def Links (c : Control) : Prop := ∀ i, (c.links i).tampered = false → LinkOk (c.links i)

section

variable {c : Control}

/-- Steps of a session change neither the controller nor the name of the session. -/
def SameEnds (l l' : Link) : Prop :=
  l'.client = l.client ∧ l'.session.session = l.session.session ∧ l'.tampered = l.tampered

variable {l l' : Link} {s s' : System}

theorem Served.sameEnds (hs : Served s l s' l') : SameEnds l l' := by
  cases hs <;> exact ⟨rfl, rfl, rfl⟩

theorem LinkOk.serve (h : LinkOk l) (hsession : SessionOk binding s.now l.session)
    (hsys : Inv s.gate) (fails : Bool) (written : ℕ) : LinkOk (serve s l fails written).2 := by
  obtain ⟨hclient, hname, -⟩ := Served.sameEnds (serve_served s l fails written)
  refine ⟨?_, ?_⟩
  · rcases h.wire with hfailed | w
    · exact .inl ((congrArg Client.phase hclient).trans hfailed)
    · exact .inr (serve_wire hsession hsys w fails written)
  · unfold CallsDone
    rw [hclient, hname]
    exact h.calls

theorem new_linkOk (binding : Binding) {nonce : String} (hsession : validID session = true)
    (hnonce : validID nonce = true) (clientBinding : String) :
    LinkOk (.new binding.text session nonce clientBinding) :=
  ⟨.inr (.greet rfl rfl rfl rfl (plain_of_valid binding.valid hsession hnonce)),
    fun _ hx => absurd hx not_mem_nil⟩

theorem Links.setLink (h : Links c) {i : ℕ} (hl : l.tampered = false → LinkOk l) :
    Links (c.setLink i l) := by
  intro j hj
  unfold Control.setLink at hj ⊢
  dsimp only at hj ⊢
  by_cases hij : j = i
  · subst hij
    rw [Function.update_self] at hj ⊢
    exact hl hj
  · rw [Function.update_of_ne hij] at hj ⊢
    exact h j hj

theorem step_links (h : Sessions c) (hl : Links c) (e : Event) : Links (step c e) := by
  cases e with
  | gate =>
    simp only [step]
    split
    · exact hl
    · exact hl
  | accept session nonce clientBinding =>
    simp only [step]
    split_ifs with haccept
    · rw [Bool.and_eq_true, Bool.and_eq_true] at haccept
      split
      · exact hl
      · exact hl.setLink (i := c.count) fun _ =>
          new_linkOk c.binding haccept.1.2 haccept.2 clientBinding
    · exact hl
  | serve fails written =>
    simp only [step]
    split_ifs with hcount
    · exact hl
    · refine hl.setLink (i := c.count - 1) fun htampered => ?_
      rw [(Served.sameEnds (serve_served ..)).2.2] at htampered
      exact (hl _ htampered).serve (h.session (Nat.pos_of_ne_zero hcount)) h.sys.gate fails written
  | inject => exact hl.setLink (by simp)
  | connect i fails =>
    refine hl.setLink fun htampered => ?_
    rw [(client_same _ 0 .closed fails 0).1.tampered] at htampered
    exact (hl i htampered).connect fails
  | call i k fails written =>
    refine hl.setLink fun htampered => ?_
    rw [(client_same _ c.system.now k fails written).2.1.tampered] at htampered
    exact (hl i htampered).call c.system.now k fails written
  | reply i fails =>
    refine hl.setLink fun htampered => ?_
    rw [(client_same _ c.system.now .closed fails 0).2.2.tampered] at htampered
    exact (hl i htampered).reply c.system.now fails
  | close i => exact hl.setLink fun htampered => ⟨.inl rfl, (hl i htampered).calls⟩

theorem run_links (managed : List IpPrefix) (binding : Binding) (now : ℤ) (events : List Event) :
    Links (run step (.new managed binding now) events) := by
  have hinv : Sessions (run step (.new managed binding now) events) ∧
      Links (run step (.new managed binding now) events) :=
    run_invariant (fun c => Sessions c ∧ Links c)
      (fun c e h _ => ⟨step_sessions h.1 e, step_links h.1 h.2 e⟩)
      ⟨run_sessions managed binding now [], fun _ _ =>
        ⟨.inl rfl, fun _ hx => absurd hx not_mem_nil⟩⟩
      (along_of_forall (fun _ _ => trivial) _ _)
  exact hinv.2

/-! ## The protocol -/

structure Behind (c : Control) (s : Session) : Prop where
  owner : c.system.gate.owner = s.session
  live : s.phase ≠ .ended
  received : ∀ m ∈ receivedOf s.history, validMessage m = true ∧ m.binding = c.binding.text ∧
    m.session = s.session ∧ m.nonce = s.nonce
  numbered : Numbered (receivedOf s.history)
  /-- The last grant since it took the gate, after an acknowledged closed gate, is the lease of
  the gate, and it was short. -/
  leased : ∃ m now, Leased s.history m now ∧ c.system.gate.expires = some m.untilUnixNano ∧
    m.untilUnixNano ≤ now + maxLease

structure Ends (s s' : System) (session : String) : Prop where
  own : s.gate.owner = session → s'.gate.owner = "" ∧ s'.gate.expires = none
  other : s.gate.owner ≠ session → s' = s

/-- What the protocol guarantees. -/
structure ControlSafe (c : Control) : Prop where
  behind : c.system.gate.isOpen c.system.now = true → 0 < c.count ∧ Behind c (last c).session
  /-- A received message was there in its canonical form. -/
  canonical : ∀ fails written m, (serve c.system (last c) fails written).2.session.history =
    .received m :: (last c).session.history →
      (last c).input = frame m ++ (serve c.system (last c) fails written).2.input
  /-- A session ends by giving up its own activation. -/
  ends : 0 < c.count → ∀ fails written, (last c).session.phase ≠ .ended →
    (serve c.system (last c) fails written).2.session.phase = .ended →
      Ends c.system (serve c.system (last c) fails written).1 (last c).session.session
  /-- When no session runs, nobody owns the gate. -/
  ended : c.free = true → c.system.gate.owner = "" ∧ c.system.gate.expires = none
  /-- A call that returned no error was executed while it ran, and nothing else. -/
  calls : ∀ i, (c.links i).tampered = false → CallsDone (c.links i)

theorem behind_of_open (h : Sessions c) (hopen : c.system.gate.isOpen c.system.now = true) :
    0 < c.count ∧ Behind c (last c).session := by
  have hexpires : c.system.gate.expires ≠ none := by
    intro hnone
    unfold Gate.isOpen at hopen
    rw [hnone] at hopen
    cases hopen
  have hpos : 0 < c.count := Nat.pos_of_ne_zero fun hzero => hexpires (h.none hzero).2
  refine ⟨hpos, ?_⟩
  have hsession := h.session hpos
  rcases h.lease hpos with ⟨-, hnone⟩ | ⟨howner, hlive, hlease⟩
  · exact absurd hnone hexpires
  cases hl : lease (last c).session.history with
  | none =>
    rw [hl] at hlease
    exact absurd hlease hexpires
  | some x =>
    rw [hl] at hlease
    exact ⟨howner, hlive, hsession.received, hsession.numbered, x.1, x.2,
      leased_of_lease hl hsession.ordered, hlease, hsession.bounded x.1 x.2 hl⟩

theorem history_ne (h : List Mark) (x : Mark) : h ≠ x :: h := by
  intro heq
  have := congrArg List.length heq
  rw [length_cons] at this
  omega

theorem Served.canonical (hs : Served s l s' l')
    (h : l'.session.history = .received m :: l.session.history) :
    l.input = frame m ++ l'.input := by
  cases hs with
  | moved | closed | cut | rejected => exact absurd h (history_ne _ _)
  | said writes =>
    cases writes with
    | hello => exact absurd h (history_ne _ _)
    | ack => cases h
  | received phase read =>
    cases h
    exact (readMessage_message read).2
  | owned | granted => cases h

theorem Served.ended (hs : Served s l s' l') (hlive : l.session.phase ≠ .ended)
    (h : l'.session.phase = .ended) :
    s' = s.withGate (s.gate.beginInvalidate l.session.session) := by
  cases hs with
  | moved p onward => exact absurd h (onward.live hlive)
  | closed => rfl
  | received => exact absurd h (dispatch_live _ _)
  | cut | said | rejected | owned | granted => cases h

theorem beginInvalidate_ends (s : System) (hnamed : session ≠ "") :
    Ends s (s.withGate (s.gate.beginInvalidate session)) session := by
  refine ⟨fun howner => beginInvalidate_owner howner, fun hother => ?_⟩
  rw [beginInvalidate_other hnamed hother]
  rfl

/-- The protocol is safe after every run: for all bytes that arrive, all failures of reads and
writes, and all steps of the gate in between. -/
theorem run_controlSafe (managed : List IpPrefix) (binding : Binding) (now : ℤ)
    (events : List Event) :
    ControlSafe (run step (.new managed binding now) events) := by
  have h := run_sessions managed binding now events
  refine ⟨behind_of_open h, fun _ _ _ hm => Served.canonical (serve_served ..) hm,
    fun hpos fails written hlive hended => ?_, fun hfree => ?_, fun i htampered =>
      (run_links managed binding now events i htampered).calls⟩
  · rw [Served.ended (serve_served ..) hlive hended]
    exact beginInvalidate_ends _ (h.session hpos).named
  have howner := h.free hfree
  refine ⟨howner, ?_⟩
  by_cases hcount : (run step (.new managed binding now) events).count = 0
  · exact (h.none hcount).2
  · have hpos := Nat.pos_of_ne_zero hcount
    rcases h.lease hpos with hno | ⟨hs, -⟩
    · exact hno.2
    · exact absurd (hs.symm.trans howner) (h.session hpos).named

end

end DaxiangVpn.ProxyControlAcks
