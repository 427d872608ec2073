import DaxiangVpn.SystemProxyLease

/-!
# The controller of an engine and its lease hooks

The phase of an engine changes in locked sections: control requests, runtime
actions, termination signals and the start timer. Runtime actions and stops run the
hooks of the lease controller inside the section, with the faults the lease manager
meets. What a handler does after its section (closing the done channel) is a step of
its own.
-/

namespace DaxiangVpn.EngineControl

open FaultyProgram SystemProxyLease

/-! ## The record of an engine -/

/-- The startup authorization of an engine. -/
structure Authorization where
  valid : Bool
  issuedUnixSeconds : ℤ
  expiresUnixSeconds : ℤ

def second : ℤ := 1000000000

/-- The authorization can be used at this time, in nanoseconds. -/
def Authorization.validateFresh (a : Authorization) (now : ℤ) : Bool :=
  a.valid && !(decide (now / second < a.issuedUnixSeconds) ||
    decide (a.expiresUnixSeconds ≤ now / second))

/-- What is fixed while an engine runs. -/
structure ControlRecord where
  identity : EngineIdentity
  proxyAddr : Option ProxyAddr
  /-- The engine must be activated before this time. -/
  startDeadlineUnixNano : ℤ
  authorization : Option Authorization
  /-- Home directory of the lease controller. -/
  home : String

/-- What the collaborators of a hook answer. -/
structure Answers where
  platform : Bool
  /-- The resolver's answer to the hook. -/
  scope : Option Scope
  /-- The resolver's answers to the manager. -/
  resolve : String → Option Scope
  alive : Bool
  /-- The proxy accepts a connection. -/
  dials : Bool
  transactions : Boundary
  opens : Bool
  /-- Random bytes of a lease, if there are any. -/
  random : Option (Vector UInt8 16)
  /-- Faults of the store and the adapter. -/
  script : List Verdict

/-! ## Hooks of the lease controller -/

variable (engine : ControlRecord)

def managerEnvironment (phase : Phase) (answers : Answers)
    (authority : Boundary) (owner : Owner) : Environment :=
  ⟨true, answers.resolve, true, authority, ⟨owner, phase, engine.proxyAddr, true⟩,
    answers.transactions, answers.opens, answers.random⟩

/-- The guard's authority over the manager: it runs the callback for the owner it
was made for, in the phases it allows. -/
def guardAuthority (phase : Phase) (answers : Answers) (owner : Owner)
    (claim : Claim) (admits : Bool) : Boundary :=
  match (managerEnvironment engine phase answers .refuses owner).claim claim with
  | .error _ => .refuses
  | .ok asked =>
    if asked = owner ∧ asked.engine = engine.identity ∧ admits = true ∧ answers.alive = true then
      .invokes 1
    else .refuses

/-- `WithReady` of the guard. -/
def withReady (phase : Phase) (answers : Answers) (owner : Owner)
    (claim : Claim) : Boundary :=
  guardAuthority engine phase answers owner claim (decide (phase = .ready) && answers.dials)

/-- `WithRelease` of the guard. -/
def withRelease (phase : Phase) (answers : Answers) (owner : Owner)
    (claim : Claim) : Boundary :=
  guardAuthority engine phase answers owner claim
    (decide (phase = .ready) || decide (phase = .starting))

inductive ActionCommand
  /-- `system-proxy-acquire`. -/
  | acquire
  /-- `system-proxy-release`. -/
  | release
  | unknown
  deriving DecidableEq

structure RuntimeAction where
  command : ActionCommand
  userScope : String
  leaseID : String
  deriving DecidableEq

/-- How a hook ends. -/
inductive HookResult
  | ok
  | failed
  | crashed
  deriving DecidableEq

def hookResult : Outcome Code Unit → HookResult
  | .ok _ => .ok
  | .error _ => .failed
  | .crashed => .crashed

/-- What a hook leaves behind. -/
structure Hooked where
  result : HookResult
  receipt : Receipt
  claim : Option Claim
  /-- The user's settings and journal. -/
  world : World

def ControlRecord.claim (scope : Scope) : Claim :=
  ⟨scope.userScope, engine.home, engine.identity⟩

def ControlRecord.owner (scope : Scope) : Owner :=
  ⟨scope.userScope, scope.homeIdentity, engine.identity⟩

/-- Acquire a lease. One that was acquired or attempted is claimed. -/
def acquireAction (phase : Phase) (answers : Answers) (scope : Scope)
    (held : Option Claim) (w : World) : Hooked :=
  let env := managerEnvironment engine phase answers
    (withReady engine phase answers (engine.owner scope) (engine.claim scope)) (engine.owner scope)
  let ended := acquire env (engine.claim scope) answers.script ⟨w, .empty⟩
  ⟨hookResult ended.outcome, ended.state.receipt,
    if ended.state.receipt.owner ≠ none then some (engine.claim scope) else held, ended.state.world⟩

/-- Release a lease. One that was released is not claimed any more. -/
def releaseAction (phase : Phase) (answers : Answers) (scope : Scope)
    (leaseID : String) (held : Option Claim) (w : World) : Hooked :=
  let env := managerEnvironment engine phase answers
    (withRelease engine phase answers (engine.owner scope) (engine.claim scope))
      (engine.owner scope)
  let ended := release env (engine.claim scope) leaseID answers.script ⟨w, .empty⟩
  ⟨hookResult ended.outcome, ended.state.receipt,
    if hookResult ended.outcome = .ok then none else held, ended.state.world⟩

def action (phase : Phase) (answers : Answers) (request : RuntimeAction)
    (held : Option Claim) (w : World) : Hooked :=
  match answers.platform, answers.scope with
  | true, some scope =>
    if request.userScope ≠ scope.userScope then ⟨.failed, .empty, held, w⟩
    else match request.command with
      | .acquire => acquireAction engine phase answers scope held w
      | .release => releaseAction engine phase answers scope request.leaseID held w
      | .unknown => ⟨.failed, .empty, held, w⟩
  | _, _ => ⟨.failed, .empty, held, w⟩

def releaseClaimed (phase : Phase) (answers : Answers) (scope : Scope)
    (claim : Claim) (w : World) : Hooked :=
  let owner : Owner := ⟨claim.userScope, scope.homeIdentity, claim.engine⟩
  let env := managerEnvironment engine phase answers
    (withRelease engine phase answers owner claim) owner
  let ended := releaseOwned env claim answers.script ⟨w, .empty⟩
  ⟨hookResult ended.outcome, ended.state.receipt, some claim, ended.state.world⟩

def beforeStop (phase : Phase) (answers : Answers) (held : Option Claim)
    (w : World) : Hooked :=
  match held with
  | none => ⟨.ok, .empty, held, w⟩
  | some claim =>
    match answers.platform, answers.scope with
    | true, some scope => releaseClaimed engine phase answers scope claim w
    | _, _ => ⟨.failed, .empty, held, w⟩

/-! ## The controller -/

/-- The state of the controller and of what its hooks write. -/
structure Control where
  running : Bool
  phase : Phase
  dataStarted : Bool
  /-- Handlers that are about to close the done channel. -/
  closing : ℕ
  /-- The done channel was closed through its once-guard. -/
  stopped : Bool
  /-- Times the done channel was closed. -/
  closed : ℕ
  actionNonces : List (String × ℤ)
  claim : Option Claim
  /-- The user's settings and journal. -/
  world : World

/-- A controller that was just begun. -/
def begin (w : World) : Control := ⟨true, .starting, false, 0, false, 0, [], none, w⟩

/-- Close the done channel unless it was closed before. -/
def Control.stopOnce (c : Control) : Control :=
  if c.stopped then c else { c with stopped := true, closed := c.closed + 1 }

/-- The data path is up. -/
def Control.ready (c : Control) : Control := { c with dataStarted := true }

/-- The locked section of a stop: the hook must succeed. The second component says
whether the request succeeded. -/
def Control.requestStop (engine : ControlRecord) (answers : Answers) (c : Control) :
    Control × Bool :=
  if c.phase = .stopping then (c, true)
  else
    let hooked := beforeStop engine c.phase { answers with alive := true } c.claim c.world
    match hooked.result with
    | .ok => ({ c with world := hooked.world, phase := .stopping, closing := c.closing + 1 }, true)
    | .failed => ({ c with world := hooked.world }, false)
    | .crashed => ({ c with world := hooked.world, running := false }, false)

/-- The start timer fires. -/
def Control.expireLease (c : Control) : Control :=
  if c.phase = .ready then c else { c with phase := .stopping, closing := c.closing + 1 }

/-- Commands of a control request. -/
inductive Command
  | status
  | activate
  | stop
  | unknown
  deriving DecidableEq

structure ControlRequest where
  command : Command
  nonce : String
  identity : EngineIdentity
  /-- Its code is the one of the engine's secret. -/
  authentic : Bool

/-- The request is meant for this engine and signed with its secret. -/
def ControlRequest.authorized (request : ControlRequest) : Bool :=
  decide (request.nonce.utf8ByteSize = 64) && decide (request.identity = engine.identity) &&
    decide (request.command ≠ .unknown) && request.authentic

/-- The startup authorization is missing or fresh. -/
def ControlRecord.fresh (now : ℤ) : Bool :=
  match engine.authorization with
  | none => true
  | some a => a.validateFresh now

/-- The locked section of an activation: a stale authorization stops the engine, and
in time it becomes ready. The clock is read twice. -/
def Control.activate (now later : ℤ) (c : Control) : Control :=
  let checked := if c.phase = .starting ∧ engine.fresh now = false then
    { c.stopOnce with phase := .stopping } else c
  if checked.phase = .starting ∧ checked.dataStarted = true ∧
      later < engine.startDeadlineUnixNano then
    { checked with phase := .ready }
  else checked

/-- A control request up to the end of its locked sections. -/
def Control.handle (request : ControlRequest) (now later : ℤ)
    (answers : Answers) (c : Control) : Control :=
  if request.authorized engine = false then c
  else match request.command with
    | .stop =>
      let asked := c.requestStop engine answers
      if asked.2 then { asked.1 with closing := asked.1.closing + 1 } else asked.1
    | .activate => c.activate engine now later
    | .status => c
    | .unknown => c

structure RuntimeActionRequest where
  version : ℤ
  nonce : String
  identity : EngineIdentity
  action : RuntimeAction
  /-- Time after which it is refused. -/
  deadline : ℤ
  /-- Its code is the one of the engine's secret. -/
  authentic : Bool
  deriving DecidableEq

def RuntimeActionRequest.authorized (request : RuntimeActionRequest) :
    Bool :=
  decide (request.version = 1) && decide (request.nonce.utf8ByteSize = 64) &&
    decide (request.identity = engine.identity) && decide (request.action.command ≠ .unknown) &&
    request.authentic

/-- A runtime action: expired nonces are forgotten, and the hook runs once for each
nonce within its time. The clock is read twice. -/
def Control.handleRuntimeAction (request : RuntimeActionRequest)
    (now later : ℤ) (answers : Answers) (c : Control) : Control :=
  if request.authorized engine = false then c
  else
    let kept := c.actionNonces.filter fun n => decide (now < n.2)
    if request.deadline ≤ now ∨ later + 30 * second < request.deadline ∨
        request.nonce ∈ kept.map Prod.fst ∨ 1024 ≤ kept.length ∨ answers.alive = false then
      { c with actionNonces := kept }
    else
      let hooked := action engine c.phase answers request.action c.claim c.world
      { c with
        actionNonces := (request.nonce, request.deadline) :: kept
        running := decide (hooked.result ≠ .crashed)
        claim := hooked.claim
        world := hooked.world }

/-- What happens next. -/
inductive Event
  /-- The data path comes up. -/
  | ready
  | signal (answers : Answers)
  /-- The start timer fires. -/
  | expire
  | control (request : ControlRequest) (now later : ℤ) (answers : Answers)
  | runtimeAction (request : RuntimeActionRequest) (now later : ℤ) (answers : Answers)
  /-- A handler gets to close the done channel. -/
  | close
  /-- Somebody else changes the user's settings or journal. -/
  | outside (w : World)

/-- What the process does next, unless it is gone. -/
def Control.whileRunning (c next : Control) : Control := if c.running = false then c else next

/-- One step. A process that is gone takes no step of its own. -/
def step (engine : ControlRecord) (c : Control) : Event → Control
  | .ready => c.whileRunning c.ready
  | .signal answers => c.whileRunning (c.requestStop engine answers).1
  | .expire => c.whileRunning c.expireLease
  | .control request now later answers =>
    c.whileRunning (c.handle engine request now later answers)
  | .runtimeAction request now later answers =>
    c.whileRunning (c.handleRuntimeAction engine request now later answers)
  | .close =>
    c.whileRunning (if 0 < c.closing then { c.stopOnce with closing := c.closing - 1 } else c)
  | .outside w => { c with world := w }

end DaxiangVpn.EngineControl
