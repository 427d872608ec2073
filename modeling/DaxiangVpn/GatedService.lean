import DaxiangVpn.DeviceAuthConvergence
import DaxiangVpn.ProxyControlAcks

/-!
# Gated cycles of the device service

The service proves convergence inside one write transaction, chooses the end of a lease
there, and asks the gate for it before the transaction ends. While the transaction is open
no other writer of the authority commits. Service and gate share one clock. Offers and
executions of leases, and the number of commits, are recorded, which the program does
not do.
-/

namespace DaxiangVpn.GatedService

open DeviceAuthTables (DB Store WriteOutcome write)
open DeviceAuthWorld (World)
open DeviceAuthConvergence (ConvergenceProof ProofEnv proveConvergence withProxyConvergence)
open ControlFrames (Message)
open ProxyControl (Control Link minLease)
open ProxyControlAcks (commandOf)
open NetipPrefix (parsePrefix)

/-- Longest lease the service asks for, in nanoseconds. -/
def leaseTime : ℤ := 2000000000

structure GatePolicy where
  epoch : String
  /-- Owner mark of managed peers. -/
  managedBy : String
  /-- Digest of the authority's policy. -/
  policySHA256 : String
  managedSources : List String

/-- The proof is about the authority of the gate. -/
def GatePolicy.accepts (p : GatePolicy) (proof : ConvergenceProof) : Bool :=
  decide (proof.epoch = p.epoch) && decide (proof.managedBy = p.managedBy) &&
    decide (proof.policySHA256 = p.policySHA256)

/-- The end of the lease: two seconds ahead, and no later than any authorization. -/
def chooseUntil (now : ℤ) (proof : ConvergenceProof) : ℤ :=
  match proof.earliestValidUntil with
  | none => now + leaseTime
  | some e => if e < now + leaseTime then e else now + leaseTime

/-! ## The state -/

/-- Checks of `WithProxyConvergence` that have passed. -/
structure Checked where
  env : ProofEnv
  db : DB
  proof : ConvergenceProof
  commits : ℕ

/-- A lease that the service has asked for. -/
structure Offer where
  link : ℕ
  checked : Checked
  computedAt : ℤ
  message : Message

/-- Where `grantProxy` is. -/
inductive Stage
  | checking
  | proved (k : Checked)
  | chosen (k : Checked) (computedAt untilTime : ℤ)
  /-- The lease is long enough. -/
  | ready (k : Checked) (computedAt untilTime : ℤ)
  /-- `GrantUntil` runs. -/
  | calling (o : Offer)
  /-- `GrantUntil` has returned no error. -/
  | granted (o : Offer)

/-- The open transaction of `WithProxyConvergence`. -/
structure Transaction where
  link : ℕ
  started : ℤ
  stage : Stage

/-- A command that the gate has executed. -/
structure Execution where
  link : ℕ
  message : Message
  commits : ℕ
  db : DB

/-- The authority, the gate with its connections, and the transaction that is open. -/
structure Gated where
  world : World
  control : Control
  tx : Option Transaction
  commits : ℕ
  /-- Leases asked for, the last first. -/
  offers : List Offer
  /-- Commands executed, the last first. -/
  executions : List Execution

/-- The clock. -/
def Gated.now (c : Gated) : ℤ := c.control.system.now

def Gated.at (c : Gated) (t : Transaction) (stage : Stage) : Gated :=
  { c with tx := some { t with stage := stage } }

/-- The transaction is rolled back. -/
def Gated.rollback (c : Gated) : Gated := { c with tx := none }

/-! ## Steps -/

/-- What happens at the connections without the service's callback. -/
def ordinary : ProxyControl.Event → Bool
  | .inject _ _ => false
  | .call _ (.grantUntil _) _ _ => false
  | _ => true

/-- Commands that the last connection has executed between two states. -/
def Gated.executedBy (c : Gated) (after : Control) : List Execution :=
  (((after.links (c.control.count - 1)).session.log.drop
    (c.control.links (c.control.count - 1)).session.log.length).map fun e =>
      ⟨c.control.count - 1, e.message, c.commits, c.world.db⟩).reverse

def Gated.connections (c : Gated) (e : ProxyControl.Event) : Gated :=
  { c with
    control := ProxyControl.step c.control e
    executions := c.executedBy (ProxyControl.step c.control e) ++ c.executions }

/-- A step of the authority. Its writers wait while the transaction is open. -/
def Gated.authority (s : Store) (c : Gated) (i : DeviceAuthWorld.Input) : Gated :=
  match i.act with
  | .external _ => { c with world := DeviceAuthWorld.step s c.world i }
  | _ =>
    if c.tx.isSome then c
    else { c with world := DeviceAuthWorld.step s c.world i, commits := c.commits + 1 }

/-- What the service does next inside the transaction. -/
inductive Act
  /-- The checks; their clock readings are later than the start of the transaction. -/
  | prove (env : ProofEnv)
  /-- Compare the policy and compute the end of the lease. -/
  | choose
  /-- Compare the lease with the clock again. -/
  | check
  /-- Begin `GrantUntil`. -/
  | grant (fails : Bool) (written : ℕ)
  /-- See whether `GrantUntil` has returned. -/
  | returned
  | finish (outcome : WriteOutcome) (lateGrant identityAfter : Bool)
  | crash

/-- The environment of the whole call, with the last clock reading and what came after the
grant. -/
def lastEnv (env : ProofEnv) (now : ℤ) (lateGrant identityAfter : Bool) : ProofEnv :=
  { env with
    clock := fun n => if n = 2 then now else env.clock n
    lateGrant := lateGrant
    identityAfter := identityAfter }

/-- The call has returned no error. -/
def returnedNil (o : Offer) (l : Link) : Bool :=
  l.client.completed.any fun y => decide (y.message = o.message)

/-- The call still waits. -/
def waiting (l : Link) : Bool :=
  match l.client.phase with
  | .waiting _ _ _ => true
  | _ => false

/-- `WithProxyConvergence` up to its grant. -/
def Gated.prove (s : Store) (p : GatePolicy) (c : Gated) (t : Transaction)
    (env : ProofEnv) : Gated :=
  if t.started ≤ env.clock 0 ∧ env.clock 0 ≤ env.clock 1 ∧ env.clock 1 ≤ c.now then
    match proveConvergence s env p.managedSources c.world.db with
    | .ok proof => c.at t (.proved ⟨env, c.world.db, proof, c.commits⟩)
    | .error _ => c.rollback
  else c

/-- The callback begins `GrantUntil`. -/
def Gated.grant (c : Gated) (t : Transaction) (k : Checked)
    (computedAt untilTime : ℤ) (fails : Bool) (written : ℕ) : Gated :=
  let o : Offer := ⟨t.link, k, computedAt,
    commandOf (c.control.links t.link).client.base (.grantUntil untilTime)⟩
  { c.at t (.calling o) with
    control := ProxyControl.step c.control (.call t.link (.grantUntil untilTime) fails written)
    offers := o :: c.offers }

/-- The end of `WithProxyConvergence` after its grant. -/
def Gated.finish (s : Store) (p : GatePolicy) (c : Gated) (o : Offer) (outcome : WriteOutcome)
    (lateGrant identityAfter : Bool) : Gated :=
  { c.rollback with
    world := c.world.store (write outcome (withProxyConvergence s
      (lastEnv o.checked.env c.now lateGrant identityAfter) p.managedSources fun _ => .ok ())
        c.world.db).2
    commits := c.commits + 1 }

/-- One step of the service inside its transaction. -/
def Gated.advance (s : Store) (p : GatePolicy) (c : Gated) (t : Transaction) (a : Act) : Gated :=
  match a, t.stage with
  | .prove env, .checking => c.prove s p t env
  | .choose, .proved k =>
    if p.accepts k.proof then c.at t (.chosen k c.now (chooseUntil c.now k.proof)) else c.rollback
  | .check, .chosen k computedAt untilTime =>
    if untilTime - c.now < minLease then c.rollback else c.at t (.ready k computedAt untilTime)
  | .grant fails written, .ready k computedAt untilTime =>
    c.grant t k computedAt untilTime fails written
  | .returned, .calling o =>
    if waiting (c.control.links t.link) then c
    else if returnedNil o (c.control.links t.link) then c.at t (.granted o)
    else c.rollback
  | .finish outcome lateGrant identityAfter, .granted o =>
    c.finish s p o outcome lateGrant identityAfter
  | .crash, _ => { c.rollback with control := ProxyControl.step c.control (.close t.link) }
  | _, _ => c

/-- What happens next. -/
inductive Event
  /-- A step of gate and connections. -/
  | control (e : ProxyControl.Event)
  /-- A step of the authority, of `Tick` or of anybody else. -/
  | authority (i : DeviceAuthWorld.Input)
  /-- The service begins `WithProxyConvergence` for a controller. -/
  | start (i : ℕ)
  /-- The service goes on. -/
  | advance (a : Act)

def step (s : Store) (p : GatePolicy) (c : Gated) : Event → Gated
  | .control e => if ordinary e then c.connections e else c
  | .authority i => c.authority s i
  | .start i =>
    if c.tx.isNone && c.world.frame.isNone then { c with tx := some ⟨i, c.now, .checking⟩ } else c
  | .advance a =>
    match c.tx with
    | none => c
    | some t => c.advance s p t a

/-- A closed gate over any authority. -/
def Gated.new (p : GatePolicy) (binding : ProxyControl.Binding) (world : World) (now : ℤ) : Gated :=
  ⟨world, .new (p.managedSources.filterMap parsePrefix) binding now, none, 0, [], []⟩

end DaxiangVpn.GatedService
