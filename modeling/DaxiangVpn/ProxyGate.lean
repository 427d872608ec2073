import DaxiangVpn.NetipPrefix
import DaxiangVpn.WriteFence

/-!
# The admission gate of the proxy

Admissions and registrations are numbered in the order of their creation. Every
section under the lock of the gate is one step; what a call does between two of
its sections is a thread or a cleanup batch. Connections close after any time. The
owner's activations and the one each admission belongs to are counted, which
the program does not do.
-/

namespace DaxiangVpn.ProxyGate

open NetipPrefix WriteFence

def maxAdmissions : ℕ := 4096

/-- Bound on the resources of an admission. -/
def maxTrackedConnections : ℕ := 4

/-- Longest lease, in nanoseconds. -/
def maxLease : ℤ := 5000000000

/-- A reserved resource. -/
structure Registration where
  admission : ℕ
  /-- Times its ready channel was closed. -/
  ready : ℕ
  conn : Option Conn
  attached : Bool
  /-- No connection will come. -/
  aborted : Bool
  /-- A cleanup batch owns it. -/
  quarantined : Bool
  /-- It is given back. -/
  released : Bool
  fence : Option Fence
  closeReturned : Bool
  /-- The activation it was reserved under. -/
  epoch : ℕ

def Registration.new (admission epoch : ℕ) : Registration :=
  ⟨admission, 0, none, false, false, false, false, none, false, epoch⟩

structure Admission where
  cancelled : Bool
  /-- The request has ended. -/
  released : Bool
  registrations : Finset ℕ
  client : ℕ
  /-- The activation it was created under. -/
  epoch : ℕ

/-- A captured set of registrations and the progress of its workers. -/
structure Batch where
  task : ℕ
  registrations : Finset ℕ
  /-- Those no worker has taken up. -/
  pending : Finset ℕ
  closing : Finset ℕ

/-- A call between two of its locked sections. -/
inductive Thread
  /-- A late attachment that will close the scope of the owner it has seen. -/
  | attaching (r : ℕ) (owner : String) (epoch : ℕ)
  /-- A late attachment that will announce the connection. -/
  | readying (r : ℕ)
  | untracking (r : ℕ)
  deriving DecidableEq

structure Gate where
  /-- Sources under the gate. -/
  managed : List IpPrefix
  /-- Owner, empty when there is none. -/
  owner : String
  expires : Option ℤ
  admissions : Finset ℕ
  cleanup : Option Batch
  /-- Cleanups so far. -/
  tasks : ℕ
  adms : ℕ → Admission
  admCount : ℕ
  /-- All registrations ever made. -/
  regs : ℕ → Registration
  regCount : ℕ
  /-- Activations so far. -/
  epoch : ℕ

def Gate.new (managed : List IpPrefix) : Gate :=
  ⟨managed, "", none, ∅, none, 0, fun _ => ⟨true, true, ∅, 0, 0⟩, 0, fun _ => .new 0 0, 0, 0⟩

/-- Errors of the gate. -/
inductive Err
  /-- `proxy_gate_closed`. -/
  | closed
  /-- `proxy_gate_capacity`. -/
  | capacity
  /-- `proxy_gate_protocol`. -/
  | protocol
  /-- `proxy_gate_cleanup_unknown`. -/
  | cleanupUnknown

/-! ## Sections under the lock -/

variable (s : System) (g : Gate)

/-- The gate has an owner whose lease has not expired. -/
def Gate.isOpen (now : ℤ) : Bool :=
  match g.expires with
  | none => false
  | some e => decide (g.owner ≠ "") && decide (now < e)

/-- Registrations of admissions that are not over. -/
def Gate.unreleased (g : Gate) : Finset ℕ :=
  (g.admissions.biUnion fun a => (g.adms a).registrations).filter fun r =>
    (g.regs r).released = false

def Gate.setReg (r : ℕ) (f : Registration → Registration) : Gate :=
  { g with regs := Function.update g.regs r (f (g.regs r)) }

def Gate.setAdm (a : ℕ) (f : Admission → Admission) : Gate :=
  { g with adms := Function.update g.adms a (f (g.adms a)) }

/-- Mark a registration released and take it out of its admission. -/
def Gate.drop (r : ℕ) : Gate :=
  (g.setReg r fun x => { x with released := true }).setAdm (g.regs r).admission fun a =>
    { a with registrations := a.registrations.erase r }

/-- A released admission without registrations is over. -/
def Gate.sweep (a : ℕ) : Gate :=
  if (g.adms a).released = true ∧ (g.adms a).registrations = ∅ then
    { g with admissions := g.admissions.erase a }
  else g

/-- The atomic decision to reject: the lease ends, and all registrations that are not
released become one cleanup batch. -/
def Gate.beginInvalidate (owner : String) : Gate :=
  if owner ≠ "" ∧ g.owner ≠ owner then g
  else match g.cleanup with
    | some _ => { g with owner := "", expires := none }
    | none =>
      { g with
        owner := ""
        expires := none
        adms := fun a => if a ∈ g.admissions then { g.adms a with cancelled := true } else g.adms a
        regs := fun r => if r ∈ g.unreleased then { g.regs r with quarantined := true }
          else g.regs r
        cleanup := if g.unreleased = ∅ then none
          else some ⟨g.tasks, g.unreleased, g.unreleased, ∅⟩
        tasks := if g.unreleased = ∅ then g.tasks else g.tasks + 1 }

def Gate.manages (a : Addr) : Bool := g.managed.any fun p => p.contains a

def Gate.createAdmission (g : Gate) : Gate :=
  { g with
    admissions := insert g.admCount g.admissions
    adms := Function.update g.adms g.admCount ⟨false, false, {g.regCount}, g.regCount, g.epoch⟩
    admCount := g.admCount + 1
    regs := Function.update g.regs g.regCount (.new g.admCount g.epoch)
    regCount := g.regCount + 1 }

/-- Admit a source. Sources that are not under the gate are admitted without it. -/
def Gate.acquireSource (now : ℤ) (a : Addr) : Gate × Except Err (Option ℕ) :=
  if g.manages a = false then (g, .ok none)
  else if g.cleanup.isSome ∨ g.isOpen now = false then (g, .error .closed)
  else if maxAdmissions ≤ g.admissions.card then (g.beginInvalidate "", .error .capacity)
  else (g.createAdmission, .ok (some g.admCount))

/-- Reserve an upstream resource of an admission. -/
def Gate.reserve (now : ℤ) (a : ℕ) : Gate × Except Err ℕ :=
  if (g.adms a).released = true ∨ (g.adms a).cancelled = true ∨ g.cleanup.isSome ∨
      g.isOpen now = false then (g, .error .closed)
  else if maxTrackedConnections ≤ (g.adms a).registrations.card then
    (g.beginInvalidate "", .error .capacity)
  else
    ({ g with
      adms := Function.update g.adms a
        { g.adms a with registrations := insert g.regCount (g.adms a).registrations }
      regs := Function.update g.regs g.regCount (.new a g.epoch)
      regCount := g.regCount + 1 }, .ok g.regCount)

/-- The scope of a registration is live, its fence apart. -/
def Gate.scopeLive (now : ℤ) (r : ℕ) : Bool :=
  !(g.regs r).released && !(g.regs r).aborted && !(g.regs r).quarantined &&
    !(g.adms (g.regs r).admission).released && !(g.adms (g.regs r).admission).cancelled &&
    g.cleanup.isNone && g.isOpen now

/-- What the first section of an attachment decides. -/
inductive Attach
  /-- The call ends here. -/
  | done (result : Except Err Unit)
  /-- The scope is closed; an existing quarantine owns the registration or not. -/
  | late (quarantined : Bool) (owner : String)

/-- The first section of `Attach`. -/
def Gate.attach (now : ℤ) (r : ℕ) (c : Conn) : Gate × Attach :=
  if (g.regs r).attached = true then
    (g, .done (if (g.regs r).conn ≠ some c then .error .protocol
      else if (g.adms (g.regs r).admission).cancelled = true ∨ (g.regs r).quarantined = true ∨
        (g.regs r).released = true then .error .closed
      else .ok ()))
  else if (g.regs r).aborted = true ∨ (g.regs r).released = true then (g, .done (.error .protocol))
  else if (g.adms (g.regs r).admission).cancelled = true ∨ (g.regs r).quarantined = true ∨
      g.isOpen now = false then
    (g.setReg r fun x => { x with conn := some c, attached := true },
      .late (g.regs r).quarantined g.owner)
  else
    (g.setReg r fun x => { x with conn := some c, attached := true, ready := x.ready + 1 },
      .done (.ok ()))

/-- The first section of `AttachFenced`. -/
def Gate.attachFenced (now : ℤ) (r : ℕ) (c : Conn) : Gate × Attach :=
  if (g.regs r).fence.map Fence.inner = some c then
    (g, .done (if g.scopeLive now r && ((g.regs r).fence.all fun f => !f.closed) then .ok ()
      else .error .closed))
  else if (g.regs r).attached = true ∨ (g.regs r).aborted = true ∨ (g.regs r).released = true ∨
      (g.regs r).fence.isSome then (g, .done (.error .protocol))
  else if g.scopeLive now r = false then
    (g.setReg r fun x =>
      { x with conn := some (.fence r), attached := true, fence := some (.new c) },
      .late (g.regs r).quarantined g.owner)
  else
    (g.setReg r fun x =>
      { x with conn := some (.fence r), attached := true, fence := some (.new c), ready := x.ready + 1 },
      .done (.ok ()))

def Gate.closeReady (r : ℕ) : Gate := g.setReg r fun x => { x with ready := x.ready + 1 }

/-- Confirm that no connection was created. -/
def Gate.abort (r : ℕ) : Gate :=
  if (g.regs r).attached = true ∨ (g.regs r).aborted = true ∨ (g.regs r).released = true then g
  else
    let aborted := g.setReg r fun x => { x with aborted := true, ready := x.ready + 1 }
    if (g.regs r).quarantined = true then aborted
    else (aborted.drop r).sweep (g.regs r).admission

/-- Give a registration back. A cleanup batch, a fence that was not closed and a
pending creation keep it. -/
def Gate.release (r : ℕ) : Gate :=
  if (g.regs r).quarantined = true ∨ (g.regs r).released = true then g
  else if (g.regs r).fence.any (fun f => !f.completed) then g
  else if (g.regs r).attached = false ∧ (g.regs r).aborted = false then g
  else (g.drop r).sweep (g.regs r).admission

/-- End an admission. Its client is given back; explicit reservations stay. -/
def Gate.releaseAdmission (a : ℕ) : Gate :=
  if (g.adms a).released = true then g
  else
    let c := (g.adms a).client
    let ended := g.setAdm a fun x => { x with released := true, cancelled := true }
    let aborted :=
      if (g.regs c).attached = false ∧ (g.regs c).aborted = false ∧ (g.regs c).released = false then
        ended.setReg c fun x => { x with aborted := true, ready := x.ready + 1 }
      else ended
    let given :=
      if (g.regs c).quarantined = false ∧ (g.regs c).released = false then aborted.drop c
      else aborted
    given.sweep a

/-- A worker takes up a registration of the batch whose connection is decided. -/
def Gate.take (r : ℕ) : Gate :=
  match g.cleanup with
  | none => g
  | some b =>
    if r ∈ b.pending ∧ 0 < (g.regs r).ready then
      { g with cleanup := some { b with pending := b.pending.erase r, closing := insert r b.closing } }
    else g

def Gate.closeReturned (r : ℕ) : Gate :=
  match g.cleanup with
  | none => g
  | some b =>
    if r ∈ b.closing ∧ (g.regs r).conn ≠ none then
      g.setReg r fun x => { x with closeReturned := true }
    else g

/-- The worker gives the registration back. -/
def Gate.workerRelease (r : ℕ) : Gate :=
  match g.cleanup with
  | none => g
  | some b =>
    if r ∈ b.closing ∧ ((g.regs r).conn = none ∨ (g.regs r).closeReturned = true) then
      { g.drop r with cleanup := some { b with closing := b.closing.erase r } }
    else g

/-- All workers are done: cancelled admissions without registrations are over. -/
def Gate.finishCleanup (g : Gate) : Gate :=
  match g.cleanup with
  | none => g
  | some b =>
    if b.pending = ∅ ∧ b.closing = ∅ then
      { g with
        adms := fun a => if a ∈ g.admissions ∧ (g.adms a).cancelled = true ∧
          (g.adms a).registrations = ∅ then { g.adms a with released := true } else g.adms a
        admissions := g.admissions.filter fun a =>
          ¬ ((g.adms a).cancelled = true ∧ (g.adms a).registrations = ∅)
        cleanup := none }
    else g

def Gate.own (owner : String) : Gate × Except Err Unit :=
  if g.cleanup.isSome ∨ g.admissions ≠ ∅ then (g, .error .cleanupUnknown)
  else if g.owner ≠ "" ∧ g.owner ≠ owner then (g, .error .closed)
  else ({ g with owner := owner, expires := none, epoch := g.epoch + 1 }, .ok ())

/-- Grant a lease that was checked against the clock before the section. -/
def Gate.grant (owner : String) (untilTime asked : ℤ) : Gate × Except Err Unit :=
  if untilTime ≤ asked ∨ asked + maxLease < untilTime then (g, .error .protocol)
  else if g.cleanup.isSome ∨ g.owner ≠ owner ∨ owner = "" then (g, .error .closed)
  else ({ g with expires := some untilTime }, .ok ())

/-! ## Calls and their interleavings -/

/-- The gate, the calls between two sections and the clock. -/
structure System where
  now : ℤ
  gate : Gate
  threads : List Thread

/-- A system with a closed gate. -/
def System.new (managed : List IpPrefix) (now : ℤ) : System := ⟨now, .new managed, []⟩

/-- What happens next. -/
inductive Event
  /-- Time passes. -/
  | tick (d : ℕ)
  /-- `AcquireSource` of an address. -/
  | acquireSource (a : Addr)
  /-- `Reserve` of an admission. -/
  | reserve (a : ℕ)
  /-- `Attach`, also of the client by `Track`. -/
  | attach (r : ℕ) (c : Conn)
  | attachFenced (r : ℕ) (c : Conn)
  | abort (r : ℕ)
  | release (r : ℕ)
  /-- `Untrack`, which finds this registration. -/
  | untrack (a : ℕ) (c : Conn) (r : ℕ)
  /-- `Admission.Release`. -/
  | releaseAdmission (a : ℕ)
  /-- `closeFor`, also with any owner by `Close`. -/
  | closeFor (owner : String)
  | own (owner : String)
  /-- `grant`, which looked at the clock before. -/
  | grant (owner : String) (untilTime asked : ℤ)
  /-- The next section of a call. -/
  | thread (i : ℕ)
  /-- A cleanup worker takes up a registration. -/
  | take (r : ℕ)
  | closeReturned (r : ℕ)
  /-- A cleanup worker gives a registration back. -/
  | workerRelease (r : ℕ)
  | finishCleanup
  | write (r : ℕ)
  | setDeadline (r : ℕ) (kind : DeadlineKind) (deadline : Option ℤ)
  | closeFence (r : ℕ)
  /-- The next step of a call on a fence; a raw update may fail. -/
  | fenceThread (r i : ℕ) (fails : Bool)

def System.withGate (s : System) (g : Gate) : System := { s with gate := g }

/-- A late attachment goes on outside the lock. -/
def System.attached (r : ℕ) (result : Gate × Attach) : System :=
  match result.2 with
  | .done _ => s.withGate result.1
  | .late true _ => { s.withGate result.1 with threads := .readying r :: s.threads }
  | .late false owner =>
    { s.withGate result.1 with threads := .attaching r owner s.gate.epoch :: s.threads }

def System.live (r : ℕ) (f : Fence) : Bool := !f.closed && s.gate.scopeLive s.now r

def System.onFence (r : ℕ) (change : Bool → Fence → Fence) : System :=
  match (s.gate.regs r).fence with
  | none => s
  | some f => s.withGate (s.gate.setReg r fun x => { x with fence := some (change (s.live r f) f) })

/-- Registrations of an admission that have this connection. -/
def Gate.tracked (a : ℕ) (c : Conn) : Finset ℕ :=
  (g.adms a).registrations.filter fun r => (g.regs r).attached = true ∧ (g.regs r).conn = some c

/-- The next section of a call. -/
def System.advance (i : ℕ) : System :=
  match s.threads[i]? with
  | none => s
  | some (.attaching r owner _) =>
    { s.withGate (s.gate.beginInvalidate owner) with threads := s.threads.set i (.readying r) }
  | some (.readying r) => { s.withGate (s.gate.closeReady r) with threads := s.threads.eraseIdx i }
  | some (.untracking r) => { s.withGate (s.gate.release r) with threads := s.threads.eraseIdx i }

/-- The next step of a call on a fence. The last step of a close releases the
registration. -/
def System.advanceFence (r i : ℕ) (fails : Bool) : System :=
  match (s.gate.regs r).fence with
  | none => s
  | some f =>
    if f.threads[i]? = some (.closing .releasing) then
      (s.onFence r fun live x => x.advance live fails s.now i).withGate
        ((s.onFence r fun live x => x.advance live fails s.now i).gate.release r)
    else s.onFence r fun live x => x.advance live fails s.now i

/-- The close of a connection may return: the close of a fence has been executed. -/
def Gate.closable (c : Option Conn) : Bool :=
  match c with
  | some (.fence q) => (g.regs q).fence.any fun f => decide (f.once = .done)
  | _ => true

/-- One step. Calls name admissions and registrations that exist. -/
def step (s : System) : Event → System
  | .tick d => { s with now := s.now + d }
  | .acquireSource a => s.withGate (s.gate.acquireSource s.now a).1
  | .reserve a => if a < s.gate.admCount then s.withGate (s.gate.reserve s.now a).1 else s
  | .attach r c => if r < s.gate.regCount then s.attached r (s.gate.attach s.now r c) else s
  | .attachFenced r c =>
    if r < s.gate.regCount then s.attached r (s.gate.attachFenced s.now r c) else s
  | .abort r => if r < s.gate.regCount then s.withGate (s.gate.abort r) else s
  | .release r => if r < s.gate.regCount then s.withGate (s.gate.release r) else s
  | .untrack a c r =>
    if r ∈ s.gate.tracked a c then { s with threads := .untracking r :: s.threads } else s
  | .releaseAdmission a =>
    if a < s.gate.admCount then s.withGate (s.gate.releaseAdmission a) else s
  | .closeFor owner => s.withGate (s.gate.beginInvalidate owner)
  | .own owner => s.withGate (s.gate.own owner).1
  | .grant owner untilTime asked =>
    if asked ≤ s.now then s.withGate (s.gate.grant owner untilTime asked).1 else s
  | .thread i => s.advance i
  | .take r => s.withGate (s.gate.take r)
  | .closeReturned r =>
    if s.gate.closable (s.gate.regs r).conn then s.withGate (s.gate.closeReturned r) else s
  | .workerRelease r => s.withGate (s.gate.workerRelease r)
  | .finishCleanup => s.withGate s.gate.finishCleanup
  | .write r => s.onFence r fun live f => f.beginWrite live
  | .setDeadline r kind deadline => s.onFence r fun live f =>
    f.updateDeadline live s.now kind deadline
  | .closeFence r => s.onFence r fun _ f => f.beginClose
  | .fenceThread r i fails => if r < s.gate.regCount then s.advanceFence r i fails else s

end DaxiangVpn.ProxyGate
