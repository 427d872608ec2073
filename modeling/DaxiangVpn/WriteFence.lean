import Mathlib.Tactic

/-!
# The write fence of an upstream connection

The fence decides writes and deadline updates under the lock of its gate and
executes them outside. Its calls are threads: each step of a thread is one locked
section, one raw operation or one wait. Whether the scope of the connection is
live is an input of the steps that look at it under the lock.
-/

namespace DaxiangVpn.WriteFence

/-- A connection, or the fence of a registration. -/
inductive Conn
  | raw (id : ℕ)
  | fence (registration : ℕ)
  deriving DecidableEq

/-- Which raw deadlines a call sets. -/
inductive DeadlineKind
  /-- `SetDeadline`. -/
  | both
  /-- `SetReadDeadline`. -/
  | read
  /-- `SetWriteDeadline`. -/
  | write
  deriving DecidableEq

structure RawDeadline where
  kind : DeadlineKind
  deadline : Option ℤ
  time : ℤ

/-- What a deadline update returns. -/
inductive UpdateResult
  | ok
  | failed
  | closed
  deriving DecidableEq

/-- Where an update of a future deadline is. -/
inductive UpdateStage
  /-- It has its permit and waits for the deadline lock. -/
  | waiting
  | locked
  /-- It found the scope live and sets the raw deadline. -/
  | setting
  /-- The raw deadline was set, with or without an error. -/
  | updated (failed : Bool)
  /-- It found the scope closed and sets a raw deadline of now. -/
  | repairing
  /-- It is about to give the lock back. -/
  | leaving (result : UpdateResult)
  /-- It is about to give the permit back. -/
  | ending (result : UpdateResult)
  /-- It is about to leave the wait group. -/
  | ended (result : UpdateResult)
  deriving DecidableEq

/-- Where an update of a past deadline is. -/
inductive RevokeStage
  /-- It has its permit and waits for the deadline lock. -/
  | waiting
  /-- It has the lock and sets the raw deadline. -/
  | locked
  /-- It is about to give the lock back. -/
  | leaving
  /-- It is about to give the permit back. -/
  | ending
  /-- It is about to leave the wait group. -/
  | ended
  deriving DecidableEq

inductive CloseStage
  /-- It is about to mark the fence closed. -/
  | marking
  | waiting
  /-- It has the lock and sets a raw deadline of now. -/
  | locked
  /-- It is about to give the lock back. -/
  | leaving
  | closing
  | joining
  /-- It is about to mark the fence completed. -/
  | joined
  | releasing
  deriving DecidableEq

/-- A call in progress. -/
inductive FenceThread
  | writing
  /-- A write that has given its permit back. -/
  | written
  | updating (kind : DeadlineKind) (deadline : Option ℤ) (stage : UpdateStage)
  | revoking (kind : DeadlineKind) (deadline : ℤ) (stage : RevokeStage)
  | closing (stage : CloseStage)
  deriving DecidableEq

/-- Progress of the only execution of a close. -/
inductive Once
  /-- Nobody closed. -/
  | idle
  | running
  | done
  deriving DecidableEq

/-- The fence of a connection and its calls in progress. -/
structure Fence where
  inner : Conn
  closed : Bool
  /-- A close has joined all operations. -/
  completed : Bool
  writeActive : Bool
  /-- A permit for a future deadline is given. -/
  deadlineActive : Bool
  /-- A permit for a past deadline is given. -/
  revokerActive : Bool
  deadlineMu : Bool
  /-- Members of the wait group. -/
  operations : ℕ
  once : Once
  threads : List FenceThread
  /-- Raw deadlines that were set, the last one first. -/
  calls : List RawDeadline

def Fence.new (inner : Conn) : Fence :=
  ⟨inner, false, false, false, false, false, false, 0, .idle, [], []⟩

/-- A write asks for its permit. -/
def Fence.beginWrite (live : Bool) (f : Fence) : Fence :=
  if live = false ∨ f.writeActive = true then f
  else { f with
    writeActive := true
    operations := f.operations + 1
    threads := .writing :: f.threads }

def Fence.beginUpdate (live : Bool) (kind : DeadlineKind) (deadline : Option ℤ)
    (f : Fence) : Fence :=
  if live = false ∨ f.deadlineActive = true then f
  else { f with
    deadlineActive := true
    operations := f.operations + 1
    threads := .updating kind deadline .waiting :: f.threads }

/-- An update of a past deadline asks for its permit, live or not. -/
def Fence.beginRevoke (kind : DeadlineKind) (deadline : ℤ) (f : Fence) : Fence :=
  if f.closed = true ∨ f.revokerActive = true then f
  else { f with
    revokerActive := true
    operations := f.operations + 1
    threads := .revoking kind deadline .waiting :: f.threads }

/-- A deadline that is not in the future revokes. -/
def Fence.updateDeadline (live : Bool) (now : ℤ) (kind : DeadlineKind) (deadline : Option ℤ)
    (f : Fence) : Fence :=
  match deadline with
  | some t => if t ≤ now then f.beginRevoke kind t else f.beginUpdate live kind deadline
  | none => f.beginUpdate live kind deadline

/-- The first close executes; the others wait for it. -/
def Fence.beginClose (f : Fence) : Fence :=
  if f.once = .idle then { f with once := .running, threads := .closing .marking :: f.threads }
  else f

def Fence.setRaw (f : Fence) (kind : DeadlineKind) (deadline : Option ℤ) (now : ℤ) : Fence :=
  { f with calls := ⟨kind, deadline, now⟩ :: f.calls }

/-- The thread goes on to another stage. -/
def Fence.goto (f : Fence) (i : ℕ) (thread : FenceThread) : Fence :=
  { f with threads := f.threads.set i thread }

/-- The thread leaves the wait group and ends. -/
def Fence.leave (f : Fence) (i : ℕ) : Fence :=
  { f with operations := f.operations - 1, threads := f.threads.eraseIdx i }

def Fence.advanceUpdate (live fails : Bool) (now : ℤ) (i : ℕ) (kind : DeadlineKind)
    (deadline : Option ℤ) (f : Fence) : UpdateStage → Fence
  | .waiting =>
    if f.deadlineMu then f
    else { f with deadlineMu := true }.goto i (.updating kind deadline .locked)
  | .locked => f.goto i (.updating kind deadline (if live then .setting else .repairing))
  | .setting => (f.setRaw kind deadline now).goto i (.updating kind deadline (.updated fails))
  | .updated failed => f.goto i (.updating kind deadline
      (if live then .leaving (if failed then .failed else .ok) else .repairing))
  | .repairing => (f.setRaw .both (some now) now).goto i
      (.updating kind deadline (.leaving .closed))
  | .leaving result => { f with deadlineMu := false }.goto i
      (.updating kind deadline (.ending result))
  | .ending result => { f with deadlineActive := false }.goto i
      (.updating kind deadline (.ended result))
  | .ended _ => f.leave i

/-- One step of an update of a past deadline. -/
def Fence.advanceRevoke (now : ℤ) (i : ℕ) (kind : DeadlineKind) (deadline : ℤ) (f : Fence) :
    RevokeStage → Fence
  | .waiting =>
    if f.deadlineMu then f
    else { f with deadlineMu := true }.goto i (.revoking kind deadline .locked)
  | .locked => (f.setRaw kind (some deadline) now).goto i (.revoking kind deadline .leaving)
  | .leaving => { f with deadlineMu := false }.goto i (.revoking kind deadline .ending)
  | .ending => { f with revokerActive := false }.goto i (.revoking kind deadline .ended)
  | .ended => f.leave i

/-- One step of a close. The registration is released in its last step. -/
def Fence.advanceClose (now : ℤ) (i : ℕ) (f : Fence) : CloseStage → Fence
  | .marking => { f with closed := true }.goto i (.closing .waiting)
  | .waiting => if f.deadlineMu then f else { f with deadlineMu := true }.goto i (.closing .locked)
  | .locked => (f.setRaw .both (some now) now).goto i (.closing .leaving)
  | .leaving => { f with deadlineMu := false }.goto i (.closing .closing)
  | .closing => f.goto i (.closing .joining)
  | .joining => if f.operations = 0 then f.goto i (.closing .joined) else f
  | .joined => { f with completed := true }.goto i (.closing .releasing)
  | .releasing => { f with once := .done, threads := f.threads.eraseIdx i }

/-- One step of a call in progress. -/
def Fence.advance (live fails : Bool) (now : ℤ) (i : ℕ) (f : Fence) : Fence :=
  match f.threads[i]? with
  | none => f
  | some .writing => { f with writeActive := false }.goto i .written
  | some .written => f.leave i
  | some (.updating kind deadline stage) => f.advanceUpdate live fails now i kind deadline stage
  | some (.revoking kind deadline stage) => f.advanceRevoke now i kind deadline stage
  | some (.closing stage) => f.advanceClose now i stage

end DaxiangVpn.WriteFence
