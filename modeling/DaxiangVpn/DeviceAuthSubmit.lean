import DaxiangVpn.DeviceAuthTables

/-!
# Enrollment, desired-state commands and deadlines

The transactions that write desired state. A command is checked, admitted
against the device row, answered from its idempotency record when it repeats,
and otherwise committed as one new generation. Expiry is such a command,
submitted under the held fence.
-/

namespace DaxiangVpn.DeviceAuthSubmit

open CheckedSteps DeviceAuthPolicy RelationTable DeviceAuthTables

/-- First instant after the year 2200, in nanoseconds. -/
def year2201 : ℤ := 7289654400 * 1000000000

structure Enrollment where
  deviceId : String
  ownerId : String
  /-- Must be `customer`. -/
  role : String
  validUntil : ℤ

def freshDevice (deviceId ownerId : String) (validUntil : ℤ) : DeviceRow :=
  ⟨deviceId, ownerId, .active, validUntil, 0, 0, none, none⟩

variable (s : Store) (env : Env) (now : ℤ) (disk : Disk) (cmd : Command)

/-- Body of `Store.Enroll`. -/
def enroll (e : Enrollment) (db : DB) : Except Err (Unit × DB) := do
  deny (!identifier e.deviceId || !identifier e.ownerId || e.role ≠ "customer" ||
    e.validUntil ≤ env.clock 0 || year2201 ≤ e.validUntil) .invalid
  checkPolicy s db
  grantResources s env.disk db
  let devices ← demand (db.devices.insert (freshDevice e.deviceId e.ownerId e.validUntil)) .conflict
  pure ((), { db with devices := devices })

/-- The checks of a command before its transaction; an apply gets its address
in canonical text. -/
def normalizeCommand (s : Store) (cmd : Command) : Except Err Command := do
  deny (!identifier cmd.actor.id || !identifier cmd.actor.ownerId || !identifier cmd.deviceId ||
    !identifier cmd.idempotencyKey || cmd.expectedGeneration < 0 ||
    1024 < cmd.reason.utf8ByteSize) .invalid
  if cmd.action = .apply then do
    deny (!validKey cmd.publicKey) .invalid
    let address ← s.policy.address cmd.publicKey cmd.address
    pure { cmd with address := address }
  else do
    deny (cmd.publicKey ≠ "" || cmd.address ≠ "") .invalid
    pure cmd

/-- Whether the job still has work to do. -/
def unfinished (x : OutboxRow) : Bool := x.state = .pending || x.state = .degraded

/-- Whether an overdue job or an overdue unverified removal blocks grants. -/
def overdue (deviceId : String) (db : DB) : Bool :=
  db.operations.has (fun o => o.deviceId = deviceId && o.deadline ≤ now &&
    db.outbox.has fun x => x.operationId = o.operationId && unfinished x) ||
  db.tombstones.has (fun t => t.verifiedAt = none && t.committedAt ≤ now - s.revocationBudget &&
    db.bindings.has fun b => b.publicKey = t.publicKey && b.deviceId = deviceId)

/-- Grant ceilings and overdue work, which only an apply must respect. -/
def admitGrant (d : Device) (db : DB) :
    Except Err Unit :=
  if cmd.action = .apply then do
    grantResources s disk db
    deny (overdue s now d.id db) .overdue
  else pure ()

/-- Authorization of a command against the device row, before any
idempotency record is consulted. -/
def admitCommand (d : Device) (db : DB) :
    Except Err Unit := do
  deny (d.ownerId ≠ cmd.actor.ownerId) .unauthorized
  deny (cmd.action = .apply ∧ d.state ≠ .active) .unauthorized
  deny (cmd.action = .apply ∧ d.validUntil ≤ now) .expired
  admitGrant s now disk cmd d db
  deny (cmd.action = .expire ∧ now < d.validUntil) .invalid

/-- Reserve the address of an apply, after the key and address conflicts. -/
def reserveAddress (d : Device) (db : Authority) :
    Except Err (Table AddressRow.address) :=
  if cmd.action = .apply then do
    deny (4096 ≤ db.bindings.count fun b => b.deviceId = d.id) .invalid
    deny (db.bindings.find cmd.publicKey).isSome .conflict
    match db.addresses.find cmd.address with
    | some a => do
      deny (a.deviceId ≠ d.id) .conflict
      pure db.addresses
    | none => demand (db.addresses.insert ⟨cmd.address, d.id⟩) .sql
  else pure db.addresses

/-- State that a command asks for. -/
def desiredState : Action → DeviceState
  | .apply => .active
  | .disable => .disabled
  | .expire => .expired
  | .revoke => .revoked

/-- Only a revocation asks for a revoked device. -/
theorem desiredState_revoked {action : Action} (h : desiredState action = .revoked) :
    action = .revoke := by
  cases action with
  | revoke => rfl
  | apply | disable | expire => cases h

/-- The state after a command; a revoked device stays so. -/
def nextState (d : Device) : DeviceState :=
  if d.state = .revoked then .revoked else desiredState cmd.action

def newTombstones (d : Device) (generation : ℕ) (db : Authority) :
    List TombstoneRow :=
  (db.bindings.select fun b => b.deviceId = d.id && b.revokedGeneration = 0).map fun b =>
    ⟨b.publicKey, generation, cmd.reason, now, none⟩

/-- A binding after the device's unrevoked keys were revoked. -/
def revokeBinding (d : Device) (generation : ℕ) (b : BindingRow) : BindingRow :=
  if b.deviceId = d.id ∧ b.revokedGeneration = 0 then { b with revokedGeneration := generation }
  else b

def revokeBindings (d : Device) (generation : ℕ) (db : Authority) : Table BindingRow.publicKey :=
  db.bindings.update (fun _ => true) (revokeBinding d generation) fun b => by
    unfold revokeBinding
    split <;> rfl

/-- The binding that an apply adds. -/
def newBinding (d : Device) (generation : ℕ) : BindingRow :=
  ⟨cmd.publicKey, d.id, cmd.address, s.policy.managedBy, generation, 0, 0, false⟩

/-- Add the key of an apply; the partial index admits one unrevoked key. -/
def addBinding (d : Device) (generation : ℕ)
    (bindings : Table BindingRow.publicKey) : Except Err (Table BindingRow.publicKey) :=
  if cmd.action = .apply then do
    deny (bindings.has fun b => b.deviceId = d.id && b.revokedGeneration = 0) .sql
    demand (bindings.insert (newBinding s cmd d generation)) .sql
  else pure bindings

def advanceDevice (d : Device) (generation : ℕ) (r : DeviceRow) : DeviceRow :=
  { r with
    state := nextState cmd d
    generation := generation
    currentKey := if cmd.action = .apply then some cmd.publicKey else none
    currentAddress := if cmd.action = .apply then some cmd.address else none }

/-- Whether the job belongs to an earlier generation of the device. -/
def outdated (d : Device) (generation : ℕ) (db : Authority) (x : OutboxRow) : Bool :=
  unfinished x && db.operations.has fun o =>
    o.operationId = x.operationId && o.deviceId = d.id && o.generation < generation

/-- Jobs of earlier generations of the device have nothing left to do. -/
def supersedeJobs (d : Device) (generation : ℕ) (db : Authority) : Table OutboxRow.operationId :=
  db.outbox.update (outdated d generation db)
    (fun x => { x with state := .superseded }) fun _ => rfl

def newOperation (id : String) (cmd : Command) (d : Device)
    (generation : ℕ) : OperationRow :=
  ⟨id, cmd.actor.id, cmd.actor.ownerId, cmd.action, cmd.idempotencyKey, s.prims.requestDigest cmd,
    d.id, s.policy.epoch, generation, now, now + s.revocationBudget, cmd⟩

/-- Commit a new generation. -/
def commitCommand (id : String) (cmd : Command) (d : Device) (db : Authority) :
    Except Err Authority := do
  deny (d.generation ≠ cmd.expectedGeneration) .generation
  deny (d.generation = maxInt64) .generation
  let generation := d.generation + 1
  let addresses ← reserveAddress cmd d db
  let tombstones ← demand (db.tombstones.insertAll (newTombstones now cmd d generation db)) .sql
  let bindings ← addBinding s cmd d generation (revokeBindings d generation db)
  let devices := db.devices.update (fun r => r.deviceId = d.id && r.generation = d.generation)
    (advanceDevice cmd d generation) fun _ => rfl
  let operations ← demand (db.operations.insert (newOperation s now id cmd d generation)) .sql
  let outbox ← demand ((supersedeJobs d generation db).insert ⟨id, .pending, 0, 0, "", none⟩) .sql
  pure { db with
    addresses := addresses
    tombstones := tombstones
    bindings := bindings
    devices := devices
    operations := operations
    outbox := outbox }

/-- Operation recorded under the command's actor, action and idempotency key. -/
def recordedOperation (db : Authority) : Option OperationRow :=
  db.operations.rows.find? fun o =>
    o.actorId = cmd.actor.id && o.action = cmd.action && o.idempotencyKey = cmd.idempotencyKey

/-- The transaction of `submitChecked`. The two hooks run before the device is
read and after the operation is known; both belong to the transaction. -/
def submitTx (id : OpaqueId) (check : DB → Except Err DB)
    (complete : Operation → DB → DB) (cmd : Command) (db : DB) : Except Err (Operation × DB) := do
  checkPolicy s db
  let db ← check db
  let d ← deviceRow db cmd.deviceId
  admitCommand s now disk cmd d db
  match recordedOperation cmd db.toAuthority with
  | some old => do
    deny (old.requestDigest ≠ s.prims.requestDigest cmd) .conflict
    let op ← operationRow db old.operationId
    pure (op, complete op db)
  | none => do
    let authority ← commitCommand s now id.val cmd d db.toAuthority
    let db := { db with toAuthority := authority }
    let op ← operationRow db id.val
    pure (op, complete op db)

/-- Mark the unfinished jobs of a device after an overdue grant was refused. -/
def degradeOverdue (deviceId : String) (db : DB) : Except Err (Unit × DB) := do
  checkPolicy s db
  pure ((), { db with
    outbox := db.outbox.update
      (fun x => unfinished x && db.operations.has fun o =>
        o.operationId = x.operationId && o.deviceId = deviceId)
      (fun x => { x with state := .degraded, lastError := "deadline_exceeded" }) fun _ => rfl })

/-- The end of `submitChecked`: a refused overdue grant marks the unfinished
jobs in a second transaction. -/
def markOverdue (deviceId : String) :
    Except Err Operation × DB → Except Err Operation × DB
  | (.error .overdue, db) =>
    let marked := write (env.outcome 1) (degradeOverdue s deviceId) db
    (marked.1.bind fun _ => .error .overdue, marked.2)
  | result => result

/-- `submitChecked`: the reply and the database after it. -/
def submitChecked (check : DB → Except Err DB)
    (complete : Operation → DB → DB) (cmd : Command) (db : DB) : Except Err Operation × DB :=
  match normalizeCommand s cmd with
  | .error e => (.error e, db)
  | .ok cmd => markOverdue s env cmd.deviceId
      (write (env.outcome 0) (submitTx s now env.disk (env.ids 0) check complete cmd) db)

def submit (db : DB) : Except Err Operation × DB :=
  submitChecked s env (env.clock 0) pure (fun _ db => db) cmd db

/-- The command that `expireLocked` submits. -/
def expiryCommand (d : Device) : Command :=
  ⟨⟨"deviceauth-expiry-reconciler", d.ownerId⟩, d.id, .expire,
    s.prims.expiryDigest d.id d.generation, d.generation, "", "",
    "authorization deadline reached during reconciliation"⟩

/-- Mark the job of an expiry that was observed during reconciliation. -/
def signalExpiry (operationId : String) (db : DB) : Except Err (Unit × DB) :=
  .ok ((), { db with
    outbox := db.outbox.update (fun x => x.operationId = operationId && x.state = .pending)
      (fun x => { x with state := .degraded, lastError := "expired_during_execution" })
      fun _ => rfl })

/-- `expireLocked`: submit the expiry, then signal it. The result is the
error that the caller returns. -/
def expireLocked (d : Device) (db : DB) : Err × DB :=
  match submit s env (expiryCommand s d) db with
  | (.error _, db') => (.executionUnknown, db')
  | (.ok op, db') =>
    match write (env.outcome 2) (signalExpiry op.id) db' with
    | (.error _, db'') => (.executionUnknown, db'')
    | (.ok _, db'') => (.expired, db'')

/-- The loop of `SweepExpiry`; it stops at the first device that does not end
as expired. Every device meets its own environment. -/
def sweepDevices (s : Store) (envs : ℕ → Env) : ℕ → List String → DB → Except Err Unit × DB
  | _, [], db => (.ok (), db)
  | k, id :: rest, db =>
    match deviceRow db id with
    | .error e => (.error e, db)
    | .ok d =>
      let result := expireLocked s (envs k) d db
      if result.1 = .expired then sweepDevices s envs (k + 1) rest result.2
      else (.error result.1, result.2)

/-- Devices that `SweepExpiry` selects, in key order. -/
def expiredDevices (db : DB) : List String :=
  ((db.devices.select fun r => r.state = .active && r.validUntil ≤ now).map
    DeviceRow.deviceId).insertionSort (· ≤ ·)

def sweepExpiry (envs : ℕ → Env) (db : DB) : Except Err Unit × DB :=
  sweepDevices s envs 0 (expiredDevices (env.clock 0) db) db

/-- Body of `Store.RefreshDeadlines`. -/
def refreshDeadlines (db : DB) : Except Err (Unit × DB) := do
  checkPolicy s db
  pure ((), { db with
    outbox := db.outbox.update
      (fun x => unfinished x && x.lastError ≠ "deadline_exceeded" && db.operations.has fun o =>
        o.operationId = x.operationId && (o.deadline ≤ env.clock 0 ||
          db.tombstones.has fun t => t.verifiedAt = none &&
            t.committedAt ≤ env.clock 0 - s.revocationBudget &&
            db.bindings.has fun b => b.publicKey = t.publicKey && b.deviceId = o.deviceId))
      (fun x => { x with state := .degraded, lastError := "deadline_exceeded" }) fun _ => rfl })

end DaxiangVpn.DeviceAuthSubmit
