import DaxiangVpn.FaultyProgram
import DaxiangVpn.HexTexts

/-!
# The system proxy lease of the CLI runtime

The journal of the lease, the group of registry fields it covers, and the manager
that acquires and restores them. Store, adapter and
notification are calls that may fail or crash. The JSON text of the journal is
written out where its size is checked; the store keeps the record it stands for.
-/

namespace DaxiangVpn.SystemProxyLease

open FaultyProgram Program HexTexts

/-! ## Values and journal -/

/-- The registry fields under lease. -/
inductive Field
  | proxyEnable
  | proxyServer
  | proxyOverride
  /-- A proxy script. -/
  | autoConfigURL
  deriving DecidableEq

def allFields : List Field := [.proxyEnable, .proxyServer, .proxyOverride, .autoConfigURL]

/-- Name of a registry value. -/
def Field.name : Field → String
  | .proxyEnable => "ProxyEnable"
  | .proxyServer => "ProxyServer"
  | .proxyOverride => "ProxyOverride"
  | .autoConfigURL => "AutoConfigURL"

/-- A registry type with uninterpreted bytes. -/
structure RawValue where
  kind : ℕ
  bytes : List UInt8
  deriving DecidableEq

structure EngineIdentity where
  instanceID : String
  home : String
  generation : String
  protocolVersion : ℤ
  pid : ℤ
  deriving DecidableEq

structure Owner where
  userScope : String
  home : String
  engine : EngineIdentity
  deriving DecidableEq

structure FieldChange where
  name : Field
  original : Option RawValue
  written : Option RawValue

structure Journal where
  schemaVersion : ℤ
  owner : String
  scope : String
  leaseID : String
  leaseOwner : Owner
  fields : List FieldChange

/-- Errors of the manager, by their codes. -/
inductive Code
  /-- `system_proxy_unconfigured`. -/
  | unconfigured
  /-- `system_proxy_scope_refused`. -/
  | scopeRefused
  /-- `system_proxy_owner_refused`. -/
  | ownerRefused
  /-- `system_proxy_boundary_invalid`. -/
  | boundaryInvalid
  /-- `system_proxy_operation_failed`. -/
  | operationFailed
  /-- `system_proxy_ready_refused`. -/
  | readyRefused
  /-- `system_proxy_journal_read_failed`. -/
  | journalReadFailed
  /-- `system_proxy_journal_invalid`. -/
  | journalInvalid
  /-- `system_proxy_legacy_migration_required`. -/
  | legacyMigrationRequired
  /-- `system_proxy_journal_incompatible`. -/
  | journalIncompatible
  /-- `system_proxy_read_failed`, for a field. -/
  | readFailed (name : Field)
  /-- `system_proxy_ownership_conflict`, for a field. -/
  | ownershipConflict (name : Field)
  /-- `system_proxy_write_failed`, for a field. -/
  | writeFailed (name : Field)
  /-- `system_proxy_notify_failed`. -/
  | notifyFailed
  /-- `system_proxy_lease_busy`. -/
  | leaseBusy
  /-- `system_proxy_lease_settings_changed`. -/
  | leaseSettingsChanged
  /-- `system_proxy_adapter_refused`. -/
  | adapterRefused
  /-- `system_proxy_journal_write_failed`. -/
  | journalWriteFailed
  /-- `system_proxy_lease_refused`. -/
  | leaseRefused
  /-- `system_proxy_journal_remove_failed`. -/
  | journalRemoveFailed

def journalVersion : ℤ := 2

/-- Bound on the journal text. -/
def maxJournalBytes : ℕ := 1 <<< 20

def controlProtocolVersion : ℤ := 1

/-- Lower case hexadecimal text of so many bytes. -/
def exactHex (value : String) (size : ℕ) : Bool := lowerHex (2 * size) value

/-- The owner names its home and a complete engine identity. -/
def validOwner (owner : Owner) : Bool :=
  owner.userScope != "" && owner.home != "" && owner.engine.home == owner.home &&
    exactHex owner.engine.instanceID 16 && exactHex owner.engine.generation 32 &&
    owner.engine.protocolVersion == controlProtocolVersion && decide (0 < owner.engine.pid)

/-! ## Text of the journal -/

def jsonChar (c : Char) : String :=
  if c = '"' then "\\\""
  else if c = '\\' then "\\\\"
  else if c = Char.ofNat 8 then "\\b"
  else if c = Char.ofNat 12 then "\\f"
  else if c = '\n' then "\\n"
  else if c = '\r' then "\\r"
  else if c = '\t' then "\\t"
  else if c.toNat < 32 ∨ c = '<' ∨ c = '>' ∨ c = '&' then "\\u00" ++ encodeHex [UInt8.ofNat c.toNat]
  else if c.toNat = 0x2028 then "\\u2028"
  else if c.toNat = 0x2029 then "\\u2029"
  else c.toString

def jsonString (s : String) : String := "\"" ++ String.join (s.toList.map jsonChar) ++ "\""

/-- An object. The names of its members need no escapes. -/
def jsonObject (members : List (String × String)) : String :=
  "\x7b" ++ String.intercalate "," (members.map fun m => "\"" ++ m.1 ++ "\":" ++ m.2) ++ "\x7d"

def jsonArray (items : List String) : String := "[" ++ String.intercalate "," items ++ "]"

/-- A registry value: bytes are numbers, an absent value is null. -/
def jsonValue : Option RawValue → String
  | none => "null"
  | some value => jsonObject [("kind", toString value.kind),
      ("bytes", jsonArray (value.bytes.map fun b => toString b.toNat))]

def marshal (record : Journal) : String :=
  jsonObject [("schema_version", toString record.schemaVersion), ("owner", jsonString record.owner),
    ("scope", jsonString record.scope), ("lease_id", jsonString record.leaseID),
    ("lease_owner", jsonObject [("user_scope", jsonString record.leaseOwner.userScope),
      ("home", jsonString record.leaseOwner.home),
      ("engine_identity",
      jsonObject [("instance_id", jsonString record.leaseOwner.engine.instanceID),
        ("home", jsonString record.leaseOwner.engine.home),
        ("config_generation", jsonString record.leaseOwner.engine.generation),
        ("control_protocol_version", toString record.leaseOwner.engine.protocolVersion),
        ("pid", toString record.leaseOwner.engine.pid)])]),
    ("fields", jsonArray (record.fields.map fun field => jsonObject
      [("name", jsonString field.name.name), ("original", jsonValue field.original),
        ("written", jsonValue field.written)]))]

/-- The registry type of a value is supported. -/
def kindOk : Option RawValue → Bool
  | none => true
  | some value => decide (value.kind ≤ 11)

/-- What a stored journal must satisfy to be read back. -/
def decode (record : Journal) : Except Code Journal :=
  if maxJournalBytes < (marshal record).utf8ByteSize then .error .journalInvalid
  else if record.schemaVersion = 1 then .error .legacyMigrationRequired
  else if record.schemaVersion ≠ journalVersion then .error .journalIncompatible
  else if record.owner ≠ "cli-runtime" ∨ record.scope ≠ "wininet-hkcu" ∨
      exactHex record.leaseID 16 = false ∨ validOwner record.leaseOwner = false then
    .error .journalIncompatible
  else if record.fields.map FieldChange.name ≠ allFields then .error .journalInvalid
  else if record.fields.any (fun field => !kindOk field.original || !kindOk field.written) then
    .error .journalInvalid
  else .ok record

/-! ## Settings that a lease writes -/

def utf16 (c : Char) : List ℕ :=
  if c.toNat < 0x10000 then [c.toNat]
  else [0xD800 + (c.toNat - 0x10000) / 0x400, 0xDC00 + (c.toNat - 0x10000) % 0x400]

/-- A registry string: little-endian code units and a final zero. -/
def stringValue (s : String) : Option RawValue :=
  some ⟨1, (s.toList.flatMap utf16 ++ [0]).flatMap fun u => [UInt8.ofNat u, UInt8.ofNat (u / 256)]⟩

/-- Hosts that bypass the proxy. -/
def bypass : String :=
  "localhost;*.localhost;127.*;10.*;172.16.*;172.17.*;172.18.*;172.19.*;172.20.*;192.168.*;<local>"

/-- A proxy address that splits into host and port. -/
structure ProxyAddr where
  host : String
  port : ℤ
  loopback : Bool

inductive Phase
  | starting
  | ready
  | stopping
  deriving DecidableEq

/-- An engine as its authority presents it. -/
structure ReadyEngine where
  owner : Owner
  state : Phase
  proxyAddr : Option ProxyAddr
  proxyReachable : Bool

def joinHostPort (host : String) (port : ℤ) : String :=
  if ':' ∈ host.toList then "[" ++ host ++ "]:" ++ toString port else host ++ ":" ++ toString port

/-- The values a lease writes: a local endpoint for every protocol. -/
def desired (ready : ReadyEngine) : Except Code (List (Option RawValue)) :=
  match ready.proxyAddr with
  | none => .error .readyRefused
  | some addr =>
    if addr.port < 1 ∨ 65535 < addr.port ∨ addr.loopback = false then .error .readyRefused
    else
      let address := joinHostPort addr.host addr.port
      .ok [some ⟨4, [1, 0, 0, 0]⟩,
        stringValue ("http=" ++ address ++ ";https=" ++ address ++ ";socks=" ++ address),
        stringValue bypass, none]

/-! ## The manager -/

/-- What the user's settings and journal are. -/
structure World where
  journal : Option Journal
  registry : Field → Option RawValue

/-- What a call reports. -/
structure Receipt where
  leaseID : String
  owner : Option Owner
  noop : Bool
  owned : Bool

/-- The receipt of a call that did not get far. -/
def Receipt.empty : Receipt := ⟨"", none, false, false⟩

/-- The receipt of a restore that found nothing to do. -/
def Receipt.idle : Receipt := ⟨"", none, true, false⟩

/-- The world and the receipt of the running call. -/
structure Machine where
  world : World
  receipt : Receipt

abbrev Managed (α : Type) : Type := Program Machine Code α

def setReceipt (receipt : Receipt) : Managed Unit := modify fun m => { m with receipt := receipt }

/-- How a boundary runs its callback. -/
inductive Boundary
  /-- It returns an error of its own and does not run it. -/
  | refuses
  /-- It runs it so many times and returns its last error. -/
  | invokes (times : ℕ)
  deriving DecidableEq

/-- Run a callback inside a boundary. Only a single invocation acts, and only a
single invocation is reported as a success. -/
def within (boundary : Boundary) (action : Managed Unit) : Managed Unit :=
  match boundary with
  | .refuses => throw .operationFailed
  | .invokes 0 => throw .boundaryInvalid
  | .invokes 1 => action
  | .invokes (_ + 2) => do
    attempt action
    throw .boundaryInvalid

def load : Managed (Option Journal) := do
  let data ← call id (fun m => m.world.journal) .journalReadFailed
  match data with
  | none => pure none
  | some record =>
    let value ← check (decode record)
    pure (some value)

/-- Store a new journal. -/
def create (record : Journal) : Managed Unit :=
  call (fun m => { m with world := { m.world with journal := some record } }) (fun _ => ())
    .journalWriteFailed

/-- Delete the journal. -/
def remove : Managed Unit :=
  call (fun m => { m with world := { m.world with journal := none } }) (fun _ => ())
    .journalRemoveFailed

def read (name : Field) : Managed (Option RawValue) := do
  let value ← call id (fun m => m.world.registry name) (.readFailed name)
  deny (!kindOk value) (.readFailed name)
  pure value

def World.set (w : World) (name : Field) (value : Option RawValue) : World :=
  { w with registry := Function.update w.registry name value }

def write (name : Field) (value : Option RawValue) : Managed Unit :=
  call (fun m => { m with world := m.world.set name value }) (fun _ => ()) (.writeFailed name)

/-- Tell the system that the settings changed. -/
def notify : Managed Unit := call id (fun _ => ()) .notifyFailed

def FieldChange.target (restoring : Bool) (field : FieldChange) : Option RawValue :=
  if restoring then field.original else field.written

/-- A value that is neither of the recorded ones. -/
def FieldChange.foreign (field : FieldChange) (current : Option RawValue) : Bool :=
  decide (current ≠ field.original) && decide (current ≠ field.written)

/-- Refuse settings of somebody else. -/
def preflight (field : FieldChange) : Managed Unit := do
  let current ← read field.name
  deny (field.foreign current) (.ownershipConflict field.name)

/-- Bring one field to its target. -/
def settle (restoring : Bool) (field : FieldChange) : Managed Unit := do
  let current ← read field.name
  if current = field.target restoring then pure ()
  else do
    deny (field.foreign current) (.ownershipConflict field.name)
    write field.name (field.target restoring)
    let after ← read field.name
    deny (decide (after ≠ field.target restoring)) (.ownershipConflict field.name)

/-- Check that a field is at its target. -/
def confirm (restoring : Bool) (field : FieldChange) : Managed Unit := do
  let current ← read field.name
  deny (decide (current ≠ field.target restoring)) (.ownershipConflict field.name)

/-- Bring the group of fields to its targets. -/
def apply (record : Journal) (restoring : Bool) : Managed Unit := do
  forEach preflight record.fields
  forEach (settle restoring) record.fields
  forEach (confirm restoring) record.fields
  notify
  forEach (confirm restoring) record.fields

/-- Identity of the user and the home of a call. -/
structure Scope where
  userScope : String
  homeIdentity : String
  /-- The root is absolute and holds the journal and the lock under their names. -/
  fixedPaths : Bool

/-- Who calls. -/
structure Claim where
  userScope : String
  home : String
  engine : EngineIdentity

/-- What the collaborators of the manager answer during one call. -/
structure Environment where
  /-- Resolver and transactions are configured. -/
  wired : Bool
  /-- The resolver's answer for a home directory. -/
  resolve : String → Option Scope
  /-- Authority and adapter factory are configured. -/
  guarded : Bool
  /-- How the authority runs its callback. -/
  authority : Boundary
  engine : ReadyEngine
  /-- How the transaction boundary runs its callback. -/
  transactions : Boundary
  opens : Bool
  /-- Random bytes of a lease, if there are any. -/
  random : Option (Vector UInt8 16)

def Environment.scope (env : Environment) (home : String) : Except Code Scope :=
  if env.wired = false then .error .unconfigured
  else match env.resolve home with
    | none => .error .scopeRefused
    | some scope =>
      if scope.userScope = "" ∨ scope.homeIdentity = "" ∨ scope.fixedPaths = false then
        .error .scopeRefused
      else .ok scope

def Environment.claim (env : Environment) (claim : Claim) : Except Code Owner := do
  let scope ← env.scope claim.home
  let owner : Owner := ⟨claim.userScope, scope.homeIdentity, claim.engine⟩
  if claim.userScope ≠ scope.userScope ∨ validOwner owner = false then .error .ownerRefused
  else if env.guarded = false then .error .unconfigured
  else .ok owner

def readOriginals : List (Field × Option RawValue) → Managed (List FieldChange)
  | [] => pure []
  | (name, written) :: rest => do
    let original ← read name
    let changes ← readOriginals rest
    pure (⟨name, original, written⟩ :: changes)

def Journal.receipt (record : Journal) (noop : Bool) : Receipt :=
  ⟨record.leaseID, some record.leaseOwner, noop, true⟩

/-- Record a new lease before anything is written. -/
def record (env : Environment) (owner : Owner) (written : List (Option RawValue)) :
    Managed Journal :=
  match env.random with
  | none => throw .journalWriteFailed
  | some id => do
    let changes ← readOriginals (allFields.zip written)
    let record : Journal :=
      ⟨journalVersion, "cli-runtime", "wininet-hkcu", encodeHex id.toList, owner, changes⟩
    deny (decide (maxJournalBytes < (marshal record).utf8ByteSize)) .journalWriteFailed
    setReceipt (record.receipt false)
    create record
    pure record

def acquireLocked (env : Environment) (owner : Owner) (written : List (Option RawValue)) :
    Managed Unit := do
  let found ← load
  match found with
  | some journal =>
    deny (decide (journal.leaseOwner ≠ owner)) .leaseBusy
    deny (decide (journal.fields.map FieldChange.written ≠ written)) .leaseSettingsChanged
    deny (!env.opens) .adapterRefused
    setReceipt (journal.receipt true)
    apply journal false
  | none =>
    deny (!env.opens) .adapterRefused
    let journal ← record env owner written
    setReceipt (journal.receipt false)
    apply journal false

/-- Write the settings of a ready engine under a lease. -/
def acquire (env : Environment) (claim : Claim) : Managed Unit := do
  let owner ← check (env.claim claim)
  within env.authority do
    deny (decide (env.engine.owner ≠ owner) || decide (env.engine.state ≠ .ready) ||
      !env.engine.proxyReachable) .readyRefused
    let written ← check (desired env.engine)
    within env.transactions (acquireLocked env owner written)

def restoreLocked (env : Environment) (owner : Owner) (leaseID : String) (foreignNoop : Bool) :
    Managed Unit := do
  let found ← load
  match found with
  | none => pure ()
  | some journal =>
    if journal.leaseOwner ≠ owner then
      if foreignNoop then pure () else throw .ownerRefused
    else do
      deny (decide (leaseID ≠ "") && decide (leaseID ≠ journal.leaseID)) .leaseRefused
      deny (!env.opens) .adapterRefused
      apply journal true
      remove
      setReceipt (journal.receipt false)

/-- Restore the settings of a lease. Release and recovery differ in their
authority only, which the environment answers for. -/
def restore (env : Environment) (claim : Claim) (leaseID : String) (foreignNoop : Bool) :
    Managed Unit := do
  let owner ← check (env.claim claim)
  setReceipt .idle
  within env.authority (within env.transactions (restoreLocked env owner leaseID foreignNoop))

/-- Restore a lease by its number. -/
def release (env : Environment) (claim : Claim) (leaseID : String) : Managed Unit := do
  deny (!exactHex leaseID 16) .leaseRefused
  restore env claim leaseID false

/-- Restore whatever lease the engine has before it stops. -/
def releaseOwned (env : Environment) (claim : Claim) : Managed Unit := restore env claim "" true

/-- Restore the lease of an engine that is gone. -/
def recover (env : Environment) (claim : Claim) : Managed Unit := restore env claim "" false

/-! ## Calls -/

inductive Call
  | acquire (claim : Claim)
  /-- `Release` with a lease number. -/
  | release (claim : Claim) (leaseID : String)
  | releaseOwned (claim : Claim)
  | recover (claim : Claim)

/-- Who makes the call. -/
def Call.claim : Call → Claim
  | .acquire claim => claim
  | .release claim _ => claim
  | .releaseOwned claim => claim
  | .recover claim => claim

def Call.program (env : Environment) : Call → Managed Unit
  | .acquire claim => SystemProxyLease.acquire env claim
  | .release claim leaseID => SystemProxyLease.release env claim leaseID
  | .releaseOwned claim => SystemProxyLease.releaseOwned env claim
  | .recover claim => SystemProxyLease.recover env claim

/-- A call with the answers and faults it meets. -/
structure Attempt where
  call : Call
  /-- Answers of the collaborators. -/
  env : Environment
  script : List Verdict

/-- What an attempt leaves behind. -/
def Attempt.ended (w : World) (a : Attempt) : Ended Machine Code Unit :=
  a.call.program a.env a.script ⟨w, .empty⟩

def step (w : World) (a : Attempt) : World := (a.ended w).state.world

end DaxiangVpn.SystemProxyLease
