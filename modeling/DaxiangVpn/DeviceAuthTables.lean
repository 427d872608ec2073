import DaxiangVpn.RelationTable
import DaxiangVpn.DeviceAuthPolicy

/-!
# Schema of the device authority

Rows carry every column of the schema. Columns with a `CHECK` over a few texts
are enumerations, columns that must not be negative are naturals, and nullable
columns are options. Next to a digest column stands the value that was hashed, which no
statement reads. The authority tables and the credential registry form one
database.
-/

namespace DaxiangVpn.DeviceAuthTables

open CheckedSteps HexTexts DeviceAuthPolicy RelationTable Bool

/-- `restoreSHA`: the hexadecimal text of a SHA-256 digest. -/
def restoreSHA (v : String) : Bool := lowerHex 64 v

theorem identifier_of_lowerHex {n : ℕ} {v : String} (hpos : 0 < n) (hle : n ≤ 256)
    (h : lowerHex n v = true) : identifier v = true := by
  have hsize := lowerHex_bytes h
  obtain ⟨hlen, hall⟩ := lowerHex_iff.mp h
  have hplain := fun c hc => isHex_plain (hall c hc)
  have hne : v ≠ "" := by
    rintro rfl
    simp at hlen
    omega
  simp only [identifier, and_eq_true, decide_eq_true_eq]
  refine ⟨⟨⟨⟨hne, by omega⟩, ?_⟩, ?_⟩, ?_⟩
  · simp only [Option.all_eq_true]
    intro c hc
    simp [(hplain c (List.mem_of_head? hc)).1]
  · simp only [Option.all_eq_true]
    intro c hc
    simp [(hplain c (List.mem_of_getLast? hc)).1]
  · simp only [not_eq_true', List.any_eq_false]
    intro c hc
    simp [(hplain c hc).2.1]

/-- The text of sixteen random bytes, as the identifier generator returns it. -/
structure OpaqueId where
  /-- Hexadecimal text. -/
  val : String
  /-- The text encodes sixteen bytes. -/
  hex : lowerHex 32 val = true

/-- Desired-state commands. -/
inductive Action
  | apply
  | disable
  | expire
  | revoke
  deriving DecidableEq

/-- `deviceauth_devices.state`. -/
inductive DeviceState
  | active
  | disabled
  | expired
  | revoked
  deriving DecidableEq

/-- `deviceauth_outbox.state`. -/
inductive OutboxState
  | pending
  | degraded
  | done
  | superseded
  deriving DecidableEq

/-- `deviceauth_intents.action`. -/
inductive IntentAction
  | apply
  | remove
  deriving DecidableEq

/-- `deviceauth_intents.state`. -/
inductive IntentState
  | prepared
  | verified
  deriving DecidableEq

/-- What a challenge, a signed request or an audit row is for. -/
inductive Purpose
  | activate
  | command (action : Action)
  | credentialRotate
  | credentialReceipt
  | operationReceipt
  | proxyBootstrap
  | requestResolve
  | operationStatus
  | requestCancel
  deriving DecidableEq

/-- An actor that a trusted caller has authenticated. -/
structure Actor where
  id : String
  ownerId : String
  deriving DecidableEq

/-- `Command`: one desired-state change. -/
structure Command where
  /-- Who asks. -/
  actor : Actor
  deviceId : String
  /-- Requested change. -/
  action : Action
  /-- Key under which the actor repeats the same request. -/
  idempotencyKey : String
  expectedGeneration : ℤ
  /-- WireGuard key of an apply, else empty. -/
  publicKey : String
  /-- Address of an apply, else empty. -/
  address : String
  /-- Free text kept with the tombstones. -/
  reason : String
  deriving DecidableEq

/-- What a client signs to obtain a challenge: the digest of its challenge
body, its nonce and its deadline in seconds. -/
structure ClientProof where
  /-- `ProofDigest`. -/
  digest : String
  /-- `ClientNonce`. -/
  nonce : String
  /-- `ClientExpires`. -/
  expires : ℤ

structure SignedRequest where
  purpose : Purpose
  method : String
  path : String
  bodyDigest : String
  deviceId : String
  /-- Credential, empty for activation. -/
  credentialId : String
  challengeId : String
  nonce : String
  /-- Client's name for the request. -/
  requestId : String
  /-- Expiry of the challenge in seconds. -/
  expires : ℤ
  signature : String

/-- Bytes that are signed, by what they encode. -/
inductive Payload
  /-- `SigningBytes`; the signature field is not part of them. -/
  | request (r : SignedRequest)
  /-- `ChallengeProofBytes`. -/
  | challenge (p : ClientProof)

/-- Hash, signature and JSON functions the package calls. -/
structure Prims where
  requestDigest : Command → String
  proofDigest : ClientProof → String
  /-- Digest text of raw bytes. -/
  bodyDigest : List ℕ → String
  /-- Digest text of `executor-expiry:` with a device and a generation. -/
  expiryDigest : String → ℕ → String
  /-- Ed25519 verification of a canonical signature text under a key text. -/
  verify : String → Payload → String → Bool
  /-- `RestoreStrictJSON` into a policy. -/
  strictPolicy : String → Option Policy
  requestDigest_sha : ∀ c, restoreSHA (requestDigest c) = true
  bodyDigest_sha : ∀ b, restoreSHA (bodyDigest b) = true
  expiryDigest_sha : ∀ d g, restoreSHA (expiryDigest d g) = true

structure ResourceLimits where
  /-- Database size above which nothing is granted. -/
  grantHighWaterBytes : ℤ
  devices : ℤ
  /-- Credentials, revoked ones included. -/
  credentials : ℤ
  /-- Activations, consumed ones included. -/
  activations : ℤ
  requests : ℤ
  audits : ℤ
  cancellations : ℤ
  deriving DecidableEq

/-- One limit: zero takes the default, which no other value may exceed. -/
def normalizeLimit (value default : ℤ) : Except Err ℤ := do
  let value := if value = 0 then default else value
  deny (value ≤ 0 || default < value) .invalid
  pure value

def normalizeResources (r : ResourceLimits) : Except Err ResourceLimits := do
  let grantHighWaterBytes ← normalizeLimit r.grantHighWaterBytes (64 * 2 ^ 20)
  let devices ← normalizeLimit r.devices 10000
  let credentials ← normalizeLimit r.credentials 50000
  let activations ← normalizeLimit r.activations 20000
  let requests ← normalizeLimit r.requests 200000
  let audits ← normalizeLimit r.audits 200000
  let cancellations ← normalizeLimit r.cancellations 20000
  pure ⟨grantHighWaterBytes, devices, credentials, activations, requests, audits, cancellations⟩

theorem normalizeLimit_ok {value default v : ℤ} (h : normalizeLimit value default = .ok v) :
    0 < v ∧ v ≤ default := by
  obtain ⟨hd, h⟩ := deny_bind_ok.mp h
  cases pure_ok.mp h
  simp only [or_eq_false_iff, decide_eq_false_iff_not, not_le, not_lt] at hd
  exact hd

theorem normalizeResources_devices {r r' : ResourceLimits} (h : normalizeResources r = .ok r') :
    0 < r'.devices ∧ r'.devices ≤ 10000 := by
  obtain ⟨_, -, h⟩ := bind_ok.mp h
  obtain ⟨devices, hdev, h⟩ := bind_ok.mp h
  obtain ⟨_, -, h⟩ := bind_ok.mp h
  obtain ⟨_, -, h⟩ := bind_ok.mp h
  obtain ⟨_, -, h⟩ := bind_ok.mp h
  obtain ⟨_, -, h⟩ := bind_ok.mp h
  obtain ⟨_, -, h⟩ := bind_ok.mp h
  cases pure_ok.mp h
  exact normalizeLimit_ok hdev

/-! ## Authority tables -/

/-- `deviceauth_meta`, the one row. -/
structure MetaRow where
  schemaVersion : ℕ
  epoch : String
  /-- Owner mark of managed peers. -/
  managedBy : String
  policyJSON : String
  fencePath : String
  /-- Sequence of claimed executions. -/
  executorFence : ℕ
  deriving DecidableEq

/-- `deviceauth_devices`; the role column only admits customers. -/
structure DeviceRow where
  /-- Primary key. -/
  deviceId : String
  ownerId : String
  state : DeviceState
  /-- End of the authorization in nanoseconds. -/
  validUntil : ℤ
  generation : ℕ
  /-- Last generation whose result was verified. -/
  appliedGeneration : ℕ
  /-- Key that may be a peer now. -/
  currentKey : Option String
  currentAddress : Option String
  deriving DecidableEq

/-- `deviceauth_addresses`: reservations are never recycled. -/
structure AddressRow where
  /-- Primary key. -/
  address : String
  /-- Device that owns the address for good. -/
  deviceId : String
  deriving DecidableEq

/-- `deviceauth_bindings`: every key a device ever had. -/
structure BindingRow where
  publicKey : String
  deviceId : String
  address : String
  /-- Owner mark at creation. -/
  managedBy : String
  createdGeneration : ℕ
  revokedGeneration : ℕ
  /-- Last generation at which its removal was verified, or zero. -/
  removedGeneration : ℕ
  /-- Whether its presence was verified once. -/
  applied : Bool
  deriving DecidableEq

/-- `deviceauth_tombstones`: removal obligations. -/
structure TombstoneRow where
  publicKey : String
  generation : ℕ
  reason : String
  /-- Commit time in nanoseconds. -/
  committedAt : ℤ
  verifiedAt : Option ℤ
  deriving DecidableEq

def TombstoneRow.key (r : TombstoneRow) : String × ℕ := (r.publicKey, r.generation)

/-- `deviceauth_operations`: one row for each accepted command. -/
structure OperationRow where
  /-- Primary key. -/
  operationId : String
  actorId : String
  ownerId : String
  action : Action
  idempotencyKey : String
  requestDigest : String
  deviceId : String
  epoch : String
  generation : ℕ
  committedAt : ℤ
  /-- End of the revocation budget. -/
  deadline : ℤ
  /-- The command that was hashed; no statement reads it. -/
  request : Command
  deriving DecidableEq

/-- `deviceauth_outbox`: the durable job of an operation. -/
structure OutboxRow where
  /-- Primary key. -/
  operationId : String
  /-- Progress of the job. -/
  state : OutboxState
  /-- Number of claims. -/
  attempts : ℕ
  /-- Executor sequence of the last claim. -/
  fence : ℕ
  lastError : String
  verifiedAt : Option ℤ
  deriving DecidableEq

/-- `deviceauth_intents`: actions announced before they are executed. -/
structure IntentRow where
  operationId : String
  publicKey : String
  action : IntentAction
  epoch : String
  generation : ℕ
  /-- Executor sequence of the attempt. -/
  fence : ℕ
  address : String
  /-- Whether the attempt's result was verified. -/
  state : IntentState
  deriving DecidableEq

def IntentRow.key (r : IntentRow) : String × String × IntentAction :=
  (r.operationId, r.publicKey, r.action)

/-- Tables of desired and verified state. -/
structure Authority where
  /-- `deviceauth_meta`. -/
  metaRow : MetaRow
  /-- `deviceauth_devices`. -/
  devices : Table DeviceRow.deviceId
  /-- `deviceauth_addresses`. -/
  addresses : Table AddressRow.address
  /-- `deviceauth_bindings`. -/
  bindings : Table BindingRow.publicKey
  /-- `deviceauth_tombstones`. -/
  tombstones : Table TombstoneRow.key
  /-- `deviceauth_operations`. -/
  operations : Table OperationRow.operationId
  /-- `deviceauth_outbox`. -/
  outbox : Table OutboxRow.operationId
  /-- `deviceauth_intents`. -/
  intents : Table IntentRow.key

/-! ## Credential registry -/

/-- `deviceauth_activations`. -/
structure ActivationRow where
  /-- Primary key. -/
  activationId : String
  /-- Digest of the secret. -/
  verifier : String
  ownerId : String
  /-- End of the future device's authorization. -/
  validUntil : ℤ
  activationUntil : ℤ
  consumedDevice : Option String
  consumedAt : Option ℤ
  deriving DecidableEq

/-- `deviceauth_credentials`. -/
structure CredentialRow where
  /-- Primary key. -/
  credentialId : String
  deviceId : String
  /-- Identity key, unique over all credentials. -/
  publicKey : String
  validUntil : ℤ
  revokedAt : Option ℤ
  /-- Successor after a rotation. -/
  replacedBy : Option String
  deriving DecidableEq

/-- `deviceauth_challenges`: short-lived server nonces. -/
structure ChallengeRow where
  /-- Primary key. -/
  challengeId : String
  nonce : String
  purpose : Purpose
  method : String
  path : String
  bodyDigest : String
  deviceId : String
  credentialId : String
  activationId : String
  /-- Key whose possession was proved. -/
  authPublicKey : String
  expires : ℤ
  clientNonce : String
  proofDigest : String
  receiptRequestId : String
  /-- Kind of that request, when there is one. -/
  receiptKind : Option Purpose
  receiptIdempotencyKey : String
  consumedAt : Option ℤ
  /-- The proof that was hashed; no statement reads it. -/
  proof : ClientProof

/-- `deviceauth_requests`: accepted mutations. -/
structure RequestRow where
  /-- Credential or activation that signed. -/
  principalId : String
  /-- Client's name for the request. -/
  requestId : String
  /-- Time of acceptance. -/
  createdAt : ℤ
  operationId : Option String
  deriving DecidableEq

def RequestRow.key (r : RequestRow) : String × String := (r.principalId, r.requestId)

/-- `deviceauth_credential_receipts`. -/
structure CredentialReceiptRow where
  /-- Activation or rotation. -/
  kind : Purpose
  /-- Client's name for the request. -/
  requestId : String
  publicKey : String
  /-- Credential or activation that signed. -/
  principalId : String
  credentialId : String
  deriving DecidableEq

def CredentialReceiptRow.key (r : CredentialReceiptRow) : Purpose × String × String :=
  (r.kind, r.requestId, r.publicKey)

/-- `deviceauth_cancellations`: negative receipts. -/
structure CancellationRow where
  /-- Credential or activation concerned. -/
  principalId : String
  /-- Request that can no longer commit. -/
  requestId : String
  kind : Purpose
  publicKey : String
  deviceId : String
  idempotencyKey : String
  committedAt : ℤ
  deriving DecidableEq

def CancellationRow.key (r : CancellationRow) : String × String := (r.principalId, r.requestId)

/-- `deviceauth_audit`. -/
structure AuditRow where
  /-- Row number. -/
  id : ℕ
  deviceId : String
  credentialId : String
  /-- What happened. -/
  purpose : Purpose
  /-- Client's name for the request. -/
  requestId : String
  /-- Time of the row. -/
  createdAt : ℤ
  deriving DecidableEq

/-- Tables of identities, challenges and accepted requests. -/
structure Registry where
  /-- `deviceauth_activations`. -/
  activations : Table ActivationRow.activationId
  /-- `deviceauth_credentials`. -/
  credentials : Table CredentialRow.credentialId
  /-- `deviceauth_challenges`. -/
  challenges : Table ChallengeRow.challengeId
  /-- `deviceauth_requests`. -/
  requests : Table RequestRow.key
  /-- `deviceauth_credential_receipts`. -/
  receipts : Table CredentialReceiptRow.key
  /-- `deviceauth_cancellations`. -/
  cancellations : Table CancellationRow.key
  /-- `deviceauth_audit`. -/
  audit : Table AuditRow.id

/-- The whole database. -/
structure DB extends Authority, Registry

/-! ## The store and its database -/

/-- `Store`: the options `New` has checked and normalized. -/
structure Store where
  policy : Policy
  policyJSON : String
  fencePath : String
  resources : ResourceLimits
  /-- Time after which an unverified removal blocks grants, in nanoseconds. -/
  revocationBudget : ℤ
  /-- Hash, signature and JSON functions. -/
  prims : Prims
  policy_normal : normalizePolicy policy = .ok policy
  policy_json : prims.strictPolicy policyJSON = some policy
  /-- The limits are their own normal form. -/
  resources_normal : normalizeResources resources = .ok resources
  budget_pos : 0 < revocationBudget

/-- Largest signed 64-bit integer. -/
def maxInt64 : ℕ := 9223372036854775807

/-- `Time.Unix`: whole seconds of a time in nanoseconds. -/
def unix (t : ℤ) : ℤ := t / 1000000000

/-- A physical database size: page count and page size. -/
structure Disk where
  /-- `PRAGMA page_count`. -/
  pages : ℤ
  /-- `PRAGMA page_size`. -/
  size : ℤ

/-- What became of a transaction that the body did not refuse. -/
inductive WriteOutcome
  /-- Committed, and the caller was told so. -/
  | acknowledged
  /-- Never begun or rolled back; the caller sees an error. -/
  | rolledBack
  /-- Committed, but the caller sees an error. -/
  | unacknowledged

variable {α : Type}

/-- `Store.write`: the caller's result and the database afterwards. -/
def write (o : WriteOutcome) (body : DB → Except Err (α × DB)) (db : DB) :
    Except Err α × DB :=
  match o, body db with
  | .rolledBack, _ => (.error .sql, db)
  | _, .error e => (.error e, db)
  | .acknowledged, .ok (a, db') => (.ok a, db')
  | .unacknowledged, .ok (_, db') => (.error .sql, db')

/-- A transaction leaves the database alone or applies its whole body. -/
theorem write_cases (o : WriteOutcome) (body : DB → Except Err (α × DB)) (db : DB) :
    (write o body db).2 = db ∨ ∃ a, body db = .ok (a, (write o body db).2) := by
  cases hb : body db with
  | error => cases o <;> simp [write, hb]
  | ok r =>
    cases o with
    | acknowledged => exact .inr ⟨r.1, by simp [write, hb]⟩
    | rolledBack => exact .inl (by simp [write])
    | unacknowledged => exact .inr ⟨r.1, by simp [write, hb]⟩

/-- A transaction that reports success has applied its whole body. -/
theorem write_ok {o : WriteOutcome} {body : DB → Except Err (α × DB)} {db db' : DB}
    {a : α} (h : write o body db = (.ok a, db')) : body db = .ok (a, db') := by
  cases hb : body db with
  | error => cases o <;> simp [write, hb] at h
  | ok =>
    cases o with
    | acknowledged => simpa [write, hb, Prod.ext_iff] using h
    | rolledBack => simp [write] at h
    | unacknowledged => simp [write, hb] at h

/-- A transaction that its body refused leaves the database alone. -/
theorem write_error {o : WriteOutcome} {body : DB → Except Err (α × DB)} {db : DB}
    {e : Err} (h : (write o body db).1 = .error e) (he : e ≠ .sql) : (write o body db).2 = db := by
  cases hb : body db with
  | error => cases o <;> simp [write, hb]
  | ok =>
    cases o with
    | acknowledged => simp [write, hb] at h
    | rolledBack => simp [write]
    | unacknowledged =>
      simp only [write, hb, Except.error.injEq] at h
      exact absurd h.symm he

/-- What the environment answers during one call: the clock at each reading,
the time when the call is over, the random identifiers, the outcome of each
transaction and the size of the file. -/
structure Env where
  /-- Readings of the clock in call order, in nanoseconds. -/
  clock : ℕ → ℤ
  /-- Time at the end of the call. -/
  ends : ℤ
  /-- Random identifiers in call order. -/
  ids : ℕ → OpaqueId
  /-- Outcomes of the transactions in call order. -/
  outcome : ℕ → WriteOutcome
  /-- Physical size of the database. -/
  disk : Disk

/-- The database after `New` on an empty file. -/
def emptyDB (s : Store) : DB where
  metaRow := ⟨2, s.policy.epoch, s.policy.managedBy, s.policyJSON, s.fencePath, 0⟩
  devices := .empty
  addresses := .empty
  bindings := .empty
  tombstones := .empty
  operations := .empty
  outbox := .empty
  intents := .empty
  activations := .empty
  credentials := .empty
  challenges := .empty
  requests := .empty
  receipts := .empty
  cancellations := .empty
  audit := .empty

def checkPolicy (s : Store) (db : DB) : Except Err Unit :=
  deny (db.metaRow.schemaVersion ≠ 2 || db.metaRow.epoch ≠ s.policy.epoch ||
    db.metaRow.managedBy ≠ s.policy.managedBy || db.metaRow.policyJSON ≠ s.policyJSON ||
    db.metaRow.fencePath ≠ s.fencePath) .policy

/-- The transaction of `New`: create the schema once, then check the policy. -/
def newTx (s : Store) (file : Option DB) : Except Err DB := do
  let db := file.getD (emptyDB s)
  checkPolicy s db
  pure db

def grantResources (s : Store) (disk : Disk) (db : DB) : Except Err Unit := do
  deny (disk.size ≤ 0 || s.resources.grantHighWaterBytes / disk.size ≤ disk.pages) .quota
  deny (s.resources.devices ≤ db.devices.rows.length) .quota
  deny (s.resources.credentials ≤ db.credentials.rows.length) .quota
  deny (s.resources.activations ≤ db.activations.rows.length) .quota
  deny (s.resources.requests ≤ db.requests.rows.length) .quota
  deny (s.resources.audits ≤ db.audit.rows.length) .quota

/-- `deviceRow`: a device as the package reads it, with empty texts for nulls. -/
structure Device where
  /-- Primary key. -/
  id : String
  ownerId : String
  state : DeviceState
  /-- End of the authorization. -/
  validUntil : ℤ
  generation : ℕ
  /-- Last verified generation. -/
  appliedGeneration : ℕ
  publicKey : String
  address : String

def DeviceRow.device (r : DeviceRow) : Device :=
  ⟨r.deviceId, r.ownerId, r.state, r.validUntil, r.generation, r.appliedGeneration,
    r.currentKey.getD "", r.currentAddress.getD ""⟩

def deviceRow (db : DB) (id : String) : Except Err Device :=
  demand ((db.devices.find id).map DeviceRow.device) .noRows

/-- `Operation`: an operation joined with its outbox row. -/
structure Operation where
  /-- Primary key. -/
  id : String
  deviceId : String
  action : Action
  epoch : String
  /-- Progress of the job. -/
  state : OutboxState
  generation : ℕ
  /-- Executor sequence. -/
  fence : ℕ
  /-- Number of claims. -/
  attempts : ℕ
  lastError : String
  /-- End of the revocation budget. -/
  deadline : ℤ

def operationRow (db : DB) (id : String) : Except Err Operation := do
  let o ← demand (db.operations.find id) .noRows
  let b ← demand (db.outbox.find id) .noRows
  pure ⟨o.operationId, o.deviceId, o.action, o.epoch, b.state, o.generation, b.fence, b.attempts,
    b.lastError, o.deadline⟩

end DaxiangVpn.DeviceAuthTables
