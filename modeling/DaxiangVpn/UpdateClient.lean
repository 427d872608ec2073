import DaxiangVpn.TransitionRun
import DaxiangVpn.UpdateVerify

/-!
# The offline update client

The client keeps a registration and a state in two private files of a home. A command loads both,
checks its inputs and commits a new state. A commit that reports an error may have taken effect.
-/

namespace DaxiangVpn.UpdateClient

open CheckedSteps StrictJson UpdateVerify UpdateVersions

/-! ## Records -/

def maxPolicyBytes : ℕ := 16 * 1024

def maxStateBytes : ℕ := 64 * 1024

structure PolicyKey where
  id : String
  publicKey : String
  validFrom : ℤ
  validUntil : ℤ
  minSequence : ℕ
  maxSequence : ℕ

structure PolicyDocument where
  schemaVersion : ℤ
  revision : ℕ
  scope : Scope
  minVersion : String
  minProtocol : ℕ
  maxProtocol : ℕ
  minSequence : ℕ
  securityFloor : ℕ
  maxArtifactSize : ℤ
  maxValiditySeconds : ℤ
  keys : List PolicyKey

structure Floors where
  minVersion : String
  minProtocol : ℕ
  minSequence : ℕ
  securityFloor : ℕ
  securityVersion : ℕ
  deriving DecidableEq

structure Registration where
  schemaVersion : ℤ
  id : String
  scope : Scope
  initialRevision : ℕ
  /-- Hash of the first policy. -/
  initialSHA256 : String
  initialPolicyJSON : String
  deriving DecidableEq

structure State where
  schemaVersion : ℤ
  id : String
  scope : Scope
  policyRevision : ℕ
  policySHA256 : String
  policyJSON : String
  floors : Floors
  /-- A receipt is stored. -/
  hasPrevious : Bool
  previous : Option Receipt
  deriving DecidableEq

inductive Failure
  | commandCancelled
  | alreadyRegistered
  | registrationRequired
  | registrationIncomplete
  | localStorageFailure
  | corruptState
  | scopeMismatch
  | invalidInputFile
  | policyApprovalMismatch
  | invalidPolicy
  | policyRevisionRefused
  | artifactRefused
  | refused (e : Err)
  | commitUnknown
  deriving DecidableEq

/-! ## Files -/

def scopeShape : Shape :=
  record [("product", .text), ("platform", .text), ("architecture", .text), ("channel", .text)] []

def encodeScope (s : Scope) : Json :=
  obj [("product", .string s.product), ("platform", .string s.platform),
    ("architecture", .string s.architecture), ("channel", .string s.channel)]

/-- A scope from a value. -/
def decodeScope (j : Json) : Option Scope := do
  let product ← (← j.get "product").text?
  let platform ← (← j.get "platform").text?
  let architecture ← (← j.get "architecture").text?
  let channel ← (← j.get "channel").text?
  pure ⟨product, platform, architecture, channel⟩

def metadataShape : Shape :=
  record [("product", .text), ("platform", .text), ("architecture", .text), ("channel", .text),
    ("version", .text), ("protocol", .number), ("source_commit", .text), ("artifact_name", .text),
    ("artifact_size", .number), ("artifact_sha256", .text), ("issued_at", .number),
    ("expires_at", .number), ("release_sequence", .number), ("security_version", .number),
    ("security_floor", .number)] []

/-- Metadata from a value. -/
def decodeMetadataFields (j : Json) : Option Metadata := do
  let product ← (← j.get "product").text?
  let platform ← (← j.get "platform").text?
  let architecture ← (← j.get "architecture").text?
  let channel ← (← j.get "channel").text?
  let version ← (← j.get "version").text?
  let protocol ← (← j.get "protocol").uint?
  let sourceCommit ← (← j.get "source_commit").text?
  let artifactName ← (← j.get "artifact_name").text?
  let artifactSize ← (← j.get "artifact_size").int?
  let artifactSHA256 ← (← j.get "artifact_sha256").text?
  let issuedAt ← (← j.get "issued_at").int?
  let expiresAt ← (← j.get "expires_at").int?
  let releaseSequence ← (← j.get "release_sequence").uint?
  let securityVersion ← (← j.get "security_version").uint?
  let securityFloor ← (← j.get "security_floor").uint?
  pure ⟨product, platform, architecture, channel, version, protocol, sourceCommit,
  artifactName, artifactSize,
    artifactSHA256, issuedAt, expiresAt, releaseSequence, securityVersion, securityFloor⟩

def receiptShape : Shape :=
  record [("schema_version", .number), ("status", .text), ("key_id", .text),
  ("metadata_sha256", .text),
    ("metadata", metadataShape), ("verified_at", .number), ("idempotent", .flag)] []

def encodeReceipt (r : Receipt) : Json :=
  obj [("schema_version", ofInt r.schemaVersion), ("status", .string r.status),
  ("key_id", .string r.keyID),
    ("metadata_sha256", .string r.metadataSHA256), ("metadata", encodeMetadata r.metadata),
    ("verified_at", ofInt r.verifiedAt), ("idempotent", .bool r.idempotent)]

/-- A receipt from a value. -/
def decodeReceipt (j : Json) : Option Receipt := do
  let schemaVersion ← (← j.get "schema_version").int?
  let status ← (← j.get "status").text?
  let keyID ← (← j.get "key_id").text?
  let metadataSHA256 ← (← j.get "metadata_sha256").text?
  let metadata ← decodeMetadataFields (← j.get "metadata")
  let verifiedAt ← (← j.get "verified_at").int?
  let idempotent ← (← j.get "idempotent").flag?
  pure ⟨schemaVersion, status, keyID, metadataSHA256, metadata, verifiedAt, idempotent⟩

def floorsShape : Shape :=
  record [("min_version", .text), ("min_protocol", .number), ("min_sequence", .number),
    ("security_floor", .number), ("security_version", .number)] []

def encodeFloors (f : Floors) : Json :=
  obj [("min_version", .string f.minVersion), ("min_protocol", ofNat f.minProtocol),
    ("min_sequence", ofNat f.minSequence), ("security_floor", ofNat f.securityFloor),
    ("security_version", ofNat f.securityVersion)]

/-- Floors from a value. -/
def decodeFloors (j : Json) : Option Floors := do
  let minVersion ← (← j.get "min_version").text?
  let minProtocol ← (← j.get "min_protocol").uint?
  let minSequence ← (← j.get "min_sequence").uint?
  let securityFloor ← (← j.get "security_floor").uint?
  let securityVersion ← (← j.get "security_version").uint?
  pure ⟨minVersion, minProtocol, minSequence, securityFloor, securityVersion⟩

def registrationShape : Shape :=
  record [("schema_version", .number), ("registration_id", .text), ("scope", scopeShape),
    ("initial_policy_revision", .number), ("initial_policy_sha256", .text),
    ("initial_policy_json", .text)] []

def encodeRegistration (a : Registration) : Json :=
  obj [("schema_version", ofInt a.schemaVersion), ("registration_id", .string a.id),
    ("scope", encodeScope a.scope), ("initial_policy_revision", ofNat a.initialRevision),
    ("initial_policy_sha256", .string a.initialSHA256),
    ("initial_policy_json", .string a.initialPolicyJSON)]

/-- A registration from a value. -/
def decodeRegistration (j : Json) : Option Registration := do
  let schemaVersion ← (← j.get "schema_version").int?
  let id ← (← j.get "registration_id").text?
  let scope ← decodeScope (← j.get "scope")
  let initialRevision ← (← j.get "initial_policy_revision").uint?
  let initialSHA256 ← (← j.get "initial_policy_sha256").text?
  let initialPolicyJSON ← (← j.get "initial_policy_json").text?
  pure ⟨schemaVersion, id, scope, initialRevision, initialSHA256, initialPolicyJSON⟩

def stateShape : Shape :=
  record [("schema_version", .number), ("registration_id", .text), ("scope", scopeShape),
    ("policy_revision", .number), ("policy_sha256", .text), ("policy_json", .text),
    ("floors", floorsShape), ("has_previous", .flag)] [("previous", receiptShape)]

/-- The member of a receipt is left out when there is none. -/
def encodePrevious : Option Receipt → List (String × Json)
  | none => []
  | some r => [("previous", encodeReceipt r)]

def encodeState (st : State) : Json :=
  obj ([("schema_version", ofInt st.schemaVersion), ("registration_id", .string st.id),
    ("scope", encodeScope st.scope), ("policy_revision", ofNat st.policyRevision),
    ("policy_sha256", .string st.policySHA256), ("policy_json", .string st.policyJSON),
    ("floors", encodeFloors st.floors), ("has_previous", .bool st.hasPrevious)] ++
      encodePrevious st.previous)

/-- A receipt from the member, if it is there. -/
def decodePrevious : Option Json → Option (Option Receipt)
  | none => some none
  | some j => (decodeReceipt j).map some

/-- A state from a value. -/
def decodeState (j : Json) : Option State := do
  let schemaVersion ← (← j.get "schema_version").int?
  let id ← (← j.get "registration_id").text?
  let scope ← decodeScope (← j.get "scope")
  let policyRevision ← (← j.get "policy_revision").uint?
  let policySHA256 ← (← j.get "policy_sha256").text?
  let policyJSON ← (← j.get "policy_json").text?
  let floors ← decodeFloors (← j.get "floors")
  let hasPrevious ← (← j.get "has_previous").flag?
  let previous ← decodePrevious (j.get "previous")
  pure ⟨schemaVersion, id, scope, policyRevision, policySHA256, policyJSON, floors,
  hasPrevious, previous⟩

/-- Fields of a key of a policy. -/
def keyShape : Shape :=
  record [("key_id", .text), ("public_key", .text), ("valid_from", .number),
  ("valid_until", .number),
    ("min_sequence", .number), ("max_sequence", .number)] []

/-- A key from a value. -/
def decodePolicyKey (j : Json) : Option PolicyKey := do
  let id ← (← j.get "key_id").text?
  let publicKey ← (← j.get "public_key").text?
  let validFrom ← (← j.get "valid_from").int?
  let validUntil ← (← j.get "valid_until").int?
  let minSequence ← (← j.get "min_sequence").uint?
  let maxSequence ← (← j.get "max_sequence").uint?
  pure ⟨id, publicKey, validFrom, validUntil, minSequence, maxSequence⟩

def policyShape : Shape :=
  record [("schema_version", .number), ("policy_revision", .number), ("scope", scopeShape),
    ("min_version", .text), ("min_protocol", .number), ("max_protocol", .number),
    ("min_sequence", .number), ("security_floor", .number), ("max_artifact_size", .number),
    ("max_validity_seconds", .number), ("keys", .list (some 16) keyShape)] []

/-- A policy from a value. -/
def decodePolicyDocument (j : Json) : Option PolicyDocument := do
  let schemaVersion ← (← j.get "schema_version").int?
  let revision ← (← j.get "policy_revision").uint?
  let scope ← decodeScope (← j.get "scope")
  let minVersion ← (← j.get "min_version").text?
  let minProtocol ← (← j.get "min_protocol").uint?
  let maxProtocol ← (← j.get "max_protocol").uint?
  let minSequence ← (← j.get "min_sequence").uint?
  let securityFloor ← (← j.get "security_floor").uint?
  let maxArtifactSize ← (← j.get "max_artifact_size").int?
  let maxValiditySeconds ← (← j.get "max_validity_seconds").int?
  let items ← (← j.get "keys").items?
  let keys ← items.mapM decodePolicyKey
  pure ⟨schemaVersion, revision, scope, minVersion, minProtocol, maxProtocol,
  minSequence, securityFloor,
    maxArtifactSize, maxValiditySeconds, keys⟩

/-- Bounds of `jsonValue`: depth eight, and no value after more than `4096` members. -/
def limits : Limits := ⟨8, some 4096, none⟩

/-! ## Policies and floors -/

/-- What the client takes from libraries. -/
structure Prims (File : Type) where
  verifier : UpdateVerify.Prims
  codec : Codec File
  readPolicy : String → Option Json
  /-- `base64.StdEncoding.DecodeString`. -/
  decodeBase64 : String → Option Bytes
  /-- `base64.StdEncoding.EncodeToString`. -/
  encodeBase64 : Bytes → String
  /-- `hex.EncodeToString` of sixteen bytes. -/
  newID : Bytes → String
  /-- A name is hexadecimal text of sixteen bytes. -/
  newID_hex : ∀ random, exactHex (newID random) 16 = true

def bytes (s : String) : Bytes := s.toUTF8.data.toList

def text (raw : Bytes) : Option String := String.fromUTF8? ⟨raw.toArray⟩

def safeRevision (revision : ℕ) : Bool := 0 < revision ∧ revision ≤ maxSafeInteger

def compareVersions (left right : String) : Option Ordering := do
  let a ← parseVersion left
  let b ← parseVersion right
  pure (compareVersion a b)

def atLeastVersion (value floor : String) : Bool :=
  (compareVersions value floor).any fun o => o ≠ .lt

def maxVersion (a b : String) : String := if atLeastVersion a b then a else b

def policyFloors (p : Policy) : Floors :=
  ⟨p.minVersion, p.minProtocol, p.minSequence, p.securityFloor, p.securityFloor⟩

def receiptFloors (r : Receipt) : Floors :=
  ⟨r.metadata.version, 0, r.metadata.releaseSequence, r.metadata.securityFloor,
    r.metadata.securityVersion⟩

def mergeFloors (a b : Floors) : Floors :=
  ⟨maxVersion a.minVersion b.minVersion, max a.minProtocol b.minProtocol,
    max a.minSequence b.minSequence, max a.securityFloor b.securityFloor,
    max a.securityVersion b.securityVersion⟩

def equalFloors (a b : Floors) : Bool :=
  compareVersions a.minVersion b.minVersion = some .eq ∧ a.minProtocol = b.minProtocol ∧
    a.minSequence = b.minSequence ∧ a.securityFloor = b.securityFloor ∧
    a.securityVersion = b.securityVersion

def policyNotBelow (p : Policy) (floor : Floors) : Bool :=
  atLeastVersion p.minVersion floor.minVersion && decide (floor.minProtocol ≤ p.minProtocol) &&
    decide (floor.minSequence ≤ p.minSequence) && decide (floor.securityFloor ≤ p.securityFloor)

def effectivePolicy (p : Policy) (floor : Floors) : Policy :=
  { p with minVersion := maxVersion p.minVersion floor.minVersion
           minProtocol := max p.minProtocol floor.minProtocol
           minSequence := max p.minSequence floor.minSequence
           securityFloor := max p.securityFloor floor.securityFloor }

section

variable {File : Type} (s : Prims File)

def hash (raw : Bytes) : String := s.verifier.digest raw

/-- The key of a policy, with its public key in the only base64 form. -/
def policyKey (key : PolicyKey) : Option Key := do
  let pub ← s.decodeBase64 key.publicKey
  if pub.length = 32 ∧ s.encodeBase64 pub = key.publicKey then
    some ⟨key.id, pub, key.validFrom, key.validUntil, key.minSequence, key.maxSequence⟩
  else none

def validDocument (doc : PolicyDocument) : Bool :=
  doc.schemaVersion = 1 && safeRevision doc.revision && validScope doc.scope &&
    !(doc.maxValiditySeconds < 1 ∨ UpdateVerify.maxValidity / second < doc.maxValiditySeconds)

def documentPolicy (doc : PolicyDocument) (keys : List Key) : Policy :=
  ⟨doc.scope, doc.minVersion, doc.minProtocol, doc.maxProtocol, doc.minSequence, doc.securityFloor,
    doc.maxArtifactSize, doc.maxValiditySeconds * second, keys⟩

def decodePolicy (raw : String) : Option (PolicyDocument × Policy) := do
  let doc ← strictDecode ⟨s.readPolicy, String.utf8ByteSize⟩ maxPolicyBytes limits policyShape
    decodePolicyDocument raw
  if validDocument doc then
    let keys ← doc.keys.mapM (policyKey s)
    if validatePolicy s.verifier (documentPolicy doc keys) then some (doc, documentPolicy doc keys)
    else none
  else none

/-- `ValidatePrevious`. -/
def trustedPrevious (r : Receipt) (p : Policy) (now : ℤ) : Bool :=
  validatePolicy s.verifier p && !(now ≤ 0 ∨ maxTimestamp < now) &&
    validatePrevious s.verifier (some r) p now

/-! ## Load and commit -/

structure Home (File : Type) where
  registration : Option File
  state : Option File

/-- The reads that fail with another error than a missing file. -/
structure Reads where
  registration : Bool
  state : Bool

/-- `strictDecode` of a registration. -/
def readRegistration (file : File) : Option Registration :=
  strictDecode s.codec.toReader maxStateBytes limits registrationShape decodeRegistration file

/-- `strictDecode` of a state. -/
def readState (file : File) : Option State :=
  strictDecode s.codec.toReader maxStateBytes limits stateShape decodeState file

/-- The checks of both files before the scope. -/
def consistent (a : Registration) (st : State) : Bool :=
  a.schemaVersion = 1 && st.schemaVersion = 1 && exactHex a.id 16 && a.id = st.id &&
    a.scope = st.scope &&
    validScope a.scope && safeRevision a.initialRevision && safeRevision st.policyRevision &&
    !(st.policyRevision < a.initialRevision) && exactHex a.initialSHA256 32 &&
    hash s (bytes a.initialPolicyJSON) = a.initialSHA256 && exactHex st.policySHA256 32 &&
    hash s (bytes st.policyJSON) = st.policySHA256 && st.hasPrevious = st.previous.isSome

def expectedFloors (initial p : Policy) : Option Receipt → Floors
  | none => mergeFloors (policyFloors initial) (policyFloors p)
  | some r => mergeFloors (mergeFloors (policyFloors initial) (policyFloors p)) (receiptFloors r)

def check (a : Registration) (st : State) (scope : Scope) (now : ℤ) : Except Failure Policy := do
  deny (!consistent s a st) .corruptState
  deny (st.scope ≠ scope) .scopeMismatch
  let initial ← demand (decodePolicy s a.initialPolicyJSON) .corruptState
  deny (initial.1.scope ≠ a.scope ∨ initial.1.revision ≠ a.initialRevision) .corruptState
  let current ← demand (decodePolicy s st.policyJSON) .corruptState
  deny (current.1.scope ≠ st.scope ∨ current.1.revision ≠ st.policyRevision ∨
    policyNotBelow current.2 (policyFloors initial.2) = false ∨
    (st.policyRevision = a.initialRevision ∧ st.policySHA256 ≠ a.initialSHA256)) .corruptState
  deny (st.previous.any fun r => !trustedPrevious s r current.2 now) .corruptState
  deny (!equalFloors st.floors (expectedFloors initial.2 current.2 st.previous)) .corruptState
  pure (effectivePolicy current.2 st.floors)

def load (home : Home File) (reads : Reads) (scope : Scope) (now : ℤ) :
    Except Failure (Registration × State × Policy) := do
  deny (!reads.registration && home.registration.isNone && !reads.state && home.state.isNone)
    .registrationRequired
  deny (!reads.registration && home.registration.isNone || !reads.state && home.state.isNone)
    .registrationIncomplete
  deny (reads.registration || reads.state) .localStorageFailure
  let aFile ← demand home.registration .localStorageFailure
  let sFile ← demand home.state .localStorageFailure
  let a ← demand (readRegistration s aFile) .corruptState
  let st ← demand (readState s sFile) .corruptState
  let p ← check s a st scope now
  pure (a, st, p)

/-- What happens to a commit. -/
structure Fault where
  effect : Bool
  error : Bool
  /-- It cannot be read back. -/
  unreadable : Bool

variable [DecidableEq File]

/-- `commit`: the file after it, and whether it is known to have been written. A file that must be
new is not replaced. -/
def commit (old : Option File) (value : Json) (create : Bool) (fault : Fault) :
    Option File × Except Failure Unit :=
  if maxStateBytes < s.codec.size (s.codec.print value) then (old, .error .localStorageFailure)
  else if create && old.isSome then (old, .error .commitUnknown)
  else
    let new := if fault.effect then some (s.codec.print value) else old
    (new, deny (fault.error || fault.unreadable || new ≠ some (s.codec.print value)) .commitUnknown)

/-! ## Commands -/

inductive Command
  | enroll
  | verify
  /-- `policy-approve`. -/
  | policyApprove
  | inspect

structure Options where
  command : Command
  scope : Scope
  /-- Hash of the policy that a human approved. -/
  approval : String
  revision : ℕ

/-- Where the context is looked at. -/
inductive Point
  | start
  /-- Before the first commit. -/
  | checked
  | registered
  | committed
  | verifying
  | verified
  /-- After a failed verification. -/
  | refused

/-- What a command meets. -/
structure Env where
  /-- Clock of the load. -/
  now : ℤ
  verifyTime : ℤ
  commitTime : ℤ
  reads : Reads
  policyFile : Except Failure Bytes
  metadataFile : Except Failure Bytes
  artifactFile : Except Failure Artifact
  /-- The artifact is unchanged after it was read. -/
  unchanged : Bool
  random : Option Bytes
  done : Point → Bool
  registration : Fault
  state : Fault

/-- What a command has decided to do. -/
inductive Plan
  | inspect (st : State)
  /-- Create both files. -/
  | enroll (a : Registration) (st : State)
  | replace (st : State)

def approve (o : Options) (env : Env) : Except Failure (PolicyDocument × Policy × String) := do
  let raw ← env.policyFile
  deny (hash s raw ≠ o.approval) .policyApprovalMismatch
  let document ← demand (text raw) .invalidPolicy
  let decoded ← demand (decodePolicy s document) .invalidPolicy
  deny (decoded.1.scope ≠ o.scope) .scopeMismatch
  deny (decoded.1.revision ≠ o.revision) .policyRevisionRefused
  pure (decoded.1, decoded.2, document)

/-- `enroll` before its commits. -/
def planEnroll (o : Options) (env : Env) : Except Failure Plan := do
  let approved ← approve s o env
  deny (env.done .checked) .commandCancelled
  let random ← demand env.random .localStorageFailure
  pure (.enroll ⟨1, s.newID random, o.scope, approved.1.revision, o.approval, approved.2.2⟩
    ⟨1, s.newID random, o.scope, approved.1.revision, o.approval, approved.2.2,
      policyFloors approved.2.1, false, none⟩)

/-- `policy-approve` before its commit. -/
def planApprove (o : Options) (env : Env) (st : State) : Except Failure Plan := do
  let approved ← approve s o env
  deny (approved.1.revision ≤ st.policyRevision ∨ policyNotBelow approved.2.1 st.floors = false)
    .policyRevisionRefused
  deny (env.done .checked) .commandCancelled
  pure (.replace { st with policyRevision := approved.1.revision, policySHA256 := o.approval
                           policyJSON := approved.2.2
                           floors := mergeFloors st.floors (policyFloors approved.2.1) })

def keyActive (p : Policy) (r : Receipt) (time : ℤ) : Bool :=
  p.keys.any fun key => key.id = r.keyID ∧ key.validFrom ≤ time ∧ time < key.validUntil

/-- The call of `Verify`. -/
def verifyCall (env : Env) (metadata : Bytes) (artifact : Artifact) (p : Policy) : Call :=
  ⟨some ⟨env.done .verifying, env.done .verified⟩, metadata, some artifact, p, env.verifyTime⟩

/-- The result of `Verify` as the command reports it. -/
def verifyResult (env : Env) : Except Err Receipt → Except Failure Receipt
  | .ok r => .ok r
  | .error e => .error (if env.done .refused then .commandCancelled else .refused e)

/-- `verify` before its commit. -/
def planVerify (env : Env) (st : State) (p : Policy) : Except Failure Plan := do
  let metadata ← env.metadataFile
  let artifact ← env.artifactFile
  let r ← verifyResult env (verify s.verifier st.previous (verifyCall env metadata artifact p))
  deny (!env.unchanged) .artifactRefused
  deny (env.commitTime < r.verifiedAt ∨ env.commitTime < r.metadata.issuedAt ∨
    r.metadata.expiresAt ≤ env.commitTime) (.refused .metadata)
  deny (!keyActive p r env.commitTime) (.refused .signature)
  deny (r.metadata.securityVersion < st.floors.securityVersion) (.refused .rollback)
  deny (env.done .checked) .commandCancelled
  pure (.replace { st with previous := some r, hasPrevious := true
                           floors := mergeFloors st.floors (receiptFloors r) })

/-- The command after the load. -/
def plan (o : Options) (env : Env)
    (loaded : Except Failure (Registration × State × Policy)) : Except Failure Plan :=
  match o.command, loaded with
  | .enroll, .ok _ => .error .alreadyRegistered
  | .enroll, .error .registrationRequired => planEnroll s o env
  | _, .error e => .error e
  | .inspect, .ok (_, st, _) => .ok (.inspect st)
  | .policyApprove, .ok (_, st, _) => planApprove s o env st
  | .verify, .ok (_, st, p) => planVerify s env st p

def commitState (env : Env) (registration state : Option File) (st : State) (create : Bool) :
    Home File × Except Failure State :=
  (⟨registration, (commit s state (encodeState st) create env.state).1⟩, do
    (commit s state (encodeState st) create env.state).2
    deny (env.done .committed) .commitUnknown
    pure st)

/-- Go on after the commit of the registration. -/
def commitEnrolled (env : Env) (state : Option File) (st : State) :
    Option File × Except Failure Unit →
    Home File × Except Failure State
  | (registration, .error e) => (⟨registration, state⟩, .error e)
  | (registration, .ok _) =>
    if env.done .registered then (⟨registration, state⟩, .error .commitUnknown)
    else commitState s env registration state st true

def perform (env : Env) (home : Home File) : Plan → Home File × Except Failure State
  | .inspect st => (home, .ok st)
  | .replace st => commitState s env home.registration home.state st false
  | .enroll a st =>
    commitEnrolled s env home.state st
      (commit s home.registration (encodeRegistration a) true env.registration)

def execute (o : Options) (env : Env) (home : Home File) : Home File × Except Failure State :=
  if env.done .start then (home, .error .commandCancelled)
  else
    match plan s o env (load s home env.reads o.scope env.now) with
    | .error e => (home, .error e)
    | .ok p => perform s env home p

def step (home : Home File) (event : Options × Env) : Home File :=
  (execute s event.1 event.2 home).1

/-- The home before anything was done. -/
def empty : Home File := ⟨none, none⟩

end

end DaxiangVpn.UpdateClient
