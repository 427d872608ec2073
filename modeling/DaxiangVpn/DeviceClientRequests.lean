import DaxiangVpn.DeviceClient
import DaxiangVpn.EffectPrograms

/-!
# Requests of the device client

Arguments, receipts, signed requests and strict readers of their responses. Files, the network, the
clock, random bytes and the context are effects. A response is any file with any status; only what
its reader takes reaches a command.
-/

namespace DaxiangVpn.DeviceClient

open EffectPrograms HexTexts StrictJson

/-! ## Failures and receipts -/

inductive Code
  | invalidRequest
  | unauthorized
  | conflict
  | notFound
  | unavailable
  | rateLimited
  | invalidServer
  | connectionFailure
  | invalidResponse
  | localStorageFailure
  | invalidArguments
  | invalidCaFile
  | commandTimeout
  | serverMismatch
  | pendingResolutionRequired
  | alreadyActivated
  | invalidActivationInput
  | notActivated
  | resultUnknown
  | noPendingIntent
  | staleGeneration
  | bindingRequired
  | credentialExpired
  | projectionExpired
  | authorityEpochMismatch
  | profileRollback

/-- An error: a `failure`, or another one. -/
inductive Err
  | failure (code : Code) (unknown : Bool)
  /-- Another error. -/
  | other

inductive Outcome
  | localError
  | rejected
  | resultUnknown
  | status
  | accepted
  | credentialCreated
  | credentialRotated
  | credentialRecovered
  | operationRecovered
  | cancelled

structure Receipt where
  contractVersion : ℤ
  command : String
  ok : Bool
  outcome : Outcome
  /-- An intent needs resolution. -/
  pending : Bool
  code : Option Code
  requestID : String
  idempotencyKey : String
  credential : Option Credential
  operation : Option Operation

def Err.report : Err → Outcome × Code
  | .other => (.localError, .localStorageFailure)
  | .failure code false => (.rejected, code)
  | .failure _ true => (.resultUnknown, .resultUnknown)

def resultError (command : String) (e : Err) : Option Intent → Receipt
  | none => ⟨version, command, false, e.report.1, false, some e.report.2, "", "", none, none⟩
  | some p => ⟨version, command, false, e.report.1, true, some e.report.2, p.requestID,
      p.idempotencyKey, none, none⟩

/-! ## Arguments -/

/-- Flags as they were given. -/
structure Flags where
  server : Option String
  /-- `-ca-file`. -/
  caFile : Option String
  /-- `-operation-id`. -/
  operationID : Option String
  /-- `-wg-public-key`. -/
  key : Option String
  address : Option String
  /-- `-idempotency-key`. -/
  idempotency : Option String
  reason : Option String
  /-- `-expected-generation`. -/
  generation : Option ℤ
  /-- `-activation-stdin`. -/
  activationStdin : Option Bool
  /-- `-timeout` in nanoseconds. -/
  timeout : Option ℤ
  json : Option Bool

structure Options where
  command : Command
  server : String
  caFile : String
  operationID : String
  key : String
  address : String
  idempotency : String
  reason : String
  generation : ℤ
  /-- The activation credential is on the standard input. -/
  activationStdin : Bool
  timeout : ℤ

/-- The flags with their defaults. -/
def Flags.options (f : Flags) (command : Command) : Options :=
  ⟨command, f.server.getD "", f.caFile.getD "", f.operationID.getD "", f.key.getD "",
    f.address.getD "", f.idempotency.getD "", f.reason.getD "", f.generation.getD (-1),
    f.activationStdin.getD false, f.timeout.getD (15 * 10 ^ 9)⟩

/-- An integer of sixty-four bits. -/
def isInt64 (z : ℤ) : Bool := -2 ^ 63 ≤ z ∧ z < 2 ^ 63

def second : ℤ := 10 ^ 9

def validTimeout (t : ℤ) : Bool := !(t ≤ 0 ∨ 30 * second < t)

section

variable {File : Type} (s : Prims File)

/-- The address of `apply`: a host of either family in its only form. -/
def canonicalHost (v : String) : Bool :=
  (NetipPrefix.parsePrefix v).any fun p => p.bits = p.addr.bitLen && p.string = v

def validValues (o : Options) : Bool :=
  match o.command with
  | .activate => o.server ≠ "" && o.activationStdin
  | .status => hexID o.operationID
  | .apply => validMutation o && validPublic s o.key && canonicalHost o.address
  | .bind => validMutation o && o.key = "" && hostAddress o.address &&
      decide (o.generation < proxySafeInteger)
  | .disable => validMutation o && o.key = "" && o.address = ""
  | .revoke => validMutation o && o.key = "" && o.address = ""
  | _ => true
where
  validMutation (o : Options) : Bool :=
    !(o.generation < 0 ∨ o.generation = maxInt64) && identifier o.idempotency 128 &&
      o.reason.utf8ByteSize ≤ 1024

/-- A command that changes the desired state of the device. -/
def Command.isMutation (c : Command) : Bool :=
  c = .apply || c = .bind || c = .disable || c = .revoke

/-- No flag of another command was given. -/
def relevant (c : Command) (f : Flags) : Bool :=
  (f.activationStdin.isNone || c = .activate || c = .cancelPending) &&
    (f.operationID.isNone || c = .status) &&
    ((f.generation.isNone && f.idempotency.isNone && f.reason.isNone) || c.isMutation) &&
    (f.address.isNone || c = .apply || c = .bind) && (f.key.isNone || c = .apply)

inductive Line
  | unknown
  /-- A command with flags that cannot be read. -/
  | malformed (c : Command)
  | flags (c : Command) (f : Flags)

/-- The text of the command in a receipt. -/
def Line.command : Line → String
  | .unknown => "unknown"
  | .malformed c => c.text
  | .flags c _ => c.text

def parse : Line → Option Options
  | .unknown => none
  | .malformed _ => none
  | .flags c f =>
    if f.json.getD true && validTimeout (f.options c).timeout && isInt64 (f.options c).generation &&
        validValues s (f.options c) && relevant c f then some (f.options c)
    else none

/-- Flags of `start` as they were given. -/
structure StartFlags where
  server : Option String
  /-- `-ca-file`. -/
  caFile : Option String
  /-- `-expected-generation`. -/
  generation : Option ℤ
  port : Option ℤ
  /-- `-timeout` in nanoseconds. -/
  timeout : Option ℤ
  json : Option Bool

structure StartOptions where
  server : String
  caFile : String
  generation : ℤ
  port : ℤ

/-- `parseStart`; flags that cannot be read are none. -/
def parseStart : Option StartFlags → Option StartOptions
  | none => none
  | some f =>
    if f.json.getD true && !(f.generation.getD 0 < 1 ∨ proxySafeInteger < f.generation.getD 0) &&
        !(f.port.getD 7890 < 1 ∨ 65535 < f.port.getD 7890) &&
          validTimeout (f.timeout.getD (15 * second)) then
      some ⟨f.server.getD "", f.caFile.getD "", f.generation.getD 0, f.port.getD 7890⟩
    else none

/-! ## Requests and responses -/

structure Challenge where
  challengeId : String
  nonce : String
  expiresUnixSeconds : ℤ

/-- Headers of a signed request. -/
structure Headers where
  /-- `X-ZH-Challenge`. -/
  challenge : String
  /-- `X-ZH-Nonce`. -/
  nonce : String
  /-- `X-ZH-Expires`. -/
  expires : String
  /-- `X-ZH-Request-ID`. -/
  requestID : String
  /-- `X-ZH-Signature`. -/
  signature : String
  /-- `X-ZH-Device` and `X-ZH-Credential`. -/
  credential : Option (String × String)
  /-- `X-ZH-New-Key-Signature`. -/
  newKeySignature : Option String
  /-- `X-ZH-Resolve-Owner-Proof`. -/
  ownerProof : Option String

structure ChallengeHeaders where
  /-- `X-ZH-Client-Nonce`. -/
  nonce : String
  /-- `X-ZH-Client-Expires`. -/
  expires : String
  /-- `X-ZH-Challenge-Proof`. -/
  proof : String
  /-- `X-ZH-Resolve-Owner-Proof`. -/
  ownerProof : Option String

inductive Request
  /-- `POST /api/v2/challenges`. -/
  | challenge (q : ChallengeRequest) (h : ChallengeHeaders)
  | signed (method path : String) (body : Body) (h : Headers)

structure Response (File : Type) where
  status : ℕ
  json : Bool
  /-- The body, if it could be read within `32768` bytes. -/
  body : Option File

/-- What becomes of a request. -/
inductive Delivery (File : Type)
  | refused
  | failed
  | response (r : Response File)

/-- How a response is read. -/
structure Wire (α : Type) where
  shape : Shape
  decode : Json → Option α

/-- `dc.Challenge` in a response. -/
def challengeWire : Wire Challenge where
  shape := record [("challenge_id", .text), ("nonce", .text), ("expires_unix_seconds", .number)] []
  decode j := do
    let challengeId ← (← j.get "challenge_id").text?
    let nonce ← (← j.get "nonce").text?
    let expiresUnixSeconds ← (← j.get "expires_unix_seconds").int?
    pure ⟨challengeId, nonce, expiresUnixSeconds⟩

/-- `dc.Credential` in a response. -/
def credentialWire : Wire Credential := ⟨credentialShape, decodeCredential⟩

/-- `dc.Operation` in a response. -/
def operationWire : Wire Operation where
  shape := record [("operation_id", .text), ("device_id", .text), ("action", .text),
    ("generation", .number), ("state", .text), ("accepted", .flag), ("effective", .flag),
    ("last_error", .text), ("deadline_unix_seconds", .number)] []
  decode j := do
    let operationId ← (← j.get "operation_id").text?
    let deviceId ← (← j.get "device_id").text?
    let action ← (← j.get "action").text?
    let generation ← (← j.get "generation").int?
    let state ← (← j.get "state").text?
    let accepted ← (← j.get "accepted").flag?
    let effective ← (← j.get "effective").flag?
    let lastError ← (← j.get "last_error").text?
    let deadlineUnixSeconds ← (← j.get "deadline_unix_seconds").int?
    pure ⟨operationId, deviceId, action, generation, state, accepted, effective, lastError,
    deadlineUnixSeconds⟩

structure ResolveReceipt where
  state : String
  kind : String
  requestId : String
  authPublicKey : Option String
  idempotencyKey : Option String
  credential : Option Credential
  operation : Option Operation

/-- `dc.ResolveReceipt` in a response. -/
def resolveWire : Wire ResolveReceipt where
  shape := record [("state", .text), ("kind", .text), ("request_id", .text)]
    [("auth_public_key", .text), ("credential", credentialShape), ("idempotency_key", .text),
      ("operation", operationWire.shape)]
  decode j := do
    let state ← (← j.get "state").text?
    let kind ← (← j.get "kind").text?
    let requestId ← (← j.get "request_id").text?
    let authPublicKey ← decodeOr Json.text? (j.get "auth_public_key")
    let idempotencyKey ← decodeOr Json.text? (j.get "idempotency_key")
    let credential ← decodeOr decodeCredential (j.get "credential")
    let operation ← decodeOr operationWire.decode (j.get "operation")
    pure ⟨state, kind, requestId, authPublicKey, idempotencyKey, credential, operation⟩

structure ProxyBootstrap where
  version : ℤ
  deviceId : String
  credentialId : String
  wireguardPublicKey : String
  address : String
  desiredGeneration : ℤ
  appliedGeneration : ℤ
  issuedUnixSeconds : ℤ
  expiresUnixSeconds : ℤ
  profile : Profile
  profileSha256 : String

/-- `dc.ProxyBootstrap` in a response. -/
def bootstrapWire : Wire ProxyBootstrap where
  shape := record [("version", .number), ("device_id", .text), ("credential_id", .text),
    ("wireguard_public_key", .text), ("address", .text), ("desired_generation", .number),
    ("applied_generation", .number), ("issued_unix_seconds", .number),
    ("expires_unix_seconds", .number), ("profile", profileShape), ("profile_sha256", .text)] []
  decode j := do
    let version ← (← j.get "version").int?
    let deviceId ← (← j.get "device_id").text?
    let credentialId ← (← j.get "credential_id").text?
    let wireguardPublicKey ← (← j.get "wireguard_public_key").text?
    let address ← (← j.get "address").text?
    let desiredGeneration ← (← j.get "desired_generation").int?
    let appliedGeneration ← (← j.get "applied_generation").int?
    let issuedUnixSeconds ← (← j.get "issued_unix_seconds").int?
    let expiresUnixSeconds ← (← j.get "expires_unix_seconds").int?
    let profile ← decodeProfile (← j.get "profile")
    let profileSha256 ← (← j.get "profile_sha256").text?
    pure ⟨version, deviceId, credentialId, wireguardPublicKey, address, desiredGeneration,
    appliedGeneration,
      issuedUnixSeconds, expiresUnixSeconds, profile, profileSha256⟩

/-- `validServerCode`, with the code. -/
def serverCode (v : String) : Option Code :=
  [("invalid_request", Code.invalidRequest), ("unauthorized", .unauthorized),
    ("conflict", .conflict), ("not_found", .notFound), ("unavailable", .unavailable),
    ("rate_limited", .rateLimited)].lookup v

/-- `dc.Error` in a response. -/
def errorWire : Wire Code where
  shape := record [("code", .text)] []
  decode j := do
    let code ← (← j.get "code").text?
    serverCode code

variable {α : Type}

/-- `strictDecode` of a response. -/
def Wire.read (w : Wire α) (body : File) : Option α :=
  strictDecode s.codec.toReader (2 ^ 20) limits w.shape w.decode body

/-- A status that proves that a mutation was refused. -/
def knownStatus (status : ℕ) : Bool :=
  status = 400 || status = 401 || status = 404 || status = 409 || status = 429

/-- `call` after the request was made. -/
def receive (expected : ℕ) (w : Wire α) (mutation : Bool) : Delivery File → Except Err α
  | .refused => .error (.failure .invalidRequest false)
  | .failed => .error (.failure .connectionFailure mutation)
  | .response r =>
    match r.body.filter fun _ => r.json with
    | none => .error (.failure .invalidResponse mutation)
    | some body =>
      if r.status ≠ expected then
        match errorWire.read s body with
        | none => .error (.failure .invalidResponse mutation)
        | some code => .error (.failure code (mutation && !knownStatus r.status))
      else
        match w.read s body with
        | none => .error (.failure .invalidResponse mutation)
        | some a => .ok a

/-! ## Effects -/

/-- What `loadRoots` gives. -/
inductive Roots
  | loaded
  /-- `command_timeout`. -/
  | timeout
  /-- `invalid_ca_file`. -/
  | invalid

inductive Effect
  | loadRoots (path : String)
  /-- `WithOperationLockContext` takes the lock. -/
  | lock
  /-- `ctx.Err`. -/
  | cancelled
  | read
  | save (st : State)
  /-- `http.Do`. -/
  | call (q : Request)
  /-- `now`. -/
  | clock
  /-- `rand.Read`. -/
  | random (n : ℕ)
  /-- `io.ReadAll` of the standard input. -/
  | stdin

/-- Answers to effects. The standard input is none if it is absent, cannot be read or is no
UTF-8. -/
def Answer (File : Type) : Effect → Type
  | .loadRoots _ => Roots
  | .lock => Bool
  | .cancelled => Bool
  | .read => Option (Option File)
  | .save _ => Bool
  | .call _ => Delivery File
  | .clock => ℤ
  | .random _ => Option Bytes
  | .stdin => Option String

abbrev Program (File α : Type) := Prog Effect (Answer File) α

def loadRoots (path : String) : Program File Roots :=
  perform (R := Answer File) (Effect.loadRoots path)

/-- `WithOperationLockContext` takes the lock. -/
def lock : Program File Bool := perform (R := Answer File) Effect.lock

/-- `ctx.Err`. -/
def cancelled : Program File Bool := perform (R := Answer File) Effect.cancelled

/-- `PrivateState.Read`. -/
def readState : Program File (Option (Option File)) := perform (R := Answer File) Effect.read

/-- `save`, and whether it succeeded. -/
def save (st : State) : Program File Bool := perform (R := Answer File) (Effect.save st)

/-- `http.Do`. -/
def send (q : Request) : Program File (Delivery File) := perform (R := Answer File) (Effect.call q)

/-- `now`. -/
def clock : Program File ℤ := perform (R := Answer File) Effect.clock

/-- `rand.Read`. -/
def random (n : ℕ) : Program File (Option Bytes) := perform (R := Answer File) (Effect.random n)

/-- `io.ReadAll` of the standard input. -/
def readStdin : Program File (Option String) := perform (R := Answer File) Effect.stdin

/-- `opaque`. -/
def opaqueName : Program File (Option String) := do
  let b ← random 16
  pure (b.map encodeHex)

def call (q : Request) (expected : ℕ) (w : Wire α) (mutation : Bool) :
    Program File (Except Err α) := do
  let stop ← cancelled
  if stop then pure (.error (.failure .commandTimeout false))
  else do
    let d ← send q
    pure (receive s expected w mutation d)

/-! ## Challenges and signatures -/

def signingBytes (purpose method path digest device credential : String) (ch : Challenge)
    (requestID : String) :
    List String :=
  ["zhvpn-device-request", "v2", purpose, method, path, digest, device, credential,
    ch.challengeId, ch.nonce, requestID, toString ch.expiresUnixSeconds]

def challengeProofBytes (digest nonce : String) (expires : ℤ) : List String :=
  ["zhvpn-device-challenge", "v2", "POST", "/api/v2/challenges", digest, nonce, toString expires]

/-- What `headers` signs. -/
def signedPayload (purpose method path : String) (body : Body) (cr : Option Credential)
    (ch : Challenge) (requestID : String) : List String :=
  signingBytes purpose method path (s.bodyDigest body) (cr.elim "" Credential.deviceId)
    (cr.elim "" Credential.credentialId) ch requestID

def headers (purpose method path : String) (body : Body) (cr : Option Credential) (ch : Challenge)
    (requestID : String) (key : Bytes) : Headers :=
  ⟨ch.challengeId, ch.nonce, toString ch.expiresUnixSeconds, requestID,
    s.sign key (signedPayload s purpose method path body cr ch requestID),
    cr.map fun c => (c.deviceId, c.credentialId), none, none⟩

def validChallenge (ch : Challenge) (now : ℤ) : Bool :=
  hexID ch.challengeId && hexID ch.nonce &&
    !(ch.expiresUnixSeconds ≤ now ∨ now + 120 < ch.expiresUnixSeconds)

def issueChallengeWithOwner (r : ChallengeRequest) (key : Bytes) (ownerKey : Option Bytes) :
    Program File (Except Err Challenge) := do
  let name ← opaqueName
  match name with
  | none => pure (.error .other)
  | some nonce => do
    let now ← clock
    let payload := challengeProofBytes (s.bodyDigest (.challenge r)) nonce (now + 45)
    let answer ← call s (.challenge r ⟨nonce, toString (now + 45), s.sign key payload,
      ownerKey.map fun owner => s.sign owner payload⟩) 200 challengeWire false
    match answer with
    | .error e => pure (.error e)
    | .ok ch => do
      let now ← clock
      if validChallenge ch now then pure (.ok ch)
      else pure (.error (.failure .invalidResponse false))

def issueChallenge (r : ChallengeRequest) (key : Bytes) : Program File (Except Err Challenge) :=
  issueChallengeWithOwner s r key none

/-- The request of `challenge`. -/
def challengeRequest (purpose method path : String) (body : Body)
    (activation : String) (key : Bytes) :
    Option Credential → ChallengeRequest
  | some c => ⟨purpose, method, path, s.bodyDigest body, some c.deviceId, some c.credentialId, none,
      none, none, none, none⟩
  | none => ⟨purpose, method, path, s.bodyDigest body, none, none, some activation,
      some (publicKey s key), none, none, none⟩

def challenge (purpose method path : String) (body : Body) (cr : Option Credential)
    (activation : String) (key : Bytes) : Program File (Except Err Challenge) :=
  issueChallenge s (challengeRequest s purpose method path body activation key cr) key

/-- A challenge and a name for the request. The names of failures differ in the intent they
report. -/
def authorize (purpose method path : String) (body : Body) (cr : Option Credential)
    (activation : String) (key : Bytes) :
    Program File (Except (Err × Bool) (Challenge × String)) := do
  let answer ← challenge s purpose method path body cr activation key
  match answer with
  | .error e => pure (.error (e, true))
  | .ok ch => do
    let name ← opaqueName
    match name with
    | none => pure (.error (.other, false))
    | some requestID => pure (.ok (ch, requestID))

end

end DaxiangVpn.DeviceClient
