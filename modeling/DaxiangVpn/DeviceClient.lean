import DaxiangVpn.DeviceAuthPolicy
import DaxiangVpn.StrictJson

/-!
# The saved state of the device client

The client keeps its keys, its credential, a mutation whose result it does not know, its WireGuard
binding and the last route profile in one private file of a home. `load` reads the file back and
checks all of it together.
-/

namespace DaxiangVpn.DeviceClient

open DeviceAuthPolicy HexTexts NetipPrefix StrictJson

abbrev Bytes := List UInt8

def version : ℤ := 2

def proxySafeInteger : ℤ := 9007199254740991

def maxInt64 : ℤ := 2 ^ 63 - 1

/-- The size limit of a private file. -/
def maxStateBytes : ℕ := 64 * 1024

/-! ## Records -/

inductive Command
  | activate
  | status
  | apply
  | bind
  | disable
  | revoke
  /-- `rotate-credential`. -/
  | rotateCredential
  | recover
  /-- `cancel-pending`. -/
  | cancelPending
  deriving DecidableEq

def Command.text : Command → String
  | .activate => "activate"
  | .status => "status"
  | .apply => "apply"
  | .bind => "bind"
  | .disable => "disable"
  | .revoke => "revoke"
  | .rotateCredential => "rotate-credential"
  | .recover => "recover"
  | .cancelPending => "cancel-pending"

/-- `validCommand`, with the command. -/
def Command.ofText (v : String) : Option Command :=
  [.activate, .status, .apply, .bind, .disable, .revoke, .rotateCredential, .recover,
    .cancelPending].find?
    fun c => c.text = v

theorem Command.ofText_text (c : Command) : Command.ofText c.text = some c := by
  cases c <;> rfl

structure Credential where
  deviceId : String
  credentialId : String
  authPublicKey : String
  expiresUnixSeconds : ℤ

structure Operation where
  operationId : String
  deviceId : String
  action : String
  generation : ℤ
  state : String
  accepted : Bool
  effective : Bool
  lastError : String
  deadlineUnixSeconds : ℤ

/-- `dc.ProxyRouteProfile`. -/
structure Profile where
  version : ℤ
  authorityEpoch : String
  managedBy : String
  wgInterface : String
  revision : ℤ
  wgEndpoint : String
  wgPublicKey : String
  proxyAddress : String
  egressId : String
  egressName : String
  allowedIps : List String

structure LocalBinding where
  privateKey : String
  publicKey : String
  address : String
  generation : ℤ
  appliedGeneration : ℤ
  operationID : String

/-- `intent`. A text that is no command is refused when it is read. -/
structure Intent where
  kind : Command
  requestID : String
  idempotencyKey : String
  newPrivateKey : String
  expectedGeneration : Option ℤ
  bindAddress : String

structure State where
  version : ℤ
  server : String
  privateKey : String
  credential : Option Credential
  /-- Mutation whose result is not known. -/
  pending : Option Intent
  wireGuardInitialized : Bool
  wireGuard : Option LocalBinding
  proxyProfile : Option Profile

structure ChallengeRequest where
  purpose : String
  method : String
  path : String
  bodySha256 : String
  deviceId : Option String
  credentialId : Option String
  activationCredential : Option String
  authPublicKey : Option String
  receiptKind : Option String
  receiptRequestId : Option String
  receiptIdempotencyKey : Option String
  deriving DecidableEq

/-- The bodies of requests. -/
inductive Body
  | empty
  /-- `dc.ChallengeRequest`. -/
  | challenge (q : ChallengeRequest)
  /-- `dc.ActivationRequest`. -/
  | activation (activationCredential authPublicKey : String)
  /-- `dc.RotationRequest`. -/
  | rotation (authPublicKey : String)
  | command (action : String) (expectedGeneration : ℤ) (idempotencyKey : String)
      (wgPublicKey address reason : Option String)
  /-- `dc.CredentialReceiptRequest`. -/
  | credentialReceipt (kind requestId authPublicKey : String)
  /-- `dc.OperationReceiptRequest`. -/
  | operationReceipt (requestId idempotencyKey : String)
  /-- `dc.ResolveRequest`. -/
  | resolve (kind requestId : String)
      (activationCredential authPublicKey idempotencyKey : Option String)
  /-- `dc.ProxyBootstrapRequest`. -/
  | bootstrap (expectedGeneration : ℤ) (wireguardPublicKey : String)
  deriving DecidableEq

/-- `state{}`. -/
def State.zero : State := ⟨0, "", "", none, none, false, none, none⟩

/-! ## JSON -/

def credentialShape : Shape :=
  record [("device_id", .text), ("credential_id", .text), ("auth_public_key", .text),
    ("expires_unix_seconds", .number)] []

def encodeCredential (c : Credential) : Json :=
  obj [("auth_public_key", .string c.authPublicKey), ("credential_id", .string c.credentialId),
    ("device_id", .string c.deviceId), ("expires_unix_seconds", ofInt c.expiresUnixSeconds)]

/-- A credential from a value. -/
def decodeCredential (j : Json) : Option Credential := do
  let deviceId ← (← j.get "device_id").text?
  let credentialId ← (← j.get "credential_id").text?
  let authPublicKey ← (← j.get "auth_public_key").text?
  let expiresUnixSeconds ← (← j.get "expires_unix_seconds").int?
  pure ⟨deviceId, credentialId, authPublicKey, expiresUnixSeconds⟩

def profileShape : Shape :=
  record [("version", .number), ("authority_epoch", .text), ("managed_by", .text),
  ("wg_interface", .text),
    ("revision", .number), ("wg_endpoint", .text), ("wg_public_key", .text),
    ("proxy_address", .text), ("egress_id", .text), ("egress_name", .text),
    ("allowed_ips", .list none .text)] []

def Items.ofTexts : List String → Items
  | [] => .nil
  | v :: rest => .cons (.string v) (Items.ofTexts rest)

def encodeProfile (p : Profile) : Json :=
  obj [("allowed_ips", .array (Items.ofTexts p.allowedIps)),
  ("authority_epoch", .string p.authorityEpoch),
    ("egress_id", .string p.egressId), ("egress_name", .string p.egressName),
    ("managed_by", .string p.managedBy), ("proxy_address", .string p.proxyAddress),
    ("revision", ofInt p.revision), ("version", ofInt p.version),
    ("wg_endpoint", .string p.wgEndpoint), ("wg_interface", .string p.wgInterface),
    ("wg_public_key", .string p.wgPublicKey)]

/-- A profile from a value. -/
def decodeProfile (j : Json) : Option Profile := do
  let version ← (← j.get "version").int?
  let authorityEpoch ← (← j.get "authority_epoch").text?
  let managedBy ← (← j.get "managed_by").text?
  let wgInterface ← (← j.get "wg_interface").text?
  let revision ← (← j.get "revision").int?
  let wgEndpoint ← (← j.get "wg_endpoint").text?
  let wgPublicKey ← (← j.get "wg_public_key").text?
  let proxyAddress ← (← j.get "proxy_address").text?
  let egressId ← (← j.get "egress_id").text?
  let egressName ← (← j.get "egress_name").text?
  let items ← (← j.get "allowed_ips").items?
  let allowedIps ← items.mapM Json.text?
  pure ⟨version, authorityEpoch, managedBy, wgInterface, revision, wgEndpoint, wgPublicKey,
  proxyAddress, egressId,
    egressName, allowedIps⟩

def bindingShape : Shape :=
  record [("private_key", .text), ("public_key", .text), ("address", .text),
  ("generation", .number),
    ("applied_generation", .number), ("operation_id", .text)] []

def encodeBinding (w : LocalBinding) : Json :=
  obj [("private_key", .string w.privateKey), ("public_key", .string w.publicKey),
  ("address", .string w.address),
    ("generation", ofInt w.generation), ("applied_generation", ofInt w.appliedGeneration),
    ("operation_id", .string w.operationID)]

/-- A binding from a value. -/
def decodeBinding (j : Json) : Option LocalBinding := do
  let privateKey ← (← j.get "private_key").text?
  let publicKey ← (← j.get "public_key").text?
  let address ← (← j.get "address").text?
  let generation ← (← j.get "generation").int?
  let appliedGeneration ← (← j.get "applied_generation").int?
  let operationID ← (← j.get "operation_id").text?
  pure ⟨privateKey, publicKey, address, generation, appliedGeneration, operationID⟩

/-- A text that is left out when it is empty. -/
def omitEmpty (name v : String) : List (String × Json) := if v = "" then [] else [(name, .string v)]

/-- A value that is left out when there is none. -/
def omitNone {α : Type} (name : String) (encode : α → Json) : Option α → List (String × Json)
  | none => []
  | some a => [(name, encode a)]

/-- A text that may be left out. -/
def textOr : Option Json → Option String
  | none => some ""
  | some j => j.text?

/-- A value that may be left out. -/
def decodeOr {α : Type} (decode : Json → Option α) : Option Json → Option (Option α)
  | none => some none
  | some j => (decode j).map some

def intentShape : Shape :=
  record [] [("kind", .text), ("request_id", .text), ("idempotency_key", .text),
  ("new_private_key", .text),
    ("expected_generation", .number), ("bind_address", .text)]

def encodeIntent (p : Intent) : Json :=
  obj ([("kind", .string p.kind.text), ("request_id", .string p.requestID)] ++
    omitEmpty "idempotency_key" p.idempotencyKey ++ omitEmpty "new_private_key" p.newPrivateKey ++
    omitNone "expected_generation" ofInt p.expectedGeneration ++
      omitEmpty "bind_address" p.bindAddress)

/-- An intent from a value. -/
def decodeIntent (j : Json) : Option Intent := do
  let kind ← Command.ofText (← textOr (j.get "kind"))
  let requestID ← textOr (j.get "request_id")
  let idempotencyKey ← textOr (j.get "idempotency_key")
  let newPrivateKey ← textOr (j.get "new_private_key")
  let expectedGeneration ← decodeOr Json.int? (j.get "expected_generation")
  let bindAddress ← textOr (j.get "bind_address")
  pure ⟨kind, requestID, idempotencyKey, newPrivateKey, expectedGeneration, bindAddress⟩

def stateShape : Shape :=
  record [("version", .number), ("server", .text), ("private_key", .text)]
    [("credential", credentialShape), ("pending", intentShape), ("wireguard_initialized", .flag),
      ("wireguard", bindingShape), ("proxy_profile", profileShape)]

/-- A truth value that is left out when it is false. -/
def omitFalse (name : String) (b : Bool) : List (String × Json) :=
  if b then [(name, .bool true)] else []

/-- A truth value that may be left out. -/
def flagOr : Option Json → Option Bool
  | none => some false
  | some j => j.flag?

/-- `json.Marshal` of a state. -/
def encodeState (st : State) : Json :=
  obj ([("version", ofInt st.version), ("server", .string st.server),
  ("private_key", .string st.privateKey)] ++
    omitNone "credential" encodeCredential st.credential ++
      omitNone "pending" encodeIntent st.pending ++
    omitFalse "wireguard_initialized" st.wireGuardInitialized ++
      omitNone "wireguard" encodeBinding st.wireGuard ++
    omitNone "proxy_profile" encodeProfile st.proxyProfile)

/-- A state from a value. -/
def decodeState (j : Json) : Option State := do
  let version ← (← j.get "version").int?
  let server ← (← j.get "server").text?
  let privateKey ← (← j.get "private_key").text?
  let credential ← decodeOr decodeCredential (j.get "credential")
  let pending ← decodeOr decodeIntent (j.get "pending")
  let wireGuardInitialized ← flagOr (j.get "wireguard_initialized")
  let wireGuard ← decodeOr decodeBinding (j.get "wireguard")
  let proxyProfile ← decodeOr decodeProfile (j.get "proxy_profile")
  pure ⟨version, server, privateKey, credential, pending, wireGuardInitialized,
  wireGuard, proxyProfile⟩

/-- Bounds of `jsonValue`: depth eight, and arrays of at most `64` items. -/
def limits : Limits := ⟨8, none, some 64⟩

/-! ## Texts -/

/-- `hexID`: sixteen bytes in the only hexadecimal form. -/
def hexID (v : String) : Bool := lowerHex 32 v

theorem hexID_encodeHex {b : Bytes} (h : b.length = 16) : hexID (encodeHex b) = true := by
  have hhex := lowerHex_encodeHex b
  rw [h] at hhex
  exact hhex

/-- `strings.TrimSpace` changes nothing. -/
def trimmed (v : String) : Bool :=
  v.toList.head?.all (fun c => !isSpace c) && v.toList.getLast?.all fun c => !isSpace c

def identifier (v : String) (max : ℕ) : Bool :=
  v ≠ "" && v.utf8ByteSize ≤ max && trimmed v && !v.toList.any isControl

def proxyIdentifier (v : String) (max : ℕ) : Bool :=
  identifier v max && !v.toList.contains (Char.ofNat 0xfffd)

def isInterfaceChar (c : Char) : Bool :=
  ('a' ≤ c ∧ c ≤ 'z') || ('A' ≤ c ∧ c ≤ 'Z') || ('0' ≤ c ∧ c ≤ '9') || c = '_' || c = '-' || c = '.'

def proxyInterface (v : String) : Bool :=
  1 ≤ v.utf8ByteSize && v.utf8ByteSize ≤ 15 && v.toList.all isInterfaceChar

/-- The legacy management subnet `10.66.0.0/24`. -/
def legacy (ip : Addr) : Bool := ip.family = .v4 && ip.value / 2 ^ 8 = 10 * 2 ^ 16 + 66 * 2 ^ 8

/-- `Addr.IsPrivate` of an IPv4 address. -/
def isPrivate (ip : Addr) : Bool :=
  ip.value / 2 ^ 24 = 10 || ip.value / 2 ^ 20 = 172 * 2 ^ 4 +
    1 || ip.value / 2 ^ 16 = 192 * 2 ^ 8 + 168

def proxyPrivateIPv4 (ip : Addr) : Bool := ip.family = .v4 && isPrivate ip && !legacy ip

def validProxyCustomerAddress (v : String) : Bool :=
  (parsePrefix v).any fun p => p.string = v && p.bits = 32 && proxyPrivateIPv4 p.addr

def hostAddress (v : String) : Bool := validProxyCustomerAddress v

/-- A port in the only decimal form. -/
def validPort (text : List Char) : Bool :=
  (String.ofList text).toNat?.any fun n => 1 ≤ n && n ≤ 65535 && (toString n).toList = text

def proxyIPv4Endpoint (v : String) : Option Addr :=
  match v.toList.splitOn ':' with
  | [host, port] => do
    let ip ← parseAddr host
    if v.utf8ByteSize ≤ 64 ∧ ip.family = .v4 ∧ ip.text = host ∧ ip.isUnspecified = false ∧
        ip.isMulticast = false ∧
        ip.value ≠ 2 ^ 32 - 1 ∧ legacy ip = false ∧ validPort port = true then some ip
    else none
  | _ => none

def hostRoute (ip : Addr) : String := String.ofList (ip.text ++ ['/', '3', '2'])

/-! ## Keys -/

/-- What the client takes from libraries. -/
structure Prims (File : Type) where
  codec : Codec File
  /-- `base64.StdEncoding.DecodeString`. -/
  decodeBase64 : String → Option Bytes
  /-- `base64.StdEncoding.EncodeToString`. -/
  encodeBase64 : Bytes → String
  decode_encode : ∀ b, decodeBase64 (encodeBase64 b) = some b
  /-- Only no bytes give the empty text. -/
  encode_ne : ∀ b, b ≠ [] → encodeBase64 b ≠ ""
  seedPublic : Bytes → Bytes
  seedPublic_length : ∀ seed, (seedPublic seed).length = 32
  /-- `ed25519.Sign` over the texts of a request, in base64. -/
  sign : Bytes → List String → String
  /-- `curve25519.X25519` with the base point. -/
  x25519Base : Bytes → Option Bytes
  /-- `curve25519.X25519` with the probe succeeds. -/
  probe : ℕ → Bool
  profileDigest : Profile → String
  bodyDigest : Body → String
  /-- `New`: the server in its only form. -/
  parseServer : String → Option String

section

variable {File : Type} (s : Prims File)

def newKeyFromSeed (seed : Bytes) : Bytes := seed ++ s.seedPublic seed

def privateKey (v : String) : Option Bytes := do
  let b ← s.decodeBase64 v
  if b.length = 64 ∧ s.encodeBase64 b = v ∧ newKeyFromSeed s (b.take 32) = b then some b else none

def publicKey (key : Bytes) : String := s.encodeBase64 (key.drop 32)

def clamped (b : Bytes) : Bool :=
  b.any (· ≠ 0) && (b[0]?.any fun x => x &&& 7 = 0) && b[31]?.any fun x =>
    x &&& 0x80 = 0 ∧ x &&& 0x40 ≠ 0

/-- `wireGuardKey`, with the public key. -/
def wireGuardKey (v : String) : Option String := do
  let b ← s.decodeBase64 v
  if b.length = 32 ∧ s.encodeBase64 b = v ∧ clamped b = true then
    let pub ← s.x25519Base b
    some (s.encodeBase64 pub)
  else none

def validPublic (v : String) : Bool :=
  (s.decodeBase64 v).any fun b => b.length = 32 && s.encodeBase64 b = v && b.any (· ≠ 0)

/-- `ValidWireGuardPublicKey`: below the prime, and not of low order. -/
def validWireGuardPublicKey (v : String) : Bool :=
  (keyValue v).any fun n => ofDigits 256 (digits 256 32 n).reverse < 2 ^ 255 - 19 && s.probe n

def validateProxyRouteProfile (p : Profile) : Bool :=
  p.version = 1 && !(p.revision < 1 ∨ proxySafeInteger < p.revision) &&
    proxyIdentifier p.authorityEpoch 256 &&
    proxyIdentifier p.managedBy 256 && proxyIdentifier p.egressId 256 &&
      proxyIdentifier p.egressName 128 &&
    proxyInterface p.wgInterface && validWireGuardPublicKey s p.wgPublicKey &&
    (proxyIPv4Endpoint p.wgEndpoint).isSome &&
    (proxyIPv4Endpoint p.proxyAddress).any fun ip => proxyPrivateIPv4 ip &&
      p.allowedIps = [hostRoute ip]

def proxyRouteProfileDigest (p : Profile) : Option String :=
  if validateProxyRouteProfile s p then some (s.profileDigest p) else none

/-! ## Load and save -/

def validKeys (st : State) : Bool :=
  if st.privateKey ≠ "" then (privateKey s st.privateKey).isSome
  else st.credential.isNone && st.pending.isNone

def validCredential (st : State) (c : Credential) : Bool :=
  ((privateKey s st.privateKey).any fun key => c.authPublicKey = publicKey s key) &&
    hexID c.deviceId &&
    hexID c.credentialId && decide (1 ≤ c.expiresUnixSeconds)

def validBinding (st : State) (w : LocalBinding) : Bool :=
  st.credential.isSome && wireGuardKey s w.privateKey = some w.publicKey &&
    decide (0 ≤ w.generation) &&
    decide (w.generation ≤ proxySafeInteger) && decide (0 ≤ w.appliedGeneration) &&
    decide (w.appliedGeneration ≤ w.generation) &&
    if w.generation = 0 then w.address = "" && w.operationID = "" && w.appliedGeneration = 0
    else hostAddress w.address && hexID w.operationID

def validProfile (st : State) (p : Profile) : Bool :=
  (st.wireGuard.any fun w => w.generation ≠ 0) && validateProxyRouteProfile s p

def Command.saved : Command → Bool
  | .activate => true
  | .apply => true
  | .disable => true
  | .revoke => true
  | .rotateCredential => true
  | _ => false

/-- A kind that changes the desired state of the device. -/
def Command.mutates : Command → Bool
  | .apply => true
  | .disable => true
  | .revoke => true
  | _ => false

def validBindAddress (st : State) (p : Intent) : Bool :=
  p.bindAddress = "" || (p.kind = .apply && hostAddress p.bindAddress &&
    (st.wireGuard.any fun w => p.expectedGeneration.any fun g => w.generation ≤ g))

def validIntent (st : State) (p : Intent) : Bool :=
  p.kind.saved && hexID p.requestID &&
    (if p.kind = .rotateCredential then st.credential.isSome &&
      (privateKey s p.newPrivateKey).isSome
      else p.newPrivateKey = "") &&
    !(p.kind = .activate && st.credential.isSome) &&
    (if p.kind.mutates then st.credential.isSome && identifier p.idempotencyKey 128 &&
        p.expectedGeneration.any fun g => 0 ≤ g && g ≠ maxInt64
      else p.idempotencyKey = "" && p.expectedGeneration.isNone) &&
    validBindAddress st p

/-- All checks of a state. -/
def valid (st : State) : Bool :=
  st.version = version && validKeys s st && st.credential.all (validCredential s st) &&
    st.wireGuardInitialized = st.wireGuard.isSome && st.wireGuard.all (validBinding s st) &&
    st.proxyProfile.all (validProfile s st) && st.pending.all (validIntent s st)

/-- `strictDecode` of a state. -/
def decode (file : File) : Option State :=
  strictDecode s.codec.toReader (2 ^ 20) limits stateShape decodeState file

/-- `privateStore.load` of what the read gives: an error, no file or a file. -/
def load : Option (Option File) → Option State
  | none => none
  | some none => some .zero
  | some (some file) =>
    if maxStateBytes < s.codec.size file then none else (decode s file).filter fun st => valid s st

def file (st : State) : File := s.codec.print (encodeState st)

end

end DaxiangVpn.DeviceClient
