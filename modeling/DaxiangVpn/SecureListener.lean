import DaxiangVpn.CheckedSteps
import DaxiangVpn.HexTexts
import DaxiangVpn.TransitionRun

/-!
# The secure listener of the reverse hub

A listener authorizes egress sessions by a registry file. Before a registry is published, its
generation and hash are committed to a watermark file beside it. Sessions are admitted under the
lock that publishes a registry, and every refresh closes the sessions that it no longer authorizes.
-/

namespace DaxiangVpn.SecureListener

open CheckedSteps HexTexts

abbrev Bytes := List UInt8

/-- Nanoseconds since the zero time. -/
abbrev Time := ℤ

/-- An unsigned integer of sixty-four bits. -/
abbrev Generation := Fin (2 ^ 64)

/-! ## The registry -/

def secureMaxOverlap : ℤ := 15 * 60 * 1000000000

def secureMaxSessionsPerEgress : ℕ := 2

/-- `secureCredential`. -/
structure Credential where
  credentialID : String
  leafSHA256 : String
  state : String
  notBefore : Time
  expiresAt : Time

/-- `secureEgress`. A list may be missing. -/
structure Egress where
  egressID : String
  state : String
  credentials : Option (List Credential)

/-- `secureRegistry`. -/
structure Registry where
  schemaVersion : ℤ
  generation : Generation
  hubID : String
  egresses : Option (List Egress)

/-- `securePolicyWatermark`. -/
structure Watermark where
  schemaVersion : ℤ
  generation : Generation
  sha256 : String

def validSecureID (s : String) : Bool :=
  !(s.utf8ByteSize < 1 ∨ 64 < s.utf8ByteSize) && s.toList.all fun c =>
    ('a' ≤ c ∧ c ≤ 'z') || ('A' ≤ c ∧ c ≤ 'Z') || ('0' ≤ c ∧ c ≤ '9') || c = '-' || c = '_'

/-- Hexadecimal text of thirty-two bytes in lower case. -/
def lowerHash (s : String) : Bool := lowerHex 64 s

def knownState (state : String) : Bool := state = "active" || state = "revoked"

/-- The checks of one credential after the names and hashes before it. -/
def validCredential (ids hashes : List String) (c : Credential) : Bool :=
  lowerHash c.leafSHA256 && !(c.leafSHA256 ∈ hashes) && validSecureID c.credentialID &&
    !(c.credentialID ∈ ids) && knownState c.state && !(c.notBefore = 0) &&
      decide (c.notBefore < c.expiresAt)

/-- The checks of credentials one by one; gives the hashes seen. -/
def validCredentials : List String → List String → List Credential → Option (List String)
  | _, hashes, [] => some hashes
  | ids, hashes, c :: rest =>
    if validCredential ids hashes c then validCredentials (c.credentialID :: ids)
        (c.leafSHA256 :: hashes) rest
    else none

/-- Two active credentials overlap for too long. -/
def overlap : List Credential → Bool
  | [a, b] => secureMaxOverlap < min a.expiresAt b.expiresAt - max a.notBefore b.notBefore
  | _ => false

/-- The checks of one egress after the names and hashes before it; gives the hashes seen. -/
def validEgress (ids hashes : List String) (e : Egress) : Option (List String) := do
  if !validSecureID e.egressID || e.egressID ∈ ids || !knownState e.state then none
  else
    let credentials ← e.credentials
    if 2 < credentials.length || (e.state = "active" && credentials.isEmpty) then none
    else
      let seen ← validCredentials [] hashes credentials
      if overlap (credentials.filter fun c => c.state = "active") then none else some seen

def validEgresses : List String → List String → List Egress → Bool
  | _, _, [] => true
  | ids, hashes, e :: rest =>
    (validEgress ids hashes e).any fun seen => validEgresses (e.egressID :: ids) seen rest

def validateSecureRegistry (p : Registry) (hubID : String) : Bool :=
  !(p.schemaVersion ≠ 1 ∨ p.generation = 0 ∨ p.hubID ≠ hubID) &&
    p.egresses.any fun egresses => !(128 < egresses.length) && validEgresses [] [] egresses

/-! ## Certificates -/

/-- The uses of a key that the listener tells apart. -/
inductive ExtKeyUsage
  | clientAuth
  | serverAuth
  | other
  deriving DecidableEq

/-- A name of a certificate. -/
structure Uri where
  scheme : String
  host : String
  user : Bool
  rawQuery : String
  fragment : String
  rawPath : String
  path : String
  deriving DecidableEq

structure Certificate where
  raw : Bytes
  isCA : Bool
  uris : List Uri
  extKeyUsage : List ExtKeyUsage
  unknownExtKeyUsage : ℕ
  digitalSignature : Bool
  notBefore : Time
  notAfter : Time
  deriving DecidableEq

inductive Role
  | hub
  | egress

/-- The path before the name. -/
def Role.path : Role → String
  | .hub => "/hub/"
  | .egress => "/egress/"

def Role.usage : Role → ExtKeyUsage
  | .hub => .serverAuth
  | .egress => .clientAuth

/-- `secureSessionIdentity`. -/
structure Identity where
  egressID : String
  credentialID : String
  leafSHA256 : String
  expiresAt : Time

/-- Why a certificate is not authorized. -/
inductive Denial
  | trust
  | leaf
  | egressRevoked
  | credentialRevoked
  | outsideValidity
  /-- The credential is valid for longer than the certificate. -/
  | exceedsCertificate
  | credentialUnknown
  | egressUnknown

/-- What the listener takes from libraries. `File` is the text of a watermark, `Roots` a pool of
authorities. -/
structure Prims (File Roots : Type) where
  /-- `decodeSecureJSON` of a registry. -/
  decodeRegistry : Bytes → Option Registry
  /-- Hash in hexadecimal text. -/
  digest : Bytes → String
  /-- `decodeSecureJSON` of a watermark. -/
  readMark : File → Option Watermark
  /-- `json.Marshal` of a watermark. -/
  printMark : Watermark → File
  readMark_print : ∀ m, readMark (printMark m) = some m
  /-- `verifySecureChain` for a client. -/
  verifyChain : List Certificate → Roots → Time → Bool

section

variable {File Roots : Type} (s : Prims File Roots)

/-- `secureCertificateIdentity` with no expected name. -/
def secureCertificateIdentity (cert : Certificate) (role : Role) : Option String :=
  match cert.uris, cert.extKeyUsage with
  | [uri], [usage] =>
    if cert.isCA ∨ cert.unknownExtKeyUsage ≠ 0 ∨ !cert.digitalSignature ∨ usage ≠ role.usage ∨
        uri.scheme ≠ "spiffe" ∨ uri.host ≠ "zhvpn" ∨ uri.user ∨ uri.rawQuery ≠ "" ∨
        uri.fragment ≠ "" ∨
        uri.rawPath ≠ "" ∨ !role.path.toList.isPrefixOf uri.path.toList then none
    else
      let id := String.ofList (uri.path.toList.drop role.path.length)
      if validSecureID id then some id else none
  | _, _ => none

def checkCredential (id : String) (leaf : Certificate) (now : Time) (c : Credential) :
    Except Denial Identity := do
  deny (c.state ≠ "active") .credentialRevoked
  deny (now < c.notBefore ∨ c.expiresAt ≤ now) .outsideValidity
  deny (c.notBefore < leaf.notBefore ∨ leaf.notAfter < c.expiresAt) .exceedsCertificate
  pure ⟨id, c.credentialID, c.leafSHA256, c.expiresAt⟩

def authorizeSecureEgress (p : Registry) (certs : List Certificate) (roots : Roots) (now : Time) :
    Except Denial Identity := do
  deny (!s.verifyChain certs roots now) .trust
  let leaf ← demand certs.head? .trust
  let id ← demand (secureCertificateIdentity leaf .egress) .leaf
  let e ← demand ((p.egresses.getD []).find? fun e => e.egressID = id) .egressUnknown
  deny (e.state ≠ "active") .egressRevoked
  let c ← demand ((e.credentials.getD []).find? fun c => c.leafSHA256 = s.digest leaf.raw)
    .credentialUnknown
  checkCredential id leaf now c

/-- `loadSecureRegistry` of what was read. -/
def loadSecureRegistry (data : Option Bytes) (hubID : String) : Option (Registry × String) := do
  let raw ← data
  let p ← s.decodeRegistry raw
  if validateSecureRegistry p hubID then some (p, s.digest raw) else none

/-! ## The watermark -/

/-- Why a registry is not published. -/
inductive Refusal
  | closed
  /-- The authorities cannot be loaded. -/
  | roots
  /-- The certificate of the hub cannot be loaded. -/
  | certificate
  | registry
  /-- The registry is behind the live generation. -/
  | liveRollback
  /-- The watermark cannot be read. -/
  | markUnreadable
  | markMissing
  | markInvalid
  /-- The registry is behind the watermark. -/
  | markRollback
  /-- The watermark cannot be written. -/
  | storage

structure CommitEnv where
  /-- The watermark cannot be read. -/
  unreadable : Bool
  /-- The new file cannot be prepared. -/
  unprepared : Bool
  /-- The replacement reports an error, and may still have taken effect. -/
  replaceError : Option Bool
  /-- The directory cannot be synced. -/
  unsynced : Bool

def validMark (old : Watermark) : Bool :=
  !(old.schemaVersion ≠ 1 ∨ old.generation = 0) && lowerHash old.sha256

def writeMark (mark : Option File) (new : Watermark) (env : CommitEnv) :
    Option File × Except Refusal Unit :=
  if env.unprepared then (mark, .error .storage)
  else (if env.replaceError.getD true then some (s.printMark new) else mark,
    deny (env.replaceError.isSome || env.unsynced) .storage)

/-- The commit over what was read from an existing watermark. -/
def commitOver (mark : Option File) (p : Registry) (digest : String) (env : CommitEnv) :
    Option Watermark → Option File × Except Refusal Unit
  | none => (mark, .error .markInvalid)
  | some old =>
    if !validMark old then (mark, .error .markInvalid)
    else if p.generation < old.generation ∨
        (p.generation = old.generation ∧ digest ≠ old.sha256) then
      (mark, .error .markRollback)
    else if p.generation = old.generation then (mark, .ok ())
    else writeMark s mark ⟨1, p.generation, digest⟩ env

/-- `commitSecureWatermark`: the watermark after it, and its result. -/
def commitSecureWatermark (mark : Option File) (p : Registry) (digest : String) (create : Bool)
    (env : CommitEnv) : Option File × Except Refusal Unit :=
  if env.unreadable then (mark, .error .markUnreadable)
  else
    match mark with
    | none => if create then writeMark s none ⟨1, p.generation, digest⟩ env
        else (none, .error .markMissing)
    | some file => commitOver s (some file) p digest env (s.readMark file)

/-- `initializeSecureRegistry` under the lock: the watermark after it. -/
def initializeSecureRegistry (mark : Option File) (unreadable : Bool) (data : Option Bytes)
    (hubID : String) (env : CommitEnv) : Option File :=
  if unreadable || mark.isSome then mark
  else
    match loadSecureRegistry s data hubID with
    | none => mark
    | some (p, digest) => if p.generation ≠ 1 then mark
        else (commitSecureWatermark s mark p digest true env).1

/-! ## The listener -/

/-- `securePolicySnapshot`. -/
structure Snapshot (Roots : Type) where
  registry : Registry
  roots : Roots

/-- `secureYamuxSession`. -/
structure Session where
  id : ℕ
  identity : Identity
  certificates : List Certificate

/-- `secureTCPServer`, with the handshakes under way and the sessions that are closed. -/
structure Server (Roots : Type) where
  hubID : String
  snapshot : Option (Snapshot Roots)
  generation : Generation
  lastDigest : String
  /-- The last refresh failed. -/
  degraded : Bool
  rejected : ℕ
  closedUnauthorized : ℕ
  active : List Session
  closed : Bool
  /-- Handshakes between the two checks, with their certificates. -/
  waiting : List (ℕ × List Certificate)
  shut : List ℕ
  next : ℕ

/-- A listener before its first refresh. -/
def newServer (hubID : String) : Server Roots :=
  ⟨hubID, none, 0, "", false, 0, 0, [], false, [], [], 0⟩

structure RefreshEnv (Roots : Type) where
  /-- Authorities, if they can be loaded. -/
  roots : Option Roots
  /-- The certificate of the hub can be loaded. -/
  certificate : Bool
  registry : Option Bytes
  commit : CommitEnv
  now : Time

def loadPolicy (sv : Server Roots) (env : RefreshEnv Roots) :
    Except Refusal (Snapshot Roots × String) := do
  let roots ← demand env.roots .roots
  deny (!env.certificate) .certificate
  let loaded ← demand (loadSecureRegistry s env.registry sv.hubID) .registry
  deny (loaded.1.generation < sv.generation ∨
  (loaded.1.generation = sv.generation ∧ loaded.2 ≠ sv.lastDigest))
    .liveRollback
  pure (⟨loaded.1, roots⟩, loaded.2)

def commitLoaded (mark : Option File) (env : CommitEnv) :
    Except Refusal (Snapshot Roots × String) →
    Option File × Except Refusal (Snapshot Roots × String)
  | .error e => (mark, .error e)
  | .ok (snapshot, digest) =>
    ((commitSecureWatermark s mark snapshot.registry digest false env).1,
      (commitSecureWatermark s mark snapshot.registry digest false env).2.map fun _ =>
        (snapshot, digest))

def authorized (now : Time) : Except Refusal (Snapshot Roots × String) → Session → Bool
  | .error _, _ => false
  | .ok (snapshot, _), session =>
    (authorizeSecureEgress s snapshot.registry session.certificates snapshot.roots now).toBool

/-- Publish the result, before the sessions are looked at. -/
def publish (sv : Server Roots) : Except Refusal (Snapshot Roots × String) → Server Roots
  | .error _ => { sv with snapshot := none, degraded := true }
  | .ok (snapshot, digest) =>
    { sv with snapshot := some snapshot, degraded := false, generation := snapshot.registry.generation
              lastDigest := digest }

/-- Close and delete the sessions that are not authorized. -/
def prune (sv : Server Roots) (valid : Session → Bool) : Server Roots :=
  { sv with active := sv.active.filter valid
            shut := (sv.active.filter fun x => !valid x).map Session.id ++ sv.shut
            closedUnauthorized := sv.closedUnauthorized +
              (sv.active.filter fun x => !valid x).length }

structure Refreshed (File Roots : Type) where
  server : Server Roots
  mark : Option File
  result : Except Refusal (Snapshot Roots × String)

def refresh (sv : Server Roots) (mark : Option File)
    (env : RefreshEnv Roots) : Refreshed File Roots :=
  if sv.closed then ⟨sv, mark, .error .closed⟩
  else
    let committed := commitLoaded s mark env.commit (loadPolicy s sv env)
    ⟨prune (publish sv committed.2) (authorized s env.now committed.2), committed.1, committed.2⟩

def close (sv : Server Roots) : Server Roots :=
  { sv with closed := true, active := [], shut := sv.active.map Session.id ++ sv.shut }

def reject (sv : Server Roots) : Server Roots := { sv with rejected := sv.rejected + 1 }

def openSessions (sv : Server Roots) (egressID : String) : List Session :=
  sv.active.filter fun x => x.identity.egressID = egressID ∧ x.id ∉ sv.shut

/-- The check of `handle` under the lock, made before and after the acknowledgement. -/
def admission (sv : Server Roots) (certs : List Certificate) (now : Time) : Option Identity := do
  let p ← sv.snapshot
  if sv.closed then none
  else
    let identity ← (authorizeSecureEgress s p.registry certs p.roots now).toOption
    if secureMaxSessionsPerEgress ≤ (openSessions sv identity.egressID).length ∨
        256 ≤ sv.active.length then none
    else some identity

/-- The first check of `handle`. -/
def handshake (sv : Server Roots) (certs : List Certificate) (now : Time) : Server Roots :=
  match admission s sv certs now with
  | none => reject sv
  | some _ => { sv with waiting := (sv.next, certs) :: sv.waiting, next := sv.next + 1 }

/-- The second check of `handle`, which inserts the session. -/
def enter (sv : Server Roots) (id : ℕ) (now : Time) : Server Roots :=
  match sv.waiting.lookup id with
  | none => sv
  | some certs =>
    let rest := { sv with waiting := sv.waiting.filter fun h => h.1 ≠ id }
    match admission s sv certs now with
    | none => reject rest
    | some identity => { rest with active := ⟨id, identity, certs⟩ :: sv.active }

/-- The acknowledgement or the session fails between the two checks. -/
def abandon (sv : Server Roots) (id : ℕ) : Server Roots :=
  reject { sv with waiting := sv.waiting.filter fun h => h.1 ≠ id }

def closeSession (sv : Server Roots) (id : ℕ) : Server Roots := { sv with shut := id :: sv.shut }

/-- The end of `handle` after its session is closed. -/
def finish (sv : Server Roots) (id : ℕ) : Server Roots :=
  if id ∈ sv.shut then { sv with active := sv.active.filter fun x => x.id ≠ id } else sv

/-! ## Processes -/

/-- A snapshot that was published, with the watermark on disk at that moment. -/
structure Published (File : Type) where
  generation : Generation
  digest : String
  mark : Option File

/-- The disk, the process that holds the lock or held it last, and what was ever published. -/
structure World (File Roots : Type) where
  mark : Option File
  server : Option (Server Roots)
  log : List (Published File)

/-- What happens. -/
inductive Event (Roots : Type)
  /-- `initializeSecureRegistry`. -/
  | initRegistry (unreadable : Bool) (data : Option Bytes) (hubID : String) (env : CommitEnv)
  /-- `newSecureTCPServer`. -/
  | start (hubID : String) (env : RefreshEnv Roots)
  | refresh (env : RefreshEnv Roots)
  | handshake (certs : List Certificate) (now : Time)
  /-- The second check of a handshake. -/
  | enter (id : ℕ) (now : Time)
  /-- A handshake fails between the checks. -/
  | abandon (id : ℕ)
  | closeSession (id : ℕ)
  /-- A closed session leaves the active set. -/
  | finish (id : ℕ)
  | close
  /-- The process ends. -/
  | crash
  /-- The process ends in a refresh, after the watermark and before the publication. -/
  | crashRefresh (env : RefreshEnv Roots)
  /-- The process ends in its first refresh, after the watermark and before the publication. -/
  | crashStart (hubID : String) (env : RefreshEnv Roots)

/-- A process holds the lock. -/
def World.locked (w : World File Roots) : Bool := w.server.any fun sv => !sv.closed

def Refreshed.published (r : Refreshed File Roots) : List (Published File) :=
  match r.result with
  | .error _ => []
  | .ok (snapshot, digest) => [⟨snapshot.registry.generation, digest, r.mark⟩]

def World.refreshed (w : World File Roots) (r : Refreshed File Roots) : World File Roots :=
  ⟨r.mark, some r.server, w.log ++ r.published⟩

def World.started (w : World File Roots) (r : Refreshed File Roots) : World File Roots :=
  match r.result with
  | .error _ => ⟨r.mark, none, w.log⟩
  | .ok _ => w.refreshed r

def step (w : World File Roots) : Event Roots → World File Roots
  | .initRegistry unreadable data hubID env =>
    if w.locked then w
    else { w with mark := initializeSecureRegistry s w.mark unreadable data hubID env }
  | .start hubID env => if w.locked then w else w.started (refresh s (newServer hubID) w.mark env)
  | .refresh env =>
    match w.server with
    | none => w
    | some sv => w.refreshed (refresh s sv w.mark env)
  | .handshake certs now => { w with server := w.server.map fun sv => handshake s sv certs now }
  | .enter id now => { w with server := w.server.map fun sv => enter s sv id now }
  | .abandon id => { w with server := w.server.map fun sv => abandon sv id }
  | .closeSession id => { w with server := w.server.map fun sv => closeSession sv id }
  | .finish id => { w with server := w.server.map fun sv => finish sv id }
  | .close => { w with server := w.server.map close }
  | .crash => { w with server := none }
  | .crashRefresh env =>
    match w.server with
    | none => w
    | some sv => ⟨(refresh s sv w.mark env).mark, none, w.log⟩
  | .crashStart hubID env =>
    if w.locked then w else ⟨(refresh s (newServer hubID) w.mark env).mark, none, w.log⟩

/-- The world before any process, with what is on disk. -/
def init (mark : Option File) : World File Roots := ⟨mark, none, []⟩

end

end DaxiangVpn.SecureListener
