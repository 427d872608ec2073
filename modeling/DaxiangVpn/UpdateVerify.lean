import DaxiangVpn.CheckedSteps
import DaxiangVpn.HexTexts
import DaxiangVpn.StrictJson
import DaxiangVpn.UpdateVersions

/-!
# Verification of a signed update

A candidate is a signed envelope of metadata and an artifact. It is checked against the policy and
the receipt of the last candidate that was accepted. The JSON reader and writer, the hash and the
signature scheme are parameters; the hash gives hexadecimal text of thirty-two bytes.
-/

namespace DaxiangVpn.UpdateVerify

open CheckedSteps HexTexts UpdateVersions List Option

abbrev Bytes := List UInt8

/-! ## Records -/

def maxMetadataBytes : ℕ := 16 * 1024

def maxEnvelopeBytes : ℕ := 24 * 1024

def maxArtifactBytes : ℤ := 8 * 2 ^ 30

def maxSafeInteger : ℕ := 9007199254740991

def second : ℤ := 1000000000

def maxValidity : ℤ := 30 * 24 * 3600 * second

def maxTimestamp : ℤ := 253402300799

def stagingStatus : String := "verified_for_staging"

structure Scope where
  product : String
  platform : String
  architecture : String
  channel : String
  deriving DecidableEq

structure Metadata where
  product : String
  platform : String
  architecture : String
  channel : String
  version : String
  protocol : ℕ
  sourceCommit : String
  artifactName : String
  artifactSize : ℤ
  artifactSHA256 : String
  issuedAt : ℤ
  expiresAt : ℤ
  releaseSequence : ℕ
  securityVersion : ℕ
  securityFloor : ℕ
  deriving DecidableEq

structure Key where
  id : String
  publicKey : Bytes
  validFrom : ℤ
  validUntil : ℤ
  minSequence : ℕ
  maxSequence : ℕ
  deriving DecidableEq

structure Policy where
  scope : Scope
  minVersion : String
  minProtocol : ℕ
  maxProtocol : ℕ
  minSequence : ℕ
  securityFloor : ℕ
  maxArtifactSize : ℤ
  maxValidity : ℤ
  keys : List Key
  deriving DecidableEq

structure Receipt where
  schemaVersion : ℤ
  status : String
  keyID : String
  metadataSHA256 : String
  metadata : Metadata
  verifiedAt : ℤ
  /-- The same metadata was verified before. -/
  idempotent : Bool
  deriving DecidableEq

structure Envelope where
  schemaVersion : ℤ
  keyID : String
  metadata : Bytes
  signature : String

/-- The value that `json.Marshal` writes for metadata. -/
def encodeMetadata (m : Metadata) : StrictJson.Json :=
  StrictJson.obj [("product", .string m.product), ("platform", .string m.platform),
    ("architecture", .string m.architecture), ("channel", .string m.channel),
    ("version", .string m.version), ("protocol", StrictJson.ofNat m.protocol),
    ("source_commit", .string m.sourceCommit), ("artifact_name", .string m.artifactName),
    ("artifact_size", StrictJson.ofInt m.artifactSize),
    ("artifact_sha256", .string m.artifactSHA256), ("issued_at", StrictJson.ofInt m.issuedAt),
    ("expires_at", StrictJson.ofInt m.expiresAt),
    ("release_sequence", StrictJson.ofNat m.releaseSequence),
    ("security_version", StrictJson.ofNat m.securityVersion),
    ("security_floor", StrictJson.ofNat m.securityFloor)]

/-- Errors of a verification. A cancelled context may be reported with another error. -/
inductive Err
  /-- `ErrPolicy`. -/
  | policy
  /-- The context is done. -/
  | cancelled
  /-- `ErrMetadata`. -/
  | metadata
  /-- `ErrSignature`. -/
  | signature
  /-- `ErrPrevious`. -/
  | previous
  /-- `ErrReplay`. -/
  | replay
  /-- `ErrRollback`. -/
  | rollback
  /-- `ErrArtifact`. -/
  | artifact (cancelled : Bool)
  deriving DecidableEq

/-! ## Texts -/

/-- Lower-case hexadecimal text of so many bytes. -/
def exactHex (s : String) (size : ℕ) : Bool := lowerHex (2 * size) s

def validKeyID (s : String) : Bool :=
  s.utf8ByteSize ≤ 64 && (s.toList.head?.any fun c => 'a' ≤ c ∧ c ≤ 'z') &&
    s.toList.all fun c => ('a' ≤ c ∧ c ≤ 'z') || isDigit c || c = '-'

def isAlphanumeric (c : Char) : Bool := ('a' ≤ c ∧ c ≤ 'z') || ('A' ≤ c ∧ c ≤ 'Z') || isDigit c

def artifactName (s : String) : Bool :=
  s.utf8ByteSize ≤ 128 && s.toList.head?.any isAlphanumeric &&
    s.toList.all fun c => isAlphanumeric c || c = '.' || c = '_' || c = '-'

def products : List String :=
  ["cli", "desktop-gui", "python-sdk", "hub", "reverse", "android-control"]

def platforms : List String := ["windows", "darwin", "linux", "android"]

def architectures : List String := ["amd64", "arm64"]

def channels : List String := ["stable", "beta", "development"]

def validScope (s : Scope) : Bool :=
  s.product ∈ products && s.platform ∈ platforms && s.architecture ∈ architectures &&
    s.channel ∈ channels

def Metadata.scope (m : Metadata) : Scope := ⟨m.product, m.platform, m.architecture, m.channel⟩

def safePositive (n : ℕ) : Bool := 0 < n ∧ n ≤ maxSafeInteger

def released (m : Metadata) (v : Version) : Bool := m.channel ≠ "stable" || v.pre = []

def validateMetadata (m : Metadata) : Bool :=
  validScope m.scope && (parseVersion m.version).any (released m) &&
    !(m.protocol = 0 ∨ 1024 < m.protocol) && exactHex m.sourceCommit 20 &&
      artifactName m.artifactName &&
    !(m.artifactSize ≤ 0 ∨ maxArtifactBytes < m.artifactSize) && exactHex m.artifactSHA256 32 &&
    !(m.issuedAt ≤ 0 ∨ m.expiresAt ≤ m.issuedAt ∨ maxTimestamp < m.expiresAt ∨
      UpdateVerify.maxValidity / second < m.expiresAt - m.issuedAt) &&
    safePositive m.releaseSequence && safePositive m.securityVersion &&
      safePositive m.securityFloor &&
    !(m.securityVersion < m.securityFloor)

/-! ## Verification -/

/-- What the verification takes from libraries. -/
structure Prims where
  readEnvelope : Bytes → Option Envelope
  readMetadata : Bytes → Option Metadata
  /-- `json.Marshal` of metadata. -/
  marshal : Metadata → Bytes
  digest : Bytes → String
  /-- `ed25519.Verify`, with the signature in hexadecimal text. -/
  verified : Bytes → Bytes → String → Bool
  allowedPublicKey : Bytes → Bool
  /-- A hash is hexadecimal text of thirty-two bytes. -/
  digest_hex : ∀ raw, exactHex (digest raw) 32 = true

/-- The check of one key after the ones before it. -/
def validKey (s : Prims) (earlier : List Key) (key : Key) : Bool :=
  validKeyID key.id && s.allowedPublicKey key.publicKey &&
    !(key.validFrom ≤ 0 ∨ key.validUntil ≤ key.validFrom ∨ maxTimestamp < key.validUntil ∨
      5 * 366 * 24 * 60 * 60 < key.validUntil - key.validFrom) &&
    safePositive key.minSequence && safePositive key.maxSequence &&
      !(key.maxSequence < key.minSequence) &&
    !(earlier.any fun k => k.publicKey = key.publicKey) && !(earlier.any fun k => k.id = key.id)

def validKeys (s : Prims) : List Key → List Key → Bool
  | _, [] => true
  | earlier, key :: rest => validKey s earlier key && validKeys s (earlier ++ [key]) rest

def validatePolicy (s : Prims) (p : Policy) : Bool :=
  validScope p.scope && (parseVersion p.minVersion).isSome &&
    !(p.minProtocol = 0 ∨ p.maxProtocol < p.minProtocol ∨ 1024 < p.maxProtocol) &&
    safePositive p.minSequence && safePositive p.securityFloor &&
    !(p.maxArtifactSize ≤ 0 ∨ maxArtifactBytes < p.maxArtifactSize) &&
    !(p.maxValidity < second ∨ UpdateVerify.maxValidity < p.maxValidity ∨
    p.maxValidity % second ≠ 0) &&
    !(p.keys.length = 0 ∨ 16 < p.keys.length) && validKeys s [] p.keys

def canonicalMetadata (s : Prims) (m : Metadata) : Option Bytes :=
  if validateMetadata m then some (s.marshal m) else none

def decodeMetadata (s : Prims) (raw : Bytes) : Option Metadata :=
  if raw.length = 0 ∨ maxMetadataBytes < raw.length then none
  else do
    let m ← s.readMetadata raw
    let canonical ← canonicalMetadata s m
    if raw = canonical then some m else none

/-- `validatePrevious` of a receipt. -/
def validPrevious (s : Prims) (r : Receipt) (p : Policy) (now : ℤ) : Bool :=
  (canonicalMetadata s r.metadata).any (fun raw => decide (s.digest raw = r.metadataSHA256)) &&
    r.schemaVersion = 1 && r.status = stagingStatus && validKeyID r.keyID &&
      exactHex r.metadataSHA256 32 &&
    r.metadata.scope = p.scope &&
    !(r.verifiedAt < r.metadata.issuedAt ∨ r.metadata.expiresAt ≤ r.verifiedAt ∨ now < r.verifiedAt)

def validatePrevious (s : Prims) (previous : Option Receipt) (p : Policy) (now : ℤ) : Bool :=
  previous.all fun r => validPrevious s r p now

def signingDomain : Bytes := "zhvpn/update-metadata/v1\x00".toUTF8.toList

/-- Four bytes, the greatest one first. -/
def uint32BE (n : ℕ) : Bytes :=
  [UInt8.ofNat (n / 2 ^ 24), UInt8.ofNat (n / 2 ^ 16), UInt8.ofNat (n / 2 ^ 8), UInt8.ofNat n]

def signingBytes (keyID : String) (raw : Bytes) : Bytes :=
  signingDomain ++ uint32BE keyID.utf8ByteSize ++ keyID.toUTF8.toList ++ uint32BE raw.length ++ raw

/-- What a reader of the artifact gives until its end or an error. A context that is done while the
artifact is read is an error of the reader. -/
structure Artifact where
  content : Bytes
  /-- The reader ends with an error. -/
  fails : Bool

/-- The artifact has the size and the hash. At most one byte more is read. -/
def Artifact.matches (s : Prims) (a : Artifact) (m : Metadata) : Bool :=
  !(a.fails && decide ((a.content.length : ℤ) ≤ m.artifactSize)) &&
    decide ((a.content.length : ℤ) = m.artifactSize) && s.digest a.content = m.artifactSHA256

/-- Whether a context is done. -/
structure Context where
  atStart : Bool
  atEnd : Bool

/-- A call of `Verify`, except for the receipt. -/
structure Call where
  context : Option Context
  envelope : Bytes
  artifact : Option Artifact
  policy : Policy
  /-- Time in seconds. -/
  now : ℤ

def openEnvelope (s : Prims) (raw : Bytes) : Option Envelope :=
  if raw.length = 0 ∨ maxEnvelopeBytes < raw.length then none
  else do
    let e ← s.readEnvelope raw
    if e.schemaVersion = 1 ∧ validKeyID e.keyID = true ∧ exactHex e.signature 64 = true then some e
    else none

def refused (m : Metadata) (p : Policy) (now : ℤ) : Bool :=
  m.scope ≠ p.scope ∨ m.protocol < p.minProtocol ∨ p.maxProtocol < m.protocol ∨
    p.maxArtifactSize < m.artifactSize ∨ p.maxValidity / second < m.expiresAt - m.issuedAt ∨
    now < m.issuedAt ∨ m.expiresAt ≤ now

def unauthorized (key : Key) (m : Metadata) (now : ℤ) : Bool :=
  now < key.validFrom ∨ key.validUntil ≤ now ∨ m.issuedAt < key.validFrom ∨
  key.validUntil ≤ m.issuedAt ∨
    m.releaseSequence < key.minSequence ∨ key.maxSequence < m.releaseSequence

/-- The first version comes before the second one. Versions were read before. -/
def older (a b : String) : Bool :=
  match parseVersion a, parseVersion b with
  | some v, some w => compareVersion v w = .lt
  | _, _ => false

def belowPolicy (m : Metadata) (p : Policy) : Bool :=
  older m.version p.minVersion ∨ m.securityFloor < p.securityFloor ∨
  m.releaseSequence < p.minSequence

/-- The checks against the last receipt; gives whether the metadata is the same. -/
def compareReceipt (e : Envelope) (m : Metadata) (hash : String) : Option Receipt → Except Err Bool
  | none => pure false
  | some r => do
    deny (m.releaseSequence < r.metadata.releaseSequence) .replay
    deny (m.releaseSequence = r.metadata.releaseSequence ∧
    (hash ≠ r.metadataSHA256 ∨ e.keyID ≠ r.keyID)) .replay
    deny (older m.version r.metadata.version ∨ m.securityVersion < r.metadata.securityVersion ∨
      m.securityFloor < r.metadata.securityFloor) .rollback
    pure (m.releaseSequence = r.metadata.releaseSequence)

def verify (s : Prims) (previous : Option Receipt) (c : Call) : Except Err Receipt := do
  deny (!validatePolicy s c.policy) .policy
  let ctx ← demand c.context .policy
  let artifact ← demand c.artifact .policy
  deny (c.now ≤ 0 ∨ maxTimestamp < c.now) .policy
  deny ctx.atStart .cancelled
  let e ← demand (openEnvelope s c.envelope) .metadata
  let m ← demand (decodeMetadata s e.metadata) .metadata
  deny (refused m c.policy c.now) .metadata
  let key ← demand (c.policy.keys.find? fun k => k.id = e.keyID) .signature
  deny (unauthorized key m c.now) .signature
  deny (!s.verified key.publicKey (signingBytes e.keyID e.metadata) e.signature) .signature
  deny (!validatePrevious s previous c.policy c.now) .previous
  deny (belowPolicy m c.policy) .rollback
  let idempotent ← compareReceipt e m (s.digest e.metadata) previous
  deny (!artifact.matches s m) (.artifact ctx.atEnd)
  deny ctx.atEnd (.artifact true)
  pure ⟨1, stagingStatus, e.keyID, s.digest e.metadata, m, c.now, idempotent⟩

/-! ## What a receipt establishes -/

/-- Both texts are versions, and the first one does not come after the second one. -/
def Precedes (a b : String) : Prop :=
  ∃ v w, parseVersion a = some v ∧ parseVersion b = some w ∧ precedence v ≤ precedence w

theorem Precedes.trans {a b c : String} (hab : Precedes a b) (hbc : Precedes b c) :
    Precedes a c := by
  obtain ⟨v, w, hv, hw, hvw⟩ := hab
  obtain ⟨w', x, hw', hx, hwx⟩ := hbc
  obtain rfl : w = w' := Option.some.inj (hw.symm.trans hw')
  exact ⟨v, x, hv, hx, hvw.trans hwx⟩

theorem Precedes.refl {a : String} (h : (parseVersion a).isSome = true) : Precedes a a := by
  obtain ⟨v, hv⟩ := isSome_iff_exists.mp h
  exact ⟨v, v, hv, hv, le_refl _⟩

theorem older_false {a b : String} (ha : (parseVersion a).isSome = true)
    (hb : (parseVersion b).isSome = true) :
    older a b = false ↔ Precedes b a := by
  obtain ⟨v, hv⟩ := isSome_iff_exists.mp ha
  obtain ⟨w, hw⟩ := isSome_iff_exists.mp hb
  have holder : older a b = decide (compareVersion v w = .lt) := by
    rw [older, hv, hw]
  rw [holder, decide_eq_false_iff_not]
  constructor
  · intro h
    exact ⟨w, v, hw, hv, compareVersion_ne_lt.mp h⟩
  · rintro ⟨w', v', hw', hv', hle⟩
    obtain rfl : w = w' := Option.some.inj (hw.symm.trans hw')
    obtain rfl : v = v' := Option.some.inj (hv.symm.trans hv')
    exact compareVersion_ne_lt.mpr hle

structure Meets (m : Metadata) (p : Policy) : Prop where
  version : Precedes p.minVersion m.version
  protocol : p.minProtocol ≤ m.protocol ∧ m.protocol ≤ p.maxProtocol
  sequence : p.minSequence ≤ m.releaseSequence
  floor : p.securityFloor ≤ m.securityFloor

/-- The second receipt does not go back behind the first one. -/
structure Forward (a b : Receipt) : Prop where
  sequence : a.metadata.releaseSequence ≤ b.metadata.releaseSequence
  version : Precedes a.metadata.version b.metadata.version
  security : a.metadata.securityVersion ≤ b.metadata.securityVersion
  floor : a.metadata.securityFloor ≤ b.metadata.securityFloor
  same : a.metadata.releaseSequence = b.metadata.releaseSequence →
    a.metadataSHA256 = b.metadataSHA256 ∧ a.keyID = b.keyID

/-- Going forward is transitive: equal ends have no other sequence between them. -/
theorem Forward.trans {a b c : Receipt} (hab : Forward a b) (hbc : Forward b c) : Forward a c where
  sequence := hab.sequence.trans hbc.sequence
  version := hab.version.trans hbc.version
  security := hab.security.trans hbc.security
  floor := hab.floor.trans hbc.floor
  same := by
    intro h
    have hleft : a.metadata.releaseSequence = b.metadata.releaseSequence :=
      le_antisymm hab.sequence (h ▸ hbc.sequence)
    obtain ⟨hhash, hkey⟩ := hab.same hleft
    obtain ⟨hhash', hkey'⟩ := hbc.same (hleft ▸ h)
    exact ⟨hhash.trans hhash', hkey.trans hkey'⟩

structure Verified (s : Prims) (previous : Option Receipt) (c : Call) (r : Receipt) : Prop where
  policy : validatePolicy s c.policy = true
  clock : 0 < c.now ∧ c.now ≤ maxTimestamp
  verifiedAt : r.verifiedAt = c.now
  form : r.schemaVersion = 1 ∧ r.status = stagingStatus ∧ validKeyID r.keyID = true
  valid : validateMetadata r.metadata = true
  hash : r.metadataSHA256 = s.digest (s.marshal r.metadata)
  scope : r.metadata.scope = c.policy.scope
  window : r.metadata.issuedAt ≤ c.now ∧ c.now < r.metadata.expiresAt
  meets : Meets r.metadata c.policy
  trusted : validatePrevious s previous c.policy c.now = true
  forward : ∀ old ∈ previous, Forward old r

variable {s : Prims} {r : Receipt} {previous : Option Receipt} {c : Call} {calls rest : List Call}
  {m : Metadata} {p : Policy} {now : ℤ}

/-- Metadata that was read is valid, and its text is the canonical one. -/
theorem decodeMetadata_some {raw : Bytes} (h : decodeMetadata s raw = some m) :
    validateMetadata m = true ∧ raw = s.marshal m := by
  unfold decodeMetadata at h
  split_ifs at h with hsize
  obtain ⟨m', -, hcanon⟩ := bind_eq_some_iff.mp h
  obtain ⟨canonical, hcanonical, hsame⟩ := bind_eq_some_iff.mp hcanon
  split_ifs at hsame with heq
  obtain rfl : m' = m := Option.some.inj hsame
  unfold canonicalMetadata at hcanonical
  split_ifs at hcanonical with hvalid
  exact ⟨hvalid, heq.trans (Option.some.inj hcanonical).symm⟩

theorem openEnvelope_some {raw : Bytes} {e : Envelope} (h : openEnvelope s raw = some e) :
    validKeyID e.keyID = true := by
  unfold openEnvelope at h
  split_ifs at h with hsize
  obtain ⟨e', -, hform⟩ := bind_eq_some_iff.mp h
  split_ifs at hform with hvalid
  obtain rfl : e' = e := Option.some.inj hform
  exact hvalid.2.1

theorem validateMetadata_version (h : validateMetadata m = true) :
    (parseVersion m.version).isSome = true := by
  unfold validateMetadata at h
  simp only [Bool.and_eq_true] at h
  cases hv : parseVersion m.version with
  | none =>
    rw [hv] at h
    simp at h
  | some => rfl

theorem validatePolicy_version (h : validatePolicy s p = true) :
    (parseVersion p.minVersion).isSome = true := by
  unfold validatePolicy at h
  simp only [Bool.and_eq_true] at h
  tauto

theorem validPrevious_valid (h : validPrevious s r p now = true) :
    validateMetadata r.metadata = true := by
  unfold validPrevious canonicalMetadata at h
  by_contra hvalid
  simp [hvalid] at h

/-- The comparison with the last receipt lets only what goes forward pass. -/
theorem compareReceipt_ok {e : Envelope} {hash : String} {old : Receipt} {same : Bool}
    (hold : (parseVersion old.metadata.version).isSome = true)
    (hnew : (parseVersion m.version).isSome = true)
    (h : compareReceipt e m hash (some old) = .ok same) :
    Forward old ⟨1, stagingStatus, e.keyID, hash, m, now, same⟩ := by
  unfold compareReceipt at h
  rw [deny_bind_ok, deny_bind_ok, deny_bind_ok] at h
  obtain ⟨hreplay, hequivocal, hrollback, -⟩ := h
  simp only [decide_eq_false_iff_not, not_lt, not_and, not_or, not_not,
    Bool.not_eq_true] at hreplay hequivocal hrollback
  obtain ⟨hversion, hsecurity, hfloor⟩ := hrollback
  refine ⟨hreplay, (older_false hnew hold).mp hversion, hsecurity, hfloor, ?_⟩
  intro hsame
  obtain ⟨hhash, hkey⟩ := hequivocal hsame.symm
  exact ⟨hhash.symm, hkey.symm⟩

/-- A call that returns a receipt has passed every check. -/
theorem verify_ok (h : verify s previous c = .ok r) : Verified s previous c r := by
  unfold verify at h
  rw [deny_bind_ok, demand_bind_ok] at h
  obtain ⟨hpolicy, ctx, -, h⟩ := h
  rw [demand_bind_ok] at h
  obtain ⟨artifact, -, h⟩ := h
  rw [deny_bind_ok, deny_bind_ok, demand_bind_ok] at h
  obtain ⟨hclock, -, e, he, h⟩ := h
  rw [demand_bind_ok] at h
  obtain ⟨m, hm, h⟩ := h
  rw [deny_bind_ok, demand_bind_ok] at h
  obtain ⟨hrefused, key, -, h⟩ := h
  rw [deny_bind_ok, deny_bind_ok, deny_bind_ok, deny_bind_ok, bind_ok] at h
  obtain ⟨-, -, hprevious, hbelow, same, hcompare, h⟩ := h
  rw [deny_bind_ok, deny_bind_ok, pure_ok] at h
  obtain ⟨-, -, rfl⟩ := h
  obtain ⟨hvalid, hraw⟩ := decodeMetadata_some hm
  simp only [Bool.not_eq_false'] at hpolicy hprevious
  have hversion := validateMetadata_version hvalid
  have hminimum := validatePolicy_version hpolicy
  simp only [decide_eq_false_iff_not, not_or, not_lt, not_le] at hclock
  simp only [refused, decide_eq_false_iff_not, not_or, not_lt, not_le, not_not] at hrefused
  simp only [belowPolicy, decide_eq_false_iff_not, not_or, not_lt, Bool.not_eq_true] at hbelow
  obtain ⟨hscope, hleast, hgreatest, -, -, hissued, hexpires⟩ := hrefused
  obtain ⟨hfloorVersion, hfloor, hsequence⟩ := hbelow
  refine ⟨hpolicy, hclock, rfl, ⟨rfl, rfl, openEnvelope_some he⟩, hvalid, by rw [hraw], hscope,
    ⟨hissued, hexpires⟩,
    ⟨(older_false hversion hminimum).mp hfloorVersion, ⟨hleast, hgreatest⟩, hsequence, hfloor⟩,
      hprevious, ?_⟩
  intro old hold
  obtain rfl : previous = some old := hold
  exact compareReceipt_ok (validateMetadata_version (validPrevious_valid hprevious))
    hversion hcompare

/-- A receipt that was returned is accepted for every policy of its scope from then on. -/
theorem Verified.accepted (h : Verified s previous c r) (hscope : p.scope = c.policy.scope)
    (hnow : c.now ≤ now) : validatePrevious s (some r) p now = true := by
  obtain ⟨hschema, hstatus, hkey⟩ := h.form
  have hcanonical : canonicalMetadata s r.metadata = some (s.marshal r.metadata) := by
    rw [canonicalMetadata, if_pos h.valid]
  have hhex : exactHex r.metadataSHA256 32 = true := by
    rw [h.hash]
    exact s.digest_hex _
  have htime : ¬ (r.verifiedAt < r.metadata.issuedAt ∨ r.metadata.expiresAt ≤ r.verifiedAt ∨
    now < r.verifiedAt) := by
    rw [h.verifiedAt]
    obtain ⟨hissued, hexpires⟩ := h.window
    omega
  have hdigest : (s.digest (s.marshal r.metadata) = r.metadataSHA256) = True := by
    rw [h.hash, eq_self_iff_true]
  simp only [validatePrevious, all_some, validPrevious, hcanonical, any_some, hdigest,
    decide_true, hschema, hstatus, hkey, hhex, h.scope, hscope, htime, decide_false,
    Bool.not_false, Bool.and_self]

theorem compareReceipt_avoids (e : Envelope) (m : Metadata) (hash : String)
    (previous : Option Receipt) :
    compareReceipt e m hash previous ≠ .error .previous := by
  cases previous with
  | none => exact nofun
  | some =>
    unfold compareReceipt
    refine deny_bind_avoids fun _ => ?_
    refine deny_bind_avoids fun _ => ?_
    refine deny_bind_avoids fun _ => ?_
    exact nofun

/-- Only a last receipt that is refused gives the error of one. -/
theorem verify_avoids
    (h : validatePrevious s previous c.policy c.now = true) :
    verify s previous c ≠ .error .previous := by
  unfold verify
  refine deny_bind_avoids fun _ => ?_
  refine demand_bind_avoids fun ctx _ => ?_
  refine demand_bind_avoids fun artifact _ => ?_
  refine deny_bind_avoids fun _ => ?_
  refine deny_bind_avoids fun _ => ?_
  refine demand_bind_avoids fun e _ => ?_
  refine demand_bind_avoids fun m _ => ?_
  refine deny_bind_avoids fun _ => ?_
  refine demand_bind_avoids fun key _ => ?_
  refine deny_bind_avoids fun _ => ?_
  refine deny_bind_avoids fun _ => ?_
  refine deny_bind_avoids (fun _ => ?_) fun hbad => by simp [h] at hbad
  refine deny_bind_avoids fun _ => ?_
  refine bind_avoids (compareReceipt_avoids e m _ previous) fun same _ => ?_
  refine deny_bind_avoids (fun _ => ?_) fun _ => by simp
  refine deny_bind_avoids fun _ => ?_
  exact nofun

/-! ## Histories -/

/-- The receipt after a call: an error keeps the last one. -/
def kept (previous : Option Receipt) : Except Err Receipt → Option Receipt
  | .ok r => some r
  | .error _ => previous

/-- The results of calls, each given the receipt of the last call that succeeded. -/
def results (s : Prims) : Option Receipt → List Call → List (Call × Except Err Receipt)
  | _, [] => []
  | previous, c :: rest => (c, verify s previous c) ::
      results s (kept previous (verify s previous c)) rest

def successes (s : Prims) (previous : Option Receipt) (calls : List Call) : List (Call × Receipt) :=
  (results s previous calls).filterMap fun x => x.2.toOption.map (Prod.mk x.1)

theorem successes_ok (h : verify s previous c = .ok r) :
    successes s previous (c :: rest) = (c, r) :: successes s (some r) rest := by
  rw [successes, results, h]
  rfl

theorem successes_error {e : Err}
    (h : verify s previous c = .error e) :
    successes s previous (c :: rest) = successes s previous rest := by
  rw [successes, results, h]
  rfl

theorem successes_verified :
    ∀ {previous : Option Receipt} {x : Call × Receipt}, x ∈ successes s previous calls →
    x.1 ∈ calls ∧ ∃ old, Verified s old x.1 x.2 := by
  induction calls with
  | nil =>
    intro previous x hx
    cases hx
  | cons c rest ih =>
    intro previous x hx
    cases hv : verify s previous c with
    | error =>
      rw [successes_error hv] at hx
      obtain ⟨hmem, hverified⟩ := ih hx
      exact ⟨mem_cons_of_mem c hmem, hverified⟩
    | ok =>
      rw [successes_ok hv] at hx
      rcases mem_cons.mp hx with rfl | hx
      · exact ⟨mem_cons_self, previous, verify_ok hv⟩
      · obtain ⟨hmem, hverified⟩ := ih hx
        exact ⟨mem_cons_of_mem c hmem, hverified⟩

/-- Every success goes forward from the receipt before all of them. -/
theorem successes_forward :
    ∀ {old : Receipt} {x : Call × Receipt}, x ∈ successes s (some old) calls → Forward old x.2 := by
  induction calls with
  | nil =>
    intro old x hx
    cases hx
  | cons c rest ih =>
    intro old x hx
    cases hv : verify s (some old) c with
    | error =>
      rw [successes_error hv] at hx
      exact ih hx
    | ok r =>
      have hstep : Forward old r := (verify_ok hv).forward old rfl
      rw [successes_ok hv] at hx
      rcases mem_cons.mp hx with rfl | hx
      · exact hstep
      · exact hstep.trans (ih hx)

theorem successes_pairwise :
    ∀ previous : Option Receipt, (successes s previous calls).Pairwise fun x y =>
      Forward x.2 y.2 := by
  induction calls with
  | nil => exact fun _ => List.Pairwise.nil
  | cons c rest ih =>
    intro previous
    cases hv : verify s previous c with
    | error =>
      rw [successes_error hv]
      exact ih previous
    | ok r =>
      rw [successes_ok hv]
      exact pairwise_cons.mpr ⟨fun y hy => successes_forward hy, ih (some r)⟩

/-- The receipt that is kept stays trusted by the calls that follow. -/
def Trusted (s : Prims) (previous : Option Receipt) (calls : List Call) : Prop :=
  ∀ c ∈ calls, validatePrevious s previous c.policy c.now = true

theorem Trusted.step {scope : Scope}
    (h : Trusted s previous (c :: rest)) (hscope : ∀ x ∈ c :: rest, x.policy.scope = scope)
    (hclock : ∀ x ∈ rest, c.now ≤ x.now) :
    Trusted s (kept previous (verify s previous c)) rest := by
  cases hv : verify s previous c with
  | error => exact fun x hx => h x (mem_cons_of_mem c hx)
  | ok =>
    intro x hx
    have hsame : x.policy.scope = c.policy.scope := by
      rw [hscope x (mem_cons_of_mem c hx), hscope c mem_cons_self]
    exact (verify_ok hv).accepted hsame (hclock x hx)

theorem results_avoid {scope : Scope} :
    ∀ {previous : Option Receipt}, Trusted s previous calls →
    (∀ c ∈ calls, c.policy.scope = scope) →
      calls.Pairwise (fun a b => a.now ≤ b.now) →
      ∀ x ∈ results s previous calls, x.2 ≠ .error .previous := by
  induction calls with
  | nil =>
    intro previous _ _ _ x hx
    cases hx
  | cons c rest ih =>
    intro previous htrusted hscope hclock x hx
    obtain ⟨hfirst, hrest⟩ := pairwise_cons.mp hclock
    rcases mem_cons.mp hx with rfl | hx
    · exact verify_avoids (htrusted c mem_cons_self)
    · exact ih (htrusted.step hscope hfirst)
        (fun y hy => hscope y (mem_cons_of_mem c hy)) hrest x hx

/-- The history of calls of one scope never goes back: any two receipts go forward, each meets the
floors of its policy and is trusted for its scope from then on, and no call finds its receipt
invalid. -/
theorem results_neverBack (s : Prims) (scope : Scope) (calls : List Call)
    (hscope : ∀ c ∈ calls, c.policy.scope = scope)
    (hclock : calls.Pairwise fun a b => a.now ≤ b.now) :
    ((successes s none calls).Pairwise fun x y => Forward x.2 y.2) ∧
      (∀ x ∈ successes s none calls, Meets x.2.metadata x.1.policy) ∧
      (∀ x ∈ successes s none calls, ∀ (p : Policy) (now : ℤ), p.scope = scope → x.1.now ≤ now →
        validatePrevious s (some x.2) p now = true) ∧
      ∀ x ∈ results s none calls, x.2 ≠ .error .previous := by
  refine ⟨successes_pairwise none, ?_, ?_, ?_⟩
  · intro x hx
    obtain ⟨-, old, hverified⟩ := successes_verified hx
    exact hverified.meets
  · intro x hx p now hp hnow
    obtain ⟨hmem, old, hverified⟩ := successes_verified hx
    exact hverified.accepted (hp.trans (hscope x.1 hmem).symm) hnow
  · exact results_avoid (fun c _ => rfl) hscope hclock

/-- Metadata of one release of the command line, an artifact of one zero byte. -/
def sampleMetadata (sequence : ℕ) (version : String) : Metadata :=
  ⟨"cli", "linux", "amd64", "beta", version, 1,
    "0123456789abcdef0123456789abcdef01234567", "cli.tar", 1,
    "6e340b9cffb37a989ca544e6bb780a2c78901d3fb33738768511a30617afa01d", 10, 1000, sequence, 1, 1⟩

/-- A release with the hash and the signature of its metadata. -/
structure SampleRelease where
  metadata : Metadata
  hash : String
  signature : String

def SampleRelease.raw (r : SampleRelease) : Bytes := (encodeMetadata r.metadata).bytes

/-- The signed envelope of a release. -/
def SampleRelease.envelope (r : SampleRelease) : Bytes :=
  (StrictJson.obj [("schema_version", StrictJson.ofInt 1), ("key_id", .string "k"),
    ("metadata", encodeMetadata r.metadata), ("signature", .string r.signature)]).bytes

/-- The first release, signed with the secret of the sample key. -/
def sampleFirst : SampleRelease :=
  ⟨sampleMetadata 1 "1.0.0-rc.2+a",
    "b2f03141d3ec5bcd9ab17e57898dbc827dadaceae62e98e7add1c041786cee51",
    "ce246aeacbc86773c2eb5c561ded9ec9547643056de5388561fb67c09980f069" ++
      "5471ccd2959f89162330c0f6126297985f0cac9e4b38d3f29714cf7c8a41bf07"⟩

/-- The second release. -/
def sampleSecond : SampleRelease :=
  ⟨sampleMetadata 2 "1.0.0-rc.10",
    "395caf247300fdb5a3c8624946329e61045b3394124a39070ae4f2a2b956ad80",
    "93e0eb5831cc00218493ed40d6a28c1c31f946d77a0b31928500a0c37333969a" ++
      "f247ba184987532e21ed96db3e1a1ef97b96c8565d78a1f6feaed66333b6b205"⟩

def sampleReleases : List SampleRelease := [sampleFirst, sampleSecond]

def samplePublicKey : Bytes :=
  [215, 90, 152, 1, 130, 177, 10, 183, 213, 75, 254, 211, 201, 100, 7, 58, 14, 225, 114, 243,
    218, 166, 35, 37, 175, 2, 26, 104, 247, 7, 81, 26]

/-- The hashes of the artifact and of the metadata of the releases. -/
def sampleHashes : List (Bytes × String) :=
  ([0], "6e340b9cffb37a989ca544e6bb780a2c78901d3fb33738768511a30617afa01d") ::
    sampleReleases.map fun r => (r.raw, r.hash)

/-- The libraries on the texts of the two releases. -/
def samplePrims : Prims where
  readEnvelope raw := (sampleReleases.find? fun r => r.envelope = raw).map fun r =>
    ⟨1, "k", r.raw, r.signature⟩
  readMetadata raw := (sampleReleases.find? fun r => r.raw = raw).map SampleRelease.metadata
  marshal m := (encodeMetadata m).bytes
  digest raw := ((sampleHashes.find? fun x => x.1 = raw).map Prod.snd).getD
    "0000000000000000000000000000000000000000000000000000000000000000"
  verified key message signature := key = samplePublicKey &&
    sampleReleases.any fun r => message = signingBytes "k" r.raw && signature = r.signature
  allowedPublicKey key := key = samplePublicKey
  digest_hex raw := by
    have hhashes : ∀ x ∈ sampleHashes, exactHex x.2 32 = true := by decide +kernel
    cases hfound : sampleHashes.find? fun x => x.1 = raw with
    | none => decide +kernel
    | some x => exact hhashes x (mem_of_find?_eq_some hfound)

/-- A policy for the two releases. -/
def samplePolicy : Policy :=
  ⟨⟨"cli", "linux", "amd64", "beta"⟩, "1.0.0-rc.1", 1, 1, 1, 1, 10, 3600 * second,
    [⟨"k", samplePublicKey, 1, 2000, 1, 9⟩]⟩

def sampleCall (release : SampleRelease) (now : ℤ) : Call :=
  ⟨some ⟨false, false⟩, release.envelope, some ⟨[0], false⟩, samplePolicy, now⟩

/-- A second release after the first one. -/
def sampleCalls : List Call := [sampleCall sampleFirst 20, sampleCall sampleSecond 30]

/-- Both calls succeed, and the history never goes back. -/
theorem sampleCalls_neverBack :
    (results samplePrims none sampleCalls).map (fun x => x.2.toOption.map Receipt.verifiedAt) =
        [some 20, some 30] ∧
      (∀ c ∈ sampleCalls, c.policy.scope = samplePolicy.scope) ∧
      (sampleCalls.Pairwise fun a b => a.now ≤ b.now) ∧
      ((successes samplePrims none sampleCalls).Pairwise fun x y => Forward x.2 y.2) := by
  have hscope : ∀ c ∈ sampleCalls, c.policy.scope = samplePolicy.scope := by decide +kernel
  have hclock : sampleCalls.Pairwise fun a b => a.now ≤ b.now := by decide +kernel
  refine ⟨by decide +kernel, hscope, hclock, ?_⟩
  exact (results_neverBack samplePrims samplePolicy.scope sampleCalls hscope hclock).1

end DaxiangVpn.UpdateVerify
