import DaxiangVpn.DeviceAuthSubmit

/-!
# Activations, credentials, challenges and signed requests

Identity side of the device authority. A client proves possession of a key to
obtain a challenge, spends the challenge with one signed request, and later asks
what became of that request. Reads only spend it.
-/

namespace DaxiangVpn.DeviceAuthCredentials

open CheckedSteps HexTexts NetipPrefix DeviceAuthPolicy RelationTable DeviceAuthTables
  DeviceAuthSubmit

/-! ## Encodings -/

def shortIdentifier (v : String) : Bool := identifier v && v.utf8ByteSize ≤ 128

def base64URLValue (c : Char) : Option ℕ :=
  if c = '-' then some 62
  else if c = '_' then some 63
  else if c = '+' ∨ c = '/' then none
  else base64Value c

/-- The 32 bytes of a canonical unpadded URL base64 text. -/
def secretBytes (v : String) : Option (List ℕ) :=
  if v.length = 43 then
    match v.toList.mapM base64URLValue with
    | some ds =>
      if ofDigits 64 ds % 4 = 0 then some (digits 256 32 (ofDigits 64 ds / 4)) else none
    | none => none
  else none

variable (s : Store) (env : Env) (r : SignedRequest) (q : ResolveRequest)

/-- `activationParts`: the activation and the digest of the presented secret. -/
def activationParts (material : String) : Except Err (String × String) :=
  match material.toList.splitOn '.' with
  | [id, secret] => do
    deny ((String.ofList id).utf8ByteSize ≠ 32) .unauthorized
    let bytes ← demand (secretBytes (String.ofList secret)) .unauthorized
    pure (String.ofList id, s.prims.bodyDigest bytes)
  | _ => .error .unauthorized

/-- `proofOK`: a valid identity key and a valid signature under it. -/
def proofOK (key : String) (payload : Payload) (signature : String) : Bool :=
  authKey key && s.prims.verify key payload signature

/-- `signatureOK`: the signed bytes leave the signature field out. -/
def signatureOK (key : String) (r : SignedRequest) (signature : String) : Bool :=
  proofOK s key (.request { r with signature := "" }) signature

def operationsPath : String := "/api/v2/operations/"

/-- `validPurpose`: method, path and identities that a purpose admits. -/
def validPurpose (purpose : Purpose) (method path deviceId credentialId : String) : Bool :=
  match purpose with
  | .activate =>
    method = "POST" && path = "/api/v2/activate" && deviceId = "" && credentialId = ""
  | .command .expire => false
  | .command _ => method = "POST" && path = "/api/v2/commands"
  | .credentialRotate => method = "POST" && path = "/api/v2/credentials/rotate"
  | .credentialReceipt =>
    method = "POST" && path = "/api/v2/credentials/receipt" && deviceId = "" && credentialId = ""
  | .operationReceipt => method = "POST" && path = "/api/v2/operations/receipt"
  | .proxyBootstrap => method = "POST" && path = "/api/v2/proxy/bootstrap"
  | .requestResolve => method = "POST" && path = "/api/v2/requests/resolve"
  | .operationStatus =>
    method = "GET" && path.toList.take 19 = operationsPath.toList &&
      lowerHex 32 (String.ofList (path.toList.drop 19))
  | .requestCancel => false

def receiptKind (kind : Purpose) : Bool := kind = .activate || kind = .credentialRotate

def resolveKind (kind : Purpose) : Bool :=
  receiptKind kind || kind = .command .apply || kind = .command .disable || kind = .command .revoke

/-- Purposes that change authority state. -/
def mutation (purpose : Purpose) : Bool :=
  match purpose with
  | .activate | .credentialRotate | .command _ => true
  | _ => false

/-! ## Lookups -/

structure Credential where
  deviceId : String
  id : String
  publicKey : String
  validUntil : ℤ

def credentialOf (r : CredentialRow) : Credential :=
  ⟨r.deviceId, r.credentialId, r.publicKey, r.validUntil⟩

/-- `Store.activation`: an unconsumed, unexpired activation whose secret matches. -/
def activation (now : ℤ) (material : String) (db : DB) :
    Except Err (String × String × ℤ) := do
  let (id, verifier) ← activationParts s material
  let a ← demand (db.activations.find id) .unauthorized
  deny (a.consumedDevice.isSome || a.validUntil ≤ now || a.activationUntil ≤ now ||
    a.verifier ≠ verifier) .unauthorized
  pure (id, a.ownerId, a.validUntil)

/-- `Store.credential`: an unrevoked, unexpired credential of an active device. -/
def credential (now : ℤ) (deviceId credentialId : String) (db : DB) :
    Except Err (Credential × Actor) := do
  let c ← demand (db.credentials.find credentialId) .unauthorized
  let d ← demand (db.devices.find c.deviceId) .unauthorized
  deny (c.deviceId ≠ deviceId || c.revokedAt.isSome || d.state ≠ .active || c.validUntil ≤ now ||
    d.validUntil ≤ now) .unauthorized
  pure (credentialOf c, ⟨deviceId, d.ownerId⟩)

/-- `historicalCredential`: any credential of the device, revoked and expired ones included. -/
def historicalCredential (deviceId credentialId : String) (db : DB) : Except Err Credential := do
  let c ← demand (db.credentials.find credentialId) .unauthorized
  deny (c.deviceId ≠ deviceId || (db.devices.find c.deviceId).isNone) .unauthorized
  pure (credentialOf c)

/-- `credentialReceiptRow`: the live credential that a request created. -/
def credentialReceiptRow (now : ℤ) (kind : Purpose) (requestId key : String) (db : DB) :
    Except Err Credential := do
  let r ← demand (db.receipts.find (kind, requestId, key)) .noRows
  let c ← demand (db.credentials.find r.credentialId) .noRows
  let (cr, _) ← credential now c.deviceId c.credentialId db
  pure cr

/-- `operationReceiptRow`: the operation that a request was accepted as. -/
def operationReceiptRow (deviceId credentialId requestId idempotency : String) (db : DB) :
    Except Err Operation := do
  let r ← demand (db.requests.find (credentialId, requestId)) .noRows
  let id ← demand r.operationId .noRows
  let o ← demand (db.operations.find id) .noRows
  deny (o.deviceId ≠ deviceId || o.idempotencyKey ≠ idempotency) .noRows
  operationRow db id

/-- `receiptBinding`: the challenge was issued for this very question. -/
def receiptBinding (challengeId requestId : String) (kind : Option Purpose) (idempotency : String)
    (db : DB) : Except Err Unit := do
  let c ← demand (db.challenges.find challengeId) .unauthorized
  deny (c.receiptRequestId ≠ requestId || c.receiptKind ≠ kind ||
    c.receiptIdempotencyKey ≠ idempotency) .unauthorized

structure ResolveRequest where
  /-- Kind of the request that is asked about. -/
  kind : Purpose
  /-- Client's name for that request. -/
  requestId : String
  idempotencyKey : String
  /-- New key of an activation or rotation, else empty. -/
  publicKey : String
  /-- Activation material, else empty. -/
  activationCredential : String

/-- The fields that a question of each kind may carry. -/
def resolveShape (q : ResolveRequest) : Except Err Unit := do
  deny (!resolveKind q.kind || !shortIdentifier q.requestId) .invalid
  if receiptKind q.kind then do
    deny (q.idempotencyKey ≠ "") .invalid
    deny (!authKey q.publicKey) .invalid
  else
    deny (q.activationCredential ≠ "" || q.publicKey ≠ "" || !shortIdentifier q.idempotencyKey)
      .invalid

/-- `resolveIdentity`: activation, key that signs, and key of the original owner. -/
def resolveIdentity (deviceId credentialId : String) (q : ResolveRequest) (db : DB) :
    Except Err (String × String × String) := do
  resolveShape q
  if q.kind = .activate then do
    deny (deviceId ≠ "" || credentialId ≠ "") .unauthorized
    let (id, verifier) ← activationParts s q.activationCredential
    let a ← demand (db.activations.find id) .unauthorized
    deny (a.verifier ≠ verifier) .unauthorized
    pure (id, q.publicKey, "")
  else do
    deny (q.activationCredential ≠ "") .invalid
    let cr ← historicalCredential deviceId credentialId db
    if q.kind = .credentialRotate then do
      deny (q.publicKey = cr.publicKey) .invalid
      pure ("", q.publicKey, cr.publicKey)
    else pure ("", cr.publicKey, "")

/-! ## Activations and challenges -/

/-- Body of `Store.IssueActivation`; the secret is the one that was drawn. -/
def issueActivation (owner : String) (validUntil activationUntil : ℤ)
    (secret : List ℕ) (db : DB) : Except Err (Unit × DB) := do
  let now := env.clock 0
  deny (!identifier owner || validUntil ≤ now || year2201 ≤ validUntil || activationUntil ≤ now ||
    now + 24 * 3600 * 1000000000 < activationUntil || validUntil < activationUntil) .invalid
  checkPolicy s db
  grantResources s env.disk db
  let activations ← demand (db.activations.insert
    ⟨(env.ids 0).val, s.prims.bodyDigest secret, owner, validUntil, activationUntil, none, none⟩)
      .sql
  pure ((), { db with activations := activations })

/-- The fields of a challenge request that its HTTP body carries. -/
structure ChallengeBody where
  purpose : Purpose
  /-- HTTP method of the future request. -/
  method : String
  /-- HTTP path of the future request. -/
  path : String
  bodyDigest : String
  deviceId : String
  credentialId : String
  activationCredential : String
  publicKey : String
  receiptRequestId : String
  receiptKind : Option Purpose
  receiptIdempotencyKey : String

/-- `ChallengeRequest`: the body with the proof of possession. -/
structure ChallengeRequest extends ChallengeBody where
  proof : ClientProof
  signature : String
  /-- Signature of the original owner for a rotation. -/
  resolveOwnerProof : String

/-- `Challenge`: what the client is told. -/
structure Challenge where
  id : String
  nonce : String
  expires : ℤ

def ChallengeBody.question (r : ChallengeBody) (kind : Purpose) : ResolveRequest :=
  ⟨kind, r.receiptRequestId, r.receiptIdempotencyKey, r.publicKey, r.activationCredential⟩

/-- Activation, key and expiry for which `Challenge` issues a row. -/
def challengeIdentity (r : ChallengeRequest) (db : DB) :
    Except Err (String × String × ℤ) :=
  match r.purpose with
  | .activate => do
    let (id, _, validUntil) ← activation s (env.clock 3) r.activationCredential db
    deny (!authKey r.publicKey) .invalid
    pure (id, r.publicKey, min r.proof.expires (unix validUntil))
  | .requestResolve => do
    let kind ← demand r.receiptKind .invalid
    let (id, key, ownerKey) ← resolveIdentity s r.deviceId r.credentialId (r.question kind) db
    deny (kind = .credentialRotate ∧
      proofOK s ownerKey (.challenge r.proof) r.resolveOwnerProof = false) .unauthorized
    pure (id, key, r.proof.expires)
  | .credentialReceipt => do
    deny (r.activationCredential ≠ "" || r.receiptIdempotencyKey ≠ "" ||
      !r.receiptKind.any receiptKind || !shortIdentifier r.receiptRequestId) .invalid
    pure ("", r.publicKey, r.proof.expires)
  | .operationReceipt => do
    deny (r.activationCredential ≠ "" || r.publicKey ≠ "" || r.receiptKind.isSome ||
      !shortIdentifier r.receiptRequestId || !shortIdentifier r.receiptIdempotencyKey) .invalid
    let cr ← historicalCredential r.deviceId r.credentialId db
    pure ("", cr.publicKey, r.proof.expires)
  | _ => do
    deny (r.activationCredential ≠ "" || r.publicKey ≠ "") .invalid
    let (cr, _) ← credential (env.clock 3) r.deviceId r.credentialId db
    pure ("", cr.publicKey, min r.proof.expires (unix cr.validUntil))

/-- What `Challenge` reads about the request in question, after the proof of
possession; a credential receipt shortens the expiry. -/
def challengeSubject (r : ChallengeRequest) (key : String) (expires : ℤ) (db : DB) :
    Except Err ℤ :=
  match r.purpose with
  | .credentialReceipt => do
    let kind ← demand r.receiptKind .invalid
    let cr ← credentialReceiptRow (env.clock 4) kind r.receiptRequestId key db
    pure (min expires (unix cr.validUntil))
  | .operationReceipt => do
    let _ ← operationReceiptRow r.deviceId r.credentialId r.receiptRequestId
      r.receiptIdempotencyKey db
    pure expires
  | _ => pure expires

/-- Retained challenges in total and for one principal. -/
def challengeLimits (purpose : Purpose) : ℤ × ℤ :=
  if purpose = .command .disable ∨ purpose = .command .revoke ∨ purpose = .requestResolve then
    (10000 + s.resources.devices * 4, 36)
  else (10000, 32)

/-- The row that `Challenge` inserts. -/
def newChallenge (r : ChallengeRequest) (activationId key : String)
    (expires : ℤ) : ChallengeRow :=
  ⟨(env.ids 0).val, (env.ids 1).val, r.purpose, r.method, r.path, r.bodyDigest, r.deviceId,
    r.credentialId, activationId, key, expires, r.proof.nonce, s.prims.proofDigest r.proof,
    r.receiptRequestId, r.receiptKind, r.receiptIdempotencyKey, none, r.proof⟩

def expireChallenges (now : ℤ) (db : DB) : Table ChallengeRow.challengeId :=
  db.challenges.delete fun c => c.expires ≤ unix now

/-- The end of `Challenge`: repeat the row of the same proof, or insert one. -/
def issueChallenge (r : ChallengeRequest) (activationId key : String)
    (expires : ℤ) (db : DB) : Except Err (Challenge × DB) := do
  let challenges := expireChallenges (env.clock 6) db
  match challenges.rows.find? fun c => c.authPublicKey = key && c.clientNonce = r.proof.nonce with
  | some c => do
    deny (c.proofDigest ≠ s.prims.proofDigest r.proof || c.consumedAt.isSome ||
      c.expires ≤ unix (env.clock 7)) .unauthorized
    pure (⟨c.challengeId, c.nonce, c.expires⟩, { db with challenges := challenges })
  | none => do
    let limits := challengeLimits s r.purpose
    deny (limits.1 ≤ challenges.rows.length || limits.2 ≤ challenges.count fun c =>
      c.authPublicKey = key || (activationId ≠ "" && c.activationId = activationId) ||
        (r.credentialId ≠ "" && c.credentialId = r.credentialId)) .quota
    let row := newChallenge s env r activationId key expires
    let challenges ← demand (challenges.insert row) .sql
    pure (⟨row.challengeId, row.nonce, row.expires⟩, { db with challenges := challenges })

/-- Body of `Store.Challenge`. -/
def challenge (s : Store) (env : Env) (r : ChallengeRequest) (db : DB) :
    Except Err (Challenge × DB) := do
  deny (!validPurpose r.purpose r.method r.path r.deviceId r.credentialId ||
    !restoreSHA r.bodyDigest) .invalid
  deny (!lowerHex 32 r.proof.nonce || !restoreSHA r.proof.digest ||
    r.proof.expires ≤ unix (env.clock 0) || unix (env.clock 0) + 60 < r.proof.expires) .unauthorized
  checkPolicy s db
  deny (r.proof.expires ≤ unix (env.clock 1) || unix (env.clock 2) + 60 < r.proof.expires)
    .unauthorized
  deny (r.purpose ≠ .credentialReceipt && r.purpose ≠ .operationReceipt &&
    r.purpose ≠ .requestResolve && (r.receiptRequestId ≠ "" || r.receiptKind.isSome ||
      r.receiptIdempotencyKey ≠ "")) .invalid
  deny ((r.purpose ≠ .requestResolve || r.receiptKind ≠ some .credentialRotate) &&
    r.resolveOwnerProof ≠ "") .invalid
  let (activationId, key, expires) ← challengeIdentity s env r db
  deny (!proofOK s key (.challenge r.proof) r.signature) .unauthorized
  let expires ← challengeSubject env r key expires db
  deny (expires ≤ unix (env.clock 5)) .unauthorized
  issueChallenge s env r activationId key expires db

/-- Body of `Store.SweepChallenges`. -/
def sweepChallenges (db : DB) : Except Err (Unit × DB) := do
  checkPolicy s db
  pure ((), { db with challenges := expireChallenges (env.clock 0) db })

/-! ## Spending a challenge -/

/-- Who a request belongs to: the activation, or else the credential. -/
def principalOf (activationId credentialId : String) : String :=
  if activationId ≠ "" then "activation:" ++ activationId else credentialId

/-- Number that SQLite gives to the next audit row. -/
def nextAuditId (db : DB) : ℕ := (db.audit.rows.map AuditRow.id).foldl max 0 + 1

def challengeMatches (now : ℤ) (r : SignedRequest) (activationId key : String)
    (c : ChallengeRow) : Bool :=
  c.consumedAt.isNone && unix now < r.expires && r.expires = c.expires && r.nonce = c.nonce &&
    r.purpose = c.purpose && r.method = c.method && r.path = c.path &&
    r.bodyDigest = c.bodyDigest && r.deviceId = c.deviceId && r.credentialId = c.credentialId &&
    c.activationId = activationId && c.authPublicKey = key && signatureOK s key r r.signature

/-- Record an accepted mutation; a cancelled request is never accepted. -/
def acceptRequest (now : ℤ) (r : SignedRequest) (principal : String) (db : DB) :
    Except Err (Table RequestRow.key) := do
  deny (db.cancellations.find (principal, r.requestId)).isSome .conflict
  deny (r.purpose ≠ .command .disable && r.purpose ≠ .command .revoke &&
    4096 ≤ db.requests.count fun x => x.principalId = principal) .quota
  demand (db.requests.insert ⟨principal, r.requestId, now, none⟩) .unauthorized

def spendChallenge (now : ℤ) (challengeId : String) (db : DB) : Table ChallengeRow.challengeId :=
  db.challenges.update (fun c => c.challengeId = challengeId && c.consumedAt = none)
    (fun c => { c with consumedAt := some now }) fun _ => rfl

/-- `Store.consume`: check and spend the challenge of a signed request. Its
clock readings start at the given one. -/
def consume (k : ℕ) (r : SignedRequest) (activationId key : String)
    (db : DB) : Except Err DB := do
  deny (!shortIdentifier r.requestId || r.challengeId.utf8ByteSize ≠ 32 ||
    r.nonce.utf8ByteSize ≠ 32 || !validPurpose r.purpose r.method r.path r.deviceId r.credentialId)
    .unauthorized
  let c ← demand (db.challenges.find r.challengeId) .unauthorized
  deny (!challengeMatches s (env.clock k) r activationId key c) .unauthorized
  let challenges := spendChallenge (env.clock (k + 2)) r.challengeId db
  if mutation r.purpose then do
    let requests ← acceptRequest (env.clock (k + 1)) r (principalOf activationId r.credentialId) db
    let audit ← demand (db.audit.insert
      ⟨nextAuditId db, r.deviceId, r.credentialId, r.purpose, r.requestId, env.clock (k + 3)⟩) .sql
    pure { db with requests := requests, challenges := challenges, audit := audit }
  else pure { db with challenges := challenges }

/-! ## Signed mutations -/

def insertCredential (row : CredentialRow) (db : DB) :
    Except Err (Table CredentialRow.credentialId) := do
  deny (db.credentials.has fun c => c.publicKey = row.publicKey) .conflict
  demand (db.credentials.insert row) .conflict

def consumeActivation (id device : String) (now : ℤ) (t : Table ActivationRow.activationId) :
    Table ActivationRow.activationId :=
  t.update (fun a => a.activationId = id && a.consumedDevice = none)
    (fun a => { a with consumedDevice := some device, consumedAt := some now }) fun _ => rfl

def nameAudit (requestId device credential : String) (t : Table AuditRow.id) : Table AuditRow.id :=
  t.update (fun a => a.purpose = .activate && a.requestId = requestId && a.deviceId = "" &&
      a.credentialId = "")
    (fun a => { a with deviceId := device, credentialId := credential }) fun _ => rfl

def retire (old new : String) (now : ℤ) (t : Table CredentialRow.credentialId) :
    Table CredentialRow.credentialId :=
  t.update (fun c => c.credentialId = old && c.revokedAt = none)
    (fun c => { c with revokedAt := some now, replacedBy := some new }) fun _ => rfl

/-- Body of `Store.Activate`. -/
def activate (s : Store) (env : Env) (r : SignedRequest) (material key : String) (db : DB) :
    Except Err (Credential × DB) := do
  deny (r.purpose ≠ .activate) .unauthorized
  deny (!authKey key) .invalid
  checkPolicy s db
  let (id, owner, validUntil) ← activation s (env.clock 0) material db
  grantResources s env.disk db
  let db ← consume s env 1 r id key db
  let device := (env.ids 0).val
  let row : CredentialRow := ⟨(env.ids 1).val, device, key, validUntil, none, none⟩
  let devices ← demand (db.devices.insert (freshDevice device owner validUntil)) .conflict
  let credentials ← insertCredential row db
  let receipts ← demand (db.receipts.insert
    ⟨.activate, r.requestId, key, "activation:" ++ id, row.credentialId⟩) .sql
  pure (credentialOf row, { db with
    devices := devices
    credentials := credentials
    receipts := receipts
    activations := consumeActivation id device (env.clock 5) db.activations
    audit := nameAudit r.requestId device row.credentialId db.audit })

/-- Body of `Store.RotateCredential`. -/
def rotateCredential (key newSignature : String)
    (db : DB) : Except Err (Credential × DB) := do
  deny (r.purpose ≠ .credentialRotate || !signatureOK s key r newSignature) .unauthorized
  checkPolicy s db
  let (old, _) ← credential (env.clock 0) r.deviceId r.credentialId db
  grantResources s env.disk db
  deny (old.publicKey = key) .conflict
  let db ← consume s env 1 r "" old.publicKey db
  let row : CredentialRow := ⟨(env.ids 0).val, r.deviceId, key, old.validUntil, none, none⟩
  let credentials ← insertCredential row db
  let receipts ← demand (db.receipts.insert
    ⟨.credentialRotate, r.requestId, key, old.id, row.credentialId⟩) .sql
  pure (credentialOf row, { db with
    credentials := retire old.id row.credentialId (env.clock 5) credentials
    receipts := receipts })

/-- First hook of `SubmitSigned`: the credential, its owner and the challenge. -/
def signedCheck (actor : Actor) (db : DB) :
    Except Err DB := do
  let (cr, owner) ← credential (env.clock 0) r.deviceId r.credentialId db
  deny (owner ≠ actor) .unauthorized
  consume s env 1 r "" cr.publicKey db

/-- Second hook of `SubmitSigned`: the request names its operation. -/
def recordOperation (op : Operation) (db : DB) : DB :=
  { db with
    requests := db.requests.update
      (fun x => x.principalId = r.credentialId && x.requestId = r.requestId)
      (fun x => { x with operationId := some op.id }) fun _ => rfl }

def submitSigned (cmd : Command) (db : DB) :
    Except Err Operation × DB :=
  if r.purpose ≠ .command cmd.action ∨ cmd.action = .expire then (.error .unauthorized, db)
  else
    match db.devices.find r.deviceId with
    | none => (.error .unauthorized, db)
    | some d =>
      let actor : Actor := ⟨r.deviceId, d.ownerId⟩
      submitChecked s env (env.clock 5) (signedCheck s env r actor) (recordOperation r)
        { cmd with deviceId := r.deviceId, actor := actor } db

/-! ## Signed reads and resolutions -/

/-- Whether an operation is the verified latest generation of its device. -/
def effective (op : Operation) (d : Device) : Bool :=
  op.state = .done && d.generation = op.generation && d.appliedGeneration = op.generation

/-- Body of a signed read under a live credential: checks that only read, the
challenge, and an answer that only reads. -/
def readSigned {α : Type} (before : DB → Except Err Unit)
    (answer : DB → Except Err α) (db : DB) : Except Err (α × DB) := do
  checkPolicy s db
  let (cr, _) ← credential (env.clock 0) r.deviceId r.credentialId db
  before db
  let db' ← consume s env 1 r "" cr.publicKey db
  let a ← answer db'
  pure (a, db')

/-- Body of `Store.OperationSigned`. -/
def operationSigned (id : String) (db : DB) :
    Except Err ((Operation × Bool) × DB) := do
  deny (r.purpose ≠ .operationStatus || r.path ≠ operationsPath ++ id) .unauthorized
  readSigned s env r
    (fun db => do
      let op ← operationRow db id
      deny (op.deviceId ≠ r.deviceId) .unauthorized)
    (fun db => do
      let op ← operationRow db id
      let d ← deviceRow db r.deviceId
      pure (op, effective op d)) db

/-- Body of `Store.ProxyBootstrapSigned`, for any projection of the state
that it returns and any checks that admit it. -/
def proxyBootstrapSigned {α : Type}
    (admits : DB → Except Err Unit) (projection : DB → Except Err α) (db : DB) :
    Except Err (α × DB) := do
  deny (r.purpose ≠ .proxyBootstrap || r.method ≠ "POST" || r.path ≠ "/api/v2/proxy/bootstrap")
    .unauthorized
  readSigned s env r admits projection db

/-- Body of `Store.CredentialReceipt`. -/
def credentialReceipt (s : Store) (env : Env) (r : SignedRequest) (kind : Purpose)
    (requestId key : String) (db : DB) : Except Err (Credential × DB) := do
  deny (r.purpose ≠ .credentialReceipt || !receiptKind kind || !shortIdentifier requestId ||
    r.deviceId ≠ "" || r.credentialId ≠ "") .unauthorized
  checkPolicy s db
  receiptBinding r.challengeId requestId (some kind) "" db
  let db ← consume s env 0 r "" key db
  let cr ← credentialReceiptRow (env.clock 4) kind requestId key db
  pure (cr, db)

/-- Body of `Store.OperationReceipt`. -/
def operationReceipt (s : Store) (env : Env) (r : SignedRequest) (requestId idempotency : String)
    (db : DB) : Except Err ((Operation × Bool) × DB) := do
  deny (r.purpose ≠ .operationReceipt || !shortIdentifier requestId ||
    !shortIdentifier idempotency) .unauthorized
  checkPolicy s db
  let cr ← historicalCredential r.deviceId r.credentialId db
  receiptBinding r.challengeId requestId none idempotency db
  let db ← consume s env 0 r "" cr.publicKey db
  let op ← operationReceiptRow r.deviceId r.credentialId requestId idempotency db
  let d ← deviceRow db r.deviceId
  pure ((op, effective op d), db)

/-- What `ResolvePending` found out. -/
inductive Resolution
  /-- The activation or rotation created this credential. -/
  | credential (cr : Credential)
  /-- The command was accepted as this operation; the flag says whether it is effective. -/
  | operation (op : Operation) (effective : Bool)
  /-- The request can no longer be accepted. -/
  | cancelled

def committedRequest (principal key : String) (db : DB) :
    Except Err (Option Resolution) :=
  if receiptKind q.kind then
    match db.receipts.find (q.kind, q.requestId, key) with
    | some x =>
      if x.principalId = principal then
        pure ((db.credentials.find x.credentialId).map fun c => .credential (credentialOf c))
      else pure none
    | none => pure none
  else
    match operationReceiptRow r.deviceId r.credentialId q.requestId q.idempotencyKey db with
    | .ok op => do
      deny (.command op.action ≠ q.kind) .conflict
      let d ← deviceRow db r.deviceId
      pure (some (.operation op (effective op d)))
    | .error _ => pure none

/-- Cancel a request that was not accepted, once and for all. -/
def cancelRequest
    (principal key : String) (db : DB) : Except Err DB := do
  deny (db.requests.find (principal, q.requestId)).isSome .conflict
  match db.cancellations.find (principal, q.requestId) with
  | some x => do
    deny (x.kind ≠ q.kind || x.publicKey ≠ key || x.deviceId ≠ r.deviceId ||
      x.idempotencyKey ≠ q.idempotencyKey) .conflict
    pure db
  | none => do
    deny (s.resources.cancellations ≤ db.cancellations.rows.length ||
      16 ≤ db.cancellations.count fun x => x.principalId = principal) .quota
    let cancellations ← demand (db.cancellations.insert
      ⟨principal, q.requestId, q.kind, key, r.deviceId, q.idempotencyKey, env.clock 4⟩) .sql
    let audit ← demand (db.audit.insert
      ⟨nextAuditId db, r.deviceId, r.credentialId, .requestCancel, q.requestId, env.clock 5⟩) .sql
    pure { db with cancellations := cancellations, audit := audit }

/-- The part of `ResolvePending` that authenticates the question and spends
its challenge: the principal, the key and the database. -/
def resolveAuthenticated
    (ownerProof : String) (db : DB) : Except Err ((String × String) × DB) := do
  deny (r.purpose ≠ .requestResolve || (q.kind ≠ .credentialRotate && ownerProof ≠ ""))
    .unauthorized
  checkPolicy s db
  let (id, key, ownerKey) ← resolveIdentity s r.deviceId r.credentialId q db
  deny (q.kind = .credentialRotate ∧ signatureOK s ownerKey r ownerProof = false) .unauthorized
  receiptBinding r.challengeId q.requestId (some q.kind) q.idempotencyKey db
  let db ← consume s env 0 r id key db
  pure ((principalOf id r.credentialId, key), db)

/-- Body of `Store.ResolvePending`. -/
def resolvePending
    (ownerProof : String) (db : DB) : Except Err (Resolution × DB) := do
  let ((principal, key), db) ← resolveAuthenticated s env r q ownerProof db
  match ← committedRequest r q principal key db with
  | some found => pure (found, db)
  | none => do
    let db ← cancelRequest s env r q principal key db
    pure (.cancelled, db)

end DaxiangVpn.DeviceAuthCredentials
