import DaxiangVpn.DeviceClientRequests

/-!
# The commands of the device client

A command loads the state, asks the server for a challenge, saves an intent, sends a signed mutation
and saves what the answer proves. `recover` and `cancel-pending` resolve an intent that was left.
`PrepareStartLocked` saves the route profile of a startup projection.
-/

namespace DaxiangVpn.DeviceClient


section

variable {File : Type} (s : Prims File)

/-! ## Checks of responses -/

def validateCredential (cr : Credential) (pub device : String) (now : ℤ) : Bool :=
  hexID cr.deviceId && hexID cr.credentialId && cr.authPublicKey = pub &&
    (device = "" || cr.deviceId = device) &&
    decide (now < cr.expiresUnixSeconds) && decide (cr.expiresUnixSeconds < 7289654400)

def validateOperation (op : Operation) (device action id : String) : Bool :=
  hexID op.operationId && hexID op.deviceId && op.deviceId = device && op.accepted &&
    decide (1 ≤ op.generation) &&
    decide (1 ≤ op.deadlineUnixSeconds) && op.lastError.utf8ByteSize ≤ 1024 &&
      (action = "" || op.action = action) &&
    (id = "" || op.operationId = id) &&
    (op.action = "apply" || op.action = "disable" || op.action = "revoke" ||
      op.action = "expire") &&
    (op.state = "pending" || op.state = "degraded" || op.state = "done" ||
      op.state = "superseded") &&
    (!op.effective || op.state = "done")

def replaces (old : Option Credential) (cr : Credential) : Bool :=
  old.all fun c => !(c.expiresUnixSeconds < cr.expiresUnixSeconds ∨
  cr.credentialId = c.credentialId)

def acceptBinding (st : State) (p : Intent) (op : Operation) : Option State :=
  if p.bindAddress = "" then some st
  else do
    let w ← st.wireGuard
    let g ← p.expectedGeneration
    if op.action = "apply" ∧ op.generation = g + 1 then
      some { st with wireGuard := some { w with address := p.bindAddress, generation := op.generation
                                                operationID := op.operationId
                                                appliedGeneration := if op.effective then op.generation else 0 } }
    else none

def intentCommand (p : Intent) : String := if p.bindAddress ≠ "" then "bind" else p.kind.text

/-! ## Mutations -/

def success (command : Command) (outcome : Outcome) (requestID idempotencyKey : String)
    (cr : Option Credential) (op : Option Operation) : Receipt :=
  ⟨version, command.text, true, outcome, false, none, requestID, idempotencyKey, cr, op⟩

def saveThen (st : State) (failed ok : Receipt) : Program File Receipt := do
  let saved ← save st
  pure (if saved then ok else failed)

def failedMutation (st : State) (p : Intent) : Err → Program File Receipt
  | .failure code false =>
    saveThen { st with pending := none } (resultError (intentCommand p) .other (some p))
      (resultError (intentCommand p) (.failure code false) none)
  | e => pure (resultError (intentCommand p) e (some p))

/-- The response of a mutation, or the error that leaves its result unknown. -/
def checked {α : Type} (ok : α → Bool) : Except Err α → Except Err α
  | .error e => .error e
  | .ok a => if ok a then .ok a else .error (.failure .invalidResponse true)

def activate (st : State) (activation : String) : Program File Receipt :=
  match privateKey s st.privateKey with
  | none => pure (resultError "activate" .other none)
  | some key => do
    let pub := publicKey s key
    let body := Body.activation activation pub
    let answer ← authorize s "activate" "POST" "/api/v2/activate" body none activation key
    match answer with
    | .error e => pure (resultError "activate" e.1 none)
    | .ok (ch, requestID) => do
      let p : Intent := ⟨.activate, requestID, "", "", none, ""⟩
      let saved ← save { st with pending := some p }
      if !saved then pure (resultError "activate" .other none)
      else do
        let response ← call s (.signed "POST" "/api/v2/activate" body
          (headers s "activate" "POST" "/api/v2/activate" body none ch requestID key)) 201
            credentialWire true
        match response with
        | .error e => failedMutation { st with pending := some p } p e
        | .ok cr => do
          let now ← clock
          if !validateCredential cr pub "" now then
            failedMutation { st with pending := some p } p (.failure .invalidResponse true)
          else
            saveThen { st with credential := some cr, pending := none }
              (resultError "activate" .other (some p))
              (success .activate .credentialCreated requestID "" (some cr) none)

def rotate (st : State) (old : Credential) (key : Bytes) : Program File Receipt := do
  let seed ← random 32
  match seed with
  | none => pure (resultError "rotate-credential" .other none)
  | some seed => do
    let newKey := newKeyFromSeed s seed
    let pub := publicKey s newKey
    let body := Body.rotation pub
    let answer ← authorize s "credential.rotate" "POST" "/api/v2/credentials/rotate" body (some old) "" key
    match answer with
    | .error e => pure (resultError "rotate-credential" e.1 none)
    | .ok (ch, requestID) => do
      let p : Intent := ⟨.rotateCredential, requestID, "", s.encodeBase64 newKey, none, ""⟩
      let saved ← save { st with pending := some p }
      if !saved then pure (resultError "rotate-credential" .other none)
      else do
        let h := headers s "credential.rotate" "POST" "/api/v2/credentials/rotate" body (some old) ch requestID key
        let payload := signedPayload s "credential.rotate" "POST" "/api/v2/credentials/rotate" body (some old) ch
          requestID
        let response ← call s (.signed "POST" "/api/v2/credentials/rotate" body
          { h with newKeySignature := some (s.sign newKey payload) }) 201 credentialWire true
        match response with
        | .error e => failedMutation { st with pending := some p } p e
        | .ok cr => do
          let now ← clock
          if !(validateCredential cr pub old.deviceId now && replaces (some old) cr) then
            failedMutation { st with pending := some p } p (.failure .invalidResponse true)
          else
            saveThen { st with privateKey := s.encodeBase64 newKey, credential := some cr, pending := none }
              (resultError "rotate-credential" .other (some p))
              (success .rotateCredential .credentialRotated requestID "" (some cr) none)

/-- The body of a mutation of the desired state. -/
def commandBody (action : Command) (o : Options) : Body :=
  .command action.text o.generation o.idempotency (if action = .apply then some o.key else none)
    (if action = .apply then some o.address else none)
      (if o.reason ≠ "" then some o.reason else none)

/-- The mutations of the desired state in `execute`. -/
def mutate (st : State) (cr : Credential) (o : Options) (key : Bytes) : Program File Receipt := do
  let action := if o.command = .bind then .apply else o.command
  let body := commandBody action o
  let purpose := "command." ++ action.text
  let answer ← authorize s purpose "POST" "/api/v2/commands" body (some cr) "" key
  match answer with
  | .error e => pure (resultError o.command.text e.1 (if e.2 then st.pending else none))
  | .ok (ch, requestID) => do
    let p : Intent := ⟨action, requestID, o.idempotency, "", some o.generation,
      if o.command = .bind then o.address else ""⟩
    let saved ← save { st with pending := some p }
    if !saved then pure (resultError o.command.text .other none)
    else do
      let response ← call s (.signed "POST" "/api/v2/commands" body
        (headers s purpose "POST" "/api/v2/commands" body (some cr) ch requestID key)) 202
          operationWire true
      match checked (fun op => validateOperation op cr.deviceId action.text "" && !op.effective &&
          op.generation = o.generation + 1) response with
      | .error e => failedMutation { st with pending := some p } p e
      | .ok op =>
        match acceptBinding { st with pending := some p } p op with
        | none => pure (resultError o.command.text (.failure .invalidResponse true) (some p))
        | some st' =>
          saveThen { st' with pending := none } (resultError o.command.text .other (some p))
            (success o.command .accepted requestID o.idempotency none (some op))

/-! ## Status and binding -/

/-- `status` in `execute`. -/
def status (st : State) (cr : Credential) (o : Options) (key : Bytes) : Program File Receipt := do
  let path := "/api/v2/operations/" ++ o.operationID
  let answer ← authorize s "operation.status" "GET" path .empty (some cr) "" key
  match answer with
  | .error e => pure (resultError "status" e.1 st.pending)
  | .ok (ch, requestID) => do
    let response ← call s (.signed "GET" path .empty
      (headers s "operation.status" "GET" path .empty (some cr) ch requestID key)) 200
        operationWire false
    match response with
    | .error e => pure (resultError "status" e st.pending)
    | .ok op =>
      if !validateOperation op cr.deviceId "" o.operationID then
        pure (resultError "status" (.failure .invalidResponse false) st.pending)
      else
        let receipt := success .status .status "" "" none (some op)
        match st.wireGuard.filter fun w => op.operationId = w.operationID with
        | none => pure receipt
        | some w =>
          if op.action ≠ "apply" ∨ op.generation ≠ w.generation then
            pure (resultError "status" (.failure .invalidResponse false) none)
          else if op.effective then
            saveThen { st with wireGuard := some { w with appliedGeneration := op.generation } }
              (resultError "status" .other none) receipt
          else pure receipt

/-- The commands of `execute` that need a credential. -/
def executeAuthorized (st : State) (cr : Credential) (o : Options) : Program File Receipt :=
  match privateKey s st.privateKey with
  | none => pure (resultError o.command.text .other st.pending)
  | some key =>
    match o.command with
    | .status => status s st cr o key
    | .rotateCredential => rotate s st cr key
    | _ => mutate s st cr o key

/-- A scalar from random bytes. -/
def clamp (b : Bytes) : Bytes := (b.modify 0 (· &&& 248)).modify 31 fun x => x &&& 127 ||| 64

/-- `bind` in `execute`: the key is saved before it is used. -/
def executeBind (st : State) (cr : Credential) (o : Options) : Program File Receipt := do
  let now ← clock
  if cr.expiresUnixSeconds ≤ now then
    pure (resultError "bind" (.failure .credentialExpired false) none)
  else
    match st.wireGuard with
    | some w =>
      if o.generation < w.generation then
        pure (resultError "bind" (.failure .staleGeneration false) none)
      else executeAuthorized s st cr { o with key := w.publicKey }
    | none => do
      let material ← random 32
      match material with
      | none => pure (resultError "bind" .other none)
      | some material =>
        let secret := s.encodeBase64 (clamp material)
        match wireGuardKey s secret with
        | none => pure (resultError "bind" .other none)
        | some pub => do
          let st' :=
            { st with wireGuardInitialized := true, wireGuard := some ⟨secret, pub, "", 0, 0, ""⟩ }
          let saved ← save st'
          if !saved then pure (resultError "bind" .other none)
          else executeAuthorized s st' cr { o with key := pub }

/-! ## Recovery -/

def withCredential (st : State) (key : Bytes) (cr : Credential) : State :=
  { st with privateKey := s.encodeBase64 key, credential := some cr, pending := none }

def credentialReceiptRequest (p : Intent) (kind : String) (key : Bytes) : Body × ChallengeRequest :=
  let body := Body.credentialReceipt kind p.requestID (publicKey s key)
  (body, ⟨"credential.receipt", "POST", "/api/v2/credentials/receipt", s.bodyDigest body,
  none, none, none,
    some (publicKey s key), some kind, some p.requestID, none⟩)

/-- `recover` of a credential. -/
def recoverCredential (st : State) (p : Intent) (kind : String) (key : Bytes) :
    Program File Receipt := do
  let (body, q) := credentialReceiptRequest s p kind key
  let answer ← issueChallenge s q key
  match answer with
  | .error e => pure (resultError "recover" e (some p))
  | .ok ch => do
    let name ← opaqueName
    match name with
    | none => pure (resultError "recover" .other (some p))
    | some requestID => do
      let response ← call s (.signed "POST" q.path body
        (headers s "credential.receipt" "POST" q.path body none ch requestID key)) 200
          credentialWire false
      match response with
      | .error e => pure (resultError "recover" e (some p))
      | .ok cr => do
        let now ← clock
        if !(validateCredential cr (publicKey s key)
            (st.credential.elim "" Credential.deviceId) now &&
            replaces st.credential cr) then
          pure (resultError "recover" (.failure .invalidResponse false) (some p))
        else
          saveThen (withCredential s st key cr) (resultError "recover" .other (some p))
            (success .recover .credentialRecovered p.requestID p.idempotencyKey (some cr) none)

def operationReceiptRequest (p : Intent) (cr : Credential) : Body × ChallengeRequest :=
  let body := Body.operationReceipt p.requestID p.idempotencyKey
  (body, ⟨"operation.receipt", "POST", "/api/v2/operations/receipt", s.bodyDigest body,
  some cr.deviceId,
    some cr.credentialId, none, none, none, some p.requestID, some p.idempotencyKey⟩)

/-- `recover` of an operation. -/
def recoverOperation (st : State) (p : Intent) (g : ℤ) (cr : Credential) (key : Bytes) :
    Program File Receipt := do
  let (body, q) := operationReceiptRequest s p cr
  let answer ← issueChallenge s q key
  match answer with
  | .error e => pure (resultError "recover" e (some p))
  | .ok ch => do
    let name ← opaqueName
    match name with
    | none => pure (resultError "recover" .other (some p))
    | some requestID => do
      let response ← call s (.signed "POST" q.path body
        (headers s "operation.receipt" "POST" q.path body (some cr) ch requestID key)) 200
          operationWire false
      match response with
      | .error e => pure (resultError "recover" e (some p))
      | .ok op =>
        if !(validateOperation op cr.deviceId p.kind.text "" && op.generation = g + 1) then
          pure (resultError "recover" (.failure .invalidResponse false) (some p))
        else
          match acceptBinding st p op with
          | none => pure (resultError "recover" (.failure .invalidResponse false) (some p))
          | some st' =>
            saveThen { st' with pending := none } (resultError "recover" .other (some p))
              (success .recover .operationRecovered p.requestID p.idempotencyKey none (some op))

def recover (st : State) : Program File Receipt :=
  match st.pending with
  | none => pure (resultError "recover" (.failure .noPendingIntent false) none)
  | some p =>
    match privateKey s st.privateKey with
    | none => pure (resultError "recover" .other (some p))
    | some key =>
      match p.kind with
      | .activate => recoverCredential s st p "activate" key
      | .rotateCredential =>
        match privateKey s p.newPrivateKey with
        | none => pure (resultError "recover" .other (some p))
        | some newKey => recoverCredential s st p "credential.rotate" newKey
      | _ =>
        match st.credential, p.expectedGeneration with
        | some cr, some g => recoverOperation s st p g cr key
        | _, _ => pure (resultError "recover" .other (some p))

/-! ## Cancellation -/

def trimSuffix (c : Char) (text : List Char) : List Char :=
  if text.getLast? = some c then text.dropLast else text

/-- The activation credential on the standard input. -/
def activationText (data : Option String) : Option String := do
  let text ← data
  let material := String.ofList (trimSuffix '\r' (trimSuffix '\n' text.toList))
  if text.utf8ByteSize ≤ 257 ∧ identifier material 256 = true ∧
      (material.toList.any fun c => c = ' ' || c = '\t' || c = '\r' || c = '\n') = false then
        some material
  else none

/-- What `cancelPending` asks: the kind, the keys, the credential and the texts of the request. -/
structure Resolution where
  kind : String
  key : Bytes
  ownerKey : Option Bytes
  credential : Option Credential
  activation : Option String
  authPublicKey : Option String
  idempotencyKey : Option String

def Resolution.body (r : Resolution) (p : Intent) : Body :=
  .resolve r.kind p.requestID r.activation r.authPublicKey r.idempotencyKey

def Resolution.request (r : Resolution) (p : Intent) : ChallengeRequest :=
  ⟨"request.resolve", "POST", "/api/v2/requests/resolve", s.bodyDigest (r.body p),
    r.credential.map Credential.deviceId, r.credential.map Credential.credentialId, r.activation,
    r.authPublicKey, some r.kind, some p.requestID, r.idempotencyKey⟩

def answers (r : Resolution) (p : Intent) (resolved : ResolveReceipt) : Bool :=
  resolved.kind = r.kind && resolved.requestId = p.requestID &&
    resolved.authPublicKey = r.authPublicKey &&
    resolved.idempotencyKey = r.idempotencyKey

def cancelledState (st : State) (p : Intent) : State :=
  { st with privateKey := if p.kind = .activate then "" else st.privateKey, pending := none }

/-- The credential of a request that was committed. -/
def resolvedCredential (st : State) (r : Resolution)
    (resolved : ResolveReceipt) : Option Credential :=
  resolved.credential.filter fun cr => resolved.operation.isNone &&
    validateCredential cr (publicKey s r.key) (st.credential.elim "" Credential.deviceId) 0 &&
      replaces st.credential cr

def resolvedOperation (st : State) (p : Intent) (resolved : ResolveReceipt) :
    Option (Operation × State) := do
  let op ← resolved.operation
  let cr ← st.credential
  let g ← p.expectedGeneration
  if resolved.credential.isNone ∧ validateOperation op cr.deviceId p.kind.text "" = true ∧
      op.generation = g + 1 then
    let st' ← acceptBinding st p op
    some (op, st')
  else none

/-- `cancelPending` after the response. -/
def settle (st : State) (p : Intent) (r : Resolution)
    (resolved : ResolveReceipt) : Program File Receipt :=
  let invalid := resultError "cancel-pending" (.failure .invalidResponse true) (some p)
  let failed := resultError "cancel-pending" .other (some p)
  if !answers r p resolved then pure invalid
  else if resolved.state = "cancelled" then
    if resolved.credential.isSome ∨ resolved.operation.isSome then pure invalid
    else saveThen (cancelledState st p) failed
      (success .cancelPending .cancelled p.requestID p.idempotencyKey none none)
  else if resolved.state = "committed" then
    if p.kind = .activate ∨ p.kind = .rotateCredential then
      match resolvedCredential s st r resolved with
      | none => pure invalid
      | some cr => saveThen (withCredential s st r.key cr) failed
          (success .cancelPending .credentialRecovered p.requestID p.idempotencyKey (some cr) none)
    else
      match resolvedOperation st p resolved with
      | none => pure invalid
      | some (op, st') => saveThen { st' with pending := none } failed
          (success .cancelPending .operationRecovered p.requestID p.idempotencyKey none (some op))
  else pure invalid

/-- `cancelPending` from the challenge on. -/
def resolve (st : State) (p : Intent) (r : Resolution) : Program File Receipt := do
  let answer ← issueChallengeWithOwner s (r.request s p) r.key r.ownerKey
  match answer with
  | .error e => pure (resultError "cancel-pending" e (some p))
  | .ok ch => do
    let name ← opaqueName
    match name with
    | none => pure (resultError "cancel-pending" .other (some p))
    | some requestID => do
      let h := headers s "request.resolve" "POST" "/api/v2/requests/resolve"
        (r.body p) r.credential ch requestID r.key
      let payload := signedPayload s "request.resolve" "POST" "/api/v2/requests/resolve"
        (r.body p) r.credential ch
        requestID
      let response ← call s (.signed "POST" "/api/v2/requests/resolve" (r.body p)
        { h with ownerProof := r.ownerKey.map fun owner => s.sign owner payload }) 200
          resolveWire true
      match response with
      | .error e => pure (resultError "cancel-pending" e (some p))
      | .ok resolved => settle s st p r resolved

/-- `cancelPending` of an activation. -/
def cancelActivation (st : State) (p : Intent) (o : Options) (key : Bytes) : Program File Receipt :=
  if !o.activationStdin then
    pure (resultError "cancel-pending" (.failure .invalidActivationInput false) (some p))
  else do
    let data ← readStdin
    match activationText data with
    | none => pure (resultError "cancel-pending" (.failure .invalidActivationInput false) (some p))
    | some material =>
      resolve s st p ⟨"activate", key, none, none, some material, some (publicKey s key), none⟩

def cancelPending (st : State) (o : Options) : Program File Receipt :=
  match st.pending with
  | none => pure (resultError "cancel-pending" (.failure .noPendingIntent false) none)
  | some p =>
    match privateKey s st.privateKey with
    | none => pure (resultError "cancel-pending" .other (some p))
    | some key =>
      if p.kind = .activate then cancelActivation s st p o key
      else if o.activationStdin then
        pure (resultError "cancel-pending" (.failure .invalidArguments false) (some p))
      else
        match st.credential with
        | none => pure (resultError "cancel-pending" .other (some p))
        | some cr =>
          if p.kind = .rotateCredential then
            match privateKey s p.newPrivateKey with
            | none => pure (resultError "cancel-pending" .other (some p))
            | some newKey =>
              resolve s st p ⟨"credential.rotate", newKey, some key, some cr, none,
              some (publicKey s newKey), none⟩
          else resolve s st p ⟨"command." ++ p.kind.text, key, none, some cr, none, none,
          some p.idempotencyKey⟩

/-! ## Execution -/

/-- `activate` in `execute`: a new key is saved before it is used. -/
def executeActivate (server : String) (st : State) : Program File Receipt :=
  if st.credential.isSome then pure (resultError "activate" (.failure .alreadyActivated false) none)
  else do
    let data ← readStdin
    match activationText data with
    | none => pure (resultError "activate" (.failure .invalidActivationInput false) none)
    | some activation =>
      if st.privateKey ≠ "" then activate s st activation
      else do
        let seed ← random 32
        match seed with
        | none => pure (resultError "activate" .other none)
        | some seed => do
          let st' : State :=
            ⟨version, server, s.encodeBase64 (newKeyFromSeed s seed), none, none, false, none, none⟩
          let saved ← save st'
          if !saved then pure (resultError "activate" .other none) else activate s st' activation

def execute (server : String) (st : State) (o : Options) : Program File Receipt :=
  if st.pending.isSome ∧ o.command ≠ .recover ∧ o.command ≠ .cancelPending then
    pure (resultError o.command.text (.failure .pendingResolutionRequired false) st.pending)
  else
    match o.command with
    | .activate => executeActivate s server st
    | .recover => recover s st
    | .cancelPending => cancelPending s st o
    | command =>
      match st.credential with
      | none => pure (resultError command.text (.failure .notActivated false) st.pending)
      | some cr => if command = .bind then executeBind s st cr o else executeAuthorized s st cr o

/-- `Run` with the lock. -/
def runLocked (o : Options) : Program File Receipt := do
  let stop ← cancelled
  if stop then pure (resultError o.command.text (.failure .commandTimeout false) none)
  else do
    let data ← readState
    match load s data with
    | none => pure (resultError o.command.text .other none)
    | some st =>
      match s.parseServer (if o.server = "" then st.server else o.server) with
      | none => pure (resultError o.command.text (.failure .invalidServer false) st.pending)
      | some server =>
        if st.server ≠ "" ∧ server ≠ st.server then
          pure (resultError o.command.text (.failure .serverMismatch false) st.pending)
        else execute s server st o

/-- `Run`. -/
def runCommand (line : Line) : Program File Receipt :=
  match parse s line with
  | none => pure (resultError line.command (.failure .invalidArguments false) none)
  | some o => do
    let roots ← loadRoots o.caFile
    match roots with
    | .timeout => pure (resultError o.command.text (.failure .commandTimeout false) none)
    | .invalid => pure (resultError o.command.text (.failure .invalidCaFile false) none)
    | .loaded => do
      let locked ← lock
      if !locked then pure (resultError o.command.text .other none) else runLocked s o

/-! ## Startup -/

/-- `config.Config` of a device: the projection, the local port and the WireGuard keys. -/
structure Config where
  projection : ProxyBootstrap
  clientName : String
  hubEndpoint : String
  hubPublicKey : String
  egressName : String
  egressDisplayName : String
  proxyAddr : String
  listenAddr : String
  listenPort : ℤ
  address : String
  privateKey : String
  publicKey : String
  allowedIPs : List String

/-- The configuration that a projection gives. -/
def startConfig (b : ProxyBootstrap) (w : LocalBinding) (port : ℤ) : Config :=
  ⟨b, b.deviceId, b.profile.wgEndpoint, b.profile.wgPublicKey, b.profile.egressId,
    b.profile.egressName, b.profile.proxyAddress, "127.0.0.1", port, b.address, w.privateKey,
    w.publicKey, b.profile.allowedIps⟩

/-- `AuthorizationConfig.Validate`. -/
def validAuthorization (b : ProxyBootstrap) : Bool :=
  hexID b.deviceId && hexID b.credentialId &&
    !(b.desiredGeneration < 1 ∨ proxySafeInteger < b.desiredGeneration) &&
    b.appliedGeneration = b.desiredGeneration &&
      proxyRouteProfileDigest s b.profile = some b.profileSha256 &&
    !(b.issuedUnixSeconds < 1 ∨ 7289654400 ≤ b.issuedUnixSeconds ∨
    b.expiresUnixSeconds ≤ b.issuedUnixSeconds ∨
      30 < b.expiresUnixSeconds - b.issuedUnixSeconds)

def validateDeviceProjection (c : Config) : Bool :=
  validAuthorization s c.projection && identifier c.clientName 128 &&
    c.egressName = c.projection.profile.egressId &&
    c.egressDisplayName = c.projection.profile.egressName &&
      c.proxyAddr = c.projection.profile.proxyAddress &&
    c.hubEndpoint = c.projection.profile.wgEndpoint &&
      c.hubPublicKey = c.projection.profile.wgPublicKey &&
    c.listenAddr = "127.0.0.1" && !(c.listenPort < 1 ∨ 65535 < c.listenPort) &&
    c.allowedIPs = c.projection.profile.allowedIps && validWireGuardPublicKey s c.publicKey &&
    validProxyCustomerAddress c.address && !(c.projection.profile.allowedIps.head? = some c.address)

def validateForProxyStart (c : Config) (now : ℤ) : Bool :=
  validateDeviceProjection s c &&
    !(now < c.projection.issuedUnixSeconds ∨ c.projection.expiresUnixSeconds ≤ now) &&
    (s.decodeBase64 c.privateKey).any fun b => b.length = 32 && s.encodeBase64 b = c.privateKey &&
      (s.x25519Base b).any fun pub => s.encodeBase64 pub = c.publicKey

def projectionMatches (b : ProxyBootstrap) (cr : Credential) (w : LocalBinding)
    (generation now : ℤ) : Bool :=
  b.version = 1 && b.deviceId = cr.deviceId && b.credentialId = cr.credentialId &&
    b.wireguardPublicKey = w.publicKey && b.address = w.address &&
      validProxyCustomerAddress b.address &&
    b.desiredGeneration = generation && b.appliedGeneration = generation &&
    !(b.issuedUnixSeconds < now - 30 ∨ now + 5 < b.issuedUnixSeconds ∨
    b.expiresUnixSeconds ≤ b.issuedUnixSeconds ∨
      b.issuedUnixSeconds + 30 < b.expiresUnixSeconds ∨ now + 30 < b.expiresUnixSeconds ∨
      cr.expiresUnixSeconds < b.expiresUnixSeconds)

/-- The profile is not older than the last one. -/
def profileFollows (old new : Profile) : Except Err Unit :=
  if old.authorityEpoch ≠ new.authorityEpoch then .error (.failure .authorityEpochMismatch false)
  else if new.revision < old.revision ∨
      (new.revision = old.revision ∧ proxyRouteProfileDigest s old ≠ proxyRouteProfileDigest s new)
        then
    .error (.failure .profileRollback false)
  else .ok ()

def validateProjection (b : ProxyBootstrap) (st : State) (cr : Credential) (w : LocalBinding)
    (generation now : ℤ) :
    Except Err Unit :=
  if !projectionMatches b cr w generation now then .error (.failure .invalidResponse false)
  else if b.expiresUnixSeconds ≤ now then .error (.failure .projectionExpired false)
  else if proxyRouteProfileDigest s b.profile ≠ some b.profileSha256 then
    .error (.failure .invalidResponse false)
  else
    match st.proxyProfile with
    | none => .ok ()
    | some old => profileFollows s old b.profile

/-- `PrepareStartLocked` from the projection on. -/
def acceptProjection (st : State) (cr : Credential) (w : LocalBinding) (o : StartOptions)
    (b : ProxyBootstrap) :
    Program File (Except Err Config) := do
  let now ← clock
  match validateProjection s b st cr w o.generation now with
  | .error e => pure (.error e)
  | .ok _ => do
    let config := startConfig b w o.port
    let now ← clock
    if !validateForProxyStart s config now then pure (.error (.failure .invalidResponse false))
    else do
      let stop ← cancelled
      if stop then pure (.error (.failure .commandTimeout false))
      else do
        let saved ← save { st with proxyProfile := some b.profile
                                   wireGuard := some { w with appliedGeneration := b.appliedGeneration } }
        if !saved then pure (.error .other)
        else do
          let now ← clock
          if b.expiresUnixSeconds ≤ now then pure (.error (.failure .projectionExpired false))
          else pure (.ok config)

/-- `PrepareStartLocked` from the server on. -/
def bootstrap (st : State) (cr : Credential) (w : LocalBinding) (o : StartOptions) :
    Program File (Except Err Config) := do
  let roots ← loadRoots o.caFile
  match roots with
  | .timeout => pure (.error (.failure .commandTimeout false))
  | .invalid => pure (.error (.failure .invalidCaFile false))
  | .loaded =>
    match s.parseServer (if o.server = "" then st.server else o.server) with
    | none => pure (.error (.failure .invalidServer false))
    | some server =>
      if server ≠ st.server then pure (.error (.failure .serverMismatch false))
      else
        match privateKey s st.privateKey with
        | none => pure (.error .other)
        | some key => do
          let body := Body.bootstrap o.generation w.publicKey
          let answer ← authorize s "proxy.bootstrap" "POST" "/api/v2/proxy/bootstrap" body
            (some cr) "" key
          match answer with
          | .error e => pure (.error e.1)
          | .ok (ch, requestID) => do
            let response ← call s (.signed "POST" "/api/v2/proxy/bootstrap" body
              (headers s "proxy.bootstrap" "POST" "/api/v2/proxy/bootstrap" body
                (some cr) ch requestID key)) 200
              bootstrapWire false
            match response with
            | .error e => pure (.error e)
            | .ok b => acceptProjection s st cr w o b

/-- `PrepareStartLocked` after the load. -/
def startLoaded (st : State) (o : StartOptions) : Program File (Except Err Config) :=
  if st.pending.isSome then pure (.error (.failure .pendingResolutionRequired false))
  else
    match st.credential with
    | none => pure (.error (.failure .notActivated false))
    | some cr =>
      match st.wireGuard.filter fun w => 1 ≤ w.generation with
      | none => pure (.error (.failure .bindingRequired false))
      | some w =>
        if o.generation ≠ w.generation then pure (.error (.failure .staleGeneration false))
        else do
          let now ← clock
          if cr.expiresUnixSeconds ≤ now then pure (.error (.failure .credentialExpired false))
          else bootstrap s st cr w o

def prepareStartLocked (flags : Option StartFlags) : Program File (Except Err Config) :=
  match parseStart flags with
  | none => pure (.error (.failure .invalidArguments false))
  | some o => do
    let stop ← cancelled
    if stop then pure (.error (.failure .commandTimeout false))
    else do
      let data ← readState
      match load s data with
      | none => pure (.error .other)
      | some st => startLoaded s st o

/-! ## A home -/

/-- What is run on a home. -/
inductive Invocation
  | command (line : Line)
  /-- `PrepareStartLocked`. -/
  | start (flags : Option StartFlags)

/-- What it gives. -/
inductive Result
  | receipt (r : Receipt)
  | config (r : Except Err Config)

def program : Invocation → Program File Result
  | .command line => do
    let r ← runCommand s line
    pure (.receipt r)
  | .start flags => do
    let r ← prepareStartLocked s flags
    pure (.config r)

/-- The file of the home, and all files that were ever written. -/
structure Home (File : Type) where
  file : Option File
  written : List File

/-- How a save goes. -/
structure SaveFate where
  effect : Bool
  error : Bool

/-- What the environment chooses for an effect. A read may fail. -/
def Choice (File : Type) : Effect → Type
  | .loadRoots _ => Roots
  | .lock => Bool
  | .cancelled => Bool
  | .read => Bool
  | .save _ => SaveFate
  | .call _ => Delivery File
  | .clock => ℤ
  | .random _ => Option Bytes
  | .stdin => Option String

/-- `PrivateState.Write` of a state. -/
def write (home : Home File) (st : State) (fate : SaveFate) : Home File × Bool :=
  if s.codec.size (file s st) = 0 ∨ maxStateBytes < s.codec.size (file s st) then (home, false)
  else if fate.effect then (⟨some (file s st), file s st :: home.written⟩, !fate.error)
  else (home, false)

/-- An effect on the home. Random bytes have the length that was asked for. -/
def handle (home : Home File) : (e : Effect) → Choice File e → Home File × Answer File e
  | .loadRoots _, roots => (home, roots)
  | .lock, locked => (home, locked)
  | .cancelled, stop => (home, stop)
  | .read, fails => (home, cond fails none (some home.file))
  | .save st, fate => write s home st fate
  | .call _, delivery => (home, delivery)
  | .clock, now => (home, now)
  | .random n, b => (home, Option.filter (fun b : Bytes => b.length = n) b)
  | .stdin, data => (home, data)

/-- The home before anything was done. -/
def Home.empty : Home File := ⟨none, []⟩

end

end DaxiangVpn.DeviceClient
