import DaxiangVpn.DeviceAuthProcess
import DaxiangVpn.TransitionRun

/-!
# Runs of the device authority

The world is the database, the runtime peers, the call of `Process` that holds
the fence if there is one, and a record of what happened. Every other call is
one atomic step that waits while the fence is held. All answers of the
environment are inputs, so a run is a list of inputs.
-/

namespace DaxiangVpn.DeviceAuthWorld

open HexTexts DeviceAuthPolicy DeviceAuthTables DeviceAuthSubmit DeviceAuthCredentials
  DeviceAuthProcess

/-- Calls that run as a whole while they hold the fence. -/
inductive Call
  /-- `New` on the existing database. -/
  | reopen
  | enroll (e : Enrollment)
  | issueActivation (owner : String) (validUntil activationUntil : ℤ) (secret : List ℕ)
  | challenge (r : ChallengeRequest)
  | sweepChallenges
  | activate (r : SignedRequest) (material key : String)
  | rotateCredential (r : SignedRequest) (key newSignature : String)
  | submit (cmd : Command)
  | submitSigned (r : SignedRequest) (cmd : Command)
  | operationSigned (r : SignedRequest) (id : String)
  /-- `ProxyBootstrapSigned`, with the checks and the projection it reads. -/
  | proxyBootstrapSigned (r : SignedRequest) (admits projection : DB → Except Err Unit)
  | credentialReceipt (r : SignedRequest) (kind : Purpose) (requestId key : String)
  | operationReceipt (r : SignedRequest) (requestId idempotency : String)
  | resolvePending (r : SignedRequest) (q : ResolveRequest) (ownerProof : String)
  /-- `SweepExpiry`, with the environment of each expiry. -/
  | sweepExpiry (envs : ℕ → Env)
  | refreshDeadlines

/-- What the caller of an atomic call is told. -/
inductive Reply
  /-- The call returned an error. -/
  | refused (e : Err)
  /-- The call returned nothing but success. -/
  | accepted
  | credential (cr : Credential)
  | operation (op : Operation)
  /-- The call returned an operation and whether it is effective. -/
  | status (op : Operation) (effective : Bool)
  | challenge (c : Challenge)
  | resolution (r : Resolution)

def replyTo {α : Type} (f : α → Reply) : Except Err α × DB → Reply × DB
  | (.ok a, db) => (f a, db)
  | (.error e, db) => (.refused e, db)

def perform (s : Store) (env : Env) (c : Call) (db : DB) : Reply × DB :=
  let o := env.outcome 0
  match c with
  | .reopen => replyTo (fun _ => .accepted) (write o (fun db => do
      let db ← newTx s (some db)
      pure ((), db)) db)
  | .enroll e => replyTo (fun _ => .accepted) (write o (enroll s env e) db)
  | .issueActivation owner validUntil activationUntil secret =>
    replyTo (fun _ => .accepted)
      (write o (issueActivation s env owner validUntil activationUntil secret) db)
  | .challenge r => replyTo .challenge (write o (challenge s env r) db)
  | .sweepChallenges => replyTo (fun _ => .accepted) (write o (sweepChallenges s env) db)
  | .activate r material key => replyTo .credential (write o (activate s env r material key) db)
  | .rotateCredential r key newSignature =>
    replyTo .credential (write o (rotateCredential s env r key newSignature) db)
  | .submit cmd => replyTo .operation (submit s env cmd db)
  | .submitSigned r cmd => replyTo .operation (submitSigned s env r cmd db)
  | .operationSigned r id =>
    replyTo (fun a => .status a.1 a.2) (write o (operationSigned s env r id) db)
  | .proxyBootstrapSigned r admits projection =>
    replyTo (fun _ => .accepted) (write o (proxyBootstrapSigned s env r admits projection) db)
  | .credentialReceipt r kind requestId key =>
    replyTo .credential (write o (credentialReceipt s env r kind requestId key) db)
  | .operationReceipt r requestId idempotency =>
    replyTo (fun a => .status a.1 a.2)
      (write o (operationReceipt s env r requestId idempotency) db)
  | .resolvePending r q ownerProof =>
    replyTo .resolution (write o (resolvePending s env r q ownerProof) db)
  | .sweepExpiry envs => replyTo (fun _ => .accepted) (sweepExpiry s env envs db)
  | .refreshDeadlines => replyTo (fun _ => .accepted) (write o (refreshDeadlines s env) db)

/-- What is remembered about a run. -/
inductive Event
  | committed (deviceId : String) (generation : ℕ)
  /-- A snapshot reported these peers while those were the runtime. -/
  | snapshot (reported runtime : List Peer)
  | applied (key address : String)
  | removed (key : String)
  /-- `Process` was called for an operation of the device. -/
  | attempted (deviceId : String)
  /-- `Process` returned without an error for the device. -/
  | converged (deviceId : String)

/-- Database, runtime, fence holder, record of the past (latest first) and time. -/
structure World where
  /-- The database file. -/
  db : DB
  runtime : List Peer
  /-- The call of `Process` that holds the fence. -/
  frame : Option Frame
  /-- What happened so far, latest first. -/
  log : List Event
  /-- Time at the end of the last call. -/
  time : ℤ

/-- One input of a run. -/
inductive Act
  | call (c : Call)
  /-- `Process` of an operation takes the fence and claims it. -/
  | process (id : String)
  /-- The call that holds the fence goes one step on. -/
  | advance (answer : Answer)
  /-- The process dies; the fence is released. -/
  | crash
  /-- Somebody else rewrites the runtime. -/
  | external (runtime : List Peer)

/-- An act with the environment it meets. -/
structure Input where
  /-- Clock, identifiers and outcomes. -/
  env : Env
  /-- What happens. -/
  act : Act

/-- Generations that were committed between two states, latest first. -/
def commits (before after : DB) : List Event :=
  ((after.operations.rows.drop before.operations.rows.length).map fun o =>
    .committed o.deviceId o.generation).reverse

/-- The world after a new database state. -/
def World.store (w : World) (db : DB) : World :=
  { w with db := db, log := commits w.db db ++ w.log }

/-- The attempt that a call of `Process` is. -/
def attempts (id : String) (db : DB) : List Event :=
  match db.operations.find id with
  | some o => [.attempted o.deviceId]
  | none => []

/-- `Process` up to its claim. -/
def process (s : Store) (env : Env) (id : String) (w : World) : World :=
  let w' := { w with log := attempts id w.db ++ w.log }
  match write (env.outcome 0) (claim s env id) w.db with
  | (.ok (.work f), db) => { w' with db := db, frame := some f }
  | (.ok (.expired d), db) =>
    { w' with db := db, frame := some ⟨id, s.policy.epoch, d, [], 0, .expiring⟩ }
  | (.ok .superseded, db) => { w' with db := db }
  | (.error _, db) => { w' with db := db }

def World.at (w : World) (f : Frame) (phase : Phase) : World :=
  { w with frame := some { f with phase := phase } }

/-- The world after a snapshot was asked for. -/
def World.observe (w : World) (answer : Answer) : World :=
  match answer.peers with
  | some peers => { w with log := .snapshot peers w.runtime :: w.log }
  | none => w

def callEvent (a : PlannedAction) : Event :=
  match a.kind with
  | .apply => .applied a.key a.address
  | .remove => .removed a.key

def World.execute (w : World) (env : Env) (f : Frame) (answer : Answer)
    (a : PlannedAction) : World :=
  if starts env f answer a then
    { w with
      runtime := if answer.took then a.execute w.runtime else w.runtime
      log := callEvent a :: w.log }
  else w

/-- One step of the call that holds the fence. -/
def advance (s : Store) (env : Env) (answer : Answer) (f : Frame) (w : World) : World :=
  match f.phase with
  | .claimed => (w.observe answer).at f (afterFirstSnapshot s env f answer)
  | .planned before actions =>
    match write (env.outcome 0) (persistIntents s f actions) w.db with
    | (.ok _, db) => { w with db := db }.at f (.acting before actions)
    | (.error _, db) => { w with db := db }.at f (.failing .executionUnknown)
  | .acting before (a :: rest) =>
    (w.execute env f answer a).at f (afterAction env f answer before a rest)
  | .acting before [] => (w.observe answer).at f (afterSecondSnapshot env f answer before)
  | .verified =>
    match write (env.outcome 0) (persistResult s env f) w.db with
    | (.ok _, db) =>
      { w with db := db, frame := none, log := .converged f.device.id :: w.log }
    | (.error _, db) => { w with db := db }.at f (.failing .executionUnknown)
  | .failing cause =>
    { w with db := (write (env.outcome 0) (failed f.operationId cause) w.db).2, frame := none }
  | .expiring => { w.store (expireLocked s env f.device w.db).2 with frame := none }

/-- The world after an act. -/
def react (s : Store) (w : World) (i : Input) : World :=
  match i.act, w.frame with
  | .call c, none => w.store (perform s i.env c w.db).2
  | .call _, some _ => w
  | .process id, none => process s i.env id w
  | .process _, some _ => w
  | .advance answer, some f => advance s i.env answer f w
  | .advance _, none => w
  | .crash, _ => { w with frame := none }
  | .external runtime, _ => { w with runtime := runtime }

/-- One step of a run; time moves to the end of the act. -/
def step (s : Store) (w : World) (i : Input) : World := { react s w i with time := i.env.ends }

/-- The world before the first call: an empty store over any runtime. -/
def init (s : Store) (runtime : List Peer) (time : ℤ) : World :=
  ⟨emptyDB s, runtime, none, [], time⟩

/-- The executor tells the truth: a snapshot is the runtime, and an action
without an error took effect. -/
def Truthful (w : World) (i : Input) : Prop :=
  match i.act with
  | .advance answer =>
    (∀ peers ∈ answer.peers, peers = w.runtime) ∧
      (answer.erred = false → answer.took = true)
  | _ => True

def TrueSnapshot (w : World) (i : Input) : Prop :=
  match i.act with
  | .advance answer => ∀ peers ∈ answer.peers, peers = w.runtime
  | _ => True

/-- Nobody but the executor changes the runtime. -/
def SoleWriter (_ : World) (i : Input) : Prop :=
  match i.act with
  | .external _ => False
  | _ => True

/-- Truthfulness can be evaluated. -/
instance (w : World) (i : Input) : Decidable (Truthful w i) := by
  unfold Truthful
  split <;> infer_instance

/-- The truth of snapshots can be evaluated. -/
instance (w : World) (i : Input) : Decidable (TrueSnapshot w i) := by
  unfold TrueSnapshot
  split <;> infer_instance

/-- Whether an input is another writer can be evaluated. -/
instance (w : World) (i : Input) : Decidable (SoleWriter w i) := by
  unfold SoleWriter
  split <;> infer_instance

/-! ## A small deployment -/

/-- A text of hexadecimal digits that ends in the given one. -/
def paddedDigit (zeros : ℕ) (d : Fin 10) : String :=
  String.ofList (List.replicate zeros '0' ++ [Nat.digitChar d])

theorem paddedDigit_hex (zeros : ℕ) (d : Fin 10) :
    lowerHex (zeros + 1) (paddedDigit zeros d) = true := by
  have hzero : isHex '0' = true := by decide
  have hdigit : isHex (Nat.digitChar d) = true := isHex_digitChar (by omega)
  simp only [lowerHex, paddedDigit, String.length_ofList, String.toList_ofList, List.length_append,
    List.length_replicate, List.length_singleton, List.all_append, List.all_replicate,
    List.all_cons, List.all_nil, hzero, hdigit]
  simp

/-- Stand-ins for the hash, signature and JSON functions of a small deployment:
digests of commands tell the expected generations apart, and every signature verifies. -/
def samplePrims (policy : Policy) : Prims where
  requestDigest c := paddedDigit 63 (Fin.ofNat 10 c.expectedGeneration.toNat)
  proofDigest p := p.digest
  bodyDigest b := paddedDigit 63 (Fin.ofNat 10 b.length)
  expiryDigest _ g := paddedDigit 63 (Fin.ofNat 10 g)
  verify _ _ _ := true
  strictPolicy _ := some policy
  requestDigest_sha _ := paddedDigit_hex 63 _
  bodyDigest_sha _ := paddedDigit_hex 63 _
  expiryDigest_sha _ _ := paddedDigit_hex 63 _

/-- One pool and no protections. -/
def samplePolicy : Policy := ⟨"e1", "hub", ["10.7.0.0/24"], []⟩

/-- A store with the default limits and a revocation budget of two minutes. -/
def sampleStore : Store where
  policy := samplePolicy
  policyJSON := "policy"
  fencePath := "fence"
  resources := ⟨67108864, 10000, 50000, 20000, 200000, 200000, 20000⟩
  revocationBudget := 120000000000
  prims := samplePrims samplePolicy
  policy_normal := by decide +kernel
  policy_json := rfl
  resources_normal := by decide
  budget_pos := by decide

/-- The identifier that ends in the given digit. -/
def sampleId (d : Fin 10) : OpaqueId :=
  ⟨paddedDigit 31 d, paddedDigit_hex 31 d⟩

/-- An environment where the clock stands still and every transaction commits. -/
def sampleEnv (now : ℤ) (d : Fin 10) : Env :=
  ⟨fun _ => now, now, fun k => sampleId (d + Fin.ofNat 10 k), fun _ => .acknowledged, ⟨1, 4096⟩⟩

/-- WireGuard keys of the deployment. -/
def sampleKey : Bool → String
  | false => "AQAAAAAAAAAAAAAAAAAAAAAAAAAAAAAAAAAAAAAAAAA="
  | true => "AgAAAAAAAAAAAAAAAAAAAAAAAAAAAAAAAAAAAAAAAAA="

/-- An apply of one of the keys by the owner, at an expected generation. -/
def sampleApply (k : Bool) (address : String) (generation : ℕ) : Command :=
  ⟨⟨"ops", "owner"⟩, "d1", .apply, String.ofList ['k', Nat.digitChar generation], generation,
    sampleKey k, address, ""⟩

/-- An executor that answers in time, reports the given peers and acts without an error. -/
def sampleAnswer (peers : List Peer) : Answer := ⟨some peers, true, false, false, false, true⟩

/-- The first address of the deployment. -/
def sampleAddress : String := "10.7.0.9/32"

def samplePeer (k : Bool) : Peer := ⟨sampleKey k, [sampleAddress]⟩

/-- A device is enrolled, commanded and processed until its peer is applied. -/
def sampleApplied : List Input :=
  [⟨sampleEnv 1 0, .call (.enroll ⟨"d1", "owner", "customer", 1000⟩)⟩,
    ⟨sampleEnv 2 1, .call (.submit (sampleApply false sampleAddress 0))⟩,
    ⟨sampleEnv 3 2, .process (sampleId 1).val⟩,
    ⟨sampleEnv 4 3, .advance (sampleAnswer [])⟩,
    ⟨sampleEnv 5 4, .advance (sampleAnswer [])⟩,
    ⟨sampleEnv 6 5, .advance (sampleAnswer [])⟩]

/-- The process dies before the peer is verified. -/
def sampleLaunch : List Input := sampleApplied ++ [⟨sampleEnv 7 6, .crash⟩]

/-- The peer is verified and the result is durable. -/
def sampleConverged : List Input :=
  sampleApplied ++ [⟨sampleEnv 7 6, .advance (sampleAnswer [samplePeer false])⟩,
    ⟨sampleEnv 8 7, .advance (sampleAnswer [samplePeer false])⟩]

/-- The converged device gets another key; its finished operation is processed once more before the
new one is carried out. -/
def sampleReplaced : List Input :=
  sampleConverged ++ [⟨sampleEnv 9 8, .call (.submit (sampleApply true sampleAddress 1))⟩,
    ⟨sampleEnv 10 9, .process (sampleId 1).val⟩, ⟨sampleEnv 11 9, .process (sampleId 8).val⟩,
    ⟨sampleEnv 12 9, .advance (sampleAnswer [samplePeer false])⟩,
    ⟨sampleEnv 13 9, .advance (sampleAnswer [])⟩, ⟨sampleEnv 14 9, .advance (sampleAnswer [])⟩,
    ⟨sampleEnv 15 9, .advance (sampleAnswer [])⟩,
    ⟨sampleEnv 16 9, .advance (sampleAnswer [samplePeer true])⟩,
    ⟨sampleEnv 17 9, .advance (sampleAnswer [samplePeer true])⟩]

end DaxiangVpn.DeviceAuthWorld
