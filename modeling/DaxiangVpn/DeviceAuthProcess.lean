import DaxiangVpn.DeviceAuthCredentials

/-!
# Reconciliation of one operation

`Process` claims an operation, reads the runtime, persists its intents, runs
exact actions, reads the runtime again and persists the verified result. Each of
these is one step of a frame that holds the process fence, so a run can be cut
between any two of them.
-/

namespace DaxiangVpn.DeviceAuthProcess

open CheckedSteps NetipPrefix DeviceAuthPolicy RelationTable DeviceAuthTables

/-! ## Runtime peers -/

structure Peer where
  publicKey : String
  /-- Allowed addresses in CIDR text. -/
  allowedIPs : List String
  deriving DecidableEq

/-- A snapshot that passed `runtimeMap`: one peer for each key. -/
abbrev RuntimeMap := Table Peer.publicKey

/-- One allowed address of a snapshot in canonical text. -/
def canonicalIP (value : String) : Except Err String := do
  let p ← demand (parsePrefix value) .protectedPeer
  deny p.addr.is4In6 .protectedPeer
  pure p.masked.string

/-- The allowed addresses of a peer, sorted and without duplicates. -/
def canonicalIPs (values : List String) : Except Err (List String) := do
  let ips ← mapRows canonicalIP values
  let ips := ips.insertionSort (· ≤ ·)
  deny (!decide ips.Nodup) .protectedPeer
  pure ips

theorem canonicalIPs_ok {values ips : List String} (h : canonicalIPs values = .ok ips) :
    ips.length = values.length ∧
    ∀ v ∈ values, ∃ p, parsePrefix v = some p ∧ p.addr.is4In6 = false ∧ p.masked.string ∈ ips := by
  obtain ⟨texts, htexts, h⟩ := bind_ok.mp h
  replace h := rest_ok h
  cases pure_ok.mp h
  have hlen := (mapRows_ok htexts).length_eq
  refine ⟨by rw [List.length_insertionSort, hlen], fun v hv => ?_⟩
  obtain ⟨text, htext, hcanon⟩ := mapRows_mem htexts v hv
  obtain ⟨p, hp, hcanon⟩ := demand_bind_ok.mp hcanon
  obtain ⟨hmap, hcanon⟩ := deny_bind_ok.mp hcanon
  cases pure_ok.mp hcanon
  exact ⟨p, hp, hmap, (List.perm_insertionSort _ _).mem_iff.mpr htext⟩

def addPeer (m : RuntimeMap) (peer : Peer) : Except Err RuntimeMap := do
  deny (!validKey peer.publicKey || 64 < peer.allowedIPs.length) .protectedPeer
  deny (m.find peer.publicKey).isSome .protectedPeer
  let ips ← canonicalIPs peer.allowedIPs
  demand (m.insert ⟨peer.publicKey, ips⟩) .protectedPeer

def runtimeMap (peers : List Peer) : Except Err RuntimeMap := do
  deny (16384 < peers.length) .protectedPeer
  foldRows addPeer .empty peers

/-- What the map of a snapshot holds: every peer once, with its addresses in
canonical text, and nothing else. -/
structure Mapped (peers : List Peer) (m : RuntimeMap) : Prop where
  forward : ∀ p ∈ peers, ∃ q ∈ m, q.publicKey = p.publicKey ∧
    canonicalIPs p.allowedIPs = .ok q.allowedIPs
  backward : ∀ q ∈ m, ∃ p ∈ peers, p.publicKey = q.publicKey ∧
    canonicalIPs p.allowedIPs = .ok q.allowedIPs
  valid : ∀ q ∈ m, validKey q.publicKey = true

variable {peers : List Peer} {m : RuntimeMap}

/-- A successful `runtimeMap`. -/
theorem runtimeMap_ok (h : runtimeMap peers = .ok m) : Mapped peers m := by
  replace h := rest_ok h
  have hnone : Mapped [] .empty := ⟨nofun, fun q hq => absurd hq (not_mem_empty q),
    fun q hq => absurd hq (not_mem_empty q)⟩
  refine foldRows_rule Mapped ?_ hnone h
  intro seen m p m' hseen hadd
  obtain ⟨hshape, hadd⟩ := deny_bind_ok.mp hadd
  replace hadd := rest_ok hadd
  obtain ⟨ips, hips, hadd⟩ := bind_ok.mp hadd
  have hmem := mem_of_insert (demand_ok.mp hadd)
  refine ⟨fun x hx => ?_, fun q hq => ?_, fun q hq => ?_⟩
  · rcases List.mem_append.mp hx with hx | hx
    · obtain ⟨q, hq, hkey⟩ := hseen.forward x hx
      exact ⟨q, (hmem q).mpr (.inl hq), hkey⟩
    · cases List.mem_singleton.mp hx
      exact ⟨_, (hmem _).mpr (.inr rfl), rfl, hips⟩
  · rcases (hmem q).mp hq with hq | rfl
    · obtain ⟨x, hx, hkey⟩ := hseen.backward q hq
      exact ⟨x, List.mem_append_left _ hx, hkey⟩
    · exact ⟨p, by simp, rfl, hips⟩
  · rcases (hmem q).mp hq with hq | rfl
    · exact hseen.valid q hq
    · rw [Bool.or_eq_false_iff, Bool.not_eq_eq_eq_not, Bool.not_false] at hshape
      exact hshape.1

def addressesOf (m : RuntimeMap) (key : String) : Option (List String) :=
  (m.find key).map Peer.allowedIPs

def Absent (key : String) (peers : List Peer) : Prop := ∀ p ∈ peers, p.publicKey ≠ key

def Present (key address : String) (peers : List Peer) : Prop :=
  ∃ p ∈ peers, p.publicKey = key ∧ canonicalIPs p.allowedIPs = .ok [address]

theorem Mapped.absent (h : Mapped peers m) {key : String} :
    m.find key = none ↔ Absent key peers := by
  rw [find_eq_none]
  constructor
  · intro hnone p hp hkey
    obtain ⟨q, hq, hqkey, -⟩ := h.forward p hp
    exact hnone q hq (hqkey.trans hkey)
  · intro habs q hq hkey
    obtain ⟨p, hp, hpkey, -⟩ := h.backward q hq
    exact habs p hp (hpkey.trans hkey)

theorem Mapped.present (h : Mapped peers m)
    {key address : String} : addressesOf m key = some [address] ↔ Present key address peers := by
  rw [addressesOf, Option.map_eq_some_iff]
  constructor
  · rintro ⟨q, hq, hips⟩
    obtain ⟨hqm, hqkey⟩ := find_eq_some.mp hq
    obtain ⟨p, hp, hpkey, hcanon⟩ := h.backward q hqm
    exact ⟨p, hp, hpkey.trans hqkey, hips ▸ hcanon⟩
  · rintro ⟨p, hp, hpkey, hcanon⟩
    obtain ⟨q, hq, hqkey, hqcanon⟩ := h.forward p hp
    rw [hcanon] at hqcanon
    exact ⟨q, find_eq_some.mpr ⟨hq, hqkey.trans hpkey⟩, (Except.ok.inj hqcanon).symm⟩

theorem canonicalIPs_address {policy : Policy} {key a : String}
    (h : policy.address key a = .ok a) : canonicalIPs [a] = .ok [a] := by
  obtain ⟨p, hp, hmap, hhost, -, ha⟩ := address_ok h
  have hcanon : canonicalIP a = .ok a := by
    refine demand_bind_ok.mpr ⟨p, hp, deny_bind_ok.mpr ⟨hmap, ?_⟩⟩
    rw [masked_of_isHost hhost, ← ha]
    rfl
  refine bind_ok.mpr ⟨[a], mapRows_fixed (by simpa using hcanon), ?_⟩
  refine deny_bind_ok.mpr ⟨?_, ?_⟩
  · simp
  · simp [pure, Except.pure]

theorem address_eq_of_masked {policy : Policy} {key key' a a' : String}
    (h : policy.address key a = .ok a) (h' : policy.address key' a' = .ok a')
    (heq : (parsePrefix a).map IpPrefix.masked = (parsePrefix a').map IpPrefix.masked) :
    a = a' := by
  obtain ⟨p, hp, -, hhost, -, ha⟩ := address_ok h
  obtain ⟨q, hq, -, hhost', -, ha'⟩ := address_ok h'
  rw [hp, hq, Option.map_some, Option.map_some, masked_of_isHost hhost,
    masked_of_isHost hhost'] at heq
  rw [ha, ha', Option.some.inj heq]

/-- A peer that loses an address to another one. -/
def losing (address : String) (p : Peer) : Peer :=
  { p with allowedIPs := p.allowedIPs.filter fun v =>
      (parsePrefix v).map IpPrefix.masked ≠ (parsePrefix address).map IpPrefix.masked }

/-- WireGuard after `wg set peer KEY remove`. -/
def removePeer (key : String) (runtime : List Peer) : List Peer :=
  runtime.filter fun p => p.publicKey ≠ key

/-- WireGuard after `wg set peer KEY allowed-ips ADDRESS`: the key has exactly
this address, which every other peer loses. -/
def applyPeer (key address : String) (runtime : List Peer) : List Peer :=
  (removePeer key runtime).map (losing address) ++ [⟨key, [address]⟩]

section

open List

variable {key address : String} {runtime : List Peer} {p : Peer}

theorem mem_removePeer : p ∈ removePeer key runtime ↔ p ∈ runtime ∧ p.publicKey ≠ key := by
  simp [removePeer]

theorem mem_applyPeer : p ∈ applyPeer key address runtime ↔
    (∃ q ∈ runtime, q.publicKey ≠ key ∧ p = losing address q) ∨ p = ⟨key, [address]⟩ := by
  simp only [applyPeer, mem_append, mem_map, mem_removePeer, mem_singleton, and_assoc,
    eq_comm (a := p)]

/-- A runtime with one peer for each key keeps it that way. -/
theorem removePeer_nodup (h : (runtime.map Peer.publicKey).Nodup) :
    ((removePeer key runtime).map Peer.publicKey).Nodup :=
  h.sublist (filter_sublist.map _)

theorem applyPeer_nodup (h : (runtime.map Peer.publicKey).Nodup) :
    ((applyPeer key address runtime).map Peer.publicKey).Nodup := by
  have hkeys : ((removePeer key runtime).map (losing address)).map Peer.publicKey =
      (removePeer key runtime).map Peer.publicKey := map_map
  rw [applyPeer, map_append, hkeys, nodup_append]
  refine ⟨removePeer_nodup h, nodup_singleton _, fun a ha b hb hab => ?_⟩
  obtain ⟨p, hp, rfl⟩ := mem_map.mp ha
  exact (mem_removePeer.mp hp).2 (hab.trans (mem_singleton.mp hb))

end

/-! ## Plan and verification -/

/-- `binding`: one key of a device as the executor reads it. -/
structure Binding where
  key : String
  address : String
  deviceId : String
  /-- Owner mark. -/
  managedBy : String
  revoked : ℕ
  /-- Whether its presence was verified once. -/
  applied : Bool
  /-- Whether an apply of this epoch was announced for the key. -/
  priorIntent : Bool

variable (s : Store) (env : Env) (f : Frame)

/-- Whether an apply of the policy's epoch was announced for the key. -/
def announced (db : DB) (key : String) : Bool :=
  db.intents.has fun i => i.publicKey = key && i.action = .apply && i.epoch = s.policy.epoch

def bindingOf (db : DB) (b : BindingRow) : Binding :=
  ⟨b.publicKey, b.address, b.deviceId, b.managedBy, b.revokedGeneration, b.applied,
    announced s db b.publicKey⟩

/-- Sort order of the history. -/
def keyLe (a b : Binding) : Prop := a.key ≤ b.key

/-- The order of two bindings can be evaluated. -/
instance : DecidableRel keyLe := fun a b => inferInstanceAs (Decidable (a.key ≤ b.key))

/-- `Store.bindings`: all keys the device ever had, in key order. -/
def bindings (s : Store) (db : DB) (deviceId : String) : List Binding :=
  ((db.bindings.select fun b => b.deviceId = deviceId).map (bindingOf s db)).insertionSort keyLe

structure PlannedAction where
  kind : IntentAction
  key : String
  address : String
  deriving DecidableEq

/-- What `plan` demands of one binding and the peer under its key. -/
def planBinding (d : Device) (runtime : RuntimeMap) (b : Binding) : Except Err Unit := do
  deny (b.deviceId ≠ d.id || b.managedBy ≠ s.policy.managedBy) .protectedPeer
  deny (s.policy.address b.key b.address).isOk.not .protectedPeer
  match runtime.find b.key with
  | some p => do
    deny (!b.applied && !b.priorIntent) .protectedPeer
    deny (p.allowedIPs ≠ [b.address]) .protectedPeer
  | none => pure ()

/-- Whether two address texts denote ranges that meet. -/
def overlapping (a b : String) : Bool :=
  (parsePrefix a).any fun p => (parsePrefix b).any fun q => p.overlaps q

/-- Whether a runtime peer stands in the way of the device's current address. -/
def obstructs (d : Device) (history : List Binding) (p : Peer) : Bool :=
  p.publicKey ≠ d.publicKey &&
    !(history.any fun b => b.key = p.publicKey && 0 < b.revoked) &&
    p.allowedIPs.any fun v => overlapping v d.address

/-- Removals of the plan: every revoked key that is still a peer. -/
def removals (history : List Binding) (runtime : RuntimeMap) : List PlannedAction :=
  (history.filter fun b => 0 < b.revoked && (runtime.find b.key).isSome).map fun b =>
    ⟨.remove, b.key, b.address⟩

def plan (d : Device) (history : List Binding) (runtime : RuntimeMap) :
    Except Err (List PlannedAction) := do
  eachRow (planBinding s d runtime) history
  if d.state = .active ∧ d.publicKey ≠ "" then do
    let b ← demand (history.find? fun b => b.key = d.publicKey) .protectedPeer
    deny (b.revoked ≠ 0 || b.address ≠ d.address) .protectedPeer
    deny (runtime.has (obstructs d history)) .protectedPeer
    if (runtime.find d.publicKey).isSome then pure (removals history runtime)
    else pure (removals history runtime ++ [⟨.apply, d.publicKey, d.address⟩])
  else pure (removals history runtime)

def verify (d : Device) (history : List Binding) (before after : RuntimeMap) : Except Err Unit := do
  deny (history.any fun b => 0 < b.revoked && (after.find b.key).isSome) .verification
  deny (d.state = .active ∧ d.publicKey ≠ "" ∧ addressesOf after d.publicKey ≠ some [d.address])
    .verification
  deny (before.has fun p => !(history.any fun b => b.key = p.publicKey) &&
    addressesOf after p.publicKey ≠ some p.allowedIPs) .verification
  deny (after.has fun p => !(history.any fun b => b.key = p.publicKey) &&
    (before.find p.publicKey).isNone) .verification

/-! ## Frames -/

/-- Where a call of `Process` stands between two of its effects. -/
inductive Phase
  /-- The operation is claimed; the first snapshot comes next. -/
  | claimed
  /-- The plan is known; its intents are persisted next. -/
  | planned (before : RuntimeMap) (actions : List PlannedAction)
  /-- The intents are durable; these actions remain, then the second snapshot. -/
  | acting (before : RuntimeMap) (remaining : List PlannedAction)
  /-- The second snapshot verified; the result is persisted next. -/
  | verified
  /-- The attempt failed; the diagnostic is persisted next. -/
  | failing (cause : Err)
  /-- The authorization expired; the expiry is persisted next. -/
  | expiring

/-- The locals of a call of `Process` that holds the fence. -/
structure Frame where
  operationId : String
  epoch : String
  device : Device
  /-- Keys of the device as they were claimed. -/
  history : List Binding
  /-- Executor sequence of this attempt. -/
  fence : ℕ
  phase : Phase

/-- Result of the claim transaction. -/
inductive Claim
  /-- The operation is not the latest of its device. -/
  | superseded
  /-- The authorization has expired; nothing was written. -/
  | expired (d : Device)
  | work (f : Frame)

/-- Whether an active device's authorization has ended. -/
def lapsed (d : Device) (now : ℤ) : Bool := d.state = .active && d.validUntil ≤ now

/-- The outbox after an operation was found not to be the latest. -/
def supersedeJob (id : String) (db : Authority) : Authority :=
  { db with
    outbox := db.outbox.update (fun x => x.operationId = id)
      (fun x => { x with state := .superseded, lastError := "" }) fun _ => rfl }

/-- Next value of the executor sequence; it saturates. -/
def nextFence (db : Authority) : ℕ :=
  if db.metaRow.executorFence < maxInt64 then db.metaRow.executorFence + 1
  else db.metaRow.executorFence

def claimJob (id : String) (db : Authority) : Authority :=
  { db with
    metaRow := { db.metaRow with executorFence := nextFence db }
    outbox := db.outbox.update (fun x => x.operationId = id)
      (fun x => { x with
        state := .pending, attempts := x.attempts + 1, fence := nextFence db, lastError := "" })
      fun _ => rfl }

/-- The claim transaction of `Process`. -/
def claim (id : String) (db : DB) : Except Err (Claim × DB) := do
  deny (!identifier id) .invalid
  checkPolicy s db
  let op ← operationRow db id
  let d ← deviceRow db op.deviceId
  if op.epoch ≠ s.policy.epoch ∨ op.generation ≠ d.generation then
    pure (.superseded, { db with toAuthority := supersedeJob id db.toAuthority })
  else if lapsed d (env.clock 0) then pure (.expired d, db)
  else do
    deny (nextFence db.toAuthority = maxInt64) .generation
    pure (.work ⟨id, op.epoch, d, bindings s db d.id, nextFence db.toAuthority, .claimed⟩,
      { db with toAuthority := claimJob id db.toAuthority })

def intentOf (a : PlannedAction) : IntentRow :=
  ⟨f.operationId, a.key, a.kind, f.epoch, f.device.generation, f.fence, a.address, .prepared⟩

/-- Insert an intent, or refresh the fence and the state of the one that is there. -/
def upsertIntent (t : Table IntentRow.key) (i : IntentRow) : Table IntentRow.key :=
  match t.find i.key with
  | some old => t.put { old with fence := i.fence, state := .prepared }
  | none => t.put i

def announceIntents (actions : List PlannedAction) (db : Authority) : Authority :=
  { db with intents := (actions.map (intentOf f)).foldl upsertIntent db.intents }

/-- The intent transaction of `Process`. -/
def persistIntents (actions : List PlannedAction) (db : DB) :
    Except Err (Unit × DB) := do
  checkPolicy s db
  pure ((), { db with toAuthority := announceIntents f actions db.toAuthority })

def settleBinding (d : Device) (b : BindingRow) : BindingRow :=
  if b.deviceId ≠ d.id then b
  else if 0 < b.revokedGeneration then { b with removedGeneration := d.generation }
  else if d.publicKey ≠ "" ∧ b.publicKey = d.publicKey then { b with applied := true }
  else b

/-- The authority after a verified result. -/
def settle (now : ℤ) (db : Authority) : Authority :=
  let d := f.device
  { db with
    devices := db.devices.update (fun r => r.deviceId = d.id && r.generation = d.generation)
      (fun r => { r with appliedGeneration := d.generation }) fun _ => rfl
    bindings := db.bindings.update (fun _ => true) (settleBinding d) fun b => by
      unfold settleBinding
      split_ifs <;> rfl
    tombstones := db.tombstones.update
      (fun t => t.verifiedAt = none &&
        db.bindings.has fun b => b.publicKey = t.publicKey && b.deviceId = d.id)
      (fun t => { t with verifiedAt := some now }) fun _ => rfl
    intents := db.intents.update (fun i => i.operationId = f.operationId && i.fence = f.fence)
      (fun i => { i with state := .verified }) fun _ => rfl
    outbox := db.outbox.update (fun x => x.operationId = f.operationId && x.fence = f.fence)
      (fun x => { x with state := .done, verifiedAt := some now, lastError := "" }) fun _ => rfl }

/-- The result transaction of `Process`. -/
def persistResult (db : DB) : Except Err (Unit × DB) := do
  checkPolicy s db
  deny (db.devices.count (fun r => r.deviceId = f.device.id && r.generation = f.device.generation) ≠
    1)
    .superseded
  deny (db.outbox.count (fun x => x.operationId = f.operationId && x.fence = f.fence) ≠ 1)
    .superseded
  pure ((), { db with toAuthority := settle f (env.clock 0) db.toAuthority })

def failureCode : Err → String
  | .protectedPeer => "protected_peer"
  | .verification => "verification_failed"
  | .expired => "expired"
  | _ => "execution_unknown"

/-- The transaction of `failed`. -/
def failed (id : String) (cause : Err) (db : DB) : Except Err (Unit × DB) :=
  .ok ((), { db with
    outbox := db.outbox.update
      (fun x => x.operationId = id && x.state ≠ .done && x.state ≠ .superseded)
      (fun x => { x with state := .degraded, lastError := failureCode cause }) fun _ => rfl })

/-! ## One step of a frame -/

/-- What the executor and the contexts answer during one step. -/
structure Answer where
  peers : Option (List Peer)
  took : Bool
  /-- The action reported an error. -/
  erred : Bool
  /-- The context was over before the action. -/
  lateBefore : Bool
  /-- The context was over after the action or snapshot. -/
  lateAfter : Bool
  /-- The database file is still the one that was opened. -/
  identity : Bool

def afterFirstSnapshot (answer : Answer) : Phase :=
  if lapsed f.device (env.clock 0) then .expiring
  else if answer.lateAfter then .failing .executionUnknown
  else
    match answer.peers with
    | none => .failing .executionUnknown
    | some peers =>
      match runtimeMap peers with
      | .error e => .failing e
      | .ok before =>
        match plan s f.device f.history before with
        | .error e => .failing e
        | .ok actions =>
          if lapsed f.device (env.clock 1) then .expiring else .planned before actions

/-- Whether the next action is an executor call, rather than a way out. -/
def starts (answer : Answer) (a : PlannedAction) : Bool :=
  answer.identity && !answer.lateBefore &&
    (a.kind = .remove || (f.device.state = .active && env.clock 0 < f.device.validUntil))

def afterAction (answer : Answer) (before : RuntimeMap)
    (a : PlannedAction) (rest : List PlannedAction) : Phase :=
  if !answer.identity then .failing .policy
  else if answer.lateBefore then .failing .executionUnknown
  else if a.kind = .apply ∧ (f.device.state ≠ .active ∨ f.device.validUntil ≤ env.clock 0) then
    .expiring
  else if lapsed f.device (env.clock 1) then .expiring
  else if answer.erred || answer.lateAfter then .failing .executionUnknown
  else .acting before rest

/-- The runtime after an executor call that took effect. -/
def PlannedAction.execute (a : PlannedAction) (runtime : List Peer) : List Peer :=
  match a.kind with
  | .apply => applyPeer a.key a.address runtime
  | .remove => removePeer a.key runtime

def afterSecondSnapshot (answer : Answer) (before : RuntimeMap) : Phase :=
  if lapsed f.device (env.clock 0) then .expiring
  else if answer.lateAfter then .failing .executionUnknown
  else
    match answer.peers with
    | none => .failing .executionUnknown
    | some peers =>
      match runtimeMap peers with
      | .error _ => .failing .verification
      | .ok after =>
        match verify f.device f.history before after with
        | .error e => .failing e
        | .ok _ => if lapsed f.device (env.clock 1) then .expiring else .verified

end DaxiangVpn.DeviceAuthProcess
