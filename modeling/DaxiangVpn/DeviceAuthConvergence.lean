import DaxiangVpn.DeviceAuthSteps

/-!
# Proof of convergence for the proxy

`WithProxyConvergence` reads the runtime and every device under the fence, and
calls the grant only when desired state, recorded results and runtime agree. Its
loops collect the peers that are expected in the runtime and the earliest end of
any authorization.
-/

namespace DaxiangVpn.DeviceAuthConvergence

open CheckedSteps NetipPrefix DeviceAuthPolicy RelationTable DeviceAuthTables List
open DeviceAuthProcess DeviceAuthWorld DeviceAuthSteps TransitionRun

/-! ## The proof -/

/-- `ProxyConvergenceProof`; the zero time of no deadline is none. -/
structure ConvergenceProof where
  epoch : String
  /-- Owner mark of managed peers. -/
  managedBy : String
  policySHA256 : String
  sequence : ℕ
  verifiedAt : ℤ
  earliestValidUntil : Option ℤ
  activeDevices : ℕ

/-- What the environment answers during the call. -/
structure ProofEnv where
  /-- Clock readings: after the snapshot, at the verification, after the grant. -/
  clock : ℕ → ℤ
  peers : Option (List Peer)
  lateStart : Bool
  /-- The context was over after the snapshot. -/
  lateSnapshot : Bool
  /-- The context was over at the verification. -/
  lateEnd : Bool
  /-- The context was over after the grant. -/
  lateGrant : Bool
  /-- The database file is the one that was opened, before the grant. -/
  identity : Bool
  /-- The database file is the one that was opened, after the grant. -/
  identityAfter : Bool

variable (s : Store) (scopes : List IpPrefix)

/-- Add one managed source to the scopes: canonical, and apart from the others. -/
def admitScope (value : String) : Except Err (List IpPrefix) := do
  let p ← demand (parsePrefix value) .policy
  deny (p ≠ p.masked || p.addr.is4In6 || p.string ≠ value) .policy
  deny (scopes.any fun old => p.overlaps old) .policy
  pure (scopes ++ [p])

def clearProtection (protection : Protection) : Except Err Unit :=
  if protection.range = "" then pure ()
  else do
    let p ← demand (parsePrefix protection.range) .policy
    deny (scopes.any fun scope => p.overlaps scope) .protectedPeer

/-- The scopes of the managed sources, which are the policy's pools. -/
def managedScopes (sources : List String) : Except Err (List IpPrefix) := do
  deny (sources.length = 0 || 64 < sources.length) .invalid
  let scopes ← foldRows admitScope [] sources
  deny (sources.insertionSort (· ≤ ·) ≠ s.policy.addressPools) .policy
  eachRow (clearProtection scopes) s.policy.protections
  pure scopes

/-- Keys that are expected in the runtime, with their addresses. -/
abbrev Expected := Table (Prod.fst : String × String → String)

def expectedAddress (expected : Expected) (key : String) : String :=
  ((expected.find key).map Prod.snd).getD ""

/-- What the loop over the devices has collected. -/
structure Progress where
  expected : Expected
  /-- Earliest end of an authorization so far. -/
  earliest : Option ℤ
  /-- Devices with a current key so far. -/
  active : ℕ

/-- The earlier of two ends. -/
def sooner (earliest : Option ℤ) (validUntil : ℤ) : ℤ :=
  match earliest with
  | none => validUntil
  | some e => if validUntil < e then validUntil else e

/-- Take one unexpired end into account. -/
def boundBy (now : ℤ) (earliest : Option ℤ) (validUntil : ℤ) : Except Err (Option ℤ) := do
  deny (validUntil ≤ now) .expired
  pure (some (sooner earliest validUntil))

def boundDevice (now : ℤ) (earliest : Option ℤ) (d : Device) : Except Err (Option ℤ) :=
  if d.state = .active then boundBy now earliest d.validUntil else pure earliest

/-- Verified operations of the device's generation that explain its state. -/
def latestDone (d : Device) (db : DB) : ℕ :=
  db.operations.count fun o => o.deviceId = d.id && o.generation = d.generation &&
    o.epoch = s.policy.epoch && (db.outbox.has fun x => x.operationId = o.operationId &&
      x.state = .done && x.verifiedAt.isSome && 0 < x.fence) &&
    ((d.state = .active && o.action = .apply) || (d.state ≠ .active && o.action ≠ .apply))

/-- Intents of the device's generation that were not verified. -/
def unresolved (d : Device) (db : DB) : ℕ :=
  db.intents.count fun i => i.generation = d.generation && i.state ≠ .verified &&
    db.operations.has fun o => o.operationId = i.operationId && o.deviceId = d.id &&
      o.generation = d.generation

/-- Sort order of binding rows. -/
def bindingLe (a b : BindingRow) : Prop := a.publicKey ≤ b.publicKey

/-- The order of two binding rows can be evaluated. -/
instance : DecidableRel bindingLe := fun a b =>
  inferInstanceAs (Decidable (a.publicKey ≤ b.publicKey))

/-- All keys the device ever had, in key order. -/
def ownBindings (db : DB) (id : String) : List BindingRow :=
  (db.bindings.select fun b => b.deviceId = id).insertionSort bindingLe

def proxyProofBindings (db : DB) (id : String) : Except Err (List BindingRow) := do
  let rows := (ownBindings db id).take 16385
  deny (16384 < rows.length) .quota
  pure rows

/-- A revoked key is gone, and its removal is recorded for this generation. -/
def checkRevoked (db : DB) (d : Device) (runtime : RuntimeMap) (b : BindingRow) :
    Except Err Unit := do
  deny (runtime.find b.publicKey).isSome .verification
  let row ← demand (db.bindings.find b.publicKey) .noRows
  deny (row.removedGeneration < b.revokedGeneration || row.removedGeneration ≠ d.generation)
    .verification
  deny (db.tombstones.has fun t => t.publicKey = b.publicKey &&
    (t.verifiedAt = none || d.generation < t.generation)) .verification

/-- The unrevoked key is the current one, applied and reserved. -/
def checkCurrent (db : DB) (d : Device) (expected : Expected) (b : BindingRow) :
    Except Err Expected := do
  deny (d.state ≠ .active || d.publicKey ≠ b.publicKey || d.address ≠ b.address || !b.applied)
    .verification
  let row ← demand (db.bindings.find b.publicKey) .noRows
  deny (row.createdGeneration ≠ d.generation || row.removedGeneration ≠ 0) .verification
  let reservation ← demand (db.addresses.find b.address) .verification
  deny (reservation.deviceId ≠ d.id) .verification
  deny (db.tombstones.has fun t => t.publicKey = b.publicKey) .verification
  demand (expected.insert (b.publicKey, b.address)) .protectedPeer

def checkBinding (db : DB) (d : Device) (runtime : RuntimeMap) (expected : Expected)
    (b : BindingRow) : Except Err Expected := do
  deny (b.deviceId ≠ d.id || b.managedBy ≠ s.policy.managedBy) .protectedPeer
  deny (s.policy.address b.publicKey b.address).isOk.not .protectedPeer
  if 0 < b.revokedGeneration then do
    checkRevoked db d runtime b
    pure expected
  else checkCurrent db d expected b

/-- Credentials of the device that are neither revoked nor replaced, two at most. -/
def liveCredentials (d : Device) (db : DB) : List CredentialRow :=
  (db.credentials.select fun c =>
    c.deviceId = d.id && c.revokedAt = none && c.replacedBy = none).take 2

def checkKey (db : DB) (now : ℤ) (d : Device) (history : List BindingRow) (acc : Progress) :
    Except Err Progress :=
  if d.publicKey ≠ "" then do
    deny (expectedAddress acc.expected d.publicKey ≠ d.address) .verification
    let earliest ← foldRows (fun e c => boundBy now e c.validUntil) acc.earliest
      (liveCredentials d db)
    deny (1 < (liveCredentials d db).length) .verification
    pure { acc with earliest := earliest, active := acc.active + 1 }
  else do
    deny (history.length = 0 && 0 < d.generation && d.state = .active) .verification
    pure acc

def checkDevice (db : DB) (runtime : RuntimeMap) (now : ℤ) (acc : Progress)
    (id : String) : Except Err Progress := do
  let d ← deviceRow db id
  deny (d.generation ≠ d.appliedGeneration) .verification
  let earliest ← boundDevice now acc.earliest d
  deny (0 < d.generation && latestDone s d db ≠ 1) .verification
  deny (unresolved d db ≠ 0) .verification
  let history ← proxyProofBindings db id
  let expected ← foldRows (checkBinding s db d runtime) acc.expected history
  checkKey db now d history ⟨expected, earliest, acc.active⟩

/-- All devices in key order. -/
def sortedIds (db : DB) : List String :=
  (db.devices.rows.map DeviceRow.deviceId).insertionSort (· ≤ ·)

/-- The devices that are read, ten thousand at most. -/
def deviceIds (db : DB) : Except Err (List String) := do
  let ids := (sortedIds db).take 10001
  deny (10000 < ids.length) .quota
  pure ids

def checkExpected (runtime : RuntimeMap) (entry : String × String) : Except Err Unit :=
  deny (addressesOf runtime entry.1 ≠ some [entry.2]) .verification

def checkAddress (expected : Expected) (peer : Peer)
    (value : String) : Except Err Unit :=
  match parsePrefix value with
  | none => pure ()
  | some p => eachRow (fun scope => deny (p.overlaps scope &&
      (expectedAddress expected peer.publicKey ≠ value || peer.allowedIPs.length ≠ 1 ||
        s.policy.isProtected peer.publicKey p)) .protectedPeer) scopes

def checkPeer (expected : Expected) (peer : Peer) :
    Except Err Unit :=
  eachRow (checkAddress s scopes expected peer) peer.allowedIPs

def policyDigest (s : Store) : String :=
  s.prims.bodyDigest (s.policyJSON.toUTF8.toList.map UInt8.toNat)

/-- `WithProxyConvergence` up to its grant, which is called with the proof. -/
def proveConvergence (env : ProofEnv) (sources : List String) (db : DB) :
    Except Err ConvergenceProof := do
  let scopes ← managedScopes s sources
  checkPolicy s db
  deny env.lateStart .sql
  deny (maxInt64 ≤ db.metaRow.executorFence) .generation
  deny env.lateSnapshot .executionUnknown
  let peers ← demand env.peers .executionUnknown
  let runtime ← demand (runtimeMap peers).toOption .verification
  let ids ← deviceIds db
  let found ← foldRows (checkDevice s db runtime (env.clock 0)) ⟨.empty, none, 0⟩ ids
  eachRow (checkExpected runtime) found.expected.rows
  eachRow (checkPeer s scopes found.expected) runtime.rows
  deny (!env.identity) .policy
  deny env.lateEnd .sql
  deny (found.earliest.any fun e => e ≤ env.clock 1) .expired
  pure ⟨s.policy.epoch, s.policy.managedBy, policyDigest s, db.metaRow.executorFence + 1,
    env.clock 1, found.earliest, found.active⟩

/-- Body of `WithProxyConvergence`: the sequence is only kept when the grant
and the checks after it succeed. -/
def withProxyConvergence (env : ProofEnv) (sources : List String)
    (grant : ConvergenceProof → Except Err Unit) (db : DB) : Except Err (Unit × DB) := do
  let proof ← proveConvergence s env sources db
  grant proof
  deny env.lateGrant .sql
  deny (proof.earliestValidUntil.any fun e => e ≤ env.clock 2) .expired
  deny (!env.identityAfter) .policy
  pure ((), { db with metaRow := { db.metaRow with executorFence := proof.sequence } })

/-! ## Scopes -/

theorem managedScopes_ok {s : Store} {sources : List String} {scopes : List IpPrefix}
    (h : managedScopes s sources = .ok scopes) :
    ∀ source ∈ sources, ∀ p, parsePrefix source = some p → p ∈ scopes := by
  replace h := rest_ok h
  obtain ⟨scopes', hfold, h⟩ := bind_ok.mp h
  replace h := rest_ok (rest_ok h)
  cases pure_ok.mp h
  have hall : ∀ source ∈ [] ++ sources, ∀ p, parsePrefix source = some p → p ∈ scopes := by
    refine foldRows_rule
      (fun seen acc => ∀ source ∈ seen, ∀ p, parsePrefix source = some p → p ∈ acc)
      ?_ (by simp) hfold
    intro seen acc value acc' hseen hadd source hsource p hp
    obtain ⟨q, hq, hadd⟩ := demand_bind_ok.mp hadd
    replace hadd := rest_ok (rest_ok hadd)
    cases pure_ok.mp hadd
    rcases mem_append.mp hsource with hsource | hsource
    · exact mem_append_left _ (hseen source hsource p hp)
    · rw [mem_singleton.mp hsource, hq] at hp
      exact mem_append_right _ (by simp [Option.some.inj hp])
  simpa using hall

/-! ## Bindings -/

section

variable {s : Store} {db : DB} {d : Device} {runtime : RuntimeMap}

/-- What the proof demands of a revoked key. -/
structure RevokedOk (db : DB) (d : Device) (runtime : RuntimeMap) (b : BindingRow) : Prop where
  absent : runtime.find b.publicKey = none
  removed : b.revokedGeneration ≤ b.removedGeneration ∧ b.removedGeneration = d.generation
  buried : ∀ t ∈ db.tombstones, t.publicKey = b.publicKey →
    t.verifiedAt ≠ none ∧ t.generation ≤ d.generation

/-- What the proof demands of an unrevoked key. -/
structure CurrentOk (db : DB) (d : Device) (b : BindingRow) : Prop where
  active : d.state = .active
  current : d.publicKey = b.publicKey ∧ d.address = b.address
  applied : b.applied = true
  created : b.createdGeneration = d.generation ∧ b.removedGeneration = 0
  reserved : ∃ x ∈ db.addresses, x.address = b.address ∧ x.deviceId = d.id
  clean : ∀ t ∈ db.tombstones, t.publicKey ≠ b.publicKey

/-- What the proof demands of a key. -/
structure BindingPasses (s : Store) (db : DB) (d : Device) (runtime : RuntimeMap) (b : BindingRow) :
    Prop where
  owner : b.deviceId = d.id ∧ b.managedBy = s.policy.managedBy
  address : ∃ a, s.policy.address b.publicKey b.address = .ok a
  revoked : 0 < b.revokedGeneration → RevokedOk db d runtime b
  current : b.revokedGeneration = 0 → CurrentOk db d b

variable {b : BindingRow} {expected expected' : Expected}

theorem checkRevoked_ok (hb : b ∈ db.bindings) {u : Unit} :
    checkRevoked db d runtime b = .ok u ↔ RevokedOk db d runtime b := by
  unfold checkRevoked
  simp only [deny_bind_ok, demand_bind_ok, deny_ok, find_of_mem hb, Option.some.injEq,
    exists_eq_left', Option.isSome_eq_false_iff, Option.isNone_iff_eq_none, Bool.or_eq_false_iff,
    decide_eq_false_iff_not, not_lt, ne_eq, not_not, has_eq_false, Bool.and_eq_false_iff]
  constructor
  · rintro ⟨habs, hrem, htomb⟩
    refine ⟨habs, hrem, fun t ht hkey => ?_⟩
    rcases htomb t ht with hne | hok
    · exact absurd hkey hne
    · exact hok
  · rintro ⟨habs, hrem, htomb⟩
    refine ⟨habs, hrem, fun t ht => ?_⟩
    by_cases hkey : t.publicKey = b.publicKey
    · exact .inr (htomb t ht hkey)
    · exact .inl hkey

/-- An unrevoked key passes exactly when it is current and not expected yet. -/
theorem checkCurrent_ok (hb : b ∈ db.bindings) : checkCurrent db d expected b = .ok expected' ↔
      CurrentOk db d b ∧ expected.insert (b.publicKey, b.address) = some expected' := by
  unfold checkCurrent
  simp only [deny_bind_ok, demand_bind_ok, demand_ok, find_of_mem hb, Option.some.injEq,
    exists_eq_left', Bool.or_eq_false_iff, decide_eq_false_iff_not, ne_eq, not_not,
    Bool.not_eq_eq_eq_not, Bool.not_false, has_eq_false, find_eq_some]
  constructor
  · rintro ⟨⟨⟨⟨hact, hkey⟩, haddr⟩, happ⟩, hcre, x, ⟨hx, hxa⟩, hxd, htomb, hins⟩
    exact ⟨⟨hact, ⟨hkey, haddr⟩, happ, hcre, ⟨x, hx, hxa, hxd⟩, htomb⟩, hins⟩
  · rintro ⟨⟨hact, ⟨hkey, haddr⟩, happ, hcre, ⟨x, hx, hxa, hxd⟩, htomb⟩, hins⟩
    exact ⟨⟨⟨⟨hact, hkey⟩, haddr⟩, happ⟩, hcre, x, ⟨hx, hxa⟩, hxd, htomb, hins⟩

theorem checkBinding_ok (hb : b ∈ db.bindings) :
    checkBinding s db d runtime expected b = .ok expected' ↔
      BindingPasses s db d runtime b ∧ (0 < b.revokedGeneration ∧ expected' = expected ∨
        b.revokedGeneration = 0 ∧ expected.insert (b.publicKey, b.address) = some expected') := by
  have haddress : (s.policy.address b.publicKey b.address).isOk.not = false ↔
      ∃ a, s.policy.address b.publicKey b.address = .ok a := by
    cases s.policy.address b.publicKey b.address <;> simp [Except.isOk, Except.toBool]
  unfold checkBinding
  rw [deny_bind_ok, deny_bind_ok, haddress, Bool.or_eq_false_iff, decide_eq_false_iff_not,
    decide_eq_false_iff_not, not_not, not_not]
  by_cases hrev : 0 < b.revokedGeneration
  · rw [if_pos hrev, bind_ok]
    constructor
    · rintro ⟨howner, haddr, u, hcheck, hpure⟩
      exact ⟨⟨howner, haddr, fun _ => (checkRevoked_ok hb).mp hcheck, fun hz => absurd hz hrev.ne'⟩,
        .inl ⟨hrev, (pure_ok.mp hpure).symm⟩⟩
    · rintro ⟨hpass, ⟨-, heq⟩ | ⟨hz, -⟩⟩
      · exact ⟨hpass.owner, hpass.address, (), (checkRevoked_ok hb).mpr (hpass.revoked hrev),
          pure_ok.mpr heq.symm⟩
      · exact absurd hz hrev.ne'
  · have hz : b.revokedGeneration = 0 := Nat.eq_zero_of_not_pos hrev
    rw [if_neg hrev, checkCurrent_ok hb]
    constructor
    · rintro ⟨howner, haddr, hcur, hins⟩
      exact ⟨⟨howner, haddr, fun hpos => absurd hpos hrev, fun _ => hcur⟩, .inr ⟨hz, hins⟩⟩
    · rintro ⟨hpass, ⟨hpos, -⟩ | ⟨-, hins⟩⟩
      · exact absurd hpos hrev
      · exact ⟨hpass.owner, hpass.address, hpass.current hz, hins⟩

/-- The peers that the keys of a history add to the expected ones. -/
def Adds (history : List BindingRow) (expected expected' : Expected) : Prop :=
  ∀ x, x ∈ expected' ↔ x ∈ expected ∨ ∃ b ∈ history, b.revokedGeneration = 0 ∧
    x = (b.publicKey, b.address)

theorem Adds.snoc {seen : List BindingRow} {acc acc' : Expected}
    (h : Adds seen expected acc) (hb : 0 < b.revokedGeneration ∧ acc' = acc ∨
      b.revokedGeneration = 0 ∧ acc.insert (b.publicKey, b.address) = some acc') :
    Adds (seen ++ [b]) expected acc' := by
  intro x
  simp only [mem_append, mem_singleton, or_and_right, exists_or, exists_eq_left]
  rcases hb with ⟨hpos, rfl⟩ | ⟨hz, hins⟩
  · rw [h x]
    have hno : ¬(b.revokedGeneration = 0 ∧ x = (b.publicKey, b.address)) := fun hc => hpos.ne' hc.1
    simp only [hno, or_false]
  · rw [mem_of_insert hins, h x, or_assoc]
    simp only [hz, true_and]

theorem history_ok {history : List BindingRow} (hmem : ∀ b ∈ history, b ∈ db.bindings)
    (h : foldRows (checkBinding s db d runtime) expected history = .ok expected') :
    (∀ b ∈ history, BindingPasses s db d runtime b) ∧ Adds history expected expected' := by
  have hnone : Adds [] expected expected := fun x => by simp
  have hrule : ∀ seen rest, history = seen ++ rest → ∀ acc,
      (∀ b ∈ seen, BindingPasses s db d runtime b) ∧ Adds seen expected acc →
      foldRows (checkBinding s db d runtime) acc rest = .ok expected' →
      (∀ b ∈ history, BindingPasses s db d runtime b) ∧ Adds history expected expected' := by
    intro seen rest
    induction rest generalizing seen with
    | nil =>
      intro hall acc hacc hfold
      cases hfold
      rw [hall, append_nil]
      exact hacc
    | cons b rest ih =>
      intro hall acc hacc hfold
      obtain ⟨acc', hb, hrest⟩ := foldRows_cons_ok.mp hfold
      obtain ⟨hpass, hadd⟩ := (checkBinding_ok (hmem b (by simp [hall]))).mp hb
      refine ih (seen ++ [b]) (by simp [hall]) acc' ⟨fun x hx => ?_, hacc.2.snoc hadd⟩ hrest
      rcases mem_append.mp hx with hx | hx
      · exact hacc.1 x hx
      · exact mem_singleton.mp hx ▸ hpass
  exact hrule [] history rfl expected ⟨by simp, hnone⟩ h

end

/-! ## Rows that are read with a limit -/

/-- A query that asks for one row more than its limit reads everything or refuses. -/
theorem limited_ok {ρ : Type} {rows out : List ρ} {limit : ℕ} :
    (do let read := rows.take (limit + 1)
        deny (limit < read.length) Err.quota
        pure read) = .ok out ↔ rows.length ≤ limit ∧ out = rows := by
  simp only [deny_bind_ok, pure_ok, decide_eq_false_iff_not, length_take]
  constructor
  · rintro ⟨hlen, rfl⟩
    exact ⟨by omega, take_of_length_le (by omega)⟩
  · rintro ⟨hlen, rfl⟩
    exact ⟨by omega, take_of_length_le (by omega)⟩

variable {db : DB} {earliest earliest' : Option ℤ} {id : String} {now : ℤ}

theorem proxyProofBindings_ok {history : List BindingRow} : proxyProofBindings db id = .ok history ↔
    (ownBindings db id).length ≤ 16384 ∧ history = ownBindings db id :=
  limited_ok

theorem deviceIds_ok {ids : List String} :
    deviceIds db = .ok ids ↔ (sortedIds db).length ≤ 10000 ∧ ids = sortedIds db :=
  limited_ok

theorem mem_ownBindings {b : BindingRow} :
    b ∈ ownBindings db id ↔ b ∈ db.bindings ∧ b.deviceId = id := by
  rw [ownBindings, (perm_insertionSort _ _).mem_iff, mem_select, decide_eq_true_eq]

theorem mem_sortedIds : id ∈ sortedIds db ↔ ∃ r ∈ db.devices, r.deviceId = id := by
  rw [sortedIds, (perm_insertionSort _ _).mem_iff, mem_map]
  rfl

/-! ## Ends of authorizations -/

/-- The earliest end is not after the given one. -/
def Within (validUntil : ℤ) (earliest : Option ℤ) : Prop := ∃ e, earliest = some e ∧ e ≤ validUntil

/-- The earliest end is after the given time. -/
def Later (t : ℤ) (earliest : Option ℤ) : Prop := ∀ e, earliest = some e → t < e

theorem sooner_le (earliest : Option ℤ) (validUntil : ℤ) :
    sooner earliest validUntil ≤ validUntil ∧ ∀ e, earliest = some e →
    sooner earliest validUntil ≤ e := by
  cases earliest with
  | none => exact ⟨le_rfl, nofun⟩
  | some =>
    simp only [sooner, Option.some.injEq, forall_eq']
    split <;> omega

/-- One end is taken into account exactly when it has not passed. -/
theorem boundBy_ok {validUntil : ℤ} : boundBy now earliest validUntil = .ok earliest' ↔
      now < validUntil ∧ earliest' = some (sooner earliest validUntil) := by
  rw [boundBy, deny_bind_ok, pure_ok, decide_eq_false_iff_not, not_le, eq_comm (b := earliest')]

theorem within_sooner {t : ℤ} (validUntil : ℤ) (h : Within t earliest) :
    Within t (some (sooner earliest validUntil)) := by
  obtain ⟨e, he, hle⟩ := h
  exact ⟨_, rfl, ((sooner_le earliest validUntil).2 e he).trans hle⟩

theorem boundAll_ok {rows : List CredentialRow}
    (h : foldRows (fun e (c : CredentialRow) => boundBy now e c.validUntil) earliest rows =
      .ok earliest') :
    (∀ c ∈ rows, now < c.validUntil ∧ Within c.validUntil earliest') ∧
      ∀ t, Within t earliest → Within t earliest' := by
  have hnone : (∀ c ∈ ([] : List CredentialRow), now < c.validUntil ∧
    Within c.validUntil earliest) ∧
      ∀ t, Within t earliest → Within t earliest := ⟨by simp, fun _ ht => ht⟩
  refine foldRows_rule (fun seen acc => (∀ c ∈ seen, now < c.validUntil ∧ Within c.validUntil acc) ∧
    ∀ t, Within t earliest → Within t acc) ?_ hnone h
  intro seen acc c acc' hseen hc
  obtain ⟨hlate, rfl⟩ := boundBy_ok.mp hc
  refine ⟨fun x hx => ?_, fun t ht => within_sooner _ (hseen.2 t ht)⟩
  rcases mem_append.mp hx with hx | hx
  · exact ⟨(hseen.1 x hx).1, within_sooner _ (hseen.1 x hx).2⟩
  · rw [mem_singleton.mp hx]
    exact ⟨hlate, _, rfl, (sooner_le acc c.validUntil).1⟩

theorem boundDevice_ok {d : Device} (h : boundDevice now earliest d = .ok earliest') :
    (d.state = .active → now < d.validUntil ∧ Within d.validUntil earliest') ∧
      ∀ t, Within t earliest → Within t earliest' := by
  unfold boundDevice at h
  split at h
  · obtain ⟨hlate, rfl⟩ := boundBy_ok.mp h
    exact ⟨fun _ => ⟨hlate, _, rfl, (sooner_le earliest d.validUntil).1⟩,
      fun _ ht => within_sooner _ ht⟩
  · rename_i hstate
    cases pure_ok.mp h
    exact ⟨fun hactive => absurd hactive hstate, fun _ ht => ht⟩

theorem mem_liveCredentials {d : Device} (hlen : (liveCredentials d db).length ≤ 1)
    {c : CredentialRow} (hc : c ∈ db.credentials) (hdev : c.deviceId = d.id)
    (hrev : c.revokedAt = none) (hrep : c.replacedBy = none) : c ∈ liveCredentials d db := by
  unfold liveCredentials at hlen ⊢
  rw [length_take] at hlen
  rw [take_of_length_le (by omega), mem_select]
  exact ⟨hc, by simp [hdev, hrev, hrep]⟩

/-! ## Devices -/

section

variable {s : Store} {db : DB} {runtime : RuntimeMap} {now : ℤ}

/-- What the proof demands of a device. -/
structure DevicePasses (s : Store) (db : DB) (runtime : RuntimeMap) (now : ℤ) (r : DeviceRow) :
    Prop where
  applied : r.generation = r.appliedGeneration
  unexpired : r.state = .active → now < r.validUntil
  latest : 0 < r.generation → latestDone s r.device db = 1
  resolved : unresolved r.device db = 0
  few : (ownBindings db r.deviceId).length ≤ 16384
  bindings : ∀ b ∈ db.bindings, b.deviceId = r.deviceId → BindingPasses s db r.device runtime b
  credentials : r.device.publicKey ≠ "" → (liveCredentials r.device db).length ≤ 1 ∧
    ∀ c ∈ liveCredentials r.device db, now < c.validUntil
  rooted : r.device.publicKey = "" → 0 < r.generation → r.state = .active →
    ownBindings db r.deviceId ≠ []

/-- The ends of a device and of its live credentials are taken into account. -/
structure Bounds (db : DB) (r : DeviceRow) (earliest : Option ℤ) : Prop where
  device : r.state = .active → Within r.validUntil earliest
  credential : r.currentKey.getD "" ≠ "" → ∀ c ∈ db.credentials, c.deviceId = r.deviceId →
    c.revokedAt = none → c.replacedBy = none → Within c.validUntil earliest

theorem Bounds.mono {r : DeviceRow} {earliest earliest' : Option ℤ} (h : Bounds db r earliest)
    (hmono : ∀ t, Within t earliest → Within t earliest') : Bounds db r earliest' :=
  ⟨fun ha => hmono _ (h.device ha),
    fun hk c hc hdev hrev hrep => hmono _ (h.credential hk c hc hdev hrev hrep)⟩

/-- The peers that are expected after the given devices. -/
def Collected (db : DB) (ids : List String) (expected : Expected) : Prop :=
  ∀ x, x ∈ expected ↔ ∃ b ∈ db.bindings, b.deviceId ∈ ids ∧ b.revokedGeneration = 0 ∧
    x = (b.publicKey, b.address)

theorem Collected.snoc {ids : List String} {expected expected' : Expected}
    (h : Collected db ids expected) (hadd : Adds (ownBindings db id) expected expected') :
    Collected db (ids ++ [id]) expected' := by
  intro x
  rw [hadd x, h x]
  simp only [mem_ownBindings, mem_append, mem_singleton]
  constructor
  · rintro (⟨b, hb, hid, hrest⟩ | ⟨b, ⟨hb, hid⟩, hrest⟩)
    · exact ⟨b, hb, .inl hid, hrest⟩
    · exact ⟨b, hb, .inr hid, hrest⟩
  · rintro ⟨b, hb, hid | hid, hrest⟩
    · exact .inl ⟨b, hb, hid, hrest⟩
    · exact .inr ⟨b, ⟨hb, hid⟩, hrest⟩

theorem expectedAddress_eq {expected : Expected} {key address : String} (hne : address ≠ "") :
    expectedAddress expected key = address ↔ (key, address) ∈ expected := by
  unfold expectedAddress
  cases hf : expected.find key with
  | none =>
    have hno : (key, address) ∉ expected := fun hm => find_eq_none.mp hf _ hm rfl
    simp [hno, hne.symm]
  | some x =>
    obtain ⟨hx, hkey⟩ := find_eq_some.mp hf
    simp only [Option.map_some, Option.getD_some]
    constructor
    · intro haddr
      exact (Prod.ext hkey haddr : x = (key, address)) ▸ hx
    · intro hm
      rw [Table.eq_of_key hx hm hkey]

theorem checkDevice_ok {acc acc' : Progress}
    (h : checkDevice s db runtime now acc id = .ok acc') :
    ∃ r ∈ db.devices, r.deviceId = id ∧ DevicePasses s db runtime now r ∧
      Bounds db r acc'.earliest ∧ (∀ t, Within t acc.earliest → Within t acc'.earliest) ∧
      Adds (ownBindings db id) acc.expected acc'.expected ∧
      (r.currentKey.getD "" ≠ "" → expectedAddress acc'.expected (r.currentKey.getD "") =
        r.currentAddress.getD "") := by
  obtain ⟨d, hd, h⟩ := bind_ok.mp h
  obtain ⟨r, hr, rfl, rfl⟩ := deviceRow_ok hd
  obtain ⟨happlied, h⟩ := deny_bind_ok.mp h
  obtain ⟨earliest, hearliest, h⟩ := bind_ok.mp h
  obtain ⟨hlatest, h⟩ := deny_bind_ok.mp h
  obtain ⟨hresolved, h⟩ := deny_bind_ok.mp h
  obtain ⟨history, hhistory, h⟩ := bind_ok.mp h
  obtain ⟨expected, hexpected, h⟩ := bind_ok.mp h
  obtain ⟨hfew, rfl⟩ := proxyProofBindings_ok.mp hhistory
  obtain ⟨hpass, hadds⟩ := history_ok (fun b hb => (mem_ownBindings.mp hb).1) hexpected
  obtain ⟨hactive, hkeep⟩ := boundDevice_ok hearliest
  simp only [decide_eq_false_iff_not, ne_eq, not_not] at happlied hresolved
  have hlatest' : 0 < r.generation → latestDone s r.device db = 1 := by
    intro hpos
    have hpos' : decide (0 < r.device.generation) = true := decide_eq_true hpos
    rw [hpos', Bool.true_and, decide_eq_false_iff_not, not_not] at hlatest
    exact hlatest
  have hbindings : ∀ b ∈ db.bindings, b.deviceId = r.deviceId →
    BindingPasses s db r.device runtime b :=
    fun b hb hid => hpass b (mem_ownBindings.mpr ⟨hb, hid⟩)
  unfold checkKey at h
  split at h
  · rename_i hkey
    obtain ⟨haddr, h⟩ := deny_bind_ok.mp h
    obtain ⟨earliest', hfold, h⟩ := bind_ok.mp h
    obtain ⟨hsingle, h⟩ := deny_bind_ok.mp h
    cases pure_ok.mp h
    simp only [decide_eq_false_iff_not, ne_eq, not_not, not_lt] at haddr hsingle
    obtain ⟨hlive, hkeep'⟩ := boundAll_ok hfold
    refine ⟨r, hr, rfl, ⟨happlied, fun ha => (hactive ha).1, hlatest', hresolved, hfew, hbindings,
      fun _ => ⟨hsingle, fun c hc => (hlive c hc).1⟩, fun hno => absurd hno hkey⟩,
      ⟨fun ha => hkeep' _ (hactive ha).2, fun _ c hc hdev hrev hrep => ?_⟩,
      fun t ht => hkeep' t (hkeep t ht), hadds, fun _ => haddr⟩
    exact (hlive c (mem_liveCredentials hsingle hc hdev hrev hrep)).2
  · rename_i hkey
    obtain ⟨hroot, h⟩ := deny_bind_ok.mp h
    cases pure_ok.mp h
    refine ⟨r, hr, rfl, ⟨happlied, fun ha => (hactive ha).1, hlatest', hresolved, hfew, hbindings,
      fun hno => absurd hno hkey, fun _ hpos hstate hnil => ?_⟩,
      ⟨fun ha => (hactive ha).2, fun hno => absurd hno hkey⟩, hkeep, hadds,
      fun hno => absurd hno hkey⟩
    rw [hnil] at hroot
    simp [DeviceRow.device, hpos, hstate] at hroot

theorem devices_ok {found : Progress}
    (h : foldRows (checkDevice s db runtime now) ⟨.empty, none, 0⟩ (sortedIds db) = .ok found) :
    Collected db (sortedIds db) found.expected ∧ ∀ r ∈ db.devices, DevicePasses s db runtime now r ∧
      Bounds db r found.earliest ∧ (r.currentKey.getD "" ≠ "" → r.currentAddress.getD "" ≠ "" →
        (r.currentKey.getD "", r.currentAddress.getD "") ∈ found.expected) := by
  have hnone : Collected db [] (Table.empty : Expected) ∧ ∀ r ∈ db.devices,
      r.deviceId ∈ ([] : List String) → DevicePasses s db runtime now r ∧ Bounds db r none ∧
        (r.currentKey.getD "" ≠ "" → r.currentAddress.getD "" ≠ "" →
          (r.currentKey.getD "", r.currentAddress.getD "") ∈ (Table.empty : Expected)) :=
    ⟨fun x => by simp, by simp⟩
  have hall := foldRows_rule (fun seen (acc : Progress) => Collected db seen acc.expected ∧
    ∀ r ∈ db.devices, r.deviceId ∈ seen → DevicePasses s db runtime now r ∧
      Bounds db r acc.earliest ∧ (r.currentKey.getD "" ≠ "" → r.currentAddress.getD "" ≠ "" →
        (r.currentKey.getD "", r.currentAddress.getD "") ∈ acc.expected)) ?_ hnone h
  · exact ⟨hall.1, fun r hr => hall.2 r hr (mem_sortedIds.mpr ⟨r, hr, rfl⟩)⟩
  rintro seen acc id acc' ⟨hcol, hseen⟩ hdev
  obtain ⟨r, hr, rfl, hpass, hbounds, hkeep, hadds, haddr⟩ := checkDevice_ok hdev
  refine ⟨hcol.snoc hadds, fun x hx hin => ?_⟩
  rcases mem_append.mp hin with hin | hin
  · obtain ⟨hp, hb, he⟩ := hseen x hx hin
    exact ⟨hp, hb.mono hkeep, fun hk ha => (hadds _).mpr (.inl (he hk ha))⟩
  · cases Table.eq_of_key hx hr (mem_singleton.mp hin)
    exact ⟨hpass, hbounds, fun hk ha => (expectedAddress_eq ha).mp (haddr hk)⟩

end

/-! ## The grant -/

section

variable {s : Store} {env : ProofEnv} {sources : List String} {db : DB} {peers : List Peer}
  {proof : ConvergenceProof}

/-- What a proof that was reached has established. -/
structure Proved (s : Store) (env : ProofEnv) (sources : List String) (db : DB)
    (proof : ConvergenceProof) (peers : List Peer) (scopes : List IpPrefix) (runtime : RuntimeMap)
    (found : Progress) : Prop where
  managed : managedScopes s sources = .ok scopes
  snapshot : env.peers = some peers
  shown : runtimeMap peers = .ok runtime
  devices : foldRows (checkDevice s db runtime (env.clock 0)) ⟨.empty, none, 0⟩ (sortedIds db) =
    .ok found
  expected : ∀ x ∈ found.expected, addressesOf runtime x.1 = some [x.2]
  hosts : ∀ q ∈ runtime, ∀ v ∈ q.allowedIPs, ∀ p, parsePrefix v = some p → ∀ scope ∈ scopes,
    p.overlaps scope = true → expectedAddress found.expected q.publicKey = v ∧
      q.allowedIPs.length = 1
  later : Later (env.clock 1) found.earliest
  stated : proof.verifiedAt = env.clock 1 ∧ proof.earliestValidUntil = found.earliest

/-- Everything that was checked before the grant is called. -/
theorem proveConvergence_ok (h : proveConvergence s env sources db = .ok proof) :
    ∃ peers scopes runtime found, Proved s env sources db proof peers scopes runtime found := by
  obtain ⟨scopes, hscopes, h⟩ := bind_ok.mp h
  replace h := rest_ok (rest_ok (rest_ok (rest_ok h)))
  obtain ⟨peers, hpeers, h⟩ := demand_bind_ok.mp h
  obtain ⟨runtime, hruntime, h⟩ := demand_bind_ok.mp h
  obtain ⟨ids, hids, h⟩ := bind_ok.mp h
  obtain ⟨found, hfound, h⟩ := bind_ok.mp h
  obtain ⟨⟨⟩, hexpected, h⟩ := bind_ok.mp h
  obtain ⟨⟨⟩, hscoped, h⟩ := bind_ok.mp h
  replace h := rest_ok (rest_ok h)
  obtain ⟨hlater, h⟩ := deny_bind_ok.mp h
  cases pure_ok.mp h
  obtain ⟨-, rfl⟩ := deviceIds_ok.mp hids
  have hmap : runtimeMap peers = .ok runtime := by
    cases hm : runtimeMap peers with
    | error => simp [hm, Except.toOption] at hruntime
    | ok => simpa [hm, Except.toOption] using hruntime
  refine ⟨peers, scopes, runtime, found, hscopes, hpeers, hmap, hfound, fun x hx => ?_,
    ?_, ?_, rfl, rfl⟩
  · have hx' := deny_ok.mp (eachRow_ok.mp hexpected x hx)
    simpa using hx'
  · intro q hq v hv p hp scope hscope hover
    have hv' := eachRow_ok.mp (eachRow_ok.mp hscoped q hq) v hv
    unfold checkAddress at hv'
    rw [hp] at hv'
    have hdeny := deny_ok.mp (eachRow_ok.mp hv' scope hscope)
    simp only [hover, Bool.true_and, Bool.or_eq_false_iff, decide_eq_false_iff_not, ne_eq,
      not_not] at hdeny
    exact hdeny.1
  · intro e he
    simpa [he] using hlater

/-- The key and the address are the current, applied binding of the device,
which is active at the given time and owns the address. -/
structure CurrentHost (db : DB) (t : ℤ) (key address : String) (r : DeviceRow) : Prop where
  device : r ∈ db.devices
  active : r.state = .active
  unexpired : t < r.validUntil
  current : r.currentKey = some key ∧ r.currentAddress = some address
  binding : ∃ b ∈ db.bindings, b.publicKey = key ∧ b.address = address ∧
    b.deviceId = r.deviceId ∧ b.revokedGeneration = 0 ∧ b.applied = true
  reserved : ∃ x ∈ db.addresses, x.address = address ∧ x.deviceId = r.deviceId

/-- What a grant may rely on. -/
structure GrantSound (db : DB) (sources : List String) (peers : List Peer)
    (proof : ConvergenceProof) : Prop where
  /-- An address in a managed source is the one host of its peer, which is
  the current peer of exactly one device. -/
  hosts : ∀ p ∈ peers, ∀ v ∈ p.allowedIPs, ∀ q, parsePrefix v = some q →
    ∀ source ∈ sources, ∀ scope, parsePrefix source = some scope → q.overlaps scope = true →
      p.allowedIPs = [v] ∧ q.isHost = true ∧
        ∃! r, CurrentHost db proof.verifiedAt p.publicKey q.string r
  /-- Every unrevoked key of an active device is a peer with its address. -/
  current : ∀ r ∈ db.devices, r.state = .active → ∀ b ∈ db.bindings, b.deviceId = r.deviceId →
    b.revokedGeneration = 0 → Present b.publicKey b.address peers
  named : ∀ r ∈ db.devices, ∀ key address, r.currentKey = some key →
    r.currentAddress = some address → key ≠ "" → address ≠ "" → Present key address peers
  revoked : ∀ r ∈ db.devices, ∀ b ∈ db.bindings, b.deviceId = r.deviceId →
    0 < b.revokedGeneration → Absent b.publicKey peers
  /-- The earliest end bounds every active device and every live credential. -/
  bounded : ∀ r ∈ db.devices, Bounds db r proof.earliestValidUntil
  /-- The earliest end lies after the verification. -/
  later : Later proof.verifiedAt proof.earliestValidUntil

theorem Proved.current {scopes : List IpPrefix} {runtime : RuntimeMap} {found : Progress}
    (h : Proved s env sources db proof peers scopes runtime found) {key address : String}
    (hx : (key, address) ∈ found.expected) :
    ∃! r, CurrentHost db proof.verifiedAt key address r := by
  obtain ⟨hcol, hdevices⟩ := devices_ok h.devices
  obtain ⟨b, hb, hin, hz, heq⟩ := (hcol _).mp hx
  obtain ⟨rfl, rfl⟩ := Prod.mk.inj heq
  obtain ⟨r, hr, hid⟩ := mem_sortedIds.mp hin
  obtain ⟨hpass, hbounds, -⟩ := hdevices r hr
  have hbpass := hpass.bindings b hb hid.symm
  have hcur := hbpass.current hz
  obtain ⟨a, hok⟩ := hbpass.address
  have hkey : b.publicKey ≠ "" := by
    intro hempty
    obtain ⟨q, hq, -⟩ := Option.map_eq_some_iff.mp (h.expected _ hx)
    obtain ⟨hqm, hqkey⟩ := find_eq_some.mp hq
    have hvalid := (runtimeMap_ok h.shown).valid q hqm
    have hbad : validKey "" = false := by decide
    rw [hqkey, hempty, hbad] at hvalid
    cases hvalid
  have hsome : ∀ {o : Option String} {v : String}, v ≠ "" → o.getD "" = v → o = some v := by
    intro o v hv ho
    cases o with
    | none => exact absurd ho.symm hv
    | some => exact congrArg some ho
  obtain ⟨e, he, hle⟩ := hbounds.device hcur.active
  refine ⟨r, ⟨hr, hcur.active, ?_, ⟨hsome hkey hcur.current.1,
    hsome (address_ne_empty hok) hcur.current.2⟩, ⟨b, hb, rfl, rfl, hid.symm, hz, hcur.applied⟩,
    hcur.reserved⟩, fun r' hr' => ?_⟩
  · rw [h.stated.1]
    exact lt_of_lt_of_le (h.later e he) hle
  · obtain ⟨b', hb', hkey', -, hid', -⟩ := hr'.binding
    cases Table.eq_of_key hb' hb hkey'
    exact Table.eq_of_key hr'.device hr (hid'.symm.trans hid.symm)

/-- The grant is called only when desired state, recorded results and runtime
agree: every address in the managed sources is the one host of a current
customer peer, every current key is present, no revoked key is, and the proof
ends before any authorization that it rests on. -/
theorem proveConvergence_sound (h : proveConvergence s env sources db = .ok proof)
    (hpeers : env.peers = some peers) : GrantSound db sources peers proof := by
  obtain ⟨peers', scopes, runtime, found, hproved⟩ := proveConvergence_ok h
  have hsame : peers' = peers := Option.some.inj (hproved.snapshot.symm.trans hpeers)
  subst hsame
  obtain ⟨hcol, hdevices⟩ := devices_ok hproved.devices
  have hmapped := runtimeMap_ok hproved.shown
  have hpresent : ∀ key address, (key, address) ∈ found.expected → Present key address peers' :=
    fun key address hx => hmapped.present.mp (hproved.expected _ hx)
  have hbounds : ∀ r ∈ db.devices, Bounds db r proof.earliestValidUntil := by
    intro r hr
    rw [hproved.stated.2]
    exact (hdevices r hr).2.1
  refine ⟨?_, ?_, ?_, ?_, hbounds, ?_⟩
  · intro p hp v hv q hq source hsource scope hscope hover
    obtain ⟨m, hm, hkey, hcanon⟩ := hmapped.forward p hp
    obtain ⟨hlen, hips⟩ := canonicalIPs_ok hcanon
    obtain ⟨q', hq', hmap, hin⟩ := hips v hv
    cases hq.symm.trans hq'
    have hparse : parsePrefix q.masked.string = some q.masked :=
      parsePrefix_string (masked_is4In6 hmap)
    obtain ⟨haddr, hone⟩ := hproved.hosts m hm _ hin q.masked hparse scope
      (managedScopes_ok hproved.managed source hsource scope hscope)
      (by rw [masked_overlaps]; exact hover)
    have hx := (expectedAddress_eq (string_ne_empty q.masked)).mp haddr
    obtain ⟨b, hb, hbin, hz, heq⟩ := (hcol _).mp hx
    obtain ⟨-, hbaddr⟩ := Prod.mk.inj heq
    obtain ⟨r, hr, hid⟩ := mem_sortedIds.mp hbin
    obtain ⟨a, hok⟩ := ((hdevices r hr).1.bindings b hb hid.symm).address
    have hhost : q.isHost = true := by
      obtain ⟨p', hp', -, hhost, -⟩ := address_ok hok
      rw [← hbaddr, hparse] at hp'
      rw [← Option.some.inj hp'] at hhost
      exact hhost
    have hlist : p.allowedIPs = [v] := by
      rw [hlen] at hone
      obtain ⟨x, hx⟩ := length_eq_one_iff.mp hone
      rw [hx, mem_singleton] at hv
      rw [hx, hv]
    rw [masked_of_isHost hhost, hkey] at hx
    exact ⟨hlist, hhost, hproved.current hx⟩
  · intro r hr _ b hb hid hz
    exact hpresent _ _ ((hcol _).mpr ⟨b, hb, hid ▸ mem_sortedIds.mpr ⟨r, hr, rfl⟩, hz, rfl⟩)
  · intro r hr key address hkey haddr hkne hane
    have hx := (hdevices r hr).2.2
    simp only [hkey, haddr, Option.getD_some] at hx
    exact hpresent _ _ (hx hkne hane)
  · intro r hr b hb hid hpos
    exact hmapped.absent.mp (((hdevices r hr).1.bindings b hb hid).revoked hpos).absent
  · rw [hproved.stated.1, hproved.stated.2]
    exact hproved.later

/-- The device of the deployment has converged, and the proxy asks for a grant. -/
def sampleProofEnv : ProofEnv :=
  ⟨fun _ => 9, some [samplePeer false], false, false, false, false, true, true⟩

/-- The grant of the converged deployment is reached and sound. -/
theorem proveConvergence_sound_converged : ∃ proof, proof.activeDevices = 1 ∧
    GrantSound (run (step sampleStore) (init sampleStore [] 0) sampleConverged).db ["10.7.0.0/24"]
      [samplePeer false] proof := by
  have hreached : ((proveConvergence sampleStore sampleProofEnv ["10.7.0.0/24"]
      (run (step sampleStore) (init sampleStore [] 0) sampleConverged).db).toOption.map
        ConvergenceProof.activeDevices) = some 1 := by decide +kernel
  cases hproof : proveConvergence sampleStore sampleProofEnv ["10.7.0.0/24"]
      (run (step sampleStore) (init sampleStore [] 0) sampleConverged).db with
  | error =>
    rw [hproof] at hreached
    cases hreached
  | ok proof =>
    rw [hproof] at hreached
    exact ⟨proof, Option.some.inj hreached, proveConvergence_sound hproof rfl⟩

end

end DaxiangVpn.DeviceAuthConvergence
