import DaxiangVpn.DeviceAuthChanges

/-!
# Steps of a run as changes

Each transaction body is inverted once: what it read, what it checked and which
change it made. Together with the facts that a working frame keeps about the
database, every step of a run is a sequence of changes.
-/

namespace DaxiangVpn.DeviceAuthSteps

open CheckedSteps DeviceAuthPolicy RelationTable DeviceAuthTables DeviceAuthSubmit
open DeviceAuthCredentials DeviceAuthChanges

/-! ## Lookups -/

variable {db : DB} {id activationId key material deviceId credentialId : String} {s : Store}
  {r : SignedRequest} {cr : Credential} {now : ℤ} {u : Unit} {d : Device}

theorem deviceRow_ok (h : deviceRow db id = .ok d) :
    ∃ r ∈ db.devices, r.deviceId = id ∧ r.device = d := by
  obtain ⟨r, hr, rfl⟩ := Option.map_eq_some_iff.mp (demand_ok.mp h)
  obtain ⟨hm, hid⟩ := find_eq_some.mp hr
  exact ⟨r, hm, hid, rfl⟩

theorem operationRow_ok {op : Operation} (h : operationRow db id = .ok op) :
    ∃ o ∈ db.operations, ∃ x ∈ db.outbox, o.operationId = id ∧ x.operationId = id ∧
      op = ⟨o.operationId, o.deviceId, o.action, o.epoch, x.state, o.generation, x.fence,
        x.attempts, x.lastError, o.deadline⟩ := by
  obtain ⟨o, ho, h⟩ := demand_bind_ok.mp h
  obtain ⟨x, hx, h⟩ := demand_bind_ok.mp h
  obtain ⟨hom, hoid⟩ := find_eq_some.mp ho
  obtain ⟨hxm, hxid⟩ := find_eq_some.mp hx
  exact ⟨o, hom, x, hxm, hoid, hxid, (pure_ok.mp h).symm⟩

theorem credential_ok {actor : Actor}
    (h : credential now deviceId credentialId db = .ok (cr, actor)) :
    ∃ c ∈ db.credentials, ∃ d ∈ db.devices, c.credentialId = credentialId ∧ c.deviceId = deviceId ∧
    d.deviceId = deviceId ∧ c.revokedAt = none ∧
    now < c.validUntil ∧ cr = credentialOf c ∧ actor = ⟨deviceId, d.ownerId⟩ := by
  obtain ⟨c, hc, h⟩ := demand_bind_ok.mp h
  obtain ⟨d, hd, h⟩ := demand_bind_ok.mp h
  obtain ⟨hshape, h⟩ := deny_bind_ok.mp h
  obtain ⟨hcm, hcid⟩ := find_eq_some.mp hc
  obtain ⟨hdm, hdid⟩ := find_eq_some.mp hd
  cases pure_ok.mp h
  simp only [Bool.or_eq_false_iff, decide_eq_false_iff_not, not_not, not_le,
    Option.isSome_eq_false_iff, Option.isNone_iff_eq_none] at hshape
  obtain ⟨⟨⟨⟨hdev, hrev⟩, -⟩, hlater⟩, -⟩ := hshape
  exact ⟨c, hcm, d, hdm, hcid, hdev, hdid.trans hdev, hrev, hlater, rfl, rfl⟩

theorem historicalCredential_ok
    (h : historicalCredential deviceId credentialId db = .ok cr) :
    ∃ c ∈ db.credentials, c.credentialId = credentialId ∧ c.deviceId = deviceId ∧
    cr = credentialOf c := by
  obtain ⟨c, hc, h⟩ := demand_bind_ok.mp h
  obtain ⟨hshape, h⟩ := deny_bind_ok.mp h
  obtain ⟨hcm, hcid⟩ := find_eq_some.mp hc
  simp only [Bool.or_eq_false_iff, decide_eq_false_iff_not, not_not] at hshape
  exact ⟨c, hcm, hcid, hshape.1, (pure_ok.mp h).symm⟩

/-- The name of an activation has 32 bytes, so it is not empty. -/
theorem activationParts_ok {verifier : String}
    (h : activationParts s material = .ok (id, verifier)) : id ≠ "" := by
  unfold activationParts at h
  split at h
  · obtain ⟨hlen, h⟩ := deny_bind_ok.mp h
    obtain ⟨bytes, -, h⟩ := demand_bind_ok.mp h
    have hid := congrArg Prod.fst (pure_ok.mp h)
    simp only at hid
    rintro rfl
    rw [hid] at hlen
    exact absurd hlen (by decide)
  · cases h

theorem activation_ok {owner : String} {validUntil : ℤ}
    (h : activation s now material db = .ok (id, owner, validUntil)) : ∃ verifier,
    activationParts s material = .ok (id, verifier) ∧ ∃ a ∈ db.activations, a.activationId = id ∧
    a.consumedDevice = none ∧ now < a.validUntil ∧ owner = a.ownerId ∧
    validUntil = a.validUntil := by
  obtain ⟨⟨id', verifier⟩, hparts, h⟩ := bind_ok.mp h
  obtain ⟨a, ha, h⟩ := demand_bind_ok.mp h
  obtain ⟨hshape, h⟩ := deny_bind_ok.mp h
  obtain ⟨ham, haid⟩ := find_eq_some.mp ha
  cases pure_ok.mp h
  simp only [Bool.or_eq_false_iff, decide_eq_false_iff_not, not_le,
    Option.isSome_eq_false_iff, Option.isNone_iff_eq_none] at hshape
  exact ⟨verifier, hparts, a, ham, haid, hshape.1.1.1, hshape.1.1.2, rfl, rfl⟩

theorem grantResources_ok {disk : Disk} (h : grantResources s disk db = .ok ()) :
    (db.devices.rows.length : ℤ) < s.resources.devices := by
  replace h := rest_ok h
  obtain ⟨hroom, -⟩ := deny_bind_ok.mp h
  simpa only [decide_eq_false_iff_not, not_le] using hroom

/-! ## Spending a challenge -/

/-- What a spent challenge was checked against. -/
structure Spent (s : Store) (now : ℤ) (r : SignedRequest) (activationId key : String) (db : DB)
    (c : ChallengeRow) : Prop where
  mem : c ∈ db.challenges
  id : c.challengeId = r.challengeId
  fits : challengeMatches s now r activationId key c = true
  name : identifier r.requestId = true
  purpose : validPurpose r.purpose r.method r.path r.deviceId r.credentialId = true

theorem Spent.authKey {c : ChallengeRow}
    (h : Spent s now r activationId key db c) : authKey key = true := by
  have hfits := h.fits
  simp only [challengeMatches, signatureOK, proofOK, Bool.and_eq_true] at hfits
  exact hfits.2.1

/-- A mutation records its request and an audit row when it spends its challenge. -/
theorem consume_mutation {env : Env} {k : ℕ} {db' : DB} (hm : mutation r.purpose = true)
    (h : consume s env k r activationId key db = .ok db') :
    (∃ c, Spent s (env.clock k) r activationId key db c) ∧ ∃ requests audit,
        Accepted (principalOf activationId r.credentialId) r.requestId none r.purpose r.deviceId
          r.credentialId db.toRegistry requests audit ∧
        db' = { db with
          requests := requests
          challenges := spendChallenge (env.clock (k + 2)) r.challengeId db
          audit := audit } := by
  obtain ⟨hshape, h⟩ := deny_bind_ok.mp h
  obtain ⟨c, hc, h⟩ := demand_bind_ok.mp h
  obtain ⟨hmatch, h⟩ := deny_bind_ok.mp h
  obtain ⟨hcm, hcid⟩ := find_eq_some.mp hc
  simp only [shortIdentifier, Bool.or_eq_false_iff, Bool.not_eq_eq_eq_not, Bool.not_false,
    Bool.and_eq_true] at hshape hmatch
  have hspent : Spent s (env.clock k) r activationId key db c :=
    ⟨hcm, hcid, hmatch, hshape.1.1.1.1, hshape.2⟩
  rw [if_pos hm] at h
  obtain ⟨requests, hreq, h⟩ := bind_ok.mp h
  obtain ⟨audit, haudit, h⟩ := demand_bind_ok.mp h
  obtain ⟨hcancel, hreq⟩ := deny_bind_ok.mp hreq
  replace hreq := rest_ok hreq
  refine ⟨⟨c, hspent⟩, requests, audit, ?_, (pure_ok.mp h).symm⟩
  exact {
    name := hspent.name
    live := find_eq_none.mp (by simpa using hcancel)
    recorded := ⟨_, demand_ok.mp hreq⟩
    audited := ⟨_, _, haudit⟩ }

theorem consume_read {env : Env} {k : ℕ} {db' : DB} (hm : mutation r.purpose = false)
    (h : consume s env k r activationId key db = .ok db') :
    (∃ c, Spent s (env.clock k) r activationId key db c) ∧
    db' = { db with challenges := spendChallenge (env.clock (k + 2)) r.challengeId db } := by
  obtain ⟨hshape, h⟩ := deny_bind_ok.mp h
  obtain ⟨c, hc, h⟩ := demand_bind_ok.mp h
  obtain ⟨hmatch, h⟩ := deny_bind_ok.mp h
  obtain ⟨hcm, hcid⟩ := find_eq_some.mp hc
  simp only [shortIdentifier, Bool.or_eq_false_iff, Bool.not_eq_eq_eq_not, Bool.not_false,
    Bool.and_eq_true] at hshape hmatch
  rw [if_neg (by simp [hm])] at h
  exact ⟨⟨c, hcm, hcid, hmatch, hshape.1.1.1.1, hshape.2⟩, (pure_ok.mp h).symm⟩

/-! ## Transactions as changes -/

section

variable {s : Store} {sc : Scope} {env : Env} {db db' : DB}

theorem enroll_changes {e : Enrollment} (htime : ∀ k, sc.time (env.clock k))
    (h : enroll s env e db = .ok (u, db')) : Changes s sc db db' := by
  obtain ⟨hshape, h⟩ := deny_bind_ok.mp h
  replace h := rest_ok h
  obtain ⟨⟨⟩, hgrant, h⟩ := bind_ok.mp h
  obtain ⟨devices, hdev, h⟩ := demand_bind_ok.mp h
  cases pure_ok.mp h
  simp only [Bool.or_eq_false_iff, Bool.not_eq_eq_eq_not, Bool.not_false, decide_eq_false_iff_not,
    not_le] at hshape
  exact .authority (.enroll (htime 0) hshape.1.1.1.1 hshape.1.1.1.2 hshape.1.2 hshape.2
    (grantResources_ok hgrant) hdev)

theorem issueActivation_changes {owner : String} {validUntil activationUntil : ℤ} {secret : List ℕ}
    (htime : ∀ k, sc.time (env.clock k))
    (h : issueActivation s env owner validUntil activationUntil secret db = .ok (u, db')) :
    Changes s sc db db' := by
  obtain ⟨hshape, h⟩ := deny_bind_ok.mp h
  replace h := rest_ok (rest_ok h)
  obtain ⟨activations, hact, h⟩ := demand_bind_ok.mp h
  cases pure_ok.mp h
  simp only [Bool.or_eq_false_iff, Bool.not_eq_eq_eq_not, Bool.not_false, decide_eq_false_iff_not,
    not_le, not_lt] at hshape
  obtain ⟨⟨⟨⟨⟨howner, -⟩, hyear⟩, hlater⟩, -⟩, hle⟩ := hshape
  exact .registry (.issue (htime 0) howner hlater hle hyear hact)

theorem challenge_changes {r : ChallengeRequest} {ch : Challenge}
    (h : challenge s env r db = .ok (ch, db')) : ∃ t, db' = { db with challenges := t } := by
  replace h := rest_ok (rest_ok (rest_ok (rest_ok (rest_ok (rest_ok h)))))
  obtain ⟨⟨activationId, key, expires⟩, -, h⟩ := bind_ok.mp h
  replace h := rest_ok h
  obtain ⟨expires', -, h⟩ := bind_ok.mp h
  replace h := rest_ok h
  unfold issueChallenge at h
  dsimp only at h
  split at h
  · replace h := rest_ok h
    cases pure_ok.mp h
    exact ⟨_, rfl⟩
  · replace h := rest_ok h
    obtain ⟨t, -, h⟩ := demand_bind_ok.mp h
    cases pure_ok.mp h
    exact ⟨t, rfl⟩

variable {r : SignedRequest} {cmd : Command} {requestId key : String} {q : ResolveRequest}

theorem activate_changes (htime : ∀ k, sc.time (env.clock k))
    (h : activate s env r material key db = .ok (cr, db')) : Changes s sc db db' := by
  obtain ⟨hpurpose, h⟩ := deny_bind_ok.mp h
  obtain ⟨hkey, h⟩ := deny_bind_ok.mp h
  replace h := rest_ok h
  obtain ⟨⟨id, owner, validUntil⟩, hact, h⟩ := bind_ok.mp h
  obtain ⟨⟨⟩, hgrant, h⟩ := bind_ok.mp h
  obtain ⟨db₁, hconsume, h⟩ := bind_ok.mp h
  obtain ⟨devices, hdev, h⟩ := demand_bind_ok.mp h
  obtain ⟨credentials, hcred, h⟩ := bind_ok.mp h
  obtain ⟨receipts, hrec, h⟩ := demand_bind_ok.mp h
  cases pure_ok.mp h
  have hp : r.purpose = .activate := by simpa using hpurpose
  obtain ⟨verifier, hparts, act, hmem, rfl, hfree, hlater, rfl, rfl⟩ := activation_ok hact
  obtain ⟨⟨c, hspent⟩, requests, audit, hacc, rfl⟩ :=
    consume_mutation (by rw [hp]; rfl) hconsume
  have hids := hspent.purpose
  simp only [hp, validPurpose, Bool.and_eq_true, decide_eq_true_eq] at hids
  rw [hp, hids.1.2, hids.2, principalOf, if_pos (activationParts_ok hparts)] at hacc
  obtain ⟨hfresh, hcred⟩ := deny_bind_ok.mp hcred
  refine Relation.ReflTransGen.single (.activate hmem hfree (htime 0) hlater
    (grantResources_ok hgrant) (by simpa using hkey) ?_ hacc hdev (demand_ok.mp hcred) hrec)
  intro c hc
  simpa using has_eq_false.mp hfresh c hc

theorem rotateCredential_changes {newSignature : String} (htime : ∀ k, sc.time (env.clock k))
    (h : rotateCredential s env r key newSignature db = .ok (cr, db')) : Changes s sc db db' := by
  obtain ⟨hpurpose, h⟩ := deny_bind_ok.mp h
  replace h := rest_ok h
  obtain ⟨⟨old, actor⟩, hold, h⟩ := bind_ok.mp h
  replace h := rest_ok (rest_ok h)
  obtain ⟨db₁, hconsume, h⟩ := bind_ok.mp h
  obtain ⟨credentials, hcred, h⟩ := bind_ok.mp h
  obtain ⟨receipts, hrec, h⟩ := demand_bind_ok.mp h
  cases pure_ok.mp h
  simp only [Bool.or_eq_false_iff, decide_eq_false_iff_not, not_not, Bool.not_eq_eq_eq_not,
    Bool.not_false, signatureOK, proofOK, Bool.and_eq_true] at hpurpose
  obtain ⟨hp, hkey, -⟩ := hpurpose
  obtain ⟨c, hc, d, -, hcid, hcdev, -, hlive, -, rfl, -⟩ := credential_ok hold
  obtain ⟨⟨_, -⟩, requests, audit, hacc, rfl⟩ :=
    consume_mutation (by rw [hp]; rfl) hconsume
  obtain ⟨hfresh, hcred⟩ := deny_bind_ok.mp hcred
  rw [hp, principalOf, if_neg (by simp), ← hcid, ← hcdev] at hacc
  rw [← hcdev] at hcred
  refine .registry (.rotate hc hlive hkey ?_ (htime 5) hacc (demand_ok.mp hcred) hrec)
  intro c hc
  simpa using has_eq_false.mp hfresh c hc

/-- A submission checked its device and found the recorded operation or
committed a new generation. -/
theorem submitTx_ok {disk : Disk} {id : OpaqueId} {check : DB → Except Err DB}
    {complete : Operation → DB → DB} {op : Operation}
    (h : submitTx s now disk id check complete cmd db = .ok (op, db')) :
    ∃ db₁, check db = .ok db₁ ∧ ∃ r ∈ db₁.devices, r.deviceId = cmd.deviceId ∧
      r.ownerId = cmd.actor.ownerId ∧ (cmd.action = .apply → r.state = .active) ∧
      ((∃ old, recordedOperation cmd db₁.toAuthority = some old ∧
          old.requestDigest = s.prims.requestDigest cmd ∧
          operationRow db₁ old.operationId = .ok op ∧ db' = complete op db₁) ∨
        ∃ a, recordedOperation cmd db₁.toAuthority = none ∧
          Committed s now id.val cmd r.device db₁.toAuthority a ∧
          operationRow { db₁ with toAuthority := a } id.val = .ok op ∧
          db' = complete op { db₁ with toAuthority := a }) := by
  replace h := rest_ok h
  obtain ⟨db₁, hcheck, h⟩ := bind_ok.mp h
  obtain ⟨d, hd, h⟩ := bind_ok.mp h
  obtain ⟨⟨⟩, hadmit, h⟩ := bind_ok.mp h
  obtain ⟨r, hr, hrid, rfl⟩ := deviceRow_ok hd
  obtain ⟨howner, hadmit⟩ := deny_bind_ok.mp hadmit
  obtain ⟨hactive, -⟩ := deny_bind_ok.mp hadmit
  simp only [decide_eq_false_iff_not, not_not, not_and] at howner hactive
  refine ⟨db₁, hcheck, r, hr, hrid, howner, hactive, ?_⟩
  cases hrec : recordedOperation cmd db₁.toAuthority with
  | some old =>
    rw [hrec] at h
    obtain ⟨hdigest, h⟩ := deny_bind_ok.mp h
    obtain ⟨op', hop, h⟩ := bind_ok.mp h
    cases pure_ok.mp h
    exact .inl ⟨old, rfl, by simpa using hdigest, hop, rfl⟩
  | none =>
    rw [hrec] at h
    obtain ⟨a, ha, h⟩ := bind_ok.mp h
    obtain ⟨op', hop, h⟩ := bind_ok.mp h
    cases pure_ok.mp h
    exact .inr ⟨a, rfl, commitCommand_ok ha, hop, rfl⟩

theorem markOverdue_cases (s : Store) (env : Env) (deviceId : String)
    (result : Except Err Operation × DB) :
    markOverdue s env deviceId result = result ∨
      result.1 = .error .overdue ∧ ((markOverdue s env deviceId result).2 = result.2 ∨
        ∃ u, degradeOverdue s deviceId result.2 =
          .ok (u, (markOverdue s env deviceId result).2)) := by
  unfold markOverdue
  split
  · exact .inr ⟨rfl, write_cases _ _ _⟩
  · exact .inl rfl

/-- A submission leaves the database alone, runs its transaction, or marks the
unfinished jobs of the device. -/
theorem submitChecked_cases (s : Store) (env : Env) (now : ℤ) (check : DB → Except Err DB)
    (complete : Operation → DB → DB) (cmd : Command) (db : DB) :
    (submitChecked s env now check complete cmd db).2 = db ∨
    ∃ cmd', normalizeCommand s cmd = .ok cmd' ∧
        ((∃ op, submitTx s now env.disk (env.ids 0) check complete cmd' db =
            .ok (op, (submitChecked s env now check complete cmd db).2)) ∨
          ∃ u, degradeOverdue s cmd'.deviceId db =
            .ok (u, (submitChecked s env now check complete cmd db).2)) := by
  unfold submitChecked
  cases hn : normalizeCommand s cmd with
  | error => exact .inl rfl
  | ok cmd' =>
    dsimp only
    generalize hrun : submitTx s now env.disk (env.ids 0) check complete cmd' = body
    rcases markOverdue_cases s env cmd'.deviceId (write (env.outcome 0) body db) with
      h | ⟨hover, h⟩
    · rw [h]
      rcases write_cases (env.outcome 0) body db with hsame | ⟨op, hbody⟩
      · exact .inl hsame
      · exact .inr ⟨cmd', rfl, .inl ⟨op, hrun ▸ hbody⟩⟩
    · rw [write_error hover (by decide)] at h
      rcases h with h | ⟨u, h⟩
      · exact .inl h
      · exact .inr ⟨cmd', rfl, .inr ⟨u, h⟩⟩

theorem degradeOverdue_changes
    (h : degradeOverdue s deviceId db = .ok (u, db')) : Changes s sc db db' := by
  replace h := rest_ok h
  cases pure_ok.mp h
  refine .authority (.mark ?_)
  intro x hx
  exact (Bool.and_eq_true _ _ ▸ hx).1

theorem submit_changes (htime : ∀ k, sc.time (env.clock k))
    (hscope : ∀ cmd', normalizeCommand s cmd = .ok cmd' → cmd'.action ≠ .expire → sc.command cmd') :
    Changes s sc db (submit s env cmd db).2 := by
  unfold submit
  rcases submitChecked_cases s env (env.clock 0) pure (fun _ db => db) cmd
    db with h | ⟨cmd', hn, ⟨op, h⟩ | ⟨u, h⟩⟩
  · rw [h]
  · obtain ⟨db₁, hcheck, r, hr, hrid, howner, hactive, hcase⟩ := submitTx_ok h
    cases pure_ok.mp hcheck
    rcases hcase with ⟨old, -, -, -, h'⟩ | ⟨a, hnew, hcommit, -, h'⟩
    · rw [h']
    · rw [h']
      exact .authority (.commit (htime 0) hr hrid howner hactive (normalizeCommand_ok hn).1
        (hscope cmd' hn) hnew hcommit)
  · exact degradeOverdue_changes h

/-- Naming the operation of a request that was just recorded records it with
its operation. -/
theorem accepted_named {principal device credential : String} {purpose : Purpose}
    {g : Registry} {requests : Table RequestRow.key} {audit : Table AuditRow.id}
    (h : Accepted principal requestId none purpose device credential g requests audit)
    (operation : String) :
    Accepted principal requestId (some operation) purpose device credential g
      (requests.update (fun x => x.principalId = principal && x.requestId = requestId)
        (fun x => { x with operationId := some operation }) fun _ => rfl) audit := by
  obtain ⟨now, hins⟩ := h.recorded
  have hold : ∀ x ∈ g.requests,
      (decide (x.principalId = principal) && decide (x.requestId = requestId)) = false := by
    intro x hx
    have hne := (insert_eq_some hins).2 x hx
    simp only [RequestRow.key, ne_eq, Prod.mk.injEq, not_and] at hne
    simpa using hne
  have hnamed := insert_update hins (fun x => { x with operationId := some operation })
    (fun _ => rfl) hold (by simp)
  exact ⟨h.name, h.live, ⟨now, hnamed⟩, h.audited⟩

/-- The operation found under a command's record is stored under it. -/
theorem recordedOperation_some {a : Authority} {o : OperationRow}
    (h : recordedOperation cmd a = some o) :
    o ∈ a.operations ∧ o.actorId = cmd.actor.id ∧ o.action = cmd.action ∧
    o.idempotencyKey = cmd.idempotencyKey := by
  have hp := List.find?_some h
  simp only [Bool.and_eq_true, decide_eq_true_eq] at hp
  exact ⟨List.mem_of_find?_eq_some h, hp.1.1, hp.1.2, hp.2⟩

theorem committed_operation_mem {id : String} {a a' : Authority}
    (h : Committed s now id cmd d a a') :
    newOperation s now id cmd d (d.generation + 1) ∈ a'.operations := by
  rw [mem_def, h.operations]
  simp

/-- A signed submission commits a generation or repeats an operation, and
accepts the request for it. -/
theorem submitSigned_changes (htime : ∀ k, sc.time (env.clock k))
    (hscope : ∀ d, db.devices.find r.deviceId = some d → ∀ cmd', normalizeCommand s
      { cmd with deviceId := r.deviceId, actor := ⟨r.deviceId, d.ownerId⟩ } = .ok cmd' →
        sc.command cmd') :
    Changes s sc db (submitSigned s env r cmd db).2 := by
  unfold submitSigned
  split
  · exact .refl
  rename_i hguard
  push Not at hguard
  cases hfind : db.devices.find r.deviceId with
  | none => exact .refl
  | some d =>
    set signed : Command := { cmd with deviceId := r.deviceId, actor := ⟨r.deviceId, d.ownerId⟩ }
    rcases submitChecked_cases s env (env.clock 5) (signedCheck s env r ⟨r.deviceId, d.ownerId⟩)
      (recordOperation r) signed db with h | ⟨cmd', hn, ⟨op, h⟩ | ⟨u, h⟩⟩
    · rw [h]
    · have hcmd := hscope d hfind cmd' hn
      obtain ⟨hwell, hdev, hactor, haction, -⟩ := normalizeCommand_ok hn
      obtain ⟨db₁, hcheck, row, hrow, hrid, howner, hactive, hcase⟩ := submitTx_ok h
      obtain ⟨⟨cr, owner⟩, hcred, hcheck⟩ := bind_ok.mp hcheck
      obtain ⟨-, hconsume⟩ := deny_bind_ok.mp hcheck
      obtain ⟨c, hc, -, -, hcid, hcdev, -⟩ := credential_ok hcred
      have hp : r.purpose = .command cmd'.action := by rw [haction]; exact hguard.1
      obtain ⟨-, requests, audit, hacc, rfl⟩ :=
        consume_mutation (by rw [hp]; rfl) hconsume
      have hexpire : cmd'.action ≠ .expire := by rw [haction]; exact hguard.2
      rw [hp, principalOf, if_neg (by simp), ← hcid, ← hcdev] at hacc
      have hdev' : cmd'.deviceId = c.deviceId := by rw [hdev, hcdev]
      have hactor' : cmd'.actor.id = c.deviceId := by rw [hactor, hcdev]
      rcases hcase with ⟨old, hrec, hdigest, hop, h'⟩ | ⟨a, hnew, hcommit, hop, h'⟩
      · obtain ⟨hold, ha, hact, hidem⟩ := recordedOperation_some hrec
        obtain ⟨o, -, x, -, hoid, -, rfl⟩ := operationRow_ok hop
        rw [h', recordOperation, hoid, ← hcid]
        exact .registry (.accept hc hold (ha.trans hactor') hact hidem hdev' hexpire hcmd hdigest
          (accepted_named hacc old.operationId))
      · have hstep : Changes s sc db { db with toAuthority := a } := .authority
          (.commit (htime 5) hrow hrid howner hactive hwell (fun _ => hcmd) hnew hcommit)
        obtain ⟨o, -, x, -, hoid, -, rfl⟩ := operationRow_ok hop
        rw [h', recordOperation, hoid, ← hcid]
        exact hstep.trans
          (Changes.registry (.accept hc (committed_operation_mem hcommit) hactor' rfl rfl
          hdev' hexpire hcmd rfl (accepted_named hacc (env.ids 0).val)))
    · exact degradeOverdue_changes h

theorem consume_read_changes {k : ℕ} {activationId : String} (hm : mutation r.purpose = false)
    (h : consume s env k r activationId key db = .ok db') : Changes s sc db db' := by
  obtain ⟨-, rfl⟩ := consume_read hm h
  exact .registry (.challenges _)

/-- The purpose of a signed request, once another purpose was refused. -/
theorem purpose_of_deny {p q : Purpose} {rest : Bool} (h : (decide (p ≠ q) || rest) = false) :
    p = q := by
  simp only [Bool.or_eq_false_iff, decide_eq_false_iff_not, not_not] at h
  exact h.1

/-- A signed read under a live credential only spends its challenge. -/
theorem readSigned_changes {α : Type} {before : DB → Except Err Unit}
    {answer : DB → Except Err α} {x : α} (hm : mutation r.purpose = false)
    (h : readSigned s env r before answer db = .ok (x, db')) : Changes s sc db db' := by
  replace h := rest_ok h
  obtain ⟨⟨cr, actor⟩, -, h⟩ := bind_ok.mp h
  replace h := rest_ok h
  obtain ⟨db₁, hconsume, h⟩ := bind_ok.mp h
  obtain ⟨a, -, h⟩ := bind_ok.mp h
  cases pure_ok.mp h
  exact consume_read_changes hm hconsume

theorem operationSigned_changes {id : String} {x : Operation × Bool}
    (h : operationSigned s env r id db = .ok (x, db')) : Changes s sc db db' := by
  obtain ⟨hp, h⟩ := deny_bind_ok.mp h
  exact readSigned_changes (by rw [purpose_of_deny hp]; rfl) h

theorem proxyBootstrapSigned_changes {α : Type} {admits : DB → Except Err Unit}
    {projection : DB → Except Err α} {x : α}
      (h : proxyBootstrapSigned s env r admits projection db = .ok (x, db')) :
      Changes s sc db db' := by
  obtain ⟨hp, h⟩ := deny_bind_ok.mp h
  rw [Bool.or_assoc] at hp
  exact readSigned_changes (by rw [purpose_of_deny hp]; rfl) h

theorem credentialReceipt_changes {kind : Purpose} {x : Credential}
    (h : credentialReceipt s env r kind requestId key db = .ok (x, db')) : Changes s sc db db' := by
  obtain ⟨hp, h⟩ := deny_bind_ok.mp h
  replace h := rest_ok (rest_ok h)
  obtain ⟨db₁, hconsume, h⟩ := bind_ok.mp h
  obtain ⟨cr, -, h⟩ := bind_ok.mp h
  cases pure_ok.mp h
  simp only [Bool.or_assoc] at hp
  exact consume_read_changes (by rw [purpose_of_deny hp]; rfl) hconsume

theorem operationReceipt_changes {idempotency : String} {x : Operation × Bool}
    (h : operationReceipt s env r requestId idempotency db = .ok (x, db')) :
    Changes s sc db db' := by
  obtain ⟨hp, h⟩ := deny_bind_ok.mp h
  replace h := rest_ok h
  obtain ⟨cr, -, h⟩ := bind_ok.mp h
  replace h := rest_ok h
  obtain ⟨db₁, hconsume, h⟩ := bind_ok.mp h
  obtain ⟨op, -, h⟩ := bind_ok.mp h
  obtain ⟨d, -, h⟩ := bind_ok.mp h
  cases pure_ok.mp h
  rw [Bool.or_assoc] at hp
  exact consume_read_changes (by rw [purpose_of_deny hp]; rfl) hconsume

/-- Who asks what became of a request: the holder of an activation's secret, or
the holder of a credential of the device. -/
theorem resolveIdentity_ok {id ownerKey : String}
    (h : resolveIdentity s deviceId credentialId q db = .ok (id, key, ownerKey)) :
    resolveKind q.kind = true ∧ identifier q.requestId = true ∧
      (q.kind = .activate ∧ deviceId = "" ∧ id ≠ "" ∧ key = q.publicKey ∧
          (∃ verifier, activationParts s q.activationCredential = .ok (id, verifier)) ∧
          (∃ x ∈ db.activations, x.activationId = id) ∨
        q.kind ≠ .activate ∧ id = "" ∧ ∃ c ∈ db.credentials, c.credentialId = credentialId ∧
          c.deviceId = deviceId ∧ key = if q.kind = .credentialRotate then q.publicKey
            else c.publicKey) := by
  obtain ⟨⟨⟩, hshape, h⟩ := bind_ok.mp h
  obtain ⟨hkind, -⟩ := deny_bind_ok.mp hshape
  simp only [shortIdentifier, Bool.or_eq_false_iff, Bool.not_eq_eq_eq_not, Bool.not_false,
    Bool.and_eq_true] at hkind
  refine ⟨hkind.1, hkind.2.1, ?_⟩
  by_cases ha : q.kind = .activate
  · rw [if_pos ha] at h
    obtain ⟨hids, h⟩ := deny_bind_ok.mp h
    obtain ⟨⟨id', verifier⟩, hparts, h⟩ := bind_ok.mp h
    obtain ⟨x, hx, h⟩ := demand_bind_ok.mp h
    replace h := rest_ok h
    cases pure_ok.mp h
    simp only [Bool.or_eq_false_iff, decide_eq_false_iff_not, not_not] at hids
    obtain ⟨hxm, hxid⟩ := find_eq_some.mp hx
    exact .inl ⟨ha, hids.1, activationParts_ok hparts, rfl, ⟨verifier, hparts⟩, x, hxm, hxid⟩
  · rw [if_neg ha] at h
    replace h := rest_ok h
    obtain ⟨cr, hcr, h⟩ := bind_ok.mp h
    obtain ⟨c, hc, hcid, hcdev, rfl⟩ := historicalCredential_ok hcr
    refine .inr ⟨ha, ?_⟩
    by_cases hrot : q.kind = .credentialRotate
    · rw [if_pos hrot] at h
      replace h := rest_ok h
      cases pure_ok.mp h
      exact ⟨rfl, c, hc, hcid, hcdev, (if_pos hrot).symm⟩
    · rw [if_neg hrot] at h
      cases pure_ok.mp h
      exact ⟨rfl, c, hc, hcid, hcdev, (if_neg hrot).symm⟩

/-- An authenticated question: who asks, and the challenge that was spent. -/
theorem resolveAuthenticated_ok {ownerProof principal : String}
    (h : resolveAuthenticated s env r q ownerProof db = .ok ((principal, key), db')) :
    ∃ id ownerKey, resolveIdentity s r.deviceId r.credentialId q db = .ok (id, key, ownerKey) ∧
      principal = principalOf id r.credentialId ∧ authKey key = true ∧
      db' = { db with challenges := spendChallenge (env.clock (0 + 2)) r.challengeId db } := by
  obtain ⟨hp, h⟩ := deny_bind_ok.mp h
  replace h := rest_ok h
  obtain ⟨⟨id, key', ownerKey⟩, hid, h⟩ := bind_ok.mp h
  replace h := rest_ok (rest_ok h)
  obtain ⟨db₁, hconsume, h⟩ := bind_ok.mp h
  cases pure_ok.mp h
  obtain ⟨⟨c, hspent⟩, rfl⟩ := consume_read (by rw [purpose_of_deny hp]; rfl) hconsume
  exact ⟨id, ownerKey, hid, rfl, hspent.authKey, rfl⟩

/-- Resolving spends a challenge and may cancel the request in question. -/
theorem resolvePending_changes {ownerProof : String} {x : Resolution}
    (htime : ∀ k, sc.time (env.clock k))
    (h : resolvePending s env r q ownerProof db = .ok (x, db')) : Changes s sc db db' := by
  obtain ⟨⟨⟨principal, key⟩, db₁⟩, hauth, h⟩ := bind_ok.mp h
  obtain ⟨found, -, h⟩ := bind_ok.mp h
  obtain ⟨id, ownerKey, hid, hprincipal, hkey, rfl⟩ := resolveAuthenticated_ok hauth
  cases found with
  | some =>
    cases pure_ok.mp h
    exact .registry (.challenges _)
  | none =>
    obtain ⟨db₂, hcancel, h⟩ := bind_ok.mp h
    cases pure_ok.mp h
    obtain ⟨hfree, hcancel⟩ := deny_bind_ok.mp hcancel
    have hreq : ∀ y ∈ db.requests, y.key ≠ (principal, q.requestId) :=
      find_eq_none.mp (by simpa using hfree)
    have hwho : CancelPrincipal db.toRegistry q.kind principal r.deviceId := by
      obtain ⟨-, -, ⟨ha, hdev, hne, -, -, y, hy, hyid⟩ | ⟨ha, rfl, c, hc, hcid, hcdev, -⟩⟩ :=
        resolveIdentity_ok hid
      · refine .inl ⟨ha, hdev, y, hy, ?_⟩
        rw [hprincipal, principalOf, if_pos hne, hyid]
      · refine .inr ⟨ha, c, hc, ?_, hcdev⟩
        rw [hprincipal, principalOf, if_neg (by simp), hcid]
    split at hcancel
    · replace hcancel := rest_ok hcancel
      cases pure_ok.mp hcancel
      exact .registry (.challenges _)
    replace hcancel := rest_ok hcancel
    obtain ⟨cancellations, hins, hcancel⟩ := demand_bind_ok.mp hcancel
    obtain ⟨audit, haudit, hcancel⟩ := demand_bind_ok.mp hcancel
    cases pure_ok.mp hcancel
    obtain ⟨hkind, hname, -⟩ := resolveIdentity_ok hid
    exact .registry (.cancel hname hkind hkey (htime 4) hwho hreq hins haudit)

theorem refreshDeadlines_changes (h : refreshDeadlines s env db = .ok (u, db')) :
    Changes s sc db db' := by
  replace h := rest_ok h
  cases pure_ok.mp h
  refine .authority (.mark ?_)
  intro x hx
  simp only [Bool.and_eq_true] at hx
  exact hx.1.1

/-- Persisting an expiry submits a command and marks its job. -/
theorem expireLocked_changes (htime : ∀ k, sc.time (env.clock k)) :
    Changes s sc db (expireLocked s env d db).2 := by
  have hsubmit : Changes s sc db (submit s env (expiryCommand s d) db).2 := by
    refine submit_changes htime ?_
    intro cmd' hn hne
    exact absurd (normalizeCommand_ok hn).2.2.2.1 hne
  unfold expireLocked
  split
  · rename_i heq
    rw [heq] at hsubmit
    exact hsubmit
  rename_i op db₁ heq
  rw [heq] at hsubmit
  have hsignal : Changes s sc db₁ (write (env.outcome 2) (signalExpiry op.id) db₁).2 := by
    rcases write_cases (env.outcome 2) (signalExpiry op.id) db₁ with h | ⟨u, h⟩
    · rw [h]
    · rw [← congrArg Prod.snd (Except.ok.inj h)]
      refine Changes.authority (.mark ?_)
      intro x hx
      simp only [Bool.and_eq_true, decide_eq_true_eq] at hx
      simp [unfinished, hx.2]
  split
  · rename_i heq'
    rw [heq'] at hsignal
    exact hsubmit.trans hsignal
  · rename_i heq'
    rw [heq'] at hsignal
    exact hsubmit.trans hsignal

theorem sweepDevices_changes {envs : ℕ → Env} (htime : ∀ k j, sc.time ((envs k).clock j))
    (ids : List String) (k : ℕ) (db : DB) : Changes s sc db (sweepDevices s envs k ids db).2 := by
  induction ids generalizing k db with
  | nil => exact .refl
  | cons id rest ih =>
    rw [sweepDevices]
    cases deviceRow db id with
    | error => exact .refl
    | ok d =>
      have hstep : Changes s sc db (expireLocked s (envs k) d db).2 :=
        expireLocked_changes (htime k)
      dsimp only
      split_ifs with hexp
      · exact hstep.trans (ih (k + 1) _)
      · exact hstep

end

end DaxiangVpn.DeviceAuthSteps
