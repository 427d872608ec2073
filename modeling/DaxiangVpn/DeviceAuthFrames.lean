import DaxiangVpn.DeviceAuthSteps

/-!
# Frames and steps

The locals of a call of `Process` stay true of the database as long as it holds
the fence: nobody else writes, and its own transactions keep the device, the
operation, the history and the claim. With that, every step of a run is a
sequence of changes.
-/

namespace DaxiangVpn.DeviceAuthFrames

open CheckedSteps DeviceAuthPolicy RelationTable DeviceAuthTables DeviceAuthSubmit
open DeviceAuthProcess DeviceAuthWorld DeviceAuthChanges DeviceAuthSteps

/-! ## Plans -/

/-- What a plan has checked and what it consists of. -/
structure Planned (s : Store) (d : Device) (history : List Binding) (runtime : RuntimeMap)
    (actions : List PlannedAction) : Prop where
  each : ∀ b ∈ history, planBinding s d runtime b = .ok ()
  /-- Removals come first; an apply follows when the current key is absent. -/
  actions : actions = removals history runtime ++
    if d.state = .active ∧ d.publicKey ≠ "" ∧ runtime.find d.publicKey = none then
      [⟨.apply, d.publicKey, d.address⟩] else []
  current : d.state = .active → d.publicKey ≠ "" →
    ∃ b ∈ history, b.key = d.publicKey ∧ b.revoked = 0 ∧ b.address = d.address
  /-- No peer stands in the way of the current address. -/
  clear : d.state = .active → d.publicKey ≠ "" → ∀ p ∈ runtime, obstructs d history p = false

variable {s : Store} {history : List Binding} {runtime : RuntimeMap}
  {actions : List PlannedAction} {x : PlannedAction} {db : DB} {env : Env} {id : String}
  {a : Authority} {f : Frame} {w : World} {sc : Scope} {d : Device} {α : Type}

theorem plan_ok (h : plan s d history runtime = .ok actions) :
    Planned s d history runtime actions := by
  obtain ⟨⟨⟩, heach, h⟩ := bind_ok.mp h
  have heach := eachRow_ok.mp heach
  by_cases hcur : d.state = .active ∧ d.publicKey ≠ ""
  · rw [if_pos hcur] at h
    obtain ⟨b, hb, h⟩ := demand_bind_ok.mp h
    obtain ⟨hshape, h⟩ := deny_bind_ok.mp h
    obtain ⟨hclear, h⟩ := deny_bind_ok.mp h
    have hbkey : b.key = d.publicKey := by simpa using List.find?_some hb
    simp only [Bool.or_eq_false_iff, decide_eq_false_iff_not, not_not] at hshape
    refine ⟨heach, ?_, fun _ _ => ⟨b, List.mem_of_find?_eq_some hb, hbkey, hshape.1, hshape.2⟩,
      fun _ _ => has_eq_false.mp hclear⟩
    cases hfind : runtime.find d.publicKey with
    | some =>
      rw [hfind] at h
      cases pure_ok.mp h
      simp
    | none =>
      rw [hfind] at h
      cases pure_ok.mp h
      simp [hcur.1, hcur.2]
  · rw [if_neg hcur] at h
    cases pure_ok.mp h
    refine ⟨heach, ?_, fun hs hk => absurd ⟨hs, hk⟩ hcur, fun hs hk => absurd ⟨hs, hk⟩ hcur⟩
    rw [if_neg fun hc => hcur ⟨hc.1, hc.2.1⟩, List.append_nil]

theorem plan_total (heach : ∀ b ∈ history, planBinding s d runtime b = .ok ())
    (hcurrent : d.state = .active → d.publicKey ≠ "" → ∃ b,
      history.find? (fun b => b.key = d.publicKey) = some b ∧ b.revoked = 0 ∧ b.address = d.address)
    (hclear : d.state = .active → d.publicKey ≠ "" → ∀ p ∈ runtime, obstructs d history p = false) :
    ∃ actions, plan s d history runtime = .ok actions := by
  have heach' : eachRow (planBinding s d runtime) history = .ok () := eachRow_ok.mpr heach
  by_cases hcur : d.state = .active ∧ d.publicKey ≠ ""
  · obtain ⟨b, hb, hrev, haddr⟩ := hcurrent hcur.1 hcur.2
    have hpass : (decide (b.revoked ≠ 0) || decide (b.address ≠ d.address)) = false := by
      simp [hrev, haddr]
    refine ⟨if (runtime.find d.publicKey).isSome then removals history runtime
      else removals history runtime ++ [⟨.apply, d.publicKey, d.address⟩],
      bind_ok.mpr ⟨(), heach', ?_⟩⟩
    rw [if_pos hcur]
    refine demand_bind_ok.mpr ⟨b, hb, deny_bind_ok.mpr ⟨hpass, deny_bind_ok.mpr ⟨?_, ?_⟩⟩⟩
    · exact has_eq_false.mpr (hclear hcur.1 hcur.2)
    · split <;> rfl
  · refine ⟨removals history runtime, bind_ok.mpr ⟨(), heach', ?_⟩⟩
    rw [if_neg hcur]
    rfl

theorem mem_removals : x ∈ removals history runtime ↔ ∃ b ∈ history, 0 < b.revoked ∧
      (runtime.find b.key).isSome = true ∧ x = ⟨.remove, b.key, b.address⟩ := by
  simp only [removals, List.mem_map, List.mem_filter, Bool.and_eq_true, decide_eq_true_eq]
  constructor
  · rintro ⟨b, ⟨hb, hrev, hsome⟩, rfl⟩
    exact ⟨b, hb, hrev, hsome, rfl⟩
  · rintro ⟨b, hb, hrev, hsome, rfl⟩
    exact ⟨b, ⟨hb, hrev, hsome⟩, rfl⟩

theorem Planned.mem_history (h : Planned s d history runtime actions) (hx : x ∈ actions) :
    ∃ b ∈ history, b.key = x.key ∧ b.address = x.address ∧
      (x.kind = .apply → b.revoked = 0 ∧ x.key = d.publicKey) ∧
      (x.kind = .remove → 0 < b.revoked) := by
  rw [h.actions, List.mem_append] at hx
  rcases hx with hx | hx
  · obtain ⟨b, hb, hrev, -, rfl⟩ := mem_removals.mp hx
    exact ⟨b, hb, rfl, rfl, fun hk => absurd hk (by simp), fun _ => hrev⟩
  split at hx
  · rename_i hcur
    obtain ⟨b, hb, hkey, hrev, haddr⟩ := h.current hcur.1 hcur.2.1
    rw [List.mem_singleton.mp hx]
    exact ⟨b, hb, hkey, haddr, fun _ => ⟨hrev, rfl⟩, fun hk => absurd hk (by simp)⟩
  · cases hx

/-! ## Claims -/

theorem mem_bindings {deviceId : String} {b : Binding} : b ∈ bindings s db deviceId ↔
      ∃ x ∈ db.bindings, x.deviceId = deviceId ∧ bindingOf s db x = b := by
  rw [bindings, (List.perm_insertionSort _ _).mem_iff, List.mem_map]
  simp only [mem_select, decide_eq_true_eq, and_assoc]

theorem claim_ok {db' : DB} {c : Claim} (h : claim s env id db = .ok (c, db')) :
    ∃ o ∈ db.operations, ∃ r ∈ db.devices, o.operationId = id ∧ r.deviceId = o.deviceId ∧
      (∃ x ∈ db.outbox, x.operationId = id) ∧
      (c = .superseded ∧ (o.epoch ≠ s.policy.epoch ∨ o.generation ≠ r.generation) ∧
          db' = { db with toAuthority := supersedeJob id db.toAuthority } ∨
        c = .expired r.device ∧ db' = db ∨
        c = .work ⟨id, s.policy.epoch, r.device, bindings s db r.deviceId,
            nextFence db.toAuthority, .claimed⟩ ∧
          o.generation = r.generation ∧ lapsed r.device (env.clock 0) = false ∧
          nextFence db.toAuthority ≠ maxInt64 ∧
          db' = { db with toAuthority := claimJob id db.toAuthority }) := by
  replace h := rest_ok (rest_ok h)
  obtain ⟨op, hop, h⟩ := bind_ok.mp h
  obtain ⟨d, hd, h⟩ := bind_ok.mp h
  obtain ⟨o, ho, x, hx, hoid, hxid, rfl⟩ := operationRow_ok hop
  obtain ⟨r, hr, hrid, rfl⟩ := deviceRow_ok hd
  refine ⟨o, ho, r, hr, hoid, hrid, ⟨x, hx, hxid⟩, ?_⟩
  by_cases hold : o.epoch ≠ s.policy.epoch ∨ o.generation ≠ r.generation
  · have h' : (pure (Claim.superseded, { db with toAuthority := supersedeJob id db.toAuthority }) :
        Except Err (Claim × DB)) = .ok (c, db') := (if_pos hold).symm.trans h
    cases pure_ok.mp h'
    exact .inl ⟨rfl, hold, rfl⟩
  have hlatest := hold
  push Not at hlatest
  replace h := (if_neg hold).symm.trans h
  refine .inr ?_
  by_cases hexp : lapsed r.device (env.clock 0) = true
  · rw [if_pos hexp] at h
    cases pure_ok.mp h
    exact .inl ⟨rfl, rfl⟩
  rw [if_neg hexp] at h
  obtain ⟨hfence, h⟩ := deny_bind_ok.mp h
  cases pure_ok.mp h
  refine .inr ⟨?_, hlatest.2, by simpa using hexp, by simpa using hfence, rfl⟩
  rw [hlatest.1]
  rfl

theorem nextFence_pos (a : Authority) : 0 < nextFence a := by
  unfold nextFence
  split_ifs with h
  · omega
  · have : 0 < maxInt64 := by decide
    omega

/-- A frame that starts to work tells the truth about the claimed database. -/
theorem frameOk_claimed {o : OperationRow} {r : DeviceRow}
    (ho : o ∈ db.operations) (hr : r ∈ db.devices) (hoid : o.operationId = id)
    (hdev : r.deviceId = o.deviceId) (hgen : o.generation = r.generation)
    (hjob : ∃ x ∈ db.outbox, x.operationId = id) :
    FrameOk s (claimJob id db.toAuthority) ⟨id, s.policy.epoch, r.device,
      bindings s db r.deviceId, nextFence db.toAuthority, .claimed⟩ where
  epoch := rfl
  device := ⟨r, hr, rfl⟩
  operation := ⟨o, ho, hoid, hdev.symm, hgen⟩
  history_sound := by
    intro b hb
    obtain ⟨x, hx, hxd, rfl⟩ := mem_bindings.mp hb
    exact ⟨x, hx, hxd, rfl, rfl, rfl⟩
  history_full := by
    intro x hx hxd
    exact ⟨bindingOf s db x, mem_bindings.mpr ⟨x, hx, hxd, rfl⟩, rfl, rfl, rfl⟩
  fence := rfl
  fence_pos := nextFence_pos _
  job := by
    obtain ⟨x, hx, hxid⟩ := hjob
    dsimp only [claimJob]
    exact ⟨_, mem_update.mpr ⟨x, hx, rfl⟩, by simp [hxid], by simp [hxid]⟩

/-! ## Steps -/

/-- What a phase says about the database. -/
def Working (s : Store) (a : Authority) (f : Frame) : Prop :=
  match f.phase with
  | .claimed | .verified => FrameOk s a f
  | .planned before actions => FrameOk s a f ∧ plan s f.device f.history before = .ok actions
  | .acting before remaining =>
    FrameOk s a f ∧ ∃ finished, plan s f.device f.history before = .ok (finished ++ remaining)
  | .failing _ | .expiring => True

/-- The frame that holds the fence tells the truth. -/
def FrameInv (s : Store) (w : World) : Prop := ∀ f, w.frame = some f → Working s w.db.toAuthority f

/-- A frame's truth depends neither on its phase nor on the intents. -/
theorem frameOk_at (h : FrameOk s a f) (phase : Phase)
    (t : Table IntentRow.key) : FrameOk s { a with intents := t } { f with phase := phase } :=
  ⟨h.epoch, h.device, h.operation, h.history_sound, h.history_full, h.fence, h.fence_pos, h.job⟩

theorem working_afterFirstSnapshot (h : FrameOk s a f) (env : Env) (answer : Answer) :
    Working s a { f with phase := afterFirstSnapshot s env f answer } := by
  have hok : ∀ phase, FrameOk s a { f with phase := phase } :=
    fun phase => frameOk_at h phase a.intents
  unfold afterFirstSnapshot
  split
  · trivial
  split
  · trivial
  cases answer.peers with
  | none => trivial
  | some peers =>
    dsimp only
    cases runtimeMap peers with
    | error => trivial
    | ok before =>
      dsimp only
      cases hplan : plan s f.device f.history before with
      | error => trivial
      | ok =>
        dsimp only
        split
        · trivial
        · exact ⟨hok _, hplan⟩

theorem working_afterAction (h : FrameOk s a f) {before : RuntimeMap} {rest : List PlannedAction}
    (hplan : ∃ finished, plan s f.device f.history before = .ok (finished ++ x :: rest)) (env : Env)
    (answer : Answer) : Working s a { f with phase := afterAction env f answer before x rest } := by
  unfold afterAction
  split
  · trivial
  split
  · trivial
  split
  · trivial
  split
  · trivial
  split
  · trivial
  · obtain ⟨finished, hplan⟩ := hplan
    exact ⟨frameOk_at h _ a.intents, finished ++ [x], by simpa using hplan⟩

theorem working_afterSecondSnapshot (h : FrameOk s a f) (env : Env) (answer : Answer)
    (before : RuntimeMap) :
    Working s a { f with phase := afterSecondSnapshot env f answer before } := by
  unfold afterSecondSnapshot
  split
  · trivial
  split
  · trivial
  cases answer.peers with
  | none => trivial
  | some peers =>
    dsimp only
    cases runtimeMap peers with
    | error => trivial
    | ok after =>
      dsimp only
      cases verify f.device f.history before after with
      | error => trivial
      | ok =>
        dsimp only
        split
        · trivial
        · exact frameOk_at h _ a.intents

/-- The fence holder's next step keeps its locals true. -/
theorem advance_frameInv {answer : Answer}
    (h : Working s w.db.toAuthority f) : FrameInv s (advance s env answer f w) := by
  intro f' hf'
  rcases f with ⟨id, epoch, d, history, fence, phase⟩
  cases phase with
  | claimed =>
    cases hf'
    have hw := working_afterFirstSnapshot h env answer
    unfold advance World.observe
    cases answer.peers <;> exact hw
  | planned before actions =>
    obtain ⟨hok, hplan⟩ := h
    unfold advance at hf' ⊢
    dsimp only at hf' ⊢
    rcases hwrite : write (env.outcome 0) (persistIntents s
      ⟨id, epoch, d, history, fence, .planned before actions⟩ actions) w.db with ⟨⟨e⟩ | ⟨u⟩, db'⟩
    · rw [hwrite] at hf'
      cases hf'
      trivial
    · rw [hwrite] at hf'
      cases hf'
      obtain ⟨⟨⟩, -, hbody⟩ := bind_ok.mp (write_ok hwrite)
      cases pure_ok.mp hbody
      exact ⟨frameOk_at hok _ _, [], hplan⟩
  | acting before remaining =>
    obtain ⟨hok, hplan⟩ := h
    cases remaining with
    | nil =>
      cases hf'
      have hw := working_afterSecondSnapshot hok env answer before
      unfold advance World.observe
      cases answer.peers <;> exact hw
    | cons =>
      cases hf'
      have hw := working_afterAction hok hplan env answer
      unfold advance World.execute
      dsimp only
      split <;> exact hw
  | verified =>
    unfold advance at hf' ⊢
    dsimp only at hf' ⊢
    split at hf'
    · cases hf'
    · cases hf'
      trivial
  | failing => cases hf'
  | expiring => cases hf'

theorem process_frameInv (hw : w.frame = none) : FrameInv s (process s env id w) := by
  intro f hf
  unfold process at hf ⊢
  rcases hwrite : write (env.outcome 0) (claim s env id) w.db with ⟨⟨e⟩ | ⟨c⟩, db'⟩
  · rw [hwrite] at hf
    exact absurd hf (by simp [hw])
  rw [hwrite] at hf
  obtain ⟨o, ho, r, hr, hoid, hdev, hjob, hcase⟩ := claim_ok (write_ok hwrite)
  rcases hcase with ⟨rfl, -, rfl⟩ | ⟨rfl, rfl⟩ | ⟨rfl, hgen, -, -, rfl⟩
  · exact absurd hf (by simp [hw])
  · cases hf
    trivial
  · cases hf
    exact frameOk_claimed ho hr hoid hdev hgen hjob

/-- Every step keeps the fence holder's locals true. -/
theorem step_frameInv (h : FrameInv s w) (i : Input) : FrameInv s (step s w i) := by
  have hreact : FrameInv s (react s w i) := by
    rcases i with ⟨env, act⟩
    unfold react
    cases act with
    | call =>
      cases hw : w.frame with
      | none =>
        intro f hf
        exact absurd hf (by simp [World.store, hw])
      | some => exact h
    | process =>
      cases hw : w.frame with
      | none => exact process_frameInv hw
      | some => exact h
    | advance =>
      cases hw : w.frame with
      | none => exact h
      | some f => exact advance_frameInv (h f hw)
    | crash =>
      intro f hf
      cases hf
    | external => exact h
  exact hreact

/-! ## Steps as changes -/

def submitted (s : Store) (db : DB) (c : Call) : Option Command :=
  match c with
  | .submit raw => (normalizeCommand s raw).toOption
  | .submitSigned r raw => (db.devices.find r.deviceId).bind fun d => (normalizeCommand s
      { raw with deviceId := r.deviceId, actor := ⟨r.deviceId, d.ownerId⟩ }).toOption
  | _ => none

structure InScope (s : Store) (sc : Scope) (w : World) (i : Input) : Prop where
  time : ∀ k, sc.time (i.env.clock k)
  sweep : ∀ envs, i.act = .call (.sweepExpiry envs) → ∀ k j, sc.time ((envs k).clock j)
  command : ∀ c, i.act = .call c → ∀ cmd ∈ submitted s w.db c, sc.command cmd
  touch : ∀ id, i.act = .process id → sc.touch w.db.toAuthority id
  /-- The results that are committed are in scope. -/
  settles : ∀ answer, i.act = .advance answer → ∀ f, w.frame = some f → f.phase = .verified →
    sc.settles w.db.toAuthority f

theorem inScope_all (s : Store) (w : World) (i : Input) : InScope s .all w i :=
  ⟨fun _ => trivial, fun _ _ _ _ => trivial, fun _ _ _ _ => trivial, fun _ _ => trivial,
    fun _ _ _ _ _ => trivial⟩

theorem replyTo_snd (f : α → Reply) (result : Except Err α × DB) :
    (replyTo f result).2 = result.2 := by
  rcases result with ⟨e | a, db⟩ <;> rfl

/-- A transaction whose successful body is a sequence of changes is one. -/
theorem write_changes {o : WriteOutcome} {body : DB → Except Err (α × DB)}
    (h : ∀ a db', body db = .ok (a, db') → Changes s sc db db') :
    Changes s sc db (write o body db).2 := by
  rcases write_cases o body db with hsame | ⟨a, hbody⟩
  · rw [hsame]
  · exact h a _ hbody

theorem replyTo_changes {f : α → Reply} {o : WriteOutcome} {body : DB → Except Err (α × DB)}
    (h : ∀ a db', body db = .ok (a, db') → Changes s sc db db') :
    Changes s sc db (replyTo f (write o body db)).2 := by
  rw [replyTo_snd]
  exact write_changes h

theorem perform_changes {c : Call} (htime : ∀ k, sc.time (env.clock k))
    (hsweep : ∀ envs, c = .sweepExpiry envs → ∀ k j, sc.time ((envs k).clock j))
    (hcmd : ∀ cmd ∈ submitted s db c, sc.command cmd) : Changes s sc db (perform s env c db).2 := by
  cases c with
  | reopen =>
    refine replyTo_changes fun a db' h => ?_
    obtain ⟨db₁, hnew, h⟩ := bind_ok.mp h
    replace hnew := rest_ok hnew
    cases pure_ok.mp hnew
    cases pure_ok.mp h
    exact .refl
  | enroll =>
    exact replyTo_changes fun a db' h => enroll_changes htime h
  | issueActivation =>
    exact replyTo_changes fun a db' h => issueActivation_changes htime h
  | challenge =>
    refine replyTo_changes fun a db' h => ?_
    obtain ⟨t, rfl⟩ := challenge_changes h
    exact .registry (.challenges t)
  | sweepChallenges =>
    refine replyTo_changes fun a db' h => ?_
    replace h := rest_ok h
    cases pure_ok.mp h
    exact .registry (.challenges _)
  | activate =>
    exact replyTo_changes fun a db' h => activate_changes htime h
  | rotateCredential =>
    exact replyTo_changes fun a db' h => rotateCredential_changes htime h
  | submit =>
    rw [perform, replyTo_snd]
    exact submit_changes htime fun cmd' hn _ => hcmd cmd' (by simp [submitted, hn, Except.toOption])
  | submitSigned =>
    rw [perform, replyTo_snd]
    exact submitSigned_changes htime fun d hd cmd' hn =>
      hcmd cmd' (by simp [submitted, hd, hn, Except.toOption])
  | operationSigned =>
    exact replyTo_changes fun a db' h => operationSigned_changes h
  | proxyBootstrapSigned =>
    exact replyTo_changes fun a db' h => proxyBootstrapSigned_changes h
  | credentialReceipt =>
    exact replyTo_changes fun a db' h => credentialReceipt_changes h
  | operationReceipt =>
    exact replyTo_changes fun a db' h => operationReceipt_changes h
  | resolvePending =>
    exact replyTo_changes fun a db' h => resolvePending_changes htime h
  | sweepExpiry envs =>
    rw [perform, replyTo_snd]
    exact sweepDevices_changes (hsweep envs rfl) _ 0 db
  | refreshDeadlines =>
    exact replyTo_changes fun a db' h => refreshDeadlines_changes h

/-- A call of `Process` up to its claim is a sequence of changes. -/
theorem process_changes (htouch : sc.touch w.db.toAuthority id) :
    Changes s sc w.db (process s env id w).db := by
  have hsnd : (process s env id w).db = (write (env.outcome 0) (claim s env id) w.db).2 := by
    unfold process
    rcases write (env.outcome 0) (claim s env id) w.db with ⟨e | ⟨_ | d | f⟩, db⟩ <;> rfl
  rw [hsnd]
  refine write_changes fun c db' h => ?_
  obtain ⟨o, ho, r, hr, rfl, hdev, -, hcase⟩ := claim_ok h
  rcases hcase with ⟨-, hold, rfl⟩ | ⟨-, rfl⟩ | ⟨-, hgen, -, hfence, rfl⟩
  · exact .authority (.supersede ho hr hdev hold htouch)
  · exact .refl
  · exact .authority (.claim ho hr hdev hgen hfence htouch)

theorem planned_bindings {before : RuntimeMap} (hok : FrameOk s a f)
    (hplan : plan s f.device f.history before = .ok actions) : ∀ x ∈ actions, ∃ b ∈ a.bindings,
    b.deviceId = f.device.id ∧ b.publicKey = x.key ∧ b.address = x.address := by
  intro x hx
  obtain ⟨b, hb, hkey, haddr, -⟩ := (plan_ok hplan).mem_history hx
  obtain ⟨y, hy, hdev, hykey, hyaddr, -⟩ := hok.history_sound b hb
  exact ⟨y, hy, hdev, hykey.trans hkey, hyaddr.trans haddr⟩

/-- Every step of the fence holder is a sequence of changes. -/
theorem advance_changes {answer : Answer} (h : Working s w.db.toAuthority f)
    (htime : ∀ k, sc.time (env.clock k))
    (hsettles : f.phase = .verified → sc.settles w.db.toAuthority f) :
    Changes s sc w.db (advance s env answer f w).db := by
  rcases f with ⟨id, epoch, d, history, fence, phase⟩
  cases phase with
  | claimed =>
    unfold advance World.observe
    cases answer.peers <;> exact .refl
  | planned before actions =>
    obtain ⟨hok, hplan⟩ := h
    set f : Frame := ⟨id, epoch, d, history, fence, .planned before actions⟩
    have hsnd : (advance s env answer f w).db =
        (write (env.outcome 0) (persistIntents s f actions) w.db).2 := by
      unfold advance
      dsimp only [f]
      rcases write (env.outcome 0) (persistIntents s f actions) w.db with ⟨e | u, db⟩ <;> rfl
    rw [hsnd]
    refine write_changes fun u db' hbody => ?_
    replace hbody := rest_ok hbody
    cases pure_ok.mp hbody
    exact .authority (.intents hok (planned_bindings hok hplan))
  | acting before remaining =>
    cases remaining with
    | nil =>
      unfold advance World.observe
      cases answer.peers <;> exact .refl
    | cons =>
      unfold advance World.execute
      dsimp only
      split <;> exact .refl
  | verified =>
    set f : Frame := ⟨id, epoch, d, history, fence, .verified⟩
    have hsnd : (advance s env answer f w).db =
      (write (env.outcome 0) (persistResult s env f) w.db).2 := by
      unfold advance
      rcases write (env.outcome 0) (persistResult s env f) w.db with ⟨e | u, db⟩ <;> rfl
    rw [hsnd]
    refine write_changes fun u db' hbody => ?_
    replace hbody := rest_ok (rest_ok (rest_ok hbody))
    cases pure_ok.mp hbody
    exact .authority (.result (htime 0) h (hsettles rfl))
  | failing =>
    refine write_changes fun u db' hbody => ?_
    cases hbody
    refine .authority (.mark ?_)
    intro x hx
    unfold unfinished
    cases hs : x.state <;> simp_all
  | expiring => exact expireLocked_changes htime

theorem step_changes {i : Input} (hframe : FrameInv s w)
    (hin : InScope s sc w i) : Changes s sc w.db (step s w i).db := by
  change Changes s sc w.db (react s w i).db
  rcases i with ⟨env, act⟩
  unfold react
  cases act with
  | call c =>
    cases hw : w.frame with
    | none =>
      exact perform_changes hin.time (fun envs hc => hin.sweep envs (hc ▸ rfl)) (hin.command c rfl)
    | some => exact .refl
  | process id =>
    cases hw : w.frame with
    | none => exact process_changes (hin.touch id rfl)
    | some => exact .refl
  | advance answer =>
    cases hw : w.frame with
    | none => exact .refl
    | some f => exact advance_changes (hframe f hw) hin.time (hin.settles answer rfl f hw)
  | crash => exact .refl
  | external => exact .refl

end DaxiangVpn.DeviceAuthFrames
