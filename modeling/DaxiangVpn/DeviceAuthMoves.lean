import DaxiangVpn.DeviceAuthRegistry

/-!
# What one step of a run can do

Every step of the world is one of the moves below. Each constructor gives the
world after the move and the facts that selected it, so that what holds over a
whole run is proved move by move.
-/

namespace DaxiangVpn.DeviceAuthMoves

open CheckedSteps DeviceAuthPolicy RelationTable DeviceAuthTables DeviceAuthSubmit
open DeviceAuthProcess DeviceAuthWorld DeviceAuthChanges DeviceAuthFrames DeviceAuthGrowth
open DeviceAuthRegistry TransitionRun

/-! ## Moves -/

variable {id : String} {α : Type} {f : Frame}

/-- A transaction that may or may not have been applied. -/
def Maybe (body : DB → Except Err (α × DB)) (db db' : DB) : Prop :=
  db' = db ∨ ∃ a, body db = .ok (a, db')

/-- What one step does, apart from the time. -/
inductive Moved (s : Store) (w : World) (i : Input) : World → Prop
  /-- The input finds nothing to do, or the process dies. -/
  | idle {f : Option Frame} (hframe : f = w.frame ∨ f = none) : Moved s w i { w with frame := f }
  /-- Somebody else rewrites the runtime. -/
  | outside {runtime : List Peer} (hact : i.act = .external runtime) :
      Moved s w i { w with runtime := runtime }
  | called {c : Call} (hact : i.act = .call c) (hframe : w.frame = none) :
      Moved s w i (w.store (perform s i.env c w.db).2)
  /-- `Process` returns after its claim. -/
  | dismissed {id : String} {db : DB} (hact : i.act = .process id) (hframe : w.frame = none)
      (hdb : Maybe (claim s i.env id) w.db db) :
      Moved s w i { w with db := db, log := attempts id w.db ++ w.log }
  /-- `Process` has claimed its operation. -/
  | claimed {id : String} {f : Frame} {db : DB} (hact : i.act = .process id)
      (hframe : w.frame = none) (hclaim : claim s i.env id w.db = .ok (.work f, db)) :
      Moved s w i { w with db := db, frame := some f, log := attempts id w.db ++ w.log }
  /-- `Process` has found the authorization expired. -/
  | lapsing {id : String} {d : Device} {db : DB} (hact : i.act = .process id)
      (hframe : w.frame = none) (hclaim : claim s i.env id w.db = .ok (.expired d, db)) :
      Moved s w i { w with
        db := db, frame := some ⟨id, s.policy.epoch, d, [], 0, .expiring⟩
        log := attempts id w.db ++ w.log }
  | surveyed {answer : Answer} {f : Frame} (hact : i.act = .advance answer)
      (hframe : w.frame = some f) (hphase : f.phase = .claimed) :
      Moved s w i ((w.observe answer).at f (afterFirstSnapshot s i.env f answer))
  | announced {answer : Answer} {f : Frame} {before : RuntimeMap} {actions : List PlannedAction}
      (hact : i.act = .advance answer) (hframe : w.frame = some f)
      (hphase : f.phase = .planned before actions) :
      Moved s w i (World.at
        { w with db := { w.db with toAuthority := announceIntents f actions w.db.toAuthority } } f
        (.acting before actions))
  /-- The transaction of the intents reported an error. -/
  | unannounced {answer : Answer} {f : Frame} {before : RuntimeMap} {actions : List PlannedAction}
      {db : DB} (hact : i.act = .advance answer) (hframe : w.frame = some f)
      (hphase : f.phase = .planned before actions)
      (hdb : Maybe (persistIntents s f actions) w.db db) :
      Moved s w i (World.at { w with db := db } f (.failing .executionUnknown))
  | acted {answer : Answer} {f : Frame} {before : RuntimeMap} {x : PlannedAction}
      {rest : List PlannedAction} (hact : i.act = .advance answer) (hframe : w.frame = some f)
      (hphase : f.phase = .acting before (x :: rest)) :
      Moved s w i ((w.execute i.env f answer x).at f (afterAction i.env f answer before x rest))
  | checked {answer : Answer} {f : Frame} {before : RuntimeMap} (hact : i.act = .advance answer)
      (hframe : w.frame = some f) (hphase : f.phase = .acting before []) :
      Moved s w i ((w.observe answer).at f (afterSecondSnapshot i.env f answer before))
  /-- The result is durable and `Process` returns without an error. -/
  | settled {answer : Answer} {f : Frame} (hact : i.act = .advance answer)
      (hframe : w.frame = some f) (hphase : f.phase = .verified) :
      Moved s w i { w with
        db := { w.db with toAuthority := settle f (i.env.clock 0) w.db.toAuthority }, frame := none
        log := .converged f.device.id :: w.log }
  /-- The transaction of the result reported an error. -/
  | unsettled {answer : Answer} {f : Frame} {db : DB} (hact : i.act = .advance answer)
      (hframe : w.frame = some f) (hphase : f.phase = .verified)
      (hdb : Maybe (persistResult s i.env f) w.db db) :
      Moved s w i (World.at { w with db := db } f (.failing .executionUnknown))
  | failed {answer : Answer} {f : Frame} {cause : Err} {db : DB} (hact : i.act = .advance answer)
      (hframe : w.frame = some f) (hphase : f.phase = .failing cause)
      (hdb : Maybe (failed f.operationId cause) w.db db) :
      Moved s w i { w with db := db, frame := none }
  | expired {answer : Answer} {f : Frame} (hact : i.act = .advance answer)
      (hframe : w.frame = some f) (hphase : f.phase = .expiring) :
      Moved s w i { w.store (expireLocked s i.env f.device w.db).2 with frame := none }

variable {db db' : DB} {s : Store} {env : Env} {w : World} {i : Input} {sc : Scope}

theorem write_maybe {o : WriteOutcome} {body : DB → Except Err (α × DB)}
    {result : Except Err α} (h : write o body db = (result, db')) : Maybe body db db' := by
  have hcases := write_cases o body db
  rw [h] at hcases
  exact hcases

theorem persistResult_ok {u : Unit} (h : persistResult s env f db = .ok (u, db')) :
    db' = { db with toAuthority := settle f (env.clock 0) db.toAuthority } := by
  replace h := rest_ok (rest_ok (rest_ok h))
  exact (congrArg Prod.snd (pure_ok.mp h)).symm

theorem advance_moved {answer : Answer}
    (hframe : w.frame = some f) : Moved s w ⟨env, .advance answer⟩ (advance s env answer f w) := by
  unfold advance
  cases hphase : f.phase with
  | claimed => exact .surveyed rfl hframe hphase
  | planned before actions =>
    dsimp only
    rcases hwrite : write (env.outcome 0) (persistIntents s f actions) w.db with ⟨⟨e⟩ | ⟨u⟩, db⟩
    · exact .unannounced rfl hframe hphase (write_maybe hwrite)
    · obtain ⟨⟨⟩, -, hbody⟩ := bind_ok.mp (write_ok hwrite)
      cases pure_ok.mp hbody
      exact .announced rfl hframe hphase
  | acting before remaining =>
    cases remaining with
    | nil => exact .checked rfl hframe hphase
    | cons => exact .acted rfl hframe hphase
  | verified =>
    rcases hwrite : write (env.outcome 0) (persistResult s env f) w.db with ⟨⟨e⟩ | ⟨u⟩, db⟩
    · exact .unsettled rfl hframe hphase (write_maybe hwrite)
    · cases persistResult_ok (write_ok hwrite)
      exact .settled rfl hframe hphase
  | failing => exact .failed rfl hframe hphase (write_cases _ _ _)
  | expiring => exact .expired rfl hframe hphase

/-- A call of `Process` is a move. -/
theorem process_moved (hframe : w.frame = none) :
    Moved s w ⟨env, .process id⟩ (process s env id w) := by
  unfold process
  rcases hwrite : write (env.outcome 0) (claim s env id) w.db with ⟨⟨e⟩ | ⟨c⟩, db⟩
  · exact .dismissed rfl hframe (write_maybe hwrite)
  · cases c with
    | superseded => exact .dismissed rfl hframe (write_maybe hwrite)
    | expired => exact .lapsing rfl hframe (write_ok hwrite)
    | work => exact .claimed rfl hframe (write_ok hwrite)

theorem react_moved (s : Store) (w : World) (i : Input) : Moved s w i (react s w i) := by
  rcases i with ⟨env, act⟩
  unfold react
  cases act with
  | call =>
    cases hw : w.frame with
    | none => exact .called rfl hw
    | some => exact .idle (.inl rfl)
  | process =>
    cases hw : w.frame with
    | none => exact process_moved hw
    | some => exact .idle (.inl rfl)
  | advance =>
    cases hw : w.frame with
    | none => exact .idle (.inl rfl)
    | some => exact advance_moved hw
  | crash => exact .idle (.inr rfl)
  | external => exact .outside rfl

/-! ## Outcomes of the phases -/

theorem afterFirstSnapshot_planned (s : Store) (env : Env) (f : Frame) (answer : Answer) :
    (∃ peers before actions, answer.peers = some peers ∧ runtimeMap peers = .ok before ∧
        afterFirstSnapshot s env f answer = .planned before actions) ∨
      afterFirstSnapshot s env f answer = .expiring ∨
        ∃ cause, afterFirstSnapshot s env f answer = .failing cause := by
  unfold afterFirstSnapshot
  split
  · exact .inr (.inl rfl)
  split
  · exact .inr (.inr ⟨_, rfl⟩)
  cases answer.peers with
  | none => exact .inr (.inr ⟨_, rfl⟩)
  | some peers =>
    cases hmap : runtimeMap peers with
    | error e => exact .inr (.inr ⟨e, by simp [hmap]⟩)
    | ok before =>
      cases hplan : plan s f.device f.history before with
      | error e => exact .inr (.inr ⟨e, by simp [hmap, hplan]⟩)
      | ok actions =>
        dsimp only
        rw [hmap]
        dsimp only
        rw [hplan]
        dsimp only
        split
        · exact .inr (.inl rfl)
        · exact .inl ⟨peers, before, actions, rfl, hmap, rfl⟩

/-- An action leads out of the attempt, or it started and reported no error. -/
theorem afterAction_acting (env : Env) (f : Frame) (answer : Answer) (before : RuntimeMap)
    (x : PlannedAction) (rest : List PlannedAction) :
    (afterAction env f answer before x rest = .acting before rest ∧
        starts env f answer x = true ∧ answer.erred = false) ∨
      afterAction env f answer before x rest = .expiring ∨
        ∃ cause, afterAction env f answer before x rest = .failing cause := by
  unfold afterAction
  split
  · exact .inr (.inr ⟨_, rfl⟩)
  split
  · exact .inr (.inr ⟨_, rfl⟩)
  split
  · exact .inr (.inl rfl)
  split
  · exact .inr (.inl rfl)
  split
  · exact .inr (.inr ⟨_, rfl⟩)
  · rename_i hidentity hlate happly _ herr
    refine .inl ⟨rfl, ?_, ?_⟩
    · cases hkind : x.kind <;> simp_all [starts]
    · simp_all

theorem afterSecondSnapshot_over (env : Env) (f : Frame) (answer : Answer) (before : RuntimeMap) :
    (∃ peers after, answer.peers = some peers ∧ runtimeMap peers = .ok after ∧
        verify f.device f.history before after = .ok () ∧
        afterSecondSnapshot env f answer before = .verified) ∨
      afterSecondSnapshot env f answer before = .expiring ∨
        ∃ cause, afterSecondSnapshot env f answer before = .failing cause := by
  unfold afterSecondSnapshot
  split
  · exact .inr (.inl rfl)
  split
  · exact .inr (.inr ⟨_, rfl⟩)
  cases answer.peers with
  | none => exact .inr (.inr ⟨_, rfl⟩)
  | some peers =>
    cases hmap : runtimeMap peers with
    | error => exact .inr (.inr ⟨.verification, by simp [hmap]⟩)
    | ok after =>
      cases hverify : verify f.device f.history before after with
      | error e => exact .inr (.inr ⟨e, by simp [hmap, hverify]⟩)
      | ok =>
        dsimp only
        rw [hmap]
        dsimp only
        rw [hverify]
        dsimp only
        split
        · exact .inr (.inl rfl)
        · exact .inl ⟨peers, after, rfl, hmap, hverify, rfl⟩

/-! ## The record of the past -/

theorem mem_commits {e : Event} (h : e ∈ commits db db') :
    ∃ o ∈ db'.operations, e = .committed o.deviceId o.generation := by
  rw [commits, List.mem_reverse] at h
  obtain ⟨o, ho, rfl⟩ := List.mem_map.mp h
  exact ⟨o, List.mem_of_mem_drop ho, rfl⟩

/-- A call of `Process` is recorded as an attempt. -/
theorem mem_attempts {e : Event} (h : e ∈ attempts id db) :
    ∃ o ∈ db.operations, o.operationId = id ∧ e = .attempted o.deviceId := by
  unfold attempts at h
  cases hfind : db.operations.find id with
  | none => simp [hfind] at h
  | some o =>
    obtain ⟨ho, hid⟩ := find_eq_some.mp hfind
    simp only [hfind, List.mem_singleton] at h
    exact ⟨o, ho, hid, h⟩

theorem step_log (s : Store) (w : World) (i : Input) : ∃ new, (step s w i).log = new ++ w.log := by
  have hmove : ∀ w', Moved s w i w' → ∃ new, w'.log = new ++ w.log := by
    intro w' h
    cases h with
    | idle | outside | announced | unannounced | unsettled | failed => exact ⟨[], rfl⟩
    | called | expired => exact ⟨_, rfl⟩
    | dismissed | claimed | lapsing => exact ⟨_, rfl⟩
    | settled => exact ⟨[_], rfl⟩
    | @surveyed answer | @checked answer =>
      unfold World.observe
      cases answer.peers with
      | none => exact ⟨[], rfl⟩
      | some => exact ⟨[_], rfl⟩
    | acted =>
      unfold World.execute
      split
      · exact ⟨[_], rfl⟩
      · exact ⟨[], rfl⟩
  exact hmove (react s w i) (react_moved s w i)

/-- What a transaction keeps is kept when it may not have been applied. -/
theorem maybe_rule {body : DB → Except Err (α × DB)} {P : DB → Prop}
    (h : Maybe body db db') (hsame : P db) (hbody : ∀ a, body db = .ok (a, db') → P db') :
    P db' := by
  rcases h with rfl | ⟨a, ha⟩
  · exact hsame
  · exact hbody a ha

theorem claim_operations {c : Claim}
    (h : claim s env id db = .ok (c, db')) : db'.operations = db.operations := by
  obtain ⟨o, -, r, -, -, -, -, hcase⟩ := claim_ok h
  rcases hcase with ⟨-, -, rfl⟩ | ⟨-, rfl⟩ | ⟨-, -, -, -, rfl⟩ <;> rfl

theorem moved_operations {w' : World} (h : Moved s w i w') :
    w'.db.operations = w.db.operations ∨ w'.log = commits w.db w'.db ++ w.log := by
  cases h with
  | idle | outside | announced | settled => exact .inl rfl
  | called | expired => exact .inr rfl
  | dismissed hact hframe hdb =>
    exact .inl (maybe_rule (P := fun db => db.operations = w.db.operations) hdb rfl
      fun _ h => claim_operations h)
  | claimed hact hframe hclaim | lapsing hact hframe hclaim => exact .inl (claim_operations hclaim)
  | @surveyed answer | @checked answer =>
    unfold World.observe
    cases answer.peers <;> exact .inl rfl
  | acted =>
    unfold World.execute
    split <;> exact .inl rfl
  | unannounced hact hframe hphase hdb =>
    refine .inl (maybe_rule (P := fun db => db.operations = w.db.operations) hdb rfl fun _ h => ?_)
    replace h := rest_ok h
    cases pure_ok.mp h
    rfl
  | unsettled hact hframe hphase hdb =>
    refine .inl (maybe_rule (P := fun db => db.operations = w.db.operations) hdb rfl fun _ h => ?_)
    rw [persistResult_ok h]
    rfl
  | failed hact hframe hphase hdb =>
    refine .inl (maybe_rule (P := fun db => db.operations = w.db.operations) hdb rfl fun _ h => ?_)
    cases h
    rfl

theorem step_result {answer : Answer} (hact : i.act = .advance answer) (hframe : w.frame = some f)
    (hphase : f.phase = .verified) : Maybe (persistResult s i.env f) w.db (step s w i).db := by
  change Maybe (persistResult s i.env f) w.db (react s w i).db
  unfold react
  rw [hact, hframe]
  dsimp only
  unfold advance
  rw [hphase]
  rcases hwrite : write (i.env.outcome 0) (persistResult s i.env f) w.db with ⟨⟨e⟩ | ⟨u⟩, db⟩
  · exact write_maybe hwrite
  · exact write_maybe hwrite

/-! ## The database over a run -/

/-- The fence holder tells the truth and the database is in order. -/
structure WorldInv (s : Store) (sc : Scope) (w : World) : Prop where
  frame : FrameInv s w
  db : DBInv s sc w.db

theorem init_worldInv (s : Store) (sc : Scope) (runtime : List Peer) (time : ℤ) :
    WorldInv s sc (init s runtime time) :=
  ⟨nofun, emptyDB_inv s sc⟩

theorem step_worldInv (h : WorldInv s sc w) (hin : InScope s sc w i) : WorldInv s sc (step s w i) :=
  ⟨step_frameInv h.frame i, (changes_inv h.db (step_changes h.frame hin)).1⟩

theorem step_grows (h : WorldInv s sc w) (hin : InScope s sc w i) : Grows w.db (step s w i).db :=
  (changes_inv h.db (step_changes h.frame hin)).2

theorem run_worldInv {inputs : List Input} (h : WorldInv s sc w)
    (hin : Along (step s) (InScope s sc) w inputs) :
    WorldInv s sc (run (step s) w inputs) :=
  run_invariant (WorldInv s sc) (fun _ _ => step_worldInv) h hin

theorem run_grows {inputs : List Input} (h : WorldInv s sc w)
    (hin : Along (step s) (InScope s sc) w inputs) :
    Grows w.db (run (step s) w inputs).db :=
  run_related (WorldInv s sc) (fun w w' => Grows w.db w'.db) (fun w => Grows.refl w.db)
    (fun _ _ _ => Grows.trans) (fun _ _ => step_worldInv) (fun _ _ => step_grows) h hin

theorem along_all (s : Store) (w : World) (inputs : List Input) :
    Along (step s) (InScope s .all) w inputs :=
  along_of_forall (inScope_all s) w inputs

end DaxiangVpn.DeviceAuthMoves
