import DaxiangVpn.DeviceAuthMoves

/-!
# Provenance of managed peers

A runtime peer under a bound key has exactly the address of its binding, and the
binding was applied before or an apply of this epoch was announced for it. The
announcement is durable before the action starts, so this survives a crash at any
point. While an attempt acts, every revoked key of its device that is still a
peer has its removal ahead of it, so an apply never takes an address from a
managed peer.
-/

namespace DaxiangVpn.DeviceAuthProvenance

open CheckedSteps NetipPrefix DeviceAuthPolicy RelationTable DeviceAuthTables List
open DeviceAuthProcess DeviceAuthWorld DeviceAuthChanges
open DeviceAuthFrames DeviceAuthGrowth DeviceAuthInvariant DeviceAuthGenerations
open DeviceAuthRegistry DeviceAuthMoves TransitionRun

/-! ## Where bindings come from -/

/-- Every binding after a change was there before, or is the key of an apply in scope. -/
def Descends (sc : Scope) (db db' : DB) : Prop :=
  ∀ b' ∈ db'.bindings, (∃ b ∈ db.bindings, b.publicKey = b'.publicKey) ∨
    ∃ cmd, sc.command cmd ∧ cmd.action = .apply ∧ cmd.publicKey = b'.publicKey

variable {sc : Scope} {db db' : DB} {s : Store} {runtime : List Peer} {x : PlannedAction}
  {f : Frame} {w : World}
  {i : Input}

theorem descends_of_eq (h : db'.bindings = db.bindings) : Descends sc db db' :=
  fun b' hb' => .inl ⟨b', h ▸ hb', rfl⟩

theorem change_descends (h : Change s sc db db') : Descends sc db db' := by
  cases h with
  | registry => exact descends_of_eq rfl
  | activate => exact descends_of_eq rfl
  | authority h =>
    cases h with
    | enroll | mark | supersede | claim | intents => exact descends_of_eq rfl
    | commit hnow hr hid howner hactive hcmd hscope hnew h =>
      intro b' hb'
      rcases (mem_commit_bindings h).mp hb' with ⟨b, hb, rfl⟩ | ⟨ha, rfl⟩
      · exact .inl ⟨b, hb, (revokeBinding_same _ _ b).1.symm⟩
      · exact .inr ⟨_, hscope (by simp [ha]), ha, rfl⟩
    | result =>
      intro b' hb'
      obtain ⟨b, hb, rfl⟩ := mem_settle_bindings.mp hb'
      exact .inl ⟨b, hb, (settleBinding_same _ b).1.symm⟩

theorem changes_descends (h : Changes s sc db db') : Descends sc db db' := by
  induction h with
  | refl => exact descends_of_eq rfl
  | tail _ hlast ih =>
    intro b' hb'
    rcases change_descends hlast b' hb' with ⟨b, hb, hkey⟩ | hnew
    · rw [← hkey]
      exact ih b hb
    · exact .inr hnew

/-! ## The invariant -/

/-- Every peer under a bound key has the binding's address, and the binding
was applied before or an apply was announced for it. -/
def Provenance (s : Store) (db : DB) (runtime : List Peer) : Prop :=
  ∀ p ∈ runtime, ∀ b ∈ db.bindings, b.publicKey = p.publicKey →
    p.allowedIPs = [b.address] ∧ (b.applied = true ∨ announced s db b.publicKey = true)

/-- What the attempt that holds the fence knows about the runtime. -/
def Pursuing (s : Store) (db : DB) (runtime : List Peer) (f : Frame) : Prop :=
  match f.phase with
  | .claimed => f.history = bindings s db f.device.id
  | .planned before _ => ∀ p ∈ runtime, ∃ q ∈ before, q.publicKey = p.publicKey
  | .acting _ remaining =>
    (∀ b ∈ f.history, 0 < b.revoked → (∃ p ∈ runtime, p.publicKey = b.key) →
      ⟨.remove, b.key, b.address⟩ ∈ remaining) ∧
      ∀ x ∈ remaining, x.kind = .apply → announced s db x.key = true
  | _ => True

def freeCall (w : World) (i : Input) : Option Call :=
  match i.act, w.frame with
  | .call c, none => some c
  | _, _ => none

/-- A submitted key that is not bound yet is absent from the runtime. -/
def FreshKey (s : Store) (w : World) (i : Input) : Prop :=
  ∀ c ∈ freeCall w i, ∀ cmd ∈ submitted s w.db c, cmd.action = .apply →
    (∀ b ∈ w.db.bindings, b.publicKey ≠ cmd.publicKey) →
      ∀ p ∈ w.runtime, p.publicKey ≠ cmd.publicKey

/-- Freshness of a submitted key can be evaluated. -/
instance (s : Store) (w : World) (i : Input) : Decidable (FreshKey s w i) :=
  inferInstanceAs (Decidable (∀ c ∈ freeCall w i, _))

theorem announced_grows (hg : Grows db db') {key : String}
    (h : announced s db key = true) : announced s db' key = true := by
  obtain ⟨i, hi, hp⟩ := has_eq_true.mp h
  obtain ⟨i', hi', hgrow⟩ := hg.authority.intents i hi
  refine has_eq_true.mpr ⟨i', hi', ?_⟩
  obtain ⟨-, hkey, haction, hepoch, -⟩ := hgrow.same
  rw [hkey, haction, hepoch]
  exact hp

theorem provenance_grows (h : Provenance s db runtime) (hg : Grows db db')
    (hnew : ∀ b' ∈ db'.bindings, (∃ b ∈ db.bindings, b.publicKey = b'.publicKey) ∨
      ∀ p ∈ runtime, p.publicKey ≠ b'.publicKey) : Provenance s db' runtime := by
  intro p hp b' hb' hkey
  rcases hnew b' hb' with ⟨b, hb, hbkey⟩ | habsent
  · obtain ⟨hips, hprior⟩ := h p hp b hb (hbkey.trans hkey)
    obtain ⟨b'', hb'', hgrow⟩ := hg.authority.bindings b hb
    obtain ⟨hsame, -, haddr, -⟩ := hgrow.same
    cases Table.eq_of_key hb'' hb' (hsame.trans hbkey)
    refine ⟨by rw [hips, haddr], hprior.imp hgrow.applied fun hann => ?_⟩
    rw [hsame]
    exact announced_grows hg hann
  · exact absurd hkey.symm (habsent p hp)

theorem provenance_subset {runtime' : List Peer} (h : Provenance s db runtime)
    (hsub : ∀ p ∈ runtime', p ∈ runtime) :
    Provenance s db runtime' :=
  fun p hp => h p (hsub p hp)

/-! ## Executing a plan -/

theorem apply_last {removes tail finished rest : List PlannedAction}
    (hremove : ∀ y ∈ removes, y.kind = .remove) (htail : tail.length ≤ 1)
    (h : finished ++ x :: rest = removes ++ tail) (hx : x.kind = .apply) : rest = [] := by
  rcases append_eq_append_iff.mp h with ⟨c, hc, htail'⟩ | ⟨c, hc, hrest⟩
  · cases c with
    | nil =>
      rw [nil_append] at htail'
      rw [← htail', length_cons] at htail
      exact length_eq_zero_iff.mp (by omega)
    | cons y =>
      have hxy : x = y := (List.cons.inj htail').1
      have hy := hremove y (by simp [hc])
      rw [← hxy, hx] at hy
      cases hy
  · rw [hrest, length_append, length_cons] at htail
    exact length_eq_zero_iff.mp (by omega)

section

variable {s : Store} {db : DB} {f : Frame} {before : RuntimeMap} {x : PlannedAction}
  {finished rest : List PlannedAction} {runtime : List Peer}

theorem rest_of_apply (hplan : plan s f.device f.history before = .ok (finished ++ x :: rest))
    (hkind : x.kind = .apply) : rest = [] := by
  refine apply_last ?_ ?_ (plan_ok hplan).actions hkind
  · intro y hy
    obtain ⟨b, -, -, -, rfl⟩ := mem_removals.mp hy
    rfl
  · split <;> simp

theorem binding_of_apply (hok : FrameOk s db.toAuthority f)
    (hplan : plan s f.device f.history before = .ok (finished ++ x :: rest))
    (hkind : x.kind = .apply) : ∃ y ∈ db.bindings, y.deviceId = f.device.id ∧
      y.publicKey = x.key ∧ y.address = x.address ∧ y.revokedGeneration = 0 := by
  obtain ⟨b, hb, hkey, haddr, hlive, -⟩ := (plan_ok hplan).mem_history
    (mem_append_right finished (mem_cons_self (a := x) (l := rest)))
  obtain ⟨y, hy, hdev, hykey, hyaddr, hyrev⟩ := hok.history_sound b hb
  exact ⟨y, hy, hdev, hykey.trans hkey, hyaddr.trans haddr, hyrev.trans (hlive hkind).1⟩

variable {sc : Scope}

theorem unrevoked_unique (hinv : DBInv s sc db) {b c : BindingRow}
    (hb : b ∈ db.bindings) (hc : c ∈ db.bindings) (hdev : b.deviceId = c.deviceId)
    (hblive : b.revokedGeneration = 0) (hclive : c.revokedGeneration = 0) : b = c := by
  obtain ⟨r, hr, hrd, -, -, -, hcur⟩ := (hinv.authority.core.bindings b hb).owned
  obtain ⟨r', hr', hrd', -, -, -, hcur'⟩ := (hinv.authority.core.bindings c hc).owned
  cases Table.eq_of_key hr hr' (hrd.trans (hdev.trans hrd'.symm))
  have hkey : b.publicKey = c.publicKey :=
    Option.some.inj ((hcur hblive).symm.trans (hcur' hclive))
  exact Table.eq_of_key hb hc hkey

section

variable (hinv : DBInv s sc db) (hok : FrameOk s db.toAuthority f)
  (hplan : plan s f.device f.history before = .ok (finished ++ x :: rest))
include hinv hok hplan

theorem apply_steals_nothing (hkind : x.kind = .apply)
    (hahead : ∀ b ∈ f.history, 0 < b.revoked → (∃ p ∈ runtime, p.publicKey = b.key) →
      ⟨.remove, b.key, b.address⟩ ∈ x :: rest)
    {p : Peer} (hp : p ∈ runtime) (hne : p.publicKey ≠ x.key) {c : BindingRow}
    (hc : c ∈ db.bindings) (hkey : c.publicKey = p.publicKey) :
    (parsePrefix c.address).map IpPrefix.masked ≠ (parsePrefix x.address).map IpPrefix.masked := by
  intro heq
  obtain ⟨y, hy, hydev, hykey, hyaddr, hylive⟩ := binding_of_apply hok hplan hkind
  rw [← hyaddr] at heq
  have haddr : c.address = y.address :=
    address_eq_of_masked (hinv.authority.core.bindings c hc).address
      (hinv.authority.core.bindings y hy).address heq
  have hdev : c.deviceId = y.deviceId := hinv.authority.core.device_of_bound hc hy haddr
  have hrev : 0 < c.revokedGeneration := by
    refine Nat.pos_of_ne_zero fun hlive => hne ?_
    rw [← hkey, unrevoked_unique hinv hc hy hdev hlive hylive, hykey]
  obtain ⟨b, hb, hbkey, -, hbrev⟩ := hok.history_full c hc (hdev.trans hydev)
  have hmem := hahead b hb (hbrev ▸ hrev) ⟨p, hp, hkey.symm.trans hbkey⟩
  rw [rest_of_apply hplan hkind, mem_singleton] at hmem
  rw [← hmem] at hkind
  cases hkind

theorem provenance_execute (hahead : ∀ b ∈ f.history, 0 < b.revoked →
    (∃ p ∈ runtime, p.publicKey = b.key) →
      ⟨.remove, b.key, b.address⟩ ∈ x :: rest)
    (hann : x.kind = .apply → announced s db x.key = true) (h : Provenance s db runtime) :
    Provenance s db (x.execute runtime) := by
  unfold PlannedAction.execute
  cases hkind : x.kind with
  | remove => exact provenance_subset h fun p hp => (mem_removePeer.mp hp).1
  | apply =>
    intro p hp c hc hkey
    rcases mem_applyPeer.mp hp with ⟨q, hq, hne, rfl⟩ | rfl
    · obtain ⟨hips, hprior⟩ := h q hq c hc hkey
      have hkeep := apply_steals_nothing hinv hok hplan hkind hahead hq hne hc hkey
      refine ⟨?_, hprior⟩
      dsimp only [losing]
      rw [hips, filter_cons_of_pos (by simpa using hkeep), filter_nil]
    · obtain ⟨y, hy, -, hykey, hyaddr, -⟩ := binding_of_apply hok hplan hkind
      cases Table.eq_of_key hc hy (hkey.trans hykey.symm)
      exact ⟨by rw [hyaddr], .inr (hkey ▸ hann hkind)⟩

end

/-- After an executed action the removals of what is still there remain ahead. -/
theorem ahead_execute (hok : FrameOk s db.toAuthority f)
    (hplan : plan s f.device f.history before = .ok (finished ++ x :: rest))
    (hahead : ∀ b ∈ f.history, 0 < b.revoked → (∃ p ∈ runtime, p.publicKey = b.key) →
      ⟨.remove, b.key, b.address⟩ ∈ x :: rest) :
    ∀ b ∈ f.history, 0 < b.revoked → (∃ p ∈ x.execute runtime, p.publicKey = b.key) →
      ⟨.remove, b.key, b.address⟩ ∈ rest := by
  rintro b hb hrev ⟨p, hp, hkey⟩
  unfold PlannedAction.execute at hp
  cases hkind : x.kind with
  | remove =>
    rw [hkind] at hp
    obtain ⟨hp, hne⟩ := mem_removePeer.mp hp
    rcases mem_cons.mp (hahead b hb hrev ⟨p, hp, hkey⟩) with heq | hrest
    · rw [← heq, hkey] at hne
      exact absurd rfl hne
    · exact hrest
  | apply =>
    rw [hkind] at hp
    rcases mem_applyPeer.mp hp with ⟨q, hq, -, rfl⟩ | rfl
    · rcases mem_cons.mp (hahead b hb hrev ⟨q, hq, hkey⟩) with heq | hrest
      · rw [← heq] at hkind
        cases hkind
      · exact hrest
    · obtain ⟨y, hy, -, hykey, -, hylive⟩ := binding_of_apply hok hplan hkind
      obtain ⟨z, hz, -, hzkey, -, hzrev⟩ := hok.history_sound b hb
      cases Table.eq_of_key hz hy (hzkey.trans (hkey.symm.trans hykey.symm))
      omega

end

theorem upsertIntents_key {t : Table IntentRow.key} {is : List IntentRow}
    {k : String × String × IntentAction} (h : (∃ j ∈ t, j.key = k) ∨ ∃ i ∈ is, i.key = k) :
      ∃ j ∈ is.foldl upsertIntent t, j.key = k := by
  induction is generalizing t with
  | nil => exact h.resolve_right (by simp)
  | cons i rest ih =>
    obtain ⟨n, hn, hmem, -⟩ := upsertIntent_rows t i
    rw [foldl_cons]
    apply ih
    by_cases hik : i.key = k
    · exact .inl ⟨n, (hmem n).mpr (.inl rfl), hn.trans hik⟩
    · rcases h with ⟨j, hj, hjk⟩ | ⟨i', hi', hik'⟩
      · exact .inl ⟨j, (hmem j).mpr (.inr ⟨hj, fun hji => hik (hji.symm.trans hjk)⟩), hjk⟩
      · rcases mem_cons.mp hi' with rfl | hi'
        · exact absurd hik' hik
        · exact .inr ⟨i', hi', hik'⟩

theorem announced_announce {actions : List PlannedAction}
    (hinv : AuthInv s sc (announceIntents f actions db.toAuthority)) (hx : x ∈ actions)
    (hkind : x.kind = .apply) :
    announced s { db with toAuthority := announceIntents f actions db.toAuthority }
      x.key = true := by
  obtain ⟨j, hj, hkey⟩ := upsertIntents_key (t := db.intents) (.inr ⟨intentOf f x,
    mem_map.mpr ⟨x, hx, rfl⟩, rfl⟩)
  have hepoch : j.epoch = s.policy.epoch := (hinv.jobs.intents j hj).epoch
  have hparts : j.operationId = f.operationId ∧ j.publicKey = x.key ∧ j.action = x.kind := by
    simpa [IntentRow.key, intentOf] using hkey
  refine has_eq_true.mpr ⟨j, hj, ?_⟩
  simp [hparts.2.1, hparts.2.2, hkind, hepoch]

/-! ## Runs -/

/-- The world as the executor's contract keeps it. -/
structure Managed (s : Store) (w : World) : Prop where
  world : WorldInv s .all w
  peers : Provenance s w.db w.runtime
  frame : ∀ f, w.frame = some f → Pursuing s w.db w.runtime f

/-- Keys that a step binds were bound before or are absent from the runtime. -/
theorem step_fresh (hframe : FrameInv s w) (hfresh : FreshKey s w i) :
    ∀ b' ∈ (step s w i).db.bindings,
      (∃ b ∈ w.db.bindings, b.publicKey = b'.publicKey) ∨
      ∀ p ∈ w.runtime, p.publicKey ≠ b'.publicKey := by
  intro b' hb'
  by_cases hblocked : ∃ c f, i.act = .call c ∧ w.frame = some f
  · obtain ⟨c, f, hact, hf⟩ := hblocked
    have hdb : (step s w i).db = w.db := by
      change (react s w i).db = w.db
      unfold react
      rw [hact, hf]
    exact .inl ⟨b', hdb ▸ hb', rfl⟩
  · let sc : Scope := ⟨fun _ => True, fun cmd => cmd.action = .apply →
      (∀ b ∈ w.db.bindings, b.publicKey ≠ cmd.publicKey) →
        ∀ p ∈ w.runtime, p.publicKey ≠ cmd.publicKey, fun _ _ => True, fun _ _ => True⟩
    have hin : InScope s sc w i := by
      refine ⟨fun _ => trivial, fun _ _ _ _ => trivial, fun c hc cmd hsub => ?_, fun _ _ => trivial,
        fun _ _ _ _ _ => trivial⟩
      have hnone : w.frame = none := by
        cases hf : w.frame with
        | none => rfl
        | some f => exact absurd ⟨c, f, hc, hf⟩ hblocked
      have hfree : c ∈ freeCall w i := by simp [freeCall, hc, hnone]
      exact hfresh c hfree cmd hsub
    rcases changes_descends (step_changes hframe hin) b' hb' with hold | ⟨cmd, hcmd, ha, hkey⟩
    · exact .inl hold
    · by_cases hbound : ∃ b ∈ w.db.bindings, b.publicKey = b'.publicKey
      · exact .inl hbound
      · rw [← hkey] at hbound ⊢
        push Not at hbound
        exact .inr (hcmd ha hbound)

/-- Without other writers only an executed action changes the runtime. -/
theorem moved_runtime {w' : World} (h : Moved s w i w') (hsole : SoleWriter w i) :
    w'.runtime = w.runtime ∨
      ∃ f before x rest, w.frame = some f ∧ f.phase = .acting before (x :: rest) ∧
        w'.db = w.db ∧ w'.runtime = x.execute w.runtime := by
  cases h with
  | outside hact =>
    rw [SoleWriter, hact] at hsole
    exact hsole.elim
  | @acted answer f before x rest hact hframe hphase =>
    unfold World.execute
    split
    · cases htook : answer.took with
      | true => exact .inr ⟨f, before, x, rest, hframe, hphase, rfl, rfl⟩
      | false => exact .inl rfl
    · exact .inl rfl
  | @surveyed answer | @checked answer =>
    unfold World.observe
    cases answer.peers <;> exact .inl rfl
  | _ => exact .inl rfl

theorem pursuing_surveyed {answer : Answer} (hact : i.act = .advance answer)
    (htruth : Truthful w i) :
    Pursuing s w.db w.runtime { f with phase := afterFirstSnapshot s i.env f answer } := by
  rw [Truthful, hact] at htruth
  rcases afterFirstSnapshot_planned s i.env f answer with
    ⟨peers, before, actions, hpeers, hmap, hphase⟩ | hphase | ⟨cause, hphase⟩
  · rw [Pursuing, hphase]
    intro p hp
    rw [← htruth.1 peers hpeers] at hp
    obtain ⟨q, hq, hkey, -⟩ := (runtimeMap_ok hmap).forward p hp
    exact ⟨q, hq, hkey⟩
  · rw [Pursuing, hphase]
    trivial
  · rw [Pursuing, hphase]
    trivial

/-- Once its intents are durable, an attempt has every removal ahead of it. -/
theorem pursuing_announced {before : RuntimeMap}
    {actions : List PlannedAction} (hworking : Working s w.db.toAuthority f)
    (hinv : AuthInv s .all (announceIntents f actions w.db.toAuthority))
    (hphase : f.phase = .planned before actions) (h : Pursuing s w.db w.runtime f) :
    Pursuing s { w.db with toAuthority := announceIntents f actions w.db.toAuthority } w.runtime
      { f with phase := .acting before actions } := by
  rw [Working, hphase] at hworking
  rw [Pursuing, hphase] at h
  refine ⟨?_, fun x hx hkind => announced_announce hinv hx hkind⟩
  rintro b hb hrev ⟨p, hp, hkey⟩
  obtain ⟨q, hq, hqkey⟩ := h p hp
  have hfind : before.find b.key = some q := find_eq_some.mpr ⟨hq, hqkey.trans hkey⟩
  rw [(plan_ok hworking.2).actions]
  refine mem_append_left _ (mem_removals.mpr ⟨b, hb, hrev, ?_, rfl⟩)
  rw [hfind]
  rfl

/-- After an action an attempt still has every removal ahead of it. -/
theorem pursuing_acted {answer : Answer} {before : RuntimeMap} {rest : List PlannedAction}
    (hworking : Working s w.db.toAuthority f) (hact : i.act = .advance answer)
    (hphase : f.phase = .acting before (x :: rest)) (htruth : Truthful w i)
    (h : Pursuing s w.db w.runtime f) :
    Pursuing s (w.execute i.env f answer x).db (w.execute i.env f answer x).runtime
      { f with phase := afterAction i.env f answer before x rest } := by
  rw [Working, hphase] at hworking
  rw [Pursuing, hphase] at h
  rw [Truthful, hact] at htruth
  obtain ⟨hok, finished, hplan⟩ := hworking
  rcases afterAction_acting i.env f answer before x rest with
    ⟨hnext, hstarts, herr⟩ | hnext | ⟨cause, hnext⟩
  · rw [Pursuing, hnext]
    have hahead := ahead_execute hok hplan h.1
    unfold World.execute
    rw [if_pos hstarts, htruth.2 herr]
    exact ⟨hahead, fun y hy => h.2 y (mem_cons_of_mem _ hy)⟩
  · rw [Pursuing, hnext]
    trivial
  · rw [Pursuing, hnext]
    trivial

/-- The attempt that holds the fence after a step knows the runtime. -/
theorem moved_pursuing {w' : World} (hmoved : Moved s w i w') (h : Managed s w)
    (htruth : Truthful w i) (hsole : SoleWriter w i) :
    ∀ f', w'.frame = some f' → Pursuing s w'.db w'.runtime f' := by
  intro f' hf'
  cases hmoved with
  | idle hframe =>
    rcases hframe with rfl | rfl
    · exact h.frame f' hf'
    · cases hf'
  | outside hact =>
    rw [SoleWriter, hact] at hsole
    exact hsole.elim
  | called hact hframe =>
    rw [World.store, hframe] at hf'
    cases hf'
  | dismissed hact hframe =>
    rw [hframe] at hf'
    cases hf'
  | claimed hact hframe hclaim =>
    cases hf'
    obtain ⟨o, -, r, -, -, -, -, hcase⟩ := claim_ok hclaim
    rcases hcase with ⟨hc, -⟩ | ⟨hc, -⟩ | ⟨hc, -, -, -, rfl⟩
    · cases hc
    · cases hc
    · cases hc
      rfl
  | lapsing => cases hf'; trivial
  | @surveyed answer f hact =>
    cases hf'
    have hnext := pursuing_surveyed (s := s) (f := f) hact htruth
    unfold World.observe
    split <;> exact hnext
  | announced hact hframe hphase =>
    cases hf'
    have hworking := h.world.frame _ hframe
    have hworking' := hworking
    rw [Working, hphase] at hworking'
    have hinv := intents_inv h.world.db.authority hworking'.1
      (planned_bindings hworking'.1 hworking'.2)
    exact pursuing_announced hworking hinv hphase (h.frame _ hframe)
  | unannounced => cases hf'; trivial
  | acted hact hframe hphase =>
    cases hf'
    exact pursuing_acted (h.world.frame _ hframe) hact hphase htruth (h.frame _ hframe)
  | @checked answer f before =>
    cases hf'
    rw [Pursuing]
    rcases afterSecondSnapshot_over i.env f answer before with
      ⟨_, _, -, -, -, hnext⟩ | hnext | ⟨cause, hnext⟩
    all_goals
      rw [hnext]
      trivial
  | settled => cases hf'
  | unsettled => cases hf'; trivial
  | failed => cases hf'
  | expired => cases hf'

theorem step_managed (h : Managed s w) (htruth : Truthful w i) (hsole : SoleWriter w i)
    (hfresh : FreshKey s w i) :
    Managed s (step s w i) := by
  have hin := inScope_all s w i
  have hmoved := react_moved s w i
  have hframe := moved_pursuing hmoved h htruth hsole
  refine ⟨step_worldInv h.world hin, ?_, hframe⟩
  rcases moved_runtime hmoved hsole with hsame | ⟨f, before, x, rest, hframe, hphase, hdb, hrun⟩
  · change Provenance s (step s w i).db (react s w i).runtime
    rw [hsame]
    exact provenance_grows h.peers (step_grows h.world hin) (step_fresh h.world.frame hfresh)
  change Provenance s (react s w i).db (react s w i).runtime
  rw [hdb, hrun]
  have hworking := h.world.frame f hframe
  have hpursuing := h.frame f hframe
  rw [Working, hphase] at hworking
  rw [Pursuing, hphase] at hpursuing
  obtain ⟨hok, finished, hplan⟩ := hworking
  exact provenance_execute h.world.db hok hplan hpursuing.1 (hpursuing.2 x (by simp)) h.peers

/-! ## Plans over managed peers -/

/-- A runtime peer under a key that is not the device's stands in its way. -/
def Foreign (db : DB) (m : RuntimeMap) (d : Device) (history : List Binding) : Prop :=
  ∃ p ∈ m, obstructs d history p = true ∧
    ∀ b ∈ db.bindings, b.deviceId = d.id → b.publicKey ≠ p.publicKey

section

variable {s : Store} {sc : Scope} {db : DB} {runtime : List Peer} {m : RuntimeMap} {r : DeviceRow}

theorem planBinding_own (hinv : DBInv s sc db) (hprov : Provenance s db runtime)
    (hm : runtimeMap runtime = .ok m) :
    ∀ b ∈ bindings s db r.deviceId, planBinding s r.device m b = .ok () := by
  intro b hb
  obtain ⟨x, hx, hdev, rfl⟩ := mem_bindings.mp hb
  have hok := hinv.authority.core.bindings x hx
  have howner : (decide ((bindingOf s db x).deviceId ≠ r.device.id) ||
      decide ((bindingOf s db x).managedBy ≠ s.policy.managedBy)) = false := by
    simp [bindingOf, DeviceRow.device, hdev, hok.managed]
  have haddr : (s.policy.address (bindingOf s db x).key (bindingOf s db x).address).isOk.not =
      false := by
    change (s.policy.address x.publicKey x.address).isOk.not = false
    rw [hok.address]
    rfl
  refine deny_bind_ok.mpr ⟨howner, deny_bind_ok.mpr ⟨haddr, ?_⟩⟩
  cases hfind : m.find (bindingOf s db x).key with
  | none => rfl
  | some p =>
    obtain ⟨hp, hkey⟩ := find_eq_some.mp hfind
    obtain ⟨q, hq, hqkey, hcanon⟩ := (runtimeMap_ok hm).backward p hp
    obtain ⟨hips, hprior⟩ := hprov q hq x hx (hqkey.trans hkey).symm
    rw [hips, canonicalIPs_address hok.address] at hcanon
    have hpips : [x.address] = p.allowedIPs := Except.ok.inj hcanon
    refine deny_bind_ok.mpr ⟨?_, ?_⟩
    · change (!x.applied && !announced s db x.publicKey) = false
      rcases hprior with hprior | hprior <;> simp [hprior]
    · refine deny_ok.mpr ?_
      simp [← hpips, bindingOf]

theorem history_current (hinv : DBInv s sc db) (hr : r ∈ db.devices)
    (hkey : r.device.publicKey ≠ "") : ∃ b,
      (bindings s db r.deviceId).find? (fun b => b.key = r.device.publicKey) = some b ∧
        b.revoked = 0 ∧ b.address = r.device.address := by
  rcases (hinv.authority.core.devices r hr).current with
    ⟨hnone, -⟩ | ⟨-, b, hb, hdev, hlive, -, hcur, haddr⟩
  · exact absurd (by simp [DeviceRow.device, hnone]) hkey
  have hcur' : r.device.publicKey = b.publicKey := by simp [DeviceRow.device, hcur]
  have hmem : bindingOf s db b ∈ bindings s db r.deviceId := mem_bindings.mpr ⟨b, hb, hdev, rfl⟩
  cases hfind : (bindings s db r.deviceId).find? (fun b => b.key = r.device.publicKey) with
  | none =>
    have hmiss := List.find?_eq_none.mp hfind _ hmem
    exact absurd (by simp [bindingOf, hcur']) hmiss
  | some c =>
    have hckey : c.key = r.device.publicKey := by simpa using List.find?_some hfind
    obtain ⟨x, hx, -, rfl⟩ := mem_bindings.mp (mem_of_find?_eq_some hfind)
    cases Table.eq_of_key hx hb (hckey.trans hcur')
    exact ⟨_, rfl, hlive, by simp [bindingOf, DeviceRow.device, haddr]⟩

theorem own_not_obstructs (hinv : DBInv s sc db) (hr : r ∈ db.devices) {p : Peer} {b : BindingRow}
    (hb : b ∈ db.bindings) (hdev : b.deviceId = r.deviceId) (hkey : b.publicKey = p.publicKey) :
    obstructs r.device (bindings s db r.deviceId) p = false := by
  by_cases hlive : b.revokedGeneration = 0
  · obtain ⟨r', hr', hdev', -, -, -, hcur⟩ := (hinv.authority.core.bindings b hb).owned
    cases Table.eq_of_key hr' hr (hdev'.trans hdev)
    have hpk : p.publicKey = r.device.publicKey := by
      simp [DeviceRow.device, hcur hlive, hkey]
    simp [obstructs, hpk]
  · have hany : (bindings s db r.deviceId).any
      (fun c => c.key = p.publicKey && 0 < c.revoked) = true := by
      refine any_eq_true.mpr ⟨_, mem_bindings.mpr ⟨b, hb, hdev, rfl⟩, ?_⟩
      simp [bindingOf, hkey, Nat.pos_of_ne_zero hlive]
    simp [obstructs, hany]

/-- A plan over managed peers fails only because of a foreign peer. -/
theorem plan_foreign (hinv : DBInv s sc db) (hprov : Provenance s db runtime)
    (hm : runtimeMap runtime = .ok m) (hr : r ∈ db.devices) {e : Err}
    (he : plan s r.device (bindings s db r.deviceId) m = .error e) :
    Foreign db m r.device (bindings s db r.deviceId) := by
  by_contra hno
  have hclear : ∀ p ∈ m, obstructs r.device (bindings s db r.deviceId) p = false := by
    intro p hp
    by_contra hobs
    rw [Bool.not_eq_false] at hobs
    refine hno ⟨p, hp, hobs, fun b hb hdev hkey => ?_⟩
    rw [own_not_obstructs hinv hr hb hdev hkey] at hobs
    cases hobs
  obtain ⟨actions, hplan⟩ := plan_total (planBinding_own hinv hprov hm)
    (fun _ hkey => history_current hinv hr hkey) fun _ _ => hclear
  cases hplan.symm.trans he

end

/-- In every run with a truthful executor that is the only writer, where keys
are absent from the runtime when they are first bound, every peer under a bound
key has exactly the binding's address and a durable provenance; so no plan, for
any device or for the attempt that holds the fence, ever fails because of the
device's own keys. -/
theorem run_provenance (s : Store) (runtime : List Peer) (time : ℤ) (inputs : List Input)
    (htruth : Along (step s) Truthful (init s runtime time) inputs)
    (hsole : Along (step s) SoleWriter (init s runtime time) inputs)
    (hfresh : Along (step s) (FreshKey s) (init s runtime time) inputs) :
    ∀ v ∈ visited (step s) (init s runtime time) inputs,
      (∀ p ∈ v.runtime, ∀ b ∈ v.db.bindings, b.publicKey = p.publicKey →
        p.allowedIPs = [b.address] ∧ (b.applied = true ∨ announced s v.db b.publicKey = true)) ∧
      ∀ m, runtimeMap v.runtime = .ok m →
        (∀ r ∈ v.db.devices, ∀ e, plan s r.device (bindings s v.db r.deviceId) m = .error e →
          Foreign v.db m r.device (bindings s v.db r.deviceId)) ∧
        ∀ f, v.frame = some f → f.phase = .claimed → ∀ e, plan s f.device f.history m = .error e →
          Foreign v.db m f.device f.history := by
  intro v hv
  have hmanaged : Managed s v := visited_invariant (Managed s)
    (fun w i h hok => step_managed h hok.1 hok.2.1 hok.2.2)
    ⟨init_worldInv s .all runtime time, fun p _ b hb => absurd hb (not_mem_empty b), nofun⟩
    (along_and htruth (along_and hsole hfresh)) v hv
  refine ⟨hmanaged.peers, fun m hm => ⟨fun r hr e he => ?_, fun f hf hphase e he => ?_⟩⟩
  · exact plan_foreign hmanaged.world.db hmanaged.peers hm hr he
  have hworking := hmanaged.world.frame f hf
  have hhistory := hmanaged.frame f hf
  rw [Working, hphase] at hworking
  rw [Pursuing, hphase] at hhistory
  obtain ⟨r, hr, hd⟩ := hworking.device
  have hid : r.deviceId = f.device.id := by rw [← hd]; rfl
  rw [hhistory, ← hid, ← hd] at he ⊢
  exact plan_foreign hmanaged.world.db hmanaged.peers hm hr he

/-- The peer of a launch whose acknowledgement was lost is announced. -/
theorem run_provenance_launch :
    ∃ b ∈ (run (step sampleStore) (init sampleStore [] 0) sampleLaunch).db.bindings,
      ⟨b.publicKey, [b.address]⟩ ∈
        (run (step sampleStore) (init sampleStore [] 0) sampleLaunch).runtime ∧
      b.applied = false ∧ announced sampleStore
        (run (step sampleStore) (init sampleStore [] 0) sampleLaunch).db b.publicKey = true := by
  have hpeers := (run_provenance sampleStore [] 0 sampleLaunch (by decide +kernel)
    (by decide +kernel) (by decide +kernel) _
    (append_nil sampleLaunch ▸ run_mem_visited _ sampleLaunch [])).1
  have hbound : ∃ b ∈ (run (step sampleStore) (init sampleStore [] 0) sampleLaunch).db.bindings,
      ⟨b.publicKey, [b.address]⟩ ∈
        (run (step sampleStore) (init sampleStore [] 0) sampleLaunch).runtime ∧
      b.applied = false := by decide +kernel
  obtain ⟨b, hb, hp, hfalse⟩ := hbound
  obtain ⟨-, htrue | hann⟩ := hpeers _ hp b hb rfl
  · cases hfalse.symm.trans htrue
  · exact ⟨b, hb, hp, hfalse, hann⟩

end DaxiangVpn.DeviceAuthProvenance
