import DaxiangVpn.DeviceAuthMoves

/-!
# Revoked keys and devices stay out

A revoked binding keeps its key for good. The key is never current again, and no
apply that starts later carries it, whichever operation is processed: the plan of
an attempt only applies an unrevoked key of the history, and the history is the
bindings of the database as long as the attempt holds the fence.
-/

namespace DaxiangVpn.DeviceAuthResurrection

open RelationTable DeviceAuthTables DeviceAuthProcess DeviceAuthWorld DeviceAuthChanges
open DeviceAuthFrames DeviceAuthGrowth DeviceAuthRegistry DeviceAuthMoves TransitionRun

/-- The key has been revoked. -/
def Gone (db : DB) (key : String) : Prop :=
  ∃ b ∈ db.bindings, b.publicKey = key ∧ 0 < b.revokedGeneration

variable {db : DB} {s : Store}

variable {key : String}

theorem gone_grows {db' : DB} (hg : Grows db db') (h : Gone db key) : Gone db' key := by
  obtain ⟨b, hb, hkey, hrev⟩ := h
  obtain ⟨b', hb', hgrow⟩ := hg.authority.bindings b hb
  have hrev' : b'.revokedGeneration = b.revokedGeneration := hgrow.revoked.resolve_left hrev.ne'
  exact ⟨b', hb', hgrow.same.1.trans hkey, hrev'.symm ▸ hrev⟩

theorem gone_ne (h : Gone db key) {b : BindingRow}
    (hb : b ∈ db.bindings) (hlive : b.revokedGeneration = 0) : b.publicKey ≠ key := by
  intro hkey
  obtain ⟨b', hb', hkey', hrev⟩ := h
  cases Table.eq_of_key hb' hb (hkey'.trans hkey.symm)
  omega

theorem gone_not_current {sc : Scope} (hinv : DBInv s sc db)
    (h : Gone db key) : ∀ r ∈ db.devices, r.currentKey ≠ some key := by
  intro r hr hcur
  rcases (hinv.authority.core.devices r hr).current with ⟨hnone, -⟩ | ⟨-, b, hb, -,
    hlive, -, hkey, -⟩
  · cases hcur.symm.trans hnone
  · rw [hcur] at hkey
    exact gone_ne h hb hlive (Option.some.inj hkey).symm

/-- An attempt that holds the fence plans no apply of a revoked key. -/
theorem gone_not_planned {f : Frame} {before : RuntimeMap} {actions : List PlannedAction}
    (hok : FrameOk s db.toAuthority f) (hplan : plan s f.device f.history before = .ok actions)
    (h : Gone db key) {x : PlannedAction} (hx : x ∈ actions) (hkind : x.kind = .apply) :
    x.key ≠ key := by
  obtain ⟨b, hb, hkey, -, hlive, -⟩ := (plan_ok hplan).mem_history hx
  obtain ⟨y, hy, -, hykey, -, hyrev⟩ := hok.history_sound b hb
  rw [← hkey, ← hykey]
  exact gone_ne h hy (hyrev.trans (hlive hkind).1)

theorem step_gone {w : World} {i : Input} (hframe : FrameInv s w) (h : Gone w.db key) :
    ∃ new, (step s w i).log = new ++ w.log ∧ ∀ address, Event.applied key address ∉ new := by
  have hmove : ∀ w', Moved s w i w' →
      ∃ new, w'.log = new ++ w.log ∧ ∀ address, Event.applied key address ∉ new := by
    intro w' hmoved
    cases hmoved with
    | idle | outside | announced | unannounced | unsettled | failed => exact ⟨[], rfl, by simp⟩
    | called | expired =>
      refine ⟨_, rfl, fun address hmem => ?_⟩
      obtain ⟨o, -, heq⟩ := mem_commits hmem
      cases heq
    | dismissed | claimed | lapsing =>
      refine ⟨_, rfl, fun address hmem => ?_⟩
      obtain ⟨o, -, -, heq⟩ := mem_attempts hmem
      cases heq
    | settled => exact ⟨[_], rfl, by simp⟩
    | @surveyed answer | @checked answer =>
      unfold World.observe
      cases answer.peers with
      | none => exact ⟨[], rfl, by simp⟩
      | some => exact ⟨[_], rfl, by simp⟩
    | @acted answer f before x rest hact hf hphase =>
      have hworking := hframe f hf
      rw [Working, hphase] at hworking
      obtain ⟨hok, finished, hplan⟩ := hworking
      unfold World.execute
      split
      · refine ⟨[callEvent x], rfl, fun address hmem => ?_⟩
        have heq := List.mem_singleton.mp hmem
        unfold callEvent at heq
        cases hkind : x.kind with
        | apply =>
          rw [hkind] at heq
          have hne : x.key ≠ key := gone_not_planned hok hplan h (by simp) hkind
          exact hne (Event.applied.inj heq).1.symm
        | remove =>
          rw [hkind] at heq
          cases heq
      · exact ⟨[], rfl, by simp⟩
  exact hmove (react s w i) (react_moved s w i)

/-- A whole run starts no apply of a key that was revoked before it. -/
theorem run_gone {w : World} (hinv : WorldInv s .all w) (h : Gone w.db key) (later : List Input) :
    ∃ new, (run (step s) w later).log = new ++ w.log ∧
    ∀ address, Event.applied key address ∉ new := by
  induction later generalizing w with
  | nil => exact ⟨[], rfl, by simp⟩
  | cons i rest ih =>
    have hin := inScope_all s w i
    obtain ⟨new, hlog, hnone⟩ := step_gone (i := i) hinv.frame h
    obtain ⟨newer, hlog', hnone'⟩ :=
      ih (step_worldInv hinv hin) (gone_grows (step_grows hinv hin) h)
    refine ⟨newer ++ new, ?_, fun address hmem => ?_⟩
    · rw [run_cons, hlog', hlog, List.append_assoc]
    · rcases List.mem_append.mp hmem with hmem | hmem
      · exact hnone' address hmem
      · exact hnone address hmem

theorem inactive_no_key {sc : Scope} (hinv : DBInv s sc db) {r : DeviceRow}
    (hr : r ∈ db.devices) (hstate : r.state ≠ .active) : r.currentKey = none := by
  rcases (hinv.authority.core.devices r hr).current with ⟨hnone, -⟩ | ⟨hactive, -⟩
  · exact hnone
  · exact absurd hactive hstate

/-- In every run, a revoked key is never current again and no later apply carries
it; a device that has left the active state never returns to it nor gets a key
again; and a revoked device stays revoked. -/
theorem run_no_resurrection (s : Store) (runtime : List Peer) (time : ℤ)
    (first later : List Input) :
    let w := run (step s) (init s runtime time) first
    let w' := run (step s) w later
    (∀ b ∈ w.db.bindings, 0 < b.revokedGeneration →
    (∀ r ∈ w'.db.devices, r.currentKey ≠ some b.publicKey) ∧
        ∃ new, w'.log = new ++ w.log ∧ ∀ address, Event.applied b.publicKey address ∉ new) ∧
      ∀ r ∈ w.db.devices, r.state ≠ .active → ∃ r' ∈ w'.db.devices, r'.deviceId = r.deviceId ∧
        r'.state ≠ .active ∧ r'.currentKey = none ∧ (r.state = .revoked → r'.state = .revoked) := by
  intro w w'
  have hw : WorldInv s .all w := run_worldInv (init_worldInv s .all runtime time)
    (along_all s _ first)
  have hw' : WorldInv s .all w' := run_worldInv hw (along_all s w later)
  have hg : Grows w.db w'.db := run_grows hw (along_all s w later)
  refine ⟨fun b hb hrev => ?_, fun r hr hstate => ?_⟩
  · have hgone : Gone w.db b.publicKey := ⟨b, hb, rfl, hrev⟩
    exact ⟨gone_not_current hw'.db (gone_grows hg hgone), run_gone hw hgone later⟩
  · obtain ⟨r', hr', hgrow⟩ := hg.authority.devices r hr
    have hstate' : r'.state ≠ .active := hgrow.left hstate
    exact ⟨r', hr', hgrow.same.1, hstate', inactive_no_key hw'.db hr' hstate', hgrow.revoked⟩

end DaxiangVpn.DeviceAuthResurrection
