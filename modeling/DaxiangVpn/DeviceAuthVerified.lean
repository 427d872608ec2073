import DaxiangVpn.DeviceAuthMoves

/-!
# Applied means verified

A generation counts as applied, and a tombstone as verified, only after a
snapshot that was taken later than the commit and that showed no revoked key of
the device and the key of an apply with its one address.
Every other change leaves both columns alone, and what it revokes belongs to a
generation that is newer than anything applied.
-/

namespace DaxiangVpn.DeviceAuthVerified

open CheckedSteps DeviceAuthPolicy RelationTable DeviceAuthTables DeviceAuthSubmit List
open DeviceAuthCredentials DeviceAuthProcess DeviceAuthWorld DeviceAuthChanges DeviceAuthSteps
open DeviceAuthFrames DeviceAuthGrowth DeviceAuthInvariant DeviceAuthGenerations
  DeviceAuthMoves TransitionRun

/-! ## Observations -/

/-- After the generation of the device was committed, a snapshot of the true
runtime satisfied the condition. -/
def Observed (log : List Event) (device : String) (generation : ℕ) (P : List Peer → Prop) : Prop :=
  ∃ newer peers older, log = newer ++ .snapshot peers peers :: older ∧
    .committed device generation ∈ older ∧ P peers

/-- No key of the device that was revoked up to the generation is a peer, and
the key of an apply is. -/
structure Verified (a : Authority) (device : String) (generation : ℕ) (peers : List Peer) :
    Prop where
  absent : ∀ b ∈ a.bindings, b.deviceId = device → 0 < b.revokedGeneration →
    b.revokedGeneration ≤ generation → Absent b.publicKey peers
  present : ∀ o ∈ a.operations, o.deviceId = device → o.generation = generation →
    o.action = .apply → ∃ b ∈ a.bindings, b.deviceId = device ∧ b.createdGeneration = generation ∧
      b.publicKey = o.request.publicKey ∧ Present b.publicKey b.address peers

variable {log : List Event} {a a' : Authority} {id : String} {s : Store} {db : DB} {w : World}
  {op : Operation}
  {env : Env} {r : SignedRequest}

/-- An observation stays in a longer record, for any weaker condition. -/
theorem Observed.mono {new : List Event} {device : String} {generation : ℕ}
    {P Q : List Peer → Prop} (h : Observed log device generation P)
    (himp : ∀ peers, P peers → Q peers) : Observed (new ++ log) device generation Q := by
  obtain ⟨newer, peers, older, rfl, hmem, hp⟩ := h
  exact ⟨new ++ newer, peers, older, by rw [append_assoc], hmem, himp peers hp⟩

/-! ## Changes that verify nothing -/

/-- A change that verifies nothing: what it revokes or adds is newer than the
devices were. -/
structure Quiet (a a' : Authority) : Prop where
  /-- Devices stay, and their generations grow. -/
  devices : ∀ r ∈ a.devices, ∃ r' ∈ a'.devices, r'.deviceId = r.deviceId ∧
    r.generation ≤ r'.generation
  /-- A revocation was there or is newer than the device. -/
  revoked : ∀ b' ∈ a'.bindings, 0 < b'.revokedGeneration →
    (∃ b ∈ a.bindings, b.publicKey = b'.publicKey ∧ b.deviceId = b'.deviceId ∧
        b.revokedGeneration = b'.revokedGeneration) ∨
      ∀ r ∈ a.devices, r.deviceId = b'.deviceId → r.generation < b'.revokedGeneration
  /-- An operation was there or is newer than the device. -/
  operations : ∀ o ∈ a'.operations, o ∈ a.operations ∨
    ∀ r ∈ a.devices, r.deviceId = o.deviceId → r.generation < o.generation
  applied : ∀ r' ∈ a'.devices, 0 < r'.appliedGeneration →
    ∃ r ∈ a.devices, r.deviceId = r'.deviceId ∧ r.appliedGeneration = r'.appliedGeneration
  verified : ∀ t ∈ a'.tombstones, t.verifiedAt ≠ none → t ∈ a.tombstones

theorem Quiet.refl (a : Authority) : Quiet a a where
  devices := fun r hr => ⟨r, hr, rfl, le_rfl⟩
  revoked := fun b hb _ => .inl ⟨b, hb, rfl, rfl, rfl⟩
  operations := fun _ ho => .inl ho
  applied := fun r hr _ => ⟨r, hr, rfl, rfl⟩
  verified := fun _ ht _ => ht

/-- What is newer than the devices later on is newer than they were before. -/
theorem Quiet.newer {b : Authority} (h : Quiet a b) {device : String} {g : ℕ}
    (hnew : ∀ r ∈ b.devices, r.deviceId = device → r.generation < g) :
    ∀ r ∈ a.devices, r.deviceId = device → r.generation < g := by
  intro r hr hid
  obtain ⟨r', hr', hid', hle⟩ := h.devices r hr
  exact hle.trans_lt (hnew r' hr' (hid'.trans hid))

/-- Changes that verify nothing compose. -/
theorem Quiet.trans {b c : Authority} (h : Quiet a b) (h' : Quiet b c) : Quiet a c where
  devices := by
    intro r hr
    obtain ⟨r', hr', hid, hle⟩ := h.devices r hr
    obtain ⟨r'', hr'', hid', hle'⟩ := h'.devices r' hr'
    exact ⟨r'', hr'', hid'.trans hid, hle.trans hle'⟩
  revoked := by
    intro x hx hpos
    rcases h'.revoked x hx hpos with ⟨y, hy, hkey, hdev, hrev⟩ | hnew
    · rcases h.revoked y hy (hrev.symm ▸ hpos) with ⟨z, hz, hkey', hdev', hrev'⟩ | hnew
      · exact .inl ⟨z, hz, hkey'.trans hkey, hdev'.trans hdev, hrev'.trans hrev⟩
      · rw [hdev, hrev] at hnew
        exact .inr hnew
    · exact .inr (h.newer hnew)
  operations := by
    intro o ho
    rcases h'.operations o ho with ho | hnew
    · exact h.operations o ho
    · exact .inr (h.newer hnew)
  applied := by
    intro r hr hpos
    obtain ⟨r', hr', hid, happ⟩ := h'.applied r hr hpos
    obtain ⟨r'', hr'', hid', happ'⟩ := h.applied r' hr' (happ.symm ▸ hpos)
    exact ⟨r'', hr'', hid'.trans hid, happ'.trans happ⟩
  verified := fun t ht hv => h.verified t (h'.verified t ht hv) hv

theorem quiet_enroll {owner : String} {validUntil : ℤ} {t : Table DeviceRow.deviceId}
    (h : a.devices.insert (freshDevice id owner validUntil) = some t) :
    Quiet a { a with devices := t } :=
  { Quiet.refl a with
    devices := fun r hr => ⟨r, (mem_of_insert h r).mpr (.inl hr), rfl, le_rfl⟩
    applied := by
      intro r' hr' hpos
      rcases (mem_of_insert h r').mp hr' with hr | rfl
      · exact ⟨r', hr, rfl, rfl⟩
      · exact absurd hpos (Nat.lt_irrefl 0) }

/-- A new generation verifies nothing. -/
theorem quiet_commit {now : ℤ} {cmd : Command} {r : DeviceRow}
    (h : Committed s now id cmd r.device a a') (hr : r ∈ a.devices) : Quiet a a' where
  devices := by
    intro x hx
    by_cases hk : x.deviceId = r.deviceId
    · cases Table.eq_of_key hx hr hk
      exact ⟨_, (mem_commit_devices h hr).mpr (.inr rfl), rfl, Nat.le_succ _⟩
    · exact ⟨x, (mem_commit_devices h hr).mpr (.inl ⟨hx, hk⟩), rfl, le_rfl⟩
  revoked := by
    intro b' hb' hpos
    rcases (mem_commit_bindings h).mp hb' with ⟨b, hb, rfl⟩ | ⟨-, rfl⟩
    · unfold revokeBinding
      split_ifs with hlive
      · refine .inr fun x hx hid => ?_
        cases Table.eq_of_key hx hr (hid.trans hlive.1)
        exact Nat.lt_succ_self _
      · exact .inl ⟨b, hb, rfl, rfl, rfl⟩
    · exact absurd hpos (Nat.lt_irrefl 0)
  operations := by
    intro o ho
    rcases (mem_commit_operations h).mp ho with ho | rfl
    · exact .inl ho
    · refine .inr fun x hx hid => ?_
      cases Table.eq_of_key hx hr hid
      exact Nat.lt_succ_self _
  applied := by
    intro r' hr' _
    rcases (mem_commit_devices h hr).mp hr' with ⟨hr', -⟩ | rfl
    · exact ⟨r', hr', rfl, rfl⟩
    · exact ⟨r, hr, rfl, rfl⟩
  verified := by
    intro t ht hv
    rcases (h.tombstones t).mp ht with ht | ht
    · exact ht
    · obtain ⟨b, -, rfl⟩ := mem_map.mp ht
      exact absurd rfl hv

/-- A sequence of changes without a verified result verifies nothing. -/
theorem changes_quiet {sc : Scope} (hsc : ∀ a f, ¬ sc.settles a f) {db' : DB}
    (h : Changes s sc db db') : Quiet db.toAuthority db'.toAuthority := by
  induction h with
  | refl => exact Quiet.refl _
  | tail _ hlast ih =>
    refine ih.trans ?_
    cases hlast with
    | registry => exact Quiet.refl _
    | activate hact hfree hnow hlater hroom hkey hfresh hacc hdev => exact quiet_enroll hdev
    | authority h =>
      cases h with
      | enroll hnow hid howner hlater hyear hroom h => exact quiet_enroll h
      | commit hnow hr hid howner hactive hcmd hscope hnew h => exact quiet_commit h hr
      | mark | supersede | claim | intents => exact { Quiet.refl _ with }
      | result hnow hf hsettles => exact absurd hsettles (hsc _ _)

/-! ## Certified tables -/

/-- What the record of the past says about the tables. -/
structure Certified (log : List Event) (a : Authority) : Prop where
  logged : ∀ o ∈ a.operations, .committed o.deviceId o.generation ∈ log
  /-- Every applied generation was verified by a later snapshot. -/
  applied : ∀ r ∈ a.devices, 0 < r.appliedGeneration →
    Observed log r.deviceId r.appliedGeneration (Verified a r.deviceId r.appliedGeneration)
  /-- The key of every verified tombstone was absent from a later snapshot. -/
  buried : ∀ t ∈ a.tombstones, t.verifiedAt ≠ none → ∃ b ∈ a.bindings,
    b.publicKey = t.publicKey ∧ b.revokedGeneration = t.generation ∧
      Observed log b.deviceId t.generation (Absent t.publicKey)

/-- A verified generation stays verified while revocations and operations are newer. -/
theorem verified_quiet (hg : AuthGrows a a') (hq : Quiet a a') {r : DeviceRow}
    (hr : r ∈ a.devices) {g : ℕ} (hg' : g ≤ r.generation) {peers : List Peer}
    (h : Verified a r.deviceId g peers) : Verified a' r.deviceId g peers where
  absent := by
    intro b' hb' hdev hpos hle
    rcases hq.revoked b' hb' hpos with ⟨b, hb, hkey, hbdev, hrev⟩ | hnew
    · rw [← hkey]
      exact h.absent b hb (hbdev.trans hdev) (hrev.symm ▸ hpos) (hrev.le.trans hle)
    · have hlt := hnew r hr hdev.symm
      omega
  present := by
    intro o ho hdev hgen ha
    rcases hq.operations o ho with ho | hnew
    · obtain ⟨b, hb, hbdev, hcre, hkey, hpres⟩ := h.present o ho hdev hgen ha
      obtain ⟨b', hb', hgrow⟩ := hg.bindings b hb
      obtain ⟨h1, h2, h3, -, h5⟩ := hgrow.same
      refine ⟨b', hb', h2.trans hbdev, h5.trans hcre, h1.trans hkey, ?_⟩
      rw [h1, h3]
      exact hpres
    · have hlt := hnew r hr hdev.symm
      omega

theorem buried_grows (hg : AuthGrows a a') {new : List Event} {t : TombstoneRow}
    (hpos : 0 < t.generation)
    (h : ∃ b ∈ a.bindings, b.publicKey = t.publicKey ∧ b.revokedGeneration = t.generation ∧
      Observed log b.deviceId t.generation (Absent t.publicKey)) :
    ∃ b ∈ a'.bindings, b.publicKey = t.publicKey ∧ b.revokedGeneration = t.generation ∧
      Observed (new ++ log) b.deviceId t.generation (Absent t.publicKey) := by
  obtain ⟨b, hb, hkey, hrev, hobs⟩ := h
  obtain ⟨b', hb', hgrow⟩ := hg.bindings b hb
  have hrev' : b'.revokedGeneration = b.revokedGeneration := hgrow.revoked.resolve_left (by omega)
  refine ⟨b', hb', hgrow.same.1.trans hkey, hrev'.trans hrev, ?_⟩
  rw [hgrow.same.2.1]
  exact hobs.mono fun _ hp => hp

/-- Certified tables stay certified over changes that verify nothing. -/
theorem certified_quiet {sc : Scope} (hinv : AuthInv s sc a) (hg : AuthGrows a a') (hq : Quiet a a')
    {new : List Event} (h : Certified log a)
    (hlogged : ∀ o ∈ a'.operations, .committed o.deviceId o.generation ∈ new ++ log) :
    Certified (new ++ log) a' where
  logged := hlogged
  applied := by
    intro r' hr' hpos
    obtain ⟨r, hr, hid, happ⟩ := hq.applied r' hr' hpos
    rw [← hid, ← happ]
    exact (h.applied r hr (happ.symm ▸ hpos)).mono fun peers hp =>
      verified_quiet hg hq hr (hinv.core.devices r hr).applied hp
  buried := by
    intro t ht hv
    have hold := hq.verified t ht hv
    exact buried_grows hg (hinv.core.tombstones t hold).positive (h.buried t hold hv)

/-! ## Verified results -/

/-- A snapshot that shows none of the attempt's revoked keys and its current one. -/
structure Cleared (f : Frame) (peers : List Peer) : Prop where
  absent : ∀ b ∈ f.history, 0 < b.revoked → Absent b.key peers
  present : f.device.state = .active → f.device.publicKey ≠ "" →
    Present f.device.publicKey f.device.address peers

theorem cleared_of_verify {f : Frame} {before after : RuntimeMap} {peers : List Peer}
    (hmap : runtimeMap peers = .ok after)
    (h : verify f.device f.history before after = .ok ()) : Cleared f peers := by
  obtain ⟨hgone, h⟩ := deny_bind_ok.mp h
  obtain ⟨hcur, -⟩ := deny_bind_ok.mp h
  have hmapped := runtimeMap_ok hmap
  constructor
  · intro b hb hpos
    refine hmapped.absent.mp ?_
    have hnot := any_eq_false.mp hgone b hb
    simpa [hpos] using hnot
  · intro hactive hne
    simp only [decide_eq_false_iff_not, hactive, hne, ne_eq, not_false_eq_true, true_and,
      not_not] at hcur
    exact hmapped.present.mp hcur

section

variable {s : Store} {sc : Scope} {a : Authority} {f : Frame} {log : List Event} {now : ℤ}

theorem settle_revoked {b' : BindingRow} (hb' : b' ∈ (settle f now a).bindings) : ∃ b ∈ a.bindings,
    b.publicKey = b'.publicKey ∧ b.deviceId = b'.deviceId ∧
    b.revokedGeneration = b'.revokedGeneration := by
  obtain ⟨b, hb, rfl⟩ := mem_settle_bindings.mp hb'
  obtain ⟨h1, h2, -, -, -, h6⟩ := settleBinding_same f.device b
  exact ⟨b, hb, h1.symm, h2.symm, h6.symm⟩

/-- A clear snapshot verifies the generation that the attempt works on. -/
theorem verified_of_cleared (hinv : AuthInv s sc a) (hf : FrameOk s a f) {r : DeviceRow}
    (hr : r ∈ a.devices) (hd : r.device = f.device) {peers : List Peer} (h : Cleared f peers) :
    Verified (settle f now a) r.deviceId r.generation peers where
  absent := by
    intro b' hb' hdev hpos _
    obtain ⟨b, hb, hkey, hbdev, hrev⟩ := settle_revoked hb'
    have hid : b.deviceId = f.device.id := by
      rw [← hd]
      exact hbdev.trans hdev
    obtain ⟨x, hx, hxkey, -, hxrev⟩ := hf.history_full b hb hid
    rw [← hkey, hxkey]
    exact h.absent x hx (by omega)
  present := by
    intro o ho hdev hgen ha
    have hok := hinv.core.devices r hr
    obtain ⟨o', ho', hdev', hgen', hlatest⟩ :=
      hok.history r.generation (hgen ▸ (hinv.core.operations o ho).owned.1) le_rfl
    cases hinv.core.unique o ho o' ho' (hdev.trans hdev'.symm) (hgen.trans hgen'.symm)
    obtain ⟨hactive, hkey, -⟩ := (hlatest rfl).apply ha
    rcases hok.current with ⟨hnone, -⟩ | ⟨-, b, hb, hbdev, -, hcre, hbkey, hbaddr⟩
    · cases hkey.symm.trans hnone
    obtain ⟨h1, h2, h3, -, h5, -⟩ := settleBinding_same f.device b
    refine ⟨_, mem_settle_bindings.mpr ⟨b, hb, rfl⟩, h2.trans hbdev, h5.trans hcre, ?_, ?_⟩
    · rw [h1]
      exact Option.some.inj (hbkey.symm.trans hkey)
    have hpub : f.device.publicKey = b.publicKey := by simp [← hd, DeviceRow.device, hbkey]
    have haddr : f.device.address = b.address := by simp [← hd, DeviceRow.device, hbaddr]
    have hne : b.publicKey ≠ "" := by
      intro hempty
      have hvalid := (hinv.core.bindings b hb).key
      rw [hempty] at hvalid
      exact absurd hvalid (by decide)
    rw [h1, h3, ← hpub, ← haddr]
    exact h.present (by rw [← hd]; exact hactive) (hpub ▸ hne)

/-- Certified tables stay certified over a verified result. -/
theorem certified_settle (hinv : AuthInv s sc a) (hf : FrameOk s a f) (h : Certified log a)
    (hseen : ∀ o ∈ a.operations, o.deviceId = f.device.id →
    Observed log o.deviceId o.generation (Cleared f))
    (new : List Event) : Certified (new ++ log) (settle f now a) := by
  have hg := result_grows hinv hf now
  obtain ⟨r, hr, hd⟩ := hf.device
  have hid : r.deviceId = f.device.id := by rw [← hd]; rfl
  have hcommit : ∀ g, 0 < g → g ≤ r.generation → Observed log r.deviceId g (Cleared f) := by
    intro g hpos hle
    obtain ⟨o, ho, hdev, hgen, -⟩ := (hinv.core.devices r hr).history g hpos hle
    have hobs := hseen o ho (hdev.trans hid)
    rwa [hdev, hgen] at hobs
  refine ⟨fun o ho => mem_append_right _ (h.logged o ho), ?_, ?_⟩
  · intro x hx hpos
    rcases (mem_settle_devices hr hd).mp hx with ⟨hx, -⟩ | rfl
    · refine (h.applied x hx hpos).mono fun peers hp => ⟨?_, ?_⟩
      · intro b' hb' hdev hrpos hle
        obtain ⟨b, hb, hkey, hbdev, hrev⟩ := settle_revoked hb'
        rw [← hkey]
        exact hp.absent b hb (hbdev.trans hdev) (hrev.symm ▸ hrpos) (hrev.le.trans hle)
      · intro o ho hdev hgen ha
        obtain ⟨b, hb, hbdev, hcre, hkey, hpres⟩ := hp.present o ho hdev hgen ha
        obtain ⟨h1, h2, h3, -, h5, -⟩ := settleBinding_same f.device b
        refine ⟨_, mem_settle_bindings.mpr ⟨b, hb, rfl⟩, h2.trans hbdev, h5.trans hcre,
          h1.trans hkey, ?_⟩
        rw [h1, h3]
        exact hpres
    · exact (hcommit r.generation hpos le_rfl).mono fun peers hp =>
        verified_of_cleared hinv hf hr hd hp
  · intro t ht hv
    dsimp only [settle] at ht
    obtain ⟨t₀, ht₀, rfl⟩ := mem_update.mp ht
    have hgrave := hinv.core.tombstones t₀ ht₀
    split at hv
    · rename_i hp
      rw [if_pos hp]
      simp only [Bool.and_eq_true, decide_eq_true_eq, has_eq_true] at hp
      obtain ⟨b, hb, hkey, hdev⟩ := hp.2
      obtain ⟨b₀, hb₀, hkey₀, hrev⟩ := hgrave.grave
      cases Table.eq_of_key hb hb₀ (hkey.trans hkey₀.symm)
      obtain ⟨r', hr', hdev', -, hle, -⟩ := (hinv.core.bindings b hb).owned
      cases Table.eq_of_key hr hr' (hid.trans (hdev.symm.trans hdev'.symm))
      obtain ⟨x, hx, hxkey, -, hxrev⟩ := hf.history_full b hb hdev
      have hpos := hgrave.positive
      have hobs : Observed (new ++ log) b.deviceId t₀.generation (Absent t₀.publicKey) := by
        rw [← hdev', ← hkey₀, hxkey]
        exact (hcommit _ hpos (hrev ▸ hle)).mono fun peers hc => hc.absent x hx (by omega)
      obtain ⟨h1, h2, -, -, -, h6⟩ := settleBinding_same f.device b
      refine ⟨_, mem_settle_bindings.mpr ⟨b, hb, rfl⟩, h1.trans hkey₀, h6.trans hrev, ?_⟩
      rw [h2]
      exact hobs
    · rename_i hp
      rw [if_neg hp]
      exact buried_grows hg hgrave.positive (h.buried t₀ ht₀ hv)

end

/-! ## Runs -/

/-- The world's columns and its fence holder are backed by the record. -/
structure Attested (s : Store) (w : World) : Prop where
  world : WorldInv s .all w
  tables : Certified w.log w.db.toAuthority
  /-- An attempt that is about to persist its result has seen a clear snapshot
  after every commit of its device. -/
  frame : ∀ f, w.frame = some f → f.phase = .verified → ∀ o ∈ w.db.operations,
    o.deviceId = f.device.id → Observed w.log o.deviceId o.generation (Cleared f)

theorem step_logged (i : Input) (h : Attested s w) :
    ∀ o ∈ (step s w i).db.operations, .committed o.deviceId o.generation ∈ (step s w i).log := by
  intro o ho
  obtain ⟨new, hnew⟩ := step_log s w i
  rcases moved_operations (react_moved s w i) with hsame | hlog
  · rw [hnew]
    exact mem_append_right _ (h.tables.logged o (hsame ▸ ho))
  obtain ⟨extra, hextra⟩ := (step_grows h.world (inScope_all s w i)).authority.operations
  have hrows : o ∈ w.db.operations.rows ++ extra := by
    rw [hextra]
    exact ho
  change .committed o.deviceId o.generation ∈ (react s w i).log
  rw [hlog, mem_append]
  rcases mem_append.mp hrows with hold | hadd
  · exact .inr (h.tables.logged o hold)
  · refine .inl (mem_reverse.mpr (mem_map.mpr ⟨o, ?_, rfl⟩))
    change o ∈ (step s w i).db.operations.rows.drop _
    rw [← hextra, drop_left]
    exact hadd

theorem step_certified {i : Input} (h : Attested s w) :
    Certified (step s w i).log (step s w i).db.toAuthority := by
  have hlogged := step_logged i h
  obtain ⟨new, hnew⟩ := step_log s w i
  rw [hnew] at hlogged ⊢
  by_cases hsettles : ∃ answer f, i.act = .advance answer ∧ w.frame = some f ∧ f.phase = .verified
  · obtain ⟨answer, f, hact, hf, hphase⟩ := hsettles
    have hworking := h.world.frame f hf
    rw [Working, hphase] at hworking
    refine maybe_rule (P := fun db => Certified (new ++ w.log) db.toAuthority)
      (step_result hact hf hphase) ?_ fun _ hbody => ?_
    · exact certified_quiet h.world.db.authority (AuthGrows.refl _) (Quiet.refl _) h.tables
        fun o ho => mem_append_right _ (h.tables.logged o ho)
    · rw [persistResult_ok hbody]
      exact certified_settle h.world.db.authority hworking h.tables (h.frame f hf hphase) new
  · let sc : Scope := ⟨fun _ => True, fun _ => True, fun _ _ => True, fun _ _ => False⟩
    have hin : InScope s sc w i := by
      refine ⟨fun _ => trivial, fun _ _ _ _ => trivial, fun _ _ _ _ => trivial,
        fun _ _ => trivial, ?_⟩
      exact fun answer hact f hf hphase => hsettles ⟨answer, f, hact, hf, hphase⟩
    have hquiet := changes_quiet (fun _ _ => id) (step_changes h.world.frame hin)
    have hgrows := (step_grows h.world (inScope_all s w i)).authority
    exact certified_quiet h.world.db.authority hgrows hquiet h.tables hlogged

/-- An attempt that is about to persist its result after a step has seen a clear snapshot. -/
theorem moved_cleared {w' : World} {i : Input} (hmoved : Moved s w i w') (h : Attested s w)
    (htruth : TrueSnapshot w i) :
    ∀ f', w'.frame = some f' → f'.phase = .verified → ∀ o ∈ w'.db.operations, o.deviceId =
      f'.device.id → Observed w'.log o.deviceId o.generation (Cleared f') := by
  intro f' hf' hphase'
  cases hmoved with
  | idle hframe =>
    rcases hframe with rfl | rfl
    · exact h.frame f' hf' hphase'
    · cases hf'
  | outside => exact h.frame f' hf' hphase'
  | called hact hframe => rw [World.store, hframe] at hf'; cases hf'
  | dismissed hact hframe => dsimp only at hf'; rw [hframe] at hf'; cases hf'
  | claimed hact hframe hclaim =>
    cases hf'
    obtain ⟨o, -, r, -, -, -, -, hcase⟩ := claim_ok hclaim
    rcases hcase with ⟨hc, -⟩ | ⟨hc, -⟩ | ⟨hc, -⟩
    · cases hc
    · cases hc
    · cases hc
      cases hphase'
  | lapsing | announced | unannounced | unsettled => cases hf'; cases hphase'
  | settled | failed | expired => cases hf'
  | @surveyed answer f =>
    cases hf'
    rcases afterFirstSnapshot_planned s i.env f answer with
      ⟨peers, before, actions, -, -, hnext⟩ | hnext | ⟨cause, hnext⟩
    all_goals
      rw [hnext] at hphase'
      cases hphase'
  | @acted answer f before x rest =>
    cases hf'
    rcases afterAction_acting i.env f answer before x rest with
      ⟨hnext, -, -⟩ | hnext | ⟨cause, hnext⟩
    all_goals
      rw [hnext] at hphase'
      cases hphase'
  | @checked answer f before hact =>
    cases hf'
    rcases afterSecondSnapshot_over i.env f answer before with
      ⟨peers, after, hpeers, hmap, hverify, hnext⟩ | hnext | ⟨cause, hnext⟩
    · rw [TrueSnapshot, hact] at htruth
      cases htruth peers hpeers
      have hclear : Cleared f w.runtime := cleared_of_verify hmap hverify
      unfold World.observe
      rw [hpeers]
      intro o ho hdev
      exact ⟨[], w.runtime, w.log, rfl, h.tables.logged o ho, hclear.absent, hclear.present⟩
    all_goals
      rw [hnext] at hphase'
      cases hphase'

/-- Every step with a true snapshot keeps the columns backed by the record. -/
theorem step_attested {i : Input} (h : Attested s w) (htruth : TrueSnapshot w i) :
    Attested s (step s w i) := by
  have hframe := moved_cleared (react_moved s w i) h htruth
  exact ⟨step_worldInv h.world (inScope_all s w i), step_certified h, hframe⟩

theorem init_attested (s : Store) (runtime : List Peer) (time : ℤ) :
    Attested s (init s runtime time) := by
  refine ⟨init_worldInv s .all runtime time, ⟨?_, ?_, ?_⟩, nofun⟩
  all_goals exact fun x hx => absurd hx (not_mem_empty x)

/-! ## Effective operations -/

def SaysEffective (op : Operation) (reply : Reply) : Prop :=
  reply = .status op true ∨ reply = .resolution (.operation op true)

/-- What a reply about an effective operation was read from. -/
def ReadEffective (db : DB) (op : Operation) : Prop :=
  ∃ o ∈ db.operations, ∃ r ∈ db.devices, o.deviceId = op.deviceId ∧ o.generation = op.generation ∧
    r.deviceId = op.deviceId ∧ r.generation = op.generation ∧ r.appliedGeneration = op.generation

theorem effective_latest {d : Device} (hop : operationRow db id = .ok op)
    (hd : deviceRow db op.deviceId = .ok d) (heff : effective op d = true) :
    ReadEffective db op := by
  obtain ⟨o, ho, x, -, -, -, rfl⟩ := operationRow_ok hop
  obtain ⟨r, hr, hid, rfl⟩ := deviceRow_ok hd
  simp only [effective, Bool.and_eq_true, decide_eq_true_eq] at heff
  exact ⟨o, ho, r, hr, rfl, rfl, hid, heff.1.2, heff.2⟩

theorem operationReceiptRow_ok {deviceId credentialId requestId idempotency : String}
    (h : operationReceiptRow deviceId credentialId requestId idempotency db = .ok op) :
    op.deviceId = deviceId ∧ ∃ id, operationRow db id = .ok op := by
  obtain ⟨q, -, h⟩ := demand_bind_ok.mp h
  obtain ⟨id, -, h⟩ := demand_bind_ok.mp h
  obtain ⟨o, ho, h⟩ := demand_bind_ok.mp h
  obtain ⟨hshape, h⟩ := deny_bind_ok.mp h
  simp only [Bool.or_eq_false_iff, decide_eq_false_iff_not, not_not] at hshape
  refine ⟨?_, id, h⟩
  obtain ⟨o', ho', x, -, hoid, -, rfl⟩ := operationRow_ok h
  obtain ⟨hom, hoid'⟩ := find_eq_some.mp ho
  cases Table.eq_of_key ho' hom (hoid.trans hoid'.symm)
  exact hshape.1

/-- A reply that is not a refusal comes from a transaction that succeeded. -/
theorem replyTo_ok {α : Type} {f : α → Reply} {o : WriteOutcome} {body : DB → Except Err (α × DB)}
    {reply : Reply} (h : (replyTo f (write o body db)).1 = reply)
    (hne : ∀ e, reply ≠ .refused e) : ∃ a db', body db = .ok (a, db') ∧ f a = reply := by
  rcases hwrite : write o body db with ⟨e | a, db'⟩
  · rw [hwrite] at h
    exact absurd h.symm (hne e)
  · rw [hwrite] at h
    exact ⟨a, db', write_ok hwrite, h⟩

/-- `OperationSigned` reports an operation as effective only if it read it so. -/
theorem operationSigned_effective {db' : DB}
    (h : operationSigned s env r id db = .ok ((op, true), db')) :
    ReadEffective db op := by
  obtain ⟨hp, h⟩ := deny_bind_ok.mp h
  replace h := rest_ok h
  obtain ⟨⟨cr, actor⟩, -, h⟩ := bind_ok.mp h
  obtain ⟨⟨⟩, hbefore, h⟩ := bind_ok.mp h
  obtain ⟨db₁, hconsume, h⟩ := bind_ok.mp h
  obtain ⟨⟨op', eff⟩, hanswer, h⟩ := bind_ok.mp h
  cases pure_ok.mp h
  obtain ⟨-, rfl⟩ := consume_read (by rw [purpose_of_deny hp]; rfl) hconsume
  obtain ⟨op₀, hop₀, hbefore⟩ := bind_ok.mp hbefore
  obtain ⟨op₁, hop₁, hanswer⟩ := bind_ok.mp hanswer
  obtain ⟨d, hd, hanswer⟩ := bind_ok.mp hanswer
  obtain ⟨hsame, heff⟩ := Prod.ext_iff.mp (pure_ok.mp hanswer)
  have hdev : op₀.deviceId = r.deviceId := by simpa using deny_ok.mp hbefore
  have hop : op₁ = op₀ := Except.ok.inj (hop₁.symm.trans hop₀)
  cases hsame
  rw [← hdev, ← hop] at hd
  exact effective_latest hop₁ hd heff

/-- `OperationReceipt` reports an operation as effective only if it read it so. -/
theorem operationReceipt_effective {requestId idempotency : String} {db' : DB}
    (h : operationReceipt s env r requestId idempotency db = .ok ((op, true), db')) :
    ReadEffective db op := by
  obtain ⟨hp, h⟩ := deny_bind_ok.mp h
  replace h := rest_ok h
  obtain ⟨cr, -, h⟩ := bind_ok.mp h
  replace h := rest_ok h
  obtain ⟨db₁, hconsume, h⟩ := bind_ok.mp h
  obtain ⟨op', hop, h⟩ := bind_ok.mp h
  obtain ⟨d, hd, h⟩ := bind_ok.mp h
  obtain ⟨hpair, -⟩ := Prod.ext_iff.mp (pure_ok.mp h)
  obtain ⟨hsame, heff⟩ := Prod.ext_iff.mp hpair
  rw [Bool.or_assoc] at hp
  obtain ⟨-, rfl⟩ := consume_read (by rw [purpose_of_deny hp]; rfl) hconsume
  obtain ⟨hdev, id, hrow⟩ := operationReceiptRow_ok hop
  cases hsame
  rw [← hdev] at hd
  exact effective_latest hrow hd heff

/-- `ResolvePending` reports an operation as effective only if it read it so. -/
theorem resolvePending_effective {q : ResolveRequest} {ownerProof : String} {db' : DB}
    (h : resolvePending s env r q ownerProof db = .ok (.operation op true, db')) :
    ReadEffective db op := by
  obtain ⟨⟨⟨principal, key⟩, db₁⟩, hauth, h⟩ := bind_ok.mp h
  obtain ⟨found, hfound, h⟩ := bind_ok.mp h
  obtain ⟨id, ownerKey, -, -, -, rfl⟩ := resolveAuthenticated_ok hauth
  cases found with
  | none =>
    obtain ⟨db₂, -, h⟩ := bind_ok.mp h
    have hfalse := congrArg Prod.fst (pure_ok.mp h)
    cases hfalse
  | some y =>
    cases (congrArg Prod.fst (pure_ok.mp h) : y = .operation op true)
    unfold committedRequest at hfound
    split at hfound
    · split at hfound
      · split at hfound
        · obtain ⟨c, -, hc⟩ := Option.map_eq_some_iff.mp (pure_ok.mp hfound)
          cases hc
        · cases pure_ok.mp hfound
      · cases pure_ok.mp hfound
    · split at hfound
      · rename_i op' hop
        replace hfound := rest_ok hfound
        obtain ⟨d, hd, hfound⟩ := bind_ok.mp hfound
        have heq := Option.some.inj (pure_ok.mp hfound)
        obtain ⟨hdev, id, hrow⟩ := operationReceiptRow_ok hop
        obtain ⟨rfl, heff⟩ := Resolution.operation.inj heq
        rw [← hdev] at hd
        exact effective_latest hrow hd heff
      · cases pure_ok.mp hfound

/-- Every reply about an effective operation read it so. -/
theorem perform_effective {c : Call} (h : SaysEffective op (perform s env c db).1) :
    ReadEffective db op := by
  have hnone : ∀ {α : Type} (f : α → Reply) (x : Except Err α × DB),
      (∀ a, ¬ SaysEffective op (f a)) → ¬ SaysEffective op (replyTo f x).1 := by
    rintro α f ⟨e | a, db'⟩ hf
    · rintro (h | h) <;> cases h
    · exact hf a
  have hne : ∀ reply, SaysEffective op reply → ∀ e, reply ≠ .refused e := by
    rintro reply (rfl | rfl) e <;> nofun
  cases c with
  | operationSigned =>
    obtain ⟨⟨op', eff⟩, db', hbody, hreply⟩ := replyTo_ok rfl (hne _ h)
    rw [perform, ← hreply] at h
    rcases h with h | h
    · obtain ⟨rfl, rfl⟩ := Reply.status.inj h
      exact operationSigned_effective hbody
    · cases h
  | operationReceipt =>
    obtain ⟨⟨op', eff⟩, db', hbody, hreply⟩ := replyTo_ok rfl (hne _ h)
    rw [perform, ← hreply] at h
    rcases h with h | h
    · obtain ⟨rfl, rfl⟩ := Reply.status.inj h
      exact operationReceipt_effective hbody
    · cases h
  | resolvePending =>
    obtain ⟨x, db', hbody, hreply⟩ := replyTo_ok rfl (hne _ h)
    rw [perform, ← hreply] at h
    rcases h with h | h
    · cases h
    · cases Reply.resolution.inj h
      exact resolvePending_effective hbody
  | reopen | enroll | issueActivation | challenge | sweepChallenges | activate
  | rotateCredential | submit | submitSigned | proxyBootstrapSigned | credentialReceipt
  | sweepExpiry | refreshDeadlines =>
    refine absurd h (hnone _ _ fun a => ?_)
    rintro (h | h) <;> cases h

/-- In every run whose snapshots are true, an applied generation was verified by
a snapshot after its commit, the key of a verified tombstone was absent from a
snapshot after its commit, and a reply that calls an operation effective speaks of
the latest generation of its device, which such a snapshot verified. -/
theorem run_applied_verified (s : Store) (runtime : List Peer) (time : ℤ) (inputs : List Input)
    (htruth : Along (step s) TrueSnapshot (init s runtime time) inputs) :
    let w := run (step s) (init s runtime time) inputs
    (∀ r ∈ w.db.devices, 0 < r.appliedGeneration → Observed w.log r.deviceId r.appliedGeneration
      (Verified w.db.toAuthority r.deviceId r.appliedGeneration)) ∧
    (∀ t ∈ w.db.tombstones, t.verifiedAt ≠ none → ∃ b ∈ w.db.bindings,
      b.publicKey = t.publicKey ∧ b.revokedGeneration = t.generation ∧
        Observed w.log b.deviceId t.generation (Absent t.publicKey)) ∧
    ∀ env c op, SaysEffective op (perform s env c w.db).1 → ∃ r ∈ w.db.devices,
      r.deviceId = op.deviceId ∧ r.generation = op.generation ∧
      Observed w.log op.deviceId op.generation
          (Verified w.db.toAuthority op.deviceId op.generation) := by
  intro w
  have h : Attested s w := run_invariant (Attested s) (fun _ _ => step_attested)
    (init_attested s runtime time) htruth
  refine ⟨h.tables.applied, h.tables.buried, fun env c op heff => ?_⟩
  obtain ⟨o, ho, r, hr, -, hogen, hid, hgen, happ⟩ := perform_effective heff
  have hpos : 0 < r.appliedGeneration := by
    have howned := (h.world.db.authority.core.operations o ho).owned.1
    omega
  have hobs := h.tables.applied r hr hpos
  rw [hid, happ] at hobs
  exact ⟨r, hr, hid, hgen, hobs⟩

/-- The converged device of the small deployment was observed with its key. -/
theorem run_applied_verified_converged :
    ∃ r ∈ (run (step sampleStore) (init sampleStore [] 0) sampleConverged).db.devices,
      r.appliedGeneration = 1 ∧
        Observed (run (step sampleStore) (init sampleStore [] 0) sampleConverged).log r.deviceId 1
          (Verified (run (step sampleStore) (init sampleStore [] 0) sampleConverged).db.toAuthority
            r.deviceId 1) := by
  have happlied := (run_applied_verified sampleStore [] 0 sampleConverged (by decide +kernel)).1
  have hone : ∃ r ∈ (run (step sampleStore) (init sampleStore [] 0) sampleConverged).db.devices,
      r.appliedGeneration = 1 := by decide +kernel
  obtain ⟨r, hr, hgen⟩ := hone
  have hobs := happlied r hr (by rw [hgen]; exact Nat.one_pos)
  rw [hgen] at hobs
  exact ⟨r, hr, hgen, hobs⟩

end DaxiangVpn.DeviceAuthVerified
