import DaxiangVpn.Base64Url
import DaxiangVpn.UpdateClientSound

/-!
# Runs of the offline update client

The floors of a state are a merge over its whole history. A load computes them again from the first
policy, the current one and the last receipt. Both agree because every policy and every receipt that
was let in stands above the floors it met.
-/

namespace DaxiangVpn.UpdateClient

open CheckedSteps StrictJson TransitionRun UpdateVerify List

/-- The second state does not fall behind the first one. -/
structure Advances (st st' : State) : Prop where
  revision : st.policyRevision ≤ st'.policyRevision
  version : Precedes st.floors.minVersion st'.floors.minVersion
  protocol : st.floors.minProtocol ≤ st'.floors.minProtocol
  sequence : st.floors.minSequence ≤ st'.floors.minSequence
  floor : st.floors.securityFloor ≤ st'.floors.securityFloor
  security : st.floors.securityVersion ≤ st'.floors.securityVersion

theorem Advances.trans {a b c : State} (hab : Advances a b) (hbc : Advances b c) :
    Advances a c where
  revision := hab.revision.trans hbc.revision
  version := hab.version.trans hbc.version
  protocol := hab.protocol.trans hbc.protocol
  sequence := hab.sequence.trans hbc.sequence
  floor := hab.floor.trans hbc.floor
  security := hab.security.trans hbc.security

theorem Advances.refl {st : State} (h : IsVersion st.floors.minVersion) : Advances st st :=
  ⟨le_refl _, Precedes.refl h, le_refl _, le_refl _, le_refl _, le_refl _⟩

theorem Advances.merge {st st' : State} {f : Floors} (hversion : IsVersion st.floors.minVersion)
    (hf : IsVersion f.minVersion) (hrevision : st.policyRevision ≤ st'.policyRevision)
    (hfloors : st'.floors = mergeFloors st.floors f) : Advances st st' := by
  obtain ⟨hmax, hrank⟩ := maxVersion_rank hversion hf
  refine ⟨hrevision, ?_, ?_, ?_, ?_, ?_⟩ <;> rw [hfloors]
  · exact precedes_iff.mpr ⟨hversion, hmax, le_of_le_of_eq le_sup_left hrank.symm⟩
  · exact le_max_left _ _
  · exact le_max_left _ _
  · exact le_max_left _ _
  · exact le_max_left _ _

variable {p : Plan}

section

variable {File : Type} {s : Prims File}

def receiptHeight : Option Receipt → Height
  | none => ⊥
  | some r => height (receiptFloors r)

/-- The floors that a load computes are a supremum of three heights. -/
theorem expectedFloors_height {initial p : Policy} {previous : Option Receipt}
    (hinitial : IsVersion initial.minVersion) (hp : IsVersion p.minVersion)
    (hprevious : ∀ r ∈ previous, IsVersion r.metadata.version) :
    IsVersion (expectedFloors initial p previous).minVersion ∧
    height (expectedFloors initial p previous) =
        height (policyFloors initial) ⊔ height (policyFloors p) ⊔ receiptHeight previous := by
  have hpolicies := height_merge (a := policyFloors initial) (b := policyFloors p) hinitial hp
  cases previous with
  | none =>
    refine ⟨hpolicies.1, ?_⟩
    rw [receiptHeight, sup_bot_eq]
    exact hpolicies.2
  | some r =>
    have hall := height_merge (b := receiptFloors r) hpolicies.1 (hprevious r rfl)
    refine ⟨hall.1, ?_⟩
    rw [receiptHeight, ← hpolicies.2]
    exact hall.2

variable {a : Registration} {st : State} {o : Options} {env : Env} {home : Home File}
  {reads : Reads} {initial current : PolicyDocument × Policy}

theorem Sound.height (h : Sound s a st initial current) :
    (IsVersion initial.2.minVersion ∧ IsVersion current.2.minVersion ∧
    IsVersion st.floors.minVersion ∧
        ∀ r ∈ st.previous, IsVersion r.metadata.version) ∧
      UpdateClient.height st.floors = UpdateClient.height (policyFloors initial.2) ⊔
        UpdateClient.height (policyFloors current.2) ⊔ receiptHeight st.previous := by
  obtain ⟨hinitial, -⟩ := validatePolicy_floors (decodePolicy_some h.readInitial).2.1
  obtain ⟨hcurrent, -⟩ := validatePolicy_floors (decodePolicy_some h.readCurrent).2.1
  have hprevious : ∀ r ∈ st.previous, IsVersion r.metadata.version := by
    intro r hr
    obtain ⟨old, c, hverified, -⟩ := h.genuine r hr
    exact validateMetadata_version hverified.valid
  obtain ⟨hfloors, -, heq⟩ := equalFloors_iff.mp h.floors
  exact ⟨⟨hinitial, hcurrent, hfloors, hprevious⟩, heq.trans
    (expectedFloors_height hinitial hcurrent hprevious).2⟩

/-! ## Plans -/

theorem bytes_text {raw : Bytes} {document : String} (h : text raw = some document) :
    bytes document = raw := by
  unfold text String.fromUTF8? at h
  split_ifs at h with hvalid
  obtain rfl := Option.some.inj h
  rfl

theorem text_bytes (document : String) : text (bytes document) = some document := by
  unfold text String.fromUTF8?
  exact dif_pos document.isValidUTF8

theorem approve_ok {approved : PolicyDocument × Policy × String}
    (h : approve s o env = .ok approved) :
    decodePolicy s approved.2.2 = some (approved.1, approved.2.1) ∧
      hash s (bytes approved.2.2) = o.approval ∧ approved.1.scope = o.scope := by
  unfold approve at h
  obtain ⟨raw, -, h⟩ := bind_ok.mp h
  rw [deny_bind_ok, demand_bind_ok] at h
  obtain ⟨hhash, document, htext, h⟩ := h
  rw [demand_bind_ok] at h
  obtain ⟨decoded, hdecoded, h⟩ := h
  rw [deny_bind_ok, deny_bind_ok, pure_ok] at h
  obtain ⟨hscope, -, rfl⟩ := h
  simp only [ne_eq, decide_eq_false_iff_not, not_not] at hhash hscope
  rw [bytes_text htext]
  exact ⟨hdecoded, hhash, hscope⟩

theorem planEnroll_ok (h : planEnroll s o env = .ok p) :
    ∃ a st d, p = .enroll a st ∧ Sound s a st d d ∧ st.previous = none := by
  unfold planEnroll at h
  obtain ⟨approved, happroved, h⟩ := bind_ok.mp h
  rw [deny_bind_ok, demand_bind_ok] at h
  obtain ⟨-, random, -, h⟩ := h
  rw [pure_ok] at h
  obtain ⟨hdecoded, hhash, hscope⟩ := approve_ok happroved
  obtain ⟨hdoc, hvalid, -⟩ := decodePolicy_some hdecoded
  obtain ⟨hversion, -⟩ := validatePolicy_floors hvalid
  unfold validDocument at hdoc
  simp only [Bool.and_eq_true] at hdoc
  obtain ⟨⟨⟨-, hrevision⟩, hvalidScope⟩, -⟩ := hdoc
  have hhex : exactHex o.approval 32 = true := by
    rw [← hhash]
    exact s.verifier.digest_hex _
  refine ⟨_, _, (approved.1, approved.2.1), h.symm, ?_, rfl⟩
  refine ⟨consistent_iff.mpr ⟨⟨rfl, rfl⟩, s.newID_hex random, rfl, rfl, hscope ▸ hvalidScope,
    hrevision, hrevision, le_refl _, ⟨hhex, hhash⟩, ⟨hhex, hhash⟩, rfl⟩, hdecoded,
    ⟨hscope, rfl⟩, hdecoded, ⟨hscope, rfl⟩, ?_, fun _ => rfl, nofun, ?_⟩
  · exact policyNotBelow_iff.mpr ⟨hversion, hversion, le_refl _, le_refl _, le_refl _, le_refl _⟩
  · have hnone : ∀ r ∈ (none : Option Receipt), IsVersion r.metadata.version := nofun
    obtain ⟨hmerged, hheight⟩ := expectedFloors_height hversion hversion hnone
    refine equalFloors_iff.mpr ⟨hversion, hmerged, ?_⟩
    rw [hheight, sup_idem, receiptHeight, sup_bot_eq]

theorem sup_raise {x y y' z : Height} (h : y ≤ y') : x ⊔ y ⊔ z ⊔ y' = x ⊔ y' ⊔ z := by
  rw [sup_right_comm (x ⊔ y) z y', sup_assoc x y y', sup_eq_right.mpr h]

theorem Sound.below (h : Sound s a st initial current) :
    UpdateClient.height (policyFloors initial.2) ≤ UpdateClient.height st.floors ∧
      UpdateClient.height (policyFloors current.2) ≤ UpdateClient.height st.floors ∧
      receiptHeight st.previous ≤ UpdateClient.height st.floors := by
  rw [h.height.2]
  exact ⟨le_sup_of_le_left le_sup_left, le_sup_of_le_left le_sup_right, le_sup_right⟩

theorem planApprove_ok (hsound : Sound s a st initial current) (hscope : st.scope = o.scope)
    (h : planApprove s o env st = .ok p) :
    ∃ st' current', p = .replace st' ∧ Sound s a st' initial current' ∧
    Advances st st' ∧ st'.previous = st.previous := by
  unfold planApprove at h
  obtain ⟨approved, happroved, h⟩ := bind_ok.mp h
  rw [deny_bind_ok, deny_bind_ok, pure_ok] at h
  obtain ⟨hrefused, -, rfl⟩ := h
  simp only [decide_eq_false_iff_not, not_or, not_le, Bool.not_eq_false] at hrefused
  obtain ⟨hnewer, hnotBelow⟩ := hrefused
  obtain ⟨hdecoded, hhash, happrovedScope⟩ := approve_ok happroved
  obtain ⟨hdoc, -⟩ := decodePolicy_some hdecoded
  unfold validDocument at hdoc
  simp only [Bool.and_eq_true] at hdoc
  obtain ⟨⟨⟨-, hrevision⟩, -⟩, -⟩ := hdoc
  obtain ⟨hfloors, hversion, hrank, hprotocol, hsequence, hfloor⟩ := policyNotBelow_iff.mp hnotBelow
  obtain ⟨⟨hinitialVersion, -, -, hreceipt⟩, hheight⟩ := hsound.height
  obtain ⟨hinitial, hcurrent, -⟩ := hsound.below
  obtain ⟨hschema, hid, hids, hscopes, hvalidScope, hinitialRevision, -, hle, hfirst, -, hhas⟩ :=
    consistent_iff.mp hsound.consistent
  have hhex : exactHex o.approval 32 = true := by
    rw [← hhash]
    exact s.verifier.digest_hex _
  refine ⟨_, (approved.1, approved.2.1), rfl, ?_, ?_, rfl⟩
  · refine ⟨consistent_iff.mpr ⟨hschema, hid, hids, hscopes, hvalidScope, hinitialRevision,
      hrevision, ?_, hfirst, ⟨hhex, hhash⟩, hhas⟩, hsound.readInitial, hsound.initialOf, hdecoded,
      ⟨happrovedScope.trans hscope.symm, rfl⟩, ?_, ?_, hsound.genuine, ?_⟩
    · exact hle.trans hnewer.le
    · obtain ⟨h1, h2, h3, h4, -⟩ := hinitial
      exact policyNotBelow_iff.mpr
        ⟨hinitialVersion, hversion, le_trans h1 hrank, le_trans h2 hprotocol, le_trans h3 hsequence,
          le_trans h4 hfloor⟩
    · intro hsame
      have hlt : a.initialRevision < approved.1.revision := lt_of_le_of_lt hle hnewer
      exact absurd hsame hlt.ne'
    · obtain ⟨hmerged, hmergedHeight⟩ :=
        height_merge (b := policyFloors approved.2.1) hfloors hversion
      obtain ⟨hexpected, hexpectedHeight⟩ := expectedFloors_height hinitialVersion hversion hreceipt
      refine equalFloors_iff.mpr ⟨hmerged, hexpected, ?_⟩
      have hraised : height (policyFloors current.2) ≤ height (policyFloors approved.2.1) := by
        obtain ⟨h1, h2, h3, h4, -⟩ := hcurrent
        exact ⟨le_trans h1 hrank, le_trans h2 hprotocol, le_trans h3 hsequence, le_trans h4 hfloor,
          le_trans h4 hfloor⟩
      rw [hexpectedHeight, ← sup_raise hraised, ← hheight]
      exact hmergedHeight
  · exact Advances.merge hfloors hversion hnewer.le rfl

/-- The command goes on only after a verification that succeeded. -/
theorem verifyResult_ok {x : Except Err Receipt} {r : Receipt} (h : verifyResult env x = .ok r) :
    x = .ok r := by
  cases x with
  | ok => exact congrArg Except.ok (Except.ok.inj h)
  | error => cases h

theorem planVerify_ok (hsound : Sound s a st initial current)
    (h : planVerify s env st (effectivePolicy current.2 st.floors) = .ok p) :
    ∃ st', p = .replace st' ∧
    Sound s a st' initial current ∧ Advances st st' ∧
    ∀ r ∈ st'.previous, r.verifiedAt ≤ env.commitTime := by
  unfold planVerify at h
  obtain ⟨metadata, -, h⟩ := bind_ok.mp h
  obtain ⟨artifact, -, h⟩ := bind_ok.mp h
  obtain ⟨r, hresult, h⟩ := bind_ok.mp h
  rw [deny_bind_ok, deny_bind_ok, deny_bind_ok, deny_bind_ok, deny_bind_ok, pure_ok] at h
  obtain ⟨-, hwindow, -, hrollback, -, rfl⟩ := h
  simp only [decide_eq_false_iff_not, not_or, not_lt] at hwindow hrollback
  have hverified := verify_ok (verifyResult_ok hresult)
  obtain ⟨-, hmeetsRank⟩ := precedes_iff.mp hverified.meets.version
  have hversion : IsVersion r.metadata.version := validateMetadata_version hverified.valid
  obtain ⟨hfloors, -, hrank, -, hsequence, hfloor⟩ := policyNotBelow_iff.mp hsound.effective.2
  obtain ⟨⟨hinitialVersion, hcurrentVersion, -⟩, hheight⟩ := hsound.height
  obtain ⟨hschema, hid, hids, hscopes, hvalidScope, hinitialRevision, hrevision, hle,
    hfirst, hpolicy, -⟩ :=
    consistent_iff.mp hsound.consistent
  have hgenuine : Genuine s.verifier st.scope r := by
    refine ⟨_, _, hverified, ?_⟩
    exact (decodePolicy_some hsound.readCurrent).2.2.trans hsound.currentOf.1
  refine ⟨_, rfl, ?_, ?_, ?_⟩
  · refine ⟨consistent_iff.mpr ⟨hschema, hid, hids, hscopes, hvalidScope, hinitialRevision,
      hrevision, hle, hfirst, hpolicy, rfl⟩, hsound.readInitial, hsound.initialOf,
      hsound.readCurrent, hsound.currentOf, hsound.above, hsound.first, ?_, ?_⟩
    · intro r' hr'
      obtain rfl : r = r' := Option.some.inj hr'
      exact hgenuine
    · obtain ⟨hmerged, hmergedHeight⟩ := height_merge (b := receiptFloors r) hfloors hversion
      have hreceipt : ∀ x ∈ some r, IsVersion x.metadata.version := by
        intro x hx
        obtain rfl : r = x := Option.some.inj hx
        exact hversion
      obtain ⟨hexpected, hexpectedHeight⟩ :=
        expectedFloors_height hinitialVersion hcurrentVersion hreceipt
      refine equalFloors_iff.mpr ⟨hmerged, hexpected, ?_⟩
      have hraised : receiptHeight st.previous ≤ receiptHeight (some r) := by
        cases hprevious : st.previous with
        | none => exact bot_le
        | some =>
          obtain ⟨-, -, hold⟩ := hsound.below
          rw [hprevious] at hold
          obtain ⟨h1, -, h3, h4, h5⟩ := hold
          exact ⟨le_trans h1 (le_trans hrank hmeetsRank.2), Nat.zero_le _,
            le_trans h3 (le_trans hsequence hverified.meets.sequence),
            le_trans h4 (le_trans hfloor hverified.meets.floor), le_trans h5 hrollback⟩
      rw [hexpectedHeight]
      refine hmergedHeight.trans ?_
      rw [hheight, sup_assoc _ (receiptHeight st.previous)]
      exact congrArg _ (sup_eq_right.mpr hraised)
  · exact Advances.merge hfloors hversion (le_refl _) rfl
  · intro r' hr'
    obtain rfl : r = r' := Option.some.inj hr'
    exact hwindow.1

/-! ## Load and commit -/

structure Stored (s : Prims File) (home : Home File) (a : Registration) (st : State) : Prop where
  registration : home.registration = some (s.codec.print (encodeRegistration a))
  state : home.state = some (s.codec.print (encodeState st))
  registrationSize : s.codec.size (s.codec.print (encodeRegistration a)) ≤ maxStateBytes
  stateSize : s.codec.size (s.codec.print (encodeState st)) ≤ maxStateBytes

def recorded (s : Prims File) (home : Home File) : Option State := home.state.bind (readState s)

section

variable (h : Sound s a st initial current) (hstored : Stored s home a st)
include h hstored

theorem Sound.readable : readRegistration s (s.codec.print (encodeRegistration a)) = some a ∧
      readState s (s.codec.print (encodeState st)) = some st := by
  obtain ⟨⟨hschema, hschema'⟩, -, -, -, -, hrevision, hrevision', -⟩ :=
    consistent_iff.mp h.consistent
  exact ⟨readRegistration_print hschema (safePositive_lt hrevision) hstored.registrationSize,
    readState_print hschema' (safePositive_lt hrevision') h.inRange h.genuine hstored.stateSize⟩

theorem Sound.recorded : recorded s home = some st := by
  unfold UpdateClient.recorded
  rw [hstored.state]
  exact (h.readable hstored).2

variable {now : ℤ} {scope : Scope}

/-- A load of sound files gives them, and the policy in effect. -/
theorem Sound.load_ok {a' : Registration} {st' : State}
    {p : Policy} (hload : load s home reads scope now = .ok (a', st', p)) :
    st' = st ∧ p = effectivePolicy current.2 st.floors ∧ st.scope = scope := by
  unfold load at hload
  rw [deny_bind_ok, deny_bind_ok, deny_bind_ok, demand_bind_ok] at hload
  obtain ⟨-, -, -, aFile, haFile, hload⟩ := hload
  rw [demand_bind_ok] at hload
  obtain ⟨sFile, hsFile, hload⟩ := hload
  rw [demand_bind_ok] at hload
  obtain ⟨a₀, ha, hload⟩ := hload
  rw [demand_bind_ok] at hload
  obtain ⟨st₀, hst, hload⟩ := hload
  obtain ⟨p₀, hcheck, hload⟩ := bind_ok.mp hload
  obtain ⟨rfl, rfl, rfl⟩ : a₀ = a' ∧ st₀ = st' ∧ p₀ = p := by simpa [pure_ok] using hload
  obtain ⟨hreadRegistration, hreadState⟩ := h.readable hstored
  obtain rfl : s.codec.print (encodeRegistration a) = aFile :=
    Option.some.inj (hstored.registration.symm.trans haFile)
  obtain rfl : s.codec.print (encodeState st) = sFile :=
    Option.some.inj (hstored.state.symm.trans hsFile)
  obtain rfl : a = a₀ := Option.some.inj (hreadRegistration.symm.trans ha)
  obtain rfl : st = st₀ := Option.some.inj (hreadState.symm.trans hst)
  unfold check at hcheck
  rw [deny_bind_ok, deny_bind_ok, demand_bind_ok] at hcheck
  obtain ⟨-, hscope, initial', -, hcheck⟩ := hcheck
  rw [deny_bind_ok, demand_bind_ok] at hcheck
  obtain ⟨-, current', hcurrent, hcheck⟩ := hcheck
  rw [deny_bind_ok, deny_bind_ok, deny_bind_ok, pure_ok] at hcheck
  obtain ⟨-, -, -, rfl⟩ := hcheck
  obtain rfl : current = current' := Option.some.inj (h.readCurrent.symm.trans hcurrent)
  exact ⟨rfl, rfl, by simpa using hscope⟩

/-- A load never finds sound files corrupt, until the end of the calendar. -/
theorem Sound.load_avoids (hprevious : ∀ r ∈ st.previous, r.verifiedAt ≤ now)
    (hnow : now ≤ maxTimestamp) :
    load s home reads scope now ≠ .error .corruptState := by
  obtain ⟨hreadRegistration, hreadState⟩ := h.readable hstored
  unfold load
  refine deny_bind_avoids fun _ => ?_
  refine deny_bind_avoids fun _ => ?_
  refine deny_bind_avoids fun _ => ?_
  refine demand_bind_avoids fun aFile haFile => ?_
  refine demand_bind_avoids fun sFile hsFile => ?_
  obtain rfl : s.codec.print (encodeRegistration a) = aFile :=
    Option.some.inj (hstored.registration.symm.trans haFile)
  obtain rfl : s.codec.print (encodeState st) = sFile :=
    Option.some.inj (hstored.state.symm.trans hsFile)
  rw [hreadRegistration, hreadState]
  refine demand_bind_avoids (fun a' ha => ?_) nofun
  refine demand_bind_avoids (fun st' hst => ?_) nofun
  obtain rfl : a = a' := Option.some.inj ha
  obtain rfl : st = st' := Option.some.inj hst
  exact bind_avoids (h.check_avoids hprevious hnow) nofun

end

/-- Only the checks before the files are read ask for a registration. -/
theorem check_required : check s a st scope now ≠ .error .registrationRequired := by
  unfold check
  refine deny_bind_avoids fun _ => ?_
  refine deny_bind_avoids fun _ => ?_
  refine demand_bind_avoids fun initial _ => ?_
  refine deny_bind_avoids fun _ => ?_
  refine demand_bind_avoids fun current _ => ?_
  refine deny_bind_avoids fun _ => ?_
  refine deny_bind_avoids fun _ => ?_
  refine deny_bind_avoids fun _ => ?_
  exact nofun

theorem load_required (h : load s home reads scope now = .error .registrationRequired) :
    home.registration = none ∧ home.state = none := by
  by_contra hsome
  revert h
  unfold load
  refine deny_bind_avoids (fun _ => ?_) fun hbad => ?_
  swap
  · simp only [Bool.and_eq_true, Option.isNone_iff_eq_none] at hbad
    exact absurd ⟨hbad.1.1.2, hbad.2⟩ hsome
  refine deny_bind_avoids fun _ => ?_
  refine deny_bind_avoids fun _ => ?_
  refine demand_bind_avoids fun aFile _ => ?_
  refine demand_bind_avoids fun sFile _ => ?_
  refine demand_bind_avoids fun a _ => ?_
  refine demand_bind_avoids fun st _ => ?_
  exact bind_avoids check_required nofun

/-! ## Good homes -/

/-- A home without a state, or with sound files and no receipt of a later time. -/
def Good (s : Prims File) (now : ℤ) (home : Home File) : Prop :=
  home.state = none ∨ ∃ a st initial current, Stored s home a st ∧ Sound s a st initial current ∧
    ∀ r ∈ st.previous, r.verifiedAt ≤ now

theorem Good.mono {now' : ℤ} (h : Good s now home) (hle : now ≤ now') : Good s now' home := by
  rcases h with hnone | ⟨a, st, initial, current, hstored, hsound, htime⟩
  · exact .inl hnone
  · exact .inr ⟨a, st, initial, current, hstored, hsound, fun r hr => (htime r hr).trans hle⟩

/-- The second home records a state that does not fall behind the one of the first. -/
def Follows (s : Prims File) (home home' : Home File) : Prop :=
  ∀ st, recorded s home = some st → ∃ st', recorded s home' = some st' ∧ Advances st st'

theorem Good.follows (h : Good s now home) : Follows s home home := by
  intro st hst
  refine ⟨st, hst, ?_⟩
  rcases h with hnone | ⟨a, st₀, initial, current, hstored, hsound, -⟩
  · unfold recorded at hst
    rw [hnone] at hst
    cases hst
  · obtain rfl : st₀ = st := Option.some.inj ((hsound.recorded hstored).symm.trans hst)
    exact Advances.refl hsound.height.1.2.2.1

theorem plan_cases {loaded : Except Failure (Registration × State × Policy)}
    (h : plan s o env loaded = .ok p) : (∃ st, p = .inspect st) ∨
    (loaded = .error .registrationRequired ∧ planEnroll s o env = .ok p) ∨ ∃ a st policy,
    loaded = .ok (a, st, policy) ∧
    (planApprove s o env st = .ok p ∨ planVerify s env st policy = .ok p) := by
  unfold plan at h
  split at h
  · cases h
  · exact .inr (.inl ⟨rfl, h⟩)
  · cases h
  · exact .inl ⟨_, (Except.ok.inj h).symm⟩
  · exact .inr (.inr ⟨_, _, _, rfl, .inl h⟩)
  · exact .inr (.inr ⟨_, _, _, rfl, .inr h⟩)

theorem load_state
    {loaded : Registration × State × Policy} (h : load s home reads scope now = .ok loaded) :
      home.state ≠ none := by
  intro hnone
  unfold load at h
  rw [deny_bind_ok, deny_bind_ok, deny_bind_ok, demand_bind_ok] at h
  obtain ⟨-, -, -, aFile, -, h⟩ := h
  rw [hnone] at h
  cases h

variable [DecidableEq File]

theorem commit_file (old : Option File) (value : Json) (create : Bool) (fault : Fault) :
    (commit s old value create fault).1 = old ∨
    (commit s old value create fault).1 = some (s.codec.print value) ∧
    s.codec.size (s.codec.print value) ≤ maxStateBytes := by
  unfold commit
  split_ifs with hsize hexists heffect
  · exact .inl rfl
  · exact .inl rfl
  · exact .inr ⟨rfl, not_lt.mp hsize⟩
  · exact .inl rfl

theorem commit_known {old : Option File} {value : Json} {create : Bool} {fault : Fault}
    (h : (commit s old value create fault).2 = .ok ()) :
    (commit s old value create fault).1 = some (s.codec.print value) ∧
      s.codec.size (s.codec.print value) ≤ maxStateBytes := by
  unfold commit at h ⊢
  by_cases hsize : maxStateBytes < s.codec.size (s.codec.print value)
  · rw [if_pos hsize] at h
    cases h
  rw [if_neg hsize] at h ⊢
  by_cases hexists : (create && old.isSome) = true
  · rw [if_pos hexists] at h
    cases h
  · rw [if_neg hexists] at h ⊢
    rw [deny_ok] at h
    simp only [Bool.or_eq_false_iff, decide_eq_false_iff_not, not_not, ne_eq] at h
    exact ⟨h.2, not_lt.mp hsize⟩

/-! ## Runs -/

theorem replace_good {st' : State} {current' : PolicyDocument × Policy}
    (hstored : Stored s home a st) (hsound : Sound s a st initial current)
    (hsound' : Sound s a st' initial current') (hadvances : Advances st st')
    (htime : ∀ r ∈ st.previous, r.verifiedAt ≤ env.commitTime)
    (htime' : ∀ r ∈ st'.previous, r.verifiedAt ≤ env.commitTime) :
    Good s env.commitTime (perform s env home (.replace st')).1 ∧
      Follows s home (perform s env home (.replace st')).1 := by
  have hhome : (perform s env home (.replace st')).1 =
      ⟨home.registration, (commit s home.state (encodeState st') false env.state).1⟩ := rfl
  rw [hhome]
  rcases commit_file home.state (encodeState st') false env.state with hold | ⟨hnew, hsize⟩
  · rw [hold]
    have hgood : Good s env.commitTime home :=
      .inr ⟨a, st, initial, current, hstored, hsound, htime⟩
    exact ⟨hgood, hgood.follows⟩
  rw [hnew]
  have hstored' : Stored s ⟨home.registration, some (s.codec.print (encodeState st'))⟩ a st' :=
    ⟨hstored.registration, rfl, hstored.registrationSize, hsize⟩
  refine ⟨.inr ⟨a, st', initial, current', hstored', hsound', htime'⟩, ?_⟩
  intro x hx
  obtain rfl : st = x := Option.some.inj ((hsound.recorded hstored).symm.trans hx)
  exact ⟨st', hsound'.recorded hstored', hadvances⟩

theorem enroll_good {d : PolicyDocument × Policy} (hempty : home.state = none)
    (hsound : Sound s a st d d) (hprevious : st.previous = none) :
    Good s env.commitTime (perform s env home (.enroll a st)).1 := by
  have hnone : ∀ file, Good s env.commitTime ⟨file, home.state⟩ := fun file => .inl hempty
  have hperform : perform s env home (.enroll a st) = commitEnrolled s env home.state st
      (commit s home.registration (encodeRegistration a) true env.registration) := rfl
  rw [hperform]
  cases hregistered : commit s home.registration (encodeRegistration a) true env.registration with
  | mk file result =>
    cases result with
    | error => exact hnone file
    | ok =>
      have hknown : (commit s home.registration (encodeRegistration a) true env.registration).2 =
        .ok () := by
        rw [hregistered]
      obtain ⟨hfile, hsize⟩ := commit_known hknown
      rw [hregistered] at hfile
      unfold commitEnrolled
      split_ifs with hdone
      · exact hnone file
      · rcases commit_file home.state (encodeState st) true env.state with hold | ⟨hnew, hsize'⟩
        · exact .inl (hold.trans hempty)
        · refine .inr ⟨a, st, d, d, ⟨hfile, hnew, hsize, hsize'⟩, hsound, ?_⟩
          rw [hprevious]
          exact nofun

/-- The clock does not go back. -/
structure Clocked (events : List (Options × Env)) : Prop where
  within : ∀ e ∈ events, e.2.now ≤ e.2.verifyTime ∧ e.2.verifyTime ≤ e.2.commitTime
  /-- From one execution to the next ones. -/
  between : events.Pairwise fun e e' => e.2.commitTime ≤ e'.2.now

/-- An execution keeps a home good and its state from falling behind. -/
theorem step_good {e : Options × Env} (hgood : Good s e.2.now home)
    (hclock : e.2.now ≤ e.2.commitTime) :
    Good s e.2.commitTime (step s home e) ∧ Follows s home (step s home e) := by
  have hsame : Good s e.2.commitTime home ∧ Follows s home home :=
    ⟨hgood.mono hclock, hgood.follows⟩
  unfold step execute
  by_cases hdone : e.2.done .start = true
  · rw [if_pos hdone]
    exact hsame
  rw [if_neg hdone]
  cases hplan : plan s e.1 e.2 (load s home e.2.reads e.1.scope e.2.now) with
  | error => exact hsame
  | ok =>
    rcases plan_cases hplan with ⟨st, rfl⟩ | ⟨hload, henroll⟩ | ⟨a', st', p', hload, hnext⟩
    · exact hsame
    · obtain ⟨a, st, d, rfl, hsound, hprevious⟩ := planEnroll_ok henroll
      obtain ⟨-, hempty⟩ := load_required hload
      refine ⟨enroll_good hempty hsound hprevious, ?_⟩
      intro x hx
      unfold recorded at hx
      rw [hempty] at hx
      cases hx
    · rcases hgood with hnone | ⟨a, st, initial, current, hstored, hsound, htime⟩
      · exact absurd hnone (load_state hload)
      · obtain ⟨rfl, rfl, hscope⟩ := hsound.load_ok hstored hload
        have hearlier : ∀ r ∈ st'.previous, r.verifiedAt ≤ e.2.commitTime :=
          fun r hr => (htime r hr).trans hclock
        rcases hnext with happrove | hverify
        · obtain ⟨new, current', rfl, hsound', hadvances, hprevious⟩ :=
            planApprove_ok hsound hscope happrove
          exact replace_good hstored hsound hsound' hadvances hearlier (hprevious ▸ hearlier)
        · obtain ⟨new, rfl, hsound', hadvances, htime'⟩ := planVerify_ok hsound hverify
          exact replace_good hstored hsound hsound' hadvances hearlier htime'

theorem run_good {events : List (Options × Env)} : ∀ {home : Home File} {now : ℤ}, Clocked events →
    (∀ e ∈ events, Good s e.2.now home) → Good s now home → (∀ e ∈ events, e.2.commitTime ≤ now) →
    Good s now (run (step s) home events) ∧ Follows s home (run (step s) home events) := by
  induction events with
  | nil =>
    intro home now _ _ hgood _
    exact ⟨hgood, hgood.follows⟩
  | cons e rest ih =>
    intro home now hclock hgoods hgood hnow
    obtain ⟨hwithin, hbetween⟩ := hclock
    obtain ⟨hfirst, hrest⟩ := pairwise_cons.mp hbetween
    obtain ⟨hload, hverify⟩ := hwithin e mem_cons_self
    obtain ⟨hstep, hfollows⟩ := step_good (hgoods e mem_cons_self) (hload.trans hverify)
    have hend : Good s now (step s home e) := hstep.mono (hnow e mem_cons_self)
    obtain ⟨hrun, hfollows'⟩ := ih ⟨fun x hx => hwithin x (mem_cons_of_mem e hx), hrest⟩
      (fun x hx => hstep.mono (hfirst x hx)) hend (fun x hx => hnow x (mem_cons_of_mem e hx))
    refine ⟨hrun, ?_⟩
    intro st hst
    obtain ⟨st', hst', hadvances⟩ := hfollows st hst
    obtain ⟨st'', hst'', hadvances'⟩ := hfollows' st' hst'
    exact ⟨st'', hst'', hadvances.trans hadvances'⟩

theorem exists_after (events : List (Options × Env)) :
    ∃ now, ∀ e ∈ events, e.2.commitTime ≤ now := by
  induction events with
  | nil => exact ⟨0, fun e he => by cases he⟩
  | cons e rest ih =>
    obtain ⟨now, hnow⟩ := ih
    refine ⟨max e.2.commitTime now, fun x hx => ?_⟩
    rcases mem_cons.mp hx with rfl | hx
    · exact le_max_left _ _
    · exact (hnow x hx).trans (le_max_right _ _)

/-- After any executions on a home, a load at a time of the calendar never finds the files corrupt;
what is recorded never falls behind; and the policy of every load that succeeds is valid and not
below the recorded floors. -/
theorem run_loadable (s : Prims File) (before after : List (Options × Env))
    (hclock : Clocked (before ++ after)) :
    (∀ (reads : Reads) (scope : Scope) (now : ℤ), (∀ e ∈ before, e.2.commitTime ≤ now) →
    now ≤ maxTimestamp →
        (run (step s) empty before).registration.isSome = true →
        (run (step s) empty before).state.isSome = true →
        load s (run (step s) empty before) reads scope now ≠ .error .corruptState) ∧
      Follows s (run (step s) empty before) (run (step s) empty (before ++ after)) ∧
      ∀ (reads : Reads) (scope : Scope) (now : ℤ) (a : Registration) (st : State) (p : Policy),
        load s (run (step s) empty before) reads scope now = .ok (a, st, p) →
        recorded s (run (step s) empty before) = some st ∧ validatePolicy s.verifier p = true ∧
          policyNotBelow p st.floors = true := by
  have hempty : ∀ now, Good s now (empty : Home File) := fun now => .inl rfl
  obtain ⟨hfirst, hrest, hcross⟩ := pairwise_append.mp hclock.between
  have hbefore : Clocked before := ⟨fun e he => hclock.within e (mem_append_left after he), hfirst⟩
  have hafter : Clocked after := ⟨fun e he => hclock.within e (mem_append_right before he), hrest⟩
  have hgood : ∀ now, (∀ e ∈ before, e.2.commitTime ≤ now) →
    Good s now (run (step s) empty before) :=
    fun now hnow => (run_good hbefore (fun e _ => hempty e.2.now) (hempty now) hnow).1
  refine ⟨?_, ?_, ?_⟩
  · intro reads scope now hnow hcalendar _ hstate
    rcases hgood now hnow with hnone | ⟨a, st, initial, current, hstored, hsound, htime⟩
    · rw [hnone] at hstate
      cases hstate
    · exact hsound.load_avoids hstored htime hcalendar
  · rw [run_append]
    obtain ⟨now, hnow⟩ := exists_after (before ++ after)
    have hmiddle := hgood now fun e he => hnow e (mem_append_left after he)
    exact (run_good hafter (fun e he => hgood e.2.now fun x hx => hcross x hx e he) hmiddle
      fun e he => hnow e (mem_append_right before he)).2
  · intro reads scope now a' st' p hload
    obtain ⟨time, htime⟩ := exists_after before
    rcases hgood time htime with hnone | ⟨a, st, initial, current, hstored, hsound, -⟩
    · exact absurd hnone (load_state hload)
    · obtain ⟨rfl, rfl, -⟩ := hsound.load_ok hstored hload
      exact ⟨hsound.recorded hstored, hsound.effective⟩

omit [DecidableEq File] in
/-- A policy file that holds a text is approved by that text. -/
theorem approve_text {document : String} (h : env.policyFile = .ok (bytes document)) :
    approve s o env = (do
      deny (hash s (bytes document) ≠ o.approval) .policyApprovalMismatch
      let decoded ← demand (decodePolicy s document) .invalidPolicy
      deny (decoded.1.scope ≠ o.scope) .scopeMismatch
      deny (decoded.1.revision ≠ o.revision) .policyRevisionRefused
      pure (decoded.1, decoded.2, document)) := by
  unfold approve
  rw [h]
  show (deny _ _ >>= fun _ => demand (text (bytes document)) _ >>= _) = _
  rw [text_bytes]
  rfl

/-- In an empty home an enrolment does what it plans. -/
theorem step_empty (hcommand : o.command = .enroll) (hstart : env.done .start = false)
    (hreads : env.reads = ⟨false, false⟩) :
    step s empty (o, env) = match planEnroll s o env with
      | .error _ => empty
      | .ok p => (perform s env empty p).1 := by
  have hload : load s empty env.reads o.scope env.now =
    .error .registrationRequired := by rw [hreads]; rfl
  unfold step execute plan
  simp only [hstart, hload, hcommand]
  cases planEnroll s o env <;> rfl

end

/-! ## A run past the end of the calendar -/

/-- The document of the sample policy. -/
def samplePolicyValue : Json :=
  obj [("schema_version", ofInt 1), ("policy_revision", ofNat 1),
  ("scope", encodeScope samplePolicy.scope),
    ("min_version", .string "1.0.0-rc.1"), ("min_protocol", ofNat 1), ("max_protocol", ofNat 1),
    ("min_sequence", ofNat 1), ("security_floor", ofNat 1), ("max_artifact_size", ofInt 10),
    ("max_validity_seconds", ofInt 3600),
    ("keys", .array
      (.cons (obj
        [("key_id", .string "k"), ("public_key", .string (Base64Url.encodeStd samplePublicKey)),
      ("valid_from", ofInt 1), ("valid_until", ofInt 2000), ("min_sequence", ofNat 1),
      ("max_sequence", ofNat 9)]) .nil))]

/-- Its text. -/
def samplePolicyText : String :=
    "\x7b\"schema_version\":1,\"policy_revision\":1," ++
    "\"scope\":\x7b\"product\":\"cli\",\"platform\":\"linux\"," ++
    "\"architecture\":\"amd64\",\"channel\":\"beta\"\x7d," ++
    "\"min_version\":\"1.0.0-rc.1\",\"min_protocol\":1,\"max_protocol\":1," ++
    "\"min_sequence\":1,\"security_floor\":1,\"max_artifact_size\":10," ++
    "\"max_validity_seconds\":3600,\"keys\":[\x7b\"key_id\":\"k\"," ++
    "\"public_key\":\"11qYAYKxCrfVS/7TyWQHOg7hcvPapiMlrwIaaPcHURo=\"," ++
    "\"valid_from\":1,\"valid_until\":2000,\"min_sequence\":1," ++
    "\"max_sequence\":9\x7d]\x7d"

example : bytes samplePolicyText = samplePolicyValue.bytes := by decide +kernel

/-- The hash of the text. -/
def sampleApproval : String := "c00a758b214da2239444344ccb13439dc72b72ca770bee16ffc5acbf0958cbba"

/-- The libraries on the texts of the sample. -/
def sampleLibraries : Prims Json where
  verifier :=
    { samplePrims with
      digest raw := if raw = bytes samplePolicyText then sampleApproval else samplePrims.digest raw
      digest_hex raw := by
        split
        · decide +kernel
        · exact samplePrims.digest_hex raw }
  codec := valueCodec
  readPolicy raw := if raw = samplePolicyText then some samplePolicyValue else none
  decodeBase64 := Base64Url.decodeStd
  encodeBase64 := Base64Url.encodeStd
  newID random := HexTexts.encodeHex (List.ofFn fun i : Fin 16 => random.getD i 0)
  newID_hex random := by
    have h := HexTexts.lowerHex_encodeHex (List.ofFn fun i : Fin 16 => random.getD i 0)
    rwa [List.length_ofFn] at h

def sampleOptions (command : Command) : Options := ⟨command, samplePolicy.scope, sampleApproval, 1⟩

/-- Everything succeeds at a time. -/
def sampleEnv (now : ℤ) : Env where
  now := now
  verifyTime := now
  commitTime := now
  reads := ⟨false, false⟩
  policyFile := .ok (bytes samplePolicyText)
  metadataFile := .ok sampleFirst.envelope
  artifactFile := .ok ⟨[0], false⟩
  unchanged := true
  random := some (List.range 16 |>.map UInt8.ofNat)
  done _ := false
  registration := ⟨true, false, false⟩
  state := ⟨true, false, false⟩

/-- An enrolment and a verification. -/
def sampleEvents : List (Options × Env) :=
  [(sampleOptions .enroll, sampleEnv 5), (sampleOptions .verify, sampleEnv 20)]

/-- Both files are there, and one second after the end of the calendar a load finds them corrupt. -/
theorem sampleEvents_run :
    ((run (step sampleLibraries) empty sampleEvents).registration.isSome = true ∧
        (run (step sampleLibraries) empty sampleEvents).state.isSome = true) ∧
      load sampleLibraries (run (step sampleLibraries) empty sampleEvents)
        ⟨false, false⟩ samplePolicy.scope
        253402300800 = .error .corruptState := by
  rw [sampleEvents, run_cons, run_cons, step_empty rfl rfl rfl, planEnroll, approve_text rfl]
  decide +kernel

/-- A load before the end of the calendar does not find the files corrupt. -/
theorem sampleEvents_loadable : Clocked (sampleEvents ++ []) ∧
      load sampleLibraries (run (step sampleLibraries) empty sampleEvents)
        ⟨false, false⟩ samplePolicy.scope
        253402300799 ≠ .error .corruptState := by
  have hclock : Clocked (sampleEvents ++ []) :=
    ⟨by simp [sampleEvents, sampleEnv], by simp [sampleEvents, sampleEnv]⟩
  obtain ⟨hregistration, hstate⟩ := sampleEvents_run.1
  refine ⟨hclock, ?_⟩
  exact (run_loadable sampleLibraries sampleEvents [] hclock).1
    ⟨false, false⟩ samplePolicy.scope 253402300799
    (by simp [sampleEvents, sampleEnv]) (by decide) hregistration hstate

/-- One second after the end of the calendar a load finds the files corrupt. -/
theorem sampleEvents_corrupt :
    ((run (step sampleLibraries) empty sampleEvents).registration.isSome = true ∧
        (run (step sampleLibraries) empty sampleEvents).state.isSome = true) ∧
      load sampleLibraries (run (step sampleLibraries) empty sampleEvents)
        ⟨false, false⟩ samplePolicy.scope
        253402300800 = .error .corruptState :=
  sampleEvents_run

end DaxiangVpn.UpdateClient
