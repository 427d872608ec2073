import DaxiangVpn.UpdateClient

/-!
# Sound files of the offline update client

Floors are points of a lattice and their merge is a supremum. Files that were written are read back.
Sound files pass every check of a load until the end of the calendar, and the policy they put in
effect is valid and not below their floors.
-/

namespace DaxiangVpn.UpdateClient

open CheckedSteps StrictJson UpdateVerify UpdateVersions

/-! ## Heights of floors -/

/-- The place of a version in the order of versions; text that is no version is below all of
them. -/
def rank (v : String) : WithBot Precedence := (parseVersion v).map precedence

/-- The floors as a point of a lattice. -/
abbrev Height := WithBot Precedence × ℕ × ℕ × ℕ × ℕ

def height (f : Floors) : Height :=
  (rank f.minVersion, f.minProtocol, f.minSequence, f.securityFloor, f.securityVersion)

def IsVersion (v : String) : Prop := (parseVersion v).isSome = true

theorem precedes_iff {a b : String} :
    Precedes a b ↔ IsVersion a ∧ IsVersion b ∧ rank a ≤ rank b := by
  unfold IsVersion rank
  constructor
  · rintro ⟨v, w, hv, hw, hle⟩
    rw [hv, hw]
    exact ⟨rfl, rfl, WithBot.coe_le_coe.mpr hle⟩
  · rintro ⟨ha, hb, hle⟩
    obtain ⟨v, hv⟩ := Option.isSome_iff_exists.mp ha
    obtain ⟨w, hw⟩ := Option.isSome_iff_exists.mp hb
    rw [hv, hw] at hle
    exact ⟨v, w, hv, hw, WithBot.coe_le_coe.mp hle⟩

theorem atLeastVersion_iff {value floor : String} :
    atLeastVersion value floor = true ↔ Precedes floor value := by
  unfold atLeastVersion compareVersions
  constructor
  · intro h
    cases hv : parseVersion value with
    | none =>
      rw [hv] at h
      cases h
    | some v =>
      cases hw : parseVersion floor with
      | none =>
        rw [hv, hw] at h
        cases h
      | some w =>
        rw [hv, hw] at h
        have hne : compareVersion v w ≠ .lt := by simpa using h
        exact ⟨w, v, hw, hv, compareVersion_ne_lt.mp hne⟩
  · rintro ⟨w, v, hw, hv, hle⟩
    have hne := compareVersion_ne_lt.mpr hle
    rw [hv, hw]
    simpa using hne

theorem maxVersion_rank {a b : String} (ha : IsVersion a) (hb : IsVersion b) :
    IsVersion (maxVersion a b) ∧ rank (maxVersion a b) = rank a ⊔ rank b := by
  unfold maxVersion
  split_ifs with h
  · obtain ⟨-, -, hle⟩ := precedes_iff.mp (atLeastVersion_iff.mp h)
    exact ⟨ha, (sup_eq_left.mpr hle).symm⟩
  · have hle : rank a ≤ rank b := by
      by_contra hlt
      exact h (atLeastVersion_iff.mpr (precedes_iff.mpr ⟨hb, ha, le_of_not_ge hlt⟩))
    exact ⟨hb, (sup_eq_right.mpr hle).symm⟩

theorem height_merge {a b : Floors} (ha : IsVersion a.minVersion) (hb : IsVersion b.minVersion) :
    IsVersion (mergeFloors a b).minVersion ∧ height (mergeFloors a b) = height a ⊔ height b := by
  obtain ⟨hversion, hrank⟩ := maxVersion_rank ha hb
  refine ⟨hversion, ?_⟩
  have hfirst : (height (mergeFloors a b)).1 = (height a ⊔ height b).1 := hrank
  exact Prod.ext hfirst rfl

theorem equalFloors_iff {a b : Floors} :
    equalFloors a b = true ↔ IsVersion a.minVersion ∧ IsVersion b.minVersion ∧
    height a = height b := by
  have hversions : compareVersions a.minVersion b.minVersion = some .eq ↔
      IsVersion a.minVersion ∧ IsVersion b.minVersion ∧ rank a.minVersion = rank b.minVersion := by
    unfold compareVersions IsVersion rank
    cases hv : parseVersion a.minVersion with
    | none => simp
    | some v =>
      cases hw : parseVersion b.minVersion with
      | none => simp
      | some w =>
        change some (compareVersion v w) = some .eq ↔ _ ∧ _ ∧
          (precedence v : WithBot Precedence) = precedence w
        rw [Option.some_inj, compareVersion_eq_eq, WithBot.coe_inj]
        simp
  unfold equalFloors
  rw [decide_eq_true_iff, hversions]
  simp only [height, Prod.mk.injEq]
  tauto

theorem policyNotBelow_iff {p : Policy} {f : Floors} :
    policyNotBelow p f = true ↔ IsVersion f.minVersion ∧
    IsVersion p.minVersion ∧ rank f.minVersion ≤ rank p.minVersion ∧ f.minProtocol ≤ p.minProtocol ∧
    f.minSequence ≤ p.minSequence ∧ f.securityFloor ≤ p.securityFloor := by
  unfold policyNotBelow
  rw [Bool.and_eq_true, Bool.and_eq_true, Bool.and_eq_true, atLeastVersion_iff, precedes_iff,
    decide_eq_true_iff, decide_eq_true_iff, decide_eq_true_iff]
  tauto

/-! ## Files are read back -/

theorem safePositive_lt {n : ℕ} (h : safePositive n = true) : n < 2 ^ 64 := by
  unfold safePositive maxSafeInteger at h
  rw [decide_eq_true_iff] at h
  omega

theorem decodeFloors_encode {f : Floors} (hprotocol : f.minProtocol < 2 ^ 64)
    (hsequence : f.minSequence < 2 ^ 64) (hfloor : f.securityFloor < 2 ^ 64)
    (hversion : f.securityVersion < 2 ^ 64) :
    decodeFloors (encodeFloors f) = some f := by
  have hfields : decodeFloors (encodeFloors f) =
      ((ofNat f.minProtocol).uint?.bind fun a => (ofNat f.minSequence).uint?.bind fun b =>
        (ofNat f.securityFloor).uint?.bind fun c => (ofNat f.securityVersion).uint?.bind fun d =>
        some (Floors.mk f.minVersion a b c d)) := rfl
  rw [hfields, uint?_ofNat hprotocol, uint?_ofNat hsequence, uint?_ofNat hfloor,
    uint?_ofNat hversion]
  rfl

theorem validateMetadata_ranges {m : Metadata} (h : validateMetadata m = true) :
    m.protocol < 2 ^ 64 ∧
    (-2 ^ 63 ≤ m.artifactSize ∧ m.artifactSize < 2 ^ 63) ∧
    (-2 ^ 63 ≤ m.issuedAt ∧ m.issuedAt < 2 ^ 63) ∧
    (-2 ^ 63 ≤ m.expiresAt ∧ m.expiresAt < 2 ^ 63) ∧ safePositive m.releaseSequence = true ∧
    safePositive m.securityVersion = true ∧ safePositive m.securityFloor = true := by
  unfold validateMetadata at h
  simp only [Bool.and_eq_true, Bool.not_eq_true', decide_eq_false_iff_not, not_or,
    not_lt, not_le] at h
  obtain ⟨⟨⟨⟨⟨⟨⟨⟨⟨⟨-⟩, -⟩, -⟩, hsize⟩, -⟩, htimes⟩, hsequence⟩, hversion⟩, hfloor⟩, -⟩ := h
  unfold maxArtifactBytes at hsize
  unfold maxTimestamp at htimes
  refine ⟨by omega, by omega, by omega, by omega, hsequence, hversion, hfloor⟩

theorem decodeMetadata_encode {m : Metadata} (h : validateMetadata m = true) :
    decodeMetadataFields (encodeMetadata m) = some m := by
  obtain ⟨hprotocol, hsize, hissued, hexpires, hsequence, hversion, hfloor⟩ :=
    validateMetadata_ranges h
  have hfields : decodeMetadataFields (encodeMetadata m) =
      ((ofNat m.protocol).uint?.bind fun a => (ofInt m.artifactSize).int?.bind fun b =>
        (ofInt m.issuedAt).int?.bind fun c => (ofInt m.expiresAt).int?.bind fun d =>
        (ofNat m.releaseSequence).uint?.bind fun e => (ofNat m.securityVersion).uint?.bind fun f =>
        (ofNat m.securityFloor).uint?.bind fun g =>
        some (Metadata.mk m.product m.platform m.architecture m.channel m.version a m.sourceCommit
          m.artifactName b m.artifactSHA256 c d e f g)) := rfl
  rw [hfields, uint?_ofNat hprotocol, int?_ofInt hsize, int?_ofInt hissued, int?_ofInt hexpires,
    uint?_ofNat (safePositive_lt hsequence), uint?_ofNat (safePositive_lt hversion),
    uint?_ofNat (safePositive_lt hfloor)]
  rfl

def Genuine (s : UpdateVerify.Prims) (scope : Scope) (r : Receipt) : Prop :=
  ∃ old c, Verified s old c r ∧ c.policy.scope = scope

theorem Genuine.decode {s : UpdateVerify.Prims} {scope : Scope} {r : Receipt}
    (h : Genuine s scope r) :
    decodeReceipt (encodeReceipt r) = some r := by
  obtain ⟨old, c, hverified, -⟩ := h
  have hschema : (ofInt r.schemaVersion).int? = some r.schemaVersion := by
    refine int?_ofInt ?_
    rw [hverified.form.1]
    norm_num
  have htime : (ofInt r.verifiedAt).int? = some r.verifiedAt := by
    refine int?_ofInt ?_
    rw [hverified.verifiedAt]
    have hclock := hverified.clock
    unfold maxTimestamp at hclock
    omega
  have hfields : decodeReceipt (encodeReceipt r) =
      ((ofInt r.schemaVersion).int?.bind fun a =>
        (decodeMetadataFields (encodeMetadata r.metadata)).bind fun m =>
        (ofInt r.verifiedAt).int?.bind fun t =>
        some (Receipt.mk a r.status r.keyID r.metadataSHA256 m t r.idempotent)) := rfl
  rw [hfields, hschema, decodeMetadata_encode hverified.valid, htime]
  rfl

structure Floors.InRange (f : Floors) : Prop where
  protocol : f.minProtocol < 2 ^ 64
  sequence : f.minSequence < 2 ^ 64
  floor : f.securityFloor < 2 ^ 64
  version : f.securityVersion < 2 ^ 64

section

variable {File : Type} {s : Prims File}

variable {a : Registration} {st : State}

theorem readRegistration_print (hschema : a.schemaVersion = 1)
    (hrevision : a.initialRevision < 2 ^ 64)
    (hsize : s.codec.size (s.codec.print (encodeRegistration a)) ≤ maxStateBytes) :
    readRegistration s (s.codec.print (encodeRegistration a)) = some a := by
  refine strictDecode_print hsize rfl rfl ?_
  have hfields : decodeRegistration (encodeRegistration a) =
      ((ofInt a.schemaVersion).int?.bind fun v => (ofNat a.initialRevision).uint?.bind fun n =>
        some (Registration.mk v a.id a.scope n a.initialSHA256 a.initialPolicyJSON)) := rfl
  rw [hfields, int?_ofInt (by rw [hschema]; norm_num), uint?_ofNat hrevision]
  rfl

set_option maxRecDepth 4096 in
theorem encodeState_strict (st : State) :
    (scan limits 0 0 (encodeState st)).isSome = true ∧
    jsonShape (encodeState st) stateShape = true := by
  obtain ⟨version, id, sc, revision, sha, json, floors, -, previous⟩ := st
  cases previous with
  | none => exact ⟨rfl, rfl⟩
  | some => exact ⟨rfl, rfl⟩

theorem readState_print {scope : Scope} (hschema : st.schemaVersion = 1)
    (hrevision : st.policyRevision < 2 ^ 64) (hfloors : st.floors.InRange)
    (hprevious : ∀ r ∈ st.previous, Genuine s.verifier scope r)
    (hsize : s.codec.size (s.codec.print (encodeState st)) ≤ maxStateBytes) :
    readState s (s.codec.print (encodeState st)) = some st := by
  obtain ⟨version, id, sc, revision, sha, json, floors, has, previous⟩ := st
  have hnumber : (ofInt version).int? = some version := by
    refine int?_ofInt ?_
    have hone : version = 1 := hschema
    omega
  have hread := decodeFloors_encode hfloors.protocol hfloors.sequence hfloors.floor hfloors.version
  obtain ⟨hscan, hshape⟩ := encodeState_strict
    ⟨version, id, sc, revision, sha, json, floors, has, previous⟩
  refine strictDecode_print hsize hscan hshape ?_
  cases previous with
  | none =>
    have hfields : decodeState
      (encodeState ⟨version, id, sc, revision, sha, json, floors, has, none⟩) =
        ((ofInt version).int?.bind fun v => (ofNat revision).uint?.bind fun n =>
          (decodeFloors (encodeFloors floors)).bind fun f =>
          some (State.mk v id sc n sha json f has none)) := rfl
    rw [hfields, hnumber, uint?_ofNat hrevision, hread]
    rfl
  | some r =>
    have hfields : decodeState
      (encodeState ⟨version, id, sc, revision, sha, json, floors, has, some r⟩) =
        ((ofInt version).int?.bind fun v => (ofNat revision).uint?.bind fun n =>
          (decodeFloors (encodeFloors floors)).bind fun f =>
            ((decodeReceipt (encodeReceipt r)).map some).bind fun p =>
          some (State.mk v id sc n sha json f has p)) := rfl
    rw [hfields, hnumber, uint?_ofNat hrevision, hread, (hprevious r rfl).decode]
    rfl

/-! ## Sound files -/

theorem decodePolicy_some {raw : String} {d : PolicyDocument × Policy}
    (h : decodePolicy s raw = some d) :
    validDocument d.1 = true ∧ validatePolicy s.verifier d.2 = true ∧ d.2.scope = d.1.scope := by
  obtain ⟨doc, -, h⟩ := Option.bind_eq_some_iff.mp h
  split_ifs at h with hdoc
  obtain ⟨keys, -, h⟩ := Option.bind_eq_some_iff.mp h
  split_ifs at h with hpolicy
  obtain rfl := Option.some.inj h
  exact ⟨hdoc, hpolicy, rfl⟩

/-- What the two files of a home satisfy. -/
structure Sound (s : Prims File) (a : Registration) (st : State)
    (initial current : PolicyDocument × Policy) :
    Prop where
  consistent : consistent s a st = true
  readInitial : decodePolicy s a.initialPolicyJSON = some initial
  initialOf : initial.1.scope = a.scope ∧ initial.1.revision = a.initialRevision
  readCurrent : decodePolicy s st.policyJSON = some current
  currentOf : current.1.scope = st.scope ∧ current.1.revision = st.policyRevision
  above : policyNotBelow current.2 (policyFloors initial.2) = true
  first : st.policyRevision = a.initialRevision → st.policySHA256 = a.initialSHA256
  genuine : ∀ r ∈ st.previous, Genuine s.verifier st.scope r
  floors : equalFloors st.floors (expectedFloors initial.2 current.2 st.previous) = true

theorem consistent_iff :
    consistent s a st = true ↔ (a.schemaVersion = 1 ∧ st.schemaVersion = 1) ∧
    exactHex a.id 16 = true ∧
      a.id = st.id ∧ a.scope = st.scope ∧ validScope a.scope = true ∧
      safeRevision a.initialRevision = true ∧
      safeRevision st.policyRevision = true ∧ a.initialRevision ≤ st.policyRevision ∧
      (exactHex a.initialSHA256 32 = true ∧ hash s (bytes a.initialPolicyJSON) = a.initialSHA256) ∧
      (exactHex st.policySHA256 32 = true ∧ hash s (bytes st.policyJSON) = st.policySHA256) ∧
      st.hasPrevious = st.previous.isSome := by
  unfold consistent
  simp only [Bool.and_eq_true, Bool.not_eq_true', decide_eq_true_eq,
    decide_eq_false_iff_not, not_lt]
  tauto

theorem safePositive_max {m n : ℕ} (hm : safePositive m = true) (hn : safePositive n = true) :
    safePositive (max m n) = true := by
  rcases max_choice m n with h | h <;> rw [h] <;> assumption

theorem validatePolicy_floors {p : Policy} (h : validatePolicy s.verifier p = true) :
    IsVersion p.minVersion ∧
    (0 < p.minProtocol ∧ p.minProtocol ≤ p.maxProtocol ∧ p.maxProtocol ≤ 1024) ∧
      safePositive p.minSequence = true ∧ safePositive p.securityFloor = true := by
  have hversion := validatePolicy_version h
  unfold validatePolicy at h
  simp only [Bool.and_eq_true, Bool.not_eq_true', decide_eq_false_iff_not, not_or, not_lt] at h
  obtain ⟨⟨⟨⟨⟨⟨⟨-, hprotocol⟩, hsequence⟩, hfloor⟩, -⟩, -⟩, -⟩, -⟩ := h
  exact ⟨hversion, ⟨Nat.pos_of_ne_zero hprotocol.1, hprotocol.2⟩, hsequence, hfloor⟩

theorem validatePolicy_raise {p : Policy} {version : String} {protocol sequence floor : ℕ}
    (h : validatePolicy s.verifier p = true) (hversion : IsVersion version)
    (hprotocol : p.minProtocol ≤ protocol ∧ protocol ≤ p.maxProtocol)
    (hsequence : safePositive sequence = true) (hfloor : safePositive floor = true) :
    validatePolicy s.verifier { p with minVersion := version, minProtocol := protocol
                                       minSequence := sequence, securityFloor := floor } = true := by
  obtain ⟨-, ⟨hpos, -, hmax⟩, -, -⟩ := validatePolicy_floors h
  have hrange : ¬ (protocol = 0 ∨ p.maxProtocol < protocol ∨ 1024 < p.maxProtocol) := by omega
  unfold validatePolicy at h ⊢
  simp only [Bool.and_eq_true] at h ⊢
  obtain ⟨⟨⟨⟨⟨⟨⟨⟨hscope, -⟩, -⟩, -⟩, -⟩, hsize⟩, hvalidity⟩, hcount⟩, hkeys⟩ := h
  exact ⟨⟨⟨⟨⟨⟨⟨⟨hscope, hversion⟩, by simpa using hrange⟩, hsequence⟩, hfloor⟩, hsize⟩, hvalidity⟩,
    hcount⟩, hkeys⟩

variable {initial current : PolicyDocument × Policy} (h : Sound s a st initial current)

include h

theorem Sound.bounds :
    st.floors.minProtocol = current.2.minProtocol ∧ safePositive st.floors.minSequence = true ∧
      safePositive st.floors.securityFloor = true ∧
      safePositive st.floors.securityVersion = true := by
  obtain ⟨-, -, hsequence, hfloor⟩ := validatePolicy_floors (decodePolicy_some h.readInitial).2.1
  obtain ⟨-, -, hsequence', hfloor'⟩ := validatePolicy_floors (decodePolicy_some h.readCurrent).2.1
  obtain ⟨-, -, -, habove, -⟩ := policyNotBelow_iff.mp h.above
  have hprotocol : initial.2.minProtocol ≤ current.2.minProtocol := habove
  have hfloors := h.floors
  unfold equalFloors at hfloors
  rw [decide_eq_true_iff] at hfloors
  obtain ⟨-, hp, hq, hf, hv⟩ := hfloors
  rw [hp, hq, hf, hv]
  cases hprevious : st.previous with
  | none =>
    exact ⟨max_eq_right hprotocol, safePositive_max hsequence hsequence',
      safePositive_max hfloor hfloor', safePositive_max hfloor hfloor'⟩
  | some r =>
    obtain ⟨old, c, hverified, -⟩ := h.genuine r hprevious
    obtain ⟨-, -, -, -, hseq, hver, hflo⟩ := validateMetadata_ranges hverified.valid
    refine ⟨?_, safePositive_max (safePositive_max hsequence hsequence') hseq,
      safePositive_max (safePositive_max hfloor hfloor') hflo,
      safePositive_max (safePositive_max hfloor hfloor') hver⟩
    change max (max initial.2.minProtocol current.2.minProtocol) 0 = current.2.minProtocol
    rw [max_eq_right hprotocol, Nat.max_zero]

theorem Sound.inRange : st.floors.InRange := by
  obtain ⟨hprotocol, hsequence, hfloor, hversion⟩ := h.bounds
  obtain ⟨-, ⟨-, hle, hmax⟩, -, -⟩ := validatePolicy_floors (decodePolicy_some h.readCurrent).2.1
  exact ⟨by omega, safePositive_lt hsequence, safePositive_lt hfloor, safePositive_lt hversion⟩

theorem Sound.effective :
    validatePolicy s.verifier (effectivePolicy current.2 st.floors) = true ∧
      policyNotBelow (effectivePolicy current.2 st.floors) st.floors = true := by
  obtain ⟨hprotocol, hsequence, hfloor, -⟩ := h.bounds
  have hvalid := (decodePolicy_some h.readCurrent).2.1
  obtain ⟨hversion, ⟨-, hle, -⟩, hsequence', hfloor'⟩ := validatePolicy_floors hvalid
  obtain ⟨hfloors, -, -⟩ := equalFloors_iff.mp h.floors
  obtain ⟨hmax, hrank⟩ := maxVersion_rank hversion hfloors
  constructor
  · exact validatePolicy_raise hvalid hmax ⟨le_max_left _ _, by omega⟩
      (safePositive_max hsequence' hsequence)
      (safePositive_max hfloor' hfloor)
  · refine policyNotBelow_iff.mpr
      ⟨hfloors, hmax, ?_, le_max_right _ _, le_max_right _ _, le_max_right _ _⟩
    exact le_of_le_of_eq le_sup_right hrank.symm

/-- The last receipt of sound files is trusted, until the end of the calendar. -/
theorem Sound.trusted {r : Receipt} {now : ℤ} (hr : st.previous = some r)
    (htime : r.verifiedAt ≤ now) (hnow : now ≤ maxTimestamp) :
    trustedPrevious s r current.2 now = true := by
  obtain ⟨old, c, hverified, hscope⟩ := h.genuine r hr
  obtain ⟨-, hvalid, hpolicy⟩ := decodePolicy_some h.readCurrent
  have hclock := hverified.clock
  have hafter : c.now ≤ now := hverified.verifiedAt ▸ htime
  have hsame : current.2.scope = c.policy.scope := by
    rw [hpolicy, h.currentOf.1, hscope]
  have hrange : ¬ (now ≤ 0 ∨ maxTimestamp < now) := by omega
  unfold trustedPrevious
  rw [hvalid, hverified.accepted hsame hafter]
  simpa using hrange

/-- The checks of sound files never find them corrupt, until the end of the calendar. -/
theorem Sound.check_avoids {scope : Scope} {now : ℤ}
    (hprevious : ∀ r ∈ st.previous, r.verifiedAt ≤ now) (hnow : now ≤ maxTimestamp) :
    check s a st scope now ≠ .error .corruptState := by
  refine deny_bind_avoids (fun _ => ?_) fun hbad => by simp [h.consistent] at hbad
  refine deny_bind_avoids fun _ => ?_
  rw [h.readInitial]
  refine deny_bind_avoids (fun _ => ?_) fun hbad => by simp [h.initialOf] at hbad
  rw [h.readCurrent]
  refine deny_bind_avoids (fun _ => ?_) fun hbad => ?_
  swap
  · have hfirst := h.first
    simp only [h.currentOf, h.above, decide_eq_true_eq] at hbad
    tauto
  refine deny_bind_avoids (fun _ => ?_) fun hbad => ?_
  swap
  · cases hprev : st.previous with
    | none => simp [hprev] at hbad
    | some r =>
      have htrusted := h.trusted hprev (hprevious r hprev) hnow
      simp [hprev, htrusted] at hbad
  refine deny_bind_avoids (fun _ => ?_) fun hbad => by simp [h.floors] at hbad
  exact nofun

end

end DaxiangVpn.UpdateClient
