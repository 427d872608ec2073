import DaxiangVpn.DeviceClientChanges

/-!
# Sound states of the device client

A sound state passes the checks of `load`, has its numbers in range, and an intent that binds an
address leaves room for the next generation. What is saved of a sound state is read back.
-/

namespace DaxiangVpn.DeviceClient

open StrictJson List Option

/-! ## Optional members -/

theorem lookup_single (name key : String) (j : Json) :
    [(name, j)].lookup key = if key = name then some j else none := by
  rw [lookup_cons, lookup_nil]
  split_ifs with h
  · rw [h, beq_self_eq_true]
  · rw [beq_eq_false_iff_ne.mpr h]

variable {α : Type} {p : Profile} {name : String}

theorem lookup_omitNone (name : String) (encode : α → Json) (o : Option α) (key : String) :
    (omitNone name encode o).lookup key = if key = name then o.map encode else none := by
  cases o with
  | none => exact (ite_self none).symm
  | some a => exact lookup_single name key (encode a)

theorem lookup_omitEmpty (name v key : String) :
    (omitEmpty name v).lookup key = if key = name then (if v ≠ "" then some (.string v) else none)
      else none := by
  unfold omitEmpty
  by_cases hv : v = ""
  · rw [if_pos hv, if_neg (not_not.mpr hv), ite_self]
    rfl
  · rw [if_neg hv, if_pos hv]
    exact lookup_single name key (.string v)

theorem lookup_omitFalse (name key : String) (b : Bool) :
    (omitFalse name b).lookup key = if key = name then
      (if b = true then some (.bool true) else none) else none := by
  cases b with
  | false => exact (ite_self none).symm
  | true => exact lookup_single name key (.bool true)

theorem textOr_omitEmpty (v : String) :
    textOr (if v ≠ "" then some (.string v) else none) = some v := by
  by_cases hv : v = ""
  · rw [if_neg (not_not.mpr hv), hv]
    rfl
  · rw [if_pos hv]
    rfl

theorem flagOr_omitFalse (b : Bool) :
    flagOr (if b = true then some (.bool true) else none) = some b := by
  cases b <;> rfl

theorem decodeOr_map {encode : α → Json} {decode : Json → Option α} {o : Option α}
    (h : ∀ a ∈ o, decode (encode a) = some a) : decodeOr decode (o.map encode) = some o := by
  cases o with
  | none => rfl
  | some a =>
    change (decode (encode a)).map some = some (some a)
    rw [h a rfl]
    rfl

/-! ## Records -/

/-- Numbers of sixty-four bits. -/
def InRange (z : ℤ) : Prop := -2 ^ 63 ≤ z ∧ z < 2 ^ 63

theorem decodeCredential_encode {c : Credential} (h : InRange c.expiresUnixSeconds) :
    decodeCredential (encodeCredential c) = some c := by
  have hfields : decodeCredential (encodeCredential c) =
    ((ofInt c.expiresUnixSeconds).int?.bind fun t =>
        some (Credential.mk c.deviceId c.credentialId c.authPublicKey t)) := rfl
  rw [hfields, int?_ofInt h]
  rfl

theorem decodeBinding_encode {w : LocalBinding} (hgeneration : InRange w.generation)
    (happlied : InRange w.appliedGeneration) : decodeBinding (encodeBinding w) = some w := by
  have hfields : decodeBinding (encodeBinding w) =
      ((ofInt w.generation).int?.bind fun g => (ofInt w.appliedGeneration).int?.bind fun a =>
        some (LocalBinding.mk w.privateKey w.publicKey w.address g a w.operationID)) := rfl
  rw [hfields, int?_ofInt hgeneration, int?_ofInt happlied]
  rfl

theorem mapM_text_ofTexts (texts : List String) :
    (Items.ofTexts texts).toList.mapM Json.text? = some texts := by
  induction texts with
  | nil => rfl
  | cons v rest ih =>
    rw [Items.ofTexts, Items.toList, mapM_cons, ih]
    rfl

theorem decodeProfile_encode (hversion : InRange p.version) (hrevision : InRange p.revision) :
    decodeProfile (encodeProfile p) = some p := by
  have hfields : decodeProfile (encodeProfile p) =
      ((ofInt p.version).int?.bind fun v => (ofInt p.revision).int?.bind fun r =>
        ((Items.ofTexts p.allowedIps).toList.mapM Json.text?).bind fun texts =>
        some (Profile.mk v p.authorityEpoch p.managedBy p.wgInterface r p.wgEndpoint
          p.wgPublicKey p.proxyAddress
          p.egressId p.egressName texts)) := rfl
  rw [hfields, int?_ofInt hversion, int?_ofInt hrevision, mapM_text_ofTexts]
  rfl

theorem decodeIntent_encode {p : Intent} (h : ∀ g ∈ p.expectedGeneration, InRange g) :
    decodeIntent (encodeIntent p) = some p := by
  have hgeneration : decodeOr Json.int? (p.expectedGeneration.map ofInt) =
    some p.expectedGeneration :=
    decodeOr_map fun g hg => int?_ofInt (h g hg)
  simp only [decodeIntent, encodeIntent, get_obj, lookup_append, lookup_omitEmpty, lookup_omitNone,
    lookup_cons, lookup_nil, String.reduceBEq, String.reduceEq, if_true, if_false,
    or_none, none_or, textOr_omitEmpty, hgeneration]
  change (Command.ofText p.kind.text).bind _ = some p
  rw [Command.ofText_text]
  rfl

structure State.InRange (st : State) : Prop where
  version : DeviceClient.InRange st.version
  credential : ∀ c ∈ st.credential, DeviceClient.InRange c.expiresUnixSeconds
  pending : ∀ p ∈ st.pending, ∀ g ∈ p.expectedGeneration, DeviceClient.InRange g
  wireGuard : ∀ w ∈ st.wireGuard, DeviceClient.InRange w.generation ∧
    DeviceClient.InRange w.appliedGeneration
  proxyProfile : ∀ p ∈ st.proxyProfile, DeviceClient.InRange p.version ∧
    DeviceClient.InRange p.revision

theorem decodeState_encode {st : State} (h : st.InRange) :
    decodeState (encodeState st) = some st := by
  have hcredential := decodeOr_map fun c hc => decodeCredential_encode (h.credential c hc)
  have hpending := decodeOr_map fun p hp => decodeIntent_encode (h.pending p hp)
  have hwireGuard := decodeOr_map fun w hw => decodeBinding_encode (h.wireGuard w hw).1
    (h.wireGuard w hw).2
  have hprofile := decodeOr_map fun p hp => decodeProfile_encode (h.proxyProfile p hp).1
    (h.proxyProfile p hp).2
  simp only [decodeState, encodeState, get_obj, lookup_append, lookup_omitNone, lookup_omitFalse,
    lookup_cons, lookup_nil, String.reduceBEq, String.reduceEq, if_true, if_false, or_none,
    none_or, hcredential, hpending, flagOr_omitFalse, hwireGuard, hprofile]
  change (ofInt st.version).int?.bind _ = some st
  rw [int?_ofInt h.version]
  rfl

/-! ## Shapes and bounds -/

variable {m : String × Json}

theorem mem_omitNone {encode : α → Json} {o : Option α}
    (h : m ∈ omitNone name encode o) : ∃ a ∈ o, m = (name, encode a) := by
  cases o with
  | none => cases h
  | some a => exact ⟨a, rfl, mem_singleton.mp h⟩

theorem mem_omitEmpty {v : String} (h : m ∈ omitEmpty name v) : m = (name, .string v) := by
  unfold omitEmpty at h
  split_ifs at h
  · cases h
  · exact mem_singleton.mp h

theorem mem_omitFalse {b : Bool} (h : m ∈ omitFalse name b) : m = (name, .bool true) := by
  unfold omitFalse at h
  split_ifs at h
  · exact mem_singleton.mp h
  · cases h

theorem omitNone_names (name : String) (encode : α → Json) (o : Option α) :
    ((omitNone name encode o).map Prod.fst).Sublist [name] := by
  cases o with
  | none => exact nil_sublist _
  | some => exact List.Sublist.refl _

theorem omitEmpty_names (name v : String) : ((omitEmpty name v).map Prod.fst).Sublist [name] := by
  unfold omitEmpty
  split_ifs
  · exact nil_sublist _
  · exact List.Sublist.refl _

theorem omitFalse_names (name : String) (b : Bool) :
    ((omitFalse name b).map Prod.fst).Sublist [name] := by
  cases b with
  | false => exact nil_sublist _
  | true => exact List.Sublist.refl _

theorem encodeIntent_shape (p : Intent) : jsonShape (encodeIntent p) intentShape = true := by
  refine jsonShape_obj nofun fun m hm => ?_
  simp only [mem_append, mem_cons, not_mem_nil, or_false] at hm
  rcases hm with ((((rfl | rfl) | hm) | hm) | hm) | hm
  · rfl
  · rfl
  · rw [mem_omitEmpty hm]
    rfl
  · rw [mem_omitEmpty hm]
    rfl
  · obtain ⟨g, -, rfl⟩ := mem_omitNone hm
    rfl
  · rw [mem_omitEmpty hm]
    rfl

theorem shapeItems_ofTexts (texts : List String) :
    shapeItems (Items.ofTexts texts) .text = true := by
  induction texts with
  | nil => rfl
  | cons v rest ih => exact ih

theorem encodeProfile_shape (p : Profile) : jsonShape (encodeProfile p) profileShape = true := by
  have hshape : jsonShape (encodeProfile p) profileShape =
      (shapeItems (Items.ofTexts p.allowedIps) .text && true) := rfl
  rw [hshape, shapeItems_ofTexts]
  rfl

theorem encodeState_shape (st : State) : jsonShape (encodeState st) stateShape = true := by
  refine jsonShape_obj (fun name hname => ?_) fun m hm => ?_
  · rcases mem_cons.mp hname with rfl | hname
    · rfl
    · rcases mem_cons.mp hname with rfl | hname
      · rfl
      · rw [mem_singleton.mp hname]
        rfl
  · simp only [mem_append, mem_cons, not_mem_nil, or_false] at hm
    rcases hm with (((((rfl | rfl | rfl) | hm) | hm) | hm) | hm) | hm
    · rfl
    · rfl
    · rfl
    · obtain ⟨c, -, rfl⟩ := mem_omitNone hm
      rfl
    · obtain ⟨p, -, rfl⟩ := mem_omitNone hm
      exact encodeIntent_shape p
    · rw [mem_omitFalse hm]
      rfl
    · obtain ⟨w, -, rfl⟩ := mem_omitNone hm
      rfl
    · obtain ⟨p, -, rfl⟩ := mem_omitNone hm
      exact encodeProfile_shape p

theorem encodeIntent_within (p : Intent) : Within limits 1 (encodeIntent p) := by
  refine within_obj rfl (by decide) ?_ fun m hm => ?_
  · have hnames : (["kind", "request_id"] ++ ["idempotency_key"] ++ ["new_private_key"] ++
      ["expected_generation"] ++
        ["bind_address"]).Nodup := by decide
    refine List.Sublist.nodup ?_ hnames
    simp only [map_append]
    exact ((((List.Sublist.refl _).append (omitEmpty_names _ _)).append
      (omitEmpty_names _ _)).append
      (omitNone_names _ _ _)).append (omitEmpty_names _ _)
  · simp only [mem_append, mem_cons, not_mem_nil, or_false] at hm
    rcases hm with ((((rfl | rfl) | hm) | hm) | hm) | hm
    · exact within_string rfl (by decide) _
    · exact within_string rfl (by decide) _
    · rw [mem_omitEmpty hm]
      exact within_string rfl (by decide) _
    · rw [mem_omitEmpty hm]
      exact within_string rfl (by decide) _
    · obtain ⟨g, -, rfl⟩ := mem_omitNone hm
      exact within_ofInt rfl (by decide) g
    · rw [mem_omitEmpty hm]
      exact within_string rfl (by decide) _

theorem encodeProfile_within (h : p.allowedIps.length = 1) : Within limits 1 (encodeProfile p) := by
  obtain ⟨route, hroute⟩ := length_eq_one_iff.mp h
  intro n
  unfold encodeProfile
  rw [hroute]
  rfl

theorem encodeState_within {st : State} (h : ∀ p ∈ st.proxyProfile, p.allowedIps.length = 1) :
    Within limits 0 (encodeState st) := by
  refine within_obj rfl (by decide) ?_ fun m hm => ?_
  · have hnames : (["version", "server", "private_key"] ++ ["credential"] ++ ["pending"] ++
      ["wireguard_initialized"] ++
        ["wireguard"] ++ ["proxy_profile"]).Nodup := by decide
    refine List.Sublist.nodup ?_ hnames
    simp only [map_append]
    exact (((((List.Sublist.refl _).append (omitNone_names _ _ _)).append
      (omitNone_names _ _ _)).append
      (omitFalse_names _ _)).append (omitNone_names _ _ _)).append (omitNone_names _ _ _)
  · simp only [mem_append, mem_cons, not_mem_nil, or_false] at hm
    rcases hm with (((((rfl | rfl | rfl) | hm) | hm) | hm) | hm) | hm
    · exact within_ofInt rfl (by decide) _
    · exact within_string rfl (by decide) _
    · exact within_string rfl (by decide) _
    · obtain ⟨c, -, rfl⟩ := mem_omitNone hm
      exact fun n => rfl
    · obtain ⟨p, -, rfl⟩ := mem_omitNone hm
      exact encodeIntent_within p
    · rw [mem_omitFalse hm]
      exact within_bool rfl (by decide) true
    · obtain ⟨w, -, rfl⟩ := mem_omitNone hm
      exact fun n => rfl
    · obtain ⟨p, hp, rfl⟩ := mem_omitNone hm
      exact encodeProfile_within (h p hp)

section

variable {File : Type} {s : Prims File}

/-! ## Valid and sound states -/

/-- The checks of `load`. -/
structure Valid (s : Prims File) (st : State) : Prop where
  version : st.version = DeviceClient.version
  keyless : st.privateKey = "" → st.credential = none ∧ st.pending = none
  key : st.privateKey ≠ "" → (privateKey s st.privateKey).isSome = true
  credential : ∀ c ∈ st.credential, validCredential s st c = true
  initialized : st.wireGuardInitialized = st.wireGuard.isSome
  wireGuard : ∀ w ∈ st.wireGuard, validBinding s st w = true
  proxyProfile : ∀ p ∈ st.proxyProfile, validProfile s st p = true
  pending : ∀ p ∈ st.pending, validIntent s st p = true

/-- `load` checks exactly this. -/
theorem valid_iff (st : State) : valid s st = true ↔ Valid s st := by
  have hkeys : validKeys s st = true ↔
    (st.privateKey = "" → st.credential = none ∧ st.pending = none) ∧
      (st.privateKey ≠ "" → (privateKey s st.privateKey).isSome = true) := by
    unfold validKeys
    split_ifs with h
    · exact ⟨fun hkey => ⟨fun hnone => absurd hnone h, fun _ => hkey⟩, fun hkey => hkey.2 h⟩
    · rw [not_not] at h
      rw [Bool.and_eq_true, isNone_iff_eq_none, isNone_iff_eq_none]
      exact ⟨fun hnone => ⟨fun _ => hnone, fun hne => absurd h hne⟩, fun hnone => hnone.1 h⟩
  simp only [valid, Bool.and_eq_true, decide_eq_true_eq, Option.all_eq_true, hkeys]
  constructor
  · rintro ⟨⟨⟨⟨⟨⟨hversion, hkeyless, hkey⟩, hcredential⟩, hinitialized⟩, hwireGuard⟩, hprofile⟩,
      hpending⟩
    exact ⟨hversion, hkeyless, hkey, hcredential, hinitialized, hwireGuard, hprofile, hpending⟩
  · intro h
    exact ⟨⟨⟨⟨⟨⟨h.version, h.keyless, h.key⟩, h.credential⟩, h.initialized⟩, h.wireGuard⟩,
      h.proxyProfile⟩, h.pending⟩

variable {st : State}

theorem Valid.unbound (h : Valid s st) (hw : st.wireGuard = none) : st.proxyProfile = none := by
  cases hprofile : st.proxyProfile with
  | none => rfl
  | some p =>
    have hvalid := h.proxyProfile p hprofile
    rw [validProfile, hw] at hvalid
    cases hvalid

theorem Valid.inactive (h : Valid s st) (hcredential : st.credential = none) :
    st.wireGuard = none := by
  cases hw : st.wireGuard with
  | none => rfl
  | some w =>
    have hvalid := h.wireGuard w hw
    rw [validBinding, hcredential] at hvalid
    cases hvalid

/-- A valid state with its numbers in range, and room for the generation that an intent binds. -/
structure Sound (s : Prims File) (st : State) : Prop extends Valid s st where
  expires : ∀ c ∈ st.credential, c.expiresUnixSeconds < 2 ^ 63
  generation : ∀ p ∈ st.pending, ∀ g ∈ p.expectedGeneration, g < 2 ^ 63
  room : ∀ p ∈ st.pending, p.bindAddress ≠ "" → ∀ g ∈ p.expectedGeneration, g < proxySafeInteger

theorem validBinding_range {w : LocalBinding} (h : validBinding s st w = true) : 0 ≤ w.generation ∧
    w.generation ≤ proxySafeInteger ∧ 0 ≤ w.appliedGeneration ∧
    w.appliedGeneration ≤ w.generation := by
  simp only [validBinding, Bool.and_eq_true, decide_eq_true_eq] at h
  exact ⟨h.1.1.1.1.2, h.1.1.1.2, h.1.1.2, h.1.2⟩

theorem validIntent_generation {p : Intent} (h : validIntent s st p = true) :
    ∀ g ∈ p.expectedGeneration, 0 ≤ g := by
  simp only [validIntent, Bool.and_eq_true] at h
  obtain ⟨⟨-, hmutates⟩, -⟩ := h
  intro g hg
  rw [mem_def] at hg
  rw [hg] at hmutates
  split_ifs at hmutates
  · simp only [Bool.and_eq_true, any_some, decide_eq_true_eq] at hmutates
    exact hmutates.2.1
  · simp at hmutates

theorem validProfile_range (h : validProfile s st p = true) :
    p.version = 1 ∧ 1 ≤ p.revision ∧ p.revision ≤ proxySafeInteger ∧ p.allowedIps.length = 1 := by
  simp only [validProfile, validateProxyRouteProfile, Bool.and_eq_true, decide_eq_true_eq,
    Bool.not_eq_true', decide_eq_false_iff_not, not_or, not_lt, Option.any_eq_true] at h
  obtain ⟨-, ⟨⟨⟨⟨⟨⟨⟨⟨hversion, hrevision⟩, -⟩, -⟩, -⟩, -⟩, -⟩, -⟩, -⟩, ip, -, -, hroute⟩ := h
  exact ⟨hversion, hrevision.1, hrevision.2, by rw [hroute]; rfl⟩

theorem Sound.inRange (h : Sound s st) : st.InRange := by
  refine ⟨?_, fun c hc => ?_, fun p hp g hg => ?_, fun w hw => ?_, fun p hp => ?_⟩
  · rw [h.version]
    exact ⟨by decide, by decide⟩
  · have hcredential := h.credential c hc
    simp only [validCredential, Bool.and_eq_true, decide_eq_true_eq] at hcredential
    exact ⟨by have := hcredential.2; omega, h.expires c hc⟩
  · have hgeneration := validIntent_generation (h.pending p hp) g hg
    exact ⟨by omega, h.generation p hp g hg⟩
  · obtain ⟨hlow, hhigh, happlied, hle⟩ := validBinding_range (h.wireGuard w hw)
    unfold proxySafeInteger at hhigh
    exact ⟨⟨by omega, by omega⟩, by omega, by omega⟩
  · obtain ⟨hversion, hlow, hhigh, -⟩ := validProfile_range (h.proxyProfile p hp)
    unfold proxySafeInteger at hhigh
    exact ⟨⟨by omega, by omega⟩, by omega, by omega⟩

theorem Sound.load (h : Sound s st) (hsize : s.codec.size (file s st) ≤ maxStateBytes) :
    load s (some (some (file s st))) = some st := by
  have hlimit : s.codec.size (file s st) ≤ 2 ^ 20 := by
    unfold maxStateBytes at hsize
    omega
  have hdecode : decode s (file s st) = some st := by
    refine strictDecode_print hlimit ?_ (encodeState_shape st) (decodeState_encode h.inRange)
    exact encodeState_within (fun p hp => (validProfile_range (h.proxyProfile p hp)).2.2.2) 0
  change (if _ then _ else _) = _
  rw [if_neg (by omega), hdecode, filter_some, if_pos ((valid_iff st).mpr h.toValid)]

end

end DaxiangVpn.DeviceClient
