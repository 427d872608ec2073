import DaxiangVpn.DeviceClientSound

/-!
# The route profile of the device client never moves back

The saved profile is a floor: only `PrepareStartLocked` writes it, after a check against the floor
that it loaded. Every other command keeps it, and a new key is made only for a state that has none.
-/

namespace DaxiangVpn.DeviceClient

open EffectPrograms StrictJson TransitionRun Option

section

variable {File : Type} {s : Prims File} {T : ℤ → Prop} {g st : State}

/-! ## The order of profiles -/

/-- A profile may replace another one: the same epoch, no earlier revision, and the same digest for
the same revision. -/
structure Follows (s : Prims File) (old new : Profile) : Prop where
  epoch : old.authorityEpoch = new.authorityEpoch
  revision : old.revision ≤ new.revision
  digest : old.revision = new.revision → proxyRouteProfileDigest s old =
    proxyRouteProfileDigest s new

theorem Follows.refl (p : Profile) : Follows s p p := ⟨rfl, le_rfl, fun _ => rfl⟩

theorem Follows.trans {a b c : Profile} (hab : Follows s a b) (hbc : Follows s b c) :
    Follows s a c := by
  refine ⟨hab.epoch.trans hbc.epoch, hab.revision.trans hbc.revision, fun heq => ?_⟩
  have hle := hab.revision
  have hle' := hbc.revision
  exact (hab.digest (by omega)).trans (hbc.digest (by omega))

theorem profileFollows_ok {old new : Profile} (h : profileFollows s old new = .ok ()) :
    Follows s old new := by
  unfold profileFollows at h
  split_ifs at h with hepoch hrollback
  rw [not_or, not_lt, not_and, not_not] at hrollback
  exact ⟨not_not.mp hepoch, hrollback.1, fun heq => hrollback.2 heq.symm⟩

/-- A floor is kept: a profile stays, or is replaced by one that follows it. -/
def FloorLE (s : Prims File) : Option Profile → Option Profile → Prop
  | none, _ => True
  | some _, none => False
  | some old, some new => Follows s old new

theorem FloorLE.refl (o : Option Profile) : FloorLE s o o := by
  cases o with
  | none => trivial
  | some p => exact Follows.refl p

theorem FloorLE.trans {a b c : Option Profile} (hab : FloorLE s a b) (hbc : FloorLE s b c) :
    FloorLE s a c := by
  cases a with
  | none => trivial
  | some =>
    cases b with
    | none => exact hab.elim
    | some =>
      cases c with
      | none => exact hbc.elim
      | some => exact Follows.trans hab hbc

/-! ## Changes -/

/-- A profile is saved only with a credential, a credential only with a key, and no activation is
pending then. -/
structure Rooted (s : Prims File) (g : State) : Prop where
  credential : g.credential = none → g.proxyProfile = none
  key : g.privateKey = "" → g.credential = none
  pending : ∀ p, g.pending = some p → p.kind = .activate → g.credential = none
  profile : ∀ p, g.proxyProfile = some p → validateProxyRouteProfile s p = true

theorem Valid.rooted (h : Valid s g) : Rooted s g := by
  refine ⟨fun hcredential => ?_, fun hkey => (h.keyless hkey).1,
    fun p hp hkind => ?_, fun p hp => ?_⟩
  · exact h.unbound (h.inactive hcredential)
  · have hintent := h.pending p hp
    simp only [validIntent, Bool.and_eq_true, hkind, decide_true, Bool.true_and, Bool.not_eq_true',
      isSome_eq_false_iff, isNone_iff_eq_none] at hintent
    exact hintent.1.1.2
  · have hprofile := h.proxyProfile p hp
    rw [validProfile, Bool.and_eq_true] at hprofile
    exact hprofile.2

theorem Change.floor (h : Change s T g st) (hg : Rooted s g) :
    Rooted s st ∧ FloorLE s g.proxyProfile st.proxyProfile := by
  cases h with
  | fresh server seed hkey =>
    refine ⟨⟨fun _ => rfl, fun _ => rfl, by simp, by simp⟩, ?_⟩
    rw [hg.credential (hg.key hkey)]
    trivial
  | intend p key hkey hvalid =>
    refine ⟨⟨hg.credential, hg.key, fun q hq hkind => ?_, hg.profile⟩, FloorLE.refl _⟩
    cases hq
    simp only [validIntent, Bool.and_eq_true, hkind, decide_true, Bool.true_and, Bool.not_eq_true',
      isSome_eq_false_iff, isNone_iff_eq_none] at hvalid
    exact hvalid.1.1.2
  | clear => exact ⟨⟨hg.credential, hg.key, by simp, hg.profile⟩, FloorLE.refl _⟩
  | cancelled p hp =>
    refine ⟨⟨hg.credential, fun hkey => ?_, fun p hp => (by cases hp), hg.profile⟩, FloorLE.refl _⟩
    by_cases hkind : p.kind = .activate
    · exact hg.pending p hp hkind
    · exact hg.key (by rw [← hkey]; exact (if_neg hkind).symm)
  | credential p v key cr device now hp hkey =>
    refine ⟨⟨fun hnone => (by cases hnone), fun hnone => ?_, fun p hp => (by cases hp),
      hg.profile⟩, FloorLE.refl _⟩
    exact absurd hnone (privateKey_some (privateKey_encode hkey)).2
  | bindKey =>
    exact ⟨⟨hg.credential, hg.key, hg.pending, hg.profile⟩, FloorLE.refl _⟩
  | accept p op st' hp haccept =>
    have hsame : st'.credential = g.credential ∧ st'.privateKey = g.privateKey ∧
      st'.proxyProfile = g.proxyProfile := by
      rcases acceptBinding_some haccept with ⟨-, rfl⟩ | ⟨-, w, t, -, -, -, rfl⟩
      · exact ⟨rfl, rfl, rfl⟩
      · exact ⟨rfl, rfl, rfl⟩
    obtain ⟨hcredential, hkey, hprofile⟩ := hsame
    refine ⟨⟨fun hnone => ?_, fun hnone => ?_, by simp, fun q hq => ?_⟩, ?_⟩
    · exact hprofile.trans (hg.credential (hcredential.symm.trans hnone))
    · exact hcredential.trans (hg.key (hkey.symm.trans hnone))
    · exact hg.profile q (hprofile.symm.trans hq)
    · change FloorLE s g.proxyProfile st'.proxyProfile
      rw [hprofile]
      exact FloorLE.refl _
  | applied => exact ⟨⟨hg.credential, hg.key, hg.pending, hg.profile⟩, FloorLE.refl _⟩
  | profile w p cr hcredential hw hgeneration hvalid hfollows =>
    refine ⟨⟨fun hnone => ?_, hg.key, hg.pending, fun q hq => ?_⟩, ?_⟩
    · exact absurd (hcredential.symm.trans hnone) (some_ne_none cr)
    · cases hq
      exact hvalid
    · cases hold : g.proxyProfile with
      | none => trivial
      | some old => exact profileFollows_ok (hfollows old hold)

/-! ## The floor of a file -/

def savedFloor (s : Prims File) (f : File) : Option Profile := do
  let j ← s.codec.parse f
  let member ← j.get "proxy_profile"
  decodeProfile member

theorem savedFloor_file (h : Rooted s g) : savedFloor s (file s g) = g.proxyProfile := by
  have hmember : (encodeState g).get "proxy_profile" = g.proxyProfile.map encodeProfile := by
    simp only [encodeState, get_obj, List.lookup_append, lookup_omitNone, lookup_omitFalse,
      List.lookup_cons, List.lookup_nil, String.reduceBEq, String.reduceEq, if_true, if_false,
      or_none, none_or]
  unfold savedFloor file
  rw [s.codec.parse_print, bind_eq_bind, bind_some, hmember]
  cases hp : g.proxyProfile with
  | none => rfl
  | some p =>
    have hvalid := h.profile p hp
    simp only [validateProxyRouteProfile, Bool.and_eq_true, decide_eq_true_eq, Bool.not_eq_true',
      decide_eq_false_iff_not, not_or, not_lt] at hvalid
    obtain ⟨⟨⟨⟨⟨⟨⟨⟨⟨hversion, hlow, hhigh⟩, -⟩, -⟩, -⟩, -⟩, -⟩, -⟩, -⟩, -⟩ := hvalid
    unfold proxySafeInteger at hhigh
    exact decodeProfile_encode ⟨by omega, by omega⟩ ⟨by omega, by omega⟩

theorem decodeState_profile {j : Json} (h : decodeState j = some st) :
    decodeOr decodeProfile (j.get "proxy_profile") = some st.proxyProfile := by
  obtain ⟨_, -, h⟩ := bind_eq_some_iff.mp h
  obtain ⟨version, -, h⟩ := bind_eq_some_iff.mp h
  obtain ⟨_, -, h⟩ := bind_eq_some_iff.mp h
  obtain ⟨server, -, h⟩ := bind_eq_some_iff.mp h
  obtain ⟨_, -, h⟩ := bind_eq_some_iff.mp h
  obtain ⟨privateKey, -, h⟩ := bind_eq_some_iff.mp h
  obtain ⟨credential, -, h⟩ := bind_eq_some_iff.mp h
  obtain ⟨pending, -, h⟩ := bind_eq_some_iff.mp h
  obtain ⟨initialized, -, h⟩ := bind_eq_some_iff.mp h
  obtain ⟨wireGuard, -, h⟩ := bind_eq_some_iff.mp h
  obtain ⟨profile, hprofile, h⟩ := bind_eq_some_iff.mp h
  cases h
  exact hprofile

theorem load_floor {f : File} (h : load s (some (some f)) = some st) :
    Rooted s st ∧ st.proxyProfile = savedFloor s f := by
  simp only [load] at h
  split_ifs at h with hsize
  rw [filter_eq_some_iff] at h
  obtain ⟨hdecode, hvalid⟩ := h
  refine ⟨((valid_iff st).mp hvalid).rooted, ?_⟩
  unfold decode strictDecode at hdecode
  split_ifs at hdecode
  obtain ⟨j, hparse, hdecode⟩ := bind_eq_some_iff.mp hdecode
  obtain ⟨n, -, hdecode⟩ := bind_eq_some_iff.mp hdecode
  split_ifs at hdecode
  unfold savedFloor
  rw [hparse, bind_eq_bind, bind_some]
  have hprofile := decodeState_profile hdecode
  cases hget : j.get "proxy_profile" with
  | none =>
    rw [hget] at hprofile
    exact (Option.some.inj hprofile).symm
  | some =>
    rw [hget] at hprofile
    obtain ⟨p, hp, hsome⟩ := map_eq_some_iff.mp hprofile
    rw [← hsome]
    exact hp.symm

/-! ## Whole runs -/

/-- The profiles of successful starts, the last one first. -/
def accepted : List Result → List Profile
  | [] => []
  | .config (.ok config) :: rest => config.projection.profile :: accepted rest
  | _ :: rest => accepted rest

/-- The floor of a home never moved back, and lies above every profile that was accepted. -/
structure Floored (s : Prims File) (home : Home File) (results : List Result)
    (g : State) : Prop where
  rooted : Rooted s g
  file : home.file = home.written.head?
  floor : home.file.bind (savedFloor s) = g.proxyProfile
  history : home.written.Pairwise fun new old => FloorLE s (savedFloor s old) (savedFloor s new)
  above : ∀ f ∈ home.written, FloorLE s (savedFloor s f) g.proxyProfile
  accepted : (accepted results).Pairwise fun new old => Follows s old new
  current : ∀ p ∈ DeviceClient.accepted results, FloorLE s (some p) g.proxyProfile

variable {results : List Result}

variable {home : Home File}

section

variable (h : Floored s home results g)
include h

theorem Floored.write (hchange : Change s T g st) (fate : SaveFate) :
    ∃ g', Can s T g (.save st) (DeviceClient.write s home st fate).2 g' ∧
      Floored s (DeviceClient.write s home st fate).1 results g' := by
  obtain ⟨hrooted, hfloor⟩ := hchange.floor h.rooted
  unfold DeviceClient.write
  split_ifs with hsize heffect
  · exact ⟨g, nofun, h⟩
  · have hfile := savedFloor_file hrooted
    refine ⟨st, fun _ => rfl, hrooted, rfl, hfile, ?_, fun f hf => ?_, h.accepted, fun p hp => ?_⟩
    · refine List.pairwise_cons.mpr ⟨fun f hf => ?_, h.history⟩
      rw [hfile]
      exact (h.above f hf).trans hfloor
    · rcases List.mem_cons.mp hf with rfl | hf
      · rw [hfile]
        exact FloorLE.refl _
      · exact (h.above f hf).trans hfloor
    · exact (h.current p hp).trans hfloor
  · exact ⟨g, nofun, h⟩

theorem Floored.read (fails : Bool) :
    ∃ g', (∀ st, load s (cond fails none (some home.file)) = some st → g' = st) ∧
    Floored s home results g' := by
  have hview : ∀ g', Rooted s g' → g'.proxyProfile = g.proxyProfile →
    Floored s home results g' := by
    intro g' hrooted hsame
    refine ⟨hrooted, h.file, h.floor.trans hsame.symm, h.history, ?_, h.accepted, ?_⟩
    · rw [hsame]
      exact h.above
    · rw [hsame]
      exact h.current
  cases fails with
  | true => exact ⟨g, fun st hst => (by cases hst), h⟩
  | false =>
    have hfloor := h.floor
    cases hfile : home.file with
    | none =>
      rw [hfile] at hfloor
      refine ⟨.zero, fun st hst => Option.some.inj hst, hview .zero ?_ hfloor⟩
      exact ⟨fun _ => rfl, fun _ => rfl, fun p hp => (by cases hp), fun p hp => (by cases hp)⟩
    | some f =>
      rw [hfile] at hfloor
      cases hload : load s (some (some f)) with
      | none => exact ⟨g, fun st hst => absurd (hload.symm.trans hst) (some_ne_none st).symm, h⟩
      | some st =>
        obtain ⟨hrooted, hprofile⟩ := load_floor hload
        exact ⟨st, fun st' hst' => Option.some.inj (hload.symm.trans hst'), hview st hrooted
          (hprofile.trans hfloor)⟩

theorem Floored.handle (e : Effect) (c : Choice File e) (hpre : Pre s (fun _ => True) g e) :
    ∃ g', Can s (fun _ => True) g e (DeviceClient.handle s home e c).2 g' ∧
      Floored s (DeviceClient.handle s home e c).1 results g' := by
  cases e with
  | save => exact h.write hpre c
  | read => exact h.read c
  | clock => exact ⟨g, ⟨rfl, trivial⟩, h⟩
  | random n =>
    refine ⟨g, ⟨rfl, fun x hx => ?_⟩, h⟩
    have hfilter : Option.filter (fun b : Bytes => b.length = n) c = some x := hx
    exact of_decide_eq_true (filter_eq_some_iff.mp hfilter).2
  | loadRoots | lock | cancelled | call | stdin => exact ⟨g, rfl, h⟩

/-- A result keeps the floor; the profile of a successful start is the floor. -/
theorem Floored.done {r : Result} (hr : Resulted g r) : Floored s home (r :: results) g := by
  have hother : DeviceClient.accepted (r :: results) = DeviceClient.accepted results →
      Floored s home (r :: results) g := by
    intro hsame
    refine ⟨h.rooted, h.file, h.floor, h.history, h.above, ?_, ?_⟩
    · rw [hsame]
      exact h.accepted
    · rw [hsame]
      exact h.current
  cases r with
  | receipt => exact hother rfl
  | config r =>
    cases r with
    | error => exact hother rfl
    | ok config =>
      have hprofile := hr config rfl
      have hcurrent := h.current
      rw [hprofile] at hcurrent
      refine ⟨h.rooted, h.file, h.floor, h.history, h.above, List.pairwise_cons.mpr
        ⟨hcurrent, h.accepted⟩, ?_⟩
      intro p hp
      rw [hprofile]
      rcases List.mem_cons.mp hp with rfl | hp
      · exact Follows.refl _
      · exact hcurrent p hp

end

/-- Whatever commands and starts are run on a home, answered and stopped: the profiles of successful
starts follow each other, and so do the floors of all files that were ever written, the last of
which is the file of the home. -/
theorem run_floor (s : Prims File) (events : List (Event Effect (Choice File) Invocation)) :
    let session := run (step (handle s) (program s)) ⟨.empty, none, []⟩ events
    (accepted session.results).Pairwise (fun new old => Follows s old new) ∧
      session.world.written.Pairwise (fun new old => FloorLE s (savedFloor s old)
      (savedFloor s new)) ∧
      session.world.file = session.world.written.head? := by
  have hempty : Floored s .empty [] .zero :=
    ⟨⟨fun _ => rfl, fun _ => rfl, nofun, nofun⟩, rfl, rfl, List.Pairwise.nil,
      nofun, List.Pairwise.nil, nofun⟩
  have hallowed : ∀ event ∈ events, event.Allowed fun _ _ => True := by
    intro event _
    cases event with
    | choose => exact fun _ => trivial
    | start => trivial
    | stop => trivial
  obtain ⟨g, h⟩ := session_invariant (fun home results g => Floored s home results g)
    (fun home results g e c h hpre _ => h.handle e c hpre) (fun home results g r h hr => h.done hr)
    program_safe hempty hallowed
  exact ⟨h.accepted, h.history, h.file⟩

end

end DaxiangVpn.DeviceClient
