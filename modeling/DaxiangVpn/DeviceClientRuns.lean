import DaxiangVpn.Base64Url
import DaxiangVpn.DeviceClientSound

/-!
# Every saved state of the device client is loaded

Each command saves only sound states, whatever the server answers and wherever it is stopped. So
every file that was ever written is accepted by `load`, as long as the clock of the device does not
stand before 1970: a credential is checked against the clock when it is received and against one
second when it is loaded.
-/

namespace DaxiangVpn.DeviceClient

open EffectPrograms StrictJson TransitionRun

section

variable {File : Type} {s : Prims File} {st : State}

/-! ## Updates of sound states -/

variable {p : Intent} {g : State}

section

variable (h : Sound s st)
include h

theorem Sound.clear : Sound s { st with pending := none } where
  version := h.version
  keyless hkey := ⟨(h.keyless hkey).1, rfl⟩
  key := h.key
  credential := h.credential
  initialized := h.initialized
  wireGuard := h.wireGuard
  proxyProfile := h.proxyProfile
  pending p hp := by cases hp
  expires := h.expires
  generation p hp := by cases hp
  room p hp := by cases hp

theorem Sound.intend (hkey : st.privateKey ≠ "") (hvalid : validIntent s st p = true)
    (hgeneration : ∀ g ∈ p.expectedGeneration, g < 2 ^ 63)
    (hroom : p.bindAddress ≠ "" → ∀ g ∈ p.expectedGeneration, g < proxySafeInteger) :
    Sound s { st with pending := some p } where
  version := h.version
  keyless hnone := absurd hnone hkey
  key := h.key
  credential := h.credential
  initialized := h.initialized
  wireGuard := h.wireGuard
  proxyProfile := h.proxyProfile
  pending q hq := by
    cases hq
    exact hvalid
  expires := h.expires
  generation q hq := by
    cases hq
    exact hgeneration
  room q hq := by
    cases hq
    exact hroom

/-- A credential that was checked after 1970 is one that `load` accepts. -/
theorem Sound.withCredential {v : String} {key : Bytes} {cr : Credential}
    {device : String} {now : ℤ} (hkey : privateKey s v = some key) (hnow : 0 ≤ now)
    (hvalid : validateCredential cr (publicKey s key) device now = true) :
    Sound s (DeviceClient.withCredential s st key cr) := by
  simp only [validateCredential, Bool.and_eq_true, decide_eq_true_eq] at hvalid
  obtain ⟨⟨⟨⟨⟨hdevice, hid⟩, hpublic⟩, -⟩, hlater⟩, hbound⟩ := hvalid
  have hsome := privateKey_encode hkey
  unfold DeviceClient.withCredential
  refine ⟨⟨h.version, fun hnone => absurd hnone (privateKey_some hsome).2, fun _ => ?_,
    fun c hc => ?_, h.initialized, fun w hw => ?_, h.proxyProfile, by simp⟩, fun c hc => ?_,
    by simp, by simp⟩
  · change (privateKey s (s.encodeBase64 key)).isSome = true
    rw [hsome]
    rfl
  · cases hc
    simp only [validCredential, hsome, Option.any_some, Bool.and_eq_true, decide_eq_true_eq]
    exact ⟨⟨⟨hpublic, hdevice⟩, hid⟩, by omega⟩
  · have hbinding := h.wireGuard w hw
    simp only [validBinding, Bool.and_eq_true] at hbinding ⊢
    exact ⟨⟨⟨⟨⟨⟨rfl, hbinding.1.1.1.1.1.2⟩, hbinding.1.1.1.1.2⟩, hbinding.1.1.1.2⟩, hbinding.1.1.2⟩,
      hbinding.1.2⟩, hbinding.2⟩
  · cases hc
    omega

theorem Sound.applied {w : LocalBinding} (hw : st.wireGuard = some w) :
    Sound s { st with wireGuard := some { w with appliedGeneration := w.generation } } := by
  have hbinding := h.wireGuard w hw
  refine ⟨⟨h.version, h.keyless, h.key, h.credential, ?_, fun w' hw' => ?_, fun p hp => ?_,
    fun p hp => ?_⟩, h.expires, h.generation, h.room⟩
  · have hinitialized := h.initialized
    rw [hw] at hinitialized
    exact hinitialized
  · cases hw'
    simp only [validBinding, Bool.and_eq_true, decide_eq_true_eq] at hbinding ⊢
    refine ⟨⟨⟨hbinding.1.1.1, hbinding.1.1.1.1.2⟩, le_rfl⟩, ?_⟩
    have hcase := hbinding.2
    split_ifs at hcase ⊢ with hzero
    · simp only [Bool.and_eq_true, decide_eq_true_eq] at hcase ⊢
      exact ⟨hcase.1, hzero⟩
    · exact hcase
  · have hprofile := h.proxyProfile p hp
    unfold validProfile at hprofile ⊢
    rw [hw] at hprofile
    exact hprofile
  · have hpending := h.pending p hp
    unfold validIntent validBindAddress at hpending ⊢
    rw [hw] at hpending
    exact hpending

theorem Sound.bindKey {secret pub : String} (hcredential : st.credential.isSome = true)
    (hpending : st.pending = none) (hw : st.wireGuard = none) (hkey : wireGuardKey s secret = some pub) :
    Sound s { st with wireGuardInitialized := true, wireGuard := some ⟨secret, pub, "", 0, 0, ""⟩ } := by
  refine ⟨⟨h.version, h.keyless, h.key, h.credential, rfl, fun w' hw' => ?_, fun p hp => ?_, fun p hp => ?_⟩,
    h.expires, h.generation, h.room⟩
  · cases hw'
    rw [validBinding, hkey]
    simp only [hcredential, decide_true, Bool.and_true]
    rfl
  · rw [h.toValid.unbound hw] at hp
    cases hp
  · cases hpending.symm.trans hp

theorem Sound.accept {op : Operation} {st' : State} (hp : st.pending = some p)
    (haccept : acceptBinding st p op = some st') (hid : hexID op.operationId = true) :
    Sound s { st' with pending := none } := by
  rcases acceptBinding_some haccept with ⟨-, rfl⟩ | ⟨hbind, w, g, hw, hg, hop, rfl⟩
  · exact h.clear
  have hbinding := h.wireGuard w hw
  have hintent := h.pending p hp
  have hlow := validIntent_generation hintent g hg
  have hroom := h.room p hp hbind g hg
  have haddress : hostAddress p.bindAddress = true := by
    simp only [validIntent, validBindAddress, Bool.and_eq_true, Bool.or_eq_true,
      decide_eq_true_eq, hbind, false_or] at hintent
    exact hintent.2.1.2
  refine ⟨⟨h.version, fun hkey => ⟨(h.keyless hkey).1, rfl⟩, h.key, h.credential, ?_,
    fun w' hw' => ?_, fun q hq => ?_, by simp⟩, h.expires, by simp, by simp⟩
  · have hinitialized := h.initialized
    rw [hw] at hinitialized
    exact hinitialized
  · cases hw'
    have hne : op.generation ≠ 0 := by omega
    simp only [validBinding, Bool.and_eq_true, decide_eq_true_eq, if_neg hne] at hbinding ⊢
    refine ⟨⟨⟨⟨⟨hbinding.1.1.1.1.1, by omega⟩, by omega⟩, ?_⟩, ?_⟩, haddress, hid⟩
    · split_ifs
      · omega
      · exact le_rfl
    · split_ifs
      · exact le_rfl
      · omega
  · have hprofile := h.proxyProfile q hq
    simp only [validProfile, Bool.and_eq_true, Option.any_some, decide_eq_true_eq] at hprofile ⊢
    exact ⟨by omega, hprofile.2⟩

theorem Sound.profile {w : LocalBinding} {p : Profile} (hw : st.wireGuard = some w)
    (hgeneration : 1 ≤ w.generation) (hvalid : validateProxyRouteProfile s p = true) :
    Sound s { st with proxyProfile := some p
                      wireGuard := some { w with appliedGeneration := w.generation } } := by
  have happlied := h.applied hw
  refine ⟨⟨h.version, h.keyless, h.key, h.credential, happlied.initialized,
    happlied.wireGuard, fun q hq => ?_, happlied.pending⟩, h.expires, h.generation, h.room⟩
  cases hq
  simp only [validProfile, Bool.and_eq_true, Option.any_some, decide_eq_true_eq]
  exact ⟨by omega, hvalid⟩

theorem Sound.cancelled (hp : st.pending = some p) : Sound s (cancelledState st p) := by
  unfold cancelledState
  split_ifs with hkind
  · have hcredential : st.credential = none := by
      have hintent := h.pending p hp
      simp only [validIntent, Bool.and_eq_true, hkind, decide_true, Bool.true_and,
        Bool.not_eq_true', Option.isSome_eq_false_iff, Option.isNone_iff_eq_none] at hintent
      exact hintent.1.1.2
    have hw := h.toValid.inactive hcredential
    refine ⟨⟨h.version, fun _ => ⟨hcredential, rfl⟩, fun hne => absurd rfl hne,
      fun c hc => ?_, h.initialized, fun w hw' => ?_, h.proxyProfile, by simp⟩, h.expires, by simp,
      by simp⟩
    · change c ∈ st.credential at hc
      cases hcredential.symm.trans hc
    · change w ∈ st.wireGuard at hw'
      rw [hw] at hw'
      cases hw'
  · exact h.clear

end

theorem Sound.fresh (server : String) {seed : Bytes} (h : seed.length = 32) :
    Sound s ⟨version, server, s.encodeBase64 (newKeyFromSeed s seed), none, none, false,
    none, none⟩ := by
  refine ⟨⟨rfl, fun _ => ⟨rfl, rfl⟩, fun _ => ?_, by simp, rfl, by simp, by simp, by simp⟩,
    by simp, by simp, by simp⟩
  change (privateKey s (s.encodeBase64 (newKeyFromSeed s seed))).isSome = true
  rw [privateKey_newKey h]
  rfl

/-- Times that are not before 1970. -/
def Epoch (now : ℤ) : Prop := 0 ≤ now

theorem Change.sound (h : Change s Epoch g st) (hg : g = .zero ∨ Sound s g) : Sound s st := by
  have hpending : ∀ p, g.pending = some p → Sound s g := by
    rintro p hp
    rcases hg with rfl | hg
    · cases hp
    · exact hg
  have hbound : ∀ w, g.wireGuard = some w → Sound s g := by
    rintro w hw
    rcases hg with rfl | hg
    · cases hw
    · exact hg
  cases h with
  | fresh server seed hkey hseed => exact Sound.fresh server hseed
  | intend p key hkey hvalid hgeneration hroom =>
    rcases hg with rfl | hg
    · exact absurd rfl (privateKey_some hkey).2
    · exact hg.intend (privateKey_some hkey).2 hvalid hgeneration hroom
  | clear p hp => exact (hpending p hp).clear
  | cancelled p hp => exact (hpending p hp).cancelled hp
  | credential p v key cr device now hp hkey hnow hvalid =>
    have hepoch : 0 ≤ now := by
      rcases hnow with hnow | rfl
      · exact hnow
      · exact le_rfl
    exact (hpending p hp).withCredential hkey hepoch hvalid
  | bindKey secret pub cr hcredential hp hw hkey =>
    rcases hg with rfl | hg
    · cases hcredential
    · exact hg.bindKey (by rw [hcredential]; rfl) hp hw hkey
  | accept p op st' hp haccept hid => exact (hpending p hp).accept hp haccept hid
  | applied w hw => exact (hbound w hw).applied hw
  | profile w p cr hcredential hw hgeneration hvalid => exact (hbound w hw).profile hw hgeneration hvalid

/-! ## Whole runs -/

/-- The clock of a choice does not stand before 1970. -/
def clockOk : (e : Effect) → Choice File e → Prop
  | .clock, now => (0 : ℤ) ≤ now
  | _, _ => True

/-- A file of a sound state. -/
def Stored (s : Prims File) (f : File) : Prop :=
  ∃ st, Sound s st ∧ f = file s st ∧ s.codec.size (file s st) ≤ maxStateBytes

theorem Stored.load {f : File} (h : Stored s f) :
    ∃ st, Sound s st ∧ load s (some (some f)) = some st := by
  obtain ⟨st, hst, rfl, hsize⟩ := h
  exact ⟨st, hst, hst.load hsize⟩

/-- All files of a home are stored, and the view of a program is sound. -/
structure Kept (s : Prims File) (home : Home File) (g : State) : Prop where
  file : ∀ f ∈ home.file, f ∈ home.written
  written : ∀ f ∈ home.written, Stored s f
  view : g = .zero ∨ Sound s g

theorem Kept.write {home : Home File} (h : Kept s home g) (hst : Sound s st) (fate : SaveFate) :
    ∃ g', Can s Epoch g (.save st) (DeviceClient.write s home st fate).2 g' ∧
      Kept s (DeviceClient.write s home st fate).1 g' := by
  refine ⟨st, fun _ => rfl, ?_⟩
  unfold DeviceClient.write
  split_ifs with hsize heffect
  · exact ⟨h.file, h.written, .inr hst⟩
  · rw [not_or, not_lt] at hsize
    refine ⟨fun f hf => ?_, fun f hf => ?_, .inr hst⟩
    · cases hf
      exact List.mem_cons_self
    · rcases List.mem_cons.mp hf with rfl | hf
      · exact ⟨st, hst, rfl, hsize.2⟩
      · exact h.written f hf
  · exact ⟨h.file, h.written, .inr hst⟩

theorem Kept.handle {home : Home File} (h : Kept s home g) (e : Effect) (c : Choice File e)
    (hpre : Pre s Epoch g e) (hok : clockOk e c) :
    ∃ g', Can s Epoch g e (DeviceClient.handle s home e c).2 g' ∧
    Kept s (DeviceClient.handle s home e c).1 g' := by
  cases e with
  | save => exact h.write (hpre.sound h.view) c
  | read =>
    have hview : ∃ g', (∀ st, load s (cond c none (some home.file)) = some st → g' = st) ∧
        (g' = .zero ∨ Sound s g') := by
      cases c with
      | true => exact ⟨g, fun st hst => (by cases hst), h.view⟩
      | false =>
        cases hfile : home.file with
        | none => exact ⟨.zero, fun st hst => Option.some.inj hst, .inl rfl⟩
        | some f =>
          obtain ⟨st, hsound, hload⟩ := (h.written f (h.file f hfile)).load
          exact ⟨st, fun st' hst' => Option.some.inj (hload.symm.trans hst'), .inr hsound⟩
    obtain ⟨g', hload, hg'⟩ := hview
    exact ⟨g', hload, h.file, h.written, hg'⟩
  | clock => exact ⟨g, ⟨rfl, hok⟩, h⟩
  | random n =>
    refine ⟨g, ⟨rfl, fun x hx => ?_⟩, h⟩
    have hfilter : Option.filter (fun b : Bytes => b.length = n) c = some x := hx
    exact of_decide_eq_true (Option.filter_eq_some_iff.mp hfilter).2
  | loadRoots | lock | cancelled | call | stdin => exact ⟨g, rfl, h⟩

def initial : Session (Home File) Effect (Answer File) Result := ⟨.empty, none, []⟩

/-- Every file that was ever written on a home, and the one that is there, is loaded, whatever
commands were run, stopped and answered, if the clock never stood before 1970. -/
theorem run_reloads (s : Prims File) (events : List (Event Effect (Choice File) Invocation))
    (hclock : ∀ event ∈ events, event.Allowed clockOk) :
    (∀ f ∈ (run (step (handle s) (program s)) initial events).world.written,
      (load s (some (some f))).isSome = true) ∧
      (load s (some (run (step (handle s) (program s)) initial events).world.file)).isSome =
        true := by
  have hempty : Kept s .empty .zero :=
    ⟨fun f hf => (by cases hf), fun f hf => (by cases hf), .inl rfl⟩
  obtain ⟨g, hkept⟩ := session_invariant (fun home _ g => Kept s home g)
    (fun home _ g e c h hpre hok => h.handle e c hpre hok)
      (fun _ _ _ _ h _ => h) program_safe hempty hclock
  have hwritten : ∀ f ∈ (run (step (handle s) (program s)) initial events).world.written,
      (load s (some (some f))).isSome = true := by
    intro f hf
    obtain ⟨st, -, hload⟩ := (hkept.written f hf).load
    rw [hload]
    rfl
  refine ⟨hwritten, ?_⟩
  cases hfile : (run (step (handle s) (program s)) initial events).world.file with
  | none => rfl
  | some f => exact hwritten f (hkept.file f hfile)

end

/-! ## A run of an activation -/

/-- The seed that the device draws, and the public key of it. -/
def sampleSeed : Bytes := List.replicate 32 66

def samplePublic : Bytes :=
  [33, 82, 248, 209, 155, 121, 29, 36, 69, 50, 66, 225, 95, 46, 171, 108, 183, 207, 250, 123, 106,
    94, 211, 0, 151, 150, 14, 6, 152, 129, 219, 18]

/-- A name that the server gives. -/
def sampleName : String := String.ofList (List.replicate 32 'a')

/-- The name that the device draws. -/
def sampleNonce : String := HexTexts.encodeHex (List.replicate 16 66)

/-- The body of an activation, with its hash. -/
def sampleBody : Body × String :=
  (.activation "token" "IVL40Zt5HSRFMkLhXy6rbLfP+ntqXtMAl5YOBpiB2xI=",
    "df38ad24aa1e2b750efc7d522f42a7cbe10ebf0aee90047a766c0d1dc9a1bc8e")

/-- The body of the challenge before it, with its hash. -/
def sampleQuestion : Body × String :=
  (.challenge ⟨"activate", "POST", "/api/v2/activate", sampleBody.2, none, none, some "token",
    some "IVL40Zt5HSRFMkLhXy6rbLfP+ntqXtMAl5YOBpiB2xI=", none, none, none⟩,
    "7392d1ca0c124a62e6dbd9d62904f38adb269f3f4ce0411af76bc8f3f9a90a05")

/-- What the device signs in the runs, with the signatures. -/
def sampleSignatures : List (List String × String) :=
  [(challengeProofBytes sampleQuestion.2 sampleNonce 50,
    "Oh4CPQiMaytM1UsB7zIJ0mACWXyMMpETI8zsaFbKVlUVGsQk/eNGUBuLcAbIRFR8z2e7THzyo4ZLCy3X7hbgAw=="),
    (challengeProofBytes sampleQuestion.2 sampleNonce 40,
    "kQN9boioA7wbndmziZNBg4iHlVgyw5dvPgK9K6AKT8sQuugftCTzNsXnJP7Iqu+W0MR1g2sQ/OpibvQ6TQD3AQ=="),
    (signingBytes "activate" "POST" "/api/v2/activate" sampleBody.2 "" ""
      ⟨sampleName, sampleName, 9⟩ sampleNonce,
    "knqTu9nNSv7AhHRxekVU9MYfDw5VVjvdXqWWWBQKc2+QJUJZni359cRm6R62RaB3touwzqyhqjlBVbFAb297Aw=="),
    (signingBytes "activate" "POST" "/api/v2/activate" sampleBody.2 "" ""
      ⟨sampleName, sampleName, 0⟩ sampleNonce,
    "bRWLagT4hVoIeq5lfDidD888c8PFa5901eU/87mxC37a0M3EX2rd8w8u06WrlEmBJ1mEnp7nj7TA2qLsoGQmAg==")]

/-- The libraries on the texts of an activation, which has no profile and no tunnel. -/
def samplePrims : Prims Json where
  codec := valueCodec
  decodeBase64 := Base64Url.decodeStd
  encodeBase64 := Base64Url.encodeStd
  decode_encode := Base64Url.decodeStd_encodeStd
  encode_ne _ := Base64Url.encodeStd_ne
  seedPublic seed := if seed = sampleSeed then samplePublic else List.replicate 32 0
  seedPublic_length seed := by split <;> rfl
  sign key payload :=
    if key = sampleSeed ++ samplePublic then (sampleSignatures.lookup payload).getD "" else ""
  x25519Base _ := none
  probe _ := false
  profileDigest _ := ""
  bodyDigest body := ([sampleBody, sampleQuestion].lookup body).getD ""
  parseServer v := if v = "https://hub" then some v else none

/-- What the server answers to signed requests: a challenge, and a credential until a time. -/
def sampleResponse (expires : ℤ) : Request → Response Json
  | .challenge _ h => if h.proof ∈ sampleSignatures.map Prod.snd then
      ⟨200, true, some (obj [("challenge_id", .string sampleName), ("nonce", .string sampleName),
        ("expires_unix_seconds", ofInt expires)])⟩ else ⟨401, false, none⟩
  | .signed _ _ _ h => if h.signature ∈ sampleSignatures.map Prod.snd then
      ⟨201, true,
        some (encodeCredential ⟨sampleName, sampleName, Base64Url.encodeStd samplePublic, expires⟩)⟩
      else ⟨401, false, none⟩

/-- A world in which the clock shows one time and nothing fails. -/
def sampleChoice (now expires : ℤ) : (e : Effect) → Choice Json e
  | .loadRoots _ => Roots.loaded
  | .lock => true
  | .cancelled => false
  | .read => false
  | .save _ => SaveFate.mk true false
  | .call q => Delivery.response (sampleResponse expires q)
  | .clock => now
  | .random n => some (List.replicate n 66)
  | .stdin => some "token"

/-- A command line of an activation. -/
def sampleLine : Line :=
  .flags .activate ⟨some "https://hub", none, none, none, none, none, none, none,
  some true, none, none⟩

def sampleActivation (now expires : ℤ) : List (Event Effect (Choice Json) Invocation) :=
  .start (.command sampleLine) :: List.replicate 19 (.choose (sampleChoice now expires))

/-- The activation writes three times, and what it leaves is loaded again. -/
theorem sampleActivation_reloads :
    (run (step (handle samplePrims) (program samplePrims)) initial
      (sampleActivation 5 9)).world.written.length = 3 ∧
    (load samplePrims (some (run (step (handle samplePrims) (program samplePrims)) initial
      (sampleActivation 5 9)).world.file)).isSome = true := by
  refine ⟨by decide +kernel,
    (run_reloads samplePrims (sampleActivation 5 9) fun event hevent => ?_).2⟩
  rcases List.mem_cons.mp hevent with rfl | hevent
  · exact trivial
  · rw [List.eq_of_mem_replicate hevent]
    intro e
    cases e with
    | clock => exact (by decide : (0 : ℤ) ≤ 5)
    | _ => exact trivial

/-- Before 1970 a credential that ends at the first second is accepted and saved, and never
loaded. -/
theorem sampleActivation_corrupt :
    (run (step (handle samplePrims) (program samplePrims)) initial
      (sampleActivation (-5) 0)).world.written.any
      (fun f => (load samplePrims (some (some f))).isNone) = true := by
  decide +kernel

end DaxiangVpn.DeviceClient
