import DaxiangVpn.DeviceClientCommands

/-!
# What the device client saves

Each command changes the saved state only in one of the ways of `Change`, whatever the server
answers. The view of a program is the state that it loaded or saved last.
-/

namespace DaxiangVpn.DeviceClient

open EffectPrograms HexTexts Option

variable {line : Line} {v : String}

section

variable {File : Type} {s : Prims File}

theorem privateKey_some {key : Bytes} (h : privateKey s v = some key) :
    s.encodeBase64 key = v ∧ v ≠ "" := by
  obtain ⟨b, -, h⟩ := bind_eq_some_iff.mp h
  split_ifs at h with hkey
  cases h
  refine ⟨hkey.2.1, ?_⟩
  rw [← hkey.2.1]
  refine s.encode_ne key ?_
  rintro rfl
  cases hkey.1

theorem privateKey_encode {key : Bytes} (h : privateKey s v = some key) :
    privateKey s (s.encodeBase64 key) = some key := by
  rw [(privateKey_some h).1]
  exact h

theorem privateKey_newKey {seed : Bytes} (h : seed.length = 32) :
    privateKey s (s.encodeBase64 (newKeyFromSeed s seed)) = some (newKeyFromSeed s seed) := by
  have htake : (newKeyFromSeed s seed).take 32 = seed := by
    rw [newKeyFromSeed, ← h]
    exact List.take_left
  have hlength : (newKeyFromSeed s seed).length = 64 := by
    rw [newKeyFromSeed, List.length_append, h, s.seedPublic_length]
  unfold privateKey
  rw [s.decode_encode]
  change (if _ then _ else _) = _
  rw [if_pos ⟨hlength, rfl, by rw [htake]⟩]

end

section

variable {File : Type} (s : Prims File) (T : ℤ → Prop)

/-- How a save may change the state `g`. The times of `T` are those that the clock shows. -/
inductive Change (g : State) : State → Prop
  | fresh (server : String) (seed : Bytes) (hkey : g.privateKey = "") (hseed : seed.length = 32) :
    Change g ⟨version, server, s.encodeBase64 (newKeyFromSeed s seed), none, none, false, none, none⟩
  /-- An intent is saved before its request. -/
  | intend (p : Intent) (key : Bytes) (hkey : privateKey s g.privateKey = some key)
    (hvalid : validIntent s g p = true) (hgeneration : ∀ t ∈ p.expectedGeneration, t < 2 ^ 63)
    (hroom : p.bindAddress ≠ "" → ∀ t ∈ p.expectedGeneration, t < proxySafeInteger) :
    Change g { g with pending := some p }
  | clear (p : Intent) (hp : g.pending = some p) : Change g { g with pending := none }
  | cancelled (p : Intent) (hp : g.pending = some p) : Change g (cancelledState g p)
  | credential (p : Intent) (v : String) (key : Bytes) (cr : Credential) (device : String) (now : ℤ)
    (hp : g.pending = some p) (hkey : privateKey s v = some key) (hnow : T now ∨ now = 0)
    (hvalid : validateCredential cr (publicKey s key) device now = true) : Change g (withCredential s g key cr)
  /-- A new WireGuard key is saved before its use. -/
  | bindKey (secret pub : String) (cr : Credential) (hcredential : g.credential = some cr) (hp : g.pending = none)
    (hw : g.wireGuard = none) (hkey : wireGuardKey s secret = some pub) :
    Change g { g with wireGuardInitialized := true, wireGuard := some ⟨secret, pub, "", 0, 0, ""⟩ }
  | accept (p : Intent) (op : Operation) (st : State) (hp : g.pending = some p)
    (haccept : acceptBinding g p op = some st) (hid : hexID op.operationId = true) :
    Change g { st with pending := none }
  | applied (w : LocalBinding) (hw : g.wireGuard = some w) :
    Change g { g with wireGuard := some { w with appliedGeneration := w.generation } }
  | profile (w : LocalBinding) (p : Profile) (cr : Credential) (hcredential : g.credential = some cr)
    (hw : g.wireGuard = some w) (hgeneration : 1 ≤ w.generation) (hvalid : validateProxyRouteProfile s p = true)
    (hfollows : ∀ old ∈ g.proxyProfile, profileFollows s old p = .ok ()) :
    Change g { g with proxyProfile := some p, wireGuard := some { w with appliedGeneration := w.generation } }

/-- How answers change the view. -/
def Can : State → (e : Effect) → Answer File e → State → Prop
  | _, .read, data, g' => ∀ st, load s data = some st → g' = st
  | _, .save st, saved, g' => saved = true → g' = st
  | g, .clock, now, g' => g' = g ∧ T now
  | g, .random n, b, g' => g' = g ∧ ∀ x, b = some x → x.length = n
  | g, .loadRoots _, _, g' => g' = g
  | g, .lock, _, g' => g' = g
  | g, .cancelled, _, g' => g' = g
  | g, .call _, _, g' => g' = g
  | g, .stdin, _, g' => g' = g

/-- A save changes the state in one of the ways. -/
def Pre (g : State) : Effect → Prop
  | .save st => Change s T g st
  | _ => True

variable {s T} {α β : Type} {g st : State}

/-- A program that saves only changes, with a condition on its view and its result. -/
abbrev Safe (s : Prims File) (T : ℤ → Prop) (post : State → α → Prop) (g : State)
    (p : Program File α) : Prop :=
  p.Meets (Can s T) (Pre s T) post g

/-- No condition. -/
abbrev Any (_ : State) (_ : α) : Prop := True

/-! ## Effects -/

variable {post : State → β → Prop} {p : Intent} {cr : Credential} {o : Options} {w : LocalBinding}

theorem save_safe {f : Bool → Program File β} (h : Change s T g st)
    (htrue : Safe s T post st (f true)) (hfalse : ∀ g', Safe s T post g' (f false)) :
    Safe s T post g (save st >>= f) := by
  refine ⟨h, fun saved g' hsaved => ?_⟩
  cases saved with
  | false => exact hfalse g'
  | true =>
    have hst : g' = st := hsaved rfl
    subst hst
    exact htrue

theorem clock_safe {f : ℤ → Program File β} (h : ∀ now, T now → Safe s T post g (f now)) :
    Safe s T post g (clock >>= f) := by
  refine ⟨trivial, fun now g' hnow => ?_⟩
  rw [hnow.1]
  exact h now hnow.2

theorem random_safe {n : ℕ} {f : Option Bytes → Program File β} (hnone : Safe s T post g (f none))
    (hsome : ∀ b, b.length = n → Safe s T post g (f (some b))) :
    Safe s T post g (random n >>= f) := by
  refine ⟨trivial, fun b g' hb => ?_⟩
  rw [hb.1]
  cases b with
  | none => exact hnone
  | some b => exact hsome b (hb.2 b rfl)

theorem cancelled_safe {f : Bool → Program File β} (h : ∀ stop, Safe s T post g (f stop)) :
    Safe s T post g (cancelled >>= f) := by
  refine ⟨trivial, fun stop g' hg => ?_⟩
  rw [show g' = g from hg]
  exact h stop

theorem opaqueName_safe {f : Option String → Program File β} (hnone : Safe s T post g (f none))
    (hsome : ∀ v, hexID v = true → Safe s T post g (f (some v))) :
    Safe s T post g (opaqueName >>= f) := by
  refine meets_bind (m := fun g' name => g' = g ∧ ∀ v, name = some v → hexID v = true) ?_ ?_
  · refine random_safe ?_ fun b hb => ?_
    · exact ⟨rfl, nofun⟩
    · refine ⟨rfl, fun v hv => ?_⟩
      cases hv
      exact hexID_encodeHex hb
  · rintro g' name ⟨rfl, hname⟩
    cases name with
    | none => exact hnone
    | some v => exact hsome v (hname v rfl)

theorem call_safe {q : Request} {expected : ℕ} {w : Wire α} {mutation : Bool}
    {f : Except Err α → Program File β} (h : ∀ r, Safe s T post g (f r)) :
      Safe s T post g (call s q expected w mutation >>= f) := by
  refine meets_bind (m := fun g' _ => g' = g) ?_ ?_
  · refine cancelled_safe fun stop => meets_ite (fun _ => rfl) fun _ => ?_
    exact ⟨trivial, fun d g' hg => hg⟩
  · rintro g' r rfl
    exact h r

variable {key : Bytes}

theorem issueChallengeWithOwner_safe {q : ChallengeRequest} {owner : Option Bytes}
    {f : Except Err Challenge → Program File β} (h : ∀ r, Safe s T post g (f r)) :
    Safe s T post g (issueChallengeWithOwner s q key owner >>= f) := by
  refine meets_bind (m := fun g' _ => g' = g) ?_ ?_
  · refine opaqueName_safe rfl fun nonce _ => clock_safe fun now _ => call_safe fun answer => ?_
    cases answer with
    | error => exact rfl
    | ok => exact clock_safe fun now _ => meets_ite (fun _ => rfl) fun _ => rfl
  · rintro g' r rfl
    exact h r

theorem authorize_safe {purpose method path : String} {body : Body} {cr : Option Credential}
    {activation : String} {f : Except (Err × Bool) (Challenge × String) → Program File β}
      (herror : ∀ e, Safe s T post g (f (.error e)))
    (hok : ∀ ch requestID, hexID requestID = true → Safe s T post g (f (.ok (ch, requestID)))) :
    Safe s T post g (authorize s purpose method path body cr activation key >>= f) := by
  refine meets_bind (m := fun g' r => g' = g ∧ ∀ a, r = .ok a → hexID a.2 = true) ?_ ?_
  · refine issueChallengeWithOwner_safe fun answer => ?_
    cases answer with
    | error => exact ⟨rfl, nofun⟩
    | ok =>
      refine opaqueName_safe ?_ fun requestID hrequest => ?_
      · exact ⟨rfl, nofun⟩
      · refine ⟨rfl, fun a ha => ?_⟩
        cases ha
        exact hrequest
  · rintro g' r ⟨rfl, hr⟩
    cases r with
    | error e => exact herror e
    | ok a => exact hok a.1 a.2 (hr a rfl)

theorem saveThen_safe {failed ok : Receipt} (h : Change s T g st) :
    Safe s T Any g (saveThen st failed ok) :=
  save_safe h trivial fun _ => trivial

/-! ## Mutations -/

theorem failedMutation_safe (hp : st.pending = some p) (e : Err) :
    Safe s T Any st (failedMutation st p e) := by
  cases e with
  | other => exact trivial
  | failure code unknown =>
    cases unknown with
    | true => exact trivial
    | false => exact saveThen_safe (.clear p hp)

theorem activate_safe (hcredential : st.credential = none) (activation : String) :
    Safe s T Any st (activate s st activation) := by
  unfold activate
  split
  · exact trivial
  rename_i key hkey
  refine authorize_safe (fun e => trivial) fun ch requestID hid => ?_
  have hintent : validIntent s st ⟨.activate, requestID, "", "", none, ""⟩ = true := by
    simp only [validIntent, validBindAddress, Command.saved, Command.mutates, hid, hcredential]
    rfl
  refine save_safe (.intend _ key hkey hintent nofun fun hne => absurd rfl hne)
    ?_ fun _ => trivial
  refine call_safe fun response => ?_
  cases response with
  | error e => exact failedMutation_safe rfl e
  | ok cr =>
    refine clock_safe fun now hnow => meets_ite (fun _ => failedMutation_safe rfl _)
      fun hvalid => ?_
    simp only [Bool.not_eq_true', Bool.not_eq_false] at hvalid
    have hchange := Change.credential (T := T)
      (g := { st with pending := some ⟨.activate, requestID, "", "", none, ""⟩ })
      _ st.privateKey key cr "" now rfl hkey (.inl hnow) hvalid
    unfold withCredential at hchange
    rw [(privateKey_some hkey).1] at hchange
    exact saveThen_safe hchange

theorem rotate_safe (hcredential : st.credential = some cr)
    (hkey : privateKey s st.privateKey = some key) : Safe s T Any st (rotate s st cr key) := by
  refine random_safe trivial fun seed hseed => authorize_safe
    (fun e => trivial) fun ch requestID hid => ?_
  have hnew := privateKey_newKey (s := s) hseed
  have hintent : validIntent s st
      ⟨.rotateCredential, requestID, "", s.encodeBase64 (newKeyFromSeed s seed), none, ""⟩ =
        true := by
    simp only [validIntent, validBindAddress, Command.saved, Command.mutates, hid,
      hcredential, hnew]
    rfl
  refine save_safe (.intend _ key hkey hintent nofun fun hne => absurd rfl hne) ?_ fun _ => trivial
  refine call_safe fun response => ?_
  cases response with
  | error e => exact failedMutation_safe rfl e
  | ok new =>
    refine clock_safe fun now hnow => meets_ite (fun _ => failedMutation_safe rfl _)
      fun hvalid => ?_
    simp only [Bool.not_eq_true', Bool.not_eq_false, Bool.and_eq_true] at hvalid
    exact saveThen_safe (.credential _ _ _ new cr.deviceId now rfl hnew (.inl hnow) hvalid.1)

/-- What `parse` guarantees of a mutation. -/
structure Mutation (st : State) (o : Options) : Prop where
  command : o.command.isMutation = true
  generation : 0 ≤ o.generation ∧ o.generation ≠ maxInt64 ∧ o.generation < 2 ^ 63
  idempotency : identifier o.idempotency 128 = true
  /-- A binding has a customer address, a key, and room for the next generation. -/
  bind : o.command = .bind → hostAddress o.address = true ∧ o.generation < proxySafeInteger ∧
    ∃ w, st.wireGuard = some w ∧ w.generation ≤ o.generation

def mutationIntent (o : Options) (requestID : String) : Intent :=
  ⟨if o.command = .bind then .apply else o.command, requestID, o.idempotency, "", some o.generation,
    if o.command = .bind then o.address else ""⟩

theorem Mutation.valid (h : Mutation st o) (hcredential : st.credential = some cr)
    {requestID : String} (hid : hexID requestID = true) :
      validIntent s st (mutationIntent o requestID) = true := by
  have hlow : decide (0 ≤ o.generation) = true := decide_eq_true h.generation.1
  have hmax : decide (o.generation ≠ maxInt64) = true := decide_eq_true h.generation.2.1
  have hvalid : ∀ (kind : Command) (address : String), kind.mutates = true →
      validBindAddress st ⟨kind, requestID, o.idempotency, "", some o.generation, address⟩ = true →
      validIntent s st ⟨kind, requestID, o.idempotency, "", some o.generation, address⟩ = true := by
    intro kind address hmutates haddress
    simp only [validIntent, hid, hcredential, h.idempotency, any_some, hlow, hmax, haddress]
    cases kind with
    | apply => rfl
    | disable => rfl
    | revoke => rfl
    | _ => cases hmutates
  have hcommand := h.command
  simp only [Command.isMutation, Bool.or_eq_true, decide_eq_true_eq] at hcommand
  unfold mutationIntent
  rcases hcommand with ((hc | hc) | hc) | hc
  · rw [hc]
    exact hvalid .apply "" rfl rfl
  · obtain ⟨haddress, -, w, hw, hle⟩ := h.bind hc
    rw [hc]
    refine hvalid .apply o.address rfl ?_
    simp only [validBindAddress, hw, haddress, any_some, decide_eq_true hle]
    rw [Bool.or_eq_true]
    exact .inr rfl
  · rw [hc]
    exact hvalid .disable "" rfl rfl
  · rw [hc]
    exact hvalid .revoke "" rfl rfl

/-- What `acceptBinding` gives. -/
theorem acceptBinding_some {op : Operation} {st' : State} (h : acceptBinding st p op = some st') :
    (p.bindAddress = "" ∧ st' = st) ∨ (p.bindAddress ≠ "" ∧ ∃ w g, st.wireGuard = some w ∧
      p.expectedGeneration = some g ∧ op.generation = g + 1 ∧
      st' = { st with wireGuard := some { w with address := p.bindAddress, generation := op.generation
                                                 operationID := op.operationId
                                                 appliedGeneration := if op.effective then op.generation else 0 } }) := by
  unfold acceptBinding at h
  by_cases hempty : p.bindAddress = ""
  · rw [if_pos hempty] at h
    cases h
    exact .inl ⟨hempty, rfl⟩
  rw [if_neg hempty] at h
  obtain ⟨w, hw, h⟩ := bind_eq_some_iff.mp h
  obtain ⟨g, hg, h⟩ := bind_eq_some_iff.mp h
  by_cases hop : op.action = "apply" ∧ op.generation = g + 1
  · rw [if_pos hop] at h
    cases h
    exact .inr ⟨hempty, w, g, hw, hg, hop.2, rfl⟩
  · rw [if_neg hop] at h
    cases h

theorem validateOperation_id {op : Operation} {device action id : String}
    (h : validateOperation op device action id = true) : hexID op.operationId = true := by
  simp only [validateOperation, Bool.and_eq_true] at h
  exact h.1.1.1.1.1.1.1.1.1.1.1

theorem checked_ok {ok : α → Bool} {r : Except Err α} {a : α} (h : checked ok r = .ok a) :
    ok a = true := by
  cases r with
  | error => cases h
  | ok =>
    simp only [checked] at h
    split_ifs at h with hok
    cases h
    exact hok

theorem mutate_safe (h : Mutation st o) (hcredential : st.credential = some cr)
    (hkey : privateKey s st.privateKey = some key) : Safe s T Any st (mutate s st cr o key) := by
  refine authorize_safe (fun e => trivial) fun ch requestID hid => ?_
  have hroom : (mutationIntent o requestID).bindAddress ≠ "" →
      ∀ t ∈ (mutationIntent o requestID).expectedGeneration, t < proxySafeInteger := by
    intro hne t ht
    cases ht
    by_cases hc : o.command = .bind
    · exact (h.bind hc).2.1
    · exact absurd (if_neg hc) hne
  refine save_safe
    (.intend (mutationIntent o requestID) key hkey (h.valid hcredential hid) ?_ hroom) ?_
    fun _ => trivial
  · intro t ht
    cases ht
    exact h.generation.2.2
  refine call_safe fun response => ?_
  generalize hresult : checked _ response = result
  cases result with
  | error e => exact failedMutation_safe rfl e
  | ok op =>
    have hvalid := checked_ok hresult
    rw [Bool.and_eq_true, Bool.and_eq_true] at hvalid
    dsimp only
    generalize haccept : acceptBinding _ _ op = accepted
    cases accepted with
    | none => exact trivial
    | some st' =>
      exact saveThen_safe
        (.accept (mutationIntent o requestID) op st' rfl haccept (validateOperation_id hvalid.1.1))

/-! ## Status and binding -/

theorem status_safe : Safe s T Any st (status s st cr o key) := by
  refine authorize_safe (fun e => trivial) fun ch requestID _ => call_safe fun response => ?_
  cases response with
  | error => exact trivial
  | ok =>
    refine meets_ite (fun _ => trivial) fun _ => ?_
    split
    · exact trivial
    rename_i w hw
    rw [filter_eq_some_iff] at hw
    refine meets_ite (fun _ => trivial) fun hop => meets_ite (fun _ => ?_) fun _ => trivial
    rw [not_or, not_not, not_not] at hop
    rw [hop.2]
    exact saveThen_safe (.applied w hw.1)

theorem executeAuthorized_safe (hcredential : st.credential = some cr)
    (h : o.command = .status ∨ o.command = .rotateCredential ∨ Mutation st o) :
    Safe s T Any st (executeAuthorized s st cr o) := by
  unfold executeAuthorized
  split
  · exact trivial
  rename_i key hkey
  split
  · exact status_safe
  · exact rotate_safe hcredential hkey
  · rename_i hstatus hrotate
    rcases h with h | h | h
    · exact absurd h hstatus
    · exact absurd h hrotate
    · exact mutate_safe h hcredential hkey

theorem executeBind_safe (hcredential : st.credential = some cr) (hp : st.pending = none)
    (h : ∀ st', (∃ w, st'.wireGuard = some w ∧ w.generation ≤ o.generation) →
    ∀ key, Mutation st' { o with key := key })
    (hlow : 0 ≤ o.generation) : Safe s T Any st (executeBind s st cr o) := by
  refine clock_safe fun now _ => meets_ite (fun _ => trivial) fun _ => ?_
  split
  · rename_i w hw
    refine meets_ite (fun _ => trivial) fun hle => ?_
    exact executeAuthorized_safe hcredential (.inr (.inr (h st ⟨w, hw, not_lt.mp hle⟩ w.publicKey)))
  rename_i hw
  refine random_safe trivial fun material _ => ?_
  dsimp only
  split
  · exact trivial
  · rename_i pub hkey
    refine save_safe (.bindKey _ pub cr hcredential hp hw hkey) ?_ fun _ => trivial
    exact executeAuthorized_safe hcredential (.inr (.inr (h _ ⟨_, rfl, hlow⟩ pub)))

/-! ## Recovery and cancellation -/

theorem recoverCredential_safe {kind : String} (hp : st.pending = some p)
    (hkey : privateKey s v = some key) : Safe s T Any st (recoverCredential s st p kind key) := by
  refine issueChallengeWithOwner_safe fun answer => ?_
  cases answer with
  | error => exact trivial
  | ok =>
    refine opaqueName_safe trivial fun requestID _ => call_safe fun response => ?_
    cases response with
    | error => exact trivial
    | ok cr =>
      refine clock_safe fun now hnow => meets_ite (fun _ => trivial) fun hvalid => ?_
      simp only [Bool.not_eq_true', Bool.not_eq_false, Bool.and_eq_true] at hvalid
      exact saveThen_safe (.credential p v key cr _ now hp hkey (.inl hnow) hvalid.1)

theorem recoverOperation_safe {t : ℤ} (hp : st.pending = some p) :
    Safe s T Any st (recoverOperation s st p t cr key) := by
  refine issueChallengeWithOwner_safe fun answer => ?_
  cases answer with
  | error => exact trivial
  | ok =>
    refine opaqueName_safe trivial fun requestID _ => call_safe fun response => ?_
    cases response with
    | error => exact trivial
    | ok op =>
      refine meets_ite (fun _ => trivial) fun hvalid => ?_
      simp only [Bool.not_eq_true', Bool.not_eq_false, Bool.and_eq_true] at hvalid
      split
      · exact trivial
      · rename_i st' haccept
        exact saveThen_safe (.accept p op st' hp haccept (validateOperation_id hvalid.1))

theorem recover_safe : Safe s T Any st (recover s st) := by
  unfold recover
  split
  · exact trivial
  rename_i p hp
  split
  · exact trivial
  rename_i key hkey
  split
  · exact recoverCredential_safe hp hkey
  · split
    · exact trivial
    · rename_i newKey hnew
      exact recoverCredential_safe hp hnew
  · split
    · exact recoverOperation_safe hp
    · exact trivial

/-- What the server says of the request is saved. -/
theorem settle_safe {r : Resolution} {resolved : ResolveReceipt} (hp : st.pending = some p)
    (hkey : privateKey s v = some r.key) : Safe s T Any st (settle s st p r resolved) := by
  refine meets_ite (fun _ => trivial) fun _ => meets_ite (fun _ => ?_) fun _ => meets_ite
    (fun _ => ?_) fun _ => trivial
  · exact meets_ite (fun _ => trivial) fun _ => saveThen_safe (.cancelled p hp)
  refine meets_ite (fun _ => ?_) fun _ => ?_
  · split
    · exact trivial
    · rename_i cr hcr
      rw [resolvedCredential, filter_eq_some_iff] at hcr
      simp only [Bool.and_eq_true] at hcr
      exact saveThen_safe (.credential p v r.key cr _ 0 hp hkey (.inr rfl) hcr.2.1.2)
  · split
    · exact trivial
    · rename_i op st' hresolved
      obtain ⟨op', -, hresolved⟩ := bind_eq_some_iff.mp hresolved
      obtain ⟨cr, -, hresolved⟩ := bind_eq_some_iff.mp hresolved
      obtain ⟨t, -, hresolved⟩ := bind_eq_some_iff.mp hresolved
      split_ifs at hresolved with hvalid
      obtain ⟨st'', haccept, hresolved⟩ := bind_eq_some_iff.mp hresolved
      cases hresolved
      exact saveThen_safe (.accept p op st' hp haccept (validateOperation_id hvalid.2.1))

theorem resolve_safe {r : Resolution} (hp : st.pending = some p)
    (hkey : privateKey s v = some r.key) : Safe s T Any st (resolve s st p r) := by
  refine issueChallengeWithOwner_safe fun answer => ?_
  cases answer with
  | error => exact trivial
  | ok =>
    refine opaqueName_safe trivial fun requestID _ => call_safe fun response => ?_
    cases response with
    | error => exact trivial
    | ok => exact settle_safe hp hkey

theorem readStdin_safe {f : Option String → Program File β}
    (h : ∀ data, Safe s T post g (f data)) : Safe s T post g (readStdin >>= f) := by
  refine ⟨trivial, fun data g' hg => ?_⟩
  rw [show g' = g from hg]
  exact h data

theorem cancelPending_safe : Safe s T Any st (cancelPending s st o) := by
  unfold cancelPending
  split
  · exact trivial
  rename_i p hp
  split
  · exact trivial
  rename_i key hkey
  refine meets_ite (fun _ => ?_) fun _ => meets_ite (fun _ => trivial) fun _ => ?_
  · refine meets_ite (fun _ => trivial) fun _ => readStdin_safe fun data => ?_
    split
    · exact trivial
    · exact resolve_safe hp hkey
  split
  · exact trivial
  · refine meets_ite (fun _ => ?_) fun _ => resolve_safe hp hkey
    split
    · exact trivial
    · rename_i newKey hnew
      exact resolve_safe hp hnew

/-! ## Execution -/

theorem executeActivate_safe {server : String} : Safe s T Any st (executeActivate s server st) := by
  refine meets_ite (fun _ => trivial) fun hcredential => readStdin_safe fun data => ?_
  rw [Bool.not_eq_true, isSome_eq_false_iff, isNone_iff_eq_none] at hcredential
  split
  · exact trivial
  · refine meets_ite (fun _ => activate_safe hcredential _) fun hkey => ?_
    rw [not_not] at hkey
    refine random_safe trivial fun seed hseed => ?_
    exact save_safe (.fresh server seed hkey hseed) (activate_safe rfl _) fun _ => trivial

theorem parse_mutation (h : parse s line = some o) (hcommand : o.command.isMutation = true) :
    (0 ≤ o.generation ∧ o.generation ≠ maxInt64 ∧ o.generation < 2 ^ 63) ∧
    identifier o.idempotency 128 = true ∧
      (o.command = .bind → hostAddress o.address = true ∧ o.generation < proxySafeInteger) := by
  cases line with
  | unknown => cases h
  | malformed => cases h
  | flags c =>
    simp only [parse] at h
    split_ifs at h with haccepted
    cases h
    simp only [Bool.and_eq_true, isInt64, decide_eq_true_eq] at haccepted
    obtain ⟨⟨⟨-, hint⟩, hvalues⟩, -⟩ := haccepted
    have hmutation : ∀ o : Options, validValues.validMutation o = true →
        (0 ≤ o.generation ∧ o.generation ≠ maxInt64) ∧ identifier o.idempotency 128 = true := by
      intro o ho
      simp only [validValues.validMutation, Bool.and_eq_true, Bool.not_eq_true',
        decide_eq_false_iff_not, not_or, not_lt] at ho
      exact ⟨ho.1.1, ho.1.2⟩
    cases c with
    | apply =>
      simp only [validValues, Flags.options, Bool.and_eq_true] at hvalues
      obtain ⟨hgeneration, hid⟩ := hmutation _ hvalues.1.1
      exact ⟨⟨hgeneration.1, hgeneration.2, hint.2⟩, hid, nofun⟩
    | bind =>
      simp only [validValues, Flags.options, Bool.and_eq_true] at hvalues
      obtain ⟨hgeneration, hid⟩ := hmutation _ hvalues.1.1.1
      exact ⟨⟨hgeneration.1, hgeneration.2, hint.2⟩, hid,
        fun _ => ⟨hvalues.1.2, of_decide_eq_true hvalues.2⟩⟩
    | disable | revoke =>
      simp only [validValues, Flags.options, Bool.and_eq_true] at hvalues
      obtain ⟨hgeneration, hid⟩ := hmutation _ hvalues.1.1
      exact ⟨⟨hgeneration.1, hgeneration.2, hint.2⟩, hid, nofun⟩
    | activate | status | rotateCredential | recover | cancelPending => cases hcommand

theorem execute_safe (h : parse s line = some o) {server : String} :
    Safe s T Any st (execute s server st o) := by
  refine meets_ite (fun _ => trivial) fun hpending => ?_
  split
  · exact executeActivate_safe
  · exact recover_safe
  · exact cancelPending_safe
  · rename_i hactivate hrecover hcancel
    have hp : st.pending = none := by
      simp only [not_and, not_not, isSome_iff_ne_none, ne_eq] at hpending
      by_contra hsome
      exact hcancel (hpending hsome hrecover)
    split
    · exact trivial
    rename_i cr hcredential
    refine meets_ite (fun hbind => ?_) fun hbind => ?_
    · obtain ⟨hgeneration, hid, haddress⟩ := parse_mutation h (by rw [hbind]; rfl)
      refine executeBind_safe hcredential hp (fun st' hw key => ?_) hgeneration.1
      exact ⟨by rw [hbind]; rfl, hgeneration, hid, fun hc => ⟨(haddress hc).1, (haddress hc).2, hw⟩⟩
    · refine executeAuthorized_safe hcredential ?_
      by_cases hmutation : o.command.isMutation = true
      · obtain ⟨hgeneration, hid, -⟩ := parse_mutation h hmutation
        exact .inr (.inr ⟨hmutation, hgeneration, hid, fun hc => absurd hc hbind⟩)
      · cases hc : o.command <;> simp_all [Command.isMutation]

theorem load_safe {f : Option (Option File) → Program File β}
    (h : ∀ data g', (∀ st, load s data = some st → g' = st) → Safe s T post g' (f data)) :
    Safe s T post g (readState >>= f) := ⟨trivial, h⟩

/-- `loadRoots`, and what follows it. -/
theorem loadRoots_safe {path : String} {f : Roots → Program File β}
    (h : ∀ roots, Safe s T post g (f roots)) : Safe s T post g (loadRoots path >>= f) := by
  refine ⟨trivial, fun roots g' hg => ?_⟩
  rw [show g' = g from hg]
  exact h roots

theorem runLocked_safe (h : parse s line = some o) : Safe s T Any g (runLocked s o) := by
  refine cancelled_safe fun stop => meets_ite (fun _ => trivial) fun _ => ?_
  refine load_safe fun data g' hload => ?_
  split
  · exact trivial
  · rename_i st hst
    rw [hload st hst]
    split
    · exact trivial
    · exact meets_ite (fun _ => trivial) fun _ => execute_safe h

theorem runCommand_safe : Safe s T Any g (runCommand s line) := by
  unfold runCommand
  split
  · exact trivial
  rename_i o hparse
  refine loadRoots_safe fun roots => ?_
  cases roots with
  | timeout => exact trivial
  | invalid => exact trivial
  | loaded =>
    refine ⟨trivial, fun locked g' hg => ?_⟩
    rw [show g' = g from hg]
    exact meets_ite (fun _ => trivial) fun _ => runLocked_safe hparse

/-! ## Startup -/

/-- A successful start has saved its profile. -/
def Started (g : State) (r : Except Err Config) : Prop :=
  ∀ config, r = .ok config → g.proxyProfile = some config.projection.profile

theorem started_error (g : State) (e : Err) : Started g (.error e) := fun config h => by cases h

/-- What `validateProjection` accepts. -/
theorem validateProjection_ok {b : ProxyBootstrap} {t now : ℤ}
    (h : validateProjection s b st cr w t now = .ok ()) :
    projectionMatches b cr w t now = true ∧ now < b.expiresUnixSeconds ∧
    proxyRouteProfileDigest s b.profile = some b.profileSha256 ∧ ∀ old ∈ st.proxyProfile,
    profileFollows s old b.profile = .ok () := by
  unfold validateProjection at h
  split_ifs at h with hmatches hexpired hdigest
  simp only [Bool.not_eq_true', Bool.not_eq_false] at hmatches
  refine ⟨hmatches, not_le.mp hexpired, not_not.mp hdigest, fun old hold => ?_⟩
  rw [mem_def] at hold
  rw [hold] at h
  exact h

theorem proxyRouteProfileDigest_some {p : Profile} {digest : String}
    (h : proxyRouteProfileDigest s p = some digest) :
    validateProxyRouteProfile s p = true := by
  unfold proxyRouteProfileDigest at h
  split_ifs at h with hvalid
  exact hvalid

section

variable (hcredential : st.credential = some cr) (hw : st.wireGuard = some w)
  (hlow : 1 ≤ w.generation)
include hcredential hw hlow

/-- `PrepareStartLocked` from the projection on. -/
theorem acceptProjection_safe {o : StartOptions} {b : ProxyBootstrap} (hgeneration : o.generation = w.generation) :
    Safe s T Started st (acceptProjection s st cr w o b) := by
  refine clock_safe fun now _ => ?_
  split
  · exact started_error st _
  rename_i hvalid
  obtain ⟨hmatches, -, hdigest, hfollows⟩ := validateProjection_ok hvalid
  have happlied : b.appliedGeneration = w.generation := by
    simp only [projectionMatches, Bool.and_eq_true, decide_eq_true_eq] at hmatches
    rw [← hgeneration]
    exact hmatches.1.2
  have hchange : Change s T st { st with proxyProfile := some b.profile
                                         wireGuard := some { w with appliedGeneration := b.appliedGeneration } } := by
    rw [happlied]
    exact .profile w b.profile cr hcredential hw hlow (proxyRouteProfileDigest_some hdigest) hfollows
  refine clock_safe fun now _ => meets_ite (fun _ => started_error st _) fun _ => ?_
  refine cancelled_safe fun stop => meets_ite (fun _ => started_error st _) fun _ => ?_
  refine save_safe hchange ?_ fun g' => started_error g' _
  refine clock_safe fun now _ => meets_ite (fun _ => started_error _ _) fun _ => ?_
  intro config hconfig
  cases hconfig
  rfl

/-- `PrepareStartLocked` from the server on. -/
theorem bootstrap_safe {o : StartOptions} (hgeneration : o.generation = w.generation) :
    Safe s T Started st (bootstrap s st cr w o) := by
  refine loadRoots_safe fun roots => ?_
  cases roots with
  | timeout => exact started_error st _
  | invalid => exact started_error st _
  | loaded =>
    dsimp only
    split
    · exact started_error st _
    refine meets_ite (fun _ => started_error st _) fun _ => ?_
    split
    · exact started_error st _
    · refine authorize_safe (fun e => started_error st _) fun ch requestID _ =>
        call_safe fun response => ?_
      cases response with
      | error => exact started_error st _
      | ok => exact acceptProjection_safe hcredential hw hlow hgeneration

end

/-- `PrepareStartLocked` after the load. -/
theorem startLoaded_safe {o : StartOptions} : Safe s T Started st (startLoaded s st o) := by
  refine meets_ite (fun _ => started_error st _) fun _ => ?_
  split
  · exact started_error st _
  rename_i cr hcredential
  split
  · exact started_error st _
  · rename_i w hw
    rw [filter_eq_some_iff, decide_eq_true_eq] at hw
    refine meets_ite (fun _ => started_error st _) fun hgeneration => ?_
    refine clock_safe fun now _ => meets_ite (fun _ => started_error st _) fun _ => ?_
    exact bootstrap_safe hcredential hw.1 hw.2 (not_not.mp hgeneration)

theorem prepareStartLocked_safe {flags : Option StartFlags} :
    Safe s T Started g (prepareStartLocked s flags) := by
  unfold prepareStartLocked
  split
  · exact started_error g _
  rename_i o _
  refine cancelled_safe fun stop => meets_ite (fun _ => started_error g _) fun _ => ?_
  refine load_safe fun data g' hload => ?_
  split
  · exact started_error g' _
  · rename_i st hst
    rw [hload st hst]
    exact startLoaded_safe

/-- A result of a successful start has its profile saved. -/
def Resulted (g : State) (r : Result) : Prop := ∀ config, r = .config (.ok config) →
  g.proxyProfile = some config.projection.profile

theorem program_safe (i : Invocation) (g : State) : Safe s T Resulted g (program s i) := by
  cases i with
  | command =>
    refine meets_bind runCommand_safe fun g' r _ => ?_
    exact fun config h => by cases h
  | start =>
    refine meets_bind prepareStartLocked_safe fun g' r hr => ?_
    intro config h
    cases h
    exact hr config rfl

end

end DaxiangVpn.DeviceClient
