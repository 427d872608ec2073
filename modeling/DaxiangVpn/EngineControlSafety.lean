import DaxiangVpn.EngineControl
import DaxiangVpn.SystemProxyCrashSafety

/-!
# An engine does not stop while it owns the system proxy

The controller claims a lease no later than its journal is stored and drops the claim
only when no journal is left, so the hook of a stop finds every journal of the engine.
The other ways to stop start from the starting phase, where the engine has not
been allowed to acquire anything.
-/

namespace DaxiangVpn.EngineControlSafety

open FaultyProgram Program HexTexts SystemProxyLease SystemProxyCrashSafety
  EngineControl TransitionRun

/-! ## What the manager does to the journal -/

section

variable {allowed : Verdict → Prop}

theorem read_keeps (P : Machine → Prop) (name : Field) :
    Ensures allowed P (read name) (fun _ => P) P :=
  (read_spec fun _ hm _ => hm).weaken fun _ _ h => h.1

theorem deny_keeps (P : Machine → Prop) (bad : Bool) (code : Code) :
    Ensures allowed P (deny bad code : Managed Unit) (fun _ => P) P :=
  ensures_deny (fun _ _ hm => hm) fun _ _ hm => hm

def Untouched (P : Option Journal → Receipt → Prop) (m : Machine) : Prop :=
  P m.world.journal m.receipt

/-- Bringing fields to their targets leaves the journal and the receipt alone. -/
theorem apply_keeps (P : Option Journal → Receipt → Prop) (J : Journal) (restoring : Bool) :
    Ensures allowed (Untouched P) (apply J restoring) (fun _ => Untouched P) (Untouched P) := by
  have hread : ∀ (c : FieldChange) (bad : Option RawValue → Bool) (code : Code),
      Ensures allowed (Untouched P) (read c.name >>= fun current => deny (bad current) code)
        (fun _ => Untouched P) (Untouched P) :=
    fun c _ _ => ensures_bind (read_keeps _ c.name) fun _ => deny_keeps _ _ _
  have hsettle : ∀ c : FieldChange, Ensures allowed (Untouched P) (settle restoring c)
      (fun _ => Untouched P) (Untouched P) := by
    intro c
    refine ensures_bind (read_keeps _ c.name) fun current => ?_
    split_ifs with hat
    · exact ensures_ret fun _ hm => hm
    · refine ensures_bind (deny_keeps _ _ _) fun _ => ?_
      refine ensures_bind (Q := fun _ => Untouched P)
        (ensures_call (fun _ hm => hm) fun _ _ hm => ⟨hm, hm⟩) fun _ => hread c _ _
  have hloop : ∀ f : FieldChange → Managed Unit, (∀ c, Ensures allowed (Untouched P) (f c)
      (fun _ => Untouched P) (Untouched P)) → Ensures allowed (Untouched P) (forEach f J.fields)
      (fun _ => Untouched P) (Untouched P) :=
    fun f hf => ensures_forEach (I := fun _ => Untouched P) fun _ c _ _ => hf c
  refine ensures_bind (hloop _ fun c => hread c _ _) fun _ => ?_
  refine ensures_bind (hloop _ hsettle) fun _ => ?_
  refine ensures_bind (hloop _ fun c => hread c _ _) fun _ => ?_
  exact ensures_bind (Q := fun _ => Untouched P)
    (ensures_call (fun _ hm => hm) fun _ _ hm => ⟨hm, hm⟩) fun _ => hloop _ fun c => hread c _ _

theorem load_keeps (m₀ : Machine) :
    Ensures allowed (· = m₀) load (fun found m => found = m₀.world.journal ∧ m = m₀) (· = m₀) := by
  refine ensures_bind (Q := fun found m => found = m₀.world.journal ∧ m = m₀)
    (ensures_call (fun m hm => ⟨congrArg (fun m => m.world.journal) hm, hm⟩)
      fun _ m hm => ⟨hm, hm⟩) fun found => ?_
  cases found with
  | none => exact ensures_ret fun _ hm => hm
  | some J =>
    refine ensures_bind (Q := fun J' m => J' = J ∧ some J = m₀.world.journal ∧ m = m₀)
      (ensures_check (fun J' hJ' m hm => ⟨(decode_ok hJ').1, hm⟩) fun _ _ m hm => hm.2) fun J' =>
      ensures_ret fun m hm => ?_
    rw [hm.1]
    exact hm.2

variable {env : Environment} {owner : Owner} {w : World}

/-- A restore leaves the journal or removes it. It succeeds with a journal left only
when that one belongs to somebody else and this is no error. -/
theorem restoreLocked_journal {leaseID : String} {foreignNoop : Bool} (m₀ : Machine) :
    Ensures allowed (· = m₀) (restoreLocked env owner leaseID foreignNoop)
      (fun _ m => (m.world.journal = m₀.world.journal ∨ m.world.journal = none) ∧
        ∀ J, m.world.journal = some J → foreignNoop = true ∧ J.leaseOwner ≠ owner)
      (fun m => m.world.journal = m₀.world.journal ∨ m.world.journal = none) := by
  have hsame : ∀ m, m = m₀ → m.world.journal = m₀.world.journal ∨ m.world.journal = none := by
    rintro m rfl
    exact .inl rfl
  refine ensures_bind ((load_keeps m₀).weaken (fun _ _ h => h) hsame) fun found =>
    ensures_of_fact fun hfound => ?_
  cases found with
  | none =>
    refine ensures_ret fun m hm => ⟨hsame m hm, fun J hJ => ?_⟩
    rw [hm, ← hfound] at hJ
    cases hJ
  | some J =>
    by_cases hforeign : J.leaseOwner ≠ owner
    · simp only [if_pos hforeign]
      cases foreignNoop with
      | true =>
        refine ensures_ret fun m hm => ⟨hsame m hm, fun J' hJ' => ⟨rfl, ?_⟩⟩
        rw [hm, ← hfound] at hJ'
        exact Option.some.inj hJ' ▸ hforeign
      | false => exact ensures_throw hsame
    · simp only [if_neg hforeign]
      have hkeep : ∀ m : Machine, m.world.journal = m₀.world.journal →
          m.world.journal = m₀.world.journal ∨ m.world.journal = none := fun _ hm => .inl hm
      refine ensures_deny_bind (fun _ => hsame) fun _ => ?_
      refine ensures_deny_bind (fun _ => hsame) fun _ => ?_
      refine ensures_bind ((apply_keeps (fun j _ => j = m₀.world.journal) J true).weaken
        (fun _ _ h => h) hkeep fun m hm => by rw [hm]; rfl) fun _ => ?_
      refine ensures_bind (Q := fun _ m => m.world.journal = none)
        (ensures_call (fun _ _ => rfl) fun _ m hm => ⟨hkeep m hm, .inr rfl⟩) fun _ => ?_
      refine ensures_modify fun m hm => ⟨.inr hm, fun J' hJ' => ?_⟩
      rw [show m.world.journal = none from hm] at hJ'
      cases hJ'

theorem restore_journal {claim : Claim} {leaseID : String} {foreignNoop : Bool} :
    Ensures allowed (fun m => m.world = w) (restore env claim leaseID foreignNoop)
      (fun _ m => (m.world.journal = w.journal ∨ m.world.journal = none) ∧
        ∃ owner, env.claim claim = .ok owner ∧
          ∀ J, m.world.journal = some J → foreignNoop = true ∧ J.leaseOwner ≠ owner)
      (fun m => m.world.journal = w.journal ∨ m.world.journal = none) := by
  have hsame : ∀ m : Machine, m.world = w → m.world.journal = w.journal ∨
    m.world.journal = none := by
    rintro m rfl
    exact .inl rfl
  refine ensures_check_bind (fun owner howner => ?_) fun _ _ => hsame
  refine ensures_bind (Q := fun _ m => m = ⟨w, .idle⟩)
    (ensures_modify fun m hm => by rw [hm]) fun _ => ?_
  have hbegin : ∀ m : Machine, m = ⟨w, .idle⟩ → m.world.journal = w.journal ∨
    m.world.journal = none := by
    rintro m rfl
    exact .inl rfl
  have hlocked : Ensures allowed (· = ⟨w, .idle⟩) (restoreLocked env owner leaseID foreignNoop)
      (fun _ m => (m.world.journal = w.journal ∨ m.world.journal = none) ∧
        ∀ J, m.world.journal = some J → foreignNoop = true ∧ J.leaseOwner ≠ owner)
      (fun m => m.world.journal = w.journal ∨ m.world.journal = none) :=
    restoreLocked_journal ⟨w, .idle⟩
  exact (within_spec env.authority (within_spec env.transactions hlocked hbegin fun _ hm => hm.1)
    hbegin fun _ hm => hm.1).weaken fun _ m hm => ⟨hm.1, owner, howner, hm.2⟩

/-- Before the receipt names an owner the journal is untouched; afterwards a
journal belongs to that owner. -/
def Taken (journal : Option Journal) (owner : Owner) (m : Machine) : Prop :=
  m.receipt.owner = none ∧ m.world.journal = journal ∨
    m.receipt.owner = some owner ∧ ∀ J, m.world.journal = some J → J.leaseOwner = owner

theorem record_journal {written : List (Option RawValue)} (m₀ : Machine)
    (hreceipt : m₀.receipt.owner = none) (hfree : m₀.world.journal = none) :
    Ensures allowed (· = m₀) (record env owner written)
      (fun J m => J.leaseOwner = owner ∧ m.world.journal = some J)
      (Taken m₀.world.journal owner) := by
  have hsame : ∀ m, m = m₀ → Taken m₀.world.journal owner m := by
    rintro m rfl
    exact .inl ⟨hreceipt, rfl⟩
  unfold record
  cases env.random with
  | none => exact ensures_throw hsame
  | some id =>
    refine ensures_bind ((readOriginals_spec m₀ _).weaken (fun _ _ h => h.1) hsame)
      fun changes => ?_
    refine ensures_deny_bind (fun _ => hsame) fun _ => ?_
    refine ensures_bind (Q := fun _ m => m.receipt.owner = some owner ∧ m.world.journal = none)
      (ensures_modify fun m hm => ⟨rfl, by rw [hm]; exact hfree⟩) fun _ => ?_
    refine ensures_bind (Q := fun _ m => m.world.journal = some ⟨journalVersion, "cli-runtime",
      "wininet-hkcu", encodeHex id.toList, owner, changes⟩)
      (ensures_call (fun _ _ => rfl) fun _ m hm => ⟨.inr ⟨hm.1, fun J hJ => ?_⟩,
        .inr ⟨hm.1, fun J hJ => ?_⟩⟩) fun _ => ensures_ret fun m hm => ⟨rfl, hm⟩
    · cases hm.2.symm.trans hJ
    · cases hJ
      rfl

theorem acquireLocked_journal {written : List (Option RawValue)} (m₀ : Machine)
    (hreceipt : m₀.receipt.owner = none) :
    Ensures allowed (· = m₀) (acquireLocked env owner written)
      (fun _ => Taken m₀.world.journal owner) (Taken m₀.world.journal owner) := by
  have hsame : ∀ m, m = m₀ → Taken m₀.world.journal owner m := by
    rintro m rfl
    exact .inl ⟨hreceipt, rfl⟩
  have happly : ∀ (J : Journal) (noop : Bool), J.leaseOwner = owner →
      Ensures allowed (fun m => m.world.journal = some J)
        (setReceipt (J.receipt noop) >>= fun _ => apply J false)
        (fun _ => Taken m₀.world.journal owner) (Taken m₀.world.journal owner) := by
    intro J noop hmine
    have htaken : ∀ m : Machine, (m.world.journal = some J ∧ m.receipt.owner = some owner) →
        Taken m₀.world.journal owner m := by
      rintro m ⟨hJ, hr⟩
      refine .inr ⟨hr, fun J' hJ' => ?_⟩
      rw [hJ] at hJ'
      exact Option.some.inj hJ' ▸ hmine
    refine ensures_bind (Q := fun _ m => m.world.journal = some J ∧ m.receipt.owner = some owner)
      (ensures_modify fun m hm => ⟨hm, congrArg some hmine⟩) fun _ => ?_
    exact (apply_keeps (fun j r => j = some J ∧ r.owner = some owner) J false).weaken
      (fun _ => htaken) htaken
  refine ensures_bind ((load_keeps m₀).weaken (fun _ _ h => h) hsame) fun found =>
    ensures_of_fact fun hfound => ?_
  cases found with
  | some J =>
    refine ensures_deny_bind (fun _ => hsame) fun hmine => ?_
    refine ensures_deny_bind (fun _ => hsame) fun _ => ?_
    refine ensures_bind (Q := fun _ m => m.world.journal = some J)
      (ensures_deny (fun _ => hsame) fun _ m hm => ?_) fun _ => happly J true (by simpa using hmine)
    rw [hm]
    exact hfound.symm
  | none =>
    refine ensures_deny_bind (fun _ => hsame) fun _ => ?_
    exact ensures_bind (record_journal m₀ hreceipt hfound.symm) fun J =>
      ensures_of_fact fun hmine => happly J false hmine

/-- The journal and the receipt after an attempt to acquire. A refusing authority
leaves both alone. -/
def Attempted (env : Environment) (claim : Claim) (w : World) (m : Machine) : Prop :=
  m.receipt.owner = none ∧ m.world.journal = w.journal ∨
    env.authority ≠ .refuses ∧ ∃ owner, env.claim claim = .ok owner ∧ Taken w.journal owner m

theorem acquire_journal (env : Environment) (claim : Claim) (w : World) :
    Ensures allowed (· = ⟨w, .empty⟩) (acquire env claim) (fun _ => Attempted env claim w)
      (Attempted env claim w) := by
  refine ensures_check_bind (fun owner howner => ?_) fun _ _ m hm =>
    .inl (by rw [hm]; exact ⟨rfl, rfl⟩)
  by_cases hrefuses : env.authority = .refuses
  · simp only [hrefuses]
    refine ensures_throw ?_
    rintro m rfl
    exact .inl ⟨rfl, rfl⟩
  have hsame : ∀ m : Machine, m = ⟨w, .empty⟩ → Taken w.journal owner m := by
    rintro m rfl
    exact .inl ⟨rfl, rfl⟩
  have hall : Ensures allowed (· = ⟨w, .empty⟩) (within env.authority do
      deny (decide (env.engine.owner ≠ owner) || decide (env.engine.state ≠ .ready) ||
        !env.engine.proxyReachable) .readyRefused
      let written ← check (desired env.engine)
      within env.transactions (acquireLocked env owner written))
      (fun _ => Taken w.journal owner) (Taken w.journal owner) := by
    refine within_spec env.authority ?_ hsame fun _ hm => hm
    refine ensures_deny_bind (fun _ => hsame) fun _ => ?_
    refine ensures_check_bind (fun written _ => ?_) fun _ _ => hsame
    exact within_spec env.transactions (acquireLocked_journal ⟨w, .empty⟩ rfl) hsame fun _ hm => hm
  exact hall.weaken (fun _ m hm => .inr ⟨hrefuses, owner, howner, hm⟩)
    fun m hm => .inr ⟨hrefuses, owner, howner, hm⟩

end

/-! ## Hooks -/

section

variable {engine : ControlRecord} {phase : Phase} {answers : Answers} {held : Option Claim}
  {w w' : World}

/-- No journal belongs to the engine. -/
def Clear (engine : ControlRecord) (w : World) : Prop :=
  ∀ J, w.journal = some J → J.leaseOwner.engine ≠ engine.identity

def Held (engine : ControlRecord) (held : Option Claim) (w : World) : Prop :=
  ∀ J, w.journal = some J → J.leaseOwner.engine = engine.identity →
    ∃ claim, held = some claim ∧ claim.engine = engine.identity ∧
      claim.userScope = J.leaseOwner.userScope ∧ J.leaseOwner.home = engine.identity.home

theorem journal_of_kept (h : w'.journal = w.journal ∨ w'.journal = none) {J : Journal}
    (hJ : w'.journal = some J) : w.journal = some J := by
  rcases h with h | h
  · rw [← h]
    exact hJ
  · cases h.symm.trans hJ

theorem claim_home {env : Environment} {claim : Claim} {owner : Owner}
    (h : env.claim claim = .ok owner) : owner.home = owner.engine.home := by
  have hvalid := (claim_valid h).1
  simp only [validOwner, Bool.and_eq_true, beq_iff_eq] at hvalid
  exact hvalid.1.1.1.1.2.symm

theorem owner_ext {a b : Owner} (huser : a.userScope = b.userScope) (hhome : a.home = b.home)
    (hengine : a.engine = b.engine) : a = b := by
  cases a
  cases b
  simp_all

theorem withReady_refuses (hphase : phase ≠ .ready) (owner : Owner) (claim : Claim) :
    withReady engine phase answers owner claim = .refuses := by
  unfold withReady guardAuthority
  split
  · rfl
  · exact if_neg (by simp [hphase])

/-- What a hook does to the claim and the journal. -/
structure HookSafe (engine : ControlRecord) (phase : Phase) (w : World) (h : Hooked) : Prop where
  held : Held engine h.claim h.world
  /-- Outside the ready phase there is no new journal of the engine. -/
  clear : phase ≠ .ready → Clear engine w → Clear engine h.world

theorem hookSafe_of_kept (hheld : Held engine held w)
    (hjournal : w'.journal = w.journal ∨ w'.journal = none) (result : HookResult)
    (receipt : Receipt) : HookSafe engine phase w ⟨result, receipt, held, w'⟩ :=
  ⟨fun _ hJ => hheld _ (journal_of_kept hjournal hJ),
    fun _ hclear _ hJ => hclear _ (journal_of_kept hjournal hJ)⟩

/-- Acquiring is safe: the receipt names the owner before a journal is stored. -/
theorem acquireAction_safe (hheld : Held engine held w) (scope : Scope) :
    HookSafe engine phase w (acquireAction engine phase answers scope held w) := by
  unfold acquireAction
  set env := managerEnvironment engine phase answers
    (withReady engine phase answers (engine.owner scope) (engine.claim scope)) (engine.owner scope)
    with henv
  have hspec := (acquire_journal env (engine.claim scope) w).always
    (fun _ _ h => h) (fun _ h => h) (all_allowed answers.script) rfl
  rcases hspec with ⟨hnone, hjournal⟩ | ⟨hadmits, owner, howner, ⟨hnone, hjournal⟩ | ⟨hsome, hmine⟩⟩
  · simp only [hnone, ne_eq, not_true_eq_false, if_false]
    exact hookSafe_of_kept hheld (.inl hjournal) _ _
  · simp only [hnone, ne_eq, not_true_eq_false, if_false]
    exact hookSafe_of_kept hheld (.inl hjournal) _ _
  obtain ⟨-, huser, hengine⟩ := claim_valid howner
  simp only [hsome, ne_eq, reduceCtorEq, not_false_eq_true, if_true]
  refine ⟨fun J hJ _ => ⟨_, rfl, rfl, ?_, ?_⟩, fun hphase => ?_⟩
  · rw [hmine J hJ]
    exact huser.symm
  · rw [hmine J hJ, claim_home howner, hengine]
    rfl
  · exact absurd (withReady_refuses hphase _ _) hadmits

theorem release_journal {allowed : Verdict → Prop} (env : Environment) (claim : Claim)
    (leaseID : String) (w : World) :
    Ensures allowed (fun m => m.world = w) (release env claim leaseID)
    (fun _ m => m.world.journal = none)
      (fun m => m.world.journal = w.journal ∨ m.world.journal = none) := by
  refine ensures_deny_bind (fun _ m hm => .inl (congrArg World.journal hm)) fun _ => ?_
  refine restore_journal.weaken fun _ m hm => ?_
  obtain ⟨-, owner, -, hleft⟩ := hm
  refine Option.eq_none_iff_forall_ne_some.mpr fun J hJ => ?_
  cases (hleft J hJ).1

/-- Releasing is safe: the claim is dropped only when no journal is left. -/
theorem releaseAction_safe (hheld : Held engine held w) (scope : Scope) (leaseID : String) :
    HookSafe engine phase w (releaseAction engine phase answers scope leaseID held w) := by
  unfold releaseAction
  set env := managerEnvironment engine phase answers
    (withRelease engine phase answers (engine.owner scope) (engine.claim scope))
      (engine.owner scope)
  have hspec : Ensures (fun _ => True) (fun m => m.world = w)
      (release env (engine.claim scope) leaseID) (fun _ m => m.world.journal = none)
      (fun m => m.world.journal = w.journal ∨ m.world.journal = none) :=
    release_journal env _ leaseID w
  have hjournal := hspec.always (fun _ _ h => .inr h) (fun _ h => h)
    (all_allowed answers.script) (rfl : (⟨w, .empty⟩ : Machine).world = w)
  dsimp only
  cases hout : (release env (engine.claim scope) leaseID answers.script ⟨w, .empty⟩).outcome with
  | ok =>
    have hnone := hspec.returned (all_allowed answers.script)
      (rfl : (⟨w, .empty⟩ : Machine).world = w) hout
    simp only [hookResult, if_true]
    refine ⟨fun J hJ => ?_, fun _ _ J hJ => ?_⟩
    · cases hnone.symm.trans hJ
    · cases hnone.symm.trans hJ
  | error | crashed =>
    simp only [hookResult, reduceCtorEq, if_false]
    exact hookSafe_of_kept hheld hjournal _ _

theorem action_safe (hheld : Held engine held w) (request : RuntimeAction) :
    HookSafe engine phase w (action engine phase answers request held w) := by
  have hrefused : HookSafe engine phase w ⟨.failed, .empty, held, w⟩ :=
    hookSafe_of_kept hheld (.inl rfl) _ _
  unfold action
  split
  · split
    · exact hrefused
    · split
      · exact acquireAction_safe hheld _
      · exact releaseAction_safe hheld _ _
      · exact hrefused
  · exact hrefused

theorem hookResult_ok {outcome : Outcome Code Unit} (h : hookResult outcome = .ok) :
    outcome = .ok () := by
  cases outcome with
  | ok => rfl
  | error => cases h
  | crashed => cases h

theorem releaseClaimed_safe {claim : Claim} (hheld : Held engine (some claim) w) (scope : Scope) :
    HookSafe engine phase w (releaseClaimed engine phase answers scope claim w) ∧
      ((releaseClaimed engine phase answers scope claim w).result = .ok →
        Clear engine (releaseClaimed engine phase answers scope claim w).world) := by
  unfold releaseClaimed
  set owner₀ : Owner := ⟨claim.userScope, scope.homeIdentity, claim.engine⟩
  set env := managerEnvironment engine phase answers
    (withRelease engine phase answers owner₀ claim) owner₀
  have hspec : Ensures (fun _ => True) (fun m => m.world = w) (releaseOwned env claim)
      (fun _ m => (m.world.journal = w.journal ∨ m.world.journal = none) ∧
        ∃ owner, env.claim claim = .ok owner ∧
          ∀ J, m.world.journal = some J → true = true ∧ J.leaseOwner ≠ owner)
      (fun m => m.world.journal = w.journal ∨ m.world.journal = none) := restore_journal
  have hjournal := hspec.always (fun _ _ h => h.1) (fun _ h => h)
    (all_allowed answers.script) (rfl : (⟨w, .empty⟩ : Machine).world = w)
  refine ⟨hookSafe_of_kept hheld hjournal _ _, fun hok J hJ hmine => ?_⟩
  obtain ⟨-, owner, howner, hleft⟩ := hspec.returned (all_allowed answers.script)
    (rfl : (⟨w, .empty⟩ : Machine).world = w) (hookResult_ok hok)
  obtain ⟨-, huser, hengine⟩ := claim_valid howner
  obtain ⟨claim', hclaim', hidentity, hscope, hhome⟩ := hheld J (journal_of_kept hjournal hJ) hmine
  cases hclaim'
  have hownerHome := claim_home howner
  rw [hengine, hidentity] at hownerHome
  refine (hleft J hJ).2 (owner_ext (hscope.symm.trans huser.symm) (hhome.trans hownerHome.symm) ?_)
  exact hmine.trans (hidentity.symm.trans hengine.symm)

theorem beforeStop_safe (phase : Phase) (answers : Answers) (hheld : Held engine held w) :
    HookSafe engine phase w (beforeStop engine phase answers held w) ∧
      ((beforeStop engine phase answers held w).result = .ok →
        Clear engine (beforeStop engine phase answers held w).world) ∧
      (beforeStop engine phase answers held w).claim = held := by
  unfold beforeStop
  split
  · refine ⟨hookSafe_of_kept hheld (.inl rfl) _ _, fun _ J hJ hmine => ?_, rfl⟩
    obtain ⟨claim, hnone, -⟩ := hheld J hJ hmine
    cases hnone
  · split
    · exact ⟨(releaseClaimed_safe hheld _).1, (releaseClaimed_safe hheld _).2, rfl⟩
    · refine ⟨hookSafe_of_kept hheld (.inl rfl) _ _, fun hok => ?_, rfl⟩
      cases hok

end

/-! ## Runs of the controller -/

section

variable {engine : ControlRecord} {c : Control}

/-- What every state of a controller satisfies. -/
structure Inv (engine : ControlRecord) (c : Control) : Prop where
  held : Held engine c.claim c.world
  idle : c.phase ≠ .ready → Clear engine c.world
  once : c.closed = if c.stopped then 1 else 0
  stopping : c.stopped = true ∨ 0 < c.closing → c.phase = .stopping

def Moves (before after : Phase) : Prop :=
  after = before ∨ before = .starting ∧ after = .ready ∨ before ≠ .stopping ∧ after = .stopping

/-- Nobody else creates a journal of the engine. -/
def Foreign (engine : ControlRecord) (c : Control) : Event → Prop
  | .outside w => ∀ J, w.journal = some J → J.leaseOwner.engine = engine.identity →
      c.world.journal = some J
  | _ => True

variable {w : World}

section

variable (h : Inv engine c)
include h

/-- Closing the done channel through its guard keeps the invariant. -/
theorem Inv.stopOnce (hphase : c.phase = .stopping) : Inv engine c.stopOnce := by
  unfold Control.stopOnce
  split_ifs with hopen
  · exact h
  · have hclosed := h.once
    rw [if_neg hopen] at hclosed
    exact ⟨h.held, h.idle, by simp [hclosed], fun _ => hphase⟩

/-- Stopping keeps the invariant where no journal of the engine is left. -/
theorem Inv.stop (hclear : Clear engine w) (n : ℕ) :
    Inv engine { c with world := w, phase := .stopping, closing := n } :=
  ⟨fun J hJ hmine => absurd hmine (hclear J hJ), fun _ => hclear, h.once, fun _ => rfl⟩

/-- What a locked section does. -/
structure Section (engine : ControlRecord) (c after : Control) : Prop where
  inv : Inv engine after
  moves : Moves c.phase after.phase
  data : after.dataStarted = c.dataStarted

/-- A section that leaves the phase alone and keeps the invariant. -/
theorem Section.refl : Section engine c c := ⟨h, .inl rfl, rfl⟩

theorem requestStop_section (answers : Answers) :
    Section engine c (c.requestStop engine answers).1 ∧
      ((c.requestStop engine answers).2 = true →
      (c.requestStop engine answers).1.phase = .stopping) ∧
      ((c.requestStop engine answers).1.phase = .ready → c.phase = .ready) := by
  unfold Control.requestStop
  split_ifs with hphase
  · exact ⟨.refl h, fun _ => hphase, fun hready => hready⟩
  obtain ⟨hsafe, hclear, hclaim⟩ :=
    beforeStop_safe c.phase { answers with alive := true } h.held
  have hheld := hsafe.held
  rw [hclaim] at hheld
  have hkept : ∀ running, Inv engine { c with
      world := (beforeStop engine c.phase { answers with alive := true } c.claim c.world).world
      running := running } :=
    fun _ => ⟨hheld, fun hp => hsafe.clear hp (h.idle hp), h.once, h.stopping⟩
  dsimp only
  split
  · rename_i hok
    exact ⟨⟨h.stop (hclear hok) _, .inr (.inr ⟨hphase, rfl⟩), rfl⟩, fun _ => rfl,
      nofun⟩
  · exact ⟨⟨hkept c.running, .inl rfl, rfl⟩, fun hfalse => absurd hfalse Bool.false_ne_true,
      fun hready => hready⟩
  · exact ⟨⟨hkept false, .inl rfl, rfl⟩, fun hfalse => absurd hfalse Bool.false_ne_true,
      fun hready => hready⟩

theorem expireLease_section :
    Section engine c c.expireLease ∧ (c.expireLease.phase = .ready → c.phase = .ready) := by
  unfold Control.expireLease
  split_ifs with hphase
  · exact ⟨.refl h, fun hready => hready⟩
  · refine ⟨⟨h.stop (h.idle hphase) _, ?_, rfl⟩, nofun⟩
    by_cases hstop : c.phase = .stopping
    · exact .inl hstop.symm
    · exact .inr (.inr ⟨hstop, rfl⟩)

/-- An activation makes a starting engine ready only with its data path up, in time
and with a fresh authorization. -/
theorem activate_section (now later : ℤ) : Section engine c (c.activate engine now later) ∧
      (c.phase ≠ .ready → (c.activate engine now later).phase = .ready →
        c.dataStarted = true ∧ engine.fresh now = true ∧ later < engine.startDeadlineUnixNano) := by
  unfold Control.activate
  by_cases hstale : c.phase = .starting ∧ engine.fresh now = false
  · have hclear := h.idle (by rw [hstale.1]; decide)
    have hstopped : Inv engine { c.stopOnce with phase := .stopping } := by
      have hinv : Inv engine { c with phase := .stopping } :=
        ⟨h.held, fun _ => hclear, h.once, fun _ => rfl⟩
      have honce := hinv.stopOnce rfl
      unfold Control.stopOnce at honce ⊢
      split at honce
      · rename_i hs
        rw [if_pos hs]
        exact honce
      · rename_i hs
        rw [if_neg hs]
        exact honce
    simp only [if_pos hstale]
    rw [if_neg (by simp)]
    refine ⟨⟨hstopped, .inr (.inr ⟨by rw [hstale.1]; decide, rfl⟩), ?_⟩, nofun⟩
    unfold Control.stopOnce
    split <;> rfl
  · simp only [if_neg hstale]
    split_ifs with hready
    · have hfresh : engine.fresh now = true := by
        by_contra hno
        exact hstale ⟨hready.1, by simpa using hno⟩
      refine ⟨⟨⟨h.held, fun hno => absurd rfl hno, h.once, fun hs => ?_⟩,
        .inr (.inl ⟨hready.1, rfl⟩), rfl⟩, fun _ _ => ⟨hready.2.1, hfresh, hready.2.2⟩⟩
      have hstop := h.stopping hs
      cases hready.1.symm.trans hstop
    · exact ⟨.refl h, fun hne hready => absurd hready hne⟩

theorem handleRuntimeAction_section (request : RuntimeActionRequest) (now later : ℤ)
    (answers : Answers) :
    Section engine c (c.handleRuntimeAction engine request now later answers) ∧
      (c.handleRuntimeAction engine request now later answers).phase = c.phase := by
  unfold Control.handleRuntimeAction
  split
  · exact ⟨.refl h, rfl⟩
  dsimp only
  split
  · exact ⟨⟨⟨h.held, h.idle, h.once, h.stopping⟩, .inl rfl, rfl⟩, rfl⟩
  · have hsafe : HookSafe engine c.phase c.world
        (action engine c.phase answers request.action c.claim c.world) := action_safe h.held _
    exact ⟨⟨⟨hsafe.held, fun hp => hsafe.clear hp (h.idle hp), h.once, h.stopping⟩, .inl rfl, rfl⟩,
      rfl⟩

end

/-- The event activates the engine: the data path is up, the start deadline has not
passed and the authorization, if there is one, is fresh. -/
def Activation (engine : ControlRecord) (c : Control) (event : Event) : Prop :=
  ∃ request now later answers, event = .control request now later answers ∧
    request.authorized engine = true ∧ request.command = .activate ∧ c.dataStarted = true ∧
    engine.fresh now = true ∧ later < engine.startDeadlineUnixNano

theorem Activation.dataStarted {event : Event} (h : Activation engine c event) :
    c.dataStarted = true := by
  obtain ⟨_, _, _, _, _, _, _, hdata, _, _⟩ := h
  exact hdata

theorem handle_section (h : Inv engine c) (request : ControlRequest) (now later : ℤ)
    (answers : Answers) :
    Section engine c (c.handle engine request now later answers) ∧
      (c.phase ≠ .ready → (c.handle engine request now later answers).phase = .ready →
        Activation engine c (.control request now later answers)) := by
  have hnothing : Section engine c c ∧ (c.phase ≠ .ready → c.phase = .ready →
      Activation engine c (.control request now later answers)) :=
    ⟨.refl h, fun hne hready => absurd hready hne⟩
  unfold Control.handle
  split_ifs with hauthorized
  · exact hnothing
  cases hcommand : request.command with
  | stop =>
    obtain ⟨hsection, hstopped, hready⟩ := requestStop_section h answers
    dsimp only
    split_ifs with hok
    · exact ⟨⟨⟨hsection.inv.held, hsection.inv.idle, hsection.inv.once, fun _ => hstopped hok⟩,
        hsection.moves, hsection.data⟩, fun hne hr => absurd (hready hr) hne⟩
    · exact ⟨hsection, fun hne hr => absurd (hready hr) hne⟩
  | activate =>
    obtain ⟨hsection, hready⟩ := activate_section h now later
    refine ⟨hsection, fun hne hr => ?_⟩
    obtain ⟨hdata, hfresh, htime⟩ := hready hne hr
    exact ⟨request, now, later, answers, rfl, by simpa using hauthorized, hcommand,
      hdata, hfresh, htime⟩
  | status => exact hnothing
  | unknown => exact hnothing

structure Stepped (engine : ControlRecord) (c : Control) (event : Event) : Prop where
  inv : Inv engine (step engine c event)
  moves : Moves c.phase (step engine c event).phase
  activation : c.phase ≠ .ready → (step engine c event).phase = .ready → Activation engine c event
  data : (step engine c event).dataStarted = true → c.dataStarted = true ∨ event = .ready

theorem Section.stepped {event : Event} (hsection : Section engine c (step engine c event))
    (hready : c.phase ≠ .ready → (step engine c event).phase = .ready → Activation engine c event) :
    Stepped engine c event :=
  ⟨hsection.inv, hsection.moves, hready, fun hdata => .inl (hsection.data ▸ hdata)⟩

/-- Every step keeps the invariant and moves the phase as it may. -/
theorem step_stepped (h : Inv engine c) (event : Event) (hforeign : Foreign engine c event) :
    Stepped engine c event := by
  have hstill : ∀ e : Event, step engine c e = c → Stepped engine c e := by
    intro e he
    refine Section.stepped (he.symm ▸ .refl h) fun hne hr => ?_
    rw [he] at hr
    exact absurd hr hne
  cases event with
  | outside =>
    refine ⟨⟨fun J hJ hmine => h.held J (hforeign J hJ hmine) hmine, fun hp J hJ hmine => ?_,
      h.once, h.stopping⟩, .inl rfl, fun hne hr => absurd hr hne, fun hdata => .inl hdata⟩
    exact h.idle hp J (hforeign J hJ hmine) hmine
  | ready =>
    by_cases hrun : c.running = false
    · exact hstill _ (if_pos hrun)
    have hstep : step engine c .ready = c.ready := if_neg hrun
    refine ⟨?_, ?_, fun hne hr => ?_, fun _ => .inr rfl⟩
    · rw [hstep]
      exact ⟨h.held, h.idle, h.once, h.stopping⟩
    · rw [hstep]
      exact .inl rfl
    · rw [hstep] at hr
      exact absurd hr hne
  | signal answers =>
    by_cases hrun : c.running = false
    · exact hstill _ (if_pos hrun)
    · have hstep : step engine c (.signal answers) = (c.requestStop engine answers).1 := if_neg hrun
      obtain ⟨hsection, -, hready⟩ := requestStop_section h answers
      rw [← hstep] at hsection hready
      exact hsection.stepped fun hne hr => absurd (hready hr) hne
  | expire =>
    by_cases hrun : c.running = false
    · exact hstill _ (if_pos hrun)
    · have hstep : step engine c .expire = c.expireLease := if_neg hrun
      obtain ⟨hsection, hready⟩ := expireLease_section h
      rw [← hstep] at hsection hready
      exact hsection.stepped fun hne hr => absurd (hready hr) hne
  | control request now later answers =>
    by_cases hrun : c.running = false
    · exact hstill _ (if_pos hrun)
    · have hstep : step engine c (.control request now later answers) =
          c.handle engine request now later answers := if_neg hrun
      obtain ⟨hsection, hready⟩ := handle_section h request now later answers
      rw [← hstep] at hsection hready
      exact hsection.stepped hready
  | runtimeAction request now later answers =>
    by_cases hrun : c.running = false
    · exact hstill _ (if_pos hrun)
    · have hstep : step engine c (.runtimeAction request now later answers) =
          c.handleRuntimeAction engine request now later answers := if_neg hrun
      obtain ⟨hsection, hphase⟩ := handleRuntimeAction_section h request now later answers
      rw [← hstep] at hsection hphase
      exact hsection.stepped fun hne hr => absurd (hphase ▸ hr) hne
  | close =>
    by_cases hrun : c.running = false
    · exact hstill _ (if_pos hrun)
    by_cases hclosing : 0 < c.closing
    · have hstep : step engine c .close = { c.stopOnce with closing := c.closing - 1 } :=
        (if_neg hrun).trans (if_pos hclosing)
      have hphase := h.stopping (.inr hclosing)
      have honce := h.stopOnce hphase
      have hkept : c.stopOnce.phase = c.phase ∧ c.stopOnce.dataStarted = c.dataStarted := by
        unfold Control.stopOnce
        split <;> exact ⟨rfl, rfl⟩
      refine Section.stepped ?_ fun hne hr => ?_
      · rw [hstep]
        exact ⟨⟨honce.held, honce.idle, honce.once, fun _ => hkept.1.trans hphase⟩,
          .inl hkept.1, hkept.2⟩
      · rw [hstep] at hr
        exact absurd (hkept.1 ▸ hr) hne
    · exact hstill _ ((if_neg hrun).trans (if_neg hclosing))

theorem run_inv (hw : Clear engine w) {events : List Event}
    (hguard : Along (step engine) (Foreign engine) (begin w) events) :
    Inv engine (run (step engine) (begin w) events) :=
  run_invariant (Inv engine) (fun _ e hc he => (step_stepped hc e he).inv)
    ⟨fun J hJ hmine => absurd hmine (hw J hJ), fun _ => hw, rfl, fun hs => by simp [begin] at hs⟩
      hguard

theorem run_data (hw : Clear engine w) {events : List Event}
    (hguard : Along (step engine) (Foreign engine) (begin w) events)
    (hdata : (run (step engine) (begin w) events).dataStarted = true) : Event.ready ∈ events := by
  induction events using List.reverseRecOn with
  | nil => cases hdata
  | append_singleton rest e ih =>
    obtain ⟨hrest, he⟩ := (along_append _ _ _).mp hguard
    rw [run_append] at hdata
    rcases (step_stepped (run_inv hw hrest) e he.1).data hdata with hbefore | rfl
    · exact List.mem_append_left _ (ih hrest hbefore)
    · simp

/-- An engine stops cleanly. Over every run in which nobody else creates a journal of
this engine: no journal of the engine exists in the stopping phase, the done channel
is closed at most once and only then, and the next step moves the phase forward and
makes the engine ready only by an activation after its data path was announced. -/
theorem run_stops_clean (engine : ControlRecord) (w : World) (hw : Clear engine w)
    (events : List Event) (hguard : Along (step engine) (Foreign engine) (begin w) events) :
    ((run (step engine) (begin w) events).phase = .stopping →
      ∀ J, (run (step engine) (begin w) events).world.journal = some J →
        J.leaseOwner.engine ≠ engine.identity) ∧
    (run (step engine) (begin w) events).closed ≤ 1 ∧
    ((run (step engine) (begin w) events).closed = 1 →
      (run (step engine) (begin w) events).phase = .stopping) ∧
    ∀ event, Foreign engine (run (step engine) (begin w) events) event →
      Moves (run (step engine) (begin w) events).phase
        (run (step engine) (begin w) (events ++ [event])).phase ∧
      ((run (step engine) (begin w) events).phase ≠ .ready →
        (run (step engine) (begin w) (events ++ [event])).phase = .ready →
          Activation engine (run (step engine) (begin w) events) event ∧ Event.ready ∈ events) := by
  have hinv := run_inv hw hguard
  refine ⟨fun hphase => hinv.idle (by rw [hphase]; decide), ?_, fun hclosed => ?_,
    fun event he => ?_⟩
  · rw [hinv.once]
    split <;> omega
  · refine hinv.stopping (.inl ?_)
    by_contra hopen
    rw [hinv.once, if_neg hopen] at hclosed
    cases hclosed
  · have hstep := step_stepped hinv event he
    rw [run_append]
    refine ⟨hstep.moves, fun hne hr => ?_⟩
    have hactivation := hstep.activation hne hr
    exact ⟨hactivation, run_data hw hguard hactivation.dataStarted⟩

def sampleNonce : String := "0123456789abcdef0123456789abcdef0123456789abcdef0123456789abcdef"

def sampleEngine : ControlRecord :=
  ⟨⟨"00112233445566778899aabbccddeeff", "/home", sampleNonce, 1, 7⟩, some ⟨"127.0.0.1", 1080, true⟩,
    100, some ⟨true, 0, 30⟩, "/home"⟩

/-- Collaborators that all answer. -/
def sampleAnswers : Answers :=
  ⟨true, some ⟨"user", "/home", true⟩, fun _ => some ⟨"user", "/home", true⟩, true,
    true, .invokes 1, true, some (Vector.replicate 16 7), []⟩

/-- The engine is activated and acquires a lease. -/
def sampleLease : List Event :=
  [.ready, .control ⟨.activate, sampleNonce, sampleEngine.identity, true⟩ 10 20 sampleAnswers,
    .runtimeAction ⟨1, sampleNonce, sampleEngine.identity,
    ⟨.acquire, "user", ""⟩, 15000000000, true⟩
      30 31 sampleAnswers]

/-- It is stopped by a signal. -/
def sampleStop : List Event := [.signal sampleAnswers, .close]

def sampleRun (events : List Event) : Control :=
  run (step sampleEngine) (begin ⟨none, fun _ => none⟩) events

/-- A run that passes through all phases: the ready engine holds a lease, which its stop
releases. -/
theorem run_stops_clean_sample :
    ((sampleRun sampleLease).phase = .ready ∧
        ((sampleRun sampleLease).world.journal.map fun J => J.leaseOwner.engine) =
          some sampleEngine.identity) ∧
      ((sampleRun (sampleLease ++ sampleStop)).phase = .stopping ∧
      (sampleRun (sampleLease ++ sampleStop)).closed = 1) ∧
      ∀ J, (sampleRun (sampleLease ++ sampleStop)).world.journal = some J →
        J.leaseOwner.engine ≠ sampleEngine.identity := by
  have hstop : sampleRun (sampleLease ++ sampleStop) = run (step sampleEngine)
    (sampleRun sampleLease) sampleStop :=
    run_append ..
  -- One evaluation: the text of the journal is what takes long.
  have hruns : ((sampleRun sampleLease).phase = .ready ∧
        ((sampleRun sampleLease).world.journal.map fun J => J.leaseOwner.engine) =
          some sampleEngine.identity) ∧
      (run (step sampleEngine) (sampleRun sampleLease) sampleStop).phase = .stopping ∧
      (run (step sampleEngine) (sampleRun sampleLease) sampleStop).closed = 1 := by
    decide +kernel
  rw [← hstop, sampleRun, sampleRun] at hruns
  have hclean := run_stops_clean sampleEngine ⟨none, fun _ => none⟩ nofun
    (sampleLease ++ sampleStop) ⟨trivial, trivial, trivial, trivial, trivial, trivial⟩
  rw [sampleRun, sampleRun]
  exact ⟨hruns.1, hruns.2, hclean.1 hruns.2.1⟩

end

end DaxiangVpn.EngineControlSafety
