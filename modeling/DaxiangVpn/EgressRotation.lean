import DaxiangVpn.TransitionRun

/-!
# Rotations of the radio

A rotation takes the radio of an egress down for some seconds. `RotateEgress` reads the clock,
enters a lock in a table, triggers the device and settles its lock, and any number of calls may be
between these steps. One trigger runs at a time, and a trigger that may have run holds back the next
one.

The clock is read before the mutex of the table is taken, so a lock ends at a time that is counted
from this reading, not from the start of the trigger.
-/

namespace DaxiangVpn.EgressRotation

open TransitionRun Function

/-! ## The lock table -/

def second : ℤ := 1000000000

structure RotateLock where
  startedAt : ℤ
  lockUntil : ℤ
  inflight : Bool
  unknown : Bool
  deriving DecidableEq

/-- How long a lock of `tryBeginRotate` lasts. -/
def hold (extra downSeconds : ℤ) : ℤ :=
  let whole := max downSeconds 1 * second + max extra 0
  if whole ≤ 0 then second else whole

/-- Rounded seconds until the lock ends, at least one. -/
def retryAfter (lock : RotateLock) (now : ℤ) : ℤ :=
  max 1 ((lock.lockUntil - now + second / 2) / second)

def RotateLock.blocks (now : ℤ) (lock : RotateLock) : Bool :=
  lock.unknown || lock.inflight || decide (now < lock.lockUntil)

/-- `tryBeginRotate` on the entry of the only egress that can be rotated: the lock that it enters,
or the lock that is in the way. -/
def tryBeginRotate (extra : ℤ) (entry : Option RotateLock) (downSeconds now : ℤ) :
    Except RotateLock RotateLock :=
  match entry.filter (RotateLock.blocks now) with
  | some current => .error current
  | none => .ok ⟨now, now + hold extra downSeconds, true, false⟩

/-- `finishRotate` and `releaseRotate` tell a lock by its two instants. -/
def RotateLock.same (current lock : RotateLock) : Bool :=
  current.startedAt = lock.startedAt && current.lockUntil = lock.lockUntil

def finishRotate (entry : Option RotateLock) (lock : RotateLock)
    (unknown : Bool) : Option RotateLock :=
  entry.map fun current =>
    if current.same lock then { current with inflight := false, unknown := unknown } else current

def releaseRotate (entry : Option RotateLock) (lock : RotateLock) : Option RotateLock :=
  entry.filter fun current => !current.same lock

/-! ## Calls -/

/-- How a trigger ends. -/
inductive Outcome where
  | beforeStart
  | failed
  /-- It succeeded after the deadline of the call. -/
  | cancelled
  | succeeded
  deriving DecidableEq

/-- The radio may be in any state. -/
def Outcome.unknown : Outcome → Bool
  | .failed | .cancelled => true
  | _ => false

/-- What a call answers without a trigger. -/
inductive Answer where
  | cancelled
  | invalidDownSeconds (downSeconds : ℤ)
  | unsupportedEgress (egress : String) (downSeconds : ℤ)
  | busy (downSeconds retryAfterSeconds lockUntil : ℤ)
  deriving DecidableEq

/-- The lock that a call entered. -/
structure Claim where
  downSeconds : ℤ
  lock : RotateLock
  deriving DecidableEq

/-- Where a call with a lock is. -/
inductive Stage where
  | locked
  | triggering
  | returned (o : Outcome)
  deriving DecidableEq

inductive Phase where
  | idle
  | ready (downSeconds now : ℤ)
  | holding (c : Claim) (stage : Stage)
  /-- The lock is settled. The answer says how the trigger ended. -/
  | ended (c : Claim) (o : Outcome)
  | answered (a : Answer)
  deriving DecidableEq

/-- The checks of `RotateEgress` and its reading of the clock. -/
def rotateEgress (cancelled : Bool) (egress : String) (downSeconds now : ℤ) : Phase :=
  let downSeconds := if downSeconds = 0 then 8 else downSeconds
  if cancelled then .answered .cancelled
  else if downSeconds < 1 ∨ 60 < downSeconds then .answered (.invalidDownSeconds downSeconds)
  else if egress ≠ "jp-android-01" then .answered (.unsupportedEgress egress downSeconds)
  else .ready downSeconds now

structure System where
  clock : ℤ
  /-- The configured `rotateLockExtra`. -/
  extra : ℤ
  entry : Option RotateLock
  calls : ℕ → Phase
  /-- Triggers in the order of their starts, with the call and the time. -/
  starts : List (ℕ × ℤ)

def initial (clock extra : ℤ) : System := ⟨clock, extra, none, fun _ => .idle, []⟩

inductive Event where
  | tick (now : ℤ)
  | call (i : ℕ) (cancelled : Bool) (egress : String) (downSeconds : ℤ)
  | lock (i : ℕ)
  | start (i : ℕ)
  | return (i : ℕ) (o : Outcome)
  | settle (i : ℕ)

/-- The call is at another place. -/
def System.at (s : System) (i : ℕ) (p : Phase) : System := { s with calls := update s.calls i p }

/-- The end of `RotateEgress` for an outcome of the trigger. -/
def settled (entry : Option RotateLock) (lock : RotateLock) : Outcome → Option RotateLock
  | .beforeStart => releaseRotate entry lock
  | o => finishRotate entry lock o.unknown

def step (s : System) : Event → System
  | .tick now => { s with clock := max s.clock now }
  | .call i cancelled egress downSeconds =>
    match s.calls i with
    | .idle => s.at i (rotateEgress cancelled egress downSeconds s.clock)
    | _ => s
  | .lock i =>
    match s.calls i with
    | .ready downSeconds now =>
      match tryBeginRotate s.extra s.entry downSeconds now with
      | .ok lock => { s.at i (.holding ⟨downSeconds, lock⟩ .locked) with entry := some lock }
      | .error current => s.at i
          (.answered (.busy downSeconds (retryAfter current now) current.lockUntil))
    | _ => s
  | .start i =>
    match s.calls i with
    | .holding c .locked => { s.at i (.holding c .triggering) with starts := s.starts ++
        [(i, s.clock)] }
    | _ => s
  | .return i o =>
    match s.calls i with
    | .holding c .triggering => s.at i (.holding c (.returned o))
    | _ => s
  | .settle i =>
    match s.calls i with
    | .holding c (.returned o) => { s.at i (.ended c o) with entry := settled s.entry c.lock o }
    | _ => s

/-! ## The invariant -/

/-- The lock lasts from the reading of the clock for the down time and the extra time. -/
def Claim.Timed (extra : ℤ) (c : Claim) : Prop :=
  c.lock.lockUntil = c.lock.startedAt + c.downSeconds * second + max extra 0

/-- A trigger that may have run is over, or its settled lock is in the table. -/
def Kept (s : System) (c : Claim) (o : Outcome) : Prop :=
  (o.unknown = false ∧ c.lock.lockUntil ≤ s.clock) ∨
    ∃ l, s.entry = some l ∧ l.inflight = false ∧ l.unknown = o.unknown ∧
    l.lockUntil = c.lock.lockUntil

/-- What is known where a call is. -/
def Fits (s : System) : Phase → Prop
  | .idle | .answered _ => True
  | .ready downSeconds now => 1 ≤ downSeconds ∧ now ≤ s.clock
  | .holding c _ => c.Timed s.extra ∧ s.entry = some c.lock ∧ c.lock.inflight = true
  | .ended c o => c.Timed s.extra ∧ (o = .beforeStart ∨ Kept s c o)

def Phase.Started : Phase → Prop
  | .holding _ stage => stage ≠ .locked
  | .ended _ _ => True
  | _ => False

/-- The first trigger is settled and over before the second one starts. -/
def Before (s : System) (e f : ℕ × ℤ) : Prop :=
  ∃ c o, s.calls e.1 = .ended c o ∧ c.Timed s.extra ∧ o.unknown = false ∧
    (o ≠ .beforeStart → c.lock.lockUntil ≤ f.2)

structure Inv (s : System) : Prop where
  fits : ∀ i, Fits s (s.calls i)
  one : ∀ i j c c' g g', s.calls i = .holding c g → s.calls j = .holding c' g' → i = j
  started : ∀ e ∈ s.starts, (s.calls e.1).Started
  apart : s.starts.Pairwise (Before s)

variable {s : System} {i : ℕ} {c : Claim} {g : Stage} {p : Phase}

theorem Inv.holding (h : Inv s) (hi : s.calls i = .holding c g) :
    c.Timed s.extra ∧ s.entry = some c.lock ∧ c.lock.inflight = true := by
  have hfits := h.fits i
  rw [hi] at hfits
  exact hfits

variable {s' : System}

/-- One call goes on. Its phase was not the last one, and it alone may hold the lock afterwards. -/
theorem Inv.move (h : Inv s) (hcalls : s'.calls = update s.calls i p)
    (hstarts : s'.starts = s.starts) (hextra : s'.extra = s.extra)
    (hlive : ∀ c o, s.calls i ≠ .ended c o) (hstarted : (s.calls i).Started → p.Started)
    (hothers : ∀ j ≠ i, Fits s' (s.calls j)) (hp : Fits s' p)
    (hone : (∃ c g, p = .holding c g) → ∀ j ≠ i, ∀ c g, s.calls j ≠ .holding c g) : Inv s' := by
  have hself : s'.calls i = p := by rw [hcalls, update_self]
  have hother : ∀ j ≠ i, s'.calls j = s.calls j := fun j hj => by rw [hcalls, update_of_ne hj]
  refine ⟨fun j => ?_, fun j k c₁ c₂ g₁ g₂ hj hk => ?_, fun e he => ?_, ?_⟩
  · by_cases hj : j = i
    · rw [hj, hself]
      exact hp
    · rw [hother j hj]
      exact hothers j hj
  · by_cases hji : j = i <;> by_cases hki : k = i
    · exact hji.trans hki.symm
    · rw [hji, hself] at hj
      rw [hother k hki] at hk
      exact absurd hk (hone ⟨_, _, hj⟩ k hki _ _)
    · rw [hki, hself] at hk
      rw [hother j hji] at hj
      exact absurd hj (hone ⟨_, _, hk⟩ j hji _ _)
    · rw [hother j hji] at hj
      rw [hother k hki] at hk
      exact h.one j k _ _ _ _ hj hk
  · rw [hstarts] at he
    by_cases hj : e.1 = i
    · have hold := h.started e he
      rw [hj] at hold ⊢
      rw [hself]
      exact hstarted hold
    · rw [hother _ hj]
      exact h.started e he
  · rw [hstarts]
    refine h.apart.imp fun {e f} hbefore => ?_
    obtain ⟨c, o, hended, htimed, hrest⟩ := hbefore
    refine ⟨c, o, ?_, hextra ▸ htimed, hrest⟩
    rw [hother _ fun heq => hlive c o (heq ▸ hended), hended]

theorem Fits.mono (h : Fits s p) (hextra : s'.extra = s.extra) (hentry : s'.entry = s.entry)
    (hclock : s.clock ≤ s'.clock) : Fits s' p := by
  cases p with
  | idle => trivial
  | answered => trivial
  | ready => exact ⟨h.1, h.2.trans hclock⟩
  | holding => exact ⟨hextra ▸ h.1, hentry ▸ h.2.1, h.2.2⟩
  | ended =>
    refine ⟨hextra ▸ h.1, h.2.imp_right fun hkept => ?_⟩
    rcases hkept with ⟨hknown, hover⟩ | hlock
    · exact .inl ⟨hknown, hover.trans hclock⟩
    · exact .inr (hentry ▸ hlock)

theorem Fits.replace (h : Fits s p) (hextra : s'.extra = s.extra) (hclock : s'.clock = s.clock)
    (hover : ∀ l, s.entry = some l → l.inflight = false → l.unknown = false ∧ l.lockUntil ≤ s.clock)
    (hp : ∀ c g, p ≠ .holding c g) : Fits s' p := by
  cases p with
  | idle => trivial
  | answered => trivial
  | ready => exact ⟨h.1, hclock ▸ h.2⟩
  | holding c g => exact absurd rfl (hp c g)
  | ended =>
    refine ⟨hextra ▸ h.1, h.2.imp_right fun hkept => .inl ?_⟩
    rw [hclock]
    rcases hkept with hkept | ⟨l, hentry, hinflight, hunknown, huntil⟩
    · exact hkept
    · rw [← hunknown, ← huntil]
      exact hover l hentry hinflight

theorem free_entry {now : ℤ} (hfree : s.entry.filter (RotateLock.blocks now) = none) :
    ∀ l, s.entry = some l → l.inflight = false ∧ l.unknown = false ∧ l.lockUntil ≤ now := by
  intro l hl
  have hblocks := Option.filter_eq_none_iff.mp hfree l hl
  simpa [RotateLock.blocks, and_comm, and_assoc] using hblocks

theorem Inv.lock (h : Inv s) {d now : ℤ} (hi : s.calls i = .ready d now) :
    Inv (step s (.lock i)) := by
  have hready : 1 ≤ d ∧ now ≤ s.clock := by
    have hfits := h.fits i
    rwa [hi] at hfits
  have hlive : ∀ c o, s.calls i ≠ .ended c o := by simp [hi]
  have hunstarted : ∀ q : Phase, (s.calls i).Started → q.Started := by simp [hi, Phase.Started]
  cases hfree : s.entry.filter (RotateLock.blocks now) with
  | some current =>
    have hstep : step s (.lock i) =
        s.at i (.answered (.busy d (retryAfter current now) current.lockUntil)) := by
      simp [step, hi, tryBeginRotate, hfree]
    rw [hstep]
    exact h.move rfl rfl rfl hlive (hunstarted _) (fun j _ => (h.fits j).mono rfl rfl le_rfl)
      trivial (by simp)
  | none =>
    have hstep : step s (.lock i) =
      { s.at i (.holding ⟨d, now, now + hold s.extra d, true, false⟩ .locked) with
        entry := some ⟨now, now + hold s.extra d, true, false⟩ } := by
      simp [step, hi, tryBeginRotate, hfree]
    have hnone : ∀ j c g, s.calls j ≠ .holding c g := by
      intro j c g hj
      obtain ⟨-, hentry, hinflight⟩ := h.holding hj
      rw [(free_entry hfree _ hentry).1] at hinflight
      cases hinflight
    have htimed : now + hold s.extra d = now + d * second + max s.extra 0 := by
      have hpos : 0 < d * second := Int.mul_pos (by omega) (by decide)
      rw [hold, max_eq_left hready.1, if_neg (by omega), add_assoc]
    rw [hstep]
    refine h.move rfl rfl rfl hlive (hunstarted _) (fun j _ => ?_)
      ⟨htimed, rfl, rfl⟩ fun _ j _ => hnone j
    refine (h.fits j).replace rfl rfl (fun l hl _ => ?_) (hnone j)
    exact ⟨(free_entry hfree l hl).2.1, (free_entry hfree l hl).2.2.trans hready.2⟩

theorem settled_holding (c : Claim) (o : Outcome) (ho : o ≠ .beforeStart) :
    settled (some c.lock) c.lock o =
      some { c.lock with inflight := false, unknown := o.unknown } := by
  cases o <;> simp_all [settled, finishRotate, RotateLock.same]

theorem settled_beforeStart (c : Claim) : settled (some c.lock) c.lock .beforeStart = none := by
  simp [settled, releaseRotate, RotateLock.same]

theorem Inv.settle (h : Inv s) {o : Outcome} (hi : s.calls i = .holding c (.returned o)) :
    Inv (step s (.settle i)) := by
  obtain ⟨htimed, hentry, hinflight⟩ := h.holding hi
  have hstep : step s (.settle i) =
    { s.at i (.ended c o) with entry := settled s.entry c.lock o } := by
    simp [step, hi]
  have hother : ∀ j ≠ i, ∀ c g, s.calls j ≠ .holding c g := fun j hj c' g hheld =>
    hj (h.one j i _ _ _ _ hheld hi)
  rw [hstep]
  refine h.move rfl rfl rfl (by simp [hi]) (fun _ => trivial) (fun j hj => ?_)
    ⟨htimed, ?_⟩ (by simp)
  · refine (h.fits j).replace rfl rfl (fun l hl hsettled => ?_) (hother j hj)
    rw [hentry] at hl
    cases hl
    cases hinflight.symm.trans hsettled
  by_cases ho : o = .beforeStart
  · exact .inl ho
  · right
    right
    exact ⟨{ c.lock with inflight := false, unknown := o.unknown },
      hentry ▸ settled_holding c o ho, rfl, rfl, rfl⟩

theorem Inv.stage (h : Inv s) (hi : s.calls i = .holding c g) {g' : Stage}
    (hg : g ≠ .locked → g' ≠ .locked) :
    Inv (s.at i (.holding c g')) := by
  refine h.move rfl rfl rfl (by simp [hi]) (by simpa [hi, Phase.Started] using hg)
    (fun j _ => (h.fits j).mono rfl rfl le_rfl) (h.holding hi) fun _ j hj c' g hheld => ?_
  exact hj (h.one j i _ _ _ _ hheld hi)

/-- When a trigger starts, all triggers before it are settled and over. -/
theorem Inv.before (h : Inv s) (hi : s.calls i = .holding c .locked) :
    ∀ e ∈ s.starts, Before s e (i, s.clock) := by
  intro e he
  have hstarted := h.started e he
  have hfits := h.fits e.1
  obtain ⟨-, hentry, hinflight⟩ := h.holding hi
  cases hcall : s.calls e.1 with
  | ended c' o =>
    rw [hcall] at hfits
    refine ⟨c', o, hcall, hfits.1, ?_⟩
    rcases hfits.2 with rfl | ⟨hknown, hover⟩ | ⟨l, hl, hsettled, -⟩
    · exact ⟨rfl, fun hne => absurd rfl hne⟩
    · exact ⟨hknown, fun _ => hover⟩
    · cases hentry.symm.trans hl
      cases hinflight.symm.trans hsettled
  | holding =>
    rw [h.one _ _ _ _ _ _ hcall hi, hi] at hstarted
    exact absurd rfl hstarted
  | idle | ready | answered =>
    rw [hcall] at hstarted
    cases hstarted

theorem Inv.start (h : Inv s) (hi : s.calls i = .holding c .locked) : Inv (step s (.start i)) := by
  have hstep : step s (.start i) =
      { s.at i (.holding c .triggering) with starts := s.starts ++ [(i, s.clock)] } := by
    simp [step, hi]
  have hmoved : Inv (s.at i (.holding c .triggering)) := h.stage hi (by simp)
  rw [hstep]
  refine ⟨fun j => (hmoved.fits j).mono rfl rfl le_rfl, hmoved.one, fun e he => ?_, ?_⟩
  · rcases List.mem_append.mp he with he | he
    · exact hmoved.started e he
    · rw [List.mem_singleton.mp he]
      simp [System.at, Phase.Started]
  refine List.pairwise_append.mpr ⟨hmoved.apart, List.pairwise_singleton _ _, fun e he f hf => ?_⟩
  rw [List.mem_singleton.mp hf]
  obtain ⟨c', o, hended, hrest⟩ := h.before hi e he
  refine ⟨c', o, ?_, hrest⟩
  have hne : e.1 ≠ i := fun heq => by
    rw [heq, hi] at hended
    cases hended
  rw [← hended]
  exact update_of_ne hne _ _

theorem rotateEgress_cases (cancelled : Bool) (egress : String) (down now : ℤ) :
    (∃ a, rotateEgress cancelled egress down now = .answered a) ∨
      ∃ d, 1 ≤ d ∧ rotateEgress cancelled egress down now = .ready d now := by
  unfold rotateEgress
  generalize (if down = 0 then 8 else down) = d
  dsimp only
  split_ifs with h₁ h₂ h₃
  · exact .inl ⟨_, rfl⟩
  · exact .inl ⟨_, rfl⟩
  · exact .inl ⟨_, rfl⟩
  · exact .inr ⟨d, by omega, rfl⟩

theorem step_inv (h : Inv s) (e : Event) : Inv (step s e) := by
  cases e with
  | tick =>
    exact ⟨fun i => (h.fits i).mono rfl rfl (le_max_left _ _), h.one, h.started, h.apart⟩
  | call i cancelled egress down =>
    dsimp only [step]
    split
    · rename_i hi
      refine h.move rfl rfl rfl (by simp [hi]) (by simp [hi, Phase.Started])
        (fun j _ => (h.fits j).mono rfl rfl le_rfl) ?_ ?_
      · rcases rotateEgress_cases cancelled egress down s.clock with ⟨a, ha⟩ | ⟨d, hd, hready⟩
        · rw [ha]
          trivial
        · rw [hready]
          exact ⟨hd, le_rfl⟩
      · rintro ⟨c, g, hp⟩
        rcases rotateEgress_cases cancelled egress down s.clock with ⟨a, ha⟩ | ⟨d, -, hready⟩
        · cases ha.symm.trans hp
        · cases hready.symm.trans hp
    · exact h
  | lock i =>
    cases hi : s.calls i with
    | ready => exact h.lock hi
    | idle | holding | ended | answered => simpa [step, hi] using h
  | start =>
    dsimp only [step]
    split
    · rename_i c hi
      simpa [step, hi] using h.start hi
    · exact h
  | «return» i o =>
    dsimp only [step]
    split
    · rename_i c hi
      exact h.stage hi (by simp)
    · exact h
  | settle =>
    dsimp only [step]
    split
    · rename_i c o hi
      simpa [step, hi] using h.settle hi
    · exact h

theorem initial_inv (clock extra : ℤ) : Inv (initial clock extra) :=
  ⟨fun _ => trivial, fun _ _ _ _ _ _ hi => (nomatch hi), fun _ he => absurd he List.not_mem_nil,
    List.Pairwise.nil⟩

/-! ## Every interleaving -/

/-- A call that comes to the table read the clock at a time or later. -/
def Reads (time : ℤ) (s : System) (e : Event) : Prop :=
  ∀ j d now, e = .lock j → s.calls j = .ready d now → time ≤ now

/-- The table is empty, and calls that read the clock at a time or later are answered as if it had
an old entry. -/
def Unheard (old : Option RotateLock) (time : ℤ) (s : System) : Prop :=
  s.entry = none ∧ ∀ later, Along step (Reads time) s later →
    run step { s with entry := old } later = run step s later ∨
      run step { s with entry := old } later = { run step s later with entry := old }

/-- Rotations from a reachable state. -/
structure Rotations (s : System) : Prop where
  /-- A call with a lock is alone, and the lock that it settles is its own. -/
  own : ∀ i c g, s.calls i = .holding c g →
    s.entry = some c.lock ∧ ∀ j c' g', s.calls j = .holding c' g' → j = i
  /-- When a trigger starts, the triggers before it are settled, none of them is of unknown outcome,
  and the time of those that may have run is over, counted from their readings of the clock. -/
  apart : s.starts.Pairwise fun e f => ∃ c o, s.calls e.1 = .ended c o ∧ o.unknown = false ∧
    (o ≠ .beforeStart → c.lock.startedAt + c.downSeconds * second + s.extra ≤ f.2)
  /-- A trigger that did not start leaves no lock. If all calls that come to the table afterwards
  read the clock no earlier, the run goes on as it would with the table from before the lock. -/
  unheard : ∀ i c es, (∀ g, s.calls i ≠ .holding c g) →
    (step s (.lock i)).calls i = .holding c .locked →
    (run step (step s (.lock i)) es).calls i = .holding c (.returned .beforeStart) →
    Unheard s.entry c.lock.startedAt (step (run step (step s (.lock i)) es) (.settle i))

theorem Inv.run (h : Inv s) (es : List Event) : Inv (run step s es) :=
  run_invariant Inv (fun _ e hs (_ : True) => step_inv hs e) h
    (along_of_forall (fun _ _ => trivial) _ es)

theorem lock_entered (hbefore : ∀ g, s.calls i ≠ .holding c g)
    (h : (step s (.lock i)).calls i = .holding c .locked) :
    s.entry.filter (RotateLock.blocks c.lock.startedAt) = none := by
  cases hi : s.calls i with
  | ready d now =>
    cases hfree : s.entry.filter (RotateLock.blocks now) with
    | some => simp [step, hi, tryBeginRotate, hfree, System.at] at h
    | none =>
      simp only [step, hi, tryBeginRotate, hfree, System.at, update_self, Phase.holding.injEq] at h
      rw [← h.1]
      exact hfree
  | holding c' g =>
    simp only [step, hi, Phase.holding.injEq] at h
    exact absurd (h.1 ▸ hi) (hbefore g)
  | idle | ended | answered => simp [step, hi] at h

/-- An old entry that blocks nobody makes no difference until the next lock, which replaces it. -/
theorem Inv.step_unheard (h : Inv s) {old : Option RotateLock} {time : ℤ} (hnone : s.entry = none)
    (hold : old.filter (RotateLock.blocks time) = none) (e : Event) (he : Reads time s e) :
    step { s with entry := old } e = step s e ∨
      (step s e).entry = none ∧ step { s with entry := old } e =
        { step s e with entry := old } := by
  cases e with
  | tick => exact .inr ⟨hnone, rfl⟩
  | call i =>
    right
    cases hi : s.calls i <;> simp [step, hi, hnone, System.at]
  | lock i =>
    cases hi : s.calls i with
    | ready d now =>
      left
      have hfree : old.filter (RotateLock.blocks now) = none := by
        refine Option.filter_eq_none_iff.mpr fun l hl => ?_
        have hopen := Option.filter_eq_none_iff.mp hold l hl
        simp only [RotateLock.blocks, Bool.or_eq_true, not_or, decide_eq_true_eq] at hopen ⊢
        exact ⟨hopen.1, fun hlt => hopen.2 ((he i d now rfl hi).trans_lt hlt)⟩
      simp [step, hi, tryBeginRotate, hfree, hnone, System.at]
    | idle | holding | ended | answered => exact .inr (by simp [step, hi, hnone])
  | start i =>
    right
    cases hi : s.calls i with
    | holding c g => cases g <;> simp [step, hi, hnone, System.at]
    | idle | ready | ended | answered => simp [step, hi, hnone]
  | «return» i o =>
    right
    cases hi : s.calls i with
    | holding c g => cases g <;> simp [step, hi, hnone, System.at]
    | idle | ready | ended | answered => simp [step, hi, hnone]
  | settle i =>
    right
    cases hi : s.calls i with
    | holding =>
      -- No call holds the lock while the table is empty.
      cases hnone.symm.trans (h.holding hi).2.1
    | idle | ready | ended | answered => simp [step, hi, hnone]

theorem Inv.unheard (h : Inv s) {old : Option RotateLock} {time : ℤ} (hnone : s.entry = none)
    (hold : old.filter (RotateLock.blocks time) = none) : Unheard old time s := by
  refine ⟨hnone, fun later hreads => ?_⟩
  induction later generalizing s with
  | nil => exact .inr rfl
  | cons e rest ih =>
    rw [run_cons, run_cons]
    rcases h.step_unheard hnone hold e hreads.1 with hsame | ⟨hstill, hsame⟩
    · rw [hsame]
      exact .inl rfl
    · rw [hsame]
      exact ih (step_inv h e) hstill hreads.2

/-- Rotations exclude each other in every interleaving of calls. -/
theorem run_rotations (clock extra : ℤ) (es : List Event) :
    Rotations (run step (initial clock extra) es) := by
  have h : Inv (run step (initial clock extra) es) := (initial_inv clock extra).run es
  generalize run step (initial clock extra) es = s at h
  refine ⟨fun i c g hi => ?_, ?_, fun i c es hbefore hlock hreturned => ?_⟩
  · exact ⟨(h.holding hi).2.1, fun j c' g' hj => h.one j i _ _ _ _ hj hi⟩
  · refine h.apart.imp fun {e f} hbefore => ?_
    obtain ⟨c, o, hended, htimed, hknown, hover⟩ := hbefore
    refine ⟨c, o, hended, hknown, fun ho => ?_⟩
    have huntil := hover ho
    rw [htimed] at huntil
    omega
  · have hrun : Inv (run step (step s (.lock i)) es) := (step_inv h (.lock i)).run es
    have hentry := (hrun.holding hreturned).2.1
    refine (step_inv hrun (.settle i)).unheard ?_ (lock_entered hbefore hlock)
    generalize run step (step s (.lock i)) es = u at hreturned hentry ⊢
    simp [step, hreturned, hentry, settled_beforeStart]

/-- A call that is held up between its reading of the clock and the table. -/
def sampleLate : List Event :=
  [.call 0 false "jp-android-01" 8, .tick (20 * second), .lock 0, .start 0,
    .return 0 .succeeded, .settle 0, .call 1 false "jp-android-01" 8, .lock 1, .start 1]

/-- A call that is overtaken, with what happens before it looks at the table, and one after it. -/
def sampleOvertaken (between : List Event) : List Event :=
  [.call 0 false "jp-android-01" 8, .lock 0, .start 0, .return 0 .succeeded, .settle 0,
    .tick (5 * second), .call 1 false "jp-android-01" 8, .tick (10 * second)] ++ between ++
  [.lock 1, .call 3 false "jp-android-01" 8, .lock 3]

/-- A trigger that does not start. -/
def sampleRejected : List Event :=
  [.call 2 false "jp-android-01" 8, .lock 2, .start 2, .return 2 .beforeStart, .settle 2]

/-- A trigger started eight seconds too early after the trigger of a late call. A trigger that did
not start lets an overtaken call in that would be turned away, and this one turns a later call
away. -/
theorem run_late :
    (run step (initial 0 0) sampleLate).starts = [(0, 20 * second), (1, 20 * second)] ∧
      (run step (initial 0 0) sampleLate).calls 0 =
        .ended ⟨8, 0, 8 * second, true, false⟩ .succeeded ∧
      ¬ 20 * second + 8 * second + 0 ≤ 20 * second ∧
      (run step (initial 0 0) (sampleOvertaken [])).calls 1 = .answered (.busy 8 3 (8 * second)) ∧
      (run step (initial 0 0) (sampleOvertaken [])).calls 3 =
        .holding ⟨8, 10 * second, 18 * second, true, false⟩ .locked ∧
      (run step (initial 0 0) (sampleOvertaken sampleRejected)).calls 1 =
        .holding ⟨8, 5 * second, 13 * second, true, false⟩ .locked ∧
      (run step (initial 0 0) (sampleOvertaken sampleRejected)).calls 3 =
        .answered (.busy 8 3 (13 * second)) := by
  decide +kernel

end DaxiangVpn.EgressRotation
