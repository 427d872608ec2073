import DaxiangVpn.EngineControlSafety

/-!
# Runtime actions of an engine are taken at most once

The nonce table forgets an action at its deadline, and from that instant on the
deadline refuses it. So the table and the clock together remember every action that
has reached the hook, in every run of the controller.
-/

namespace DaxiangVpn.EngineActions

open TransitionRun EngineControl List
open EngineControlSafety (sampleEngine sampleAnswers)
open SystemProxyLease (World)

/-! ## Actions that reach the hook -/

/-- What is left of the nonce table when its expired entries are deleted. -/
def unexpired (c : Control) (now : ℤ) : List (String × ℤ) :=
  c.actionNonces.filter fun n => decide (now < n.2)

/-- An action in its locked section, with the two readings of the clock there. -/
structure Attempt where
  request : RuntimeActionRequest
  now : ℤ
  later : ℤ
  deriving DecidableEq

/-- What the nonce table keeps of an action. -/
def Attempt.entry (a : Attempt) : String × ℤ := (a.request.nonce, a.request.deadline)

/-- The checks of the locked section refuse the action. -/
def Refused (c : Control) (a : Attempt) (answers : Answers) : Prop :=
  a.request.deadline ≤ a.now ∨ a.later + 30 * second < a.request.deadline ∨
    a.request.nonce ∈ (unexpired c a.now).map Prod.fst ∨ 1024 ≤ (unexpired c a.now).length ∨
    answers.alive = false

/-- All checks of the handler pass, so the action reaches the hook. -/
def Passes (engine : ControlRecord) (c : Control) (a : Attempt) (answers : Answers) : Prop :=
  a.request.authorized engine = true ∧ ¬ Refused c a answers

instance (engine : ControlRecord) (c : Control) (a : Attempt) (answers : Answers) :
    Decidable (Passes engine c a answers) :=
  inferInstanceAs (Decidable (_ ∧ ¬ (_ ∨ _)))

/-- The action that reaches the hook in one step. -/
def taken (engine : ControlRecord) (c : Control) : Event → List Attempt
  | .runtimeAction request now later answers =>
    if c.running = true ∧ Passes engine c ⟨request, now, later⟩ answers then
      [⟨request, now, later⟩]
    else []
  | _ => []

/-- The actions that reach the hook in a run, in their order. -/
def reached (engine : ControlRecord) : Control → List Event → List Attempt
  | _, [] => []
  | c, event :: rest => taken engine c event ++ reached engine (step engine c event) rest

def readings : Event → List ℤ
  | .control _ now later _ => [now, later]
  | .runtimeAction _ now later _ => [now, later]
  | _ => []

/-- The clock never goes back. -/
def Forward : List Event → Prop
  | [] => True
  | event :: rest => (∀ t ∈ readings event, ∀ u ∈ rest.flatMap readings, t ≤ u) ∧ Forward rest

/-! ## One step -/

variable {engine : ControlRecord} {c : Control}

/-- What a runtime action can do: run the hook and remember its nonce, or leave everything but
expired nonces as it was. -/
theorem handleRuntimeAction_cases (engine : ControlRecord) (c : Control) (a : Attempt)
    (answers : Answers) :
    (Passes engine c a answers ∧ ∃ running claim world,
      c.handleRuntimeAction engine a.request a.now a.later answers = { c with
          actionNonces := a.entry :: unexpired c a.now
          running := running
          claim := claim
          world := world }) ∨
    ¬ Passes engine c a answers ∧
    (c.handleRuntimeAction engine a.request a.now a.later answers = c ∨
        c.handleRuntimeAction engine a.request a.now a.later answers =
          { c with actionNonces := unexpired c a.now }) := by
  by_cases hauthorized : a.request.authorized engine = true
  · have hfree : ¬ a.request.authorized engine = false := by simp [hauthorized]
    by_cases hrefused : Refused c a answers
    · exact .inr ⟨fun hpass => hpass.2 hrefused, .inr ((if_neg hfree).trans (if_pos hrefused))⟩
    · exact .inl ⟨⟨hauthorized, hrefused⟩, _, _, _, (if_neg hfree).trans (if_neg hrefused)⟩
  · exact .inr ⟨fun hpass => hauthorized hpass.1, .inl (if_pos (by simpa using hauthorized))⟩

theorem requestStop_nonces (answers : Answers) :
    (c.requestStop engine answers).1.actionNonces = c.actionNonces := by
  unfold Control.requestStop
  split
  · rfl
  · dsimp only
    split <;> rfl

theorem stopOnce_nonces : c.stopOnce.actionNonces = c.actionNonces := by
  unfold Control.stopOnce
  split <;> rfl

theorem handle_nonces (request : ControlRequest) (now later : ℤ) (answers : Answers) :
    (c.handle engine request now later answers).actionNonces = c.actionNonces := by
  have hactivate : (c.activate engine now later).actionNonces = c.actionNonces := by
    unfold Control.activate
    dsimp only
    split <;> split <;> first | rfl | exact stopOnce_nonces
  unfold Control.handle
  split
  · rfl
  split
  · dsimp only
    split <;> exact requestStop_nonces answers
  · exact hactivate
  · rfl
  · rfl

/-- What a step does to the nonce table. -/
structure Remembers (engine : ControlRecord) (c : Control) (event : Event) : Prop where
  /-- An entry stays, or its deadline has come. -/
  entries : ∀ p ∈ c.actionNonces,
    p ∈ (step engine c event).actionNonces ∨ ∃ t ∈ readings event, p.2 ≤ t
  bounded : c.actionNonces.length ≤ 1024 → (step engine c event).actionNonces.length ≤ 1024
  /-- An action that reaches the hook is entered. -/
  taken : taken engine c event = [] ∨ ∃ a answers, taken engine c event = [a] ∧
    event = .runtimeAction a.request a.now a.later answers ∧ Passes engine c a answers ∧
    a.entry ∈ (step engine c event).actionNonces

theorem Remembers.same {event : Event} (h : (step engine c event).actionNonces = c.actionNonces)
    (htaken : EngineActions.taken engine c event = []) : Remembers engine c event :=
  ⟨fun _ hp => .inl (h ▸ hp), fun hbound => h ▸ hbound, .inl htaken⟩

theorem mem_unexpired {p : String × ℤ} {now : ℤ} (h : p ∈ c.actionNonces) (hlive : now < p.2) :
    p ∈ unexpired c now := mem_filter.mpr ⟨h, decide_eq_true hlive⟩

theorem runtimeAction_remembers (hrunning : c.running = true) (a : Attempt) (answers : Answers) :
    Remembers engine c (.runtimeAction a.request a.now a.later answers) := by
  have hstep : step engine c (.runtimeAction a.request a.now a.later answers) =
      c.handleRuntimeAction engine a.request a.now a.later
        answers := by simp [step, Control.whileRunning, hrunning]
  rcases handleRuntimeAction_cases engine c a
    answers with ⟨hpass, running, claim, world, heq⟩ | ⟨hpass, heq | heq⟩
  all_goals rw [← hstep] at heq
  · constructor
    · intro p hp
      by_cases hlive : a.now < p.2
      · exact .inl (by rw [heq]; exact mem_cons_of_mem _ (mem_unexpired hp hlive))
      · exact .inr ⟨a.now, mem_cons_self, not_lt.mp hlive⟩
    · intro _
      rw [heq]
      exact not_le.mp fun hfull => hpass.2 (.inr (.inr (.inr (.inl hfull))))
    · exact .inr ⟨a, answers, if_pos ⟨hrunning, hpass⟩, rfl,
        hpass, by rw [heq]; exact mem_cons_self⟩
  · exact .same (by rw [heq]) (if_neg fun h => hpass h.2)
  · constructor
    · intro p hp
      by_cases hlive : a.now < p.2
      · exact .inl (by rw [heq]; exact mem_unexpired hp hlive)
      · exact .inr ⟨a.now, mem_cons_self, not_lt.mp hlive⟩
    · intro hbound
      rw [heq]
      exact (length_filter_le _ _).trans hbound
    · exact .inl (if_neg fun h => hpass h.2)

theorem step_remembers (engine : ControlRecord) (c : Control) (event : Event) : Remembers engine c event := by
  by_cases hrunning : c.running = true
  · have hgone : ¬ c.running = false := by simp [hrunning]
    cases event with
    | ready => exact .same (by simp [step, Control.whileRunning, hrunning, Control.ready]) rfl
    | signal => exact .same (by simp [step, Control.whileRunning, hrunning, requestStop_nonces]) rfl
    | expire =>
      refine .same ?_ rfl
      simp only [step, Control.whileRunning, if_neg hgone, Control.expireLease]
      split <;> rfl
    | control => exact .same (by simp [step, Control.whileRunning, hrunning, handle_nonces]) rfl
    | runtimeAction request now later answers =>
      exact runtimeAction_remembers hrunning ⟨request, now, later⟩ answers
    | close =>
      refine .same ?_ rfl
      simp only [step, Control.whileRunning, if_neg hgone]
      split
      · exact stopOnce_nonces
      · rfl
    | outside => exact .same rfl rfl
  · have hgone : c.running = false := by simpa using hrunning
    cases event with
    | runtimeAction =>
      exact .same (by simp [step, Control.whileRunning, hgone]) (if_neg fun h => hrunning h.1)
    | outside => exact .same rfl rfl
    | ready | signal | expire | control | close => exact .same (by simp [step, Control.whileRunning, hgone]) rfl

/-! ## Runs -/

variable {events : List Event}

theorem reached_remembered {p : String × ℤ} (hclock : Forward events)
    (h : p ∈ c.actionNonces ∨ ∀ t ∈ events.flatMap readings, p.2 ≤ t) :
    p ∉ (reached engine c events).map Attempt.entry := by
  induction events generalizing c with
  | nil => exact not_mem_nil
  | cons event rest ih =>
    have hstep := step_remembers engine c event
    -- the entry is remembered after the step as well
    have hafter : p ∈ (step engine c event).actionNonces ∨
      ∀ t ∈ rest.flatMap readings, p.2 ≤ t := by
      rcases h with h | h
      · rcases hstep.entries p h with hkept | ⟨t, ht, hexpired⟩
        · exact .inl hkept
        · exact .inr fun u hu => hexpired.trans (hclock.1 t ht u hu)
      · exact .inr fun t ht => h t (flatMap_cons ▸ mem_append_right _ ht)
    have hhead : p ∉ (taken engine c event).map Attempt.entry := by
      rcases hstep.taken with hnone | ⟨a, answers, hone, rfl, hpass, -⟩
      · simp [hnone]
      rw [hone, map_singleton, mem_singleton]
      rintro rfl
      have hdeadline : a.now < a.request.deadline := not_le.mp fun hlate => hpass.2 (.inl hlate)
      rcases h with h | h
      · exact hpass.2 (.inr (.inr (.inl (mem_map_of_mem (mem_unexpired h hdeadline)))))
      · exact absurd hdeadline (not_lt.mpr (h a.now (by simp [readings])))
    rw [reached, map_append, mem_append]
    exact not_or.mpr ⟨hhead, ih hclock.2 hafter⟩

theorem reached_nodup (hclock : Forward events) :
    ((reached engine c events).map Attempt.entry).Nodup := by
  induction events generalizing c with
  | nil => exact nodup_nil
  | cons event rest ih =>
    rw [reached, map_append]
    rcases (step_remembers engine c event).taken with hnone | ⟨a, answers, hone, -, -, hentry⟩
    · rw [hnone]
      exact ih hclock.2
    · rw [hone, map_singleton, singleton_append]
      exact nodup_cons.mpr ⟨reached_remembered hclock.2 (.inl hentry), ih hclock.2⟩

/-- An action that reaches the hook is one of the run's and has passed its checks. -/
theorem reached_passes {a : Attempt} (h : a ∈ reached engine c events) :
    ∃ c' answers, .runtimeAction a.request a.now a.later answers ∈ events ∧
    Passes engine c' a answers := by
  induction events generalizing c with
  | nil => cases h
  | cons event rest ih =>
    rcases mem_append.mp h with h | h
    · rcases (step_remembers engine c event).taken with hnone | ⟨b, answers, hone, rfl, hpass, -⟩
      · rw [hnone] at h
        cases h
      · rw [hone, mem_singleton] at h
        subst h
        exact ⟨c, answers, mem_cons_self, hpass⟩
    · obtain ⟨c', answers, hmem, hpass⟩ := ih h
      exact ⟨c', answers, mem_cons_of_mem _ hmem, hpass⟩

/-- How the runtime actions of a run are taken. -/
structure TakenOnce (engine : ControlRecord) (signed : RuntimeActionRequest → Prop) (w : World)
    (events : List Event) : Prop where
  /-- No request reaches the hook twice, and no other one with its nonce and deadline. -/
  once : ((reached engine (begin w) events).map Attempt.entry).Nodup
  /-- What reaches the hook is what the client has signed. -/
  signed : ∀ a ∈ reached engine (begin w) events, signed a.request
  /-- It reaches it before its deadline, and at most thirty seconds before it. -/
  timely : ∀ a ∈ reached engine (begin w) events,
    a.now < a.request.deadline ∧ a.request.deadline ≤ a.later + 30 * second
  /-- The nonce table has at most 1024 entries. -/
  bounded : ∀ c ∈ visited (step engine) (begin w) events, c.actionNonces.length ≤ 1024
  /-- A request that does not reach the hook changes nothing but the table, and leaves its
  unexpired entries there. -/
  refused : ∀ (c : Control) (a : Attempt) (answers : Answers), ¬ Passes engine c a answers →
      ∃ nonces, c.handleRuntimeAction engine a.request a.now a.later answers =
          { c with actionNonces := nonces } ∧
        ∀ p ∈ c.actionNonces, a.now < p.2 → p ∈ nonces

/-- Runtime actions are taken at most once, in time, in every run whose clock never goes back. -/
theorem run_takenOnce (engine : ControlRecord) (signed : RuntimeActionRequest → Prop) (w : World)
    (events : List Event) (hclock : Forward events)
    (hmac : ∀ request now later answers, .runtimeAction request now later answers ∈ events →
      request.authentic = true → signed request) :
    TakenOnce engine signed w events where
  once := reached_nodup hclock
  signed := by
    intro a ha
    obtain ⟨c, answers, hmem, hpass⟩ := reached_passes ha
    have hauthorized := hpass.1
    simp only [RuntimeActionRequest.authorized, Bool.and_eq_true] at hauthorized
    exact hmac a.request a.now a.later answers hmem hauthorized.2
  timely := by
    intro a ha
    obtain ⟨c, answers, -, hpass⟩ := reached_passes ha
    exact ⟨not_le.mp fun hlate => hpass.2 (.inl hlate), not_lt.mp fun hfar => hpass.2
      (.inr (.inl hfar))⟩
  bounded := visited_invariant (fun c : Control => c.actionNonces.length ≤ 1024)
    (fun c event h (_ : True) => (step_remembers engine c event).bounded h) (by simp [begin])
      (along_of_forall (fun _ _ => trivial) _ _)
  refused := by
    intro c a answers hpass
    rcases handleRuntimeAction_cases engine c a answers with ⟨hyes, -⟩ | ⟨-, heq | heq⟩
    · exact absurd hyes hpass
    · exact ⟨c.actionNonces, heq, fun p hp _ => hp⟩
    · exact ⟨unexpired c a.now, heq, fun _ => mem_unexpired⟩

/-- A client's request to release the lease. -/
def sampleRequest : RuntimeActionRequest :=
  ⟨1, "0123456789abcdef0123456789abcdef0123456789abcdef0123456789abcdef", sampleEngine.identity,
    ⟨.release, "user", ""⟩, 15000000000, true⟩

/-- The request is sent, replayed in time, and replayed when its nonce is forgotten. -/
def sampleReplays : List Event :=
  [.runtimeAction sampleRequest 10 11 sampleAnswers,
    .runtimeAction sampleRequest 20 21 sampleAnswers,
    .runtimeAction sampleRequest 15000000000 15000000001 sampleAnswers]

/-- Of three copies of a request only the first reaches the hook. -/
theorem run_takenOnce_replayed :
    reached sampleEngine (begin ⟨none, fun _ => none⟩) sampleReplays = [⟨sampleRequest, 10, 11⟩] ∧
      TakenOnce sampleEngine (· = sampleRequest) ⟨none, fun _ => none⟩ sampleReplays := by
  refine ⟨by decide +kernel, run_takenOnce _ _ _ _ ?_ ?_⟩
  · simp [sampleReplays, Forward, readings]
  · intro request now later answers hmem _
    simp only [sampleReplays, mem_cons, Event.runtimeAction.injEq, not_mem_nil, or_false] at hmem
    rcases hmem with h | h | h <;> exact h.1

end DaxiangVpn.EngineActions
