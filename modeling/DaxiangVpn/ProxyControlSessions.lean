import DaxiangVpn.ProxyControl
import DaxiangVpn.ProxyGateFences

/-!
# Leases of control sessions

The gate has an owner only while a session is served, and its lease is the last
one that session has granted since it took the gate. A grant needs the
acknowledgement of a closed gate since then.
-/

namespace DaxiangVpn.ProxyControlSessions

open ProxyGate hiding step Event
open ProxyGateRuns ProxyGateFences ControlFrames ProxyControl NetipPrefix TransitionRun

/-! ## What a session has seen -/

/-- Commands that passed the checks, the last first. -/
def receivedOf : List Mark → List Message
  | [] => []
  | .received m :: h => m :: receivedOf h
  | _ :: h => receivedOf h

/-- A closed gate was acknowledged since the session took it. -/
def acked : List Mark → Bool
  | [] => false
  | .activated :: _ => false
  | .acknowledged m :: h => decide (m.action = .closed) || acked h
  | _ :: h => acked h

/-- The last lease since the session took the gate, and when it was granted. -/
def lease : List Mark → Option (Message × ℤ)
  | [] => none
  | .activated :: _ => none
  | .granted m now :: _ => some (m, now)
  | _ :: h => lease h

/-- Every grant is a received command and comes after the acknowledgement of a closed gate. -/
def Ordered : List Mark → Prop
  | [] => True
  | .granted m _ :: h => (acked h = true ∧ m.action = .grant ∧ m ∈ receivedOf h) ∧ Ordered h
  | _ :: h => Ordered h

/-- Sequence numbers are consecutive from one. -/
def Numbered : List Message → Prop
  | [] => True
  | m :: rest => m.sequence = rest.length + 1 ∧ Numbered rest

/-- An acknowledgement of a closed gate since the session took it. -/
theorem acked_split {h : List Mark} (ha : acked h = true) : ∃ later c earlier,
    h = later ++ .acknowledged c :: earlier ∧ c.action = .closed ∧ ∀ x ∈ later, x ≠ .activated := by
  induction h with
  | nil => cases ha
  | cons x h ih =>
    cases x with
    | activated => cases ha
    | acknowledged m =>
      by_cases hm : m.action = .closed
      · exact ⟨[], m, h, rfl, hm, fun x hx => absurd hx List.not_mem_nil⟩
      · simp only [acked, hm, decide_false, Bool.false_or] at ha
        obtain ⟨later, c, earlier, rfl, hc, hlater⟩ := ih ha
        exact ⟨_ :: later, c, earlier, rfl, hc, List.forall_mem_cons.mpr ⟨Mark.noConfusion, hlater⟩⟩
    | received | granted =>
      obtain ⟨later, c, earlier, rfl, hc, hlater⟩ := ih ha
      exact ⟨_ :: later, c, earlier, rfl, hc, List.forall_mem_cons.mpr ⟨Mark.noConfusion, hlater⟩⟩

/-- The lease of a session and what came before it. -/
structure Leased (h : List Mark) (m : Message) (now : ℤ) : Prop where
  /-- The grant is the last since the session took the gate, and an acknowledged closed gate
  came before it since then. -/
  split : ∃ later mid c earlier, h = later ++ .granted m now ::
    (mid ++ .acknowledged c :: earlier) ∧
    c.action = .closed ∧ (∀ x ∈ later, x ≠ .activated ∧ ∀ m' t, x ≠ .granted m' t) ∧
    ∀ x ∈ mid, x ≠ .activated
  command : m.action = .grant ∧ m ∈ receivedOf h

theorem Leased.cons {h : List Mark} {m : Message} {now : ℤ} {x : Mark} (hl : Leased h m now)
    (hown : x ≠ .activated) (hgrant : ∀ m' t, x ≠ .granted m' t) (hm : m ∈ receivedOf (x :: h)) :
    Leased (x :: h) m now := by
  obtain ⟨later, mid, c, earlier, rfl, hc, hlater, hmid⟩ := hl.split
  exact ⟨⟨x :: later, mid, c, earlier, rfl, hc, List.forall_mem_cons.mpr ⟨⟨hown, hgrant⟩, hlater⟩,
    hmid⟩, hl.command.1, hm⟩

/-- The last lease comes after an acknowledged closed gate. -/
theorem leased_of_lease {h : List Mark} {m : Message} {now : ℤ} (hl : lease h = some (m, now))
    (ho : Ordered h) : Leased h m now := by
  induction h with
  | nil => cases hl
  | cons x h ih =>
    cases x with
    | activated => cases hl
    | granted =>
      cases hl
      obtain ⟨⟨hacked, hcommand⟩, -⟩ := ho
      obtain ⟨mid, c, earlier, rfl, hc, hmid⟩ := acked_split hacked
      exact ⟨⟨[], mid, c, earlier, rfl, hc, fun x hx => absurd hx List.not_mem_nil, hmid⟩, hcommand⟩
    | received =>
      have hleased := ih hl ho
      exact hleased.cons Mark.noConfusion (fun _ _ => Mark.noConfusion)
        (List.mem_cons_of_mem _ hleased.command.2)
    | acknowledged =>
      have hleased := ih hl ho
      exact hleased.cons Mark.noConfusion (fun _ _ => Mark.noConfusion) hleased.command.2

/-! ## Owner and lease of the gate -/

/-- The lease stays, or it ends together with the ownership. -/
def KeepsLease (g g' : Gate) : Prop :=
  g'.owner = g.owner ∧ g'.expires = g.expires ∨ g'.owner = "" ∧ g'.expires = none

theorem KeepsLease.refl {g g' : Gate} (howner : g'.owner = g.owner)
    (hexpires : g'.expires = g.expires) :
    KeepsLease g g' := .inl ⟨howner, hexpires⟩

theorem beginInvalidate_lease (g : Gate) (owner : String) :
    KeepsLease g (g.beginInvalidate owner) := by
  unfold Gate.beginInvalidate
  split
  · exact .refl rfl rfl
  · split <;> exact .inr ⟨rfl, rfl⟩

theorem beginInvalidate_owner {g : Gate} {owner : String} (h : g.owner = owner) :
    (g.beginInvalidate owner).owner = "" ∧ (g.beginInvalidate owner).expires = none := by
  unfold Gate.beginInvalidate
  rw [if_neg (fun hne => hne.2 h)]
  split <;> exact ⟨rfl, rfl⟩

theorem beginInvalidate_other {g : Gate} {owner : String} (hne : owner ≠ "") (h : g.owner ≠ owner) :
    g.beginInvalidate owner = g := by
  unfold Gate.beginInvalidate
  rw [if_pos ⟨hne, h⟩]

theorem step_lease (s : System) {e : ProxyGate.Event} (he : ∀ owner, e ≠ .own owner)
    (he' : ∀ owner u a, e ≠ .grant owner u a) : KeepsLease s.gate (ProxyGate.step s e).gate := by
  cases step_head s e with
  | same head => exact .refl head.owner head.expires
  | reject owner heq =>
    rw [heq]
    exact beginInvalidate_lease s.gate owner
  | lease command =>
    rcases command with ⟨owner, rfl⟩ | ⟨owner, u, a, rfl⟩
    · exact absurd rfl (he owner)
    · exact absurd rfl (he' owner u a)
  | cleanup owner expires => exact .refl owner expires

/-! ## Steps of a session -/

/-- Phases that a session goes on to without a trace. -/
inductive Onward (now : ℤ) : Phase → Phase → Prop
  | stay (p : Phase) : Onward now p p
  | leave (p : Phase) : Onward now p .leaving
  | waiting (m : Message) (task : ℕ) : Onward now (.awaiting m) (.waiting m task)
  | closed (m : Message) : Onward now (.awaiting m) (.owning m)
  | waited (m : Message) (task : ℕ) : Onward now (.waiting m task) (.owning m)
  | asked (m : Message) : Onward now (.asking m) (.granting m now)

/-- What a session writes, and its history when all of it is written. -/
inductive Writes (s : Session) : Message → List Mark → Prop
  | hello (phase : s.phase = .greeting) : Writes s s.base s.history
  | ack (m : Message) (phase : s.phase = .acking m) :
      Writes s { m with action := .ack } (.acknowledged m :: s.history)

/-- What a step of a session does. -/
inductive Served (s : System) (l : Link) : System → Link → Prop
  | moved (p : Phase) (onward : Onward s.now l.session.phase p) : Served s l s (l.goto p)
  | closed (p : Phase) (phase : (∃ m, l.session.phase = .closing m ∧ p = .awaiting m) ∨
        l.session.phase = .leaving ∧ p = .ended) :
      Served s l (ProxyGate.step s (.closeFor l.session.session)) (l.goto p)
  | cut (m : Message) (n : ℕ) :
      Served s l s ({ l with output := l.output ++ (frame m).take n }.goto .leaving)
  | said {m : Message} {history : List Mark} (writes : Writes l.session m history) :
      Served s l s { l with
        output := l.output ++ frame m
        session := { l.session with phase := .reading, history := history } }
  | rejected {m : Message} {rest : List Char} (read : readMessage l.input = .message m rest) :
      Served s l s ({ l with input := rest }.goto .leaving)
  | received {m : Message} {rest : List Char} (phase : l.session.phase = .reading)
      (read : readMessage l.input = .message m rest)
      (accepted : l.session.rejects s.now m = false) :
      Served s l s { l with
        input := rest
        session := { l.session with
          phase := l.session.dispatch m, history := .received m :: l.session.history } }
  | owned (m : Message) (phase : l.session.phase = .owning m)
      (ok : (s.gate.own l.session.session).2 = .ok ()) :
      Served s l (ProxyGate.step s (.own l.session.session)) (l.withSession (l.session.reactivated m
        (ProxyGate.step s (.own l.session.session)).gate s.now))
  | granted (m : Message) (asked : ℤ) (phase : l.session.phase = .granting m asked)
      (ok : (s.gate.grant l.session.session m.untilUnixNano asked).2 = .ok ()) :
      Served s l (ProxyGate.step s (.grant l.session.session m.untilUnixNano asked))
        (l.withSession (l.session.leased m
          (ProxyGate.step s (.grant l.session.session m.untilUnixNano asked)).gate s.now))

theorem Onward.live {now : ℤ} {p q : Phase} (h : Onward now p q) (hp : p ≠ .ended) :
    q ≠ .ended := by
  cases h with
  | stay => exact hp
  | leave | waiting | closed | waited | asked => exact Phase.noConfusion

theorem dispatch_live (s : Session) (m : Message) : s.dispatch m ≠ .ended := by
  unfold Session.dispatch
  split
  · split <;> exact Phase.noConfusion
  · split <;> exact Phase.noConfusion
  · exact Phase.noConfusion

theorem Writes.lease {s : Session} {m : Message} {history : List Mark} (h : Writes s m history) :
    ProxyControlSessions.lease history = ProxyControlSessions.lease s.history := by
  cases h <;> rfl

section

variable {s : System} {l : Link}

theorem say_served {m : Message} {history : List Mark}
    (h : Writes l.session m history) (fails : Bool) (written : ℕ) :
    Served s l s (l.say m fails written history) := by
  unfold Link.say
  split
  · exact .moved .leaving (.leave _)
  · split
    · exact .cut m written
    · exact .said h

theorem read_served (hp : l.session.phase = .reading) (fails : Bool) :
    Served s l s (l.read s.now fails) := by
  unfold Link.read
  split
  · exact .moved .leaving (.leave _)
  split
  · exact .moved l.session.phase (.stay _)
  · exact .moved .leaving (.leave _)
  · rename_i hread
    split_ifs with haccept
    · exact .rejected hread
    · exact .received hp hread (Bool.eq_false_of_not_eq_true haccept)

theorem serve_served (s : System) (l : Link) (fails : Bool) (written : ℕ) :
    Served s l (serve s l fails written).1 (serve s l fails written).2 := by
  have hstay : Served s l s l := .moved l.session.phase (.stay _)
  unfold serve
  cases hp : l.session.phase with
  | greeting =>
    dsimp only
    exact say_served (.hello hp) fails written
  | reading => exact read_served hp fails
  | closing m => exact .closed (.awaiting m) (.inl ⟨m, hp, rfl⟩)
  | awaiting m =>
    dsimp only
    split
    · exact .moved .leaving (.leave _)
    · exact .moved (.owning m) (hp ▸ .closed m)
    · exact .moved (.waiting m _) (hp ▸ .waiting m _)
  | waiting m task =>
    dsimp only
    split
    · exact .moved .leaving (.leave _)
    · split
      · exact hstay
      · split
        · exact .moved .leaving (.leave _)
        · exact .moved (.owning m) (hp ▸ .waited m task)
  | owning m =>
    dsimp only
    split
    · exact .moved .leaving (.leave _)
    · rename_i hok
      exact .owned m hp hok
  | asking m => exact .moved (.granting m s.now) (hp ▸ .asked m)
  | granting m asked =>
    dsimp only
    split
    · exact .moved .leaving (.leave _)
    · rename_i hok
      exact .granted m asked hp hok
  | acking m =>
    dsimp only
    exact say_served (.ack m hp) fails written
  | leaving => exact .closed .ended (.inr ⟨hp, rfl⟩)
  | ended => exact hstay

end

/-! ## Invariants of a session -/

/-- The command that a session works on is the last it has received. -/
def WorksOn (s : Session) (m : Message) : Prop :=
  ∃ rest, receivedOf s.history = m :: rest ∧ s.base.sequence = rest.length

def PhaseOk (now : ℤ) (s : Session) : Prop :=
  match s.phase with
  | .greeting => s.base.sequence = (receivedOf s.history).length ∧ s.closedACK = false
  | .reading => s.base.sequence = (receivedOf s.history).length ∧
    (s.closedACK = true → acked s.history = true)
  | .closing m => m.action = .closed ∧ WorksOn s m
  | .awaiting m => m.action = .closed ∧ WorksOn s m
  | .waiting m _ => m.action = .closed ∧ WorksOn s m
  | .owning m => m.action = .closed ∧ WorksOn s m
  | .asking m => m.action = .grant ∧ WorksOn s m ∧ acked s.history = true
  | .granting m asked => m.action = .grant ∧ WorksOn s m ∧ acked s.history = true ∧ asked ≤ now
  | .acking m => s.base = m ∧ m.sequence = (receivedOf s.history).length ∧
    (m.action = .closed ∨ acked s.history = true)
  | .leaving => True
  | .ended => True

structure SessionOk (binding : String) (now : ℤ) (s : Session) : Prop where
  named : s.session ≠ ""
  base : s.base.binding = binding ∧ s.base.session = s.session ∧ s.base.nonce = s.nonce
  received : ∀ m ∈ receivedOf s.history, validMessage m = true ∧ m.binding = binding ∧
    m.session = s.session ∧ m.nonce = s.nonce
  numbered : Numbered (receivedOf s.history)
  phase : PhaseOk now s
  ordered : Ordered s.history
  bounded : ∀ m t, lease s.history = some (m, t) → m.untilUnixNano ≤ t + maxLease

section

variable {binding : String} {now : ℤ} {l l' : Link} {s s' : System}

section

variable (h : SessionOk binding now l.session)
include h

theorem SessionOk.goto {p : Phase}
    (hp : PhaseOk now { l.session with phase := p }) : SessionOk binding now (l.goto p).session :=
  ⟨h.named, h.base, h.received, h.numbered, hp, h.ordered, h.bounded⟩

theorem SessionOk.later {now' : ℤ} (hle : now ≤ now') : SessionOk binding now' l.session := by
  refine ⟨h.named, h.base, h.received, h.numbered, ?_, h.ordered, h.bounded⟩
  have hphase := h.phase
  unfold PhaseOk at hphase ⊢
  cases hp : l.session.phase with
  | granting =>
    rw [hp] at hphase
    exact ⟨hphase.1, hphase.2.1, hphase.2.2.1, hphase.2.2.2.trans hle⟩
  | _ =>
    rw [hp] at hphase
    exact hphase

theorem SessionOk.moved {p : Phase}
    (honward : Onward now l.session.phase p) : SessionOk binding now (l.goto p).session := by
  have hphase := h.phase
  unfold PhaseOk at hphase
  refine h.goto ?_
  generalize l.session.phase = q at honward hphase
  cases honward with
  | leave => trivial
  | asked => exact ⟨hphase.1, hphase.2.1, hphase.2.2, le_rfl⟩
  | stay | waiting | closed | waited => exact hphase

theorem SessionOk.said {m : Message} {history : List Mark} (hw : Writes l.session m history) :
    SessionOk binding now { l.session with phase := .reading, history := history } := by
  have hphase := h.phase
  unfold PhaseOk at hphase
  cases hw with
  | hello phase =>
    rw [phase] at hphase
    refine ⟨h.named, h.base, h.received, h.numbered,
      ⟨hphase.1, fun hack => ?_⟩, h.ordered, h.bounded⟩
    cases hphase.2.symm.trans hack
  | ack m phase =>
    rw [phase] at hphase
    obtain ⟨hbase, hsequence, hack⟩ := hphase
    refine ⟨h.named, h.base, h.received, h.numbered, ⟨?_, fun _ => ?_⟩, h.ordered, h.bounded⟩
    · change l.session.base.sequence = (receivedOf l.session.history).length
      rw [hbase]
      exact hsequence
    · change (decide (m.action = .closed) || acked l.session.history) = true
      rcases hack with hclosed | hacked
      · rw [hclosed]
        rfl
      · rw [hacked, Bool.or_true]

theorem SessionOk.taken {m : Message} {rest : List Char}
    (phase : l.session.phase = .reading) (hread : readMessage l.input = .message m rest)
    (haccept : l.session.rejects now m = false) : SessionOk binding now { l.session with
      phase := l.session.dispatch m, history := .received m :: l.session.history } := by
  have hreading := h.phase
  unfold PhaseOk at hreading
  rw [phase] at hreading
  simp only [Session.rejects, Bool.or_eq_false_iff, decide_eq_false_iff_not, not_not] at haccept
  obtain ⟨⟨⟨⟨⟨-, hbinding⟩, hsession⟩, hnonce⟩, hsequence⟩, -⟩ := haccept
  have hworks : WorksOn { l.session with history := .received m :: l.session.history } m :=
    ⟨_, rfl, hreading.1⟩
  refine ⟨h.named, h.base, List.forall_mem_cons.mpr ⟨?_, h.received⟩, ⟨?_, h.numbered⟩, ?_,
    h.ordered, h.bounded⟩
  · exact ⟨(readMessage_message hread).1, hbinding.trans h.base.1, hsession.trans h.base.2.1,
      hnonce.trans h.base.2.2⟩
  · rw [hsequence, hreading.1]
  unfold PhaseOk Session.dispatch
  cases haction : m.action with
  | closed =>
    by_cases hzero : m.untilUnixNano = 0
    · simp only [hzero, ne_eq, not_true_eq_false, if_false]
      exact ⟨haction, hworks⟩
    · simp only [hzero, ne_eq, not_false_eq_true, if_true]
  | grant =>
    by_cases hbad : l.session.closedACK = false ∨ m.untilUnixNano ≤ 0
    · simp only [hbad, if_true]
    · simp only [hbad, if_false]
      rw [not_or, Bool.not_eq_false] at hbad
      exact ⟨haction, hworks, hreading.2 hbad.1⟩
  | hello => trivial
  | ack => trivial

theorem SessionOk.executed {m : Message} (hworks : WorksOn l.session m) :
    (m.binding = binding ∧ m.session = l.session.session ∧ m.nonce = l.session.nonce) ∧
    m.sequence = (receivedOf l.session.history).length ∧ m ∈ receivedOf l.session.history := by
  obtain ⟨rest, hrest, -⟩ := hworks
  have hmem : m ∈ receivedOf l.session.history := by
    rw [hrest]
    exact List.mem_cons_self
  have hids := (h.received m hmem).2
  have hnumbered := h.numbered
  rw [hrest] at hnumbered hmem ⊢
  exact ⟨hids, hnumbered.1, hmem⟩

end

/-- A lease that is granted ends soon after the clock was asked. -/
theorem grant_ok {g : Gate} {owner : String} {u asked : ℤ}
    (h : (g.grant owner u asked).2 = .ok ()) :
    u ≤ asked + maxLease ∧ g.owner = owner ∧ owner ≠ "" ∧
      (g.grant owner u asked).1 = { g with expires := some u } := by
  unfold Gate.grant at h ⊢
  split at h
  · cases h
  rename_i htime
  rw [if_neg htime]
  split at h
  · cases h
  · rename_i howner
    rw [if_neg howner]
    simp only [not_or, not_not, not_le, not_lt] at htime howner
    exact ⟨htime.2, howner.2.1, howner.2.2, rfl⟩

theorem own_ok {g : Gate} {owner : String} (h : (g.own owner).2 = .ok ()) :
    g.cleanup = none ∧ g.admissions = ∅ ∧
    (g.own owner).1 = { g with owner := owner, expires := none, epoch := g.epoch + 1 } := by
  unfold Gate.own at h ⊢
  split at h
  · cases h
  rename_i hempty
  rw [if_neg hempty]
  split at h
  · cases h
  · rename_i howner
    rw [if_neg howner]
    simp only [not_or, Option.not_isSome_iff_eq_none, not_not] at hempty
    exact ⟨hempty.1, hempty.2, rfl⟩

theorem Served.ok (hs : Served s l s' l') (h : SessionOk binding s.now l.session) :
    SessionOk binding s.now l'.session := by
  have hphase := h.phase
  unfold PhaseOk at hphase
  cases hs with
  | moved p onward => exact h.moved onward
  | closed p phase =>
    rcases phase with ⟨m, hp, rfl⟩ | ⟨-, rfl⟩
    · rw [hp] at hphase
      exact h.goto hphase
    · exact h.goto trivial
  | cut | rejected => exact h.goto trivial
  | said writes => exact h.said writes
  | received phase read accepted => exact h.taken phase read accepted
  | owned m phase =>
    rw [phase] at hphase
    obtain ⟨hids, hsequence, -⟩ := h.executed hphase.2
    exact ⟨h.named, hids, h.received, h.numbered, ⟨rfl, hsequence, .inl hphase.1⟩, h.ordered,
      nofun⟩
  | granted m asked phase ok =>
    rw [phase] at hphase
    obtain ⟨haction, hworks, hacked, hasked⟩ := hphase
    obtain ⟨hids, hsequence, hreceived⟩ := h.executed hworks
    have hbound := (grant_ok ok).1
    refine ⟨h.named, hids, h.received, h.numbered, ⟨rfl, hsequence, .inr hacked⟩,
      ⟨⟨hacked, haction, hreceived⟩, h.ordered⟩, fun m' t hl => ?_⟩
    cases hl
    omega

/-- The gate is closed, or the session that is served has it and its last lease. -/
def LeaseOk (g : Gate) (s : Session) : Prop :=
  g.owner = "" ∧ g.expires = none ∨
    g.owner = s.session ∧ s.phase ≠ .ended ∧
      g.expires = (lease s.history).map fun x => x.1.untilUnixNano

theorem LeaseOk.keep {g g' : Gate} {s s' : Session} (h : LeaseOk g s) (hg : KeepsLease g g')
    (hname : s'.session = s.session) (hphase : s.phase ≠ .ended → s'.phase ≠ .ended)
    (hlease : lease s'.history = lease s.history) : LeaseOk g' s' := by
  rcases hg with ⟨howner, hexpires⟩ | hnone
  · rcases h with ⟨hno, hnone⟩ | ⟨hs, hlive, hl⟩
    · exact .inl ⟨howner.trans hno, hexpires.trans hnone⟩
    · refine .inr ⟨(howner.trans hs).trans hname.symm, hphase hlive, ?_⟩
      rw [hexpires, hl, hlease]
  · exact .inl hnone

theorem own_leaseOk {session : String} (hok : (s.gate.own session).2 = .ok ()) {x : Session}
    (hname : x.session = session) (hlive : x.phase ≠ .ended) (hlease : lease x.history = none) :
    LeaseOk (ProxyGate.step s (.own session)).gate x := by
  have hgate : (ProxyGate.step s (.own session)).gate =
      { s.gate with owner := session, expires := none, epoch := s.gate.epoch + 1 } :=
        (own_ok hok).2.2
  rw [hgate]
  exact .inr ⟨hname.symm, hlive, by rw [hlease]; rfl⟩

theorem granted_gate {owner : String} {u asked : ℤ} (hok : (s.gate.grant owner u asked).2 = .ok ())
    (hasked : asked ≤ s.now) :
    (ProxyGate.step s (.grant owner u asked)).gate = { s.gate with expires := some u } := by
  simp only [ProxyGate.step, if_pos hasked]
  exact (grant_ok hok).2.2.2

theorem Served.leaseOk (hs : Served s l s' l') (h : SessionOk binding s.now l.session)
    (hl : LeaseOk s.gate l.session) : LeaseOk s'.gate l'.session := by
  have hphase := h.phase
  have hsame : KeepsLease s.gate s.gate := .refl rfl rfl
  unfold PhaseOk at hphase
  cases hs with
  | moved p onward => exact hl.keep hsame rfl onward.live rfl
  | closed p phase =>
    have hclose : (ProxyGate.step s (.closeFor l.session.session)).gate =
      s.gate.beginInvalidate l.session.session := rfl
    rw [hclose]
    rcases phase with ⟨m, -, rfl⟩ | ⟨-, rfl⟩
    · exact hl.keep (beginInvalidate_lease ..) rfl (fun _ => Phase.noConfusion) rfl
    · refine .inl ?_
      rcases hl with ⟨hno, hnone⟩ | ⟨hs, -⟩
      · rw [beginInvalidate_other h.named fun heq => h.named (heq.symm.trans hno)]
        exact ⟨hno, hnone⟩
      · exact beginInvalidate_owner hs
  | cut | rejected => exact hl.keep hsame rfl (fun _ => Phase.noConfusion) rfl
  | said writes => exact hl.keep hsame rfl (fun _ => Phase.noConfusion) writes.lease
  | received => exact hl.keep hsame rfl (fun _ => dispatch_live _ _) rfl
  | owned m phase ok => exact own_leaseOk ok rfl Phase.noConfusion rfl
  | granted m asked phase ok =>
    rw [phase] at hphase
    rw [granted_gate ok hphase.2.2.2]
    exact .inr ⟨(grant_ok ok).2.1, Phase.noConfusion, rfl⟩

theorem Served.system (hs : Served s l s' l') : s' = s ∨ ∃ e, s' = ProxyGate.step s e := by
  cases hs with
  | moved | cut | said | rejected | received => exact .inl rfl
  | closed | owned | granted => exact .inr ⟨_, rfl⟩

end

/-! ## Runs -/

def last (c : Control) : Link := c.links (c.count - 1)

/-- What holds of the receiver. -/
structure Sessions (c : Control) : Prop where
  sys : SysInv c.system
  /-- Without a connection the gate is closed. -/
  none : c.count = 0 → c.system.gate.owner = "" ∧ c.system.gate.expires = none
  session : 0 < c.count → SessionOk c.binding.text c.system.now (last c).session
  lease : 0 < c.count → LeaseOk c.system.gate (last c).session

section

variable {c : Control}

/-- What a controller does not touch of its connection. -/
structure SameServer (l l' : Link) : Prop where
  session : l'.session = l.session
  tampered : l'.tampered = l.tampered

/-- Steps of a controller leave the session alone and do not write for somebody else. -/
theorem client_same (l : Link) (now : ℤ) (k : Call) (fails : Bool) (written : ℕ) :
    SameServer l (l.connect fails) ∧ SameServer l (l.call now k fails written) ∧
    SameServer l (l.reply now fails) := by
  have hcommand : ∀ action u, SameServer l (l.command k action u fails written) := by
    intro action u
    unfold Link.command
    dsimp only
    split
    · exact ⟨rfl, rfl⟩
    · split
      · exact ⟨rfl, rfl⟩
      · split <;> exact ⟨rfl, rfl⟩
  refine ⟨?_, ?_, ?_⟩
  · unfold Link.connect
    split
    · split
      · exact ⟨rfl, rfl⟩
      · split
        · exact ⟨rfl, rfl⟩
        · exact ⟨rfl, rfl⟩
        · split <;> exact ⟨rfl, rfl⟩
    · exact ⟨rfl, rfl⟩
  · unfold Link.call
    split
    · split
      · exact hcommand .closed 0
      · split
        · exact ⟨rfl, rfl⟩
        · exact hcommand .grant _
    · exact ⟨rfl, rfl⟩
  · unfold Link.reply
    split
    · split
      · exact ⟨rfl, rfl⟩
      · split
        · exact ⟨rfl, rfl⟩
        · exact ⟨rfl, rfl⟩
        · split <;> exact ⟨rfl, rfl⟩
    · exact ⟨rfl, rfl⟩

theorem Sessions.setLink (h : Sessions c) {i : ℕ} {l : Link}
    (hl : l.session = (c.links i).session) :
    Sessions (c.setLink i l) := by
  have hlast : (last (c.setLink i l)).session = (last c).session := by
    unfold last Control.setLink
    dsimp only
    by_cases hi : c.count - 1 = i
    · rw [hi, Function.update_self]
      exact hl
    · rw [Function.update_of_ne hi]
  refine ⟨h.sys, h.none, fun hpos => ?_, fun hpos => ?_⟩
  · rw [hlast]
    exact h.session hpos
  · rw [hlast]
    exact h.lease hpos

theorem Sessions.free (h : Sessions c) (hfree : c.free = true) : c.system.gate.owner = "" := by
  unfold Control.free at hfree
  rw [Bool.or_eq_true, decide_eq_true_eq, decide_eq_true_eq] at hfree
  by_cases hcount : c.count = 0
  · exact (h.none hcount).1
  · have hended := hfree.resolve_left hcount
    rcases h.lease (Nat.pos_of_ne_zero hcount) with hno | ⟨-, hlive, -⟩
    · exact hno.1
    · exact absurd hended hlive

theorem validID_ne {s : String} (h : validID s = true) : s ≠ "" := by
  rintro rfl
  revert h
  decide

theorem step_sessions (h : Sessions c) (e : Event) : Sessions (step c e) := by
  cases e with
  | gate e =>
    simp only [step]
    split_ifs with he
    · have hkeeps : KeepsLease c.system.gate (ProxyGate.step c.system e).gate := by
        refine step_lease c.system ?_ ?_
        · rintro owner rfl
          cases he
        · rintro owner u a rfl
          cases he
      refine ⟨step_sysInv h.sys e, fun hcount => ?_, fun hpos => ?_, fun hpos => ?_⟩
      · rcases hkeeps with hsame | hnone
        · have hno := h.none hcount
          exact ⟨hsame.1.trans hno.1, hsame.2.trans hno.2⟩
        · exact hnone
      · exact (h.session hpos).later (step_now c.system e)
      · exact (h.lease hpos).keep hkeeps rfl id rfl
    · exact h
  | accept session nonce clientBinding =>
    simp only [step]
    split_ifs with haccept
    · rw [Bool.and_eq_true, Bool.and_eq_true] at haccept
      split
      · exact h
      rename_i hok
      have hlast : last { c with
          system := ProxyGate.step c.system (.own session)
          links := Function.update c.links c.count (.new c.binding.text session nonce clientBinding)
          count := c.count + 1 } = .new c.binding.text session nonce clientBinding := by
        unfold last
        rw [Nat.add_sub_cancel]
        exact Function.update_self ..
      refine ⟨step_sysInv h.sys (.own session), fun hcount => ?_, fun _ => ?_, fun _ => ?_⟩
      · cases hcount
      · rw [hlast]
        exact ⟨validID_ne haccept.1.2, ⟨rfl, rfl, rfl⟩, fun m hm => absurd hm List.not_mem_nil, trivial,
          ⟨rfl, rfl⟩, trivial, nofun⟩
      · rw [hlast]
        exact own_leaseOk hok rfl Phase.noConfusion rfl
    · exact h
  | serve fails written =>
    simp only [step]
    split_ifs with hcount
    · exact h
    have hpos := Nat.pos_of_ne_zero hcount
    have hlast : last { c.setLink (c.count - 1) (serve c.system (c.links (c.count - 1)) fails written).2
        with system := (serve c.system (c.links (c.count - 1)) fails written).1 } =
        (serve c.system (last c) fails written).2 := Function.update_self ..
    have hserved := serve_served c.system (last c) fails written
    have hsys : SysInv (serve c.system (last c) fails written).1 := by
      rcases hserved.system with heq | ⟨e, heq⟩
      · rw [heq]
        exact h.sys
      · rw [heq]
        exact step_sysInv h.sys e
    have hnow : c.system.now ≤ (serve c.system (last c) fails written).1.now := by
      rcases hserved.system with heq | ⟨e, heq⟩
      · rw [heq]
      · rw [heq]
        exact step_now c.system e
    refine ⟨hsys, fun hzero => absurd hzero hcount, fun _ => ?_, fun _ => ?_⟩
    · rw [hlast]
      exact (hserved.ok (h.session hpos)).later hnow
    · rw [hlast]
      exact hserved.leaseOk (h.session hpos) (h.lease hpos)
  | inject => exact h.setLink rfl
  | connect i fails => exact h.setLink (client_same _ 0 .closed fails 0).1.session
  | call i k fails written => exact h.setLink (client_same _ c.system.now k fails written).2.1.session
  | reply i fails => exact h.setLink (client_same _ c.system.now .closed fails 0).2.2.session
  | close => exact h.setLink rfl

theorem run_sessions (managed : List IpPrefix) (binding : Binding) (now : ℤ) (events : List Event) :
    Sessions (run step (.new managed binding now) events) := by
  refine run_invariant Sessions (fun c e h _ => step_sessions h e)
    ⟨new_sysInv managed now, fun _ => ⟨rfl, rfl⟩, fun hpos => ?_, fun hpos => ?_⟩
    (along_of_forall (fun _ _ => trivial) _ _)
  · cases hpos
  · cases hpos

end

end DaxiangVpn.ProxyControlSessions
