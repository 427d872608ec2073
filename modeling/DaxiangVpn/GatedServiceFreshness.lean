import DaxiangVpn.GatedService

/-!
# Freshness of admissions

The lease of the gate is a command that some controller of the service has sent. The
service sends a lease only from inside its transaction, so every lease goes back to checks
whose end was computed less than two seconds ago.
-/

namespace DaxiangVpn.GatedServiceFreshness
open List Function

open DeviceAuthTables (DB Store WriteOutcome write)
open DeviceAuthWorld (World)
open DeviceAuthConvergence (ConvergenceProof ProofEnv proveConvergence)
open ControlFrames ProxyControlSessions ProxyControlAcks GatedService TransitionRun
open ProxyControl (Link Session Mark Executed Control Call serve minLease)
open ProxyGate (System Gate)
open ProxyGateFences (step_now)

/-! ## Commands of one connection -/

/-- What the receiver reads was sent. -/
structure Fed (l : Link) : Prop where
  input : l.input = [] ∨ ∃ m ∈ l.client.sent, Plain m ∧ l.input <+: frame m
  received : ∀ m ∈ receivedOf l.session.history, m ∈ l.client.sent
  completed : ∀ y ∈ l.client.completed, y.message.sequence ≤ l.session.base.sequence

/-- What a step of the session has executed. -/
structure Advances (l l' : Link) : Prop where
  base : l.session.base.sequence ≤ l'.session.base.sequence
  /-- New commands are later than all before. -/
  fresh : ∀ e ∈ l'.session.log.drop l.session.log.length,
    l.session.base.sequence < e.message.sequence ∧ e.message.sequence ≤ l'.session.base.sequence
  /-- New grants are new commands. -/
  granted : ∀ m t, Mark.granted m t ∈ l'.session.history → Mark.granted m t ∈ l.session.history ∨
    ∃ e ∈ l'.session.log.drop l.session.log.length, e.message = m

section

variable {l l' : Link} {s s' : System} {binding : String}

theorem works_next (h : SessionOk binding s.now l.session) {m : Message}
    (hworks : WorksOn l.session m) :
    m.sequence = l.session.base.sequence + 1 := by
  obtain ⟨rest, hrest, hbase⟩ := hworks
  have hnumbered := h.numbered
  rw [hrest] at hnumbered
  rw [hbase]
  exact hnumbered.1

theorem Advances.idle (hbase : l'.session.base = l.session.base)
    (hlog : l'.session.log = l.session.log)
    (hgranted : ∀ m t, Mark.granted m t ∈ l'.session.history →
    Mark.granted m t ∈ l.session.history) :
    Advances l l' := by
  refine ⟨le_of_eq (by rw [hbase]), fun e he => ?_, fun m t hm => .inl (hgranted m t hm)⟩
  rw [hlog, drop_length] at he
  exact absurd he not_mem_nil

theorem Advances.one {e : Executed} (hlog : l'.session.log = l.session.log ++ [e])
    (hbase : l'.session.base = e.message)
    (hsequence : e.message.sequence = l.session.base.sequence + 1)
    (hgranted : ∀ m t, Mark.granted m t ∈ l'.session.history →
    Mark.granted m t ∈ l.session.history ∨
      m = e.message) : Advances l l' := by
  have hdrop : l'.session.log.drop l.session.log.length = [e] := by
    rw [hlog, drop_left]
  refine ⟨?_, fun e' he' => ?_, fun m t hm => ?_⟩
  · rw [hbase, hsequence]
    exact Nat.le_succ _
  · rw [hdrop] at he'
    cases mem_singleton.mp he'
    rw [hbase, hsequence]
    exact ⟨Nat.lt_succ_self _, le_rfl⟩
  · rcases hgranted m t hm with hold | hnew
    · exact .inl hold
    · rw [hdrop]
      exact .inr ⟨e, mem_singleton_self e, hnew.symm⟩

theorem Advances.served (hs : Served s l s' l') (h : SessionOk binding s.now l.session) :
    Advances l l' := by
  have hphase := h.phase
  unfold PhaseOk at hphase
  cases hs with
  | moved | closed | cut | rejected => exact .idle rfl rfl fun _ _ hm => hm
  | said writes =>
    refine .idle rfl rfl fun m t hm => ?_
    cases writes with
    | hello => exact hm
    | ack => simpa using hm
  | received => exact .idle rfl rfl fun m t hm => by simpa using hm
  | owned m phase =>
    rw [phase] at hphase
    exact .one rfl rfl (works_next h hphase.2) fun m' t hm =>
      .inl (mem_of_ne_of_mem Mark.noConfusion hm)
  | granted m asked phase =>
    rw [phase] at hphase
    refine .one rfl rfl (works_next h hphase.2.1) fun m' t hm => ?_
    rcases mem_cons.mp hm with heq | hm
    · cases heq
      exact .inr rfl
    · exact .inl hm

theorem Fed.read_message (h : Fed l) {m : Message} {rest : List Char}
    (hread : readMessage l.input = .message m rest) : m ∈ l.client.sent ∧ rest = [] := by
  rcases h.input with hempty | ⟨m', hsent, hplain, hpart⟩
  · rw [hempty, readMessage_nil] at hread
    cases hread
  have htake : l.input = (frame m').take l.input.length := prefix_iff_eq_take.mp hpart
  rcases take_frame hplain l.input.length with hall | hcut
  · rw [htake, hall] at hread
    obtain ⟨rfl, hrest⟩ := readMessage_frame hplain hread
    exact ⟨hsent, hrest⟩
  · rw [← htake] at hcut
    exact absurd hread (readMessage_incomplete hcut)

theorem Fed.served (h : Fed l) (hs : Served s l s' l')
    (hsession : SessionOk binding s.now l.session) : Fed l' := by
  have hbase := (Advances.served hs hsession).base
  cases hs with
  | moved | closed | cut => exact ⟨h.input, h.received, h.completed⟩
  | said writes => cases writes <;> exact ⟨h.input, h.received, h.completed⟩
  | rejected read => exact ⟨.inl (h.read_message read).2, h.received, h.completed⟩
  | received phase read =>
    obtain ⟨hsent, hrest⟩ := h.read_message read
    exact ⟨.inl hrest, forall_mem_cons.mpr ⟨hsent, h.received⟩, h.completed⟩
  | owned | granted => exact ⟨h.input, h.received, fun y hy => (h.completed y hy).trans hbase⟩

theorem Fed.connect (h : Fed l) (fails : Bool) : Fed (l.connect fails) := by
  unfold Link.connect
  split
  · split
    · exact ⟨h.input, h.received, h.completed⟩
    · split
      · exact h
      · exact ⟨h.input, h.received, h.completed⟩
      · split <;> exact ⟨h.input, h.received, h.completed⟩
  · exact h

theorem Fed.call (h : Fed l) (hok : LinkOk l) (now : ℤ) (k : Call) (fails : Bool) (written : ℕ) :
    Fed (l.call now k fails written) := by
  have hcalled := call_called l now k fails written
  generalize l.call now k fails written = l' at hcalled
  cases hcalled with
  | refused => exact ⟨h.input, h.received, h.completed⟩
  | ignored => exact h
  | cut idle =>
    obtain ⟨-, hin, -, -, hplain⟩ := hok.idle idle
    refine ⟨.inr ⟨_, mem_cons_self, hplain, ?_⟩,
      fun m hm => mem_cons_of_mem _ (h.received m hm), h.completed⟩
    rw [hin, nil_append]
    exact take_prefix _ _
  | asked idle =>
    obtain ⟨-, hin, -, -, hplain⟩ := hok.idle idle
    refine ⟨.inr ⟨_, mem_cons_self, hplain, ?_⟩,
      fun m hm => mem_cons_of_mem _ (h.received m hm), h.completed⟩
    rw [hin, nil_append]

theorem Fed.reply (h : Fed l) (hok : LinkOk l) (now : ℤ) (fails : Bool) :
    Fed (l.reply now fails) := by
  have hreplied := reply_replied hok now fails
  generalize l.reply now fails = l' at hreplied
  cases hreplied with
  | unknown => exact h
  | failed => exact ⟨h.input, h.received, h.completed⟩
  | done k m start e waits settled input base =>
    refine ⟨h.input, h.received, fun y hy => ?_⟩
    rcases mem_cons.mp hy with rfl | hy
    · exact le_of_eq (by rw [base])
    · exact h.completed y hy

end

/-! ## Offers and executions -/

def Proven (s : Store) (p : GatePolicy) (k : Checked) : Prop :=
  proveConvergence s k.env p.managedSources k.db = .ok k.proof

/-- A lease is short and ends with the first authorization. -/
def Bounded (k : Checked) (computedAt untilTime : ℤ) : Prop :=
  untilTime ≤ computedAt + leaseTime ∧ ∀ e ∈ k.proof.earliestValidUntil, untilTime ≤ e

/-- What holds of a lease that was asked for. -/
structure OfferOk (s : Store) (p : GatePolicy) (now : ℤ) (o : Offer) : Prop where
  proven : Proven s p o.checked
  bounded : Bounded o.checked o.computedAt o.message.untilUnixNano
  past : o.computedAt ≤ now

def Current (c : Gated) (k : Checked) : Prop := k.db = c.world.db ∧ k.commits = c.commits

def StageOk (s : Store) (p : GatePolicy) (c : Gated) : Stage → Prop
  | .checking => True
  | .proved k => Proven s p k ∧ Current c k
  | .chosen k computedAt untilTime =>
    Proven s p k ∧ Current c k ∧ Bounded k computedAt untilTime ∧ computedAt ≤ c.now
  | .ready k computedAt untilTime =>
    Proven s p k ∧ Current c k ∧ Bounded k computedAt untilTime ∧ computedAt ≤ c.now
  | .calling o => o ∈ c.offers ∧ OfferOk s p c.now o ∧ Current c o.checked
  | .granted _ => True

/-- The offer was executed before anything else was committed. -/
def Agrees (c : Gated) (o : Offer) : Prop :=
  ∀ x ∈ c.executions, x.link = o.link → x.message = o.message →
    x.commits = o.checked.commits ∧ x.db = o.checked.db

/-- A controller that waits for a lease waits inside the open transaction. -/
def Waits (c : Gated) (i : ℕ) (m : Message) : Prop :=
  ∃ t o, c.tx = some t ∧ t.stage = .calling o ∧ t.link = i ∧ o.link = i ∧ o.message = m ∧ Agrees c o

/-- A lease that was sent goes back to an offer. -/
def Backed (s : Store) (p : GatePolicy) (c : Gated) (i : ℕ) (m : Message) : Prop :=
  ∃ o ∈ c.offers, o.link = i ∧ o.message = m ∧ OfferOk s p c.now o ∧
    ((∃ y ∈ (c.control.links i).client.completed, y.message = m) → Agrees c o)

/-- What holds in every reachable state. -/
structure Inv (s : Store) (p : GatePolicy) (c : Gated) : Prop where
  sessions : Sessions c.control
  links : Links c.control
  clean : ∀ i, (c.control.links i).tampered = false
  fed : ∀ i, Fed (c.control.links i)
  placed : ∀ x ∈ c.executions, x.link < c.control.count ∧
    x.message.sequence ≤ (c.control.links x.link).session.base.sequence
  executed : ∀ i m t, Mark.granted m t ∈ (c.control.links i).session.history →
    ∃ x ∈ c.executions, x.link = i ∧ x.message = m
  stage : ∀ t, c.tx = some t → StageOk s p c t.stage
  waits : ∀ i u m start, (c.control.links i).client.phase = .waiting
    (.grantUntil u) m start → Waits c i m
  backed : ∀ i, ∀ m ∈ (c.control.links i).client.sent, m.action = .grant → Backed s p c i m

section

variable {s : Store} {p : GatePolicy} {c : Gated}

theorem OfferOk.later {now now' : ℤ} {o : Offer} (h : OfferOk s p now o) (hle : now ≤ now') :
    OfferOk s p now' o := ⟨h.proven, h.bounded, h.past.trans hle⟩

theorem StageOk.keep {c' : Gated} {stage : Stage} (h : StageOk s p c stage)
    (hdb : c'.world.db = c.world.db) (hcommits : c'.commits = c.commits)
    (hoffers : ∀ o ∈ c.offers, o ∈ c'.offers) (hnow : c.now ≤ c'.now) : StageOk s p c' stage := by
  have hcurrent : ∀ k, Current c k → Current c' k := fun k hk =>
    ⟨hk.1.trans hdb.symm, hk.2.trans hcommits.symm⟩
  cases stage with
  | checking => trivial
  | proved k => exact ⟨h.1, hcurrent k h.2⟩
  | chosen k | ready k => exact ⟨h.1, hcurrent k h.2.1, h.2.2.1, h.2.2.2.trans hnow⟩
  | calling o => exact ⟨hoffers o h.1, h.2.1.later hnow, hcurrent _ h.2.2⟩
  | granted => trivial

/-- Commands that are executed now. -/
structure New (c : Gated) (i : ℕ) (xs : List Execution) : Prop where
  link : ∀ x ∈ xs, x.link = i
  current : ∀ x ∈ xs, x.commits = c.commits ∧ x.db = c.world.db

variable {l' : Link} {e : ProxyControl.Event}

theorem control_now (control : Control) (e : ProxyControl.Event) :
    control.system.now ≤ (ProxyControl.step control e).system.now := by
  cases e with
  | gate e =>
    simp only [ProxyControl.step]
    split
    · exact step_now control.system e
    · exact le_rfl
  | accept session =>
    simp only [ProxyControl.step]
    split
    · split
      · exact le_rfl
      · exact step_now control.system (.own session)
    · exact le_rfl
  | serve fails written =>
    simp only [ProxyControl.step]
    split
    · exact le_rfl
    dsimp only
    rcases (serve_served control.system (control.links (control.count - 1)) fails
      written).system with
      heq | ⟨e, heq⟩
    · rw [heq]
    · rw [heq]
      exact step_now control.system e
  | inject | connect | call | reply | close => exact le_rfl

theorem Inv.change (h : Inv s p c) {i : ℕ} {xs : List Execution}
    (hlinks : (ProxyControl.step c.control e).links = update c.control.links i l')
    (hcount : c.control.count ≤ (ProxyControl.step c.control e).count)
    (hclean : l'.tampered = false) (hfed : Fed l') (hxs : New c i xs)
    (hnumbers : ∀ x ∈ xs, i < (ProxyControl.step c.control e).count ∧
      x.message.sequence ≤ l'.session.base.sequence)
    (hplaced : ∀ x ∈ c.executions, x.link = i → x.message.sequence ≤ l'.session.base.sequence)
    (hexecuted : ∀ m t, Mark.granted m t ∈ l'.session.history →
      ∃ x ∈ xs ++ c.executions, x.link = i ∧ x.message = m)
    (hwaits : ∀ u m start, l'.client.phase = .waiting (.grantUntil u) m start → Waits c i m)
    (hbacked : ∀ m ∈ l'.client.sent, m.action = .grant →
    ∃ o ∈ c.offers, o.link = i ∧ o.message = m ∧
      OfferOk s p c.now o ∧ ((∃ y ∈ l'.client.completed, y.message = m) →
        Agrees c o ∧ ∀ x ∈ xs, x.message ≠ m)) :
    Inv s p { c with control := ProxyControl.step c.control e, executions := xs ++
      c.executions } := by
  have hsessions := step_sessions h.sessions e
  have hl := step_links h.sessions h.links e
  have hnow : c.now ≤ _ := control_now c.control e
  generalize ProxyControl.step c.control e = control at *
  have hall : ∀ P : ℕ → Link → Prop, P i l' → (∀ j, j ≠ i → P j (c.control.links j)) →
      ∀ j, P j (control.links j) := by
    rw [hlinks]
    exact fun P hself hother => (forall_update_iff _ P).mpr ⟨hself, hother⟩
  refine ⟨hsessions, hl, hall (fun _ l => l.tampered = false) hclean fun j _ => h.clean j,
    hall (fun _ l => Fed l) hfed fun j _ => h.fed j, fun x hx => ?_,
    hall (fun j l => ∀ m t, Mark.granted m t ∈ l.session.history →
      ∃ x ∈ xs ++ c.executions, x.link = j ∧ x.message = m) hexecuted fun j _ m t hm => ?_,
    fun t ht => (h.stage t ht).keep rfl rfl (fun _ ho => ho) hnow, fun j u m start hphase => ?_,
    hall (fun j l => ∀ m ∈ l.client.sent, m.action = .grant → ∃ o ∈ c.offers, o.link = j ∧
      o.message = m ∧ OfferOk s p control.system.now o ∧
      ((∃ y ∈ l.client.completed, y.message = m) →
        Agrees { c with control := control, executions := xs ++ c.executions } o))
      (fun m hm haction => ?_) fun j hj m hm haction => ?_⟩
  · rcases mem_append.mp hx with hx | hx
    · refine hall (fun j l => x.link = j → x.link < control.count ∧
        x.message.sequence ≤ l.session.base.sequence) ?_ ?_ x.link rfl
      · rintro hlink
        rw [hlink]
        exact hnumbers x hx
      · exact fun j hj hlink => absurd (hlink.symm.trans (hxs.link x hx)) hj
    · obtain ⟨hlink, hsequence⟩ := h.placed x hx
      refine ⟨hlink.trans_le hcount, hall (fun j l => x.link = j →
        x.message.sequence ≤ l.session.base.sequence) (hplaced x hx) ?_ x.link rfl⟩
      rintro j hj rfl
      exact hsequence
  · obtain ⟨x, hx, hxm⟩ := h.executed j m t hm
    exact ⟨x, mem_append_right _ hx, hxm⟩
  · obtain ⟨t, o, htx, hcalling, htlink, holink, hmessage, hagrees⟩ :=
      hall (fun j l => ∀ u m start, l.client.phase = .waiting (.grantUntil u) m start → Waits c j m)
        hwaits (fun j _ => h.waits j) j u m start hphase
    refine ⟨t, o, htx, hcalling, htlink, holink, hmessage, fun x hx hxlink hxm => ?_⟩
    rcases mem_append.mp hx with hx | hx
    · have hcurrent := h.stage t htx
      rw [hcalling] at hcurrent
      exact ⟨(hxs.current x hx).1.trans hcurrent.2.2.2.symm,
        (hxs.current x hx).2.trans hcurrent.2.2.1.symm⟩
    · exact hagrees x hx hxlink hxm
  · obtain ⟨o, ho, holink, homessage, hok, hagrees⟩ := hbacked m hm haction
    refine ⟨o, ho, holink, homessage, hok.later hnow, fun hcompleted x hx hxlink hxm => ?_⟩
    obtain ⟨hold, hnew⟩ := hagrees hcompleted
    rcases mem_append.mp hx with hx | hx
    · exact absurd (hxm.trans homessage) (hnew x hx)
    · exact hold x hx hxlink hxm
  · obtain ⟨o, ho, holink, homessage, hok, hagrees⟩ := h.backed j m hm haction
    refine ⟨o, ho, holink, homessage, hok.later hnow, fun hcompleted x hx hxlink hxm => ?_⟩
    rcases mem_append.mp hx with hx | hx
    · exact absurd ((hxs.link x hx).symm.trans (hxlink.trans holink)).symm hj
    · exact hagrees hcompleted x hx hxlink hxm

section

variable {i : ℕ} (h : Inv s p c)
  (hlinks : (ProxyControl.step c.control e).links = update c.control.links i l')
  (hcount : c.control.count = (ProxyControl.step c.control e).count) (hclean : l'.tampered = false)
  (hfed : Fed l') (hsession : l'.session = (c.control.links i).session)
  (hwaits : ∀ u m start, l'.client.phase = .waiting (.grantUntil u) m start → Waits c i m)
include h hlinks hcount hclean hfed hsession hwaits

theorem Inv.client
    (hbacked : ∀ m ∈ l'.client.sent, m.action = .grant →
    ∃ o ∈ c.offers, o.link = i ∧ o.message = m ∧
      OfferOk s p c.now o ∧ ((∃ y ∈ l'.client.completed, y.message = m) → Agrees c o)) :
    Inv s p { c with control := ProxyControl.step c.control e } := by
  have hnone : ∀ x ∈ ([] : List Execution), False := fun x hx => absurd hx not_mem_nil
  have hnew : New c i [] := ⟨fun x hx => (hnone x hx).elim, fun x hx => (hnone x hx).elim⟩
  refine h.change hlinks (le_of_eq hcount) hclean hfed hnew (fun x hx => (hnone x hx).elim)
    (fun x hx hlink => ?_) (fun m t hm => ?_) hwaits (fun m hm haction => ?_)
  · rw [hsession, ← hlink]
    exact (h.placed x hx).2
  · rw [hsession] at hm
    exact h.executed i m t hm
  · obtain ⟨o, ho, holink, homessage, hok, hagrees⟩ := hbacked m hm haction
    exact ⟨o, ho, holink, homessage, hok, fun hcompleted =>
      ⟨hagrees hcompleted, fun x hx => (hnone x hx).elim⟩⟩

theorem Inv.quiet (hsent : l'.client.sent = (c.control.links i).client.sent)
    (hcompleted : l'.client.completed = (c.control.links i).client.completed) :
    Inv s p { c with control := ProxyControl.step c.control e } := by
  refine h.client hlinks hcount hclean hfed hsession hwaits fun m hm haction => ?_
  rw [hsent] at hm
  rw [hcompleted]
  exact h.backed i m hm haction

end

theorem executedBy_nil {after : Control} (h : (after.links (c.control.count - 1)).session.log =
    (c.control.links (c.control.count - 1)).session.log) : c.executedBy after = [] := by
  unfold Gated.executedBy
  rw [h, drop_length]
  rfl

theorem connections_nil
    (h : ((ProxyControl.step c.control e).links (c.control.count - 1)).session.log =
      (c.control.links (c.control.count - 1)).session.log) :
    c.connections e = { c with control := ProxyControl.step c.control e } := by
  unfold Gated.connections
  rw [executedBy_nil h]
  rfl

theorem connections_client {i : ℕ}
    (hlinks : (ProxyControl.step c.control e).links = update c.control.links i l')
    (hsession : l'.session = (c.control.links i).session) :
    c.connections e = { c with control := ProxyControl.step c.control e } := by
  refine connections_nil ?_
  rw [hlinks]
  by_cases hi : c.control.count - 1 = i
  · rw [hi, update_self, hsession]
  · rw [update_of_ne hi]

section

variable (h : Inv s p c)
include h

theorem Inv.gate (e : ProxyGate.Event) : Inv s p (c.connections (.gate e)) := by
  have hlinks : (ProxyControl.step c.control (.gate e)).links = c.control.links := by
    simp only [ProxyControl.step]
    split <;> rfl
  have hcount : c.control.count = (ProxyControl.step c.control (.gate e)).count := by
    simp only [ProxyControl.step]
    split <;> rfl
  have hupdate : (ProxyControl.step c.control (.gate e)).links =
      update c.control.links 0 (c.control.links 0) := by
    rw [hlinks, update_eq_self]
  rw [connections_client hupdate rfl]
  exact h.quiet hupdate hcount (h.clean 0) (h.fed 0) rfl (h.waits 0) rfl rfl

theorem Inv.accept (session nonce clientBinding : String) :
    Inv s p (c.connections (.accept session nonce clientBinding)) := by
  have hstay : ProxyControl.step c.control (.accept session nonce clientBinding) = c.control →
      Inv s p (c.connections (.accept session nonce clientBinding)) := by
    intro hsame
    rw [connections_nil (by rw [hsame]), hsame]
    exact h
  by_cases haccept : (c.control.free && validID session && validID nonce) = true
  · cases hown : (c.control.system.gate.own session).2 with
    | error =>
      refine hstay ?_
      simp only [ProxyControl.step, if_pos haccept, hown]
    | ok u =>
      have hstep : ProxyControl.step c.control (.accept session nonce clientBinding) =
        { c.control with
            system := ProxyGate.step c.control.system (.own session)
            links := update c.control.links c.control.count
              (.new c.control.binding.text session nonce clientBinding)
            count := c.control.count + 1 } := by
        simp only [ProxyControl.step, if_pos haccept, hown]
      have hexecuted : c.executedBy
        (ProxyControl.step c.control (.accept session nonce clientBinding)) = [] := by
        unfold Gated.executedBy
        rw [hstep]
        dsimp only
        by_cases hzero : c.control.count - 1 = c.control.count
        · have hlog : (Link.new c.control.binding.text session nonce clientBinding).session.log =
            [] := rfl
          rw [hzero, update_self, hlog, drop_nil]
          rfl
        · rw [update_of_ne hzero, drop_length]
          rfl
      unfold Gated.connections
      rw [hexecuted]
      have hnone : ∀ x ∈ ([] : List Execution), False := fun x hx => absurd hx not_mem_nil
      refine h.change (i := c.control.count) (by rw [hstep])
        (by rw [hstep]; exact Nat.le_succ _) rfl
        ⟨.inl rfl, fun m hm => absurd hm not_mem_nil, fun y hy => absurd hy not_mem_nil⟩
        ⟨fun x hx => (hnone x hx).elim, fun x hx => (hnone x hx).elim⟩
          (fun x hx => (hnone x hx).elim)
        (fun x hx hlink => ?_) (fun m t hm => ?_) (fun u m start hphase => ?_)
        (fun m hm => absurd hm not_mem_nil)
      · exact absurd hlink (h.placed x hx).1.ne
      · cases mem_singleton.mp hm
      · cases hphase
  · refine hstay ?_
    simp only [ProxyControl.step, if_neg haccept]

theorem Inv.serve (fails : Bool) (written : ℕ) :
    Inv s p (c.connections (.serve fails written)) := by
  set i := c.control.count - 1
  by_cases hcount : c.control.count = 0
  · have hsame : ProxyControl.step c.control (.serve fails written) = c.control := by
      simp only [ProxyControl.step, if_pos hcount]
    rw [connections_nil (by rw [hsame]), hsame]
    exact h
  have hpos := Nat.pos_of_ne_zero hcount
  have hsession : SessionOk c.control.binding.text c.control.system.now
      (c.control.links i).session := h.sessions.session hpos
  have hserved := serve_served c.control.system (c.control.links i) fails written
  have hadvances := Advances.served hserved hsession
  have hends := Served.sameEnds hserved
  have hfed := (h.fed i).served hserved hsession
  have hlinks : (ProxyControl.step c.control (.serve fails written)).links =
      update c.control.links i (ProxyControl.serve c.control.system
        (c.control.links i) fails written).2 := by
    simp only [ProxyControl.step, if_neg hcount]
    rfl
  have hcounts : (ProxyControl.step c.control (.serve fails written)).count = c.control.count := by
    simp only [ProxyControl.step, if_neg hcount]
    rfl
  generalize (ProxyControl.serve c.control.system (c.control.links i) fails
    written).2 = l' at hadvances hends hfed hlinks
  have hself : (ProxyControl.step c.control (.serve fails written)).links i = l' := by
    rw [hlinks, update_self]
  have hnew : ∀ x ∈ c.executedBy (ProxyControl.step c.control (.serve fails written)),
      ∃ e ∈ l'.session.log.drop (c.control.links i).session.log.length,
        x = ⟨c.control.count - 1, e.message, c.commits, c.world.db⟩ := by
    intro x hx
    unfold Gated.executedBy at hx
    rw [hself] at hx
    obtain ⟨e, he, rfl⟩ := mem_map.mp (mem_reverse.mp hx)
    exact ⟨e, he, rfl⟩
  have hold : ∀ e ∈ l'.session.log.drop (c.control.links i).session.log.length,
      ⟨c.control.count - 1, e.message, c.commits, c.world.db⟩ ∈
        c.executedBy (ProxyControl.step c.control (.serve fails written)) := by
    intro e he
    unfold Gated.executedBy
    rw [hself]
    exact mem_reverse.mpr (mem_map.mpr ⟨e, he, rfl⟩)
  refine h.change hlinks (le_of_eq hcounts.symm) (hends.2.2.trans (h.clean _)) hfed
    ⟨?_, ?_⟩ ?_ ?_ ?_ ?_ ?_
  · intro x hx
    obtain ⟨e, -, rfl⟩ := hnew x hx
    rfl
  · intro x hx
    obtain ⟨e, -, rfl⟩ := hnew x hx
    exact ⟨rfl, rfl⟩
  · intro x hx
    obtain ⟨e, he, rfl⟩ := hnew x hx
    refine ⟨?_, (hadvances.fresh e he).2⟩
    rw [hcounts]
    exact Nat.sub_lt hpos Nat.one_pos
  · intro x hx hlink
    have hsequence := (h.placed x hx).2
    rw [hlink] at hsequence
    exact hsequence.trans hadvances.base
  · intro m t hm
    rcases hadvances.granted m t hm with hbefore | ⟨e, he, hmessage⟩
    · obtain ⟨x, hx, hxm⟩ := h.executed _ m t hbefore
      exact ⟨x, mem_append_right _ hx, hxm⟩
    · exact ⟨_, mem_append_left _ (hold e he), rfl, hmessage⟩
  · intro u m start hphase
    rw [hends.1] at hphase
    exact h.waits _ u m start hphase
  · intro m hm haction
    rw [hends.1] at hm ⊢
    obtain ⟨o, ho, holink, homessage, hok, hagrees⟩ := h.backed _ m hm haction
    refine ⟨o, ho, holink, homessage, hok, fun hcompleted =>
      ⟨hagrees hcompleted, fun x hx hxm => ?_⟩⟩
    obtain ⟨y, hy, hym⟩ := hcompleted
    obtain ⟨e, he, rfl⟩ := hnew x hx
    have hbound := (h.fed _).completed y hy
    have hfresh := (hadvances.fresh e he).1
    have hsame : e.message = y.message := hxm.trans hym.symm
    rw [← hsame] at hbound
    omega

theorem Inv.connect (i : ℕ) (fails : Bool) : Inv s p (c.connections (.connect i fails)) := by
  set l := c.control.links i
  have hlinks : (ProxyControl.step c.control (.connect i fails)).links =
      update c.control.links i (l.connect fails) := rfl
  have hsession := (client_same l 0 .closed fails 0).1.session
  have hclient : (l.connect fails).client.sent = l.client.sent ∧
      (l.connect fails).client.completed = l.client.completed ∧
      ∀ k m start, (l.connect fails).client.phase = .waiting k m start →
        l.client.phase = .waiting k m start := by
    unfold Link.connect
    split
    · split
      · exact ⟨rfl, rfl, nofun⟩
      · split
        · exact ⟨rfl, rfl, fun _ _ _ hphase => hphase⟩
        · exact ⟨rfl, rfl, nofun⟩
        · split <;> exact ⟨rfl, rfl, nofun⟩
    · exact ⟨rfl, rfl, fun _ _ _ hphase => hphase⟩
  rw [connections_client hlinks hsession]
  exact h.quiet hlinks rfl ((client_same _ 0 .closed fails 0).1.tampered.trans (h.clean i))
    ((h.fed i).connect fails) hsession
    (fun u m start hphase => h.waits i u m start (hclient.2.2 _ m start hphase))
      hclient.1 hclient.2.1

theorem Inv.close (i : ℕ) :
    Inv s p { c with control := ProxyControl.step c.control (.close i) } := by
  have hlinks : (ProxyControl.step c.control (.close i)).links =
      update c.control.links i (c.control.links i).fail := rfl
  refine h.quiet hlinks rfl (h.clean i) ⟨(h.fed i).input, (h.fed i).received, (h.fed i).completed⟩
    rfl (fun u m start hphase => ?_) rfl rfl
  cases hphase

theorem Inv.closed (i : ℕ) (fails : Bool) (written : ℕ) :
    Inv s p (c.connections (.call i .closed fails written)) := by
  have hlinks : (ProxyControl.step c.control (.call i .closed fails written)).links =
      update c.control.links i ((c.control.links i).call c.now .closed fails written) := rfl
  have hsession := (client_same (c.control.links i) c.now .closed fails written).2.1.session
  have htampered := (client_same (c.control.links i) c.now .closed fails written).2.1.tampered
  have hfed := (h.fed i).call (h.links i (h.clean i)) c.now .closed fails written
  have hcalled := call_called (c.control.links i) c.now .closed fails written
  rw [connections_client hlinks hsession]
  generalize (c.control.links i).call c.now .closed fails written = l' at *
  refine h.client hlinks rfl (htampered.trans (h.clean i)) hfed hsession
    (fun u m start hphase => ?_) (fun m hm haction => ?_)
  · cases hcalled with
    | refused => cases hphase
    | ignored => exact h.waits i u m start hphase
    | cut => cases hphase
    | asked => cases hphase
  · cases hcalled with
    | refused | ignored => exact h.backed i m hm haction
    | cut | asked =>
      rcases mem_cons.mp hm with rfl | hm
      · cases haction
      · exact h.backed i m hm haction

theorem Inv.reply (i : ℕ) (fails : Bool) : Inv s p (c.connections (.reply i fails)) := by
  have hlinks : (ProxyControl.step c.control (.reply i fails)).links =
      update c.control.links i ((c.control.links i).reply c.now fails) := rfl
  have hsession := (client_same (c.control.links i) c.now .closed fails 0).2.2.session
  have htampered := (client_same (c.control.links i) c.now .closed fails 0).2.2.tampered
  have hok := h.links i (h.clean i)
  have hfed := (h.fed i).reply hok c.now fails
  have hreplied := reply_replied hok c.now fails
  rw [connections_client hlinks hsession]
  generalize (c.control.links i).reply c.now fails = l' at *
  refine h.client hlinks rfl (htampered.trans (h.clean i)) hfed hsession
    (fun u m start hphase => ?_) (fun m hm haction => ?_)
  · cases hreplied with
    | unknown => exact h.waits i u m start hphase
    | failed => cases hphase
    | done => cases hphase
  cases hreplied with
  | unknown | failed => exact h.backed i m hm haction
  | done k m' start' e waits settled input base plain log executed =>
    by_cases hm' : m = m'
    · subst hm'
      cases k with
      | closed => cases haction.symm.trans executed.2.1
      | grantUntil u =>
        obtain ⟨t, o, htx, hcalling, -, holink, homessage, hagrees⟩ := h.waits i u m start' waits
        have hstage := h.stage t htx
        rw [hcalling] at hstage
        exact ⟨o, hstage.1, holink, homessage, hstage.2.1, fun _ => hagrees⟩
    · obtain ⟨o, ho, holink, homessage, hoffer, hagrees⟩ := h.backed i m hm haction
      refine ⟨o, ho, holink, homessage, hoffer, fun ⟨y, hy, hym⟩ => ?_⟩
      rcases mem_cons.mp hy with rfl | hy
      · exact absurd hym.symm hm'
      · exact hagrees ⟨y, hy, hym⟩

theorem Inv.connections (he : ordinary e = true) : Inv s p (c.connections e) := by
  cases e with
  | gate e => exact h.gate e
  | accept session nonce clientBinding => exact h.accept session nonce clientBinding
  | serve fails written => exact h.serve fails written
  | inject => cases he
  | connect i fails => exact h.connect i fails
  | call i k fails written =>
    cases k with
    | closed => exact h.closed i fails written
    | grantUntil => cases he
  | reply i fails => exact h.reply i fails
  | close i =>
    have hlinks : (ProxyControl.step c.control (.close i)).links =
        update c.control.links i (c.control.links i).fail := rfl
    rw [connections_client hlinks rfl]
    exact h.close i

/-! ## The transaction -/

theorem Inv.moved {tx : Option Transaction} (hstage : ∀ t, tx = some t → StageOk s p c t.stage)
    (hidle : ∀ i u m start, (c.control.links i).client.phase ≠ .waiting (.grantUntil u) m start) :
    Inv s p { c with tx := tx } := by
  refine ⟨h.sessions, h.links, h.clean, h.fed, h.placed, h.executed, fun t ht => ?_,
    fun i u m start hphase => absurd hphase (hidle i u m start), h.backed⟩
  exact (hstage t ht).keep rfl rfl (fun _ ho => ho) le_rfl

theorem Inv.no_wait (hstage : ∀ t, c.tx = some t → ∀ o, t.stage ≠ .calling o) (i : ℕ)
    (u : ℤ) (m : Message) (start : List Executed) :
    (c.control.links i).client.phase ≠ .waiting (.grantUntil u) m start := by
  intro hphase
  obtain ⟨t, o, htx, hcalling, -⟩ := h.waits i u m start hphase
  exact hstage t htx o hcalling

end

theorem chooseUntil_bounded (now : ℤ) (k : Checked) : Bounded k now (chooseUntil now k.proof) := by
  unfold Bounded chooseUntil
  cases hearliest : k.proof.earliestValidUntil with
  | none => exact ⟨le_rfl, nofun⟩
  | some =>
    dsimp only
    split_ifs with hlt
    · refine ⟨hlt.le, fun e' he' => ?_⟩
      cases he'
      exact le_rfl
    · refine ⟨le_rfl, fun e' he' => ?_⟩
      cases he'
      exact not_lt.mp hlt

/-- The callback begins `GrantUntil`. -/
theorem Inv.grant (h : Inv s p c) {t : Transaction} {k : Checked} {computedAt untilTime : ℤ}
    (htx : c.tx = some t) (hstage : t.stage = .ready k computedAt untilTime) (fails : Bool)
    (written : ℕ) : Inv s p (c.grant t k computedAt untilTime fails written) := by
  set l := c.control.links t.link
  have hready := h.stage t htx
  rw [hstage] at hready
  obtain ⟨hproven, hcurrent, hbounded, hpast⟩ := hready
  have hidle := h.no_wait fun t' ht' o ho => by
    cases htx.symm.trans ht'
    cases hstage.symm.trans ho
  unfold Gated.grant
  generalize ho :
    (⟨t.link, k, computedAt, commandOf l.client.base (.grantUntil untilTime)⟩ : Offer) = o
  have holink : o.link = t.link := by rw [← ho]
  have homessage : o.message = commandOf l.client.base (.grantUntil untilTime) := by
    rw [← ho]
  have hoffer : OfferOk s p c.now o := by
    rw [← ho]
    exact ⟨hproven, hbounded, hpast⟩
  have hchecked : Current c o.checked := by
    rw [← ho]
    exact hcurrent
  have hasked : Inv s p { c.at t (.calling o) with offers := o :: c.offers } := by
    refine ⟨h.sessions, h.links, h.clean, h.fed, h.placed, h.executed, fun t' ht' => ?_,
      fun i u m start hphase => absurd hphase (hidle i u m start), fun i m hm haction => ?_⟩
    · cases ht'
      exact ⟨mem_cons_self, hoffer, hchecked⟩
    · obtain ⟨o', ho', hlink', hmessage', hok', hagrees'⟩ := h.backed i m hm haction
      exact ⟨o', mem_cons_of_mem _ ho', hlink', hmessage', hok', hagrees'⟩
  have hcalled := call_called l c.now (.grantUntil untilTime) fails written
  have hsession := (client_same l c.now (.grantUntil untilTime) fails written).2.1.session
  have htampered := (client_same l c.now (.grantUntil untilTime) fails written).2.1.tampered
  have hlinkOk := h.links t.link (h.clean t.link)
  have hfed := (h.fed t.link).call hlinkOk c.now (.grantUntil untilTime) fails written
  have hlinks :
    (ProxyControl.step c.control (.call t.link (.grantUntil untilTime) fails written)).links =
      update c.control.links t.link (l.call c.now (.grantUntil untilTime) fails written) := rfl
  generalize l.call c.now (.grantUntil untilTime) fails written = l' at *
  have hunused : l.client.phase = .idle → l.session.base.sequence < o.message.sequence := by
    intro hphase
    rw [homessage, (hlinkOk.idle hphase).2.2.2.1]
    exact Nat.lt_succ_self _
  have hnew : l.client.phase = .idle →
      ∃ o' ∈ o :: c.offers, o'.link = t.link ∧ o'.message = o.message ∧ OfferOk s p c.now o' ∧
        ((∃ y ∈ l.client.completed, y.message = o.message) →
          Agrees { c.at t (.calling o) with offers := o :: c.offers } o') := by
    intro hphase
    refine ⟨o, mem_cons_self, holink, rfl, hoffer, fun ⟨y, hy, hym⟩ => ?_⟩
    have hbound := (h.fed t.link).completed y hy
    rw [hym] at hbound
    exact absurd hbound (not_le.mpr (hunused hphase))
  refine hasked.client hlinks rfl (htampered.trans (h.clean t.link)) hfed hsession
    (fun u m start hphase => ?_) (fun m hm haction => ?_)
  · cases hcalled with
    | refused => cases hphase
    | ignored => exact absurd hphase (hidle t.link u m start)
    | cut => cases hphase
    | asked idle =>
      cases hphase
      refine ⟨_, o, rfl, rfl, rfl, holink, homessage, fun x hx hxlink hxm => ?_⟩
      have hbound := (h.placed x hx).2
      rw [hxm, hxlink, holink] at hbound
      exact absurd hbound (not_le.mpr (hunused idle))
  · cases hcalled with
    | refused | ignored => exact hasked.backed t.link m hm haction
    | cut idle | asked idle =>
      rcases mem_cons.mp hm with rfl | hm
      · rw [← homessage]
        exact hnew idle
      · exact hasked.backed t.link m hm haction

theorem Inv.over (h : Inv s p c) (world : World) (commits : ℕ)
    (hidle : ∀ i u m start, (c.control.links i).client.phase ≠ .waiting (.grantUntil u) m start) :
    Inv s p { c.rollback with world := world, commits := commits } :=
  ⟨h.sessions, h.links, h.clean, h.fed, h.placed, h.executed, (fun t ht => by cases ht),
    fun i u m start hphase => absurd hphase (hidle i u m start), h.backed⟩

theorem Inv.authority (h : Inv s p c) (i : DeviceAuthWorld.Input) : Inv s p (c.authority s i) := by
  have hwriter : Inv s p (if c.tx.isSome then c
      else { c with world := DeviceAuthWorld.step s c.world i, commits := c.commits + 1 }) := by
    cases htx : c.tx with
    | some => exact h
    | none =>
      have hidle := h.no_wait fun t ht => by
        cases htx.symm.trans ht
      have hrollback : c = c.rollback := by
        unfold Gated.rollback
        rw [← htx]
      rw [hrollback]
      exact h.over _ _ hidle
  unfold Gated.authority
  split
  · rename_i runtime hact
    have hdb : (DeviceAuthWorld.step s c.world i).db = c.world.db := by
      unfold DeviceAuthWorld.step DeviceAuthWorld.react
      rw [hact]
    exact ⟨h.sessions, h.links, h.clean, h.fed, h.placed, h.executed,
      fun t ht => (h.stage t ht).keep hdb rfl (fun _ ho => ho) le_rfl, h.waits, h.backed⟩
  · exact hwriter

/-- The service takes a step inside its transaction. -/
theorem Inv.advance (h : Inv s p c) {t : Transaction} (htx : c.tx = some t) (a : Act) :
    Inv s p (c.advance s p t a) := by
  have hidle : (∀ o, t.stage ≠ .calling o) → ∀ i u m start,
      (c.control.links i).client.phase ≠ .waiting (.grantUntil u) m start := fun hstage =>
    h.no_wait fun t' ht' => by
      cases htx.symm.trans ht'
      exact hstage
  have hat : ∀ stage, (∀ o, t.stage ≠ .calling o) → StageOk s p c stage → Inv s p (c.at t stage) :=
    fun stage hno hstage => h.moved (fun t' ht' => by cases ht'; exact hstage) (hidle hno)
  have hrollback : (∀ o, t.stage ≠ .calling o) → Inv s p c.rollback := fun hno =>
    h.over c.world c.commits (hidle hno)
  have hstage := h.stage t htx
  unfold Gated.advance
  split
  · rename_i env hchecking
    have hno : ∀ o, t.stage ≠ .calling o := fun o ho => by cases hchecking.symm.trans ho
    unfold Gated.prove
    split
    · split
      · rename_i proof hproof
        exact hat _ hno ⟨hproof, rfl, rfl⟩
      · exact hrollback hno
    · exact h
  · rename_i k hproved
    have hno : ∀ o, t.stage ≠ .calling o := fun o ho => by cases hproved.symm.trans ho
    rw [hproved] at hstage
    split
    · exact hat _ hno ⟨hstage.1, hstage.2, chooseUntil_bounded c.now k, le_rfl⟩
    · exact hrollback hno
  · rename_i k computedAt untilTime hchosen
    have hno : ∀ o, t.stage ≠ .calling o := fun o ho => by cases hchosen.symm.trans ho
    rw [hchosen] at hstage
    split
    · exact hrollback hno
    · exact hat _ hno hstage
  · rename_i fails written k computedAt untilTime hready
    exact h.grant htx hready fails written
  · rename_i o hcalling
    split
    · exact h
    rename_i hwaiting
    have hnone : ∀ i u m start, (c.control.links i).client.phase ≠ .waiting
      (.grantUntil u) m start := by
      intro i u m start hphase
      obtain ⟨t', o', ht', -, hlink, -⟩ := h.waits i u m start hphase
      cases htx.symm.trans ht'
      rw [hlink] at hwaiting
      unfold waiting at hwaiting
      rw [hphase] at hwaiting
      exact hwaiting rfl
    split
    · exact h.moved (fun t' ht' => by cases ht'; trivial) hnone
    · exact h.over c.world c.commits hnone
  · rename_i outcome lateGrant identityAfter o hgranted
    exact h.over _ _ (hidle fun o' ho' => by cases hgranted.symm.trans ho')
  · have hclosed := h.close t.link
    refine hclosed.over c.world c.commits fun i u m start hphase => ?_
    obtain ⟨t', o', ht', -, hlink, -⟩ := hclosed.waits i u m start hphase
    cases htx.symm.trans ht'
    have hfailed : (ProxyControl.step c.control (.close t.link)).links t.link =
        (c.control.links t.link).fail := update_self ..
    rw [← hlink] at hphase
    cases (congrArg (fun l => l.client.phase) hfailed).symm.trans hphase
  · exact h

theorem step_inv (h : Inv s p c) (e : Event) : Inv s p (step s p c e) := by
  cases e with
  | control =>
    simp only [step]
    split_ifs with he
    · exact h.connections he
    · exact h
  | authority i => exact h.authority i
  | start =>
    simp only [step]
    split_ifs with hstart
    · rw [Bool.and_eq_true, Option.isNone_iff_eq_none] at hstart
      refine h.moved (fun t ht => by cases ht; trivial) (h.no_wait fun t ht => ?_)
      cases hstart.1.symm.trans ht
    · exact h
  | advance a =>
    simp only [step]
    split
    · exact h
    · rename_i t htx
      exact h.advance htx a

theorem run_inv (s : Store) (p : GatePolicy) (binding : ProxyControl.Binding)
    (world : World) (now : ℤ) (events : List Event) :
    Inv s p (run (step s p) (.new p binding world now) events) := by
  have hnil : ∀ {α : Type} {a : α} {q : Prop}, a ∈ ([] : List α) → q := fun ha =>
    absurd ha not_mem_nil
  refine run_invariant (Inv s p) (fun c e h _ => step_inv h e)
    ⟨run_sessions _ binding now [], run_links _ binding now [], fun _ => rfl,
      fun _ => ⟨.inl rfl, fun _ hm => hnil hm, fun _ hy => hnil hy⟩, fun _ hx => hnil hx,
      fun _ _ _ hm => hnil hm, (fun t ht => by cases ht), (fun _ _ _ _ hphase => by cases hphase),
      fun _ _ hm => hnil hm⟩
    (along_of_forall (fun _ _ => trivial) _ _)

/-! ## Admissions -/

/-- The proof behind an admission. -/
structure Fresh (s : Store) (p : GatePolicy) (c : Gated) (o : Offer) : Prop where
  offered : o ∈ c.offers
  /-- The checks of `WithProxyConvergence` have passed. -/
  proven : proveConvergence s o.checked.env p.managedSources o.checked.db = .ok o.checked.proof
  recent : o.computedAt ≤ c.now ∧ c.now < o.computedAt + leaseTime
  valid : ∀ e ∈ o.checked.proof.earliestValidUntil, c.now < e
  executed : ∃ x ∈ c.executions, x.link = o.link ∧ x.message = o.message
  /-- When the call has returned no error, nothing was committed between checks and execution. -/
  undisturbed : (∃ y ∈ (c.control.links o.link).client.completed, y.message = o.message) →
    ∀ x ∈ c.executions, x.link = o.link → x.message = o.message →
      x.commits = o.checked.commits ∧ x.db = o.checked.db

theorem Inv.fresh (h : Inv s p c) (hopen : c.control.system.gate.isOpen c.now = true) :
    ∃ o, Fresh s p c o := by
  obtain ⟨-, hbehind⟩ := behind_of_open h.sessions hopen
  obtain ⟨m, t, hleased, hexpires, -⟩ := hbehind.leased
  have hlive : c.now < m.untilUnixNano := by
    unfold Gate.isOpen at hopen
    rw [hexpires] at hopen
    exact of_decide_eq_true (Bool.and_eq_true_iff.mp hopen).2
  have hsent := (h.fed (c.control.count - 1)).received m hleased.command.2
  obtain ⟨o, ho, holink, homessage, hoffer, hagrees⟩ := h.backed _ m hsent hleased.command.1
  have hgranted : Mark.granted m t ∈ (c.control.links (c.control.count - 1)).session.history := by
    obtain ⟨later, mid, closed, earlier, hsplit, -⟩ := hleased.split
    change Mark.granted m t ∈ (last c.control).session.history
    rw [hsplit]
    exact mem_append_right _ mem_cons_self
  obtain ⟨x, hx, hxlink, hxm⟩ := h.executed _ m t hgranted
  rw [← homessage] at hlive
  refine ⟨o, ho, hoffer.proven, ⟨hoffer.past, hlive.trans_le hoffer.bounded.1⟩,
    fun e he => hlive.trans_le (hoffer.bounded.2 e he),
    ⟨x, hx, hxlink.trans holink.symm, hxm.trans homessage.symm⟩, fun hcompleted => hagrees ?_⟩
  rw [holink, homessage] at hcompleted
  exact hcompleted

theorem acquireSource_open {g : Gate} {now : ℤ} {a : NetipPrefix.Addr} {n : ℕ}
    (h : (g.acquireSource now a).2 = .ok (some n)) : g.isOpen now = true := by
  unfold Gate.acquireSource at h
  split at h
  · cases h
  · split at h
    · cases h
    · rename_i hclosed
      rw [not_or, Bool.not_eq_false] at hclosed
      exact hclosed.2

theorem reserve_open {g : Gate} {now : ℤ} {a r : ℕ} (h : (g.reserve now a).2 = .ok r) :
    g.isOpen now = true := by
  unfold Gate.reserve at h
  split at h
  · cases h
  · rename_i hclosed
    rw [not_or, not_or, not_or, Bool.not_eq_false] at hclosed
    exact hclosed.2.2.2

/-- Every admission of a managed source has a fresh proof behind it: after every run of cycles
with any failures, and with any commands of devices in between. -/
theorem run_fresh (s : Store) (p : GatePolicy) (binding : ProxyControl.Binding) (world : World)
    (now : ℤ) (events : List Event) :
    let c := run (step s p) (.new p binding world now) events
    (∀ a n, (c.control.system.gate.acquireSource c.now a).2 = .ok (some n) → ∃ o, Fresh s p c o) ∧
      ∀ a r, (c.control.system.gate.reserve c.now a).2 = .ok r → ∃ o, Fresh s p c o := by
  have h := run_inv s p binding world now events
  exact ⟨fun a n hok => h.fresh (acquireSource_open hok), fun a r hok => h.fresh (reserve_open hok)⟩

end

end DaxiangVpn.GatedServiceFreshness
