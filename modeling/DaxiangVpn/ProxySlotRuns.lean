import DaxiangVpn.ProxySlots
import DaxiangVpn.TransitionRun

/-!
# Slots of the CONNECT proxy, step by step

A request for a slot holds the lock, but `touch` does not take it: sessions relay bytes while a
request looks through the slots. Here a request goes on one look at a time. The marks of a run keep
what was handed out, given back, looked at and preempted, the last mark first. A request that nobody
touches meanwhile is `acquire`.
-/

namespace DaxiangVpn.ProxySlotRuns

open ProxySlots TransitionRun List

/-! ## Requests in progress -/

/-- The limit that a request meets. -/
inductive Limit
  | all
  | client

/-- What a request does next. -/
inductive Phase
  | check (limit : Limit)
  /-- It looks through the slots: the reading of the clock, slots to visit, and the session that was
  idle for longest so far with its last activity. -/
  | scan (limit : Limit) (now : ℤ) (rest : List ℕ) (best : Option (ℕ × ℤ))
  | insert

/-- The request that holds the lock. -/
structure Holder where
  peer : String
  /-- What it does next. -/
  phase : Phase

/-- What happened to a slot. -/
inductive Mark
  | acquired (i : ℕ)
  /-- It was given back by a call. -/
  | released (i : ℕ)
  /-- A request read the clock, and looks through the slots from now on. -/
  | scanned (now : ℤ)
  /-- It looked at a slot: whether a closer was set, and the last activity. -/
  | looked (i : ℕ) (attached : Bool) (last : ℤ)
  /-- A request preempted it. -/
  | preempted (i : ℕ)
  | rejected (r : Rejection)
  deriving DecidableEq

/-- The table, the request that holds the lock, and all marks. -/
structure World where
  table : Table
  holder : Option Holder
  log : List Mark

/-- Nothing happened. -/
def World.new : World := ⟨.new, none, []⟩

/-- The client whose sessions may be preempted; empty for all. -/
def Limit.scope (peer : String) : Limit → String
  | .all => ""
  | .client => peer

variable (w : World) (l : Limits) (t : Table)

/-- The limit is reached. -/
def Limit.reached (l : Limits) (peer : String) : Limit → Bool
  | .all => t.full l
  | .client => t.peerFull l peer

/-- The answer of a request that finds no room. -/
def Limit.rejection : Limit → Rejection
  | .all => .busy
  | .client => .busyForClient

/-- What follows when there is room under the limit. -/
def Limit.next : Limit → Phase
  | .all => .check .client
  | .client => .insert

/-- A request is rejected, and gives up the lock. -/
def World.reject (limit : Limit) : World :=
  { w with holder := none, log := .rejected limit.rejection :: w.log }

/-- A request looks at one slot. -/
def World.look (peer : String) (limit : Limit) (now : ℤ) (i : ℕ)
    (rest : List ℕ) (best : Option (ℕ × ℤ)) : World :=
  let last := (w.table.slots i).lastActive
  let best' :=
    if w.table.idle (now - l.proxyPreemptIdle) (limit.scope peer) i = false then best
    else match best with
      | none => some (i, last)
      | some (j, victimLast) => if last < victimLast then some (i, last) else some (j, victimLast)
  { w with
    holder := some ⟨peer, .scan limit now rest best'⟩
    log := .looked i (w.table.slots i).attached last :: w.log }

/-- The request goes on. The environment gives a reading of the clock and an order of the slots. -/
def World.proceed (h : Holder) (now : ℤ) (order : List ℕ) : World :=
  match h.phase with
  | .check limit =>
    if limit.reached w.table l h.peer = false then { w with holder := some ⟨h.peer, limit.next⟩ }
    else if l.proxyPreemptIdle ≤ 0 then w.reject limit
    else ⟨w.table, some ⟨h.peer, .scan limit now order none⟩, .scanned now :: w.log⟩
  | .scan limit now (i :: rest) best => w.look l h.peer limit now i rest best
  | .scan limit _ [] none => w.reject limit
  | .scan limit _ [] (some (i, _)) =>
    ⟨w.table.preempt i, some ⟨h.peer, limit.next⟩, .preempted i :: w.log⟩
  | .insert => ⟨w.table.insertSlot now h.peer, none, .acquired w.table.count :: w.log⟩

/-- What happens next. -/
inductive Event
  /-- A CONNECT asks for a slot. -/
  | acquire (remoteAddr : String)
  /-- The request that holds the lock goes on. -/
  | proceed (now : ℤ) (order : List ℕ)
  /-- Piping starts. -/
  | attach (i : ℕ)
  /-- Bytes are relayed. -/
  | touch (i : ℕ) (now : ℤ)
  /-- The session is over. -/
  | release (i : ℕ)

/-- One step. Calls name slots that exist, and wait for the lock, except `touch`. -/
def step (w : World) : Event → World
  | .acquire remoteAddr =>
    match w.holder with
    | some _ => w
    | none => { w with holder := some ⟨proxyPeer remoteAddr, .check .all⟩ }
  | .proceed now order =>
    match w.holder with
    | some h => w.proceed l h now order
    | none => w
  | .attach i =>
    if w.holder = none ∧ i < w.table.count then
      { w with table := w.table.setSlot i fun x => { x with attached := true } }
    else w
  | .touch i now =>
    if i < w.table.count then
      { w with table := w.table.setSlot i fun x => { x with lastActive := now } }
    else w
  | .release i =>
    if w.holder = none ∧ i < w.table.count then
      { w with table := w.table.releaseLocked i, log := .released i :: w.log }
    else w

/-! ## What a run keeps -/

/-- A mark of a look at a slot. -/
def Mark.isLook : Mark → Bool
  | .looked .. => true
  | _ => false

/-- A request looks through the slots: since its reading of the clock there are only looks. -/
structure Scanning (log looks earlier : List Mark) (now : ℤ) : Prop where
  split : log = looks ++ .scanned now :: earlier
  only : ∀ m ∈ looks, m.isLook = true

/-- The marks say that a session may be preempted: the request that looks through the slots found it
with a closer, and idle for long enough at its reading of the clock. -/
def Preemptible (log : List Mark) (i : ℕ) : Prop :=
  ∃ looks earlier now last, Scanning log looks earlier now ∧ .looked i true last ∈ looks ∧
    last + l.proxyPreemptIdle ≤ now

/-- The marks of a run tell which slots are in use. -/
structure History (l : Limits) (t : Table) (log : List Mark) : Prop where
  counted : Counted l t
  acquired : ∀ i, .acquired i ∈ log ↔ i < t.count
  ended : ∀ i, i < t.count →
    ((t.slots i).released = true ↔ .released i ∈ log ∨ .preempted i ∈ log)
  known : ∀ i, .released i ∈ log ∨ .preempted i ∈ log → i < t.count
  looks : ∀ i older, .preempted i :: older <:+ log → Preemptible l older i

/-- There is room under the limit of all sessions. -/
def Room (l : Limits) (t : Table) : Prop := 0 < l.maxProxyConns → t.conns < l.maxProxyConns

/-- There is room under the limit of a client that has a name. -/
def RoomPeer (peer : String) : Prop :=
  0 < l.maxProxyConnsPeer → peer ≠ "" → t.byPeer peer < l.maxProxyConnsPeer

/-- What holds before a limit is checked. -/
def Limit.Passed (l : Limits) (t : Table) : Limit → Prop
  | .all => True
  | .client => Room l t

/-- What holds of a request in each phase. -/
def Phase.Ready (log : List Mark) (peer : String) : Phase → Prop
  | .check limit => limit.Passed l t
  | .scan limit now _ best => limit.Passed l t ∧ ∃ looks earlier, Scanning log looks earlier now ∧
    ∀ i last, best = some (i, last) → i ∈ t.active ∧
      (limit.scope peer = "" ∨ (t.slots i).peer = limit.scope peer) ∧
      last + l.proxyPreemptIdle ≤ now ∧ .looked i true last ∈ looks
  | .insert => Room l t ∧ RoomPeer l t peer

/-- The marks and the request of a world. -/
structure Kept (l : Limits) (w : World) : Prop where
  history : History l w.table w.log
  ready : ∀ h, w.holder = some h → h.phase.Ready l w.table w.log h.peer

section

variable {l : Limits} {t : Table} {log : List Mark} {w : World}

/-- A mark of something else than a slot that comes or goes. -/
theorem History.note (h : History l t log) {m : Mark} (hacquired : ∀ i, m ≠ .acquired i)
    (hreleased : ∀ i, m ≠ .released i) (hpreempted : ∀ i, m ≠ .preempted i) :
    History l t (m :: log) := by
  have hmem : ∀ i, (.released i ∈ m :: log ∨ .preempted i ∈ m :: log) ↔
      (.released i ∈ log ∨ .preempted i ∈ log) := by
    intro i
    simp only [mem_cons, (hreleased i).symm, (hpreempted i).symm, false_or]
  refine ⟨h.counted, fun i => ?_, fun i hi => ?_, fun i hi => h.known i ((hmem i).mp hi),
    fun i older hs => ?_⟩
  · rw [mem_cons, ← h.acquired i]
    exact or_iff_right (hacquired i).symm
  · rw [hmem i]
    exact h.ended i hi
  · rcases suffix_cons_iff.mp hs with heq | hs
    · exact absurd (List.cons.inj heq).1.symm (hpreempted i)
    · exact h.looks i older hs

/-- A change of a slot that keeps its client and whether it is in use. -/
theorem History.setSlot (h : History l t log) (i : ℕ) {f : Slot → Slot}
    (hpeer : (f (t.slots i)).peer = (t.slots i).peer)
    (hreleased : (f (t.slots i)).released = (t.slots i).released)
    (hclosing : (f (t.slots i)).closing = (t.slots i).closing) : History l (t.setSlot i f) log := by
  refine ⟨h.counted.setSlot i hpeer hreleased fun hc => .inl (hclosing ▸ hc), h.acquired,
    fun j hj => ?_, h.known, h.looks⟩
  have hsame : ((t.setSlot i f).slots j).released = (t.slots j).released := by
    by_cases hji : j = i
    · subst hji
      rw [setSlot_self, hreleased]
    · rw [setSlot_of_ne t f hji]
  rw [hsame]
  exact h.ended j hj

variable {peer : String} {i : ℕ}

/-- Such a change leaves a request ready. -/
theorem ready_setSlot {phase : Phase} (h : phase.Ready l t log peer) (i : ℕ) {f : Slot → Slot}
    (hpeer : (f (t.slots i)).peer = (t.slots i).peer) : phase.Ready l (t.setSlot i f) log peer := by
  cases phase with
  | check limit =>
    cases limit with
    | all => trivial
    | client => exact h
  | insert => exact h
  | scan limit =>
    obtain ⟨hpassed, looks, earlier, hscan, hbests⟩ := h
    refine ⟨?_, looks, earlier, hscan, fun j last hbest => ?_⟩
    · cases limit with
      | all => trivial
      | client => exact hpassed
    obtain ⟨hactive, hscope, hidle, hlooked⟩ := hbests j last hbest
    refine ⟨hactive, ?_, hidle, hlooked⟩
    have hsame : ((t.setSlot i f).slots j).peer = (t.slots j).peer := by
      by_cases hji : j = i
      · subst hji
        rw [setSlot_self, hpeer]
      · rw [setSlot_of_ne t f hji]
    rw [hsame]
    exact hscope

theorem releaseLocked_count (t : Table) (i : ℕ) : (t.releaseLocked i).count = t.count := by
  unfold Table.releaseLocked
  split
  · rfl
  · rfl

theorem releaseLocked_of_ne (t : Table) {j : ℕ} (h : j ≠ i) :
    (t.releaseLocked i).slots j = t.slots j := by
  unfold Table.releaseLocked
  split
  · rfl
  · exact setSlot_of_ne t (fun x => { x with released := true }) h

/-- A slot goes, and the mark says so. -/
theorem History.finish (h : History l t log) {t' : Table} {m : Mark} (hcounted : Counted l t')
    (hi : i < t.count) (hcount : t'.count = t.count) (hself : (t'.slots i).released = true)
    (hother : ∀ j, j ≠ i → (t'.slots j).released = (t.slots j).released)
    (hm : m = .released i ∨ m = .preempted i) (hlook : m = .preempted i → Preemptible l log i) :
    History l t' (m :: log) := by
  have hmarks : ∀ j, (.released j ∈ m :: log ∨ .preempted j ∈ m :: log) ↔
      j = i ∨ .released j ∈ log ∨ .preempted j ∈ log := by
    intro j
    rcases hm with rfl | rfl
    · simp only [mem_cons, Mark.released.injEq, reduceCtorEq, false_or, or_assoc]
    · simp only [mem_cons, Mark.preempted.injEq, reduceCtorEq, false_or]
      exact or_left_comm
  refine ⟨hcounted, fun j => ?_, fun j hj => ?_, fun j hj => ?_, fun j older hs => ?_⟩
  · have hne : Mark.acquired j ≠ m := by
      rcases hm with rfl | rfl
      · exact Mark.noConfusion
      · exact Mark.noConfusion
    rw [mem_cons, hcount, ← h.acquired j]
    exact or_iff_right hne
  · rw [hmarks j]
    by_cases hji : j = i
    · subst hji
      exact ⟨fun _ => .inl rfl, fun _ => hself⟩
    · rw [hother j hji, h.ended j (hcount ▸ hj)]
      exact (or_iff_right hji).symm
  · rw [hcount]
    rcases (hmarks j).mp hj with rfl | hold
    · exact hi
    · exact h.known j hold
  · rcases suffix_cons_iff.mp hs with heq | hs
    · obtain ⟨hmark, hrest⟩ := List.cons.inj heq
      subst hrest
      rcases hm with rfl | rfl
      · cases hmark
      · cases hmark
        exact hlook rfl
    · exact h.looks j older hs

theorem Kept.setSlot (h : Kept l w) (i : ℕ) (f : Slot → Slot)
    (hpeer : (f (w.table.slots i)).peer = (w.table.slots i).peer)
    (hreleased : (f (w.table.slots i)).released = (w.table.slots i).released)
    (hclosing : (f (w.table.slots i)).closing = (w.table.slots i).closing) :
    Kept l { w with table := w.table.setSlot i f } :=
  ⟨h.history.setSlot i hpeer hreleased hclosing,
    fun holder heq => ready_setSlot (h.ready holder heq) i hpeer⟩

theorem History.release (h : History l t log) (hi : i < t.count) :
    History l (t.releaseLocked i) (.released i :: log) := by
  refine h.finish (h.counted.release hi) hi (releaseLocked_count t i) (releaseLocked_self t i)
    (fun j hj => ?_) (.inl rfl) nofun
  rw [releaseLocked_of_ne t hj]

theorem History.preempt (h : History l t log) (hi : i ∈ t.active) (hlook : Preemptible l log i) :
    History l (t.preempt i) (.preempted i :: log) := by
  refine h.finish (h.counted.preempt hi) ((h.counted.active i).mp hi).1 (releaseLocked_count t i)
    (preempt_self t i) (fun j hj => ?_) (.inr rfl) fun _ => hlook
  have hother := setSlot_of_ne (t.releaseLocked i) (fun x => { x with closing := true }) hj
  rw [releaseLocked_of_ne t hj] at hother
  exact congrArg Slot.released hother

theorem History.insert (h : History l t log) (now : ℤ) (hroom : Room l t)
    (hroomPeer : RoomPeer l t peer) :
    History l (t.insertSlot now peer) (.acquired t.count :: log) := by
  have hmem : ∀ i,
      (.released i ∈ .acquired t.count :: log ∨ .preempted i ∈ .acquired t.count :: log) ↔
        (.released i ∈ log ∨ .preempted i ∈ log) := by
    intro i
    simp only [mem_cons, reduceCtorEq, false_or]
  refine ⟨h.counted.insertSlot now hroom hroomPeer, fun i => ?_, fun i hi => ?_, fun i hi => ?_,
    fun i older hs => ?_⟩
  · rw [mem_cons, h.acquired i, Mark.acquired.injEq]
    exact (Nat.lt_succ_iff_lt_or_eq.trans or_comm).symm
  · rw [hmem i]
    by_cases hnew : i = t.count
    · subst hnew
      have hslot : (t.insertSlot now peer).slots t.count = ⟨peer, now, false, false, false⟩ :=
        Function.update_self ..
      rw [hslot]
      exact ⟨nofun, fun hmark => absurd (h.known _ hmark) (lt_irrefl _)⟩
    · have hslot : (t.insertSlot now peer).slots i = t.slots i := Function.update_of_ne hnew ..
      rw [hslot]
      have hi' : i < t.count + 1 := hi
      exact h.ended i (by omega)
  · exact (h.known i ((hmem i).mp hi)).trans (Nat.lt_succ_self _)
  · rcases suffix_cons_iff.mp hs with heq | hs
    · cases heq
    · exact h.looks i older hs

/-! ## Steps of a request -/

variable {limit : Limit}

theorem ready_next (hpassed : limit.Passed l t)
    (hroom : limit.reached t l peer = false) : limit.next.Ready l t log peer := by
  cases limit with
  | all =>
    intro hpos
    have hbelow : t.full l = false := hroom
    rw [Table.full, decide_eq_true hpos, Bool.true_and, decide_eq_false_iff_not] at hbelow
    omega
  | client =>
    refine ⟨hpassed, fun hpos _ => ?_⟩
    have hbelow : t.peerFull l peer = false := hroom
    rw [Table.peerFull, decide_eq_true hpos, Bool.true_and, decide_eq_false_iff_not] at hbelow
    omega

theorem ready_preempt (h : Counted l t) (hpassed : limit.Passed l t)
    (hi : i ∈ t.active) (hscope : limit.scope peer = "" ∨ (t.slots i).peer = limit.scope peer) :
    limit.next.Ready l (t.preempt i) log peer := by
  obtain ⟨-, hconns, hby, -⟩ := h.releaseLocked hi
  have hconns' : (t.preempt i).conns = t.conns - 1 := hconns
  cases limit with
  | all =>
    intro hpos
    have hlimit := h.limit hpos
    rw [hconns']
    omega
  | client =>
    refine ⟨fun hpos => ?_, fun hpos hname => ?_⟩
    · have hbelow : t.conns < l.maxProxyConns := hpassed hpos
      rw [hconns']
      omega
    have hpeer : (t.slots i).peer = peer := hscope.resolve_left hname
    have hby' : (t.preempt i).byPeer (t.slots i).peer = t.byPeer (t.slots i).peer - 1 := hby
    have hlimit := h.limitPeer hpos peer hname
    rw [hpeer] at hby'
    rw [hby']
    omega

/-- A request looks at one more slot. -/
theorem Kept.look (h : Kept l w) {now : ℤ} {rest : List ℕ}
    {best : Option (ℕ × ℤ)}
    (hready : (Phase.scan limit now (i :: rest) best).Ready l w.table w.log peer) :
    Kept l (w.look l peer limit now i rest best) := by
  obtain ⟨hpassed, looks, earlier, hscan, hbest⟩ := hready
  refine ⟨h.history.note (fun _ => Mark.noConfusion) (fun _ => Mark.noConfusion)
    fun _ => Mark.noConfusion, ?_⟩
  intro holder hholder
  cases hholder
  refine ⟨hpassed,
    .looked i (w.table.slots i).attached (w.table.slots i).lastActive :: looks, earlier,
    ⟨congrArg (_ :: ·) hscan.split, forall_mem_cons.mpr ⟨rfl, hscan.only⟩⟩, fun j last hj => ?_⟩
  have hold (hj : best = some (j, last)) : j ∈ w.table.active ∧
      (limit.scope peer = "" ∨ (w.table.slots j).peer = limit.scope peer) ∧
      last + l.proxyPreemptIdle ≤ now ∧ .looked j true last ∈
        .looked i (w.table.slots i).attached (w.table.slots i).lastActive :: looks := by
    obtain ⟨hactive, hscope, hlong, hlooked⟩ := hbest j last hj
    exact ⟨hactive, hscope, hlong, mem_cons_of_mem _ hlooked⟩
  by_cases hidle : w.table.idle (now - l.proxyPreemptIdle) (limit.scope peer) i = false
  · rw [if_pos hidle] at hj
    exact hold hj
  rw [if_neg hidle] at hj
  have hnew (heq : (i, (w.table.slots i).lastActive) = (j, last)) : j ∈ w.table.active ∧
      (limit.scope peer = "" ∨ (w.table.slots j).peer = limit.scope peer) ∧
      last + l.proxyPreemptIdle ≤ now ∧ .looked j true last ∈
        .looked i (w.table.slots i).attached (w.table.slots i).lastActive :: looks := by
    cases heq
    rw [Bool.not_eq_false] at hidle
    unfold Table.idle at hidle
    simp only [Bool.and_eq_true, Bool.or_eq_true, decide_eq_true_eq] at hidle
    obtain ⟨⟨⟨hactive, hattached⟩, hscope⟩, hlong⟩ := hidle
    rw [hattached]
    exact ⟨hactive, hscope, by omega, mem_cons_self⟩
  cases best with
  | none => exact hnew (Option.some.inj hj)
  | some =>
    dsimp only at hj
    split_ifs at hj with hless
    · exact hnew (Option.some.inj hj)
    · exact hold hj

theorem Kept.proceed (h : Kept l w) {holder : Holder} (hholder : w.holder = some holder) (now : ℤ)
    (order : List ℕ) : Kept l (w.proceed l holder now order) := by
  have hready := h.ready holder hholder
  have hreject : ∀ limit : Limit, Kept l (w.reject limit) := fun limit =>
    ⟨h.history.note (fun _ => Mark.noConfusion) (fun _ => Mark.noConfusion)
      fun _ => Mark.noConfusion, fun _ hnone => by cases hnone⟩
  obtain ⟨peer, phase⟩ := holder
  cases phase with
  | check limit =>
    have hpassed : limit.Passed l w.table := hready
    simp only [World.proceed]
    split_ifs with hroom hnever
    · exact ⟨h.history, fun holder' heq => by cases heq; exact ready_next hpassed hroom⟩
    · exact hreject limit
    · refine ⟨h.history.note (fun _ => Mark.noConfusion) (fun _ => Mark.noConfusion)
        fun _ => Mark.noConfusion, fun holder' heq => ?_⟩
      cases heq
      exact ⟨hpassed, [], w.log, ⟨rfl, forall_mem_nil _⟩, fun i last hnone => by cases hnone⟩
  | insert =>
    obtain ⟨hroom, hroomPeer⟩ := hready
    exact ⟨h.history.insert now hroom hroomPeer, fun holder' heq => by cases heq⟩
  | scan limit reading rest best =>
    cases rest with
    | cons => exact h.look hready
    | nil =>
      obtain ⟨hpassed, looks, earlier, hscan, hbest⟩ := hready
      cases best with
      | none => exact hreject limit
      | some found =>
        obtain ⟨hactive, hscope, hidle, hlooked⟩ := hbest found.1 found.2 rfl
        refine ⟨h.history.preempt hactive ⟨looks, earlier, reading, found.2, hscan, hlooked, hidle⟩,
          fun holder' heq => ?_⟩
        cases heq
        exact ready_preempt h.history.counted hpassed hactive hscope

theorem step_kept (h : Kept l w) (e : Event) : Kept l (step l w e) := by
  cases e with
  | acquire =>
    simp only [step]
    split
    · exact h
    · exact ⟨h.history, fun holder' heq => by cases heq; trivial⟩
  | proceed now order =>
    simp only [step]
    split
    · rename_i holder hholder
      exact h.proceed hholder now order
    · exact h
  | attach i | touch i =>
    simp only [step]
    split_ifs
    · exact h.setSlot i _ rfl rfl rfl
    · exact h
  | release =>
    simp only [step]
    split_ifs with hfree
    · exact ⟨h.history.release hfree.2, fun holder' heq => by cases hfree.1.symm.trans heq⟩
    · exact h

theorem Counted.sum (h : Counted l t) : t.conns = ∑ peer ∈ t.clients, t.byPeer peer := by
  have hmaps : Set.MapsTo (fun i => (t.slots i).peer) t.active t.clients := by
    intro i hi
    have hown : i ∈ t.active.filter fun j => (t.slots j).peer = (t.slots i).peer :=
      Finset.mem_filter.mpr ⟨hi, rfl⟩
    have hcard := Finset.card_pos.mpr ⟨i, hown⟩
    refine (h.clients _).mpr ?_
    rw [h.byPeer]
    exact_mod_cast hcard
  rw [h.conns, Finset.card_eq_sum_card_fiberwise hmaps, Nat.cast_sum]
  exact Finset.sum_congr rfl fun peer _ => (h.byPeer peer).symm

/-- What holds of slots and counts after a run. -/
structure Accounted (l : Limits) (t : Table) (log : List Mark) : Prop where
  conns : t.conns = t.active.card
  sum : t.conns = ∑ peer ∈ t.clients, t.byPeer peer
  /-- The count of each client. -/
  byPeer : ∀ peer, t.byPeer peer = (t.active.filter fun i => (t.slots i).peer = peer).card
  /-- Only clients with a session have an entry. -/
  clients : ∀ peer ∈ t.clients, 0 < t.byPeer peer
  /-- A slot counts from the moment it is handed out until it is first given back or preempted. -/
  active : ∀ i, i ∈ t.active ↔ .acquired i ∈ log ∧ .released i ∉ log ∧ .preempted i ∉ log
  limit : 0 < l.maxProxyConns → t.conns ≤ l.maxProxyConns
  /-- The limit of each client that has a name. -/
  limitPeer : 0 < l.maxProxyConnsPeer → ∀ peer, peer ≠ "" → t.byPeer peer ≤ l.maxProxyConnsPeer
  /-- A preempted slot had a closer and was idle for long enough when the request that preempts it
  looked at it. -/
  preempted : ∀ i older, .preempted i :: older <:+ log → Preemptible l older i

/-- Slots and counts after every run. -/
theorem run_accounted (l : Limits) (events : List Event) :
    Accounted l (run (step l) .new events).table (run (step l) .new events).log := by
  have hnew : Kept l .new := by
    refine ⟨⟨new_counted l, fun i => ⟨nofun, fun h => absurd h (Nat.not_lt_zero i)⟩,
      fun i hi => absurd hi (Nat.not_lt_zero i), fun i h => ?_, fun i older hs => ?_⟩, nofun⟩
    · rcases h with h | h
      · cases h
      · cases h
    · cases suffix_nil.mp hs
  have hkept : Kept l (run (step l) .new events) :=
    run_invariant (Kept l) (fun w e h _ => step_kept h e) hnew
      (along_of_forall (fun _ _ => trivial) _ _)
  have hhistory := hkept.history
  have hcounted := hhistory.counted
  refine ⟨hcounted.conns, Counted.sum hcounted, hcounted.byPeer,
    fun peer hp => (hcounted.clients peer).mp hp, fun i => ?_, hcounted.limit, hcounted.limitPeer,
    hhistory.looks⟩
  rw [hcounted.active i, hhistory.acquired i, ← not_or]
  refine and_congr_right fun hi => ?_
  rw [← hhistory.ended i hi, Bool.not_eq_true]

end

/-- One session, which may be preempted after ten units of time. -/
def single : Limits := ⟨1, 0, 10⟩

/-- A client has an idle session, and another client asks. Bytes are relayed after the look. -/
def sampleTouch : List Event :=
  [.acquire "10.0.0.1:1000", .proceed 0 [], .proceed 0 [], .proceed 0 [], .attach 0, .touch 0 0,
    .acquire "10.0.0.2:1000", .proceed 100 [0], .proceed 100 [], .touch 0 100, .proceed 100 []]

/-- The session is preempted at the time of its last activity. -/
theorem sampleTouch_preempted :
    (run (step single) .new sampleTouch).log.take 3 =
        [.preempted 0, .looked 0 true 0, .scanned 100] ∧
      ((run (step single) .new sampleTouch).table.slots 0).lastActive = 100 ∧
      ¬ 100 + single.proxyPreemptIdle ≤ 100 := by
  decide +kernel

/-! ## A request that nobody touches -/

/-- What a request that goes on by itself reads of the clock, and the order in which it would visit
the slots, at each of its steps. -/
abbrev Moves := ℕ → ℤ × List ℕ

/-- A request after so many steps of its own. -/
def solo (l : Limits) (w : World) (remoteAddr : String) (moves : Moves) : ℕ → World
  | 0 => step l w (.acquire remoteAddr)
  | n + 1 => step l (solo l w remoteAddr moves n) (.proceed (moves n).1 (moves n).2)

/-- The mark of an answer. -/
def answerMark : Except Rejection ℕ → Mark
  | .ok i => .acquired i
  | .error r => .rejected r

/-- Nobody holds the lock, and the last mark is the answer. -/
structure Answered (w : World) (result : Table × Except Rejection ℕ) : Prop where
  free : w.holder = none
  table : w.table = result.1
  answer : w.log.head? = some (answerMark result.2)

/-- A request that goes on by itself gives up the lock after `n` steps, with the table and the
answer of `acquire` for its own readings and orders, which are those of the steps `place 0`, `place
1` and `place 2`. -/
structure SoloRun (l : Limits) (w : World) (remoteAddr : String) (moves : Moves) (place : ℕ → ℕ)
    (n : ℕ) : Prop where
  first : place 0 = 0
  later : StrictMono place
  busy : ∀ m < n, (solo l w remoteAddr moves m).holder ≠ none
  done : ∀ m, n ≤ m → Answered (solo l w remoteAddr moves m)
    (w.table.acquire l ⟨fun j => (moves (place j)).1, fun j => (moves (place j)).2⟩ remoteAddr)

section

variable {l : Limits} {w w' : World} {moves : Moves} {k k' : ℕ} {peer : String} {limit : Limit}

/-- The request takes its steps from one number to another. -/
inductive Takes (l : Limits) (moves : Moves) : ℕ → World → ℕ → World → Prop
  | refl (k : ℕ) (w : World) : Takes l moves k w k w
  | more {k : ℕ} {w : World} {k' : ℕ} {w' : World} (busy : w.holder ≠ none)
    (rest : Takes l moves (k + 1) (step l w (.proceed (moves k).1 (moves k).2)) k' w') :
    Takes l moves k w k' w'

theorem Takes.trans (h : Takes l moves k w k' w') {n : ℕ} {v : World}
    (h' : Takes l moves k' w' n v) : Takes l moves k w n v := by
  induction h with
  | refl => exact h'
  | more busy rest ih => exact .more busy (ih h')

theorem Takes.one (h : step l w (.proceed (moves k).1 (moves k).2) = w') {holder : Holder}
    (hholder : w.holder = some holder) : Takes l moves k w (k + 1) w' := by
  refine .more (by rw [hholder]; exact Option.some_ne_none _) ?_
  rw [h]
  exact .refl _ _

/-- The steps that a request takes are those of its solo run. -/
theorem Takes.solo {w₀ : World} {remoteAddr : String} (h : Takes l moves k w k' w')
    (hsolo : solo l w₀ remoteAddr moves k = w) : ProxySlotRuns.solo l w₀ remoteAddr moves k' = w' ∧
      ∀ m, k ≤ m → m < k' → (ProxySlotRuns.solo l w₀ remoteAddr moves m).holder ≠ none := by
  induction h with
  | refl => exact ⟨hsolo, fun m hm hlt => absurd hm (not_le.mpr hlt)⟩
  | @more k w k' w' busy rest ih =>
    obtain ⟨hend, hbusy⟩ := ih (by rw [ProxySlotRuns.solo, hsolo])
    refine ⟨hend, fun m hm hlt => ?_⟩
    rcases hm.eq_or_lt with rfl | hm
    · rw [hsolo]
      exact busy
    · exact hbusy m hm hlt

/-- A slot with its last activity. -/
def Table.withLast (victim : Option ℕ) : Option (ℕ × ℤ) :=
  victim.map fun i => (i, (t.slots i).lastActive)

/-- All looks of a request find the session that was idle for longest. -/
theorem takes_looks (l : Limits) (moves : Moves) {now : ℤ} (order : List ℕ) (victim : Option ℕ)
    (hholder : w.holder =
      some ⟨peer, .scan limit now order (Table.withLast w.table victim)⟩) (k : ℕ) :
    ∃ w', Takes l moves k w (k + order.length) w' ∧ w'.table = w.table ∧
      w'.holder = some ⟨peer, .scan limit now [] (Table.withLast w.table
        (order.foldl (w.table.longer (now - l.proxyPreemptIdle) (limit.scope peer)) victim))⟩ := by
  induction order generalizing w victim k with
  | nil => exact ⟨w, .refl _ _, rfl, hholder⟩
  | cons i rest ih =>
    have hstep : step l w (.proceed (moves k).1 (moves k).2) =
        w.look l peer limit now i rest (Table.withLast w.table victim) := by
      simp only [step, hholder, World.proceed]
    have hlook : (w.look l peer limit now i rest (Table.withLast w.table victim)).holder =
        some ⟨peer, .scan limit now rest (Table.withLast w.table
          (w.table.longer (now - l.proxyPreemptIdle) (limit.scope peer) victim i))⟩ := by
      unfold World.look Table.longer
      split_ifs with hidle
      · rfl
      cases victim with
      | none => rfl
      | some =>
        dsimp only [Table.withLast, Option.map]
        split_ifs
        · rfl
        · rfl
    obtain ⟨w', htakes, hw'⟩ := ih _ hlook (k + 1)
    refine ⟨w', (Takes.one hstep hholder).trans ?_, hw'⟩
    rwa [Nat.add_right_comm] at htakes

/-- What a request has done after the check of a limit. -/
structure Checked (w : World) (room : Table × Bool) (peer : String) (limit : Limit) : Prop where
  table : w.table = room.1
  goes : room.2 = true → w.holder = some ⟨peer, limit.next⟩
  rejected : room.2 = false →
    w.holder = none ∧ w.log.head? = some (.rejected limit.rejection)

/-- A request makes room under a limit as `makeRoom` does. -/
theorem takes_check (l : Limits) (moves : Moves)
    (hholder : w.holder = some ⟨peer, .check limit⟩) (k : ℕ) :
    ∃ k' w', k < k' ∧ Takes l moves k w k' w' ∧
      Checked w' (w.table.makeRoom l (limit.reached w.table l peer) (moves k).1 (moves k).2
        (limit.scope peer)) peer limit := by
  have hstep : step l w (.proceed (moves k).1 (moves k).2) =
      if limit.reached w.table l peer = false then { w with holder := some ⟨peer, limit.next⟩ }
      else if l.proxyPreemptIdle ≤ 0 then w.reject limit
      else ⟨w.table, some ⟨peer, .scan limit (moves k).1 (moves k).2 none⟩,
        .scanned (moves k).1 :: w.log⟩ := by
    simp only [step, hholder, World.proceed]
  unfold Table.makeRoom
  cases hreached : limit.reached w.table l peer with
  | false =>
    rw [if_pos hreached] at hstep
    exact ⟨k + 1, _, k.lt_succ_self, .one hstep hholder, rfl, fun _ => rfl, nofun⟩
  | true =>
    rw [if_neg (by rw [hreached]; exact Bool.true_eq_false.mp)] at hstep
    rw [if_pos rfl]
    unfold Table.preemptIdle
    by_cases hnever : l.proxyPreemptIdle ≤ 0
    · rw [if_pos hnever] at hstep ⊢
      exact ⟨k + 1, _, k.lt_succ_self, .one hstep hholder, rfl, nofun, fun _ => ⟨rfl, rfl⟩⟩
    rw [if_neg hnever] at hstep ⊢
    obtain ⟨w', hlooks, htable, hlast⟩ := takes_looks l moves
      (w := ⟨w.table, some ⟨peer, .scan limit (moves k).1 (moves k).2 none⟩,
        .scanned (moves k).1 :: w.log⟩) (moves k).2 none rfl (k + 1)
    have htakes := (Takes.one hstep hholder).trans hlooks
    unfold Table.victim
    generalize hlength : k + 1 + (moves k).2.length = n at htakes
    have hlt : k < n + 1 := by omega
    cases hvictim : (moves k).2.foldl
        (w.table.longer ((moves k).1 - l.proxyPreemptIdle) (limit.scope peer)) none with
    | none =>
      rw [hvictim] at hlast
      have hlook : step l w' (.proceed (moves n).1 (moves n).2) = w'.reject limit := by
        simp only [step, hlast, World.proceed, Table.withLast, Option.map]
      exact ⟨n + 1, _, hlt, htakes.trans (.one hlook hlast), htable, nofun, fun _ => ⟨rfl, rfl⟩⟩
    | some i =>
      rw [hvictim] at hlast
      have hlook : step l w' (.proceed (moves n).1 (moves n).2) =
          ⟨w'.table.preempt i, some ⟨peer, limit.next⟩, .preempted i :: w'.log⟩ := by
        simp only [step, hlast, World.proceed, Table.withLast, Option.map]
      rw [htable] at hlook
      exact ⟨n + 1, _, hlt, htakes.trans (.one hlook hlast), rfl, fun _ => rfl, nofun⟩

/-- The steps at which a request reads the clock. -/
def places (second third : ℕ) : ℕ → ℕ
  | 0 => 0
  | 1 => second
  | j + 2 => third + j

theorem places_strictMono {second third : ℕ} (h : 0 < second) (h' : second < third) :
    StrictMono (places second third) := by
  refine strictMono_nat_of_lt_succ fun j => ?_
  match j with
  | 0 => exact h
  | 1 => exact h'
  | j + 2 => exact Nat.lt_succ_self (third + j)

/-- A request that nobody touches takes its steps until it is answered as by `acquire`. -/
theorem takes_acquire (l : Limits) (w : World) (remoteAddr : String) (moves : Moves) :
    ∃ second third n w', 0 < second ∧ second < third ∧
      Takes l moves 0 { w with holder := some ⟨proxyPeer remoteAddr, .check .all⟩ } n w' ∧
      Answered w' (w.table.acquire l ⟨fun j => (moves (places second third j)).1,
        fun j => (moves (places second third j)).2⟩ remoteAddr) := by
  obtain ⟨k₁, w₁, hk₁, htakes₁, hchecked₁⟩ := takes_check l moves
    (w := { w with holder := some ⟨proxyPeer remoteAddr, .check .all⟩ }) rfl 0
  change Checked w₁ (w.table.makeRoom l (w.table.full l) (moves 0).1 (moves 0).2 "") _ _
    at hchecked₁
  unfold Table.acquire
  dsimp only [places]
  cases hmake₁ : w.table.makeRoom l (w.table.full l) (moves 0).1 (moves 0).2 "" with
  | mk t₁ ok₁ =>
    rw [hmake₁] at hchecked₁
    obtain rfl : w₁.table = t₁ := hchecked₁.table
    cases ok₁ with
    | false =>
      obtain ⟨hholder, hlog⟩ := hchecked₁.rejected rfl
      exact ⟨k₁, k₁ + 1, k₁, w₁, hk₁, k₁.lt_succ_self, htakes₁, hholder, rfl, hlog⟩
    | true =>
      obtain ⟨k₂, w₂, hk₂, htakes₂, hchecked₂⟩ := takes_check l moves
        (hchecked₁.goes rfl) k₁
      change Checked w₂ (w₁.table.makeRoom l (w₁.table.peerFull l (proxyPeer remoteAddr))
        (moves k₁).1 (moves k₁).2 (proxyPeer remoteAddr)) _ _ at hchecked₂
      have htakes := htakes₁.trans htakes₂
      cases hmake₂ : w₁.table.makeRoom l (w₁.table.peerFull l (proxyPeer remoteAddr))
          (moves k₁).1 (moves k₁).2 (proxyPeer remoteAddr) with
      | mk t₂ ok₂ =>
        rw [hmake₂] at hchecked₂
        obtain rfl : w₂.table = t₂ := hchecked₂.table
        refine ⟨k₁, k₂, ?_⟩
        cases ok₂ with
        | false =>
          obtain ⟨hholder, hlog⟩ := hchecked₂.rejected rfl
          refine ⟨k₂, w₂, hk₁, hk₂, htakes, ?_⟩
          dsimp only
          rw [hmake₂]
          exact ⟨hholder, rfl, hlog⟩
        | true =>
          have hgoes : w₂.holder = some ⟨proxyPeer remoteAddr, .insert⟩ := hchecked₂.goes rfl
          have hinsert : step l w₂ (.proceed (moves k₂).1 (moves k₂).2) =
              ⟨w₂.table.insertSlot (moves k₂).1 (proxyPeer remoteAddr), none,
                .acquired w₂.table.count :: w₂.log⟩ := by
            simp only [step, hgoes, World.proceed]
          refine ⟨k₂ + 1, _, hk₁, hk₂, htakes.trans (.one hinsert hgoes), ?_⟩
          dsimp only
          rw [hmake₂]
          exact ⟨rfl, rfl, rfl⟩

/-- Every request that nobody touches does what `acquire` does. -/
def Simulates (l : Limits) (w : World) : Prop :=
  w.holder = none → ∀ (remoteAddr : String) (moves : Moves),
    ∃ place n, SoloRun l w remoteAddr moves place n

/-- The interleaved requests refine `acquire`. -/
theorem solo_acquire (l : Limits) (w : World) : Simulates l w := by
  intro hfree remoteAddr moves
  obtain ⟨second, third, n, w', hsecond, hthird, htakes, hanswered⟩ :=
    takes_acquire l w remoteAddr moves
  have hstart : solo l w remoteAddr moves 0 =
      { w with holder := some ⟨proxyPeer remoteAddr, .check .all⟩ } := by
    simp only [solo, step, hfree]
  obtain ⟨hend, hbusy⟩ := htakes.solo hstart
  refine ⟨places second third, n, rfl, places_strictMono hsecond hthird,
    fun m hm => hbusy m (Nat.zero_le m) hm, fun m hm => ?_⟩
  -- Nothing goes on after the answer.
  have hrest : solo l w remoteAddr moves m = w' := by
    induction m, hm using Nat.le_induction with
    | base => exact hend
    | succ m hm ih => simp only [solo, ih, step, hanswered.free]
  rw [hrest]
  exact hanswered

end

end DaxiangVpn.ProxySlotRuns
