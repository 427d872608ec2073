import Mathlib.Tactic

/-!
# Slots of the CONNECT proxy

Every CONNECT session takes a slot. A new session that meets the limit of all sessions or the
limit of its client may take the place of an idle one. The two limits are checked one after the
other, and each check preempts on its own. All slots that were ever handed out are kept with the
start of their closers, which the program does not do.
-/

namespace DaxiangVpn.ProxySlots

open Function Bool Finset

/-! ## Clients -/

/-- The part of a text before the last colon, and the part after it. -/
def splitLastColon (s : List Char) : Option (List Char × List Char) :=
  match s.reverse.span (· ≠ ':') with
  | (_, []) => none
  | (after, _ :: before) => some (before.reverse, after.reverse)

/-- `net.SplitHostPort`; the host only. -/
def splitHostPort (s : List Char) : Option (List Char) :=
  match splitLastColon s with
  | none => none
  | some (host, port) =>
    match s with
    | '[' :: inner =>
      match inner.span (· ≠ ']') with
      | (_, []) => none
      | (name, _ :: rest) =>
        if rest ≠ ':' :: port then none
        else if '[' ∈ inner ∨ ']' ∈ rest then none
        else some name
    | _ => if ':' ∈ host then none else if '[' ∈ s ∨ ']' ∈ s then none else some host

/-- `proxyPeer`: the host of a remote address, or all of it. -/
def proxyPeer (remoteAddr : String) : String :=
  match splitHostPort remoteAddr.toList with
  | none => remoteAddr
  | some host => String.ofList host

/-! ## The table -/

/-- One counted session. -/
structure Slot where
  peer : String
  /-- Time of the last relayed bytes. -/
  lastActive : ℤ
  /-- Piping has started, so a closer is set. -/
  attached : Bool
  /-- The slot was given back. -/
  released : Bool
  closing : Bool

/-- The configured limits. -/
structure Limits where
  /-- Most sessions; not positive for no limit. -/
  maxProxyConns : ℤ
  /-- Most sessions of a client; not positive for no limit. -/
  maxProxyConnsPeer : ℤ
  /-- Idle time after which a session may be preempted; not positive for never. -/
  proxyPreemptIdle : ℤ

/-- Slots and counts of the session manager. -/
structure Table where
  /-- All slots ever handed out. -/
  slots : ℕ → Slot
  count : ℕ
  /-- Slots in use. -/
  active : Finset ℕ
  conns : ℤ
  clients : Finset String
  /-- Sessions of each client; zero without an entry. -/
  byPeer : String → ℤ
  peak : ℤ
  /-- Most sessions of each client so far. -/
  peakByPeer : String → ℤ
  preemptions : ℕ

/-- What a call meets: readings of the clock, and the order in which the slots are visited. -/
structure Env where
  clock : ℕ → ℤ
  /-- Order of the slots at each look. -/
  order : ℕ → List ℕ

variable (t : Table) (l : Limits)

/-- One slot changes. -/
def Table.setSlot (i : ℕ) (f : Slot → Slot) : Table :=
  { t with slots := update t.slots i (f (t.slots i)) }

/-- `releaseProxySlotLocked`. -/
def Table.releaseLocked (i : ℕ) : Table :=
  if (t.slots i).released = true then t
  else
    { t.setSlot i fun x => { x with released := true } with
      active := t.active.erase i
      conns := if 0 < t.conns then t.conns - 1 else t.conns
      clients := if t.byPeer (t.slots i).peer ≤ 1 then t.clients.erase (t.slots i).peer
        else t.clients
      byPeer := update t.byPeer (t.slots i).peer
        (if t.byPeer (t.slots i).peer ≤ 1 then 0 else t.byPeer (t.slots i).peer - 1) }

/-- A session that may be preempted: of one client, or of any when the client is empty. -/
def Table.idle (cutoff : ℤ) (peer : String) (i : ℕ) : Bool :=
  decide (i ∈ t.active) && (t.slots i).attached &&
    (decide (peer = "") || decide ((t.slots i).peer = peer)) &&
    decide ((t.slots i).lastActive ≤ cutoff)

/-- The session that was idle for longer. -/
def Table.longer (cutoff : ℤ) (peer : String) (victim : Option ℕ) (i : ℕ) : Option ℕ :=
  if t.idle cutoff peer i = false then victim
  else match victim with
    | none => some i
    | some j => if (t.slots i).lastActive < (t.slots j).lastActive then some i else victim

/-- The session that was idle for longest. -/
def Table.victim (cutoff : ℤ) (peer : String) (order : List ℕ) : Option ℕ :=
  order.foldl (t.longer cutoff peer) none

/-- A session is preempted, and its closer starts. -/
def Table.preempt (i : ℕ) : Table :=
  { (t.releaseLocked i).setSlot i (fun x => { x with closing := true }) with
    preemptions := t.preemptions + 1 }

/-- `preemptIdleProxySlotLocked`. -/
def Table.preemptIdle (now : ℤ) (order : List ℕ) (peer : String) :
    Table × Bool :=
  if l.proxyPreemptIdle ≤ 0 then (t, false)
  else match t.victim (now - l.proxyPreemptIdle) peer order with
    | none => (t, false)
    | some i => (t.preempt i, true)

/-- Reasons to reject a session. -/
inductive Rejection
  | busy
  | busyForClient
  deriving DecidableEq

/-- The text of the answer. -/
def Rejection.text : Rejection → String
  | .busy => "proxy busy"
  | .busyForClient => "proxy busy for client"

/-- The limit of all sessions is reached. -/
def Table.full (t : Table) (l : Limits) : Bool :=
  decide (0 < l.maxProxyConns) && decide (l.maxProxyConns ≤ t.conns)

/-- The limit of the client is reached. -/
def Table.peerFull (peer : String) : Bool :=
  decide (0 < l.maxProxyConnsPeer) && decide (l.maxProxyConnsPeer ≤ t.byPeer peer)

/-- A check of one limit. -/
def Table.makeRoom (reached : Bool) (now : ℤ) (order : List ℕ)
    (peer : String) : Table × Bool :=
  if reached then t.preemptIdle l now order peer else (t, true)

/-- A new slot is handed out. -/
def Table.insertSlot (now : ℤ) (peer : String) : Table :=
  { t with
    slots := update t.slots t.count ⟨peer, now, false, false, false⟩
    count := t.count + 1
    active := insert t.count t.active
    conns := t.conns + 1
    clients := insert peer t.clients
    byPeer := update t.byPeer peer (t.byPeer peer + 1)
    peak := max t.peak (t.conns + 1)
    peakByPeer := update t.peakByPeer peer (max (t.peakByPeer peer) (t.byPeer peer + 1)) }

/-- `acquireProxySlot`. -/
def Table.acquire (env : Env) (remoteAddr : String) :
    Table × Except Rejection ℕ :=
  let peer := proxyPeer remoteAddr
  match t.makeRoom l (t.full l) (env.clock 0) (env.order 0) "" with
  | (t, false) => (t, .error .busy)
  | (t, true) =>
    match t.makeRoom l (t.peerFull l peer) (env.clock 1) (env.order 1) peer with
    | (t, false) => (t, .error .busyForClient)
    | (t, true) => (t.insertSlot (env.clock 2) peer, .ok t.count)

/-- No session. -/
def Table.new : Table :=
  ⟨fun _ => ⟨"", 0, false, true, false⟩, 0, ∅, 0, ∅, fun _ => 0, 0, fun _ => 0, 0⟩

theorem setSlot_self (t : Table) (i : ℕ) (f : Slot → Slot) :
    (t.setSlot i f).slots i = f (t.slots i) :=
  update_self ..

theorem setSlot_of_ne (t : Table) {i j : ℕ} (f : Slot → Slot) (h : j ≠ i) :
    (t.setSlot i f).slots j = t.slots j :=
  update_of_ne h ..

theorem releaseLocked_self (t : Table) (i : ℕ) : ((t.releaseLocked i).slots i).released = true := by
  unfold Table.releaseLocked
  split
  · assumption
  · exact congrArg Slot.released (setSlot_self t i fun x => { x with released := true })

theorem preempt_self (t : Table) (i : ℕ) : ((t.preempt i).slots i).released = true := by
  have hself := setSlot_self (t.releaseLocked i) i fun x => { x with closing := true }
  exact (congrArg Slot.released hself).trans (releaseLocked_self t i)

/-! ## Rejections -/

/-- No slot is released, no closer starts, and the counts stay. -/
structure Undisturbed (t t' : Table) : Prop where
  released : ∀ i, (t'.slots i).released = (t.slots i).released
  closing : ∀ i, (t'.slots i).closing = (t.slots i).closing
  conns : t'.conns = t.conns
  byPeer : t'.byPeer = t.byPeer

/-- The limit of all sessions is reached and an idle session is preempted for it, but the client is
still at its own limit then and has no idle session. -/
def Disturbs (t : Table) (env : Env) (peer : String) : Prop :=
  t.full l = true ∧ 0 < l.proxyPreemptIdle ∧
    ∃ v, t.victim (env.clock 0 - l.proxyPreemptIdle) "" (env.order 0) = some v ∧
      (t.preempt v).peerFull l peer = true ∧
      (t.preempt v).victim (env.clock 1 - l.proxyPreemptIdle) peer (env.order 1) = none

section

variable {t t' : Table} {l : Limits} {now : ℤ} {order : List ℕ} {peer : String} {reached : Bool}

/-- A request that preempts for nothing. -/
theorem Disturbs.acquire {env : Env} {remoteAddr : String}
    (h : Disturbs l t env (proxyPeer remoteAddr)) : ∃ v,
    t.victim (env.clock 0 - l.proxyPreemptIdle) "" (env.order 0) = some v ∧
      t.acquire l env remoteAddr = (t.preempt v, .error .busyForClient) := by
  obtain ⟨hfull, hpos, v, hv, hpeer, hnone⟩ := h
  refine ⟨v, hv, ?_⟩
  have hnever : ¬ l.proxyPreemptIdle ≤ 0 := not_le.mpr hpos
  simp [Table.acquire, Table.makeRoom, Table.preemptIdle, hfull, hnever, hv, hpeer, hnone]

end

/-! ## Counts of a run -/

/-- The counts are those of the slots in use, and the limits hold. An empty client name stands for
all clients in a preemption, so its own limit is not kept. -/
structure Counted (l : Limits) (t : Table) : Prop where
  active : ∀ i, i ∈ t.active ↔ i < t.count ∧ (t.slots i).released = false
  conns : t.conns = t.active.card
  byPeer : ∀ peer, t.byPeer peer = (t.active.filter fun i => (t.slots i).peer = peer).card
  clients : ∀ peer, peer ∈ t.clients ↔ 0 < t.byPeer peer
  closing : ∀ i, i < t.count → (t.slots i).closing = true → (t.slots i).released = true
  limit : 0 < l.maxProxyConns → t.conns ≤ l.maxProxyConns
  limitPeer : 0 < l.maxProxyConnsPeer → ∀ peer, peer ≠ "" → t.byPeer peer ≤ l.maxProxyConnsPeer

section

variable {t : Table} {l : Limits} {now : ℤ} {order : List ℕ} {peer : String}

/-- A change of a slot that keeps its client and whether it is in use. -/
theorem Counted.setSlot (h : Counted l t) (i : ℕ) {f : Slot → Slot}
    (hpeer : (f (t.slots i)).peer = (t.slots i).peer)
    (hreleased : (f (t.slots i)).released = (t.slots i).released)
    (hclosing : (f (t.slots i)).closing = true → (t.slots i).closing = true ∨
    (t.slots i).released = true) :
    Counted l (t.setSlot i f) := by
  have hp : ∀ j, ((t.setSlot i f).slots j).peer = (t.slots j).peer := by
    intro j
    by_cases hj : j = i
    · subst hj
      rw [setSlot_self, hpeer]
    · rw [setSlot_of_ne t f hj]
  have hr : ∀ j, ((t.setSlot i f).slots j).released = (t.slots j).released := by
    intro j
    by_cases hj : j = i
    · subst hj
      rw [setSlot_self, hreleased]
    · rw [setSlot_of_ne t f hj]
  refine ⟨fun j => ?_, h.conns, fun name => ?_, h.clients, fun j hj hc => ?_, h.limit, h.limitPeer⟩
  · rw [hr]
    exact h.active j
  · simp only [hp]
    exact h.byPeer name
  rw [hr]
  by_cases hji : j = i
  · subst hji
    rw [setSlot_self] at hc
    rcases hclosing hc with hold | hold
    · exact h.closing j hj hold
    · exact hold
  · rw [setSlot_of_ne t f hji] at hc
    exact h.closing j hj hc

theorem Counted.releaseLocked (h : Counted l t) {i : ℕ} (hi : i ∈ t.active) :
    Counted l (t.releaseLocked i) ∧ (t.releaseLocked i).conns = t.conns - 1 ∧
      (t.releaseLocked i).byPeer (t.slots i).peer = t.byPeer (t.slots i).peer - 1 ∧
      ((t.releaseLocked i).slots i).released = true ∧ (t.releaseLocked i).count = t.count := by
  have hlive := ((h.active i).mp hi).2
  have hcard : 0 < t.active.card := card_pos.mpr ⟨i, hi⟩
  have hown : i ∈ t.active.filter fun j => (t.slots j).peer = (t.slots i).peer :=
    mem_filter.mpr ⟨hi, rfl⟩
  have hpeercard := card_pos.mpr ⟨i, hown⟩
  have hconns := h.conns
  have hby := h.byPeer (t.slots i).peer
  unfold Table.releaseLocked
  rw [if_neg (by rw [hlive]; exact false_ne_true), if_pos (by omega)]
  have hless : (if t.byPeer (t.slots i).peer ≤ 1 then 0 else t.byPeer (t.slots i).peer - 1) =
      t.byPeer (t.slots i).peer - 1 := by
    split <;> omega
  rw [hless]
  have hpeer : ∀ j, ((t.setSlot i fun x => { x with released := true }).slots j).peer =
    (t.slots j).peer := by
    intro j
    by_cases hj : j = i
    · subst hj
      rw [setSlot_self]
    · rw [setSlot_of_ne t _ hj]
  refine ⟨⟨fun j => ?_, ?_, fun name => ?_, fun name => ?_, fun j hj hc => ?_, fun hpos => ?_,
    fun hpos name hname => ?_⟩, rfl, update_self .., ?_, rfl⟩
  · dsimp only
    by_cases hj : j = i
    · subst hj
      rw [setSlot_self]
      exact ⟨fun hmem => absurd rfl (ne_of_mem_erase hmem), fun hboth => by cases hboth.2⟩
    · rw [setSlot_of_ne t _ hj, mem_erase, h.active j]
      exact ⟨fun hmem => hmem.2, fun hmem => ⟨hj, hmem⟩⟩
  · dsimp only
    rw [card_erase_of_mem hi]
    omega
  · dsimp only
    simp only [hpeer]
    rw [filter_erase]
    by_cases hname : name = (t.slots i).peer
    · subst hname
      rw [update_self, card_erase_of_mem hown]
      omega
    · rw [update_of_ne hname, erase_eq_of_notMem, h.byPeer name]
      exact fun hmem => hname (mem_filter.mp hmem).2.symm
  · dsimp only
    by_cases hname : name = (t.slots i).peer
    · subst hname
      rw [update_self]
      split_ifs with hlast
      · exact ⟨fun hmem => absurd rfl (ne_of_mem_erase hmem), fun hpos => by omega⟩
      · rw [h.clients]
        omega
    · rw [update_of_ne hname, ← h.clients name]
      split_ifs
      · exact mem_erase.trans (and_iff_right hname)
      · exact Iff.rfl
  · dsimp only at hc hj ⊢
    by_cases hji : j = i
    · subst hji
      rw [setSlot_self]
    · rw [setSlot_of_ne t _ hji] at hc ⊢
      exact h.closing j hj hc
  · have := h.limit hpos
    dsimp only
    omega
  · dsimp only
    have hbound := h.limitPeer hpos name hname
    by_cases hpn : name = (t.slots i).peer
    · subst hpn
      rw [update_self]
      omega
    · rw [update_of_ne hpn]
      exact hbound
  · dsimp only
    rw [setSlot_self]

section

variable (h : Counted l t)
include h

theorem Counted.preempt {i : ℕ} (hi : i ∈ t.active) : Counted l (t.preempt i) := by
  obtain ⟨hcounted, -, -, hreleased, -⟩ := h.releaseLocked hi
  have hclosed := hcounted.setSlot i (f := fun x => { x with closing := true }) rfl rfl
    fun _ => .inr hreleased
  exact ⟨hclosed.active, hclosed.conns, hclosed.byPeer, hclosed.clients, hclosed.closing,
    hclosed.limit, hclosed.limitPeer⟩

theorem Counted.insertSlot (now : ℤ) (hroom : 0 < l.maxProxyConns → t.conns < l.maxProxyConns)
    (hroomPeer : 0 < l.maxProxyConnsPeer → peer ≠ "" → t.byPeer peer < l.maxProxyConnsPeer) :
    Counted l (t.insertSlot now peer) := by
  have hnew : t.count ∉ t.active := fun hmem => absurd ((h.active _).mp hmem).1 (lt_irrefl _)
  have hold : ∀ j ∈ t.active, j ≠ t.count := fun j hj heq => hnew (heq ▸ hj)
  unfold Table.insertSlot
  refine ⟨fun j => ?_, ?_, fun name => ?_, fun name => ?_, fun j hj hc => ?_, fun hpos => ?_,
    fun hpos name hname => ?_⟩
  · dsimp only
    by_cases hj : j = t.count
    · subst hj
      rw [update_self]
      exact ⟨fun _ => ⟨Nat.lt_succ_self _, rfl⟩, fun _ => mem_insert_self _ _⟩
    rw [update_of_ne hj, mem_insert, h.active j]
    constructor
    · rintro (heq | ⟨hlt, hr⟩)
      · exact absurd heq hj
      · exact ⟨hlt.trans (Nat.lt_succ_self _), hr⟩
    · rintro ⟨hlt, hr⟩
      exact .inr ⟨by omega, hr⟩
  · dsimp only
    rw [card_insert_of_notMem hnew, h.conns]
    push_cast
    rfl
  · dsimp only
    have hsame : (t.active.filter fun j => (update t.slots t.count
        ⟨peer, now, false, false, false⟩ j).peer = name) =
          t.active.filter fun j => (t.slots j).peer = name := by
      refine filter_congr fun j hj => ?_
      rw [update_of_ne (hold j hj)]
    have hself : (update t.slots t.count ⟨peer, now, false, false, false⟩ t.count).peer = peer := by
      rw [update_self]
    rw [filter_insert]
    by_cases hname : name = peer
    · subst hname
      rw [if_pos hself, hsame, update_self, card_insert_of_notMem, h.byPeer name]
      · push_cast
        rfl
      · exact fun hmem => hnew (mem_filter.mp hmem).1
    · rw [if_neg fun heq => hname (heq.symm.trans hself), hsame, update_of_ne hname]
      exact h.byPeer name
  · dsimp only
    rw [mem_insert]
    by_cases hname : name = peer
    · subst hname
      have hcount := h.byPeer name
      rw [update_self]
      exact ⟨fun _ => by omega, fun _ => .inl rfl⟩
    · rw [update_of_ne hname, ← h.clients name]
      exact or_iff_right hname
  · dsimp only at hj hc ⊢
    by_cases hji : j = t.count
    · subst hji
      rw [update_self] at hc
      cases hc
    · rw [update_of_ne hji] at hc ⊢
      exact h.closing j (by omega) hc
  · have := hroom hpos
    dsimp only
    omega
  · dsimp only
    by_cases hpn : name = peer
    · subst hpn
      have := hroomPeer hpos hname
      rw [update_self]
      omega
    · rw [update_of_ne hpn]
      exact h.limitPeer hpos name hname

/-- A slot may be given back any number of times. -/
theorem Counted.release {i : ℕ} (hi : i < t.count) : Counted l (t.releaseLocked i) := by
  cases hreleased : (t.slots i).released with
  | true =>
    have hsame : t.releaseLocked i = t := if_pos hreleased
    rw [hsame]
    exact h
  | false => exact (h.releaseLocked ((h.active i).mpr ⟨hi, hreleased⟩)).1

end

theorem new_counted (l : Limits) : Counted l .new := by
  refine ⟨fun i => ?_, rfl, fun peer => rfl, fun peer => ?_, fun i hi => absurd hi
    (Nat.not_lt_zero i), fun hpos => hpos.le, fun hpos peer _ => hpos.le⟩
  · exact ⟨fun hmem => absurd hmem (notMem_empty i), fun hboth => absurd hboth.1
      (Nat.not_lt_zero i)⟩
  · exact ⟨fun h => absurd h (notMem_empty peer), nofun⟩

end

end DaxiangVpn.ProxySlots
