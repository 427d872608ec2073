import DaxiangVpn.HandshakeRelay

/-!
# Safety of the relay that replays a ClientHello

As long as a replay is possible, the buffer holds all that the client gave to a write. So a new
connection that gets it stands where the old one stood, and a connection that lost bytes never
transmits again.
-/

namespace DaxiangVpn.HandshakeRelay

open TransitionRun List Function Nat Bool

/-! ## The replay buffer -/

/-- The buffer holds all that was taken while a replay is possible, and is bounded; the relay is
armed only after a ClientHello. -/
structure Kept (r : Relay) (taken : Bytes) (first : Option Bytes) : Prop where
  replay : r.replayOK = true → r.settled = false → r.replay = taken
  limit : r.replay.length ≤ handshakeReplayLimit
  unseen : r.replayOK = true → r.settled = false → r.seenClient = false → first = none
  armed : r.armed = true → ∃ p, first = some p ∧ looksLikeTLSClientHello p = true

variable {first : Option Bytes} {r : Relay} {taken : Bytes} {conns : ℕ → Conn} {st : State}

theorem hello_or (p : Bytes) (h : ∃ q, first = some q ∧ looksLikeTLSClientHello q = true) :
    ∃ q, first.or (some p) = some q ∧ looksLikeTLSClientHello q = true := by
  obtain ⟨q, rfl, hq⟩ := h
  exact ⟨q, rfl, hq⟩

/-- Without a possible replay only the bound and the first bytes matter. -/
theorem Kept.impossible (hnone : (r.replayOK && !r.settled) = false)
    (hlimit : r.replay.length ≤ handshakeReplayLimit)
    (harmed : r.armed = true → ∃ p, first = some p ∧ looksLikeTLSClientHello p = true) :
    Kept r taken first := by
  have hfalse : r.replayOK = true → r.settled = false → False := by
    intro hok hunsettled
    rw [hok, hunsettled] at hnone
    cases hnone
  exact ⟨fun hok hunsettled => (hfalse hok hunsettled).elim, hlimit,
    fun hok hunsettled => (hfalse hok hunsettled).elim, harmed⟩

theorem Kept.keep {p : Bytes} (hreplay : r.replayOK = true → r.replay = taken)
    (hlimit : r.replay.length ≤ handshakeReplayLimit) (hseen : r.seenClient = true)
    (harmed : r.armed = true → ∃ q, first = some q ∧ looksLikeTLSClientHello q = true) :
    Kept (r.keep p) (taken ++ p) first := by
  unfold Relay.keep
  split_ifs with hok hover
  · exact Kept.impossible rfl (zero_le _) harmed
  · refine ⟨fun _ _ => ?_, ?_, fun _ _ hunseen => ?_, harmed⟩
    · change r.replay ++ p = taken ++ p
      rw [hreplay hok]
    · change (r.replay ++ p).length ≤ handshakeReplayLimit
      rw [length_append]
      omega
    · change r.seenClient = false at hunseen
      cases hseen.symm.trans hunseen
  · refine Kept.impossible ?_ hlimit harmed
    rw [not_eq_true] at hok
    rw [hok]
    rfl

theorem Kept.record (h : Kept r taken first) (p : Bytes) :
    Kept (r.record p) (taken ++ p) (first.or (some p)) := by
  unfold Relay.record
  split_ifs with hpossible
  · rw [and_eq_true, not_eq_true'] at hpossible
    obtain ⟨hok, hunsettled⟩ := hpossible
    have hreplay := h.replay hok hunsettled
    unfold Relay.sniff
    split_ifs with hseen hhello
    · exact Kept.keep (fun _ => hreplay) h.limit hseen fun harmed => hello_or p (h.armed harmed)
    · have hfirst : first = none := h.unseen hok hunsettled (by simpa using hseen)
      refine Kept.keep (fun _ => hreplay) h.limit rfl fun _ => ?_
      exact ⟨p, by rw [hfirst]; rfl, hhello⟩
    · exact Kept.keep nofun (zero_le _) rfl
        fun harmed => hello_or p (h.armed harmed)
  · exact Kept.impossible (by simpa using hpossible) h.limit fun harmed => hello_or p
      (h.armed harmed)

theorem Relay.record_target (r : Relay) (p : Bytes) : (r.record p).target = r.target := by
  unfold Relay.record Relay.keep Relay.sniff
  split_ifs <;> rfl

theorem Kept.settle (h : Kept r taken first) :
    Kept r.settle taken first := Kept.impossible rfl (zero_le _) h.armed

theorem Kept.disarm (h : Kept r taken first) : Kept r.disarm taken first := by
  unfold Relay.disarm
  split_ifs with hdisarms
  · exact Kept.impossible rfl (zero_le _) nofun
  · exact h

theorem Relay.disarm_target (r : Relay) : r.disarm.target = r.target := by
  unfold Relay.disarm
  split_ifs <;> rfl

/-! ## The wires -/

/-- Every connection has received a first part of what was taken. The target that is not dead has
received all of it but the rest that is being written. -/
structure Wire (conns : ℕ → Conn) (target : ℕ) (rest taken : Bytes) : Prop where
  sent : ∀ c, (conns c).sent <+: taken
  live : (conns target).dead = false → (conns target).sent ++ rest = taken

variable {target : ℕ}

theorem Wire.begin (h : Wire conns target [] taken) (p : Bytes) :
    Wire conns target p (taken ++ p) := by
  refine ⟨fun c => (h.sent c).trans (prefix_append taken p), fun hlive => ?_⟩
  have hall := h.live hlive
  rw [append_nil] at hall
  rw [hall]

theorem Wire.transmit {rest : Bytes} (h : Wire conns target rest taken) (n : ℕ) :
    Wire (update conns target ((conns target).transmit rest n)) target
      ((conns target).remains rest n) taken := by
  cases hdead : (conns target).dead with
  | true =>
    have hsame : (conns target).transmit rest n = conns target := if_pos hdead
    have hrest : (conns target).remains rest n = rest := if_pos hdead
    rw [hsame, hrest, update_eq_self]
    exact h
  | false =>
    have hall := h.live hdead
    have hmore : (conns target).transmit rest n =
      { conns target with sent := (conns target).sent ++ rest.take n } :=
      if_neg (by rw [hdead]; exact false_ne_true)
    have hrest : (conns target).remains rest n = rest.drop n :=
      if_neg (by rw [hdead]; exact false_ne_true)
    have hsplit : ((conns target).sent ++ rest.take n) ++ rest.drop n = taken := by
      rw [append_assoc, take_append_drop, hall]
    rw [hmore, hrest]
    refine ⟨fun c => ?_, fun _ => ?_⟩
    · by_cases hc : c = target
      · rw [hc, update_self]
        exact ⟨rest.drop n, hsplit⟩
      · rw [update_of_ne hc]
        exact h.sent c
    · rw [update_self]
      exact hsplit

theorem Wire.fail {rest : Bytes} (h : Wire conns target rest taken) (rest' : Bytes) :
    Wire (update conns target { conns target with dead := true }) target rest' taken := by
  refine ⟨fun c => ?_, fun hlive => ?_⟩
  · by_cases hc : c = target
    · rw [hc, update_self]
      exact h.sent target
    · rw [update_of_ne hc]
      exact h.sent c
  · rw [update_self] at hlive
    cases hlive

theorem Wire.complete {rest : Bytes} (h : Wire conns target rest taken)
    (hcompletes : (conns target).completes rest = true) : Wire conns target [] taken := by
  refine ⟨h.sent, fun hlive => ?_⟩
  rw [Conn.completes, hlive, Bool.false_or, List.isEmpty_iff] at hcompletes
  rw [← hcompletes]
  exact h.live hlive

theorem Wire.swap {c : ℕ} {rest : Bytes} (h : Wire conns target rest taken)
    (hnew : conns c = Conn.new) : Wire conns c taken taken := by
  refine ⟨h.sent, fun _ => ?_⟩
  rw [hnew]
  rfl

theorem Wire.hear {rest : Bytes} (h : Wire conns target rest taken) (c : ℕ) (received : Bytes) :
    Wire (update conns c { conns c with received := received }) target rest taken := by
  have hsame : ∀ x, (update conns c { conns c with received := received } x).sent = (conns x).sent ∧
      (update conns c { conns c with received := received } x).dead = (conns x).dead := by
    intro x
    by_cases hx : x = c
    · rw [hx, update_self]
      exact ⟨rfl, rfl⟩
    · rw [update_of_ne hx]
      exact ⟨rfl, rfl⟩
  refine ⟨fun x => ?_, fun hlive => ?_⟩
  · rw [(hsame x).1]
    exact h.sent x
  · rw [(hsame target).2] at hlive
    rw [(hsame target).1]
    exact h.live hlive

/-! ## Bytes for the targets -/

/-- What the goroutine of the client is still writing. -/
def Client.rest : Client → Bytes
  | .writing _ rest _ => rest
  | _ => []

/-- What the main goroutine is still writing to a target. -/
def Main.rest : Main → Bytes
  | .replaying _ rest => rest
  | _ => []

/-- The goroutine of the client has given all that it read to a write, but for what it holds. -/
def Client.Fed (stream taken : Bytes) : Client → Prop
  | .holding p _ => taken ++ p = stream
  | .closing => taken <+: stream
  | .done => taken <+: stream
  | _ => taken = stream

theorem Client.Fed.part {stream : Bytes} {client : Client} (h : client.Fed stream taken) :
    taken <+: stream := by
  cases client with
  | holding p => exact ⟨p, h⟩
  | closing => exact h
  | done => exact h
  | reading | writing | wrote => exact h ▸ prefix_refl _

/-- A goroutine that holds no lock for a write is not writing to a target. -/
theorem Client.rest_nil {client : Client} (h : client.busy = false) : client.rest = [] := by
  cases client with
  | writing => cases h
  | _ => rfl

/-- A goroutine that holds no lock for a write is not writing to a target. -/
theorem Main.rest_nil {main : Main} (h : main.busy = false) : main.rest = [] := by
  cases main with
  | replaying => cases h
  | _ => rfl

/-- Where the goroutines stand on which connections. -/
structure Places (r : Relay) (client : Client) (main : Main) (tc : ℕ) (conns : ℕ → Conn)
    (used : ℕ) : Prop where
  writing : ∀ c rest ended, client = .writing c rest ended → c = r.target
  replaying : ∀ c rest, main = .replaying c rest → c = r.target
  alone : client.busy = true → main.busy = false
  unused : ∀ c, used ≤ c → conns c = Conn.new
  swapping : ∀ c, main = .swapping c → conns c = Conn.new ∧ c < used ∧ c ≠ r.target
  target : r.target < used
  tc : tc < used

/-- The invariant of the bytes for the targets. -/
structure ToTarget (r : Relay) (client : Client) (main : Main) (tc : ℕ)
    (conns : ℕ → Conn) (used : ℕ) (stream taken : Bytes) (first : Option Bytes) : Prop where
  fed : client.Fed stream taken
  kept : Kept r taken first
  wire : Wire conns r.target (client.rest ++ main.rest) taken
  places : Places r client main tc conns used

section

variable {r : Relay} {client : Client} {main : Main} {tc : ℕ} {conns : ℕ → Conn} {used : ℕ}
  {stream taken : Bytes} {first : Option Bytes}

section

variable (h : ToTarget r client main tc conns used stream taken first)
include h

theorem ToTarget.withRelay {r' : Relay} (hkept : Kept r' taken first)
    (htarget : r'.target = r.target) :
    ToTarget r' client main tc conns used stream taken first := by
  obtain ⟨hfed, -, hwire, hplaces⟩ := h
  refine ⟨hfed, hkept, htarget ▸ hwire, ?_⟩
  obtain ⟨hwriting, hreplaying, halone, hunused, hswapping, hused, htc⟩ := hplaces
  exact ⟨htarget ▸ hwriting, htarget ▸ hreplaying, halone, hunused, htarget ▸ hswapping,
    htarget ▸ hused, htc⟩

/-- The main goroutine goes on when it writes nothing to a target before and after. -/
theorem ToTarget.withMain {main' : Main} (hidle : main.busy = false)
    (hidle' : main'.busy = false := by rfl)
    (hswapping : ∀ c, main' ≠ .swapping c := by rintro _ ⟨⟩) :
    ToTarget r client main' tc conns used stream taken first := by
  obtain ⟨hfed, hkept, hwire, hplaces⟩ := h
  refine ⟨hfed, hkept, ?_, ?_⟩
  · rw [Main.rest_nil hidle', ← Main.rest_nil hidle]
    exact hwire
  · refine ⟨hplaces.writing, ?_, fun _ => hidle', hplaces.unused, fun c hc => absurd hc
      (hswapping c), hplaces.target, hplaces.tc⟩
    rintro c rest rfl
    cases hidle'

/-- The goroutine of the client goes on when it writes nothing before and after. -/
theorem ToTarget.withClient {client' : Client}
    {stream' : Bytes} (hrest : client.rest = []) (hidle : client'.busy = false)
    (hfed : client'.Fed stream' taken) :
    ToTarget r client' main tc conns used stream' taken first := by
  obtain ⟨-, hkept, hwire, hplaces⟩ := h
  refine ⟨hfed, hkept, ?_, ?_⟩
  · rw [Client.rest_nil hidle, ← hrest]
    exact hwire
  · refine ⟨?_, hplaces.replaying, ?_, hplaces.unused, hplaces.swapping, hplaces.target, hplaces.tc⟩
    · rintro c rest ended rfl
      cases hidle
    · intro hbusy
      cases hidle.symm.trans hbusy

end

theorem Places.setConn (h : Places r client main tc conns used) {c : ℕ} (hc : c < used)
    (hnewest : main ≠ .swapping c) (conn : Conn) :
    Places r client main tc (update conns c conn) used := by
  refine ⟨h.writing, h.replaying, h.alone, fun x hx => ?_, fun x hx => ?_, h.target, h.tc⟩
  · have hne : x ≠ c := by omega
    rw [update_of_ne hne]
    exact h.unused x hx
  · have hne : x ≠ c := by
      rintro rfl
      exact hnewest hx
    rw [update_of_ne hne]
    exact h.swapping x hx

theorem Places.target_ne (h : Places r client main tc conns used) : main ≠ .swapping r.target :=
  fun hmain => (h.swapping r.target hmain).2.2 rfl

end

def State.ToTarget (st : State) : Prop :=
  HandshakeRelay.ToTarget st.relay st.client st.main st.tc st.conns st.used st.stream
    st.taken st.first

theorem clientRead_toTarget (h : st.ToTarget) (p : Bytes) (ended : Bool) :
    (clientRead st p ended).ToTarget := by
  unfold clientRead
  split
  · rename_i hclient
    have hrest : st.client.rest = [] := by rw [hclient]; rfl
    have hfed := h.fed
    split_ifs with hnil hended
    · exact h.withClient hrest rfl hfed.part
    · exact h
    · rw [hclient] at hfed
      refine h.withClient hrest rfl ?_
      change st.taken ++ p = st.stream ++ p
      rw [hfed]
  · exact h

theorem clientPrepare_toTarget (h : st.ToTarget) : (clientPrepare st).ToTarget := by
  unfold clientPrepare
  split
  · rename_i p ended hclient
    have hrest : st.client.rest = [] := by rw [hclient]; rfl
    split_ifs with hbusy hclosed
    · exact h
    · exact h.withClient hrest rfl h.fed.part
    rw [not_eq_true] at hbusy
    have htarget : (st.relay.record p).target = st.relay.target := Relay.record_target st.relay p
    have hfed := h.fed
    rw [hclient] at hfed
    have hwire := h.wire
    rw [hrest, Main.rest_nil hbusy] at hwire
    refine ⟨hfed, h.kept.record p, ?_, ?_⟩
    · change Wire st.conns (st.relay.record p).target (p ++ st.main.rest) (st.taken ++ p)
      rw [htarget, Main.rest_nil hbusy, append_nil]
      exact hwire.begin p
    · refine ⟨?_, htarget ▸ h.places.replaying, fun _ => hbusy, h.places.unused,
        htarget ▸ h.places.swapping, htarget ▸ h.places.target, h.places.tc⟩
      intro c rest ended hwriting
      cases hwriting
      exact htarget.symm
  · exact h

theorem clientTransmit_toTarget (h : st.ToTarget) (n : ℕ) : (clientTransmit st n).ToTarget := by
  unfold clientTransmit
  split
  · rename_i c rest ended hclient
    have hc : c = st.relay.target := h.places.writing c rest ended hclient
    have hidle : st.main.busy = false := h.places.alone (by rw [hclient]; rfl)
    have hfed := h.fed
    rw [hclient] at hfed
    have hwire := h.wire
    rw [hclient, Main.rest_nil hidle, append_nil] at hwire
    have hplaces := h.places.setConn h.places.target h.places.target_ne
      ((st.conns st.relay.target).transmit rest n)
    subst hc
    refine ⟨hfed, h.kept, ?_, ?_⟩
    · change Wire _ _ (_ ++ st.main.rest) _
      rw [Main.rest_nil hidle, append_nil]
      exact hwire.transmit n
    · refine ⟨?_, hplaces.replaying, fun _ => hidle, hplaces.unused, hplaces.swapping,
        hplaces.target, hplaces.tc⟩
      intro c' rest' ended' hwriting
      cases hwriting
      rfl
  · exact h

theorem clientComplete_toTarget (h : st.ToTarget) (ok : Bool) :
    (clientComplete st ok).ToTarget := by
  unfold clientComplete
  split
  · rename_i c rest ended hclient
    have hc : c = st.relay.target := h.places.writing c rest ended hclient
    have hidle : st.main.busy = false := h.places.alone (by rw [hclient]; rfl)
    have hfed := h.fed
    rw [hclient] at hfed
    have hwire := h.wire
    rw [hclient, Main.rest_nil hidle, append_nil] at hwire
    subst hc
    split_ifs with hok hcompletes
    · refine ⟨hfed, h.kept, ?_, ?_⟩
      · change Wire _ _ ([] ++ st.main.rest) _
        rw [Main.rest_nil hidle, append_nil]
        exact hwire.complete hcompletes
      · exact ⟨nofun, h.places.replaying, fun _ => hidle,
          h.places.unused, h.places.swapping, h.places.target, h.places.tc⟩
    · exact h
    · have hplaces := h.places.setConn h.places.target h.places.target_ne
        { st.conns st.relay.target with dead := true }
      refine ⟨hfed, h.kept, hwire.fail _, ?_⟩
      exact ⟨nofun, hplaces.replaying, fun _ => hidle,
        hplaces.unused, hplaces.swapping, hplaces.target, hplaces.tc⟩
  · exact h

theorem clientFinish_toTarget (h : st.ToTarget) : (clientFinish st).ToTarget := by
  unfold clientFinish
  split
  · rename_i failed ended hclient
    have hrest : st.client.rest = [] := by rw [hclient]; rfl
    have hfed := h.fed
    split_ifs with hends
    · exact h.withClient hrest rfl hfed.part
    · rw [hclient] at hfed
      exact h.withClient hrest rfl hfed
  · exact h

theorem Kept.close (h : Kept r taken first) :
    Kept { r with closed := true } taken first := ⟨h.replay, h.limit, h.unseen, h.armed⟩

theorem clientClose_toTarget (h : st.ToTarget) : (clientClose st).ToTarget := by
  unfold clientClose
  split
  · rename_i hclient
    have hrest : st.client.rest = [] := by rw [hclient]; rfl
    split_ifs with hfree
    · refine ToTarget.withRelay (r := st.relay) ?_ h.kept.close rfl
      exact h.withClient hrest rfl h.fed.part
    · exact h
  · exact h

theorem ReadEnd.next_busy (r : ReadEnd) : r.next.busy = false := by
  cases r <;> rfl

theorem ReadEnd.next_ne (r : ReadEnd) (c : ℕ) : r.next ≠ .swapping c := by
  cases r <;> exact Main.noConfusion

section

variable (h : st.ToTarget)
include h

theorem mainRead_toTarget (p : Bytes) (r : ReadEnd) : (mainRead st p r).ToTarget := by
  unfold mainRead
  split
  · rename_i hmain
    have hidle : st.main.busy = false := by rw [hmain]; rfl
    split_ifs with hnil
    · exact h.withMain hidle r.next_busy r.next_ne
    · refine ToTarget.withMain ?_ hidle
      refine ⟨h.fed, h.kept, h.wire.hear st.tc _, h.places.setConn h.places.tc ?_ _⟩
      rw [hmain]
      exact Main.noConfusion
  · exact h

theorem mainSettle_toTarget : (mainSettle st).ToTarget := by
  unfold mainSettle
  split
  · rename_i p r hmain
    have hidle : st.main.busy = false := by rw [hmain]; rfl
    split_ifs with hanswered hfree
    · exact h.withMain hidle
    · refine ToTarget.withRelay (r := st.relay) ?_ h.kept.settle rfl
      exact h.withMain hidle
    · exact h
  · exact h

theorem mainForward_toTarget (n : ℕ) (ok : Bool) : (mainForward st n ok).ToTarget := by
  unfold mainForward
  split
  · rename_i p r hmain
    have hidle : st.main.busy = false := by rw [hmain]; rfl
    split_ifs with hok
    · exact h.withMain hidle r.next_busy r.next_ne
    · exact h.withMain hidle
  · exact h

theorem mainJudge_toTarget : (mainJudge st).ToTarget := by
  unfold mainJudge
  split
  · rename_i timeout hmain
    have hidle : st.main.busy = false := by rw [hmain]; rfl
    split_ifs with hanswered hfree hstop htimeout
    · exact h.withMain hidle
    · exact h.withMain hidle
    · exact h.withMain hidle
    · exact h.withMain hidle
    · exact h
  · exact h

theorem mainDisarm_toTarget : (mainDisarm st).ToTarget := by
  unfold mainDisarm
  split
  · rename_i hmain
    have hidle : st.main.busy = false := by rw [hmain]; rfl
    have htarget : st.relay.disarm.target = st.relay.target := Relay.disarm_target st.relay
    split_ifs with hfree hdisarms
    · refine ToTarget.withRelay (r := st.relay) ?_ h.kept.disarm htarget
      exact h.withMain hidle
    · refine ToTarget.withRelay (r := st.relay) ?_ h.kept.disarm htarget
      exact h.withMain hidle
    · exact h
  · exact h

theorem mainDial_toTarget (ok : Bool) : (mainDial st ok).ToTarget := by
  unfold mainDial
  split
  · rename_i hmain
    have hidle : st.main.busy = false := by rw [hmain]; rfl
    split_ifs with hok
    · have hwire := h.wire
      rw [Main.rest_nil hidle] at hwire
      have htarget := h.places.target
      refine ⟨h.fed, h.kept, hwire, h.places.writing, nofun, fun _ => rfl,
        fun c hc => h.places.unused c (le_of_succ_le hc), fun c hc => ?_, lt_succ_of_lt htarget,
        lt_succ_of_lt h.places.tc⟩
      cases hc
      exact ⟨h.places.unused st.used le_rfl, lt_succ_self st.used, htarget.ne'⟩
    · exact h.withMain hidle
  · exact h

theorem mainSwap_toTarget : (mainSwap st).ToTarget := by
  unfold mainSwap
  split
  · rename_i c hmain
    have hidle : st.main.busy = false := by rw [hmain]; rfl
    obtain ⟨hnew, hused, -⟩ := h.places.swapping c hmain
    split_ifs with hbusy hswaps
    · exact h
    · rw [not_eq_true] at hbusy
      have hreplay : st.relay.replay = st.taken := by
        simp only [Relay.swaps, not_eq_true', or_eq_false_iff, not_eq_false'] at hswaps
        exact h.kept.replay hswaps.1.2 hswaps.2
      refine ⟨h.fed, ⟨h.kept.replay, h.kept.limit, h.kept.unseen, h.kept.armed⟩, ?_, ?_⟩
      · change Wire st.conns c (st.client.rest ++ st.relay.replay) st.taken
        rw [Client.rest_nil hbusy, nil_append, hreplay]
        exact h.wire.swap hnew
      refine ⟨?_, ?_, ?_, h.places.unused, nofun, hused, h.places.tc⟩
      · intro c' rest ended hwriting
        rw [hwriting] at hbusy
        cases hbusy
      · intro c' rest hreplaying
        cases hreplaying
        rfl
      · intro hwriting
        cases hbusy.symm.trans hwriting
    · exact h.withMain hidle
  · exact h

theorem State.ToTarget.client_idle {c : ℕ} {rest : Bytes}
    (hmain : st.main = .replaying c rest) : st.client.busy = false := by
  cases hbusy : st.client.busy with
  | false => rfl
  | true =>
    have hidle := h.places.alone hbusy
    rw [hmain] at hidle
    cases hidle

theorem mainTransmit_toTarget (n : ℕ) : (mainTransmit st n).ToTarget := by
  unfold mainTransmit
  split
  · rename_i c rest hmain
    have hc : c = st.relay.target := h.places.replaying c rest hmain
    have hidle : st.client.busy = false := h.client_idle hmain
    have hwire := h.wire
    rw [hmain, Client.rest_nil hidle, nil_append] at hwire
    have hplaces := h.places.setConn h.places.target h.places.target_ne
      ((st.conns st.relay.target).transmit rest n)
    subst hc
    refine ⟨h.fed, h.kept, ?_, ?_⟩
    · change Wire _ _ (st.client.rest ++ _) _
      rw [Client.rest_nil hidle, nil_append]
      exact hwire.transmit n
    refine ⟨hplaces.writing, ?_, ?_, hplaces.unused, nofun, hplaces.target, hplaces.tc⟩
    · intro c' rest' hreplaying
      cases hreplaying
      rfl
    · intro hbusy
      exact absurd (hidle.symm.trans hbusy) false_ne_true
  · exact h

theorem mainComplete_toTarget (ok : Bool) : (mainComplete st ok).ToTarget := by
  unfold mainComplete
  split
  · rename_i c rest hmain
    have hc : c = st.relay.target := h.places.replaying c rest hmain
    have hidle : st.client.busy = false := h.client_idle hmain
    have hwire := h.wire
    rw [hmain, Client.rest_nil hidle, nil_append] at hwire
    subst hc
    split_ifs with hok hcompletes
    · refine ⟨h.fed, h.kept, ?_, ?_⟩
      · change Wire _ _ (st.client.rest ++ []) _
        rw [Client.rest_nil hidle, nil_append]
        exact hwire.complete hcompletes
      · exact ⟨h.places.writing, nofun, fun _ => rfl, h.places.unused,
          nofun, h.places.target, h.places.target⟩
    · exact h
    · have hplaces := h.places.setConn h.places.target h.places.target_ne
        { st.conns st.relay.target with dead := true }
      refine ⟨h.fed, h.kept, hwire.fail _, ?_⟩
      exact ⟨hplaces.writing, nofun, fun _ => rfl, hplaces.unused,
        nofun, hplaces.target, hplaces.tc⟩
  · exact h

theorem mainClose_toTarget : (mainClose st).ToTarget := by
  unfold mainClose
  split
  · rename_i hmain
    have hidle : st.main.busy = false := by rw [hmain]; rfl
    split_ifs with hfree
    · refine ToTarget.withRelay (r := st.relay) ?_ h.kept.close rfl
      exact h.withMain hidle
    · exact h
  · exact h

theorem cancel_toTarget : (cancel st).ToTarget := by
  unfold cancel
  split_ifs with hsecure
  · exact h.withRelay h.kept.close rfl
  · exact h

theorem step_toTarget (event : Event) : (step st event).ToTarget := by
  cases event with
  | clientRead p ended => exact clientRead_toTarget h p ended
  | clientPrepare => exact clientPrepare_toTarget h
  | clientTransmit n => exact clientTransmit_toTarget h n
  | clientComplete ok => exact clientComplete_toTarget h ok
  | clientFinish => exact clientFinish_toTarget h
  | clientClose => exact clientClose_toTarget h
  | mainRead p r => exact mainRead_toTarget h p r
  | mainSettle => exact mainSettle_toTarget h
  | mainForward n ok => exact mainForward_toTarget h n ok
  | mainJudge => exact mainJudge_toTarget h
  | mainDisarm => exact mainDisarm_toTarget h
  | mainDial ok => exact mainDial_toTarget h ok
  | mainSwap => exact mainSwap_toTarget h
  | mainTransmit n => exact mainTransmit_toTarget h n
  | mainComplete ok => exact mainComplete_toTarget h ok
  | mainClose => exact mainClose_toTarget h
  | cancel => exact cancel_toTarget h

end

theorem start_toTarget (secure : Bool) : (start secure).ToTarget := by
  refine ⟨rfl, ⟨fun _ _ => rfl, zero_le _, fun _ _ _ => rfl, nofun⟩,
    ⟨fun _ => nil_prefix, fun _ => rfl⟩, ?_⟩
  exact ⟨nofun, nofun, nofun,
    fun _ _ => rfl, nofun, one_pos, one_pos⟩

/-! ## Bytes for the client -/

/-- Bytes that were read and are not written yet. -/
def Main.hand : Main → Bytes
  | .got p _ => p
  | .forwarding p _ => p
  | _ => []

/-- Bytes were read and the relay may not be settled yet. -/
def Main.heard : Main → Bool
  | .got _ _ => true
  | _ => false

/-- The main goroutine has not given up. -/
def Main.active : Main → Bool
  | .closing => false
  | .done => false
  | _ => true

/-- The main goroutine handles a silent target. -/
def Main.retries : Main → Bool
  | .disarming => true
  | .dialing => true
  | .swapping _ => true
  | .replaying _ _ => true
  | _ => false

theorem Main.active_of_retries {main : Main} (h : main.retries = true) : main.active = true := by
  cases main with
  | closing => cases h
  | done => cases h
  | _ => rfl

def Hello (first : Option Bytes) : Prop := ∃ p, first = some p ∧ looksLikeTLSClientHello p = true

structure ToClient (main : Main) (tc dials : ℕ) (answered : Bool) (received : ℕ → Bytes)
    (forwarded : Bytes) (redials : List Redial) (first : Option Bytes) : Prop where
  silent : answered = false → main.heard = false → ∀ c, received c = []
  /-- All that was read from the connection was written, but for what is at hand. -/
  whole : main.active = true → forwarded ++ main.hand = received tc
  part : forwarded <+: received tc
  forwarding : ∀ p r, main = .forwarding p r → answered = true
  unanswered : main.retries = true → answered = false
  counted : main.active = true → redials.length + 1 = dials
  bound : redials.length + 1 ≤ handshakeMaxDials
  dialing : main = .dialing → dials < handshakeMaxDials ∧ Hello first
  /-- A dial happened only while all targets were silent and after a ClientHello. -/
  safe : ∀ r ∈ redials, (∀ c, r.received c = []) ∧ Hello r.first

section

variable {main : Main} {tc dials : ℕ} {answered : Bool} {received : ℕ → Bytes} {forwarded : Bytes}
  {redials : List Redial} {first : Option Bytes}

section

variable (h : ToClient main tc dials answered received forwarded redials first)
include h

theorem ToClient.withFirst {first' : Option Bytes} (hfirst : Hello first → Hello first') :
    ToClient main tc dials answered received forwarded redials first' :=
  ⟨h.silent, h.whole, h.part, h.forwarding, h.unanswered, h.counted, h.bound,
    fun hdialing => ⟨(h.dialing hdialing).1, hfirst (h.dialing hdialing).2⟩, h.safe⟩

theorem ToClient.withMain {main' : Main}
    (hheard : main.heard = false) (hhand : main.hand = []) (hactive : main.active = true)
    (hretries : main'.retries = true → answered = false) (hhand' : main'.hand = [] := by rfl)
    (hforwarding : ∀ p r, main' ≠ .forwarding p r := by rintro _ _ ⟨⟩)
    (hdialing : main' = .dialing → dials < handshakeMaxDials ∧ Hello first := by rintro ⟨⟩) :
    ToClient main' tc dials answered received forwarded redials first := by
  refine ⟨fun hunanswered _ => h.silent hunanswered hheard, fun _ => ?_, h.part,
    fun p r hmain => absurd hmain (hforwarding p r), hretries, fun _ => h.counted hactive, h.bound,
    hdialing, h.safe⟩
  rw [hhand', ← hhand]
  exact h.whole hactive

theorem ToClient.giveUp {main' : Main} (hheard : main.heard = false)
    (hactive : main'.active = false) :
    ToClient main' tc dials answered received forwarded redials first := by
  refine ⟨fun hunanswered _ => h.silent hunanswered hheard, ?_, h.part, ?_, ?_, ?_,
    h.bound, ?_, h.safe⟩
  · intro hmain
    exact absurd (hactive.symm.trans hmain) false_ne_true
  · rintro p r rfl
    cases hactive
  · intro hretries
    exact absurd (hactive.symm.trans (Main.active_of_retries hretries)) false_ne_true
  · intro hmain
    exact absurd (hactive.symm.trans hmain) false_ne_true
  · rintro rfl
    cases hactive

end

end

def State.ToClient (st : State) : Prop :=
  HandshakeRelay.ToClient st.main st.tc st.dials st.answered
    (fun c => (st.conns c).received) st.forwarded st.redials
    st.first

theorem received_update (conns : ℕ → Conn) (c : ℕ) (conn : Conn)
    (hsame : conn.received = (conns c).received) :
    (fun x => (update conns c conn x).received) = fun x => (conns x).received := by
  funext x
  by_cases hx : x = c
  · rw [hx, update_self, hsame]
  · rw [update_of_ne hx]

theorem Conn.transmit_received (conn : Conn) (rest : Bytes) (n : ℕ) :
    (conn.transmit rest n).received = conn.received := by
  unfold Conn.transmit
  split_ifs <;> rfl

section

variable (h : st.ToClient)
include h

theorem clientRead_toClient (p : Bytes) (ended : Bool) : (clientRead st p ended).ToClient := by
  unfold clientRead
  split
  · split_ifs <;> exact h
  · exact h

theorem clientPrepare_toClient : (clientPrepare st).ToClient := by
  unfold clientPrepare
  split
  · rename_i p ended hclient
    split_ifs with hbusy hclosed
    · exact h
    · exact h
    · exact h.withFirst (hello_or p)
  · exact h

theorem clientTransmit_toClient (n : ℕ) : (clientTransmit st n).ToClient := by
  unfold clientTransmit
  split
  · rename_i c rest ended hclient
    have hsame := received_update st.conns c _ ((st.conns c).transmit_received rest n)
    unfold State.ToClient State.setConn
    rw [hsame]
    exact h
  · exact h

theorem clientComplete_toClient (ok : Bool) : (clientComplete st ok).ToClient := by
  unfold clientComplete
  split
  · rename_i c rest ended hclient
    split_ifs with hok hcompletes
    · exact h
    · exact h
    · have hsame := received_update st.conns c { st.conns c with dead := true } rfl
      unfold State.ToClient State.setConn
      rw [hsame]
      exact h
  · exact h

theorem clientFinish_toClient : (clientFinish st).ToClient := by
  unfold clientFinish
  split
  · split_ifs <;> exact h
  · exact h

theorem clientClose_toClient : (clientClose st).ToClient := by
  unfold clientClose
  split
  · split_ifs <;> exact h
  · exact h

end

theorem ReadEnd.next_hand (r : ReadEnd) : r.next.hand = [] := by
  cases r <;> rfl

theorem ReadEnd.next_retries (r : ReadEnd) : r.next.retries = false := by
  cases r <;> rfl

theorem ReadEnd.next_forwarding (r : ReadEnd) (p : Bytes) (r' : ReadEnd) :
    r.next ≠ .forwarding p r' := by
  cases r <;> exact Main.noConfusion

theorem ReadEnd.next_dialing (r : ReadEnd) : r.next ≠ .dialing := by
  cases r <;> exact Main.noConfusion

section

variable (h : st.ToClient)
include h

theorem mainRead_toClient (p : Bytes) (r : ReadEnd) : (mainRead st p r).ToClient := by
  unfold mainRead
  split
  · rename_i hmain
    have hactive : st.main.active = true := by rw [hmain]; rfl
    have hwhole := h.whole hactive
    have hcounted := h.counted hactive
    split_ifs with hnil
    · refine h.withMain (by rw [hmain]; rfl) (by rw [hmain]; rfl) hactive ?_ r.next_hand
        r.next_forwarding
        fun hdialing => absurd hdialing r.next_dialing
      rw [r.next_retries]
      intro hfalse
      cases hfalse
    · rw [hmain] at hwhole
      have hall : st.forwarded ++ p = (st.conns st.tc).received ++ p := by
        rw [← hwhole]
        exact congrArg (· ++ p) (append_nil _).symm
      unfold State.ToClient State.setConn
      refine ⟨nofun, fun _ => ?_, ?_, nofun,
        nofun, fun _ => hcounted, h.bound, nofun, h.safe⟩
      · dsimp only
        rw [update_self]
        exact hall
      · dsimp only
        rw [update_self]
        exact ⟨p, hall⟩
  · exact h

theorem mainSettle_toClient : (mainSettle st).ToClient := by
  unfold mainSettle
  split
  · rename_i p r hmain
    have hactive : st.main.active = true := by rw [hmain]; rfl
    have hwhole := h.whole hactive
    rw [hmain] at hwhole
    have hnext : HandshakeRelay.ToClient (.forwarding p r) st.tc st.dials true
      (fun c => (st.conns c).received)
        st.forwarded st.redials st.first :=
      ⟨nofun, fun _ => hwhole, h.part, fun _ _ _ => rfl, nofun,
        fun _ => h.counted hactive, h.bound, nofun, h.safe⟩
    split_ifs with hanswered hfree
    · rw [← hanswered] at hnext
      exact hnext
    · exact hnext
    · exact h
  · exact h

theorem mainForward_toClient (n : ℕ) (ok : Bool) : (mainForward st n ok).ToClient := by
  unfold mainForward
  split
  · rename_i p r hmain
    have hactive : st.main.active = true := by rw [hmain]; rfl
    have hanswered := h.forwarding p r hmain
    have hwhole : st.forwarded ++ p = (st.conns st.tc).received := by
      have hall := h.whole hactive
      rw [hmain] at hall
      exact hall
    have hsilent : st.answered = false → ∀ c, (st.conns c).received = [] := by
      intro hunanswered
      exact absurd (hunanswered.symm.trans hanswered) false_ne_true
    split_ifs with hok
    · refine ⟨fun hunanswered _ => hsilent hunanswered, fun _ => ?_,
        ⟨[], by rw [append_nil]; exact hwhole⟩, fun p' r' hfalse => absurd hfalse
          (r.next_forwarding p' r'), ?_, fun _ => h.counted hactive, h.bound,
        fun hfalse => absurd hfalse r.next_dialing, h.safe⟩
      · change (st.forwarded ++ p) ++ r.next.hand = _
        rw [r.next_hand, append_nil]
        exact hwhole
      · change r.next.retries = true → _
        rw [r.next_retries]
        exact nofun
    · refine ⟨fun hunanswered _ => hsilent hunanswered, nofun, ?_,
        nofun, nofun,
          nofun, h.bound,
        nofun, h.safe⟩
      rw [← hwhole]
      exact (prefix_append_right_inj st.forwarded).mpr ( take_prefix n p)
  · exact h

theorem mainJudge_toClient (hkept : Kept st.relay st.taken st.first) : (mainJudge st).ToClient := by
  unfold mainJudge
  split
  · rename_i timeout hmain
    have hactive : st.main.active = true := by rw [hmain]; rfl
    have hheard : st.main.heard = false := by rw [hmain]; rfl
    have hhand : st.main.hand = [] := by rw [hmain]; rfl
    split_ifs with hanswered hfree hstop htimeout
    · exact h.giveUp hheard rfl
    · exact h.withMain hheard hhand hactive fun _ => by simpa using hanswered
    · exact h.giveUp hheard rfl
    · refine h.withMain hheard hhand hactive (fun _ => by simpa using hanswered) rfl
        (fun _ _ => Main.noConfusion) fun _ => ?_
      simp only [Relay.retryable, not_eq_true, or_eq_false_iff, not_eq_false', and_eq_true,
        decide_eq_false_iff_not, not_le] at hstop
      exact ⟨hstop.2, hkept.armed hstop.1.1.1.1.1⟩
    · exact h
  · exact h

theorem mainDisarm_toClient : (mainDisarm st).ToClient := by
  unfold mainDisarm
  split
  · rename_i hmain
    have hheard : st.main.heard = false := by rw [hmain]; rfl
    split_ifs with hfree hdisarms
    · exact h.withMain hheard (by rw [hmain]; rfl) (by rw [hmain]; rfl) nofun
    · exact h.giveUp hheard rfl
    · exact h
  · exact h

theorem mainDial_toClient (ok : Bool) : (mainDial st ok).ToClient := by
  unfold mainDial
  split
  · rename_i hmain
    have hactive : st.main.active = true := by rw [hmain]; rfl
    have hunanswered : st.answered = false := h.unanswered (by rw [hmain]; rfl)
    have hsilent := h.silent hunanswered (by rw [hmain]; rfl)
    obtain ⟨hallowed, hhello⟩ := h.dialing hmain
    have hcounted := h.counted hactive
    have hwhole := h.whole hactive
    rw [hmain] at hwhole
    have hbound : st.redials.length + 1 + 1 ≤ handshakeMaxDials := by omega
    have hsafe : ∀ r ∈ (⟨fun c => (st.conns c).received, st.first⟩ : Redial) :: st.redials,
        (∀ c, r.received c = []) ∧ Hello r.first := by
      intro r hr
      rcases mem_cons.mp hr with rfl | hr
      · exact ⟨hsilent, hhello⟩
      · exact h.safe r hr
    split_ifs with hok
    · exact ⟨fun _ _ => hsilent, fun _ => hwhole, h.part, nofun, fun _ => hunanswered,
        fun _ => congrArg (· + 1) hcounted, hbound, nofun, hsafe⟩
    · exact ⟨fun _ _ => hsilent, nofun, h.part, nofun,
        fun _ => hunanswered, nofun, hbound, nofun, hsafe⟩
  · exact h

theorem mainSwap_toClient : (mainSwap st).ToClient := by
  unfold mainSwap
  split
  · rename_i c hmain
    have hheard : st.main.heard = false := by rw [hmain]; rfl
    have hunanswered : st.answered = false := h.unanswered (by rw [hmain]; rfl)
    split_ifs with hbusy hswaps
    · exact h
    · exact h.withMain hheard (by rw [hmain]; rfl) (by rw [hmain]; rfl) fun _ => hunanswered
    · exact h.giveUp hheard rfl
  · exact h

theorem mainTransmit_toClient (n : ℕ) : (mainTransmit st n).ToClient := by
  unfold mainTransmit
  split
  · rename_i c rest hmain
    have hunanswered : st.answered = false := h.unanswered (by rw [hmain]; rfl)
    have hsame := received_update st.conns c _ ((st.conns c).transmit_received rest n)
    unfold State.ToClient State.setConn
    rw [hsame]
    exact h.withMain (by rw [hmain]; rfl) (by rw [hmain]; rfl)
      (by rw [hmain]; rfl) fun _ => hunanswered
  · exact h

theorem mainComplete_toClient (ok : Bool) : (mainComplete st ok).ToClient := by
  unfold mainComplete
  split
  · rename_i c rest hmain
    have hheard : st.main.heard = false := by rw [hmain]; rfl
    have hactive : st.main.active = true := by rw [hmain]; rfl
    have hunanswered : st.answered = false := h.unanswered (by rw [hmain]; rfl)
    have hsilent := h.silent hunanswered hheard
    have hnothing : st.forwarded = [] := by
      have hpart := h.part
      rw [hsilent st.tc] at hpart
      exact prefix_nil.mp hpart
    split_ifs with hok hcompletes
    · refine ⟨fun _ _ => hsilent, fun _ => ?_, ?_, nofun,
        nofun, fun _ => h.counted hactive, h.bound, nofun, h.safe⟩
      · change st.forwarded ++ [] = (st.conns c).received
        rw [hnothing]
        exact (hsilent c).symm
      · change st.forwarded <+: (st.conns c).received
        rw [hnothing]
        exact nil_prefix
    · exact h
    · have hsame := received_update st.conns c { st.conns c with dead := true } rfl
      unfold State.ToClient State.setConn
      rw [hsame]
      exact h.giveUp hheard rfl
  · exact h

theorem mainClose_toClient : (mainClose st).ToClient := by
  unfold mainClose
  split
  · rename_i hmain
    split_ifs with hfree
    · exact h.giveUp (by rw [hmain]; rfl) rfl
    · exact h
  · exact h

theorem cancel_toClient : (cancel st).ToClient := by
  unfold cancel
  split_ifs <;> exact h

theorem step_toClient (hkept : Kept st.relay st.taken st.first) (event : Event) :
    (step st event).ToClient := by
  cases event with
  | clientRead p ended => exact clientRead_toClient h p ended
  | clientPrepare => exact clientPrepare_toClient h
  | clientTransmit n => exact clientTransmit_toClient h n
  | clientComplete ok => exact clientComplete_toClient h ok
  | clientFinish => exact clientFinish_toClient h
  | clientClose => exact clientClose_toClient h
  | mainRead p r => exact mainRead_toClient h p r
  | mainSettle => exact mainSettle_toClient h
  | mainForward n ok => exact mainForward_toClient h n ok
  | mainJudge => exact mainJudge_toClient h hkept
  | mainDisarm => exact mainDisarm_toClient h
  | mainDial ok => exact mainDial_toClient h ok
  | mainSwap => exact mainSwap_toClient h
  | mainTransmit n => exact mainTransmit_toClient h n
  | mainComplete ok => exact mainComplete_toClient h ok
  | mainClose => exact mainClose_toClient h
  | cancel => exact cancel_toClient h

end

theorem start_toClient (secure : Bool) : (start secure).ToClient :=
  ⟨fun _ _ _ => rfl, fun _ => rfl, nil_prefix, nofun,
    nofun, fun _ => rfl, succ_le_succ (zero_le 2), nofun,
    nofun⟩

/-! ## Whole runs -/

theorem run_inv (secure : Bool) (events : List Event) :
    (run step (start secure) events).ToTarget ∧ (run step (start secure) events).ToClient := by
  refine run_invariant (fun st : State => st.ToTarget ∧ st.ToClient)
    (fun st event h (_ : True) => ?_)
    ⟨start_toTarget secure, start_toClient secure⟩ (along_of_forall (fun _ _ => trivial) _ events)
  exact ⟨step_toTarget h.1 event, step_toClient h.2 h.1.kept event⟩

/-- After every run of the relay in either mode: each target has received a first part of the
client's bytes; the client got a first part of the bytes of one target; each redial happened while
no target had sent a byte and after a ClientHello; all dials are at most `handshakeMaxDials`; and
the replay buffer is within `handshakeReplayLimit`. -/
theorem run_replaySafe (secure : Bool) (events : List Event) :
    let st := run step (start secure) events
    (∀ c, (st.conns c).sent <+: st.stream) ∧ (∃ c, st.forwarded <+: (st.conns c).received) ∧
      (∀ r ∈ st.redials, (∀ c, r.received c = []) ∧
        ∃ p, r.first = some p ∧ looksLikeTLSClientHello p = true) ∧
      1 + st.redials.length ≤ handshakeMaxDials ∧
      st.relay.replay.length ≤ handshakeReplayLimit := by
  obtain ⟨htarget, hclient⟩ := run_inv secure events
  have hbound := hclient.bound
  refine ⟨fun c => (htarget.wire.sent c).trans htarget.fed.part,
    ⟨_, hclient.part⟩, hclient.safe, ?_, htarget.kept.limit⟩
  rw [add_comm]
  exact hbound

/-- A ClientHello, of which the first target gets four bytes. The second target gets all of it and
answers. -/
def sampleRetry : List Event :=
  [.clientRead [0x16, 3, 1, 0, 2, 1, 0] false, .clientPrepare, .clientTransmit 4,
    .clientComplete false, .clientFinish, .mainRead [] .timeout, .mainJudge, .mainDial true,
    .mainSwap, .mainTransmit 5, .mainTransmit 2, .mainComplete true, .mainRead [0x16, 3, 3] .more,
    .mainSettle, .mainForward 0 true]

example :
    let st := run step (start true) sampleRetry
    (st.conns 0).sent = [0x16, 3, 1, 0] ∧ (st.conns 1).sent = st.stream ∧ st.forwarded =
      (st.conns 1).received ∧
      st.redials.length = 1 := by
  decide +kernel

end DaxiangVpn.HandshakeRelay
