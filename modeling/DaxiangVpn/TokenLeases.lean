import DaxiangVpn.HexTexts
import DaxiangVpn.TransitionRun

/-!
# Leases of bootstrap tokens

A bootstrap claims its token for its source address, and ends the claim later by a rollback or a
commit, in any order with other bootstraps. A claim remembers the lease it replaced; a rollback
walks back over claims that were rolled back before. Claims and the nodes of their history are kept
by number, which stands for their addresses; the program drops those that nothing refers to. The
version counter of sixty-four bits is a natural number.
-/

namespace DaxiangVpn.TokenLeases

open HexTexts TransitionRun Function Nat

/-! ## Claims -/

structure Lease where
  sourceIP : String
  seenAt : ℤ
  version : ℕ
  /-- Node of the history; none once the claim was committed. -/
  node : Option ℕ

def Lease.zero : Lease := ⟨"", 0, 0, none⟩

/-- What a claim remembers. -/
structure Node where
  previous : Lease
  existed : Bool
  /-- The claim was rolled back. -/
  failed : Bool
  committed : Bool

structure Claim where
  token : String
  current : Lease
  changed : Bool

/-- The receipt of a call that claims nothing. -/
def Claim.zero : Claim := ⟨"", .zero, false⟩

/-- Leases, nodes and receipts. -/
structure Server where
  tokenLeases : String → Option Lease
  tokenLeaseVersion : ℕ
  nodes : ℕ → Node
  /-- Receipts of granted claims; a claim has the node of its number. -/
  claims : ℕ → Claim
  count : ℕ

/-- A server without leases. -/
def Server.new : Server :=
  ⟨fun _ => none, 0, fun _ => ⟨.zero, false, false, false⟩, fun _ => .zero, 0⟩

def Server.held (s : Server) (ttl : ℤ) (token sourceIP : String) (now : ℤ) : Bool :=
  (s.tokenLeases token).any fun lease =>
    decide (lease.sourceIP ≠ sourceIP) && decide (now - lease.seenAt < ttl)

/-- The lease of a new claim. -/
def Server.next (s : Server) (sourceIP : String) (now : ℤ) : Lease :=
  ⟨sourceIP, now, s.tokenLeaseVersion + 1, some s.count⟩

/-- Record a new claim. -/
def Server.grant (s : Server) (token sourceIP : String) (now : ℤ) : Server :=
  { s with
    tokenLeases := update s.tokenLeases token (some (s.next sourceIP now))
    tokenLeaseVersion := s.tokenLeaseVersion + 1
    nodes := update s.nodes s.count
      ⟨(s.tokenLeases token).getD .zero, (s.tokenLeases token).isSome, false, false⟩
    claims := update s.claims s.count ⟨token, s.next sourceIP now, true⟩
    count := s.count + 1 }

def Server.claimTokenReceipt (s : Server) (ttl : ℤ) (token sourceIP : String) (now : ℤ) :
    Server × Bool × Claim :=
  if trimSpace token = "" ∨ trimSpace sourceIP = "" ∨ ttl ≤ 0 then (s, true, .zero)
  else if s.held ttl (trimSpace token) (trimSpace sourceIP) now then (s, false, .zero)
  else (s.grant (trimSpace token) (trimSpace sourceIP) now, true,
    ⟨trimSpace token, s.next (trimSpace sourceIP) now, true⟩)

/-- The loop of a rollback: skip leases whose claims were rolled back. A node refers to earlier
ones only, so the number of nodes is enough fuel. -/
def skip (nodes : ℕ → Node) : ℕ → Lease → Bool → Lease × Bool
  | 0, previous, existed => (previous, existed)
  | fuel + 1, previous, existed =>
    match existed, previous.node with
    | true, some n =>
      if (nodes n).failed then skip nodes fuel (nodes n).previous (nodes n).existed
      else (previous, existed)
    | _, _ => (previous, existed)

/-- A restored lease forgets the node of a committed claim. -/
def forget (nodes : ℕ → Node) (l : Lease) : Lease :=
  match l.node with
  | some n => if (nodes n).committed then { l with node := none } else l
  | none => l

def Server.setNode (s : Server) (n : ℕ) (f : Node → Node) : Server :=
  { s with nodes := update s.nodes n (f (s.nodes n)) }

def Server.setLease (s : Server) (token : String) (l : Option Lease) : Server :=
  { s with tokenLeases := update s.tokenLeases token l }

/-- The token has the lease of the claim. -/
def Server.isCurrent (s : Server) (c : Claim) : Bool :=
  (s.tokenLeases c.token).any fun l => decide (l.version = c.current.version)

/-- Restore the lease before a claim that was rolled back. -/
def Server.restore (s : Server) (token : String) (n : ℕ) : Server :=
  let r := skip s.nodes s.count (s.nodes n).previous (s.nodes n).existed
  s.setLease token (if r.2 then some (forget s.nodes r.1) else none)

def Server.rollbackTokenClaim (s : Server) (c : Claim) : Server :=
  match c.changed, c.current.node with
  | true, some n =>
    if (s.nodes n).committed ∨ (s.nodes n).failed then s
    else
      let s := s.setNode n fun x => { x with failed := true }
      if s.isCurrent c then s.restore c.token n else s
  | _, _ => s

def Server.commitTokenClaim (s : Server) (c : Claim) : Server :=
  match c.changed, c.current.node with
  | true, some n =>
    if (s.nodes n).failed ∨ (s.nodes n).committed then s
    else
      let s := s.setNode n fun x =>
        { x with committed := true, previous := .zero, existed := false }
      if s.isCurrent c then
        s.setLease c.token ((s.tokenLeases c.token).map fun l => { l with node := none })
      else s
  | _, _ => s

/-- What happens next. -/
inductive Event
  | claim (token sourceIP : String) (now : ℤ)
  /-- A bootstrap rolls its claim back. -/
  | rollback (i : ℕ)
  | commit (i : ℕ)

/-- One step. Only granted claims are ended. -/
def step (ttl : ℤ) (s : Server) : Event → Server
  | .claim token sourceIP now => (s.claimTokenReceipt ttl token sourceIP now).1
  | .rollback i => if i < s.count then s.rollbackTokenClaim (s.claims i) else s
  | .commit i => if i < s.count then s.commitTokenClaim (s.claims i) else s

/-! ## The history of a token -/

def Server.rolledBack (s : Server) (i : ℕ) : Prop := (s.nodes i).failed = true

/-- A lease is the one of a claim. Its node may be forgotten once the claim was committed. -/
structure Names (s : Server) (token : String) (j : ℕ) (l : Lease) : Prop where
  token : (s.claims j).token = token
  source : l.sourceIP = (s.claims j).current.sourceIP
  seen : l.seenAt = (s.claims j).current.seenAt
  version : l.version = (s.claims j).current.version
  node : l.node = some j ∨ l.node = none ∧ (s.nodes j).committed = true

/-- All claims of the token in a range were rolled back. -/
def Gone (s : Server) (token : String) (first last : ℕ) : Prop :=
  ∀ k, first ≤ k → k < last → (s.claims k).token = token → s.rolledBack k

/-- What a claim remembers: the last claim before it that was not rolled back, or one after
that which was rolled back since. -/
def Before (s : Server) (token : String) (i : ℕ) (l : Lease) : Bool → Prop
  | false => Gone s token 0 i
  | true => ∃ j < i, Names s token j l ∧ Gone s token (j + 1) i

/-- The last claim of the token below a bound that was not rolled back. -/
def Latest (s : Server) (token : String) (i : ℕ) (l : Lease) : Bool → Prop
  | false => Gone s token 0 i
  | true => ∃ j < i, Names s token j l ∧ ¬ s.rolledBack j ∧ Gone s token (j + 1) i

/-- What holds of claims and nodes. -/
structure History (s : Server) : Prop where
  own : ∀ i < s.count, (s.claims i).changed = true ∧ (s.claims i).current.node = some i
  versions : ∀ i j, i < j → j < s.count → (s.claims i).current.version <
    (s.claims j).current.version
  top : ∀ i < s.count, (s.claims i).current.version ≤ s.tokenLeaseVersion
  once : ∀ i < s.count, s.rolledBack i → (s.nodes i).committed = false
  /-- A claim that was not committed remembers what was before it. -/
  previous : ∀ i < s.count, (s.nodes i).committed = false →
    Before s (s.claims i).token i (s.nodes i).previous (s.nodes i).existed

/-- What holds in every reachable state. -/
structure Inv (s : Server) : Prop extends History s where
  lease : ∀ token, Latest s token s.count ((s.tokenLeases token).getD .zero)
    (s.tokenLeases token).isSome

variable {existed : Bool}

section

variable {s s' : Server} {token : String} {l : Lease} {i j n : ℕ}

/-- Claims that were rolled back stay so. -/
structure Later (s s' : Server) (n : ℕ) : Prop where
  claims : ∀ k < n, s'.claims k = s.claims k
  failed : ∀ k < n, s.rolledBack k → s'.rolledBack k
  committed : ∀ k < n, (s.nodes k).committed = true → (s'.nodes k).committed = true

theorem Names.later (h : Names s token j l) (hl : Later s s' n) (hj : j < n) :
    Names s' token j l := by
  have hclaim := hl.claims j hj
  refine ⟨by rw [hclaim]; exact h.token, by rw [hclaim]; exact h.source,
    by rw [hclaim]; exact h.seen,
    by rw [hclaim]; exact h.version, ?_⟩
  rcases h.node with hsome | ⟨hnone, hcommitted⟩
  · exact .inl hsome
  · exact .inr ⟨hnone, hl.committed j hj hcommitted⟩

theorem Gone.later {first last : ℕ} (h : Gone s token first last) (hl : Later s s' n)
    (hn : last ≤ n) :
    Gone s' token first last := by
  intro k hfirst hlast htoken
  rw [hl.claims k (hlast.trans_le hn)] at htoken
  exact hl.failed k (hlast.trans_le hn) (h k hfirst hlast htoken)

theorem Before.later (h : Before s token i l existed) (hl : Later s s' n) (hn : i ≤ n) :
    Before s' token i l existed := by
  cases existed with
  | false => exact Gone.later h hl hn
  | true =>
    obtain ⟨j, hj, hnames, hgone⟩ := h
    exact ⟨j, hj, hnames.later hl (hj.trans_le hn), hgone.later hl hn⟩

theorem Latest.extend (h : Latest s token i l existed) (hi : i ≤ n) (hgone : Gone s token i n) :
    Latest s token n l existed := by
  cases existed with
  | false =>
    intro k hfirst hlast htoken
    by_cases hk : k < i
    · exact h k hfirst hk htoken
    · exact hgone k (not_lt.mp hk) hlast htoken
  | true =>
    obtain ⟨j, hj, hnames, hlive, hbetween⟩ := h
    refine ⟨j, hj.trans_le hi, hnames, hlive, fun k hfirst hlast htoken => ?_⟩
    by_cases hk : k < i
    · exact hbetween k hfirst hk htoken
    · exact hgone k (not_lt.mp hk) hlast htoken

theorem Latest.keep (h : Latest s token n l existed) (hl : Later s s' n)
    (hlive : existed = true → ∀ j < n, Names s token j l → ¬ s.rolledBack j → ¬ s'.rolledBack j) :
    Latest s' token n l existed := by
  cases existed with
  | false => exact Gone.later h hl le_rfl
  | true =>
    obtain ⟨j, hj, hnames, hj', hgone⟩ := h
    exact ⟨j, hj, hnames.later hl hj, hlive rfl j hj hnames hj', hgone.later hl le_rfl⟩

/-- The loop of a rollback ends at the last claim that was not rolled back. -/
theorem History.skip (hs : History s) (fuel : ℕ) (hi : i ≤ fuel) (hcount : i ≤ s.count)
    (h : Before s token i l existed) :
    Latest s token i (TokenLeases.skip s.nodes fuel l existed).1
      (TokenLeases.skip s.nodes fuel l existed).2 := by
  induction fuel generalizing i l existed with
  | zero =>
    cases existed with
    | false => exact h
    | true =>
      obtain ⟨j, hj, -⟩ := h
      omega
  | succ fuel ih =>
    cases existed with
    | false => exact h
    | true =>
      obtain ⟨j, hj, hnames, hgone⟩ := h
      have hjc : j < s.count := hj.trans_le hcount
      have hstop : ¬ s.rolledBack j → Latest s token i l true :=
        fun hlive => ⟨j, hj, hnames, hlive, hgone⟩
      rcases hnames.node with hnode | ⟨hnode, hcommitted⟩
      · unfold TokenLeases.skip
        rw [hnode]
        dsimp only
        split_ifs with hfailed
        · have hbefore := hs.previous j hjc (hs.once j hjc hfailed)
          rw [hnames.token] at hbefore
          have hlatest := ih (by omega) hjc.le hbefore
          refine hlatest.extend hj.le fun k hfirst hlast htoken => ?_
          by_cases hk : k = j
          · rw [hk]
            exact hfailed
          · exact hgone k (by omega) hlast htoken
        · exact hstop hfailed
      · unfold TokenLeases.skip
        rw [hnode]
        refine hstop fun hfailed => ?_
        rw [hs.once j hjc hfailed] at hcommitted
        cases hcommitted

theorem setNode_self (s : Server) (n : ℕ) (f : Node → Node) :
    (s.setNode n f).nodes n = f (s.nodes n) :=
  update_self ..

theorem setNode_of_ne (s : Server) {n k : ℕ} (f : Node → Node) (h : k ≠ n) :
    (s.setNode n f).nodes k = s.nodes k :=
  update_of_ne h ..

theorem History.setLease (h : History s) {new : Option Lease} (hother : ∀ name, name ≠ token →
      Latest s name s.count ((s.tokenLeases name).getD .zero) (s.tokenLeases name).isSome)
    (hnew : Latest s token s.count (new.getD .zero) new.isSome) : Inv (s.setLease token new) := by
  have hlater : Later s (s.setLease token new) s.count :=
    ⟨fun _ _ => rfl, fun _ _ hk => hk, fun _ _ hk => hk⟩
  refine ⟨⟨h.own, h.versions, h.top, h.once, fun i hi hcommitted => ?_⟩, fun name => ?_⟩
  · exact (h.previous i hi hcommitted).later hlater hi.le
  have hcurrent : Latest s name s.count (((s.setLease token new).tokenLeases name).getD .zero)
      ((s.setLease token new).tokenLeases name).isSome := by
    unfold Server.setLease
    dsimp only
    by_cases hname : name = token
    · subst hname
      rw [update_self]
      exact hnew
    · rw [update_of_ne hname]
      exact hother name hname
  exact hcurrent.keep hlater fun _ _ _ _ hlive => hlive

theorem History.version_inj (h : History s) (hi : i < s.count) (hj : j < s.count)
    (heq : (s.claims i).current.version = (s.claims j).current.version) : i = j := by
  rcases lt_trichotomy i j with hlt | hsame | hlt
  · exact absurd heq (h.versions i j hlt hj).ne
  · exact hsame
  · exact absurd heq.symm (h.versions j i hlt hi).ne

/-- Forgetting the node of a committed claim keeps the claim of a lease. -/
theorem Names.forget (h : Names s token j l) : Names s token j (forget s.nodes l) := by
  unfold TokenLeases.forget
  split
  · rename_i n hnode
    split_ifs with hcommitted
    · rcases h.node with hsome | ⟨hnone, -⟩
      · cases hnode.symm.trans hsome
        exact ⟨h.token, h.source, h.seen, h.version, .inr ⟨rfl, hcommitted⟩⟩
      · cases hnode.symm.trans hnone
    · exact h
  · exact h

theorem Inv.isCurrent (h : Inv s) (hi : i < s.count) (hcurrent : s.isCurrent (s.claims i) = true) :
    ∃ l, s.tokenLeases (s.claims i).token = some l ∧ Names s (s.claims i).token i l ∧
    ¬ s.rolledBack i ∧
      Gone s (s.claims i).token (i + 1) s.count := by
  unfold Server.isCurrent at hcurrent
  have hlease := h.lease (s.claims i).token
  cases hl : s.tokenLeases (s.claims i).token with
  | none =>
    rw [hl] at hcurrent
    cases hcurrent
  | some l =>
    rw [hl] at hcurrent hlease
    obtain ⟨j, hj, hnames, hlive, hgone⟩ := hlease
    have hversion : l.version = (s.claims i).current.version := of_decide_eq_true hcurrent
    have hsame := h.version_inj hj hi (hnames.version.symm.trans hversion)
    subst hsame
    exact ⟨l, rfl, hnames, hlive, hgone⟩

theorem Latest.restored {r : Lease × Bool} (h : Latest s token n r.1 r.2) :
    Latest s token n ((if r.2 then some (forget s.nodes r.1) else none).getD .zero)
      (if r.2 then some (forget s.nodes r.1) else none).isSome := by
  obtain ⟨previous, existed⟩ := r
  cases existed with
  | false => exact h
  | true =>
    obtain ⟨j, hj, hnames, hrest⟩ := h
    exact ⟨j, hj, hnames.forget, hrest⟩

theorem not_current (hcurrent : s.isCurrent (s.claims i) = false)
    (hl : (s.tokenLeases token).isSome = true)
    (hnames : Names s token j ((s.tokenLeases token).getD .zero)) : j ≠ i := by
  rintro rfl
  obtain ⟨l, hl⟩ := Option.isSome_iff_exists.mp hl
  unfold Server.isCurrent at hcurrent
  rw [hnames.token, hl] at hcurrent
  rw [hl] at hnames
  exact of_decide_eq_false hcurrent hnames.version

theorem History.mark (h : History s) (hi : i < s.count)
    (hcommitted : (s.nodes i).committed = false) :
    Later s (s.setNode i fun x => { x with failed := true }) s.count ∧
      History (s.setNode i fun x => { x with failed := true }) := by
  have hlater : Later s (s.setNode i fun x => { x with failed := true }) s.count := by
    refine ⟨fun _ _ => rfl, fun k _ hk => ?_, fun k _ hk => ?_⟩
    · unfold Server.rolledBack at hk ⊢
      by_cases hki : k = i
      · rw [hki, setNode_self]
      · rw [setNode_of_ne s _ hki]
        exact hk
    · by_cases hki : k = i
      · rw [hki] at hk
        cases hcommitted.symm.trans hk
      · rw [setNode_of_ne s _ hki]
        exact hk
  refine ⟨hlater, h.own, h.versions, h.top, fun k hk hfailed => ?_, fun k hk hopen => ?_⟩
  · by_cases hki : k = i
    · rw [hki, setNode_self]
      exact hcommitted
    · unfold Server.rolledBack at hfailed
      rw [setNode_of_ne s _ hki] at hfailed ⊢
      exact h.once k hk hfailed
  · by_cases hki : k = i
    · rw [hki, setNode_self]
      exact (h.previous i hi hcommitted).later hlater hi.le
    · rw [setNode_of_ne s _ hki] at hopen ⊢
      exact (h.previous k hk hopen).later hlater hk.le

theorem History.commit (h : History s) (hopen : ¬ s.rolledBack i) :
    Later s (s.setNode i fun x => { x with committed := true, previous := .zero, existed := false })
        s.count ∧
      History (s.setNode i fun x => { x with committed := true, previous := .zero, existed := false }) := by
  have hlater : Later s
      (s.setNode i fun x => { x with committed := true, previous := .zero, existed := false }) s.count := by
    refine ⟨fun _ _ => rfl, fun k _ hk => ?_, fun k _ hk => ?_⟩
    · unfold Server.rolledBack at hk ⊢
      by_cases hki : k = i
      · rw [hki] at hk
        exact absurd hk hopen
      · rw [setNode_of_ne s _ hki]
        exact hk
    · by_cases hki : k = i
      · rw [hki, setNode_self]
      · rw [setNode_of_ne s _ hki]
        exact hk
  refine ⟨hlater, h.own, h.versions, h.top, fun k hk hfailed => ?_, fun k hk hnot => ?_⟩
  · unfold Server.rolledBack at hfailed
    by_cases hki : k = i
    · rw [hki, setNode_self] at hfailed
      exact absurd hfailed hopen
    · rw [setNode_of_ne s _ hki] at hfailed ⊢
      exact h.once k hk hfailed
  · by_cases hki : k = i
    · rw [hki, setNode_self] at hnot
      cases hnot
    · rw [setNode_of_ne s _ hki] at hnot ⊢
      exact (h.previous k hk hnot).later hlater hk.le

theorem Inv.rollback (h : Inv s) (hi : i < s.count) : Inv (s.rollbackTokenClaim (s.claims i)) ∧
    (s.isCurrent (s.claims i) = false → (s.rollbackTokenClaim (s.claims i)).tokenLeases =
      s.tokenLeases) ∧ ∀ name,
    name ≠ (s.claims i).token → (s.rollbackTokenClaim (s.claims i)).tokenLeases name =
      s.tokenLeases name := by
  obtain ⟨hchanged, hnode⟩ := h.own i hi
  unfold Server.rollbackTokenClaim
  rw [hchanged, hnode]
  dsimp only
  split
  · exact ⟨h, fun _ => rfl, fun _ _ => rfl⟩
  rename_i hended
  rw [not_or, Bool.not_eq_true, Bool.not_eq_true] at hended
  obtain ⟨hlater, hhistory⟩ := h.mark hi hended.1
  have hother : ∀ k, k ≠ i → ¬ s.rolledBack k →
      ¬ (s.setNode i fun x => { x with failed := true }).rolledBack k := by
    intro k hki hlive
    unfold Server.rolledBack at hlive ⊢
    rw [setNode_of_ne s _ hki]
    exact hlive
  split_ifs with hcurrent
  · obtain ⟨l, -, -, -, hgone⟩ := h.isCurrent hi hcurrent
    -- the claim has the lease, so the last claim before it gets it back
    have hbefore := hhistory.previous i hi (by rw [setNode_self]; exact hended.1)
    have hlatest := (hhistory.skip s.count hi.le hi.le hbefore).extend (n := s.count) hi.le
      fun k hfirst hlast htoken => by
        by_cases hki : k = i
        · unfold Server.rolledBack
          rw [hki, setNode_self]
        · exact hgone.later hlater le_rfl k (by omega) hlast htoken
    refine ⟨hhistory.setLease (fun name hname => ?_) ?_, fun hnot => ?_, fun name hname => ?_⟩
    · refine (h.lease name).keep hlater fun _ j _ hnames => hother j ?_
      rintro rfl
      exact hname hnames.token.symm
    · exact hlatest.restored
    · cases hnot.symm.trans hcurrent
    · exact update_of_ne hname ..
  · rw [Bool.not_eq_true] at hcurrent
    refine ⟨⟨hhistory, fun name => ?_⟩, fun _ => rfl, fun _ _ => rfl⟩
    exact (h.lease name).keep hlater fun hsome j _ hnames =>
      hother j (not_current (s := s) hcurrent hsome hnames)

theorem Inv.commit (h : Inv s) (hi : i < s.count) : Inv (s.commitTokenClaim (s.claims i)) := by
  obtain ⟨hchanged, hnode⟩ := h.own i hi
  unfold Server.commitTokenClaim
  rw [hchanged, hnode]
  dsimp only
  split
  · exact h
  rename_i hended
  rw [not_or] at hended
  obtain ⟨hlater, hhistory⟩ := h.toHistory.commit hended.1
  have hsame : ∀ k, ¬ s.rolledBack k → ¬ (s.setNode i fun x =>
      { x with committed := true, previous := .zero, existed := false }).rolledBack k := by
    intro k hlive
    unfold Server.rolledBack at hlive ⊢
    by_cases hki : k = i
    · rw [hki, setNode_self]
      exact hended.1
    · rw [setNode_of_ne s _ hki]
      exact hlive
  have hlease : ∀ name, Latest (s.setNode i fun x =>
      { x with committed := true, previous := .zero, existed := false }) name s.count
      ((s.tokenLeases name).getD .zero) (s.tokenLeases name).isSome := fun name =>
    (h.lease name).keep hlater fun _ j _ _ => hsame j
  split_ifs with hcurrent
  · obtain ⟨l, hl, hnames, hlive, hgone⟩ := h.isCurrent hi hcurrent
    refine hhistory.setLease (fun name _ => hlease name) ?_
    have hstored : ∀ f : Lease → Lease, (s.tokenLeases (s.claims i).token).map f = some (f l) := by
      intro f
      rw [hl]
      rfl
    erw [hstored]
    have hkept := hnames.later hlater hi
    refine ⟨i, hi, ⟨hkept.token, hkept.source, hkept.seen, hkept.version, .inr ⟨rfl, ?_⟩⟩, hsame i hlive,
      hgone.later hlater le_rfl⟩
    rw [setNode_self]
  · exact ⟨hhistory, hlease⟩

theorem Inv.grant (h : Inv s) (token sourceIP : String) (now : ℤ) :
    Inv (s.grant token sourceIP now) := by
  set s' := s.grant token sourceIP now
  have hold : ∀ k < s.count, s'.claims k = s.claims k ∧ s'.nodes k = s.nodes k := fun k hk =>
    ⟨update_of_ne hk.ne .., update_of_ne hk.ne ..⟩
  have hnewClaim : s'.claims s.count = ⟨token, s.next sourceIP now, true⟩ :=
    update_self ..
  have hnewNode : s'.nodes s.count =
      ⟨(s.tokenLeases token).getD .zero, (s.tokenLeases token).isSome, false, false⟩ :=
    update_self ..
  have hcount : s'.count = s.count + 1 := rfl
  have hlater : Later s s' s.count := by
    refine ⟨fun k hk => (hold k hk).1, fun k hk hfailed => ?_, fun k hk hcommitted => ?_⟩
    · unfold Server.rolledBack at hfailed ⊢
      rw [(hold k hk).2]
      exact hfailed
    · rw [(hold k hk).2]
      exact hcommitted
  have hlive : ∀ k < s.count, ¬ s.rolledBack k → ¬ s'.rolledBack k := by
    intro k hk hfailed
    unfold Server.rolledBack at hfailed ⊢
    rw [(hold k hk).2]
    exact hfailed
  refine ⟨⟨fun k hk => ?_, fun k m hkm hm => ?_, fun k hk => ?_, fun k hk hfailed => ?_,
    fun k hk hcommitted => ?_⟩, fun name => ?_⟩
  · rcases Nat.lt_succ_iff_lt_or_eq.mp hk with hk | rfl
    · rw [(hold k hk).1]
      exact h.own k hk
    · rw [hnewClaim]
      exact ⟨rfl, rfl⟩
  · rcases Nat.lt_succ_iff_lt_or_eq.mp hm with hm | rfl
    · rw [(hold k (hkm.trans hm)).1, (hold m hm).1]
      exact h.versions k m hkm hm
    · rw [(hold k hkm).1, hnewClaim]
      exact lt_succ_of_le (h.top k hkm)
  · rcases Nat.lt_succ_iff_lt_or_eq.mp hk with hk | rfl
    · rw [(hold k hk).1]
      exact (h.top k hk).trans (le_succ _)
    · rw [hnewClaim]
      exact le_rfl
  · unfold Server.rolledBack at hfailed
    rcases Nat.lt_succ_iff_lt_or_eq.mp hk with hk | rfl
    · rw [(hold k hk).2] at hfailed ⊢
      exact h.once k hk hfailed
    · rw [hnewNode] at hfailed
      cases hfailed
  · rcases Nat.lt_succ_iff_lt_or_eq.mp hk with hk | rfl
    · rw [(hold k hk).2] at hcommitted ⊢
      rw [(hold k hk).1]
      exact (h.previous k hk hcommitted).later hlater hk.le
    · rw [hnewNode, hnewClaim]
      have hlease := h.lease token
      cases hsome : (s.tokenLeases token).isSome with
      | false =>
        rw [hsome] at hlease
        exact Gone.later hlease hlater le_rfl
      | true =>
        rw [hsome] at hlease
        obtain ⟨j, hj, hnames, -, hgone⟩ := hlease
        exact ⟨j, hj, hnames.later hlater hj, hgone.later hlater le_rfl⟩
  · by_cases hname : name = token
    · subst hname
      have hlease : (s.grant name sourceIP now).tokenLeases name = some (s.next sourceIP now) :=
        update_self ..
      rw [hlease]
      refine ⟨s.count, lt_succ_self _, ⟨?_, ?_, ?_, ?_, .inl rfl⟩, ?_, fun k hfirst hlast => ?_⟩
      · rw [hnewClaim]
      · rw [hnewClaim]
        rfl
      · rw [hnewClaim]
        rfl
      · rw [hnewClaim]
        rfl
      · unfold Server.rolledBack
        rw [hnewNode]
        exact Bool.false_ne_true
      · rw [hcount] at hlast
        omega
    · have hlease : s'.tokenLeases name = s.tokenLeases name :=
        update_of_ne hname ..
      rw [hlease]
      refine ((h.lease name).keep hlater fun _ j hj _ => hlive j hj).extend (le_succ _)
        fun k hfirst hlast htoken => ?_
      have hk : k = s.count := by
        rw [hcount] at hlast
        omega
      rw [hk, hnewClaim] at htoken
      exact absurd htoken.symm hname

theorem step_inv {ttl : ℤ} (h : Inv s) (e : Event) : Inv (step ttl s e) := by
  cases e with
  | claim token sourceIP now =>
    simp only [step, Server.claimTokenReceipt]
    split
    · exact h
    · split
      · exact h
      · exact h.grant _ _ now
  | rollback =>
    simp only [step]
    split_ifs with hi
    · exact (h.rollback hi).1
    · exact h
  | commit =>
    simp only [step]
    split_ifs with hi
    · exact h.commit hi
    · exact h

theorem new_inv : Inv .new := by
  have hnone : ∀ k, ¬ k < Server.new.count := fun k => not_lt_zero k
  exact ⟨⟨fun k hk => absurd hk (hnone k), fun _ k _ hk => absurd hk (hnone k),
    fun k hk => absurd hk (hnone k), fun k hk => absurd hk (hnone k), fun k hk => absurd hk
      (hnone k)⟩, fun _ k _ hk => absurd hk (hnone k)⟩

theorem run_inv (ttl : ℤ) (events : List Event) : Inv (run (step ttl) .new events) :=
  run_invariant Inv (fun _ e h (_ : True) => step_inv h e) new_inv
    (along_of_forall (fun _ _ => trivial) _ events)

end

/-! ## The lease and the claims -/

/-- The lease of a token is the granted claim with the highest version that was not rolled back. -/
structure Exact (s : Server) (token : String) : Prop where
  lease : ∀ l, s.tokenLeases token = some l → ∃ i < s.count, (s.claims i).token = token ∧
    ¬ s.rolledBack i ∧ l.sourceIP = (s.claims i).current.sourceIP ∧
    l.seenAt = (s.claims i).current.seenAt ∧ l.version = (s.claims i).current.version ∧
    ∀ k < s.count, (s.claims k).token = token → ¬ s.rolledBack k →
      (s.claims k).current.version ≤ l.version
  none : s.tokenLeases token = none ↔ ∀ k < s.count, (s.claims k).token = token → s.rolledBack k

/-- Another source has a lease of the token that is younger than the lease time. -/
def Taken (s : Server) (ttl : ℤ) (token sourceIP : String) (now : ℤ) : Prop :=
  ∃ l, s.tokenLeases token = some l ∧ l.sourceIP ≠ sourceIP ∧ now - l.seenAt < ttl

/-- What a step does to claims and leases. -/
structure Stepped (ttl : ℤ) (s : Server) (e : Event) : Prop where
  kept : s.count ≤ (step ttl s e).count ∧ ∀ k < s.count, (step ttl s e).claims k = s.claims k
  rolledBack : ∀ k < s.count, (step ttl s e).rolledBack k ↔
    s.rolledBack k ∨ e = .rollback k ∧ (s.nodes k).committed = false
  committed : ∀ k < s.count, ((step ttl s e).nodes k).committed = true ↔
    (s.nodes k).committed = true ∨ e = .commit k ∧ ¬ s.rolledBack k
  fresh : ∀ k, s.count ≤ k → k < (step ttl s e).count → k = s.count ∧ ∃ token sourceIP now,
    e = .claim token sourceIP now ∧ 0 < ttl ∧
    s.held ttl (trimSpace token) (trimSpace sourceIP) now = false ∧
    s.claimTokenReceipt ttl token sourceIP now = (step ttl s e, true, (step ttl s e).claims k) ∧
    (step ttl s e).claims k = ⟨trimSpace token, s.next (trimSpace sourceIP) now, true⟩ ∧
    ¬ (step ttl s e).rolledBack k ∧ ((step ttl s e).nodes k).committed = false
  /-- A receipt of a change is one of a new claim. -/
  granted : ∀ token sourceIP now, e = .claim token sourceIP now →
    (s.claimTokenReceipt ttl token sourceIP now).2.2.changed = true →
    (step ttl s e).count = s.count + 1
  /-- A claim that needs a lease is answered with yes exactly if it is recorded, and with no exactly
  if another source has the token. -/
  answer : ∀ token sourceIP now, e = .claim token sourceIP now → trimSpace token ≠ "" →
    trimSpace sourceIP ≠ "" → 0 < ttl →
    ((s.claimTokenReceipt ttl token sourceIP now).2.1 = true ↔ (step ttl s e).count = s.count + 1) ∧
    ((s.claimTokenReceipt ttl token sourceIP now).2.1 = false ↔
      Taken s ttl (trimSpace token) (trimSpace sourceIP) now)
  untouched : ∀ i < s.count, e = .rollback i → (s.isCurrent (s.claims i) = false →
      (step ttl s e).tokenLeases = s.tokenLeases) ∧
    ∀ name, name ≠ (s.claims i).token → (step ttl s e).tokenLeases name = s.tokenLeases name

/-- Claims of two sources that were not rolled back are apart. -/
def Spaced (ttl : ℤ) (s : Server) : Prop :=
  ∀ i j, i < j → j < s.count → (s.claims i).token = (s.claims j).token →
    (s.claims i).current.sourceIP ≠ (s.claims j).current.sourceIP → ¬ s.rolledBack i →
    ¬ s.rolledBack j →
    ttl ≤ (s.claims j).current.seenAt - (s.claims i).current.seenAt

def Event.reading : Event → Option ℤ
  | .claim _ _ now => some now
  | _ => none

section

variable {s : Server} {ttl : ℤ}

theorem Inv.exact (h : Inv s) (token : String) : Exact s token := by
  have hlease := h.lease token
  refine ⟨fun l hl => ?_, fun hnone => ?_, fun hall => ?_⟩
  · rw [hl] at hlease
    obtain ⟨i, hi, hnames, hlive, hgone⟩ := hlease
    refine ⟨i, hi, hnames.token, hlive, hnames.source, hnames.seen, hnames.version,
      fun k hk htoken hk' => ?_⟩
    have hki : k ≤ i := by
      by_contra hlate
      exact hk' (hgone k (by omega) hk htoken)
    have hversion : l.version = (s.claims i).current.version := hnames.version
    rcases hki.lt_or_eq with hki | rfl
    · rw [hversion]
      exact (h.versions k i hki hi).le
    · exact hversion.ge
  · rw [hnone] at hlease
    exact fun k hk => hlease k (zero_le k) hk
  · cases hl : s.tokenLeases token with
    | none => rfl
    | some =>
      rw [hl] at hlease
      obtain ⟨i, hi, hnames, hlive, -⟩ := hlease
      exact absurd (hall i hi hnames.token) hlive

theorem rollback_nodes {i : ℕ} (h : Inv s) (hi : i < s.count) :
    (s.rollbackTokenClaim (s.claims i)).nodes =
      (if (s.nodes i).committed ∨ (s.nodes i).failed then s.nodes
      else (s.setNode i fun x => { x with failed := true }).nodes) ∧
    (s.rollbackTokenClaim (s.claims i)).claims = s.claims ∧
    (s.rollbackTokenClaim (s.claims i)).count = s.count := by
  obtain ⟨hchanged, hnode⟩ := h.own i hi
  unfold Server.rollbackTokenClaim
  rw [hchanged, hnode]
  dsimp only
  split
  · exact ⟨rfl, rfl, rfl⟩
  · split
    · exact ⟨rfl, rfl, rfl⟩
    · exact ⟨rfl, rfl, rfl⟩

theorem commit_nodes {i : ℕ} (h : Inv s) (hi : i < s.count) :
    (s.commitTokenClaim (s.claims i)).nodes = (if (s.nodes i).failed ∨ (s.nodes i).committed then s.nodes
      else (s.setNode i fun x => { x with committed := true, previous := .zero, existed := false }).nodes) ∧
    (s.commitTokenClaim (s.claims i)).claims = s.claims ∧
    (s.commitTokenClaim (s.claims i)).count = s.count := by
  obtain ⟨hchanged, hnode⟩ := h.own i hi
  unfold Server.commitTokenClaim
  rw [hchanged, hnode]
  dsimp only
  split
  · exact ⟨rfl, rfl, rfl⟩
  · split
    · exact ⟨rfl, rfl, rfl⟩
    · exact ⟨rfl, rfl, rfl⟩

theorem held_iff {token sourceIP : String} {now : ℤ} :
    s.held ttl token sourceIP now = true ↔ Taken s ttl token sourceIP now := by
  simp [Server.held, Taken, Option.any_eq_true]

/-- An event that changes nothing. -/
theorem Stepped.idle {e : Event} (hsame : step ttl s e = s)
    (hclaim : ∀ token sourceIP now, e = .claim token sourceIP now →
      (s.claimTokenReceipt ttl token sourceIP now).2.2.changed = false ∧
        (trimSpace token ≠ "" → trimSpace sourceIP ≠ "" → 0 < ttl →
          (s.claimTokenReceipt ttl token sourceIP now).2.1 = false ∧
            Taken s ttl (trimSpace token) (trimSpace sourceIP) now))
    (hrollback : ∀ i < s.count, e ≠ .rollback i) (hcommit : ∀ i < s.count, e ≠ .commit i) :
    Stepped ttl s e := by
  refine ⟨?_, fun k hk => ?_, fun k hk => ?_, fun k hfirst hlast => ?_,
    fun token sourceIP now he hchanged => ?_, fun token sourceIP now he htoken hsource httl => ?_,
    fun i hi he => absurd he (hrollback i hi)⟩
  · rw [hsame]
    exact ⟨le_rfl, fun _ _ => rfl⟩
  · rw [hsame]
    exact ⟨.inl, fun h => h.elim id fun h => absurd h.1 (hrollback k hk)⟩
  · rw [hsame]
    exact ⟨.inl, fun h => h.elim id fun h => absurd h.1 (hcommit k hk)⟩
  · rw [hsame] at hlast
    omega
  · cases (hclaim token sourceIP now he).1.symm.trans hchanged
  · obtain ⟨hno, htaken⟩ := (hclaim token sourceIP now he).2 htoken hsource httl
    rw [hsame, hno]
    exact ⟨⟨nofun, fun h => absurd h (Nat.succ_ne_self _).symm⟩, fun _ => htaken, fun _ => rfl⟩

theorem claim_stepped (token sourceIP : String) (now : ℤ) :
    Stepped ttl s (.claim token sourceIP now) := by
  set name := trimSpace token
  set ip := trimSpace sourceIP
  by_cases hblank : trimSpace token = "" ∨ trimSpace sourceIP = "" ∨ ttl ≤ 0
  · have hreceipt : s.claimTokenReceipt ttl token sourceIP now = (s, true, .zero) := if_pos hblank
    refine Stepped.idle ?_ ?_ (fun i _ => by simp) (fun i _ => by simp)
    · rw [step, hreceipt]
    rintro _ _ _ ⟨⟩
    rw [hreceipt]
    refine ⟨rfl, fun htoken hsource httl => ?_⟩
    rcases hblank with hblank | hblank | hblank
    · exact absurd hblank htoken
    · exact absurd hblank hsource
    · omega
  · cases hheld : s.held ttl name ip now with
    | true =>
      have hreceipt : s.claimTokenReceipt ttl token sourceIP now = (s, false, .zero) :=
        (if_neg hblank).trans (if_pos hheld)
      refine Stepped.idle ?_ ?_ (fun i _ => by simp) (fun i _ => by simp)
      · rw [step, hreceipt]
      · rintro _ _ _ ⟨⟩
        rw [hreceipt]
        exact ⟨rfl, fun _ _ _ => ⟨rfl, held_iff.mp hheld⟩⟩
    | false =>
      have hreceipt : s.claimTokenReceipt ttl token sourceIP now = (s.grant name ip now, true,
            ⟨trimSpace token, s.next ip now, true⟩) :=
        (if_neg hblank).trans (if_neg (by rw [hheld]; exact Bool.false_ne_true))
      have hstep : step ttl s (.claim token sourceIP now) = s.grant name ip now := by
        rw [step, hreceipt]
      have hnewClaim : (s.grant name ip now).claims s.count =
          ⟨trimSpace token, s.next ip now, true⟩ := update_self ..
      have hnewNode : (s.grant name ip now).nodes s.count =
          ⟨(s.tokenLeases name).getD .zero, (s.tokenLeases name).isSome, false, false⟩ :=
            update_self ..
      have hold : ∀ k < s.count, (s.grant name ip now).nodes k = s.nodes k :=
        fun k hk => update_of_ne hk.ne ..
      refine ⟨?_, fun k hk => ?_, fun k hk => ?_, fun k hfirst hlast => ?_,
        fun _ _ _ _ _ => ?_, ?_, fun i _ he => ?_⟩
      · rw [hstep]
        exact ⟨le_succ _, fun k hk => update_of_ne hk.ne ..⟩
      · unfold Server.rolledBack
        rw [hstep, hold k hk]
        exact ⟨.inl, fun h => h.elim id fun h => by cases h.1⟩
      · rw [hstep, hold k hk]
        exact ⟨.inl, fun h => h.elim id fun h => by cases h.1⟩
      · rw [hstep] at hlast
        have hk : k = s.count := Nat.le_antisymm (Nat.lt_succ_iff.mp hlast) hfirst
        subst hk
        rw [not_or, not_or, not_le] at hblank
        refine ⟨rfl, token, sourceIP, now, rfl, hblank.2.2, hheld, ?_, ?_, ?_, ?_⟩
        · rw [hstep, hnewClaim]
          exact hreceipt
        · rw [hstep, hnewClaim]
        · unfold Server.rolledBack
          rw [hstep, hnewNode]
          exact Bool.false_ne_true
        · rw [hstep, hnewNode]
      · rw [hstep]
        rfl
      · rintro _ _ _ ⟨⟩ - - -
        rw [hstep, hreceipt, ← held_iff, hheld]
        simp [Server.grant]
      · cases he

theorem end_stepped {e : Event} {i : ℕ} {f : Node → Node} {p : Prop} [Decidable p]
    (hi : i < s.count) (hnodes : (step ttl s e).nodes = if p then s.nodes
      else (s.setNode i f).nodes)
    (hclaims : (step ttl s e).claims = s.claims) (hcount : (step ttl s e).count = s.count)
    (hfailed : ((if p then s.nodes i else f (s.nodes i)).failed = true ↔
      s.rolledBack i ∨ e = .rollback i ∧ (s.nodes i).committed = false))
    (hcommitted : ((if p then s.nodes i else f (s.nodes i)).committed = true ↔
      (s.nodes i).committed = true ∨ e = .commit i ∧ ¬ s.rolledBack i))
    (he : e = .rollback i ∨ e = .commit i)
    (huntouched : e = .rollback i → (s.isCurrent (s.claims i) = false →
        (step ttl s e).tokenLeases = s.tokenLeases) ∧
      ∀ name, name ≠ (s.claims i).token → (step ttl s e).tokenLeases name = s.tokenLeases name) :
    Stepped ttl s e := by
  have hself : (step ttl s e).nodes i = if p then s.nodes i else f (s.nodes i) := by
    rw [hnodes]
    split
    · rfl
    · exact setNode_self ..
  have hother : ∀ k, k ≠ i → (step ttl s e).nodes k = s.nodes k := by
    intro k hk
    rw [hnodes]
    split
    · rfl
    · exact setNode_of_ne s _ hk
  have hnot : ∀ k, k ≠ i → e ≠ .rollback k ∧ e ≠ .commit k := by
    intro k hk
    rcases he with rfl | rfl
    · exact ⟨fun h => hk (by cases h; rfl), nofun⟩
    · exact ⟨nofun, fun h => hk (by cases h; rfl)⟩
  refine ⟨⟨hcount.ge, fun k _ => by rw [hclaims]⟩, fun k _ => ?_, fun k _ => ?_,
    fun k hfirst hlast => ?_, fun _ _ _ hclaim => ?_, fun _ _ _ hclaim => ?_,
    fun k _ hrollback => ?_⟩
  · by_cases hk : k = i
    · subst hk
      unfold Server.rolledBack at hfailed ⊢
      rw [hself]
      exact hfailed
    · unfold Server.rolledBack
      rw [hother k hk]
      exact ⟨.inl, fun h => h.elim id fun h => absurd h.1 (hnot k hk).1⟩
  · by_cases hk : k = i
    · subst hk
      rw [hself]
      exact hcommitted
    · rw [hother k hk]
      exact ⟨.inl, fun h => h.elim id fun h => absurd h.1 (hnot k hk).2⟩
  · omega
  · rcases he with rfl | rfl
    · cases hclaim
    · cases hclaim
  · rcases he with rfl | rfl
    · cases hclaim
    · cases hclaim
  · by_cases hk : k = i
    · subst hk
      exact huntouched hrollback
    · exact absurd hrollback (hnot k hk).1

theorem Inv.stepped (h : Inv s) (e : Event) : Stepped ttl s e := by
  cases e with
  | claim token sourceIP now => exact claim_stepped token sourceIP now
  | rollback i =>
    by_cases hi : i < s.count
    · have hstep : step ttl s (.rollback i) = s.rollbackTokenClaim (s.claims i) := if_pos hi
      obtain ⟨hnodes, hclaims, hcount⟩ := rollback_nodes h hi
      rw [← hstep] at hnodes hclaims hcount
      refine end_stepped hi hnodes hclaims hcount ?_ ?_ (.inl rfl) fun _ => ?_
      · unfold Server.rolledBack
        cases (s.nodes i).committed <;> cases hf : (s.nodes i).failed <;> simp [hf]
      · unfold Server.rolledBack
        cases hc : (s.nodes i).committed <;> cases (s.nodes i).failed <;> simp [hc]
      · rw [hstep]
        exact (h.rollback hi).2
    · refine Stepped.idle (if_neg hi) nofun (fun k hk he => ?_) nofun
      cases he
      exact hi hk
  | commit i =>
    by_cases hi : i < s.count
    · have hstep : step ttl s (.commit i) = s.commitTokenClaim (s.claims i) := if_pos hi
      obtain ⟨hnodes, hclaims, hcount⟩ := commit_nodes h hi
      rw [← hstep] at hnodes hclaims hcount
      refine end_stepped hi hnodes hclaims hcount ?_ ?_ (.inr rfl) nofun
      · unfold Server.rolledBack
        cases (s.nodes i).committed <;> cases hf : (s.nodes i).failed <;> simp [hf]
      · unfold Server.rolledBack
        cases hc : (s.nodes i).committed <;> cases (s.nodes i).failed <;> simp [hc]
    · refine Stepped.idle (if_neg hi) nofun nofun (fun k hk he => ?_)
      cases he
      exact hi hk

/-- Claims in order of their times. -/
def Timed (s : Server) (readings : List ℤ) : Prop :=
  (∀ k < s.count, (s.claims k).current.seenAt ∈ readings) ∧
    ∀ i j, i < j → j < s.count → (s.claims i).current.seenAt ≤ (s.claims j).current.seenAt

theorem step_timed {readings : List ℤ} (h : Inv s) (ht : Timed s readings) (e : Event)
    (hclock : ∀ now, e.reading = some now → ∀ r ∈ readings, r ≤ now) :
    Timed (step ttl s e) (readings ++ e.reading.toList) := by
  have hs : Stepped ttl s e := h.stepped e
  have hnew : ∀ k, s.count ≤ k → k < (step ttl s e).count →
      k = s.count ∧ e.reading = some ((step ttl s e).claims k).current.seenAt := by
    intro k hfirst hlast
    obtain ⟨hk, token, sourceIP, now, rfl, -, -, -, hclaim, -⟩ := hs.fresh k hfirst hlast
    refine ⟨hk, ?_⟩
    rw [hclaim]
    rfl
  refine ⟨fun k hk => ?_, fun i j hij hj => ?_⟩
  · by_cases hold : k < s.count
    · rw [hs.kept.2 k hold]
      exact List.mem_append_left _ (ht.1 k hold)
    · rw [(hnew k (not_lt.mp hold) hk).2]
      exact List.mem_append_right _ (List.mem_singleton.mpr rfl)
  · by_cases hold : j < s.count
    · rw [hs.kept.2 j hold, hs.kept.2 i (hij.trans hold)]
      exact ht.2 i j hij hold
    · obtain ⟨hjs, hreading⟩ := hnew j (not_lt.mp hold) hj
      have hi : i < s.count := hjs ▸ hij
      rw [hs.kept.2 i hi]
      exact hclock _ hreading _ (ht.1 i hi)

theorem step_spaced {readings : List ℤ} (h : Inv s) (ht : Timed s readings)
    (hspaced : Spaced ttl s) (e : Event)
    (hclock : ∀ now, e.reading = some now → ∀ r ∈ readings, r ≤ now) :
    Spaced ttl (step ttl s e) := by
  have hs : Stepped ttl s e := h.stepped e
  have hlive : ∀ k < s.count, ¬ (step ttl s e).rolledBack k → ¬ s.rolledBack k :=
    fun k hk hnot hfailed =>
    hnot ((hs.rolledBack k hk).mpr (.inl hfailed))
  intro i j hij hj htoken hsource hi' hj'
  by_cases hold : j < s.count
  · have hi : i < s.count := hij.trans hold
    rw [hs.kept.2 j hold, hs.kept.2 i hi] at htoken hsource ⊢
    exact hspaced i j hij hold htoken hsource (hlive i hi hi') (hlive j hold hj')
  obtain ⟨hjs, token, sourceIP, now, he, -, hheld, -, hclaim, -⟩ := hs.fresh j (not_lt.mp hold) hj
  have hi : i < s.count := hjs ▸ hij
  have hreading : e.reading = some now := by rw [he]; rfl
  have hnow : ∀ k < s.count, (s.claims k).current.seenAt ≤ now := fun k hk =>
    hclock now hreading _ (ht.1 k hk)
  rw [hclaim] at htoken hsource ⊢
  rw [hs.kept.2 i hi] at htoken hsource ⊢
  change ttl ≤ now - (s.claims i).current.seenAt
  -- the new claim saw the last claim of the token that was not rolled back
  have hlease := h.lease (trimSpace token)
  cases hl : s.tokenLeases (trimSpace token) with
  | none =>
    rw [hl] at hlease
    exact absurd (hlease i (zero_le i) hi htoken) (hlive i hi hi')
  | some l =>
    rw [hl] at hlease
    obtain ⟨k, hk, hnames, hklive, hgone⟩ := hlease
    have hik : i ≤ k := by
      by_contra hlate
      exact hlive i hi hi' (hgone i (by omega) hi htoken)
    have hfree : (s.claims k).current.sourceIP ≠ trimSpace sourceIP →
        ttl ≤ now - (s.claims k).current.seenAt := by
      intro hother
      unfold Server.held at hheld
      rw [hl, Option.any_some, Bool.and_eq_false_iff, decide_eq_false_iff_not,
        decide_eq_false_iff_not, not_not, not_lt] at hheld
      have hsourceK : l.sourceIP = (s.claims k).current.sourceIP := hnames.source
      have hseenK : l.seenAt = (s.claims k).current.seenAt := hnames.seen
      rw [hsourceK, hseenK] at hheld
      exact hheld.resolve_left hother
    rcases hik.lt_or_eq with hik | rfl
    · have horder := ht.2 i k hik hk
      have hlast := hnow k hk
      by_cases hsame : (s.claims k).current.sourceIP = trimSpace sourceIP
      · have hapart := hspaced i k hik hk (htoken.trans hnames.token.symm)
          (by rw [hsame]; exact hsource)
          (hlive i hi hi') hklive
        omega
      · have hapart := hfree hsame
        omega
    · exact hfree hsource

/-- A run with a clock that does not go back keeps claims apart. -/
theorem run_spaced (ttl : ℤ) (events : List Event)
    (hclock : (events.filterMap Event.reading).Pairwise (· ≤ ·)) :
    Timed (run (step ttl) .new events) (events.filterMap Event.reading) ∧
    Spaced ttl (run (step ttl) .new events) := by
  induction events using List.reverseRecOn with
  | nil => exact ⟨⟨fun k hk => absurd hk (not_lt_zero k), fun _ k _ hk => absurd hk
      (not_lt_zero k)⟩, fun _ k _ hk => absurd hk (not_lt_zero k)⟩
  | append_singleton rest e ih =>
    rw [List.filterMap_append, List.pairwise_append] at hclock
    obtain ⟨ht, hspaced⟩ := ih hclock.1
    have hreadings : [e].filterMap Event.reading = e.reading.toList := by
      cases e <;> rfl
    have hlast : ∀ now, e.reading = some now → ∀ r ∈ rest.filterMap Event.reading, r ≤ now := by
      intro now hnow r hr
      refine hclock.2.2 r hr now ?_
      rw [hreadings, hnow]
      exact List.mem_singleton.mpr rfl
    rw [run_append, List.filterMap_append, hreadings]
    exact ⟨step_timed (run_inv ttl rest) ht e hlast, step_spaced
      (run_inv ttl rest) ht hspaced e hlast⟩

/-- At every moment the lease of a token is the granted claim with the highest version that was not
rolled back; the next step grants, rolls back or commits one claim and changes nothing else; and
claims of two sources that were not rolled back are at least the lease time apart. -/
theorem run_leases (ttl : ℤ) (events : List Event) :
    (∀ token, Exact (run (step ttl) .new events) token) ∧
      (∀ e, Stepped ttl (run (step ttl) .new events) e) ∧
      ((events.filterMap Event.reading).Pairwise (· ≤ ·) →
      Spaced ttl (run (step ttl) .new events)) :=
  ⟨fun token => (run_inv ttl events).exact token, fun e => (run_inv ttl events).stepped e,
    fun hclock => (run_spaced ttl events hclock).2⟩

end

end DaxiangVpn.TokenLeases
