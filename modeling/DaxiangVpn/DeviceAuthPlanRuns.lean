import DaxiangVpn.DeviceAuthFrames

/-!
# Runs of a plan

A plan runs action by action against WireGuard and may stop between any two of them. What is left
of it is what a new plan finds from there, so a plan that is run again ends at the same peers, and
the verification accepts them.
-/

namespace DaxiangVpn.DeviceAuthPlanRuns
open Function

open CheckedSteps NetipPrefix DeviceAuthPolicy RelationTable DeviceAuthTables List
open DeviceAuthProcess DeviceAuthWorld DeviceAuthFrames

/-! ## Actions on a runtime map -/

/-- The map after `wg set peer KEY remove`. -/
def removeKey (m : RuntimeMap) (key : String) : RuntimeMap :=
  ⟨removePeer key m.rows, removePeer_nodup m.nodup⟩

/-- The map after `wg set peer KEY allowed-ips ADDRESS`. -/
def applyKey (m : RuntimeMap) (key address : String) : RuntimeMap :=
  ⟨applyPeer key address m.rows, applyPeer_nodup m.nodup⟩

def runAction (m : RuntimeMap) (x : PlannedAction) : RuntimeMap :=
  match x.kind with
  | .remove => removeKey m x.key
  | .apply => applyKey m x.key x.address

def runActions (m : RuntimeMap) (actions : List PlannedAction) : RuntimeMap :=
  actions.foldl runAction m

/-- The history once the applies of a plan were announced. -/
def announcing (actions : List PlannedAction) (history : List Binding) : List Binding :=
  history.map fun b =>
    if actions.any fun x => x.kind = .apply && x.key = b.key then { b with priorIntent := true }
    else b

section

variable {m : RuntimeMap} {key address : String} {p : Peer}

/-- An action on the map is the executor's action on its peers. -/
theorem runAction_rows (x : PlannedAction) : (runAction m x).rows = x.execute m.rows := by
  unfold runAction PlannedAction.execute
  cases x.kind <;> rfl

theorem mem_removeKey : p ∈ removeKey m key ↔ p ∈ m ∧ p.publicKey ≠ key := mem_removePeer

theorem mem_applyKey : p ∈ applyKey m key address ↔
    (∃ q ∈ m, q.publicKey ≠ key ∧ p = losing address q) ∨ p = ⟨key, [address]⟩ := mem_applyPeer

theorem find_removeKey_of_ne {k : String} (hk : k ≠ key) : (removeKey m key).find k = m.find k := by
  cases hfind : m.find k with
  | none =>
    rw [find_eq_none] at hfind ⊢
    exact fun q hq => hfind q (mem_removeKey.mp hq).1
  | some =>
    obtain ⟨hq, rfl⟩ := find_eq_some.mp hfind
    exact find_of_mem (mem_removeKey.mpr ⟨hq, hk⟩)

theorem find_removeKey_self : (removeKey m key).find key = none :=
  find_eq_none.mpr fun _ hq => (mem_removeKey.mp hq).2

theorem find_applyKey_self : (applyKey m key address).find key = some ⟨key, [address]⟩ :=
  find_eq_some.mpr ⟨mem_applyKey.mpr (.inr rfl), rfl⟩

theorem find_applyKey_of_ne {k : String} (hk : k ≠ key)
    (hclear : ∀ q ∈ m, q.publicKey ≠ key → losing address q = q) :
    (applyKey m key address).find k = m.find k := by
  cases hfind : m.find k with
  | none =>
    rw [find_eq_none] at hfind ⊢
    intro q hq hkey
    rcases mem_applyKey.mp hq with ⟨r, hr, -, rfl⟩ | rfl
    · exact hfind r hr hkey
    · exact hk hkey.symm
  | some q =>
    obtain ⟨hq, rfl⟩ := find_eq_some.mp hfind
    have hsame := hclear q hq hk
    exact find_of_mem (mem_applyKey.mpr (.inl ⟨q, hq, hk, hsame.symm⟩))

theorem overlapping_of_masked {v : String} {p : IpPrefix} (hp : parsePrefix address = some p)
    (hsame : (parsePrefix v).map IpPrefix.masked = (parsePrefix address).map IpPrefix.masked) :
    overlapping v address = true := by
  rw [hp, Option.map_some, Option.map_eq_some_iff] at hsame
  obtain ⟨q, hq, hmask⟩ := hsame
  unfold overlapping
  rw [hq, hp, Option.any_some, Option.any_some, ← masked_overlaps, hmask, masked_overlaps]
  simp [IpPrefix.overlaps]

theorem losing_eq {q : Peer} {p : IpPrefix} (hp : parsePrefix address = some p)
    (hclear : ∀ v ∈ q.allowedIPs, overlapping v address = false) : losing address q = q := by
  unfold losing
  have hall : q.allowedIPs.filter (fun v =>
      (parsePrefix v).map IpPrefix.masked ≠ (parsePrefix address).map IpPrefix.masked) =
        q.allowedIPs := by
    rw [filter_eq_self]
    intro v hv
    rw [decide_eq_true_eq]
    intro hsame
    cases (overlapping_of_masked hp hsame).symm.trans (hclear v hv)
  rw [hall]

end

/-! ## One action -/

def Canonical (address : String) : Prop := ∃ p, parsePrefix address = some p ∧ address = p.string

/-- A history as the table keeps it: one row for each key, addresses in canonical text. -/
structure Recorded (history : List Binding) : Prop where
  keys : (history.map Binding.key).Nodup
  canonical : ∀ b ∈ history, Canonical b.address

section

variable {s : Store} {d : Device} {history : List Binding} {m : RuntimeMap}
  {actions : List PlannedAction}

theorem Recorded.eq_of_key (h : Recorded history) {a b : Binding} (ha : a ∈ history)
    (hb : b ∈ history) (hk : a.key = b.key) : a = b := inj_on_of_nodup_map h.keys ha hb hk

theorem planBinding_ok {b : Binding} : planBinding s d m b = .ok () ↔
    (b.deviceId = d.id ∧ b.managedBy = s.policy.managedBy) ∧
    (s.policy.address b.key b.address).isOk = true ∧ ∀ p, m.find b.key = some p →
    (b.applied = true ∨ b.priorIntent = true) ∧ p.allowedIPs = [b.address] := by
  unfold planBinding
  rw [deny_bind_ok, deny_bind_ok]
  simp only [Bool.or_eq_false_iff, decide_eq_false_iff_not, not_not, Bool.not_eq_false']
  refine and_congr_right fun _ => and_congr_right fun _ => ?_
  cases hfind : m.find b.key with
  | none => exact ⟨by simp, fun _ => rfl⟩
  | some p =>
    rw [deny_bind_ok, deny_ok]
    simp only [Bool.and_eq_false_iff, Bool.not_eq_false', decide_eq_false_iff_not, not_not]
    exact ⟨fun h q hq => Option.some.inj hq ▸ h, fun h => h p rfl⟩

theorem planned_not_current (h : Planned s d history m actions) (hrec : Recorded history)
    (hcur : d.state = .active ∧ d.publicKey ≠ "") {b : Binding} (hb : b ∈ history)
    (hrevoked : 0 < b.revoked) :
    b.key ≠ d.publicKey := by
  intro hkey
  obtain ⟨c, hc, hckey, hlive, -⟩ := h.current hcur.1 hcur.2
  cases hrec.eq_of_key hb hc (hkey.trans hckey.symm)
  omega

theorem planned_find_current (h : Planned s d history m actions) (hrec : Recorded history)
    (hactive : d.state = .active) (hkey : d.publicKey ≠ "") : ∃ b,
      history.find? (fun b => b.key = d.publicKey) = some b ∧ b.revoked = 0 ∧
      b.address = d.address := by
  obtain ⟨b, hb, hbkey, hlive, haddress⟩ := h.current hactive hkey
  cases hfind : history.find? (fun b => b.key = d.publicKey) with
  | none =>
    have hmiss := List.find?_eq_none.mp hfind b hb
    exact absurd (by simpa using hbkey) hmiss
  | some c =>
    have hckey : c.key = d.publicKey := by simpa using List.find?_some hfind
    cases hrec.eq_of_key (mem_of_find?_eq_some hfind) hb (hckey.trans hbkey.symm)
    exact ⟨_, rfl, hlive, haddress⟩

variable {rest : List PlannedAction}

variable {x : PlannedAction}

theorem removals_tail (hrec : Recorded history)
    (h : removals history m = x :: rest) : removals history (removeKey m x.key) = rest := by
  unfold removals at h ⊢
  obtain ⟨b, left, hfilter, rfl, rfl⟩ := map_eq_cons_iff.mp h
  have hkeys : ((b :: left).map Binding.key).Nodup := by
    rw [← hfilter]
    exact hrec.keys.sublist (filter_sublist.map _)
  rw [map_cons, nodup_cons] at hkeys
  have hsplit : history.filter (fun c => 0 < c.revoked && ((removeKey m b.key).find c.key).isSome) =
      (history.filter fun c => 0 < c.revoked && (m.find c.key).isSome).filter fun c =>
        c.key ≠ b.key := by
    rw [filter_filter]
    refine filter_congr fun c _ => ?_
    by_cases hc : c.key = b.key
    · rw [hc, find_removeKey_self]
      simp
    · rw [find_removeKey_of_ne hc]
      simp [hc]
  have hleft : left.filter (fun c => c.key ≠ b.key) = left := by
    rw [filter_eq_self]
    intro c hc
    rw [decide_eq_true_eq]
    intro hkey
    exact hkeys.1 (hkey ▸ mem_map_of_mem hc)
  rw [hsplit, hfilter, filter_cons_of_neg (by simp), hleft]

theorem plan_eq (hrec : Recorded history) (h : Planned s d history m actions) {m' : RuntimeMap}
    (heach : ∀ b ∈ history, planBinding s d m' b = .ok ())
    (hclear : d.state = .active → d.publicKey ≠ "" → ∀ p ∈ m', obstructs d history p = false) :
    plan s d history m' = .ok (removals history m' ++
      if d.state = .active ∧ d.publicKey ≠ "" ∧ m'.find d.publicKey = none then
        [⟨.apply, d.publicKey, d.address⟩] else []) := by
  obtain ⟨found, hfound⟩ := plan_total heach (planned_find_current h hrec) hclear
  rw [hfound, (plan_ok hfound).actions]

theorem plan_remove (hrec : Recorded history) (h : plan s d history m = .ok (x :: rest))
    (hx : x.kind = .remove) :
    plan s d history (runAction m x) = .ok rest ∧ x.key ∈ history.map Binding.key := by
  have hplanned := plan_ok h
  have hrun : runAction m x = removeKey m x.key := by
    unfold runAction
    rw [hx]
  obtain ⟨b, hb, hbkey, -, -, hrevoked⟩ := hplanned.mem_history mem_cons_self
  have hactions := hplanned.actions
  refine ⟨?_, hbkey ▸ mem_map_of_mem hb⟩
  have heach : ∀ c ∈ history, planBinding s d (removeKey m x.key) c = .ok () := by
    intro c hc
    obtain ⟨howner, haddress, hpeer⟩ := planBinding_ok.mp (hplanned.each c hc)
    refine planBinding_ok.mpr ⟨howner, haddress, fun p hp => hpeer p ?_⟩
    obtain ⟨hpm, hkey⟩ := find_eq_some.mp hp
    exact find_eq_some.mpr ⟨(mem_removeKey.mp hpm).1, hkey⟩
  rw [hrun, plan_eq hrec hplanned heach fun hactive hkey p hp => hplanned.clear hactive hkey p
    (mem_removeKey.mp hp).1]
  have happly : (d.state = .active ∧ d.publicKey ≠ "" ∧
    (removeKey m x.key).find d.publicKey = none) ↔
      (d.state = .active ∧ d.publicKey ≠ "" ∧ m.find d.publicKey = none) := by
    refine and_congr_right fun hactive => and_congr_right fun hkey => ?_
    have hne : d.publicKey ≠ x.key := by
      rw [← hbkey]
      exact (planned_not_current hplanned hrec ⟨hactive, hkey⟩ hb (hrevoked hx)).symm
    rw [find_removeKey_of_ne hne]
  cases hremovals : removals history m with
  | nil =>
    rw [hremovals, nil_append] at hactions
    split at hactions
    · cases hactions
      cases hx
    · cases hactions
  | cons =>
    rw [hremovals, cons_append] at hactions
    cases hactions
    rw [removals_tail hrec hremovals]
    simp only [happly]

/-- No peer loses an address to the apply of a plan that has nothing to remove. -/
theorem planned_losing (h : Planned s d history m actions) (hactive : d.state = .active)
    (hkey : d.publicKey ≠ "") (hnone : removals history m = []) {p : IpPrefix}
    (hp : parsePrefix d.address = some p) :
    ∀ q ∈ m, q.publicKey ≠ d.publicKey → losing d.address q = q := by
  intro q hq hne
  refine losing_eq hp fun v hv => ?_
  have hclear := h.clear hactive hkey q hq
  unfold obstructs at hclear
  have hlive : history.any (fun b => b.key = q.publicKey && 0 < b.revoked) = false := by
    rw [any_eq_false]
    intro b hb hrevoked
    simp only [Bool.and_eq_true, decide_eq_true_eq] at hrevoked
    have hmem : (⟨.remove, b.key, b.address⟩ : PlannedAction) ∈ removals history m :=
      mem_removals.mpr ⟨b, hb, hrevoked.2, by rw [hrevoked.1, find_of_mem hq]; rfl, rfl⟩
    rw [hnone] at hmem
    exact absurd hmem not_mem_nil
  rw [hlive] at hclear
  simp only [hne, ne_eq, not_false_eq_true, decide_true, Bool.not_false, Bool.true_and] at hclear
  exact Bool.eq_false_iff.mpr (by simpa using any_eq_false.mp hclear v hv)

theorem plan_apply (hrec : Recorded history) (h : plan s d history m = .ok (x :: rest))
    (hx : x.kind = .apply) (hprior : ∀ b ∈ history, b.key = x.key → b.priorIntent = true) :
    plan s d history (runAction m x) = .ok rest ∧
    x.key ∈ history.map Binding.key ∧ rest = [] ∧ ∀ k, k ≠ x.key →
    (runAction m x).find k = m.find k := by
  have hplanned := plan_ok h
  have hactions := hplanned.actions
  cases hremovals : removals history m with
  | cons =>
    rw [hremovals, cons_append] at hactions
    cases hactions
    obtain ⟨b, -, -, -, rfl⟩ := mem_removals.mp (hremovals ▸ mem_cons_self)
    cases hx
  | nil =>
    rw [hremovals, nil_append] at hactions
    split at hactions
    · rename_i hcur
      cases hactions
      obtain ⟨hactive, hkey, -⟩ := hcur
      obtain ⟨b, hb, hbkey, -, haddress⟩ := hplanned.current hactive hkey
      obtain ⟨p, hp, -⟩ := hrec.canonical b hb
      rw [haddress] at hp
      have hlosing := planned_losing hplanned hactive hkey hremovals hp
      have hrun : runAction m ⟨.apply, d.publicKey, d.address⟩ = applyKey m d.publicKey d.address :=
        rfl
      have hother : ∀ k, k ≠ d.publicKey → (applyKey m d.publicKey d.address).find k = m.find k :=
        fun k hk => find_applyKey_of_ne hk hlosing
      have heach : ∀ c ∈ history, planBinding s d (applyKey m d.publicKey d.address)
        c = .ok () := by
        intro c hc
        obtain ⟨hcowner, hcaddress, hpeer⟩ := planBinding_ok.mp (hplanned.each c hc)
        refine planBinding_ok.mpr ⟨hcowner, hcaddress, fun q hq => ?_⟩
        by_cases hck : c.key = d.publicKey
        · cases hrec.eq_of_key hc hb (hck.trans hbkey.symm)
          rw [hck, find_applyKey_self] at hq
          cases hq
          exact ⟨.inr (hprior _ hb hck), by rw [haddress]⟩
        · rw [hother c.key hck] at hq
          exact hpeer q hq
      have hclear : ∀ q ∈ applyKey m d.publicKey d.address, obstructs d history q = false := by
        intro q hq
        rcases mem_applyKey.mp hq with ⟨r, hr, hne, rfl⟩ | rfl
        · rw [hlosing r hr hne]
          exact hplanned.clear hactive hkey r hr
        · simp [obstructs]
      have hleft : removals history (applyKey m d.publicKey d.address) = [] := by
        rw [eq_nil_iff_forall_not_mem]
        intro y hy
        obtain ⟨c, hc, hrevoked, hpresent, rfl⟩ := mem_removals.mp hy
        rw [hother c.key
          (planned_not_current hplanned hrec ⟨hactive, hkey⟩ hc hrevoked)] at hpresent
        have hmem := mem_removals.mpr ⟨c, hc, hrevoked, hpresent, rfl⟩
        rw [hremovals] at hmem
        exact absurd hmem not_mem_nil
      refine ⟨?_, hbkey ▸ mem_map_of_mem hb, rfl, fun k hk => hother k hk⟩
      rw [hrun, plan_eq hrec hplanned heach fun _ _ => hclear, hleft, find_applyKey_self]
      simp
    · cases hactions

theorem plan_step (hrec : Recorded history) (h : plan s d history m = .ok (x :: rest))
    (hprior : x.kind = .apply → ∀ b ∈ history, b.key = x.key → b.priorIntent = true) :
    plan s d history (runAction m x) = .ok rest ∧ x.key ∈ history.map Binding.key ∧
      (x.kind = .apply → rest = []) ∧ ∀ k ∉ history.map Binding.key,
      (runAction m x).find k = m.find k := by
  cases hx : x.kind with
  | remove =>
    obtain ⟨hleft, hkey⟩ := plan_remove hrec h hx
    refine ⟨hleft, hkey, nofun, fun k hk => ?_⟩
    unfold runAction
    rw [hx]
    refine find_removeKey_of_ne ?_
    rintro rfl
    exact hk hkey
  | apply =>
    obtain ⟨hleft, hkey, hnil, hother⟩ := plan_apply hrec h hx (hprior hx)
    refine ⟨hleft, hkey, fun _ => hnil, fun k hk => hother k ?_⟩
    rintro rfl
    exact hk hkey

theorem plan_left (hrec : Recorded history) (h : plan s d history m = .ok actions)
    (hprior : ∀ x ∈ actions, x.kind = .apply → ∀ b ∈ history, b.key = x.key → b.priorIntent = true)
    (n : ℕ) :
    plan s d history (runActions m (actions.take n)) = .ok (actions.drop n) ∧
      ∀ k ∉ history.map Binding.key, (runActions m (actions.take n)).find k = m.find k := by
  induction actions generalizing m n with
  | nil =>
    rw [take_nil, drop_nil]
    exact ⟨h, fun _ _ => rfl⟩
  | cons x rest ih =>
    cases n with
    | zero => exact ⟨h, fun _ _ => rfl⟩
    | succ n =>
      obtain ⟨hleft, -, -, hother⟩ := plan_step hrec h (hprior x mem_cons_self)
      obtain ⟨hplan, hframe⟩ := ih hleft (fun y hy => hprior y (mem_cons_of_mem _ hy)) n
      exact ⟨hplan, fun k hk => (hframe k hk).trans (hother k hk)⟩

theorem announcing_eq (actions : List PlannedAction) : ∃ f : Binding → Binding,
    (∀ history, announcing actions history = history.map f) ∧ ∀ b, (f b).key = b.key ∧
    (f b).address = b.address ∧
    (f b).deviceId = b.deviceId ∧ (f b).managedBy = b.managedBy ∧ (f b).revoked = b.revoked ∧
    (f b).applied = b.applied ∧ (b.priorIntent = true → (f b).priorIntent = true) ∧
    ((∃ x ∈ actions, x.kind = .apply ∧ x.key = b.key) → (f b).priorIntent = true) := by
  refine ⟨_, fun _ => rfl, fun b => ?_⟩
  split_ifs with hnone
  · exact ⟨rfl, rfl, rfl, rfl, rfl, rfl, fun _ => rfl, fun _ => rfl⟩
  · refine ⟨rfl, rfl, rfl, rfl, rfl, rfl, id, fun ⟨x, hx, hkind, hkey⟩ => ?_⟩
    refine absurd (any_eq_true.mpr ⟨x, hx, ?_⟩) hnone
    rw [Bool.and_eq_true, decide_eq_true_eq, decide_eq_true_eq]
    exact ⟨hkind, hkey⟩

theorem plan_announcing (hrec : Recorded history) (h : plan s d history m = .ok actions) :
    Recorded (announcing actions history) ∧ plan s d (announcing actions history) m = .ok actions ∧
      (announcing actions history).map Binding.key = history.map Binding.key ∧
      ∀ x ∈ actions, x.kind = .apply → ∀ b ∈ announcing actions history, b.key = x.key →
      b.priorIntent = true := by
  have hplanned := plan_ok h
  obtain ⟨f, hmap, hf⟩ := announcing_eq actions
  rw [hmap]
  have hkeys : (history.map f).map Binding.key = history.map Binding.key := by
    rw [map_map]
    exact map_congr_left fun b _ => (hf b).1
  have hrecorded : Recorded (history.map f) := by
    refine ⟨by rw [hkeys]; exact hrec.keys, fun b hb => ?_⟩
    obtain ⟨c, hc, rfl⟩ := mem_map.mp hb
    rw [(hf c).2.1]
    exact hrec.canonical c hc
  have hremovals : removals (history.map f) m = removals history m := by
    unfold removals
    rw [filter_map, map_map]
    have hfilter : history.filter ((fun b => 0 < b.revoked && (m.find b.key).isSome) ∘ f) =
        history.filter fun b => 0 < b.revoked && (m.find b.key).isSome := by
      refine filter_congr fun b _ => ?_
      obtain ⟨hkey, -, -, -, hrevoked, -⟩ := hf b
      rw [comp_apply, hkey, hrevoked]
    rw [hfilter]
    refine map_congr_left fun b _ => ?_
    obtain ⟨hkey, haddress, -⟩ := hf b
    rw [comp_apply, hkey, haddress]
  have hobstructs : ∀ p, obstructs d (history.map f) p = obstructs d history p := by
    intro p
    unfold obstructs
    rw [any_map]
    have hany : (fun b : Binding => decide (b.key = p.publicKey) && decide (0 < b.revoked)) ∘ f =
        fun b => decide (b.key = p.publicKey) && decide (0 < b.revoked) := by
      funext b
      obtain ⟨hkey, -, -, -, hrevoked, -⟩ := hf b
      rw [comp_apply, hkey, hrevoked]
    rw [hany]
  have heach : ∀ b ∈ history.map f, planBinding s d m b = .ok () := by
    intro b hb
    obtain ⟨c, hc, rfl⟩ := mem_map.mp hb
    obtain ⟨hkey, haddress, hdevice, hmanaged, -, happlied, hprior, -⟩ := hf c
    obtain ⟨howner, hok, hpeer⟩ := planBinding_ok.mp (hplanned.each c hc)
    rw [planBinding_ok, hkey, haddress, hdevice, hmanaged, happlied]
    exact ⟨howner, hok, fun p hp => ⟨(hpeer p hp).1.imp_right hprior, (hpeer p hp).2⟩⟩
  have hcurrent : d.state = .active → d.publicKey ≠ "" → ∃ b,
      (history.map f).find? (fun b => b.key = d.publicKey) = some b ∧ b.revoked = 0 ∧
      b.address = d.address := by
    intro hactive hkey
    obtain ⟨b, hb, hlive, haddress⟩ := planned_find_current hplanned hrec hactive hkey
    obtain ⟨-, hfaddress, -, -, hfrevoked, -⟩ := hf b
    refine ⟨f b, ?_, hfrevoked.trans hlive, hfaddress.trans haddress⟩
    have hcomp : (fun b : Binding => decide (b.key = d.publicKey)) ∘ f =
        fun b => decide (b.key = d.publicKey) := by
      funext c
      rw [comp_apply, (hf c).1]
    rw [List.find?_map, hcomp, hb, Option.map_some]
  obtain ⟨found, hfound⟩ := plan_total heach hcurrent fun hactive hkey p hp => by
    rw [hobstructs]
    exact hplanned.clear hactive hkey p hp
  refine ⟨hrecorded, ?_, hkeys, fun x hx hkind b hb hkey => ?_⟩
  · rw [hfound, (plan_ok hfound).actions, hremovals, ← hplanned.actions]
  · obtain ⟨c, -, rfl⟩ := mem_map.mp hb
    exact (hf c).2.2.2.2.2.2.2 ⟨x, hx, hkind, hkey.symm.trans (hf c).1⟩

theorem verify_announcing (actions : List PlannedAction) (history : List Binding)
    (m' : RuntimeMap) :
    verify d (announcing actions history) m m' = verify d history m m' := by
  obtain ⟨f, hmap, hf⟩ := announcing_eq actions
  have hrevoked : (history.map f).any (fun b => 0 < b.revoked && (m'.find b.key).isSome) =
      history.any fun b => 0 < b.revoked && (m'.find b.key).isSome := by
    rw [any_map]
    refine congrArg (List.any history) (funext fun b => ?_)
    obtain ⟨hkey, -, -, -, hrev, -⟩ := hf b
    rw [comp_apply, hkey, hrev]
  have hmanaged : ∀ k, (history.map f).any (fun b => b.key = k) =
    history.any fun b => b.key = k := by
    intro k
    rw [any_map]
    refine congrArg (List.any history) (funext fun b => ?_)
    rw [comp_apply, (hf b).1]
  unfold verify
  rw [hmap, hrevoked]
  simp only [hmanaged]

/-- Peers that need no action and show no change of foreign ones are verified. -/
theorem verify_of_plan {m' : RuntimeMap} (h : plan s d history m' = .ok [])
    (hframe : ∀ k ∉ history.map Binding.key, m'.find k = m.find k) :
    verify d history m m' = .ok () := by
  have hplanned := plan_ok h
  have hactions := hplanned.actions
  have hnone : removals history m' = [] := (append_eq_nil_iff.mp hactions.symm).1
  have hforeign : ∀ k, history.any (fun b => b.key = k) = false → k ∉ history.map Binding.key := by
    intro k hk hmem
    obtain ⟨b, hb, hkey⟩ := mem_map.mp hmem
    exact absurd (by simpa using hkey) (any_eq_false.mp hk b hb)
  refine deny_bind_ok.mpr ⟨?_, deny_bind_ok.mpr ⟨?_, deny_bind_ok.mpr ⟨?_, deny_ok.mpr ?_⟩⟩⟩
  · rw [any_eq_false]
    intro b hb hpresent
    rw [Bool.and_eq_true, decide_eq_true_eq] at hpresent
    have hmem := mem_removals.mpr ⟨b, hb, hpresent.1, hpresent.2, rfl⟩
    rw [hnone] at hmem
    exact absurd hmem not_mem_nil
  · rw [decide_eq_false_iff_not]
    rintro ⟨hactive, hkey, hwrong⟩
    obtain ⟨b, hb, hbkey, -, haddress⟩ := hplanned.current hactive hkey
    cases hfind : m'.find d.publicKey with
    | none =>
      rw [if_pos ⟨hactive, hkey, hfind⟩, hnone] at hactions
      cases hactions
    | some p =>
      obtain ⟨-, -, hpeer⟩ := planBinding_ok.mp (hplanned.each b hb)
      have hips := (hpeer p (by rw [hbkey]; exact hfind)).2
      rw [addressesOf, hfind, Option.map_some, hips, haddress] at hwrong
      exact hwrong rfl
  · refine has_eq_false.mpr fun p hp => ?_
    cases hmanaged : history.any fun b => b.key = p.publicKey with
    | true => rfl
    | false =>
      have hsame := hframe p.publicKey (hforeign _ hmanaged)
      rw [addressesOf, hsame, find_of_mem hp]
      simp
  · refine has_eq_false.mpr fun p hp => ?_
    cases hmanaged : history.any fun b => b.key = p.publicKey with
    | true => rfl
    | false =>
      have hsame := hframe p.publicKey (hforeign _ hmanaged)
      rw [← hsame, find_of_mem hp]
      rfl

/-- A plan that succeeds is correct and can be restarted: its run is verified, peers of other keys
never change, only keys of the history are touched, removals come before the one apply, and from
the runtime after any of its actions a new plan is what is left of it. -/
theorem plan_restarts (hrec : Recorded history) (h : plan s d history m = .ok actions) :
    verify d history m (runActions m actions) = .ok () ∧
      (∀ n, ∀ k ∉ history.map Binding.key, (runActions m (actions.take n)).find k = m.find k) ∧
      (∀ x ∈ actions, x.key ∈ history.map Binding.key) ∧
      (∃ removed applied, actions = removed ++ applied ∧ (∀ x ∈ removed, x.kind = .remove) ∧
        (∀ x ∈ applied, x.kind = .apply) ∧ applied.length ≤ 1) ∧
      ∀ n, ∃ again, plan s d (announcing actions history)
      (runActions m (actions.take n)) = .ok again ∧
        runActions (runActions m (actions.take n)) again = runActions m actions ∧
        plan s d (announcing actions history) (runActions m actions) = .ok [] := by
  have hplanned := plan_ok h
  obtain ⟨hrecorded, hagain, hkeys, hprior⟩ := plan_announcing hrec h
  have hleft := fun n => plan_left hrecorded hagain hprior n
  rw [hkeys] at hleft
  have hlast := (hleft actions.length).1
  rw [take_length, drop_length] at hlast
  have hframe := (hleft actions.length).2
  rw [take_length] at hframe
  refine ⟨?_, fun n => (hleft n).2, fun x hx => ?_, ?_,
    fun n => ⟨actions.drop n, (hleft n).1, ?_, hlast⟩⟩
  · rw [← verify_announcing actions]
    refine verify_of_plan hlast ?_
    rw [hkeys]
    exact hframe
  · obtain ⟨b, hb, hkey, -⟩ := hplanned.mem_history hx
    exact hkey ▸ mem_map_of_mem hb
  · refine ⟨removals history m, _, hplanned.actions, fun x hx => ?_, fun x hx => ?_, ?_⟩
    · obtain ⟨b, -, -, -, rfl⟩ := mem_removals.mp hx
      rfl
    · split at hx
      · cases mem_singleton.mp hx
        rfl
      · exact absurd hx not_mem_nil
    · split
      · exact le_rfl
      · exact Nat.zero_le _
  · unfold runActions
    rw [← foldl_append, take_append_drop]

end

def rotatedDevice : Device := ⟨"d1", "owner", .active, 1000, 2, 1, sampleKey true, sampleAddress⟩

/-- Its old key is revoked. -/
def rotatedHistory : List Binding :=
  [⟨sampleKey false, sampleAddress, "d1", "hub", 2, true, true⟩,
    ⟨sampleKey true, sampleAddress, "d1", "hub", 0, false, false⟩]

/-- The old key is a peer, and there is a foreign one. -/
def rotatedRuntime : RuntimeMap :=
  ⟨[samplePeer false, ⟨"other", ["10.8.0.0/16"]⟩], by decide +kernel⟩

def rotatedActions : List PlannedAction :=
  [⟨.remove, sampleKey false, sampleAddress⟩, ⟨.apply, sampleKey true, sampleAddress⟩]

/-- The rotation is verified and can be restarted after its removal. -/
theorem rotation_restarts :
    plan sampleStore rotatedDevice rotatedHistory rotatedRuntime = .ok rotatedActions ∧
      Recorded rotatedHistory ∧
      verify rotatedDevice rotatedHistory rotatedRuntime
        (runActions rotatedRuntime rotatedActions) = .ok () ∧
      ∃ again, plan sampleStore rotatedDevice (announcing rotatedActions rotatedHistory)
        (runActions rotatedRuntime (rotatedActions.take 1)) = .ok again := by
  have hplan : plan sampleStore rotatedDevice rotatedHistory rotatedRuntime =
    .ok rotatedActions := by
    decide +kernel
  have hcanonical : Canonical sampleAddress := by
    cases hp : parsePrefix sampleAddress with
    | none =>
      have hsome : (parsePrefix sampleAddress).isSome = true := by decide +kernel
      rw [hp] at hsome
      cases hsome
    | some p =>
      refine ⟨p, hp, ?_⟩
      have htext : (parsePrefix sampleAddress).map IpPrefix.string =
        some sampleAddress := by decide +kernel
      rw [hp, Option.map_some] at htext
      exact (Option.some.inj htext).symm
  have hrec : Recorded rotatedHistory := by
    refine ⟨by decide +kernel, fun b hb => ?_⟩
    rcases mem_cons.mp hb with rfl | hb
    · exact hcanonical
    · cases mem_singleton.mp hb
      exact hcanonical
  have hrestarts := plan_restarts hrec hplan
  obtain ⟨again, hagain, -⟩ := hrestarts.2.2.2.2 1
  exact ⟨hplan, hrec, hrestarts.1, again, hagain⟩

end DaxiangVpn.DeviceAuthPlanRuns
