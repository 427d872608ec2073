import DaxiangVpn.ProxyGate
import DaxiangVpn.TransitionRun

/-!
# Quarantine of the proxy gate

Every registration that is not released is in its admission, and that admission is
in the gate, so the gate takes an owner only when nothing is left of the ones
before. A cleanup batch holds exactly the registrations that are not released.
-/

namespace DaxiangVpn.ProxyGateQuarantine

open ProxyGate WriteFence NetipPrefix Function Finset

/-! ## Invariants of the gate -/

/-- What holds of a registration by itself. -/
structure RegOk (x : Registration) : Prop where
  once : x.ready ≤ 1
  decided : 0 < x.ready ∨ x.released = true → x.attached = true ∨ x.aborted = true
  aborted : x.aborted = true → x.attached = false ∧ x.ready = 1
  conn : x.attached = x.conn.isSome
  /-- A quarantined registration is released after its decision and after the close of
  its connection. -/
  quarantine : x.quarantined = true → x.released = true →
    0 < x.ready ∧ (x.conn ≠ none → x.closeReturned = true)

/-- What holds of the running cleanup. -/
structure BatchOk (g : Gate) (b : Batch) : Prop where
  owner : g.owner = ""
  covers : ∀ r, r ∈ b.pending ∨ r ∈ b.closing ↔ r < g.regCount ∧ (g.regs r).released = false
  disjoint : ∀ r, r ∈ b.pending → r ∉ b.closing
  announced : ∀ r, r ∈ b.closing → 0 < (g.regs r).ready
  quarantined : ∀ r, r < g.regCount → (g.regs r).released = false → (g.regs r).quarantined = true
  captured : ∀ r, r ∈ b.pending ∨ r ∈ b.closing → r ∈ b.registrations

structure Inv (g : Gate) : Prop where
  regOk : ∀ r, RegOk (g.regs r)
  kept : ∀ r, r < g.regCount → (g.regs r).released = false →
    r ∈ (g.adms (g.regs r).admission).registrations
  /-- An admission holds its own registrations that are not released. -/
  member : ∀ a r, r ∈ (g.adms a).registrations →
    r < g.regCount ∧ (g.regs r).admission = a ∧ (g.regs r).released = false
  /-- An admission that is not over is in the gate. -/
  listed : ∀ a, a < g.admCount → (g.adms a).registrations ≠ ∅ ∨ (g.adms a).released = false →
    a ∈ g.admissions
  bounded : ∀ a ∈ g.admissions, a < g.admCount
  belongs : ∀ r, r < g.regCount → (g.regs r).admission < g.admCount
  client : ∀ a, a < g.admCount →
    (g.adms a).client < g.regCount ∧ (g.regs (g.adms a).client).admission = a
  batch : ∀ b, g.cleanup = some b → BatchOk g b
  /-- Without a cleanup nothing that is not released is quarantined, and it has an owner. -/
  clean : g.cleanup = none → ∀ r, r < g.regCount → (g.regs r).released = false →
    (g.regs r).quarantined = false ∧ g.owner ≠ ""
  /-- What is not released was reserved under the present activation. -/
  regEpoch : ∀ r, r < g.regCount → (g.regs r).released = false → (g.regs r).epoch = g.epoch
  /-- What is in the gate was admitted under the present activation. -/
  admEpoch : ∀ a ∈ g.admissions, (g.adms a).epoch = g.epoch

variable {x : Registration} {g' : Gate} {a r : ℕ}

section

variable {g : Gate} {r : ℕ}

/-- The registrations a cleanup would capture are those that are not released. -/
theorem Inv.mem_unreleased (h : Inv g) :
    r ∈ g.unreleased ↔ r < g.regCount ∧ (g.regs r).released = false := by
  simp only [Gate.unreleased, mem_filter, mem_biUnion]
  constructor
  · rintro ⟨⟨a, -, hr⟩, hopen⟩
    exact ⟨(h.member a r hr).1, hopen⟩
  · rintro ⟨hr, hopen⟩
    have hmem := h.kept r hr hopen
    exact ⟨⟨_, h.listed _ (h.belongs r hr) (.inl (ne_empty_of_mem hmem)), hmem⟩, hopen⟩

theorem regOk_new (a e : ℕ) : RegOk (.new a e) := by
  constructor <;> simp [Registration.new]

/-- A change that gives no registration back and moves none. -/
structure Relabel (g g' : Gate) : Prop where
  /-- Registrations stay where they are. -/
  reg : ∀ r, (g'.regs r).admission = (g.regs r).admission ∧
    (g'.regs r).released = (g.regs r).released ∧ (g'.regs r).epoch = (g.regs r).epoch
  adm : ∀ a, (g'.adms a).registrations = (g.adms a).registrations ∧
    (g'.adms a).released = (g.adms a).released ∧ (g'.adms a).client = (g.adms a).client ∧
    (g'.adms a).epoch = (g.adms a).epoch
  admissions : g'.admissions = g.admissions
  admCount : g'.admCount = g.admCount
  regCount : g'.regCount = g.regCount
  epoch : g'.epoch = g.epoch

/-- After such a change only the registrations themselves and the cleanup need a look. -/
theorem Inv.relabel (h : Inv g) (hg : Relabel g g') (hreg : ∀ r, RegOk (g'.regs r))
    (hbatch : ∀ b, g'.cleanup = some b → BatchOk g' b)
    (hclean : g'.cleanup = none → ∀ r, r < g.regCount → (g.regs r).released = false →
      (g'.regs r).quarantined = false ∧ g'.owner ≠ "") : Inv g' where
  regOk := hreg
  kept := fun r hr hopen => by
    rw [(hg.reg r).1, (hg.adm _).1]
    exact h.kept r (hg.regCount ▸ hr) ((hg.reg r).2.1 ▸ hopen)
  member := fun a r hr => by
    rw [(hg.adm a).1] at hr
    rw [hg.regCount, (hg.reg r).1, (hg.reg r).2.1]
    exact h.member a r hr
  listed := fun a ha hopen => by
    rw [(hg.adm a).1, (hg.adm a).2.1] at hopen
    rw [hg.admissions]
    exact h.listed a (hg.admCount ▸ ha) hopen
  bounded := fun a ha => by
    rw [hg.admissions] at ha
    rw [hg.admCount]
    exact h.bounded a ha
  belongs := fun r hr => by
    rw [(hg.reg r).1, hg.admCount]
    exact h.belongs r (hg.regCount ▸ hr)
  client := fun a ha => by
    rw [(hg.adm a).2.2.1, hg.regCount, (hg.reg _).1]
    exact h.client a (hg.admCount ▸ ha)
  batch := hbatch
  clean := fun hnone r hr hopen =>
    hclean hnone r (hg.regCount ▸ hr) ((hg.reg r).2.1 ▸ hopen)
  regEpoch := fun r hr hopen => by
    rw [(hg.reg r).2.2, hg.epoch]
    exact h.regEpoch r (hg.regCount ▸ hr) ((hg.reg r).2.1 ▸ hopen)
  admEpoch := fun a ha => by
    rw [hg.admissions] at ha
    rw [(hg.adm a).2.2.2, hg.epoch]
    exact h.admEpoch a ha

theorem beginInvalidate_inv (h : Inv g) (owner : String) : Inv (g.beginInvalidate owner) := by
  unfold Gate.beginInvalidate
  split
  · exact h
  cases hcleanup : g.cleanup with
  | some b =>
    have hbatch := h.batch b hcleanup
    refine h.relabel ⟨fun _ => ⟨rfl, rfl, rfl⟩, fun _ => ⟨rfl, rfl, rfl, rfl⟩, rfl, rfl, rfl, rfl⟩
      h.regOk (fun b' hb' => ?_) fun hnone => ?_
    · cases hb'
      exact ⟨rfl, hbatch.covers, hbatch.disjoint, hbatch.announced, hbatch.quarantined,
        hbatch.captured⟩
    · cases hnone
  | none =>
    have hquarantined : ∀ r, r < g.regCount → (g.regs r).released = false →
        (if r ∈ g.unreleased then { g.regs r with quarantined := true } else g.regs r).quarantined =
          true := by
      intro r hr hfalse
      rw [if_pos (h.mem_unreleased.mpr ⟨hr, hfalse⟩)]
    refine h.relabel ⟨fun r => ?_, fun a => ?_, rfl, rfl, rfl, rfl⟩ (fun r => ?_) (fun b hb => ?_)
      fun hnone r hr hfalse => ?_
    · dsimp only
      split <;> exact ⟨rfl, rfl, rfl⟩
    · dsimp only
      split <;> exact ⟨rfl, rfl, rfl, rfl⟩
    · dsimp only
      split_ifs with hr
      · have hok := h.regOk r
        have hfalse := (h.mem_unreleased.mp hr).2
        exact ⟨hok.once, hok.decided, hok.aborted, hok.conn, fun _ hreleased => by
          rw [show (g.regs r).released = true from hreleased] at hfalse
          cases hfalse⟩
      · exact h.regOk r
    · dsimp only at hb
      split at hb
      · cases hb
      cases hb
      refine ⟨rfl, fun r => ?_, fun r _ => notMem_empty r, fun r hr => ?_, fun r hr hfalse => ?_,
        fun r hr => ?_⟩
      · simp only [notMem_empty, or_false]
        refine h.mem_unreleased.trans ?_
        split <;> exact Iff.rfl
      · cases notMem_empty r hr
      · refine hquarantined r hr ?_
        dsimp only at hfalse
        split at hfalse <;> exact hfalse
      · simpa using hr
    · dsimp only at hnone
      split at hnone
      · rename_i hempty
        have hmem := h.mem_unreleased.mpr ⟨hr, hfalse⟩
        rw [hempty] at hmem
        cases notMem_empty r hmem
      · cases hnone

theorem setReg_self (g : Gate) (r : ℕ) (f : Registration → Registration) :
    (g.setReg r f).regs r = f (g.regs r) := update_self ..

theorem setReg_of_ne (g : Gate) {q : ℕ} (hq : q ≠ r) (f : Registration → Registration) :
    (g.setReg r f).regs q = g.regs q := update_of_ne hq ..

theorem relabel_setReg (g : Gate) (r : ℕ) (f : Registration → Registration)
    (hf : (f (g.regs r)).admission = (g.regs r).admission ∧
      (f (g.regs r)).released = (g.regs r).released ∧ (f (g.regs r)).epoch = (g.regs r).epoch) :
    Relabel g (g.setReg r f) := by
  refine ⟨fun q => ?_, fun _ => ⟨rfl, rfl, rfl, rfl⟩, rfl, rfl, rfl, rfl⟩
  by_cases hq : q = r
  · subst hq
    rw [setReg_self]
    exact hf
  · rw [setReg_of_ne g hq]
    exact ⟨rfl, rfl, rfl⟩

/-- A change of one registration that keeps its place, its quarantine and its
announcement keeps the invariant. -/
theorem Inv.setReg (h : Inv g) {f : Registration → Registration}
    (hf : (f (g.regs r)).admission = (g.regs r).admission ∧
      (f (g.regs r)).released = (g.regs r).released ∧ (f (g.regs r)).epoch = (g.regs r).epoch)
    (hquarantined : (f (g.regs r)).quarantined = (g.regs r).quarantined)
    (hready : (g.regs r).ready ≤ (f (g.regs r)).ready) (hok : RegOk (f (g.regs r))) :
    Inv (g.setReg r f) := by
  have hlabel := relabel_setReg g r f hf
  have hkeeps : ∀ q, ((g.setReg r f).regs q).quarantined = (g.regs q).quarantined ∧
      (g.regs q).ready ≤ ((g.setReg r f).regs q).ready ∧ RegOk ((g.setReg r f).regs q) := by
    intro q
    by_cases hq : q = r
    · subst hq
      rw [setReg_self]
      exact ⟨hquarantined, hready, hok⟩
    · rw [setReg_of_ne g hq]
      exact ⟨rfl, le_rfl, h.regOk q⟩
  refine h.relabel hlabel (fun q => (hkeeps q).2.2) (fun b hb => ?_) fun hnone q hq hopen => ?_
  · have hbatch := h.batch b hb
    refine ⟨hbatch.owner, fun q => ?_, hbatch.disjoint, fun q hq => ?_, fun q hq hopen => ?_,
      hbatch.captured⟩
    · rw [(hlabel.reg q).2.1]
      exact hbatch.covers q
    · exact lt_of_lt_of_le (hbatch.announced q hq) (hkeeps q).2.1
    · rw [(hkeeps q).1]
      exact hbatch.quarantined q hq ((hlabel.reg q).2.1 ▸ hopen)
  · rw [(hkeeps q).1]
    exact h.clean hnone q hq hopen

/-- A registration that was decided may be given back; the cleanup is looked at apart. -/
theorem Inv.dropWith (h : Inv g) (hr : r < g.regCount) (c : Option Batch)
    (hdecided : (g.regs r).attached = true ∨ (g.regs r).aborted = true)
    (hquarantine : (g.regs r).quarantined = true →
      0 < (g.regs r).ready ∧ ((g.regs r).conn ≠ none → (g.regs r).closeReturned = true))
    (hbatch : ∀ b, c = some b → BatchOk { g.drop r with cleanup := c } b)
    (hclean : c = none → g.cleanup = none) : Inv { g.drop r with cleanup := c } := by
  have hself : (g.drop r).regs r = { g.regs r with released := true } := by
    simp [Gate.drop, Gate.setReg, Gate.setAdm]
  have hother : ∀ q, q ≠ r → (g.drop r).regs q = g.regs q := by
    intro q hq
    simp [Gate.drop, Gate.setReg, Gate.setAdm, update_of_ne hq]
  have hregs : ∀ a, ((g.drop r).adms a).registrations = (g.adms a).registrations.erase r := by
    intro a
    by_cases ha : a = (g.regs r).admission
    · subst ha
      simp [Gate.drop, Gate.setReg, Gate.setAdm]
    · have hnot : r ∉ (g.adms a).registrations := fun hmem => ha (h.member a r hmem).2.1.symm
      simp [Gate.drop, Gate.setReg, Gate.setAdm, update_of_ne ha, erase_eq_of_notMem hnot]
  have hadm : ∀ a, ((g.drop r).adms a).released = (g.adms a).released ∧
      ((g.drop r).adms a).client = (g.adms a).client ∧
      ((g.drop r).adms a).epoch = (g.adms a).epoch := by
    intro a
    by_cases ha : a = (g.regs r).admission
    · subst ha
      simp [Gate.drop, Gate.setReg, Gate.setAdm]
    · simp [Gate.drop, Gate.setReg, Gate.setAdm, update_of_ne ha]
  have hadmission : ∀ q, ((g.drop r).regs q).admission = (g.regs q).admission := by
    intro q
    by_cases hq : q = r
    · rw [hq, hself]
    · rw [hother q hq]
  have hopen : ∀ q, ((g.drop r).regs q).released = false →
      q ≠ r ∧ (g.drop r).regs q = g.regs q ∧ (g.regs q).released = false := by
    intro q hq
    have hne : q ≠ r := by
      rintro rfl
      rw [hself] at hq
      cases hq
    exact ⟨hne, hother q hne, hother q hne ▸ hq⟩
  refine ⟨fun q => ?_, fun q hq hfalse => ?_, fun a q hq => ?_, fun a ha hnot => ?_, h.bounded,
    fun q hq => ?_, fun a ha => ?_, hbatch, fun hnone q hq hfalse => ?_, fun q hq hfalse => ?_,
    fun a ha => ?_⟩
  · by_cases hq : q = r
    · rw [hq]
      rw [hself]
      have hok := h.regOk r
      exact ⟨hok.once, fun _ => hdecided, hok.aborted, hok.conn, fun hquar _ => hquarantine hquar⟩
    · change RegOk ((g.drop r).regs q)
      rw [hother q hq]
      exact h.regOk q
  · obtain ⟨hne, heq, hbefore⟩ := hopen q hfalse
    rw [heq, hregs]
    exact mem_erase.mpr ⟨hne, h.kept q hq hbefore⟩
  · change q ∈ ((g.drop r).adms a).registrations at hq
    rw [hregs] at hq
    obtain ⟨hne, hmem⟩ := mem_erase.mp hq
    rw [hother q hne]
    exact h.member a q hmem
  · change ((g.drop r).adms a).registrations ≠ ∅ ∨ ((g.drop r).adms a).released = false at hnot
    rw [hregs, (hadm a).1] at hnot
    refine h.listed a ha (hnot.imp_left fun hne hempty => hne ?_)
    rw [hempty, erase_empty]
  · change ((g.drop r).regs q).admission < g.admCount
    rw [hadmission]
    exact h.belongs q hq
  · change ((g.drop r).adms a).client < g.regCount ∧
      ((g.drop r).regs ((g.drop r).adms a).client).admission = a
    rw [(hadm a).2.1, hadmission]
    exact h.client a ha
  · obtain ⟨-, heq, hbefore⟩ := hopen q hfalse
    rw [heq]
    exact h.clean (hclean hnone) q hq hbefore
  · obtain ⟨-, heq, hbefore⟩ := hopen q hfalse
    rw [heq]
    exact h.regEpoch q hq hbefore
  · change ((g.drop r).adms a).epoch = g.epoch
    rw [(hadm a).2.2]
    exact h.admEpoch a ha

/-- Without a cleanup a decided registration may be given back. -/
theorem Inv.drop (h : Inv g) (hr : r < g.regCount) (hcleanup : g.cleanup = none)
    (hdecided : (g.regs r).attached = true ∨ (g.regs r).aborted = true)
    (hfree : (g.regs r).quarantined = false) : Inv (g.drop r) := by
  have hdrop : Inv { g.drop r with cleanup := none } := by
    refine h.dropWith hr none hdecided (fun hquar => ?_) nofun fun _ => hcleanup
    cases hfree.symm.trans hquar
  have heq : g.drop r = { g.drop r with cleanup := none } := by
    rw [← hcleanup]
    rfl
  rw [heq]
  exact hdrop

/-- Admissions may end and those that are over may leave the gate. -/
theorem Inv.readmit (h : Inv g) {f : ℕ → Admission} {s : Finset ℕ}
    (hf : ∀ a, (f a).registrations = (g.adms a).registrations ∧ (f a).client = (g.adms a).client ∧
      (f a).epoch = (g.adms a).epoch) (hs : s ⊆ g.admissions)
    (hlisted : ∀ a, a < g.admCount → (f a).registrations ≠ ∅ ∨ (f a).released = false → a ∈ s) :
    Inv { g with adms := f, admissions := s } := by
  refine ⟨h.regOk, fun r hr hfalse => ?_, fun a r hr => ?_, hlisted,
    fun a ha => h.bounded a (hs ha), h.belongs, fun a ha => ?_, fun b hb => ?_, h.clean,
    h.regEpoch, fun a ha => ?_⟩
  · dsimp only
    rw [(hf _).1]
    exact h.kept r hr hfalse
  · dsimp only at hr
    rw [(hf a).1] at hr
    exact h.member a r hr
  · dsimp only
    rw [(hf a).2.1]
    exact h.client a ha
  · have hbatch := h.batch b hb
    exact ⟨hbatch.owner, hbatch.covers, hbatch.disjoint, hbatch.announced, hbatch.quarantined,
      hbatch.captured⟩
  · dsimp only
    rw [(hf a).2.2]
    exact h.admEpoch a (hs ha)

theorem sweep_inv (h : Inv g) (a : ℕ) : Inv (g.sweep a) := by
  unfold Gate.sweep
  split_ifs with hover
  · refine h.readmit (fun _ => ⟨rfl, rfl, rfl⟩) (erase_subset a g.admissions) fun a' ha' hnot => ?_
    refine mem_erase.mpr ⟨?_, h.listed a' ha' hnot⟩
    rintro rfl
    rcases hnot with hnot | hnot
    · exact hnot hover.2
    · cases hover.1.symm.trans hnot
  · exact h

theorem owner_of_isOpen {now : ℤ} (h : g.isOpen now = true) : g.owner ≠ "" := by
  unfold Gate.isOpen at h
  split at h
  · cases h
  · simp only [Bool.and_eq_true, decide_eq_true_eq] at h
    exact h.1

/-- A new reservation of an admission in the gate. The admission may be new itself. -/
theorem Inv.addReg (h : Inv g) (hcleanup : g.cleanup = none) (howner : g.owner ≠ "")
    (adm : Admission) {n : ℕ}
    (hcount : n = g.admCount ∧ a < g.admCount ∧ adm.client = (g.adms a).client ∧
      adm.registrations = insert g.regCount (g.adms a).registrations ∧ a ∈ g.admissions ∨
      n = g.admCount + 1 ∧ a = g.admCount ∧ adm.client = g.regCount ∧
      adm.registrations = {g.regCount})
    (hepoch : adm.epoch = g.epoch) :
    Inv { g with
      admissions := insert a g.admissions
      adms := update g.adms a adm
      admCount := n
      regs := update g.regs g.regCount (.new a g.epoch)
      regCount := g.regCount + 1 } := by
  have hempty : ∀ r, r ∈ (g.adms g.admCount).registrations → False := by
    intro r hr
    have hm := h.member _ r hr
    have hb := h.belongs r hm.1
    omega
  have hle : g.admCount ≤ n ∧ a < n := by
    rcases hcount with ⟨rfl, ha, -⟩ | ⟨rfl, rfl, -⟩
    · exact ⟨le_rfl, ha⟩
    · exact ⟨by omega, by omega⟩
  have hsplit : ∀ a', a' < n → a' = a ∨ a' < g.admCount := by
    intro a' ha'
    rcases hcount with ⟨rfl, -⟩ | ⟨rfl, rfl, -⟩
    · exact .inr ha'
    · omega
  have hregs : ∀ r, r ∈ adm.registrations ↔ r = g.regCount ∨ r ∈ (g.adms a).registrations := by
    intro r
    rcases hcount with ⟨-, -, -, hr, -⟩ | ⟨-, rfl, -, hr⟩
    · rw [hr, mem_insert]
    · rw [hr, mem_singleton]
      exact ⟨.inl, fun hor => hor.resolve_right (hempty r)⟩
  have hold : ∀ r, r < g.regCount → update g.regs g.regCount (.new a g.epoch) r = g.regs r :=
    fun r hr => update_of_ne (by omega) ..
  have hnew : update g.regs g.regCount (.new a g.epoch) g.regCount = .new a g.epoch :=
    update_self ..
  have hless : ∀ r, r < g.regCount + 1 → r = g.regCount ∨ r < g.regCount := by omega
  refine ⟨fun r => ?_, fun r hr hfalse => ?_, fun a' r hr => ?_, fun a' ha' hnot => ?_,
    fun a' ha' => ?_, fun r hr => ?_, fun a' ha' => ?_, fun b hb => ?_, fun _ r hr hfalse => ?_,
    fun r hr hfalse => ?_, fun a' ha' => ?_⟩
  · by_cases hr : r = g.regCount
    · subst hr
      dsimp only
      rw [hnew]
      exact regOk_new a g.epoch
    · dsimp only
      rw [update_of_ne hr]
      exact h.regOk r
  · dsimp only at hr hfalse ⊢
    rcases hless r hr with rfl | hlt
    · rw [hnew]
      simp only [Registration.new, update_self]
      exact (hregs _).mpr (.inl rfl)
    rw [hold r hlt] at hfalse ⊢
    have hmem := h.kept r hlt hfalse
    by_cases ha : (g.regs r).admission = a
    · rw [ha, update_self]
      exact (hregs r).mpr (.inr (ha ▸ hmem))
    · rw [update_of_ne ha]
      exact hmem
  · dsimp only at hr ⊢
    by_cases ha : a' = a
    · subst ha
      rw [update_self] at hr
      rcases (hregs r).mp hr with rfl | hr
      · rw [hnew]
        exact ⟨by omega, rfl, rfl⟩
      · obtain ⟨hlt, hin, hopen⟩ := h.member a' r hr
        rw [hold r hlt]
        exact ⟨by omega, hin, hopen⟩
    · rw [update_of_ne ha] at hr
      obtain ⟨hlt, hin, hopen⟩ := h.member a' r hr
      rw [hold r hlt]
      exact ⟨by omega, hin, hopen⟩
  · dsimp only at ha' hnot ⊢
    by_cases ha : a' = a
    · rw [ha]
      exact mem_insert_self ..
    · rw [update_of_ne ha] at hnot
      exact mem_insert_of_mem (h.listed a' ((hsplit a' ha').resolve_left ha) hnot)
  · rcases mem_insert.mp ha' with rfl | ha'
    · exact hle.2
    · exact lt_of_lt_of_le (h.bounded a' ha') hle.1
  · dsimp only at hr ⊢
    rcases hless r hr with rfl | hlt
    · rw [hnew]
      exact hle.2
    · rw [hold r hlt]
      exact lt_of_lt_of_le (h.belongs r hlt) hle.1
  · dsimp only at ha' ⊢
    by_cases ha : a' = a
    · subst ha
      rw [update_self]
      rcases hcount with ⟨-, hlt, hclient, -⟩ | ⟨-, -, hclient, -⟩
      · obtain ⟨hc, hin⟩ := h.client a' hlt
        rw [hclient, hold _ hc]
        exact ⟨by omega, hin⟩
      · rw [hclient, hnew]
        exact ⟨by omega, rfl⟩
    · obtain ⟨hc, hin⟩ := h.client a' ((hsplit a' ha').resolve_left ha)
      rw [update_of_ne ha, hold _ hc]
      exact ⟨by omega, hin⟩
  · cases hcleanup.symm.trans hb
  · dsimp only at hr hfalse ⊢
    rcases hless r hr with rfl | hlt
    · rw [hnew]
      exact ⟨rfl, howner⟩
    · rw [hold r hlt] at hfalse ⊢
      exact h.clean hcleanup r hlt hfalse
  · dsimp only at hr hfalse ⊢
    rcases hless r hr with rfl | hlt
    · rw [hnew]
      rfl
    · rw [hold r hlt] at hfalse ⊢
      exact h.regEpoch r hlt hfalse
  · dsimp only at ha' ⊢
    by_cases ha : a' = a
    · rw [ha, update_self]
      exact hepoch
    · rw [update_of_ne ha]
      exact h.admEpoch a' (mem_of_mem_insert_of_ne ha' ha)

theorem acquireSource_inv (h : Inv g) (now : ℤ) (a : Addr) : Inv (g.acquireSource now a).1 := by
  unfold Gate.acquireSource
  split
  · exact h
  split
  · exact h
  · rename_i hopen
    split
    · exact beginInvalidate_inv h ""
    · simp only [not_or, Option.not_isSome_iff_eq_none, Bool.not_eq_false] at hopen
      exact h.addReg hopen.1 (owner_of_isOpen hopen.2) _ (.inr ⟨rfl, rfl, rfl, rfl⟩) rfl

theorem reserve_inv (h : Inv g) (now : ℤ) (ha : a < g.admCount) : Inv (g.reserve now a).1 := by
  unfold Gate.reserve
  split
  · exact h
  rename_i hopen
  split
  · exact beginInvalidate_inv h ""
  simp only [not_or, Bool.not_eq_false, Bool.not_eq_true] at hopen
  have hlisted := h.listed a ha (.inr hopen.1)
  have hadd := h.addReg (Option.isSome_eq_false_iff.mp hopen.2.2.1 |> Option.isNone_iff_eq_none.mp)
    (owner_of_isOpen hopen.2.2.2)
    { g.adms a with registrations := insert g.regCount (g.adms a).registrations }
    (.inl ⟨rfl, ha, rfl, rfl, hlisted⟩) (h.admEpoch a hlisted)
  rw [insert_eq_of_mem hlisted] at hadd
  exact hadd

theorem RegOk.pending (h : RegOk x) (hattached : x.attached = false)
    (haborted : x.aborted = false) : x.ready = 0 ∧ x.released = false := by
  have hdecided := h.decided
  simp only [hattached, haborted, Bool.false_eq_true, or_self, imp_false, not_or, Bool.not_eq_true]
    at hdecided
  exact ⟨by omega, hdecided.2⟩

/-- Attaching a connection to a registration that is not decided, announced or not. -/
theorem Inv.connect (h : Inv g) {f : Registration → Registration}
    (hattached : (g.regs r).attached = false) (haborted : (g.regs r).aborted = false)
    (hf : ∃ c n fence, n ≤ 1 ∧ f (g.regs r) = { g.regs r with
      conn := some c, attached := true, ready := (g.regs r).ready + n, fence := fence }) :
    Inv (g.setReg r f) := by
  obtain ⟨c, n, fence, hn, hf⟩ := hf
  obtain ⟨hready, hreleased⟩ := (h.regOk r).pending hattached haborted
  refine h.setReg ?_ ?_ ?_ ?_
  · rw [hf]
    exact ⟨rfl, rfl, rfl⟩
  · rw [hf]
  · rw [hf]
    exact Nat.le_add_right ..
  · rw [hf]
    refine ⟨?_, fun _ => .inl rfl, fun hab => ?_, rfl, fun _ hrel => ?_⟩
    · dsimp only
      omega
    · cases haborted.symm.trans hab
    · cases hreleased.symm.trans hrel

/-- The first section of `Attach` keeps the invariant. -/
theorem attach_inv (h : Inv g) (now : ℤ) (r : ℕ) (c : Conn) : Inv (g.attach now r c).1 := by
  unfold Gate.attach
  split
  · exact h
  rename_i hattached
  rw [Bool.not_eq_true] at hattached
  split
  · exact h
  rename_i hopen
  simp only [not_or, Bool.not_eq_true] at hopen
  split
  · dsimp only
    exact h.connect hattached hopen.1 ⟨c, 0, (g.regs r).fence, by omega, rfl⟩
  · dsimp only
    exact h.connect hattached hopen.1 ⟨c, 1, (g.regs r).fence, by omega, rfl⟩

/-- The first section of `AttachFenced` keeps the invariant. -/
theorem attachFenced_inv (h : Inv g) (now : ℤ) (r : ℕ) (c : Conn) :
    Inv (g.attachFenced now r c).1 := by
  unfold Gate.attachFenced
  split
  · exact h
  split
  · exact h
  rename_i hopen
  simp only [not_or, Bool.not_eq_true] at hopen
  split
  · dsimp only
    exact h.connect hopen.1 hopen.2.1 ⟨.fence r, 0, some (.new c), by omega, rfl⟩
  · dsimp only
    exact h.connect hopen.1 hopen.2.1 ⟨.fence r, 1, some (.new c), by omega, rfl⟩

/-- Announcing a connection that was not announced keeps the invariant. -/
theorem closeReady_inv (h : Inv g) (hattached : (g.regs r).attached = true)
    (hready : (g.regs r).ready = 0) : Inv (g.closeReady r) := by
  have hok := h.regOk r
  refine h.setReg ⟨rfl, rfl, rfl⟩ rfl (Nat.le_succ _) ⟨?_, fun _ => .inl hattached, fun hab => ?_,
    hok.conn, fun hquar hrel => ?_⟩
  · dsimp only
    omega
  · cases (hok.aborted hab).1.symm.trans hattached
  · have := (hok.quarantine hquar hrel).1
    omega

/-- An abort of a registration that is not decided, before it is given back. -/
theorem Inv.abandon (h : Inv g) (hattached : (g.regs r).attached = false)
    (haborted : (g.regs r).aborted = false) :
    Inv (g.setReg r fun x => { x with aborted := true, ready := x.ready + 1 }) := by
  have hok := h.regOk r
  obtain ⟨hready, hreleased⟩ := hok.pending hattached haborted
  refine h.setReg ⟨rfl, rfl, rfl⟩ rfl (Nat.le_succ _)
    ⟨?_, fun _ => .inr rfl, fun _ => ⟨hattached, ?_⟩, hok.conn, fun _ hrel => ?_⟩
  · dsimp only
    omega
  · dsimp only
    omega
  · cases hreleased.symm.trans hrel

/-- A registration outside quarantine that is not released meets no cleanup. -/
theorem Inv.cleanup_none (h : Inv g) (hr : r < g.regCount) (hreleased : (g.regs r).released = false)
    (hfree : (g.regs r).quarantined = false) : g.cleanup = none := by
  cases hcleanup : g.cleanup with
  | none => rfl
  | some b => cases ((h.batch b hcleanup).quarantined r hr hreleased).symm.trans hfree

/-- `Abort` keeps the invariant. -/
theorem abort_inv (h : Inv g) (hr : r < g.regCount) : Inv (g.abort r) := by
  unfold Gate.abort
  split
  · exact h
  rename_i hopen
  simp only [not_or, Bool.not_eq_true] at hopen
  have hab := h.abandon hopen.1 hopen.2.1
  split_ifs with hfree
  · exact hab
  rw [Bool.not_eq_true] at hfree
  have hcleanup := h.cleanup_none hr hopen.2.2 hfree
  refine sweep_inv (hab.drop hr hcleanup ?_ ?_) _
  · rw [setReg_self]
    exact .inr rfl
  · rw [setReg_self]
    exact hfree

/-- `Registration.Release` does nothing, or gives back a decided registration outside
quarantine. -/
theorem release_cases (g : Gate) (r : ℕ) : g.release r = g ∨
    ((g.regs r).quarantined = false ∧ (g.regs r).released = false) ∧
      ((g.regs r).attached = true ∨ (g.regs r).aborted = true) ∧
      g.release r = (g.drop r).sweep (g.regs r).admission := by
  unfold Gate.release
  split
  · exact .inl rfl
  rename_i hopen
  simp only [not_or, Bool.not_eq_true] at hopen
  split
  · exact .inl rfl
  · split_ifs with hdecided
    · exact .inl rfl
    · rw [not_and_or, Bool.not_eq_false, Bool.not_eq_false] at hdecided
      exact .inr ⟨hopen, hdecided, rfl⟩

section

variable (h : Inv g)
include h

/-- `Registration.Release` keeps the invariant. -/
theorem release_inv (hr : r < g.regCount) : Inv (g.release r) := by
  rcases release_cases g r with heq | ⟨hopen, hdecided, heq⟩
  · rw [heq]
    exact h
  · rw [heq]
    exact sweep_inv (h.drop hr (h.cleanup_none hr hopen.2 hopen.1) hdecided hopen.1) _

theorem Inv.finish (a : ℕ) :
    Inv (g.setAdm a fun x => { x with released := true, cancelled := true }) := by
  refine h.readmit (fun a' => ?_) (Finset.Subset.refl _) fun a' ha' hnot => h.listed a' ha' ?_
  · by_cases ha : a' = a
    · subst ha
      rw [update_self]
      exact ⟨rfl, rfl, rfl⟩
    · rw [update_of_ne ha]
      exact ⟨rfl, rfl, rfl⟩
  · by_cases ha : a' = a
    · subst ha
      rw [update_self] at hnot
      exact hnot.imp_right nofun
    · rw [update_of_ne ha] at hnot
      exact hnot

/-- `Admission.Release` keeps the invariant. -/
theorem releaseAdmission_inv (ha : a < g.admCount) : Inv (g.releaseAdmission a) := by
  unfold Gate.releaseAdmission
  split
  · exact h
  dsimp only
  refine sweep_inv ?_ a
  have hclient := (h.client a ha).1
  have hended := h.finish a
  split
  · rename_i hfree
    have hcleanup := h.cleanup_none hclient hfree.2 hfree.1
    split_ifs with hpending
    · have haborted := hended.abandon hpending.1 hpending.2.1
      refine haborted.drop hclient hcleanup ?_ ?_
      · rw [setReg_self]
        exact .inr rfl
      · rw [setReg_self]
        exact hfree.1
    · refine hended.drop hclient hcleanup ?_ hfree.1
      rw [not_and_or, not_and_or, Bool.not_eq_false, Bool.not_eq_false,
        Bool.not_eq_false] at hpending
      rcases hpending with hatt | hab | hrel
      · exact .inl hatt
      · exact .inr hab
      · cases hfree.2.symm.trans hrel
  · split_ifs with hpending
    · exact hended.abandon hpending.1 hpending.2.1
    · exact hended

/-- A worker that takes up a registration keeps the invariant. -/
theorem take_inv (r : ℕ) : Inv (g.take r) := by
  unfold Gate.take
  cases hcleanup : g.cleanup with
  | none => exact h
  | some b =>
    have hbatch := h.batch b hcleanup
    dsimp only
    split_ifs with hr
    · refine h.relabel ⟨fun _ => ⟨rfl, rfl, rfl⟩, fun _ => ⟨rfl, rfl, rfl, rfl⟩, rfl, rfl, rfl, rfl⟩
        h.regOk (fun b' hb' => ?_) nofun
      cases hb'
      have hmem : ∀ q, (q ∈ b.pending.erase r ∨ q ∈ insert r b.closing) ↔
          (q ∈ b.pending ∨ q ∈ b.closing) := by
        intro q
        by_cases hq : q = r
        · subst hq
          simp [hr.1]
        · simp [hq]
      refine ⟨hbatch.owner, fun q => (hmem q).trans (hbatch.covers q),
        fun q hq => ?_, fun q hq => ?_, hbatch.quarantined, fun q hq => hbatch.captured q
          ((hmem q).mp hq)⟩
      · obtain ⟨hne, hpending⟩ := mem_erase.mp hq
        rw [mem_insert, not_or]
        exact ⟨hne, hbatch.disjoint q hpending⟩
      · rcases mem_insert.mp hq with rfl | hclosing
        · exact hr.2
        · exact hbatch.announced q hclosing
    · exact h

theorem closeReturned_inv (r : ℕ) : Inv (g.closeReturned r) := by
  unfold Gate.closeReturned
  split
  · exact h
  · split
    · have hok := h.regOk r
      exact h.setReg ⟨rfl, rfl, rfl⟩ rfl le_rfl ⟨hok.once, hok.decided, hok.aborted, hok.conn,
        fun hquar hrel => ⟨(hok.quarantine hquar hrel).1, fun _ => rfl⟩⟩
    · exact h

/-- A worker that gives its registration back keeps the invariant. -/
theorem workerRelease_inv (r : ℕ) : Inv (g.workerRelease r) := by
  unfold Gate.workerRelease
  cases hcleanup : g.cleanup with
  | none => exact h
  | some b =>
    have hbatch := h.batch b hcleanup
    dsimp only
    split_ifs with hr
    · have hcovered := (hbatch.covers r).mp (.inr hr.1)
      have hready := hbatch.announced r hr.1
      refine h.dropWith hcovered.1 _ ((h.regOk r).decided (.inl hready))
        (fun _ => ⟨hready, fun hconn => hr.2.resolve_left hconn⟩) (fun b' hb' => ?_)
        nofun
      cases hb'
      have hself : (g.drop r).regs r = { g.regs r with released := true } := by
        simp [Gate.drop, Gate.setReg, Gate.setAdm]
      have hother : ∀ q, q ≠ r → (g.drop r).regs q = g.regs q := by
        intro q hq
        simp [Gate.drop, Gate.setReg, Gate.setAdm, update_of_ne hq]
      have hne : ∀ q, q ∈ b.pending → q ≠ r := by
        rintro q hq rfl
        exact hbatch.disjoint q hq hr.1
      refine ⟨hbatch.owner, fun q => ?_, fun q hq hmem => ?_, fun q hq => ?_, fun q hq hfalse => ?_,
        fun q hq => ?_⟩
      · change _ ↔ q < g.regCount ∧ ((g.drop r).regs q).released = false
        by_cases hq : q = r
        · subst hq
          rw [hself]
          refine ⟨fun hor => ?_, fun hor => by cases hor.2⟩
          rcases hor with hpending | hclosing
          · cases hne q hpending rfl
          · cases (mem_erase.mp hclosing).1 rfl
        · rw [hother q hq, ← hbatch.covers q]
          simp [hq]
      · exact hbatch.disjoint q hq (mem_of_mem_erase hmem)
      · obtain ⟨hq', hclosing⟩ := mem_erase.mp hq
        rw [hother q hq']
        exact hbatch.announced q hclosing
      · change ((g.drop r).regs q).quarantined = true
        by_cases hq' : q = r
        · rw [hq', hself] at hfalse
          cases hfalse
        · rw [hother q hq'] at hfalse ⊢
          exact hbatch.quarantined q hq hfalse
      · exact hbatch.captured q (hq.imp_right mem_of_mem_erase)
    · exact h

theorem finishCleanup_inv : Inv g.finishCleanup := by
  unfold Gate.finishCleanup
  cases hcleanup : g.cleanup with
  | none => exact h
  | some b =>
    have hbatch := h.batch b hcleanup
    dsimp only
    split_ifs with hdone
    · have hall : ∀ r, r < g.regCount → (g.regs r).released = true := by
        intro r hr
        by_contra hfalse
        have hin := (hbatch.covers r).mpr ⟨hr, Bool.eq_false_iff.mpr hfalse⟩
        rw [hdone.1, hdone.2] at hin
        simp at hin
      have hempty : ∀ a, (g.adms a).registrations = ∅ := by
        intro a
        refine eq_empty_of_forall_notMem fun r hr => ?_
        obtain ⟨hlt, -, hfalse⟩ := h.member a r hr
        cases (hall r hlt).symm.trans hfalse
      have hidle : Inv { g with cleanup := none } := by
        refine h.relabel
          ⟨fun _ => ⟨rfl, rfl, rfl⟩, fun _ => ⟨rfl, rfl, rfl, rfl⟩, rfl, rfl, rfl, rfl⟩
          h.regOk nofun fun _ r hr hfalse => ?_
        cases (hall r hr).symm.trans hfalse
      refine hidle.readmit (fun a => ?_) (filter_subset ..) fun a ha hnot => ?_
      · dsimp only
        split <;> exact ⟨rfl, rfl, rfl⟩
      · split at hnot
        · exact hnot.elim (fun hne => absurd (hempty a) hne) nofun
        · rename_i hstays
          have hin := h.listed a ha hnot
          exact mem_filter.mpr ⟨hin, fun hover => hstays ⟨hin, hover⟩⟩
    · exact h

theorem Inv.all_released (hempty : g.admissions = ∅) (hr : r < g.regCount) :
    (g.regs r).released = true := by
  by_contra hfalse
  have hin := h.mem_unreleased.mpr ⟨hr, Bool.eq_false_iff.mpr hfalse⟩
  rw [Gate.unreleased, hempty] at hin
  simp at hin

theorem own_inv (owner : String) : Inv (g.own owner).1 := by
  unfold Gate.own
  split
  · exact h
  rename_i hempty
  split
  · exact h
  simp only [not_or, Option.not_isSome_iff_eq_none, not_not] at hempty
  have hfalse : ∀ {P : Prop} r, r < g.regCount → (g.regs r).released = false → P := by
    intro P r hr hfalse
    cases (h.all_released hempty.2 hr).symm.trans hfalse
  refine ⟨h.regOk, h.kept, h.member, h.listed, h.bounded, h.belongs, h.client, fun b hb => ?_,
    fun _ r hr hopen => hfalse r hr hopen, fun r hr hopen => hfalse r hr hopen, fun a ha => ?_⟩
  · cases hempty.1.symm.trans hb
  · rw [show _ = ∅ from hempty.2] at ha
    cases notMem_empty a ha

theorem grant_inv (owner : String) (untilTime asked : ℤ) :
    Inv (g.grant owner untilTime asked).1 := by
  unfold Gate.grant
  split
  · exact h
  split
  · exact h
  · refine h.relabel ⟨fun _ => ⟨rfl, rfl, rfl⟩, fun _ => ⟨rfl, rfl, rfl, rfl⟩, rfl, rfl, rfl, rfl⟩
      h.regOk (fun b hb => ?_) h.clean
    have hbatch := h.batch b hb
    exact ⟨hbatch.owner, hbatch.covers, hbatch.disjoint, hbatch.announced, hbatch.quarantined,
      hbatch.captured⟩

theorem fence_inv (r : ℕ) (fence : Option Fence) :
    Inv (g.setReg r fun x => { x with fence := fence }) := by
  have hok := h.regOk r
  exact h.setReg ⟨rfl, rfl, rfl⟩ rfl le_rfl
    ⟨hok.once, hok.decided, hok.aborted, hok.conn, hok.quarantine⟩

end

end

/-! ## What a step does to a registration -/

/-- What may happen to a registration in one step. The callers that release it and the
threads that announce it are told apart. -/
inductive RegMove (freed announced : Prop) (x y : Registration) : Prop
  | keep (quarantined closeReturned : Bool) (fence : Option Fence)
      (eq : y = { x with quarantined := quarantined, closeReturned := closeReturned, fence := fence })
  | attach (c : Conn) (n : ℕ) (fence : Option Fence) (attached : x.attached = false)
      (eq : y = { x with conn := some c, attached := true, ready := x.ready + n, fence := fence })
  | announce (by_thread : announced) (eq : y = { x with ready := x.ready + 1 })
  /-- The creation is given up. -/
  | abandon (released : Bool) (attached : x.attached = false)
      (free : released = true → x.quarantined = false)
      (eq : y = { x with aborted := true, ready := x.ready + 1, released := released })
  | release (fence : Option Fence) (by_caller : freed) (free : x.quarantined = false)
      (decided : x.attached = true ∨ x.aborted = true)
      (eq : y = { x with released := true, fence := fence })
  /-- A cleanup worker releases it. -/
  | reap (ready : 0 < x.ready) (closed : x.conn = none ∨ x.closeReturned = true)
      (eq : y = { x with released := true })

/-- What a section does to the registrations and to the activation. -/
structure Moves (freed announced : ℕ → Prop) (g g' : Gate) : Prop where
  reg : ∀ r, r < g.regCount → RegMove (freed r) (announced r) (g.regs r) (g'.regs r)
  regCount : g.regCount ≤ g'.regCount
  /-- An activation begins in a gate without admissions. -/
  epoch : g'.epoch = g.epoch ∨ g.admissions = ∅

section

variable {g : Gate} {freed announced : ℕ → Prop}

theorem RegMove.refl {A B : Prop} (x : Registration) : RegMove A B x x :=
  .keep x.quarantined x.closeReturned x.fence rfl

theorem Moves.refl (g : Gate) : Moves freed announced g g :=
  ⟨fun _ _ => .refl _, le_rfl, .inl rfl⟩

theorem Moves.of_regs (hregs : g'.regs = g.regs) (hcount : g'.regCount = g.regCount)
    (hepoch : g'.epoch = g.epoch ∨ g.admissions = ∅) : Moves freed announced g g' := by
  refine ⟨fun r _ => ?_, hcount.ge, hepoch⟩
  rw [hregs]
  exact .refl _

theorem Moves.of_reg (hregs : g'.regs = update g.regs r x)
    (hmove : RegMove (freed r) (announced r) (g.regs r) x) (hcount : g'.regCount = g.regCount)
    (hepoch : g'.epoch = g.epoch) : Moves freed announced g g' := by
  refine ⟨fun q _ => ?_, hcount.ge, .inl hepoch⟩
  rw [hregs]
  by_cases hq : q = r
  · subst hq
    rw [update_self]
    exact hmove
  · rw [update_of_ne hq]
    exact .refl _

theorem Moves.of_new (hregs : g'.regs = update g.regs g.regCount x)
    (hcount : g'.regCount = g.regCount + 1) (hepoch : g'.epoch = g.epoch) :
    Moves freed announced g g' := by
  refine ⟨fun q hq => ?_, by omega, .inl hepoch⟩
  rw [hregs, update_of_ne (by omega)]
  exact .refl _

theorem sweep_regs (g : Gate) (a : ℕ) : (g.sweep a).regs = g.regs ∧
    (g.sweep a).regCount = g.regCount ∧ (g.sweep a).epoch = g.epoch := by
  unfold Gate.sweep
  split <;> exact ⟨rfl, rfl, rfl⟩

theorem drop_regs (g : Gate) (r : ℕ) :
    (g.drop r).regs = update g.regs r { g.regs r with released := true } := rfl

theorem beginInvalidate_moves (owner : String) : Moves freed announced g (g.beginInvalidate owner) := by
  unfold Gate.beginInvalidate
  split
  · exact .refl g
  split
  · exact .of_regs rfl rfl (.inl rfl)
  · refine ⟨fun r _ => ?_, le_rfl, .inl rfl⟩
    dsimp only
    split
    · exact .keep true _ _ rfl
    · exact .refl _

theorem acquireSource_moves (now : ℤ) (a : Addr) :
    Moves freed announced g (g.acquireSource now a).1 := by
  unfold Gate.acquireSource
  split
  · exact .refl g
  · split
    · exact .refl g
    · split
      · exact beginInvalidate_moves ""
      · exact .of_new rfl rfl rfl

theorem reserve_moves (now : ℤ) (a : ℕ) : Moves freed announced g (g.reserve now a).1 := by
  unfold Gate.reserve
  split
  · exact .refl g
  · split
    · exact beginInvalidate_moves ""
    · exact .of_new rfl rfl rfl

theorem attach_moves (now : ℤ) (r : ℕ) (c : Conn) : Moves freed announced g (g.attach now r c).1 := by
  unfold Gate.attach
  split
  · exact .refl g
  rename_i hattached
  rw [Bool.not_eq_true] at hattached
  split
  · exact .refl g
  · split
    · exact .of_reg rfl (.attach c 0 _ hattached rfl) rfl rfl
    · exact .of_reg rfl (.attach c 1 _ hattached rfl) rfl rfl

theorem attachFenced_moves (now : ℤ) (r : ℕ) (c : Conn) : Moves freed announced g (g.attachFenced now r c).1 := by
  unfold Gate.attachFenced
  split
  · exact .refl g
  split
  · exact .refl g
  · rename_i hopen
    simp only [not_or, Bool.not_eq_true] at hopen
    split
    · exact .of_reg rfl (.attach (.fence r) 0 (some (.new c)) hopen.1 rfl) rfl rfl
    · exact .of_reg rfl (.attach (.fence r) 1 (some (.new c)) hopen.1 rfl) rfl rfl

theorem abort_moves (r : ℕ) : Moves freed announced g (g.abort r) := by
  unfold Gate.abort
  split
  · exact .refl g
  rename_i hopen
  simp only [not_or, Bool.not_eq_true] at hopen
  split_ifs with hfree
  · refine .of_reg rfl (.abandon false hopen.1 nofun ?_) rfl rfl
    rw [← hopen.2.2]
  · rw [Bool.not_eq_true] at hfree
    refine .of_reg ((sweep_regs ..).1.trans ?_) (.abandon true hopen.1 (fun _ => hfree) rfl)
      (sweep_regs ..).2.1 (sweep_regs ..).2.2
    rw [drop_regs, setReg_self]
    exact update_idem ..

/-- Releasing releases, also when the fence changed just before. -/
theorem release_moves (fence : Option Fence) (hfreed : (g.regs r).quarantined = false → freed r) :
    Moves freed announced g ((g.setReg r fun x => { x with fence := fence }).release r) := by
  have hself := setReg_self g r fun x => { x with fence := fence }
  rcases release_cases (g.setReg r fun x => { x with fence := fence }) r with heq | ⟨hopen, hdecided, heq⟩
  · rw [heq]
    exact .of_reg rfl (.keep _ _ fence rfl) rfl rfl
  rw [hself] at hopen hdecided
  rw [heq]
  refine .of_reg ((sweep_regs ..).1.trans ?_) (.release fence (hfreed hopen.1) hopen.1 hdecided rfl)
    (sweep_regs ..).2.1 (sweep_regs ..).2.2
  rw [drop_regs, hself]
  exact update_idem ..

theorem release_alone_moves (hfreed : freed r) : Moves freed announced g (g.release r) := by
  have hmoves : Moves freed announced g _ := release_moves (g.regs r).fence fun _ => hfreed
  have hsame : g.setReg r (fun x => { x with fence := (g.regs r).fence }) = g := by
    simp [Gate.setReg]
  rw [hsame] at hmoves
  exact hmoves

theorem releaseAdmission_moves (hfreed : freed (g.adms a).client) :
    Moves freed announced g (g.releaseAdmission a) := by
  unfold Gate.releaseAdmission
  split
  · exact .refl g
  dsimp only
  split
  · rename_i hfree
    split_ifs with hpending
    · refine .of_reg ((sweep_regs ..).1.trans ?_) (.abandon true hpending.1 (fun _ => hfree.1) rfl)
        (sweep_regs ..).2.1 (sweep_regs ..).2.2
      rw [drop_regs, setReg_self]
      exact update_idem ..
    refine .of_reg ((sweep_regs ..).1.trans (drop_regs ..)) (.release _ hfreed hfree.1 ?_ rfl)
      (sweep_regs ..).2.1 (sweep_regs ..).2.2
    rw [not_and_or, not_and_or, Bool.not_eq_false, Bool.not_eq_false, Bool.not_eq_false] at hpending
    rcases hpending with hatt | hab | hrel
    · exact .inl hatt
    · exact .inr hab
    · cases hfree.2.symm.trans hrel
  · split_ifs with hpending
    · refine .of_reg (sweep_regs ..).1 (.abandon false hpending.1 nofun ?_)
        (sweep_regs ..).2.1 (sweep_regs ..).2.2
      rw [← hpending.2.2]
      rfl
    · exact .of_regs (sweep_regs ..).1 (sweep_regs ..).2.1 (.inl (sweep_regs ..).2.2)

theorem take_moves (r : ℕ) : Moves freed announced g (g.take r) := by
  unfold Gate.take
  split
  · exact .refl g
  · split
    · exact .of_regs rfl rfl (.inl rfl)
    · exact .refl g

theorem closeReturned_moves (r : ℕ) : Moves freed announced g (g.closeReturned r) := by
  unfold Gate.closeReturned
  split
  · exact .refl g
  · split
    · exact .of_reg rfl (.keep _ true _ rfl) rfl rfl
    · exact .refl g

theorem workerRelease_moves (h : Inv g) (r : ℕ) : Moves freed announced g (g.workerRelease r) := by
  unfold Gate.workerRelease
  cases hcleanup : g.cleanup with
  | none => exact .refl g
  | some b =>
    dsimp only
    split_ifs with hr
    · exact .of_reg (drop_regs g r) (.reap ((h.batch b hcleanup).announced r hr.1) hr.2 rfl) rfl rfl
    · exact .refl g

theorem finishCleanup_moves : Moves freed announced g g.finishCleanup := by
  unfold Gate.finishCleanup
  split
  · exact .refl g
  · split
    · exact .of_regs rfl rfl (.inl rfl)
    · exact .refl g

theorem own_moves (owner : String) : Moves freed announced g (g.own owner).1 := by
  unfold Gate.own
  split
  · exact .refl g
  · rename_i hempty
    split
    · exact .refl g
    · rw [not_or, not_not] at hempty
      exact .of_regs rfl rfl (.inr hempty.2)

theorem grant_moves (owner : String) (untilTime asked : ℤ) :
    Moves freed announced g (g.grant owner untilTime asked).1 := by
  unfold Gate.grant
  split
  · exact .refl g
  · split
    · exact .refl g
    · exact .of_regs rfl rfl (.inl rfl)

end

end DaxiangVpn.ProxyGateQuarantine
