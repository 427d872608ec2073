import DaxiangVpn.WriteFence

/-!
# Safety of the write fence

The calls in progress are counted by what they hold: a permit, the deadline lock,
a place in the wait group. The flags of the fence are these counts. A close that
has set its raw deadline finds no update between its check and its raw update,
since both hold the deadline lock.
-/

namespace DaxiangVpn.WriteFenceSafety

open WriteFence List

/-! ## What a call holds -/

/-- It holds the write permit. -/
def isWriting : FenceThread → Bool
  | .writing => true
  | _ => false

/-- It holds the permit for a future deadline. -/
def isUpdating : FenceThread → Bool
  | .updating _ _ (.ended _) => false
  | .updating _ _ _ => true
  | _ => false

/-- It holds the permit for a past deadline. -/
def isRevoking : FenceThread → Bool
  | .revoking _ _ .ended => false
  | .revoking _ _ _ => true
  | _ => false

def holdsLock : FenceThread → Bool
  | .updating _ _ .locked => true
  | .updating _ _ .setting => true
  | .updating _ _ (.updated _) => true
  | .updating _ _ .repairing => true
  | .updating _ _ (.leaving _) => true
  | .revoking _ _ .locked => true
  | .revoking _ _ .leaving => true
  | .closing .locked => true
  | .closing .leaving => true
  | _ => false

def inGroup : FenceThread → Bool
  | .closing _ => false
  | _ => true

def isClosing : FenceThread → Bool
  | .closing _ => true
  | _ => false

def isMarking : FenceThread → Bool
  | .closing .marking => true
  | _ => false

/-- It is a close that has set its raw deadline. -/
def isRevoked : FenceThread → Bool
  | .closing .marking => false
  | .closing .waiting => false
  | .closing .locked => false
  | .closing _ => true
  | _ => false

/-- It is a close that has joined all operations. -/
def isJoined : FenceThread → Bool
  | .closing .joined => true
  | .closing .releasing => true
  | _ => false

/-- It is a close that has completed. -/
def isReleasing : FenceThread → Bool
  | .closing .releasing => true
  | _ => false

/-- It is about to set a future raw deadline. -/
def isSetting : FenceThread → Bool
  | .updating _ _ .setting => true
  | _ => false

/-- It has repaired the raw deadline and still has the lock. -/
def isRepaired : FenceThread → Bool
  | .updating _ _ (.leaving .closed) => true
  | _ => false

/-- The deadline was not in the future when it was set. -/
def isPast (c : RawDeadline) : Bool :=
  match c.deadline with
  | some t => decide (t ≤ c.time)
  | none => false

def lastPast (calls : List RawDeadline) : Bool := calls.head?.any isPast

def lastRepair (calls : List RawDeadline) : Bool :=
  calls.head?.any fun c => decide (c.kind = .both) && isPast c

structure FenceOk (now : ℤ) (f : Fence) : Prop where
  write : f.threads.countP isWriting = f.writeActive.toNat
  update : f.threads.countP isUpdating = f.deadlineActive.toNat
  revoke : f.threads.countP isRevoking = f.revokerActive.toNat
  lock : f.threads.countP holdsLock = f.deadlineMu.toNat
  group : f.threads.countP inGroup = f.operations
  closing : f.threads.countP isClosing = if f.once = .running then 1 else 0
  idle : f.once = .idle → f.closed = false ∧ f.completed = false
  marking : f.once = .running → f.threads.countP isMarking = (!f.closed).toNat
  releasing : f.once = .running → f.threads.countP isReleasing = f.completed.toNat
  done : f.once = .done → f.closed = true ∧ f.completed = true
  joined : 0 < f.threads.countP isJoined ∨ f.once = .done → f.operations = 0
  /-- After the raw deadline of a close no future one is set. -/
  revoked : 0 < f.threads.countP isRevoked ∨ f.once = .done →
    f.threads.countP isSetting = 0 ∧ lastPast f.calls = true
  /-- An update that found the scope closed leaves a past deadline. -/
  repaired : 0 < f.threads.countP isRepaired → lastRepair f.calls = true
  past : ∀ kind deadline stage, .revoking kind deadline stage ∈ f.threads → deadline ≤ now

theorem new_ok (now : ℤ) (inner : Conn) : FenceOk now (.new inner) := by
  constructor <;> simp [Fence.new]

/-- The stages of a close follow each other, raw deadlines are set under the lock, and
everything but a close is in the wait group. -/
theorem toNat_holds (t : FenceThread) :
    (isMarking t).toNat + (isRevoked t).toNat ≤ (isClosing t).toNat ∧
    (isJoined t).toNat ≤ (isRevoked t).toNat ∧ (isReleasing t).toNat ≤ (isJoined t).toNat ∧
    (isSetting t).toNat + (isRepaired t).toNat ≤ (holdsLock t).toNat ∧
    (isClosing t).toNat + (inGroup t).toNat = 1 := by
  cases t with
  | writing => decide
  | written => decide
  | updating kind deadline stage =>
    cases stage with
    | leaving result => cases result <;>
        simp [isSetting, isRepaired, holdsLock, isMarking, isRevoked, isClosing, isJoined,
          isReleasing, inGroup]
    | _ => simp [isSetting, isRepaired, holdsLock, isMarking, isRevoked, isClosing, isJoined,
        isReleasing, inGroup]
  | revoking kind deadline stage =>
    cases stage <;>
      simp [isSetting, isRepaired, holdsLock, isMarking, isRevoked, isClosing, isJoined,
        isReleasing, inGroup]
  | closing stage => cases stage <;> decide

theorem countP_cons_toNat (p : FenceThread → Bool) (t : FenceThread) (rest : List FenceThread) :
    (t :: rest).countP p = rest.countP p + (p t).toNat := by
  rw [countP_cons]
  cases p t <;> rfl

theorem countP_holds (l : List FenceThread) :
    l.countP isMarking + l.countP isRevoked ≤ l.countP isClosing ∧
    l.countP isJoined ≤ l.countP isRevoked ∧ l.countP isReleasing ≤ l.countP isJoined ∧
    l.countP isSetting + l.countP isRepaired ≤ l.countP holdsLock := by
  induction l with
  | nil => exact ⟨le_rfl, le_rfl, le_rfl, le_rfl⟩
  | cons t =>
    have hone := toNat_holds t
    simp only [countP_cons_toNat]
    omega

variable {l : List FenceThread} {kind : DeadlineKind} {f' : Fence}

theorem countP_getElem {i : ℕ} {t : FenceThread} (h : l[i]? = some t)
    (p : FenceThread → Bool) : l.countP p = (l.eraseIdx i).countP p + (p t).toNat := by
  obtain ⟨hi, rfl⟩ := List.getElem?_eq_some_iff.mp h
  rw [(getElem_cons_eraseIdx_perm hi).symm.countP_eq p, countP_cons_toNat]

theorem countP_set {i : ℕ} {t : FenceThread} (h : l[i]? = some t) (t' : FenceThread)
    (p : FenceThread → Bool) : (l.set i t').countP p = (l.eraseIdx i).countP p + (p t').toNat := by
  obtain ⟨hi, -⟩ := List.getElem?_eq_some_iff.mp h
  rw [(set_perm_cons_eraseIdx hi t').countP_eq p, countP_cons_toNat]

section

variable {now : ℤ} {f : Fence} {i : ℕ}

theorem FenceOk.closed_of_revoked (h : FenceOk now f)
    (hrevoked : 0 < f.threads.countP isRevoked ∨ f.once = .done) : f.closed = true := by
  have hholds := countP_holds f.threads
  have hclosing := h.closing
  cases honce : f.once with
  | idle =>
    rw [honce, if_neg Once.noConfusion] at hclosing
    rw [honce] at hrevoked
    rcases hrevoked with hpos | hdone
    · omega
    · cases hdone
  | running =>
    rw [honce, if_pos rfl] at hclosing
    have hmarking := h.marking honce
    by_contra hopen
    rw [Bool.not_eq_true] at hopen
    rw [hopen] at hmarking
    rcases hrevoked with hpos | hdone
    · simp only [Bool.not_false, Bool.toNat_true] at hmarking
      omega
    · cases honce.symm.trans hdone
  | done => exact (h.done honce).1

/-- What the step of a call may change. -/
structure Works (now : ℤ) (f f' : Fence) (t t' : FenceThread) : Prop where
  same : f'.closed = f.closed ∧ f'.completed = f.completed ∧ f'.once = f.once ∧
    f'.operations = f.operations := by exact ⟨rfl, rfl, rfl, rfl⟩
  write : f'.writeActive.toNat + (isWriting t).toNat =
    f.writeActive.toNat + (isWriting t').toNat := by rfl
  update : f'.deadlineActive.toNat + (isUpdating t).toNat =
    f.deadlineActive.toNat + (isUpdating t').toNat := by rfl
  /-- The permit for a past deadline. -/
  revoke : f'.revokerActive.toNat + (isRevoking t).toNat =
    f.revokerActive.toNat + (isRevoking t').toNat := by rfl
  lock : f'.deadlineMu.toNat + (holdsLock t).toNat =
    f.deadlineMu.toNat + (holdsLock t').toNat := by rfl
  setting : isSetting t' = true → f.closed = false := by rintro ⟨⟩
  /-- A raw deadline is set under the lock, and it is past or was decided before. -/
  calls : f'.calls = f.calls ∨ holdsLock t = true ∧
    ∃ c, f'.calls = c :: f.calls ∧ (isPast c = true ∨ isSetting t = true) := by exact .inl rfl
  repaired : isRepaired t' = true → lastRepair f'.calls = true := by rintro ⟨⟩
  past : ∀ kind deadline stage, t' = .revoking kind deadline stage → deadline ≤ now := by
    rintro _ _ _ ⟨⟩

variable {t : FenceThread} {stage : CloseStage}

theorem FenceOk.works (h : FenceOk now f) {t' : FenceThread} (hi : f.threads[i]? = some t)
    (hin : inGroup t = true) (hin' : inGroup t' = true)
    (hthreads : f'.threads = f.threads.set i t') (hw : Works now f f' t t') : FenceOk now f' := by
  obtain ⟨hclosed, hcompleted, honce, hoperations⟩ := hw.same
  have hcount := countP_getElem hi
  have hcount' : ∀ p, f'.threads.countP p = (f.threads.eraseIdx i).countP p + (p t').toNat := by
    rw [hthreads]
    exact countP_set hi t'
  have hone := toNat_holds t
  have hone' := toNat_holds t'
  rw [hin, Bool.toNat_true] at hone
  rw [hin', Bool.toNat_true] at hone'
  have hmoved : ∀ {p n n'}, f.threads.countP p = n → n' + (p t).toNat = n + (p t').toNat →
      f'.threads.countP p = n' := by
    intro p n n' hold hchange
    rw [hcount] at hold
    rw [hcount']
    omega
  refine ⟨hmoved h.write hw.write, hmoved h.update hw.update, hmoved h.revoke hw.revoke,
    hmoved h.lock hw.lock, hmoved h.group (by rw [hin, hin', hoperations]), ?_, ?_,
    ?_, ?_, ?_, ?_, ?_, ?_, ?_⟩
  · rw [honce]
    exact hmoved h.closing (by omega)
  · rw [honce, hclosed, hcompleted]
    exact h.idle
  · rw [honce, hclosed]
    exact fun hrunning => hmoved (h.marking hrunning) (by omega)
  · rw [honce, hcompleted]
    exact fun hrunning => hmoved (h.releasing hrunning) (by omega)
  · rw [honce, hclosed, hcompleted]
    exact h.done
  · rw [honce, hoperations, hcount']
    intro hjoined
    refine h.joined (hjoined.imp_left fun hpos => ?_)
    rw [hcount]
    omega
  · rw [honce, hcount']
    intro hrevoked
    have hbefore : 0 < f.threads.countP isRevoked ∨ f.once = .done := by
      refine hrevoked.imp_left fun hpos => ?_
      rw [hcount]
      omega
    obtain ⟨hsetting, hlast⟩ := h.revoked hbefore
    have hclosed' := h.closed_of_revoked hbefore
    rw [hcount] at hsetting
    have hnot : isSetting t' = false := by
      by_contra hset
      rw [Bool.not_eq_false] at hset
      cases hclosed'.symm.trans (hw.setting hset)
    refine ⟨?_, ?_⟩
    · rw [hcount', hnot, Bool.toNat_false]
      omega
    rcases hw.calls with heq | ⟨-, c, heq, hc⟩
    · rw [heq]
      exact hlast
    · rw [heq]
      rcases hc with hc | hset
      · exact hc
      · rw [hset, Bool.toNat_true] at hsetting
        omega
  · rw [hcount']
    intro hpos
    by_cases hnew : isRepaired t' = true
    · exact hw.repaired hnew
    rw [Bool.not_eq_true] at hnew
    rw [hnew, Bool.toNat_false] at hpos
    have hlock := h.lock
    rw [hcount] at hlock
    have hholds := countP_holds (f.threads.eraseIdx i)
    have hle := Bool.toNat_le f.deadlineMu
    have hfree : holdsLock t = false := by
      by_contra hheld
      rw [Bool.not_eq_false] at hheld
      rw [hheld, Bool.toNat_true] at hlock
      omega
    have hsame : f'.calls = f.calls := by
      refine hw.calls.resolve_right fun hset => ?_
      cases hfree.symm.trans hset.1
    rw [hsame]
    refine h.repaired ?_
    rw [hcount]
    omega
  · intro kind deadline stage hmem
    rw [hthreads] at hmem
    rcases mem_or_eq_of_mem_set hmem with hold | hnew
    · exact h.past kind deadline stage hold
    · exact hw.past kind deadline stage hnew.symm

/-- A flag whose holders are counted is set while one of them is there. -/
theorem flag_of_getElem {p : FenceThread → Bool} {flag : Bool}
    (hcount : l.countP p = flag.toNat) (hi : l[i]? = some t) (ht : p t = true) : flag = true := by
  rw [countP_getElem hi, ht, Bool.toNat_true] at hcount
  cases flag with
  | true => rfl
  | false =>
    simp only [Bool.toNat_false] at hcount
    omega

section

variable (h : FenceOk now f)
include h

/-- A call that leaves the wait group holds nothing else. -/
theorem FenceOk.leave (hi : f.threads[i]? = some t)
    (hin : inGroup t = true) (hfree : isWriting t = false ∧ isUpdating t = false ∧
      isRevoking t = false ∧ holdsLock t = false) : FenceOk now (f.leave i) := by
  have hcount := countP_getElem hi
  have hone := toNat_holds t
  obtain ⟨hwriting, hupdating, hrevoking, hlock⟩ := hfree
  rw [hin, Bool.toNat_true, hlock, Bool.toNat_false] at hone
  have hsame : ∀ p, (p t).toNat = 0 → (f.threads.eraseIdx i).countP p = f.threads.countP p := by
    intro p hp
    rw [hcount, hp, Nat.add_zero]
  have hgroup := h.group
  rw [hcount, hin, Bool.toNat_true] at hgroup
  refine ⟨?_, ?_, ?_, ?_, ?_, ?_, h.idle, fun hrunning => ?_, fun hrunning => ?_, h.done,
    fun hjoined => ?_, fun hrevoked => ?_, fun hpos => ?_, fun kind deadline stage hmem => ?_⟩
  · exact (hsame _ (by rw [hwriting]; rfl)).trans h.write
  · exact (hsame _ (by rw [hupdating]; rfl)).trans h.update
  · exact (hsame _ (by rw [hrevoking]; rfl)).trans h.revoke
  · exact (hsame _ (by rw [hlock]; rfl)).trans h.lock
  · change (f.threads.eraseIdx i).countP inGroup = f.operations - 1
    omega
  · exact (hsame _ (by omega)).trans h.closing
  · exact (hsame _ (by omega)).trans (h.marking hrunning)
  · exact (hsame _ (by omega)).trans (h.releasing hrunning)
  · have hnone : f.operations = 0 := by
      refine h.joined (hjoined.imp_left fun hpos => ?_)
      rw [← hsame isJoined (by omega)]
      exact hpos
    omega
  · obtain ⟨hsetting, hlast⟩ := h.revoked (hrevoked.imp_left fun hpos => by
      rw [← hsame isRevoked (by omega)]
      exact hpos)
    exact ⟨(hsame _ (by omega)).trans hsetting, hlast⟩
  · refine h.repaired ?_
    rw [← hsame isRepaired (by omega)]
    exact hpos
  · exact h.past kind deadline stage ((eraseIdx_sublist f.threads i).mem hmem)

theorem FenceOk.enter (hin : inGroup t = true)
    (hclosed : f.closed = false) (hlock : holdsLock t = false)
    (hthreads : f'.threads = t :: f.threads)
    (hsame : f'.closed = f.closed ∧ f'.completed = f.completed ∧ f'.once = f.once ∧
      f'.operations = f.operations + 1 ∧ f'.deadlineMu = f.deadlineMu ∧ f'.calls = f.calls)
    (hwrite : f'.writeActive.toNat = f.writeActive.toNat + (isWriting t).toNat)
    (hupdate : f'.deadlineActive.toNat = f.deadlineActive.toNat + (isUpdating t).toNat)
    (hrevoke : f'.revokerActive.toNat = f.revokerActive.toNat + (isRevoking t).toNat)
    (hpast : ∀ kind deadline stage, t = .revoking kind deadline stage → deadline ≤ now) :
    FenceOk now f' := by
  obtain ⟨hclosed', hcompleted, honce, hoperations, hmu, hcalls⟩ := hsame
  have hcount : ∀ p, f'.threads.countP p = f.threads.countP p + (p t).toNat := by
    rw [hthreads]
    exact fun p => countP_cons_toNat p t f.threads
  have hone := toNat_holds t
  rw [hin, Bool.toNat_true, hlock, Bool.toNat_false] at hone
  have hopen : ¬ (0 < f.threads.countP isRevoked ∨ f.once = .done) := by
    intro hrevoked
    cases (h.closed_of_revoked hrevoked).symm.trans hclosed
  have hholds := countP_holds f.threads
  refine ⟨?_, ?_, ?_, ?_, ?_, ?_, ?_, fun hrunning => ?_, fun hrunning => ?_, ?_, fun hjoined => ?_,
    fun hrevoked => ?_, fun hpos => ?_, fun kind deadline stage hmem => ?_⟩
  · rw [hcount, h.write, hwrite]
  · rw [hcount, h.update, hupdate]
  · rw [hcount, h.revoke, hrevoke]
  · rw [hcount, h.lock, hlock, hmu]
    rfl
  · rw [hcount, h.group, hin, hoperations]
    rfl
  · rw [hcount, h.closing, honce]
    omega
  · rw [honce, hclosed', hcompleted]
    exact h.idle
  · rw [hcount, h.marking (honce ▸ hrunning), hclosed']
    omega
  · rw [hcount, h.releasing (honce ▸ hrunning), hcompleted]
    omega
  · rw [honce, hclosed', hcompleted]
    exact h.done
  · rw [hcount, honce] at hjoined
    exact absurd (hjoined.imp_left fun hpos => by omega) hopen
  · rw [hcount, honce] at hrevoked
    exact absurd (hrevoked.imp_left fun hpos => by omega) hopen
  · rw [hcalls]
    rw [hcount] at hpos
    exact h.repaired (by omega)
  · rw [hthreads] at hmem
    rcases mem_cons.mp hmem with hnew | hold
    · exact hpast kind deadline stage hnew.symm
    · exact h.past kind deadline stage hold

variable {live : Bool}

theorem beginWrite_ok (hlive : live = true → f.closed = false) :
    FenceOk now (f.beginWrite live) := by
  unfold Fence.beginWrite
  split_ifs with hopen
  · exact h
  · simp only [not_or, Bool.not_eq_true, Bool.not_eq_false] at hopen
    refine h.enter rfl (hlive hopen.1) rfl rfl ⟨rfl, rfl, rfl, rfl, rfl, rfl⟩ ?_ rfl rfl
      nofun
    rw [hopen.2]
    rfl

theorem beginUpdate_ok (hlive : live = true → f.closed = false)
    (kind : DeadlineKind) (deadline : Option ℤ) :
    FenceOk now (f.beginUpdate live kind deadline) := by
  unfold Fence.beginUpdate
  split_ifs with hopen
  · exact h
  · simp only [not_or, Bool.not_eq_true, Bool.not_eq_false] at hopen
    refine h.enter rfl (hlive hopen.1) rfl rfl ⟨rfl, rfl, rfl, rfl, rfl, rfl⟩ rfl ?_ rfl
      nofun
    rw [hopen.2]
    rfl

theorem beginRevoke_ok (kind : DeadlineKind) {deadline : ℤ}
    (hpast : deadline ≤ now) : FenceOk now (f.beginRevoke kind deadline) := by
  unfold Fence.beginRevoke
  split_ifs with hopen
  · exact h
  simp only [not_or, Bool.not_eq_true] at hopen
  refine h.enter rfl hopen.1 rfl rfl ⟨rfl, rfl, rfl, rfl, rfl, rfl⟩ rfl rfl ?_ ?_
  · rw [hopen.2]
    rfl
  · intro kind' deadline' stage' heq
    cases heq
    exact hpast

theorem updateDeadline_ok (hlive : live = true → f.closed = false) (kind : DeadlineKind)
    (deadline : Option ℤ) :
    FenceOk now (f.updateDeadline live now kind deadline) := by
  unfold Fence.updateDeadline
  cases deadline with
  | none => exact beginUpdate_ok h hlive kind none
  | some t =>
    dsimp only
    split_ifs with hpast
    · exact beginRevoke_ok h kind hpast
    · exact beginUpdate_ok h hlive kind (some t)

end

theorem lastRepair_now (f : Fence) (now : ℤ) :
    lastRepair (f.setRaw .both (some now) now).calls = true := by
  simp [lastRepair, Fence.setRaw, isPast]

section

variable (h : FenceOk now f)
include h

theorem advanceUpdate_ok (hlive : live = true → f.closed = false) (fails : Bool)
    {deadline : Option ℤ} {stage : UpdateStage}
      (hi : f.threads[i]? = some (.updating kind deadline stage)) :
    FenceOk now (f.advanceUpdate live fails now i kind deadline stage) := by
  cases stage with
  | waiting =>
    simp only [Fence.advanceUpdate]
    split_ifs with hmu
    · exact h
    · rw [Bool.not_eq_true] at hmu
      refine h.works hi rfl rfl rfl { lock := ?_ }
      rw [hmu]
      rfl
  | locked =>
    refine h.works hi rfl rfl rfl
      { update := ?_, lock := ?_, setting := fun hset => ?_, repaired := fun hrep => ?_ }
    · cases live <;> rfl
    · cases live <;> rfl
    · cases live with
      | false => cases hset
      | true => exact hlive rfl
    · cases live <;> cases hrep
  | setting =>
    exact h.works hi rfl rfl rfl { calls := .inr ⟨rfl, _, rfl, .inr rfl⟩ }
  | updated failed =>
    refine h.works hi rfl rfl rfl
      { update := ?_, lock := ?_, setting := fun hset => ?_, repaired := fun hrep => ?_ }
    · cases live <;> rfl
    · cases live <;> rfl
    · cases live <;> cases hset
    · cases live with
      | false => cases hrep
      | true => cases failed <;> cases hrep
  | repairing =>
    exact h.works hi rfl rfl rfl { calls := .inr ⟨rfl, _, rfl, .inl (by simp [isPast])⟩
                                   repaired := fun _ => lastRepair_now f now }
  | leaving =>
    have hmu := flag_of_getElem h.lock hi rfl
    refine h.works hi rfl rfl rfl { lock := ?_ }
    rw [hmu]
    rfl
  | ending =>
    have hactive := flag_of_getElem h.update hi rfl
    refine h.works hi rfl rfl rfl { update := ?_ }
    rw [hactive]
    rfl
  | ended => exact h.leave hi rfl ⟨rfl, rfl, rfl, rfl⟩

/-- One step of an update of a past deadline keeps the invariant. -/
theorem advanceRevoke_ok {deadline : ℤ} {stage : RevokeStage}
    (hi : f.threads[i]? = some (.revoking kind deadline stage)) :
    FenceOk now (f.advanceRevoke now i kind deadline stage) := by
  have hpast := h.past kind deadline stage (mem_of_getElem? hi)
  have hlater : ∀ {stage' : RevokeStage} kind' deadline' stage'',
      FenceThread.revoking kind deadline stage' = .revoking kind' deadline' stage'' →
      deadline' ≤ now := by
    intro stage' kind' deadline' stage'' heq
    cases heq
    exact hpast
  cases stage with
  | waiting =>
    simp only [Fence.advanceRevoke]
    split_ifs with hmu
    · exact h
    · rw [Bool.not_eq_true] at hmu
      refine h.works hi rfl rfl rfl { lock := ?_, past := hlater }
      rw [hmu]
      rfl
  | locked =>
    exact h.works hi rfl rfl rfl
      { calls := .inr ⟨rfl, _, rfl, .inl (decide_eq_true hpast)⟩, past := hlater }
  | leaving =>
    have hmu := flag_of_getElem h.lock hi rfl
    refine h.works hi rfl rfl rfl { lock := ?_, past := hlater }
    rw [hmu]
    rfl
  | ending =>
    have hactive := flag_of_getElem h.revoke hi rfl
    refine h.works hi rfl rfl rfl { revoke := ?_, past := hlater }
    rw [hactive]
    rfl
  | ended => exact h.leave hi rfl ⟨rfl, rfl, rfl, rfl⟩

section

variable (hi : f.threads[i]? = some (.closing stage))
include hi

theorem FenceOk.running : f.once = .running ∧ (f.threads.eraseIdx i).countP isClosing = 0 := by
  have hclosing := h.closing
  rw [countP_getElem hi, show isClosing (.closing stage) = true from rfl,
    Bool.toNat_true] at hclosing
  by_cases honce : f.once = .running
  · rw [if_pos honce] at hclosing
    exact ⟨honce, by omega⟩
  · rw [if_neg honce] at hclosing
    omega

/-- What a step of a close may change. -/
structure Closes (f f' : Fence) (t t' : FenceThread) : Prop where
  /-- Permits and wait group. -/
  same : f'.writeActive = f.writeActive ∧ f'.deadlineActive = f.deadlineActive ∧
    f'.revokerActive = f.revokerActive ∧ f'.operations = f.operations ∧ f'.once = f.once := by
    exact ⟨rfl, rfl, rfl, rfl, rfl⟩
  lock : f'.deadlineMu.toNat + (holdsLock t).toNat =
    f.deadlineMu.toNat + (holdsLock t').toNat := by rfl
  closed : f'.closed = true
  marked : isMarking t' = false := by rfl
  completed : f'.completed = isReleasing t'
  joined : isJoined t' = true → f.operations = 0 := by rintro ⟨⟩
  /-- The raw deadline is set under the lock. -/
  calls : (f'.calls = f.calls ∧ isRevoked t' = isRevoked t) ∨
    holdsLock t = true ∧ ∃ c, f'.calls = c :: f.calls ∧ isPast c = true := by
    exact .inl ⟨rfl, rfl⟩

theorem FenceOk.closes {stage' : CloseStage}
    (hthreads : f'.threads = f.threads.set i (.closing stage'))
    (hc : Closes f f' (.closing stage) (.closing stage')) : FenceOk now f' := by
  obtain ⟨hwrite, hupdate, hrevoke, hoperations, honce⟩ := hc.same
  obtain ⟨hrunning, hnone⟩ := h.running hi
  have hholds := countP_holds (f.threads.eraseIdx i)
  have hcount := countP_getElem hi
  have hcount' : ∀ p, f'.threads.countP p =
      (f.threads.eraseIdx i).countP p + (p (.closing stage')).toNat := by
    rw [hthreads]
    exact countP_set hi _
  have hlock := h.lock
  rw [hcount] at hlock
  have hmu := Bool.toNat_le f.deadlineMu
  have hcounts : ∀ p : FenceThread → Bool, p (.closing stage') = p (.closing stage) →
      f'.threads.countP p = f.threads.countP p := by
    intro p hp
    rw [hcount, hcount', hp]
  refine ⟨?_, ?_, ?_, ?_, ?_, ?_, fun hidle => ?_, fun _ => ?_, fun _ => ?_, fun hdone => ?_,
    fun hjoined => ?_, fun hrevoked => ?_, fun hpos => ?_, fun kind deadline st hmem => ?_⟩
  · rw [hcounts _ rfl, h.write, hwrite]
  · rw [hcounts _ rfl, h.update, hupdate]
  · rw [hcounts _ rfl, h.revoke, hrevoke]
  · rw [hcount']
    have := hc.lock
    omega
  · rw [hcounts _ rfl, h.group, hoperations]
  · rw [hcounts _ rfl, h.closing, honce]
  · cases hrunning.symm.trans (honce.symm.trans hidle)
  · rw [hcount', hc.closed, hc.marked]
    simp only [Bool.toNat_false, Bool.not_true]
    omega
  · rw [hcount', hc.completed]
    omega
  · cases hrunning.symm.trans (honce.symm.trans hdone)
  · rw [hoperations]
    rcases hjoined with hpos | hdone
    · refine hc.joined ?_
      by_contra hnot
      rw [Bool.not_eq_true] at hnot
      rw [hcount', hnot, Bool.toNat_false] at hpos
      omega
    · cases hrunning.symm.trans (honce.symm.trans hdone)
  · rw [hcounts isSetting rfl]
    have hpos : 0 < (isRevoked (.closing stage')).toNat := by
      rcases hrevoked with hpos | hdone
      · rw [hcount'] at hpos
        omega
      · cases hrunning.symm.trans (honce.symm.trans hdone)
    rcases hc.calls with ⟨hcalls, hsame⟩ | ⟨hheld, c, hcalls, hpast⟩
    · rw [hcalls]
      refine h.revoked (.inl ?_)
      rw [hcount, ← hsame]
      omega
    rw [hheld, Bool.toNat_true] at hlock
    refine ⟨?_, ?_⟩
    · rw [hcount, show isSetting (.closing stage) = false from rfl, Bool.toNat_false]
      omega
    · rw [hcalls]
      exact hpast
  · rw [hcounts isRepaired rfl] at hpos
    rw [hcount, show isRepaired (.closing stage) = false from rfl, Bool.toNat_false] at hpos
    rcases hc.calls with ⟨hcalls, -⟩ | ⟨hheld, -⟩
    · rw [hcalls]
      refine h.repaired ?_
      rw [hcount]
      omega
    · rw [hheld, Bool.toNat_true] at hlock
      omega
  · rw [hthreads] at hmem
    rcases mem_or_eq_of_mem_set hmem with hold | hnew
    · exact h.past kind deadline st hold
    · cases hnew

theorem FenceOk.closed_of_stage (hstage : isMarking (.closing stage) = false) :
    f.closed = true := by
  obtain ⟨hrunning, hnone⟩ := h.running hi
  have hholds := countP_holds (f.threads.eraseIdx i)
  have hmarking := h.marking hrunning
  rw [countP_getElem hi, hstage, Bool.toNat_false] at hmarking
  cases hclosed : f.closed with
  | true => rfl
  | false =>
    rw [hclosed] at hmarking
    simp only [Bool.not_false, Bool.toNat_true] at hmarking
    omega

theorem FenceOk.completed_of_stage : f.completed = isReleasing (.closing stage) := by
  obtain ⟨hrunning, hnone⟩ := h.running hi
  have hholds := countP_holds (f.threads.eraseIdx i)
  have hreleasing := h.releasing hrunning
  rw [countP_getElem hi] at hreleasing
  have hzero : (f.threads.eraseIdx i).countP isReleasing = 0 := by omega
  rw [hzero, Nat.zero_add] at hreleasing
  cases hcompleted : f.completed <;> cases hlast : isReleasing (.closing stage) <;>
    rw [hcompleted, hlast] at hreleasing <;> first | rfl | cases hreleasing

end

theorem FenceOk.closeDone (hi : f.threads[i]? = some (.closing .releasing)) :
    FenceOk now { f with once := .done, threads := f.threads.eraseIdx i } := by
  obtain ⟨-, hnone⟩ := h.running hi
  have hcount := countP_getElem hi
  have hsame : ∀ p : FenceThread → Bool, p (.closing .releasing) = false →
      (f.threads.eraseIdx i).countP p = f.threads.countP p := by
    intro p hp
    rw [hcount, hp, Bool.toNat_false, Nat.add_zero]
  have hjoined : 0 < f.threads.countP isJoined := by
    rw [hcount]
    exact Nat.lt_add_left _ Nat.one_pos
  have hrevoked : 0 < f.threads.countP isRevoked := by
    rw [hcount]
    exact Nat.lt_add_left _ Nat.one_pos
  refine ⟨(hsame _ rfl).trans h.write, (hsame _ rfl).trans h.update, (hsame _ rfl).trans h.revoke,
    (hsame _ rfl).trans h.lock, (hsame _ rfl).trans h.group, hnone, fun hidle => ?_, fun hrun => ?_,
    fun hrun => ?_, fun _ => ⟨h.closed_of_stage hi rfl, h.completed_of_stage hi⟩,
    fun _ => h.joined (.inl hjoined), fun _ => ?_, fun hpos => ?_,
    fun kind deadline stage hmem => ?_⟩
  · cases hidle
  · cases hrun
  · cases hrun
  · obtain ⟨hsetting, hlast⟩ := h.revoked (.inl hrevoked)
    exact ⟨(hsame _ rfl).trans hsetting, hlast⟩
  · exact h.repaired (hsame isRepaired rfl ▸ hpos)
  · exact h.past kind deadline stage ((eraseIdx_sublist f.threads i).mem hmem)

theorem beginClose_ok : FenceOk now f.beginClose := by
  unfold Fence.beginClose
  split_ifs with hidle
  · obtain ⟨hclosed, hcompleted⟩ := h.idle hidle
    have hnone := h.closing
    rw [hidle, if_neg Once.noConfusion] at hnone
    have hholds := countP_holds f.threads
    refine ⟨?_, ?_, ?_, ?_, ?_, ?_, fun hf => ?_, fun _ => ?_, fun _ => ?_, fun hf => ?_,
      fun hjoined => ?_, fun hrevoked => ?_, fun hpos => ?_, fun kind deadline stage hmem => ?_⟩
    · exact (countP_cons_toNat ..).trans h.write
    · exact (countP_cons_toNat ..).trans h.update
    · exact (countP_cons_toNat ..).trans h.revoke
    · exact (countP_cons_toNat ..).trans h.lock
    · exact (countP_cons_toNat ..).trans h.group
    · refine (countP_cons_toNat ..).trans ?_
      rw [hnone]
      rfl
    · cases hf
    · refine (countP_cons_toNat ..).trans ?_
      rw [hclosed, show f.threads.countP isMarking = 0 by omega]
      rfl
    · refine (countP_cons_toNat ..).trans ?_
      rw [hcompleted, show f.threads.countP isReleasing = 0 by omega]
      rfl
    · cases hf
    · rcases hjoined with hpos | hf
      · have hlt := (countP_cons_toNat isJoined (.closing .marking) f.threads) ▸ hpos
        simp only [isJoined, Bool.toNat_false] at hlt
        omega
      · cases hf
    · rcases hrevoked with hpos | hf
      · have hlt := (countP_cons_toNat isRevoked (.closing .marking) f.threads) ▸ hpos
        simp only [isRevoked, Bool.toNat_false] at hlt
        omega
      · cases hf
    · exact h.repaired ((countP_cons_toNat isRepaired (.closing .marking) f.threads) ▸ hpos)
    · rcases mem_cons.mp hmem with hnew | hold
      · cases hnew
      · exact h.past kind deadline stage hold
  · exact h

theorem advanceClose_ok (hi : f.threads[i]? = some (.closing stage)) : FenceOk now (f.advanceClose now i stage) := by
  have hcompleted := h.completed_of_stage hi
  cases stage with
  | marking =>
    exact h.closes hi rfl { closed := rfl, completed := hcompleted }
  | waiting =>
    simp only [Fence.advanceClose]
    split_ifs with hmu
    · exact h
    · rw [Bool.not_eq_true] at hmu
      refine h.closes hi rfl { lock := ?_, closed := h.closed_of_stage hi rfl, completed := hcompleted }
      rw [hmu]
      rfl
  | locked =>
    exact h.closes hi rfl { closed := h.closed_of_stage hi rfl, completed := hcompleted
                            calls := .inr ⟨rfl, _, rfl, by simp [isPast]⟩ }
  | leaving =>
    have hmu := flag_of_getElem h.lock hi rfl
    refine h.closes hi rfl { lock := ?_, closed := h.closed_of_stage hi rfl, completed := hcompleted }
    rw [hmu]
    rfl
  | closing =>
    exact h.closes hi rfl { closed := h.closed_of_stage hi rfl, completed := hcompleted }
  | joining =>
    simp only [Fence.advanceClose]
    split_ifs with hzero
    · exact h.closes hi rfl { closed := h.closed_of_stage hi rfl, completed := hcompleted
                              joined := fun _ => hzero }
    · exact h
  | joined =>
    have hzero : f.operations = 0 := by
      refine h.joined (.inl ?_)
      rw [countP_getElem hi]
      exact Nat.lt_add_left _ Nat.one_pos
    exact h.closes hi rfl { closed := h.closed_of_stage hi rfl, completed := rfl, joined := fun _ => hzero }
  | releasing => exact h.closeDone hi

theorem advance_ok (hlive : live = true → f.closed = false)
    (fails : Bool) (i : ℕ) : FenceOk now (f.advance live fails now i) := by
  unfold Fence.advance
  cases hi : f.threads[i]? with
  | none => exact h
  | some t =>
    cases t with
    | writing =>
      have hactive := flag_of_getElem h.write hi rfl
      refine h.works hi rfl rfl rfl { write := ?_ }
      rw [hactive]
      rfl
    | written => exact h.leave hi rfl ⟨rfl, rfl, rfl, rfl⟩
    | updating => exact advanceUpdate_ok h hlive fails hi
    | revoking => exact advanceRevoke_ok h hi
    | closing => exact advanceClose_ok h hi

theorem FenceOk.later {now' : ℤ} (hle : now ≤ now') : FenceOk now' f :=
  { h with past := fun kind deadline stage hmem => (h.past kind deadline stage hmem).trans hle }

/-- A completed fence is closed, its operations are over, and its last raw deadline is past. -/
theorem FenceOk.of_completed (hcompleted : f.completed = true) : f.closed = true ∧ f.once ≠ .idle ∧
    (∀ t ∈ f.threads, t = .closing .releasing) ∧ lastPast f.calls = true := by
  have hholds := countP_holds f.threads
  have hidle : f.once ≠ .idle := by
    intro hidle
    cases (h.idle hidle).2.symm.trans hcompleted
  have hjoined : 0 < f.threads.countP isJoined ∨ f.once = .done := by
    cases honce : f.once with
    | idle => exact absurd honce hidle
    | running =>
      have hreleasing := h.releasing honce
      rw [hcompleted, Bool.toNat_true] at hreleasing
      exact .inl (by omega)
    | done => exact .inr rfl
  have hrevoked := hjoined.imp_left fun hpos => lt_of_lt_of_le hpos hholds.2.1
  refine ⟨h.closed_of_revoked hrevoked, hidle, fun t ht => ?_, (h.revoked hrevoked).2⟩
  obtain ⟨i, hi⟩ := mem_iff_getElem?.mp ht
  have hgroup := h.group
  rw [h.joined hjoined, countP_getElem hi] at hgroup
  have hout : inGroup t = false := by
    by_contra hin
    rw [Bool.not_eq_false] at hin
    rw [hin, Bool.toNat_true] at hgroup
    omega
  cases t with
  | closing stage =>
    have hlast := (h.completed_of_stage hi).symm.trans hcompleted
    cases stage with
    | releasing => rfl
    | _ => cases hlast
  | _ => cases hout

end

/-- A step of a call gives no permit. -/
theorem advance_flags (f : Fence) (live fails : Bool) (now : ℤ) (i : ℕ) :
    ((f.advance live fails now i).writeActive = true → f.writeActive = true) ∧
    ((f.advance live fails now i).deadlineActive = true → f.deadlineActive = true) := by
  unfold Fence.advance
  split
  · exact ⟨id, id⟩
  · exact ⟨nofun, id⟩
  · exact ⟨id, id⟩
  · rename_i kind deadline stage _
    cases stage with
    | waiting =>
      simp only [Fence.advanceUpdate]
      split <;> exact ⟨id, id⟩
    | ending => exact ⟨id, nofun⟩
    | _ => exact ⟨id, id⟩
  · rename_i kind deadline stage _
    cases stage with
    | waiting =>
      simp only [Fence.advanceRevoke]
      split <;> exact ⟨id, id⟩
    | _ => exact ⟨id, id⟩
  · rename_i stage _
    cases stage with
    | waiting | joining =>
      simp only [Fence.advanceClose]
      split <;> exact ⟨id, id⟩
    | _ => exact ⟨id, id⟩

/-- A step of a call leaves a completed fence as it is, the end of the close apart. -/
theorem advance_completed (h : FenceOk now f) (hcompleted : f.completed = true)
    (live fails : Bool) (i : ℕ) :
    (f.advance live fails now i).completed = true ∧
    (f.advance live fails now i).calls = f.calls := by
  unfold Fence.advance
  cases hi : f.threads[i]? with
  | none => exact ⟨hcompleted, rfl⟩
  | some t =>
    have ht := (h.of_completed hcompleted).2.2.1 t (mem_of_getElem? hi)
    subst ht
    exact ⟨hcompleted, rfl⟩

/-- What an update will return, once it is decided. -/
def updateResult : UpdateStage → Option UpdateResult
  | .leaving result => some result
  | .ending result => some result
  | .ended result => some result
  | _ => none

/-- An update returns the error of a closed scope, or it has found the scope live after its
raw update. -/
theorem advance_result {fails : Bool} {deadline : Option ℤ}
    {stage stage' : UpdateStage} {result : UpdateResult}
    (hi : f.threads[i]? = some (.updating kind deadline stage)) (hnone : updateResult stage = none)
    (hi' : (f.advance live fails now i).threads[i]? = some (.updating kind deadline stage'))
    (hresult : updateResult stage' = some result) :
    result = .closed ∨ live = true ∧ stage = .updated (decide (result = .failed)) := by
  have hlt := (List.getElem?_eq_some_iff.mp hi).1
  have hset : ∀ {t : FenceThread}, (f.threads.set i t)[i]? = some t := List.getElem?_set_self hlt
  simp only [Fence.advance, hi] at hi'
  cases stage with
  | waiting =>
    simp only [Fence.advanceUpdate] at hi'
    split at hi'
    · cases hi.symm.trans hi'
      cases hresult
    · cases hset.symm.trans hi'
      cases hresult
  | locked =>
    cases hset.symm.trans hi'
    cases live <;> cases hresult
  | setting =>
    cases hset.symm.trans hi'
    cases hresult
  | updated failed =>
    cases hset.symm.trans hi'
    cases live with
    | false => cases hresult
    | true =>
      cases failed with
      | false | true =>
        cases hresult
        exact .inr ⟨rfl, rfl⟩
  | repairing =>
    cases hset.symm.trans hi'
    cases hresult
    exact .inl rfl
  | leaving | ending | ended => cases hnone

end

end DaxiangVpn.WriteFenceSafety
