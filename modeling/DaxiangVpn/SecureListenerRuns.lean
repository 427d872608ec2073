import DaxiangVpn.SecureListener

/-!
# Runs of the secure listener

The watermark on disk only rises, whatever a commit meets, and a commit that succeeds leaves the
generation and the hash of its registry there. So what is published is ordered over all processes.
-/

namespace DaxiangVpn.SecureListener

open CheckedSteps TransitionRun List

variable {File Roots : Type} {s : Prims File Roots}

/-! ## The watermark only rises -/

def markOf (s : Prims File Roots) (mark : Option File) : Option Watermark := mark.bind s.readMark

/-- The second watermark is the first one, or of a later generation. -/
def Watermark.Rises (old new : Watermark) : Prop := old = new ∨ old.generation < new.generation

/-- A watermark that can be read stays readable and does not fall. -/
def Kept (s : Prims File Roots) (mark mark' : Option File) : Prop :=
  ∀ old, markOf s mark = some old → ∃ new, markOf s mark' = some new ∧ old.Rises new

theorem Kept.refl (mark : Option File) : Kept s mark mark := fun old h => ⟨old, h, .inl rfl⟩

theorem writeMark_mark (mark : Option File) (new : Watermark) (env : CommitEnv) :
    (writeMark s mark new env).1 = mark ∨ markOf s (writeMark s mark new env).1 = some new := by
  unfold writeMark
  split_ifs with hprepared heffect
  · exact .inl rfl
  · exact .inr (s.readMark_print new)
  · exact .inl rfl

variable {env : CommitEnv} {sv : Server Roots} {w : World File Roots}

variable {mark : Option File}

theorem writeMark_ok {new : Watermark}
    (h : (writeMark s mark new env).2 = .ok ()) :
    markOf s (writeMark s mark new env).1 = some new := by
  unfold writeMark at h ⊢
  split_ifs at h ⊢ with hprepared heffect
  · exact s.readMark_print new
  · rw [deny_ok, Bool.or_eq_false_iff] at h
    cases hreplace : env.replaceError with
    | none => simp [hreplace] at heffect
    | some => simp [hreplace] at h

theorem commitOver_kept {file : File} {old : Watermark} (p : Registry) (digest : String)
    (env : CommitEnv) (hread : s.readMark file = some old) :
    ∃ new, markOf s (commitOver s (some file) p digest env (some old)).1 = some new ∧
    old.Rises new := by
  have hsame : markOf s (some file) = some old := hread
  simp only [commitOver]
  split_ifs with hvalid hrollback hequal
  · exact ⟨old, hsame, .inl rfl⟩
  · exact ⟨old, hsame, .inl rfl⟩
  · exact ⟨old, hsame, .inl rfl⟩
  · rcases writeMark_mark (some file) ⟨1, p.generation, digest⟩ env with hkept | hnew
    · rw [hkept]
      exact ⟨old, hsame, .inl rfl⟩
    · refine ⟨_, hnew, .inr ?_⟩
      have hle : old.generation ≤ p.generation := not_lt.mp fun h => hrollback (.inl h)
      exact lt_of_le_of_ne hle (Ne.symm hequal)

theorem commit_kept (mark : Option File) (p : Registry) (digest : String) (create : Bool)
    (env : CommitEnv) :
    Kept s mark (commitSecureWatermark s mark p digest create env).1 := by
  cases mark with
  | none => exact nofun
  | some file =>
    by_cases hunreadable : env.unreadable = true
    · simp only [commitSecureWatermark, if_pos hunreadable]
      exact Kept.refl (some file)
    · intro old hold
      have hread : s.readMark file = some old := hold
      simp only [commitSecureWatermark, if_neg hunreadable, hread]
      exact commitOver_kept p digest env hread

theorem commitOver_ok {file : File} {old : Watermark} {p : Registry} {digest : String}
    (hread : s.readMark file = some old)
    (h : (commitOver s (some file) p digest env (some old)).2 = .ok ()) :
    ∃ new, markOf s (commitOver s (some file) p digest env (some old)).1 = some new ∧
      new.generation = p.generation ∧ new.sha256 = digest := by
  simp only [commitOver] at h ⊢
  split_ifs at h ⊢ with hvalid hrollback hequal
  · refine ⟨old, hread, hequal.symm, ?_⟩
    by_contra hne
    exact hrollback (.inr ⟨hequal, fun hdigest => hne hdigest.symm⟩)
  · exact ⟨_, writeMark_ok h, rfl, rfl⟩

/-- A commit that succeeds leaves the generation and the hash of its registry on disk. -/
theorem commit_ok {p : Registry} {digest : String} {create : Bool}
    (h : (commitSecureWatermark s mark p digest create env).2 = .ok ()) :
    ∃ new, markOf s (commitSecureWatermark s mark p digest create env).1 = some new ∧
      new.generation = p.generation ∧ new.sha256 = digest := by
  by_cases hunreadable : env.unreadable = true
  · simp [commitSecureWatermark, hunreadable] at h
  cases mark with
  | none =>
    by_cases hcreate : create = true
    · simp only [commitSecureWatermark, if_neg hunreadable, hcreate, if_true] at h ⊢
      exact ⟨_, writeMark_ok h, rfl, rfl⟩
    · simp [commitSecureWatermark, hunreadable, hcreate] at h
  | some file =>
    simp only [commitSecureWatermark, if_neg hunreadable] at h ⊢
    cases hread : s.readMark file with
    | none => simp [hread, commitOver] at h
    | some =>
      simp only [hread] at h ⊢
      exact commitOver_ok hread h

theorem initialize_kept (mark : Option File) (unreadable : Bool) (data : Option Bytes)
    (hubID : String) (env : CommitEnv) :
    Kept s mark (initializeSecureRegistry s mark unreadable data hubID env) := by
  unfold initializeSecureRegistry
  split_ifs with hrefused
  · exact Kept.refl mark
  cases loadSecureRegistry s data hubID with
  | none => exact Kept.refl mark
  | some loaded =>
    obtain ⟨p, digest⟩ := loaded
    simp only
    split_ifs with hfirst
    · exact Kept.refl mark
    · exact commit_kept mark p digest true env

/-! ## What a refresh publishes -/

theorem refresh_kept (sv : Server Roots) (mark : Option File) (env : RefreshEnv Roots) :
    Kept s mark (refresh s sv mark env).mark := by
  unfold refresh
  split_ifs with hclosed
  · exact Kept.refl mark
  · cases hload : loadPolicy s sv env with
    | error => exact Kept.refl mark
    | ok loaded => exact commit_kept mark loaded.1.registry loaded.2 false env.commit

theorem map_ok {α β ε : Type} {x : Except ε α} {f : α → β} {b : β} (h : x.map f = .ok b) :
    ∃ a, x = .ok a ∧ f a = b := by
  cases x with
  | error => cases h
  | ok a => exact ⟨a, rfl, Except.ok.inj h⟩

theorem refresh_published {env : RefreshEnv Roots} {e : Published File}
    (h : e ∈ (refresh s sv mark env).published) :
    e.mark = (refresh s sv mark env).mark ∧ ∃ new, markOf s e.mark = some new ∧
    new.generation = e.generation ∧
    new.sha256 = e.digest := by
  unfold Refreshed.published at h
  cases hresult : (refresh s sv mark env).result with
  | error => simp [hresult] at h
  | ok loaded =>
    obtain ⟨snapshot, digest⟩ := loaded
    simp only [hresult, mem_singleton] at h
    obtain rfl := h
    refine ⟨rfl, ?_⟩
    unfold refresh at hresult ⊢
    split_ifs at hresult ⊢ with hclosed
    cases hload : loadPolicy s sv env with
    | error => simp [hload, commitLoaded] at hresult
    | ok loaded =>
      obtain ⟨snapshot', digest'⟩ := loaded
      simp only [hload, commitLoaded] at hresult ⊢
      obtain ⟨u, hcommit, heq⟩ := map_ok hresult
      obtain ⟨rfl, rfl⟩ : snapshot' = snapshot ∧ digest' = digest := by simpa using heq
      exact commit_ok hcommit

/-! ## What was published is ordered -/

/-- The second one is of a later generation, or the same registry. -/
def Published.Before (a b : Published File) : Prop :=
  a.generation < b.generation ∨ (a.generation = b.generation ∧ a.digest = b.digest)

/-- What was published is ordered, was on disk, and is not ahead of the watermark. -/
structure Ordered (s : Prims File Roots) (w : World File Roots) : Prop where
  pairwise : w.log.Pairwise Published.Before
  durable : ∀ e ∈ w.log, ∃ m, markOf s e.mark = some m ∧ m.generation = e.generation ∧
    m.sha256 = e.digest
  /-- The watermark on disk is not behind. -/
  marked : ∀ e ∈ w.log, ∃ m, markOf s w.mark = some m ∧
    (e.generation < m.generation ∨ (e.generation = m.generation ∧ e.digest = m.sha256))

theorem Ordered.keep (h : Ordered s w) (hkept : Kept s w.mark mark)
    (server : Option (Server Roots)) : Ordered s ⟨mark, server, w.log⟩ := by
  refine ⟨h.pairwise, h.durable, ?_⟩
  intro e he
  obtain ⟨m, hm, horder⟩ := h.marked e he
  obtain ⟨m', hm', hrises⟩ := hkept m hm
  refine ⟨m', hm', ?_⟩
  rcases hrises with rfl | hlt
  · exact horder
  · rcases horder with hless | ⟨heq, -⟩
    · exact .inl (hless.trans hlt)
    · exact .inl (heq ▸ hlt)

theorem Ordered.refresh (h : Ordered s w) (sv : Server Roots) (env : RefreshEnv Roots) :
    Ordered s (w.refreshed (SecureListener.refresh s sv w.mark env)) := by
  set next := SecureListener.refresh s sv w.mark env
  have hkeep := h.keep (refresh_kept sv w.mark env) (some next.server)
  have hpublished : ∀ e ∈ next.published, _ := fun e he => refresh_published he
  refine ⟨?_, ?_, ?_⟩
  · refine pairwise_append.mpr ⟨h.pairwise, ?_, ?_⟩
    · unfold Refreshed.published
      cases next.result with
      | error => exact List.Pairwise.nil
      | ok => exact pairwise_singleton _ _
    · intro a ha b hb
      obtain ⟨hmark, new, hnew, hgeneration, hdigest⟩ := hpublished b hb
      obtain ⟨m, hm, horder⟩ := hkeep.marked a ha
      rw [hmark] at hnew
      obtain rfl : m = new := Option.some.inj (hm.symm.trans hnew)
      unfold Published.Before
      rw [← hgeneration, ← hdigest]
      exact horder
  · intro e he
    rcases mem_append.mp he with hold | hnew
    · exact h.durable e hold
    · exact (hpublished e hnew).2
  · intro e he
    rcases mem_append.mp he with hold | hnew
    · exact hkeep.marked e hold
    · obtain ⟨hmark, new, hread, hgeneration, hdigest⟩ := hpublished e hnew
      refine ⟨new, ?_, .inr ⟨hgeneration.symm, hdigest.symm⟩⟩
      rw [hmark] at hread
      exact hread

theorem Ordered.started (h : Ordered s w) (sv : Server Roots) (env : RefreshEnv Roots) :
    Ordered s (w.started (SecureListener.refresh s sv w.mark env)) := by
  unfold World.started
  cases (SecureListener.refresh s sv w.mark env).result with
  | error => exact h.keep (refresh_kept sv w.mark env) none
  | ok => exact h.refresh sv env

theorem step_ordered (h : Ordered s w) (e : Event Roots) : Ordered s (step s w e) := by
  have hserver : ∀ server, Ordered s ⟨w.mark, server, w.log⟩ :=
    fun server => h.keep (Kept.refl w.mark) server
  cases e with
  | initRegistry unreadable data hubID env =>
    unfold step
    split_ifs with hlocked
    · exact h
    · exact h.keep (initialize_kept w.mark unreadable data hubID env) w.server
  | start hubID env =>
    unfold step
    split_ifs with hlocked
    · exact h
    · exact h.started (newServer hubID) env
  | refresh env =>
    unfold step
    cases w.server with
    | none => exact h
    | some sv => exact h.refresh sv env
  | handshake | enter | abandon | closeSession | finish | close | crash => exact hserver _
  | crashRefresh env =>
    unfold step
    cases w.server with
    | none => exact h
    | some sv => exact h.keep (refresh_kept sv w.mark env) none
  | crashStart hubID env =>
    unfold step
    split_ifs with hlocked
    · exact h
    · exact h.keep (refresh_kept (newServer hubID) w.mark env) none

/-- Over all processes, crashes and restarts, the generations that are published never decrease, one
generation has one hash, and its watermark was on disk when it was published. -/
theorem run_published (s : Prims File Roots) (mark : Option File) (events : List (Event Roots)) :
    ((run (step s) (init mark) events).log.Pairwise fun a b => a.generation ≤ b.generation) ∧
      (∀ a ∈ (run (step s) (init mark) events).log, ∀ b ∈ (run (step s) (init mark) events).log,
        a.generation = b.generation → a.digest = b.digest) ∧
      ∀ e ∈ (run (step s) (init mark) events).log,
        ∃ m, markOf s e.mark = some m ∧ m.generation = e.generation := by
  have hfirst : Ordered s (init mark : World File Roots) :=
    ⟨List.Pairwise.nil, nofun, nofun⟩
  have hordered : Ordered s (run (step s) (init mark) events) :=
    run_invariant (Ordered s) (fun _ e h (_ : True) => step_ordered h e) hfirst
      (along_of_forall (fun _ _ => trivial) _ events)
  refine ⟨hordered.pairwise.imp ?_, ?_, ?_⟩
  · intro a b hbefore
    rcases hbefore with hlt | ⟨heq, -⟩
    · exact hlt.le
    · exact heq.le
  · have hpairs : (run (step s) (init mark) events).log.Pairwise
        fun a b => a.generation = b.generation → a.digest = b.digest := by
      refine hordered.pairwise.imp ?_
      intro a b hbefore hsame
      rcases hbefore with hlt | ⟨-, hdigest⟩
      · exact absurd hsame hlt.ne
      · exact hdigest
    have hsymm : Std.Symm fun a b : Published File => a.generation = b.generation →
      a.digest = b.digest :=
      ⟨fun a b hab hsame => (hab hsame.symm).symm⟩
    intro a ha b hb
    exact List.Pairwise.forall_of_forall (fun x _ _ => rfl) hpairs ha hb
  · intro e he
    obtain ⟨m, hm, hgeneration, -⟩ := hordered.durable e he
    exact ⟨m, hm, hgeneration⟩

/-! ## Sessions -/

/-- The bounds of the active set. -/
structure Bounded (sv : Server Roots) : Prop where
  closed : sv.closed = true → sv.active = []
  total : sv.active.length ≤ 256
  each : ∀ egressID, (openSessions sv egressID).length ≤ secureMaxSessionsPerEgress

/-- A listener with fewer sessions of which more are closed has fewer that are not. -/
theorem openSessions_le {sv' : Server Roots} (hactive : sv'.active.Sublist sv.active)
    (hshut : ∀ id ∈ sv.shut, id ∈ sv'.shut) (egressID : String) :
    (openSessions sv' egressID).length ≤ (openSessions sv egressID).length := by
  unfold openSessions
  refine le_trans (hactive.filter _).length_le ?_
  rw [← countP_eq_length_filter, ← countP_eq_length_filter]
  refine countP_mono_left ?_
  intro x _ hx
  simp only [decide_eq_true_eq] at hx ⊢
  exact ⟨hx.1, fun h => hx.2 (hshut x.id h)⟩

theorem Bounded.shrink {sv' : Server Roots} (h : Bounded sv)
    (hactive : sv'.active.Sublist sv.active) (hshut : ∀ id ∈ sv.shut, id ∈ sv'.shut)
    (hclosed : sv'.closed = true → sv.closed = true ∨ sv'.active = []) :
    Bounded sv' := by
  refine ⟨?_, hactive.length_le.trans h.total,
    fun egressID => (openSessions_le hactive hshut egressID).trans (h.each egressID)⟩
  intro hcl
  rcases hclosed hcl with hbefore | hempty
  · have hnone := h.closed hbefore
    rw [hnone] at hactive
    exact sublist_nil.mp hactive
  · exact hempty

/-- A handshake that passes a check is authorized by what is published, and within the bounds. -/
theorem admission_some {certs : List Certificate} {now : Time} {identity : Identity}
    (h : admission s sv certs now = some identity) : ∃ p, sv.snapshot = some p ∧ sv.closed = false ∧
    authorizeSecureEgress s p.registry certs p.roots now = .ok identity ∧
    (openSessions sv identity.egressID).length < secureMaxSessionsPerEgress ∧
    sv.active.length < 256 := by
  obtain ⟨p, hp, h⟩ := Option.bind_eq_some_iff.mp h
  split_ifs at h with hclosed
  obtain ⟨id, hid, h⟩ := Option.bind_eq_some_iff.mp h
  split_ifs at h with hlimits
  obtain rfl := Option.some.inj h
  rw [not_or, not_le, not_le] at hlimits
  refine ⟨p, hp, by simpa using hclosed, ?_, hlimits.1, hlimits.2⟩
  cases hauth : authorizeSecureEgress s p.registry certs p.roots now with
  | error => simp [hauth, Except.toOption] at hid
  | ok =>
    rw [hauth] at hid
    exact congrArg Except.ok (Option.some.inj hid)

theorem enter_cases (sv : Server Roots) (id : ℕ) (now : Time) :
    ((enter s sv id now).active = sv.active ∨
    ∃ certs identity, admission s sv certs now = some identity ∧
        (enter s sv id now).active = ⟨id, identity, certs⟩ :: sv.active) ∧
      (enter s sv id now).shut = sv.shut ∧ (enter s sv id now).closed = sv.closed ∧
      (enter s sv id now).snapshot = sv.snapshot := by
  unfold enter
  cases hwaiting : sv.waiting.lookup id with
  | none => exact ⟨.inl rfl, rfl, rfl, rfl⟩
  | some certs =>
    cases hadmission : admission s sv certs now with
    | none => simp [hadmission, reject]
    | some identity =>
      simp only [hadmission]
      exact ⟨.inr ⟨certs, identity, hadmission, rfl⟩, trivial, trivial, trivial⟩

theorem Bounded.enter (h : Bounded sv) (id : ℕ) (now : Time) :
    Bounded (SecureListener.enter s sv id now) := by
  obtain ⟨hactive, hshut, hclosed, -⟩ := enter_cases (s := s) sv id now
  rcases hactive with hsame | ⟨certs, identity, hadmission, hnew⟩
  · refine h.shrink (hsame ▸ List.Sublist.refl _) (fun x hx => hshut ▸ hx) fun hcl =>
      .inl (hclosed ▸ hcl)
  obtain ⟨p, -, hopen, -, hfew, htotal⟩ := admission_some hadmission
  refine ⟨?_, ?_, ?_⟩
  · intro hcl
    rw [hclosed, hopen] at hcl
    cases hcl
  · rw [hnew]
    exact htotal
  intro egressID
  have hothers := h.each egressID
  unfold openSessions at hothers hfew ⊢
  rw [hnew, hshut, filter_cons]
  split_ifs with hcounted
  · simp only [decide_eq_true_eq] at hcounted
    rw [← hcounted.1, length_cons]
    exact hfew
  · exact hothers

theorem publish_sessions (sv : Server Roots) (result : Except Refusal (Snapshot Roots × String)) :
    (publish sv result).active = sv.active ∧ (publish sv result).shut = sv.shut ∧
      (publish sv result).closed = sv.closed := by
  cases result with
  | error => exact ⟨rfl, rfl, rfl⟩
  | ok => exact ⟨rfl, rfl, rfl⟩

theorem refresh_eq (hopen : sv.closed = false) (mark : Option File) (env : RefreshEnv Roots) :
    (SecureListener.refresh s sv mark env).server =
      prune (publish sv (SecureListener.refresh s sv mark env).result)
        (authorized s env.now (SecureListener.refresh s sv mark env).result) := by
  unfold SecureListener.refresh
  rw [hopen]
  rfl

theorem refresh_closed (hclosed : sv.closed = true) (mark : Option File) (env : RefreshEnv Roots) :
    (SecureListener.refresh s sv mark env).server = sv := by
  unfold SecureListener.refresh
  rw [hclosed]
  rfl

theorem refresh_sessions (sv : Server Roots) (mark : Option File) (env : RefreshEnv Roots) :
    (SecureListener.refresh s sv mark env).server.active.Sublist sv.active ∧
      (∀ id ∈ sv.shut, id ∈ (SecureListener.refresh s sv mark env).server.shut) ∧
      (SecureListener.refresh s sv mark env).server.closed = sv.closed ∧
      ∀ x ∈ sv.active, x ∉ (SecureListener.refresh s sv mark env).server.active →
        x.id ∈ (SecureListener.refresh s sv mark env).server.shut := by
  cases hclosed : sv.closed with
  | true =>
    rw [refresh_closed hclosed]
    exact ⟨List.Sublist.refl _, fun id hid => hid, hclosed, fun x hx hgone => absurd hx hgone⟩
  | false =>
    rw [refresh_eq hclosed]
    generalize (SecureListener.refresh s sv mark env).result = result
    obtain ⟨hactive, hshut, hsame⟩ := publish_sessions sv result
    simp only [prune, hactive, hshut, hsame]
    refine ⟨filter_sublist, fun id hid => mem_append_right _ hid, hclosed, ?_⟩
    intro x hx hgone
    have hinvalid : authorized s env.now result x = false := by
      by_contra hvalid
      exact hgone (mem_filter.mpr ⟨hx, by simpa using hvalid⟩)
    refine mem_append_left _ (mem_map.mpr ⟨x, mem_filter.mpr ⟨hx, ?_⟩, rfl⟩)
    rw [hinvalid]
    rfl

theorem Bounded.refresh (h : Bounded sv) (mark : Option File) (env : RefreshEnv Roots) :
    Bounded (SecureListener.refresh s sv mark env).server := by
  obtain ⟨hactive, hshut, hclosed, -⟩ := refresh_sessions (s := s) sv mark env
  exact h.shrink hactive hshut fun hcl => .inl (hclosed ▸ hcl)

theorem Bounded.handshake (h : Bounded sv) (certs : List Certificate) (now : Time) :
    Bounded (SecureListener.handshake s sv certs now) := by
  unfold SecureListener.handshake
  cases admission s sv certs now with
  | none | some => exact h.shrink (List.Sublist.refl _) (fun _ hid => hid) .inl

theorem Bounded.finish (h : Bounded sv) (id : ℕ) : Bounded (SecureListener.finish sv id) := by
  unfold SecureListener.finish
  split_ifs with hshut
  · exact h.shrink filter_sublist (fun _ hid => hid) .inl
  · exact h

/-- The active set of every world is within the bounds. -/
def AllBounded (w : World File Roots) : Prop := ∀ sv, w.server = some sv → Bounded sv

/-- A change of the listener that keeps the bounds keeps them in the world. -/
theorem AllBounded.map (h : AllBounded w) {f : Server Roots → Server Roots}
    (hf : ∀ sv, Bounded sv → Bounded (f sv)) : AllBounded { w with server := w.server.map f } := by
  intro sv hsv
  obtain ⟨old, hold, rfl⟩ := Option.map_eq_some_iff.mp hsv
  exact hf old (h old hold)

def Fresh (w : World File Roots) (x : Session) : Prop := ∀ old, w.server = some old → x ∉ old.active

/-- A change of the listener that inserts nothing has no new session. -/
theorem Fresh.map {x : Session} (h : Fresh w x) {f : Server Roots → Server Roots}
    (hf : ∀ old, (f old).active.Sublist old.active) (hsv : w.server.map f = some sv) :
    x ∉ sv.active := by
  obtain ⟨old, hold, rfl⟩ := Option.map_eq_some_iff.mp hsv
  exact fun hx => h old hold ((hf old).subset hx)

/-- Hash of the certificate below. -/
def sampleLeaf : String := "4ea140588150773ce3aace786aeef7f4049ce100fa649c94fbbddb960f1da942"

def sampleRegistry : Registry :=
  ⟨1, ⟨1, by decide⟩, "hub",
    some [⟨"home", "active", some [⟨"first", sampleLeaf, "active", 10, 1000⟩]⟩]⟩

/-- The text of the registry. -/
def sampleRaw : Bytes :=
  HexTexts.textBytes
    ("\x7b\"schema_version\":1,\"generation\":1,\"hub_id\":\"hub\",\"egresses\":[\x7b" ++
    "\"egress_id\":\"home\",\"state\":\"active\",\"credentials\":[\x7b\"credential_id\":\"first\","
      ++
    "\"leaf_sha256\":\"4ea140588150773ce3aace786aeef7f4049ce100fa649c94fbbddb960f1da942\"," ++
    "\"state\":\"active\",\"not_before\":\"0001-01-01T00:00:00.00000001Z\"," ++
    "\"expires_at\":\"0001-01-01T00:00:00.000001Z\"\x7d]\x7d]\x7d")

/-- A certificate that the authority has signed; its content is not looked at. -/
def sampleCertificate : Certificate :=
  ⟨HexTexts.textBytes "home", false, [⟨"spiffe", "zhvpn", false, "", "", "", "/egress/home"⟩],
    [.clientAuth], 0, true, 5, 2000⟩

/-- The libraries on the sample registry and certificate. A file holds its watermark. -/
def sampleLibraries : Prims Watermark Unit where
  decodeRegistry raw := if raw = sampleRaw then some sampleRegistry else none
  digest raw :=
    if raw = sampleRaw then "f2989b36d1d4158ebff36dda4ee540216a25d5918abbd3bf2c2c1389f9173be7"
    else sampleLeaf
  readMark := some
  printMark := id
  readMark_print _ := rfl
  verifyChain certs _ now := certs = [sampleCertificate] && decide (5 ≤ now ∧ now ≤ 2000)

/-- Nothing fails. -/
def sampleCommit : CommitEnv := ⟨false, false, none, false⟩

def sampleRefresh : RefreshEnv Unit := ⟨some (), true, some sampleRaw, sampleCommit, 100⟩

/-- A registry is initialized and published, and a session is admitted. -/
def sampleEvents : List (Event Unit) :=
  [.initRegistry false (some sampleRaw) "hub" sampleCommit, .start "hub" sampleRefresh,
    .handshake [sampleCertificate] 100, .enter 0 100, .refresh sampleRefresh]

example : (run (step sampleLibraries) (init none) sampleEvents).log.length = 2 ∧
    ((run (step sampleLibraries) (init none) sampleEvents).server.map fun sv => sv.active.length) =
      some 1 := by
  decide +kernel

end DaxiangVpn.SecureListener
