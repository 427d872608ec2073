import DaxiangVpn.DeviceAuthTables

/-!
# Cycles of replaced credentials

A restored database is searched for credentials that replace each other in a circle. Every
credential is colored once, whatever the order of the table: 1 while it is on the path that is
followed, 2 when the path has ended.
-/

namespace DaxiangVpn.DeviceAuthRotation

open RelationTable DeviceAuthTables List Function Relation

/-- Credentials under their keys. -/
abbrev Credentials := Table CredentialRow.credentialId

/-- The inner loop of the coloring, from a row on. The path holds the credentials that it marked. -/
def follow (t : Credentials) : ℕ → (String → ℕ) → List String → Option CredentialRow →
    Option (Except String (String → ℕ) × List String)
  | 0, _, _, _ => none
  | _ + 1, colors, path, none => some (.ok colors, path)
  | fuel + 1, colors, path, some row =>
    if colors row.credentialId = 1 then some (.error "credential_rotation_cycle", path)
    else if colors row.credentialId = 2 then some (.ok colors, path)
    else
      let marked := update colors row.credentialId 1
      match row.replacedBy with
      | none => some (.ok marked, path ++ [row.credentialId])
      | some id => follow t fuel marked (path ++ [row.credentialId]) (t.find id)

def settle (colors : String → ℕ) (path : List String) : String → ℕ :=
  fun id => if id ∈ path then 2 else colors id

/-- The outer loop, with all credentials that were marked so far. -/
def colorFrom (t : Credentials) (fuel : ℕ) :
    List CredentialRow → (String → ℕ) → List String → Option (Except String Unit × List String)
  | [], _, marks => some (.ok (), marks)
  | start :: rest, colors, marks =>
    match follow t fuel colors [] (some start) with
    | none => none
    | some (.error e, path) => some (.error e, marks ++ path)
    | some (.ok colors, path) => colorFrom t fuel rest (settle colors path) (marks ++ path)

/-- The coloring of `restoreValidate`, with the credentials that it marked. -/
def colorCredentials (t : Credentials) (fuel : ℕ) (order : List CredentialRow) :
    Option (Except String Unit × List String) :=
  colorFrom t fuel order (fun _ => 0) []

/-! ## Cycles -/

/-- The second credential replaces the first one. -/
def Next (t : Credentials) (id next : String) : Prop :=
  ∃ r ∈ t, r.credentialId = id ∧ r.replacedBy = some next

/-- Some credential replaces itself in the end. -/
def Cyclic (t : Credentials) : Prop := ∃ id, TransGen (Next t) id id

/-- The coloring ends, has marked each credential at most once and reports a cycle exactly when
there is one. -/
def Exact (t : Credentials) (outcome : Option (Except String Unit × List String)) : Prop :=
  ∃ result marked, outcome = some (result, marked) ∧ marked.Nodup ∧
  (∀ id ∈ marked, ∃ r ∈ t, r.credentialId = id) ∧
    (result = .error "credential_rotation_cycle" ∧ Cyclic t ∨ result = .ok () ∧ ¬ Cyclic t)

def Ends (t : Credentials) (id : String) : Prop := Acc (fun next id => Next t id next) id

/-- Credentials that are done are those of color 2, and their chains end. -/
structure Colored (t : Credentials) (colors : String → ℕ) (marks path : List String) : Prop where
  two : ∀ id, colors id = 2 ↔ id ∈ marks
  one : ∀ id, colors id = 1 ↔ id ∈ path
  nodup : (marks ++ path).Nodup
  known : ∀ id ∈ marks ++ path, ∃ r ∈ t, r.credentialId = id
  ends : ∀ id ∈ marks, Ends t id

/-- What following a path to a credential gives: a cycle, or a path of chains that end. -/
inductive Followed (t : Credentials) (marks : List String) (id : String) :
    Option (Except String (String → ℕ) × List String) → Prop
  | ended {colors : String → ℕ} {path : List String} (colored : Colored t colors marks path)
      (ends : ∀ x ∈ path, Ends t x) (last : Ends t id) :
      Followed t marks id (some (.ok colors, path))
  | cycle {colors : String → ℕ} {path : List String} (colored : Colored t colors marks path)
      (cyclic : Cyclic t) :
      Followed t marks id (some (.error "credential_rotation_cycle", path))

section

variable {t : Credentials} {colors : String → ℕ} {marks path : List String}
  {row : CredentialRow} {id : String}

/-- The chain of a credential ends with the chain of the one that replaces it. -/
theorem ends_of_next (hr : row ∈ t) (h : ∀ next, row.replacedBy = some next → Ends t next) :
    Ends t row.credentialId := by
  refine ⟨_, fun next hnext => ?_⟩
  obtain ⟨r, hm, hkey, hnext⟩ := hnext
  rw [Table.eq_of_key hm hr hkey] at hnext
  exact h next hnext

theorem ends_of_reaches {last : String} (h : TransGen (Next t) id last) (hlast : Ends t last) :
    Ends t id := by
  have hstep : ∀ x y, Next t x y → Ends t y → Ends t x := by
    rintro x y ⟨r, hr, rfl, hy⟩ hends
    refine ends_of_next hr fun next hnext => ?_
    cases hy.symm.trans hnext
    exact hends
  induction h using TransGen.head_induction_on with
  | single h => exact hstep _ _ h hlast
  | head h _ ih => exact hstep _ _ h ih

theorem Ends.acyclic (h : Ends t id) : ¬ TransGen (Next t) id id := by
  induction h with
  | intro id _ ih =>
    intro hcycle
    obtain ⟨next, hstep, hback⟩ := TransGen.head'_iff.mp hcycle
    exact ih next hstep (TransGen.tail' hback hstep)

theorem Colored.length_le (h : Colored t colors marks path) :
    (marks ++ path).length ≤ t.rows.length := by
  have hsub : marks ++ path ⊆ t.rows.map CredentialRow.credentialId := by
    intro id hid
    obtain ⟨r, hr, hkey⟩ := h.known id hid
    exact mem_map.mpr ⟨r, hr, hkey⟩
  have hlength := (h.nodup.subperm hsub).length_le
  rwa [length_map] at hlength

theorem Colored.mark (h : Colored t colors marks path) (hr : row ∈ t)
    (hone : colors row.credentialId ≠ 1) (htwo : colors row.credentialId ≠ 2) :
    Colored t (update colors row.credentialId 1) marks (path ++ [row.credentialId]) := by
  have hnew : row.credentialId ∉ marks ++ path := by
    rw [mem_append, ← h.two, ← h.one, not_or]
    exact ⟨htwo, hone⟩
  refine ⟨fun id => ?_, fun id => ?_, ?_, ?_, h.ends⟩
  · by_cases hid : id = row.credentialId
    · rw [hid, update_self]
      exact ⟨nofun, fun hm => absurd (mem_append_left _ hm) hnew⟩
    · rw [update_of_ne hid]
      exact h.two id
  · by_cases hid : id = row.credentialId
    · simp [hid]
    · simp [hid, h.one id]
  · rw [← append_assoc]
    exact nodup_append_comm.mp (nodup_cons.mpr ⟨hnew, h.nodup⟩)
  · rw [← append_assoc]
    exact forall_mem_append.mpr ⟨h.known, by simpa using ⟨row, hr, rfl⟩⟩

/-- All credentials of a path are done when the chain of the last one ends. -/
theorem Colored.settle (h : Colored t colors marks path) (hends : ∀ id ∈ path, Ends t id) :
    Colored t (settle colors path) (marks ++ path) [] := by
  refine ⟨fun id => ?_, fun id => ?_, ?_, ?_, forall_mem_append.mpr ⟨h.ends, hends⟩⟩
  · unfold DeviceAuthRotation.settle
    by_cases hid : id ∈ path
    · simp [hid]
    · simp [hid, h.two id]
  · unfold DeviceAuthRotation.settle
    by_cases hid : id ∈ path
    · simp [hid]
    · simp [hid, h.one id]
  · rw [append_nil]
    exact h.nodup
  · rw [append_nil]
    exact h.known

/-- One call of the inner loop, whose path leads to the credential that it looks at. -/
theorem follow_followed {fuel : ℕ} (h : Colored t colors marks path)
    (hleads : ∀ x ∈ path, TransGen (Next t) x id)
    (hfuel : t.rows.length < fuel + (marks ++ path).length) :
    Followed t marks id (follow t fuel colors path (t.find id)) := by
  induction fuel generalizing colors path id with
  | zero => exact absurd h.length_le (by omega)
  | succ fuel ih =>
    have hdone : Ends t id → Followed t marks id (some (.ok colors, path)) := fun hends =>
      .ended h (fun x hx => ends_of_reaches (hleads x hx) hends) hends
    cases hfind : t.find id with
    | none =>
      refine hdone ⟨_, fun next hnext => ?_⟩
      obtain ⟨r, hr, hkey, -⟩ := hnext
      exact absurd hkey (find_eq_none.mp hfind r hr)
    | some row =>
      obtain ⟨hr, rfl⟩ := find_eq_some.mp hfind
      rw [follow]
      split
      · rename_i hone
        exact .cycle h ⟨_, hleads _ ((h.one _).mp hone)⟩
      rename_i hone
      split_ifs with htwo
      · exact hdone (h.ends _ ((h.two _).mp htwo))
      have hmarked := h.mark hr hone htwo
      cases hnext : row.replacedBy with
      | none =>
        have hends := ends_of_next hr fun next hn => by cases hnext.symm.trans hn
        refine .ended hmarked
          (forall_mem_append.mpr ⟨fun x hx => ends_of_reaches (hleads x hx) hends, ?_⟩) hends
        exact forall_mem_singleton.mpr hends
      | some next =>
        have hstep : Next t row.credentialId next := ⟨row, hr, rfl, hnext⟩
        have hlength : (marks ++ path).length + 1 =
          (marks ++ (path ++ [row.credentialId])).length := by
          simp [Nat.add_assoc]
        have hrest := ih hmarked (forall_mem_append.mpr ⟨fun x hx => (hleads x hx).tail hstep,
          forall_mem_singleton.mpr (.single hstep)⟩) (by omega)
        dsimp only
        generalize follow t fuel _ _ _ = result at hrest ⊢
        cases hrest with
        | ended hc hends hlast => exact .ended hc hends (ends_of_reaches (.single hstep) hlast)
        | cycle hc hcyclic => exact .cycle hc hcyclic

theorem colorFrom_exact {fuel : ℕ} (hfuel : t.rows.length < fuel) {order : List CredentialRow}
    (horder : ∀ r ∈ order, r ∈ t) (h : Colored t colors marks [])
    (hall : ∀ r ∈ t, r ∈ order ∨ Ends t r.credentialId) :
    Exact t (colorFrom t fuel order colors marks) := by
  induction order generalizing colors marks with
  | nil =>
    refine ⟨.ok (), marks, rfl, by simpa using h.nodup, by simpa using h.known, .inr ⟨rfl, ?_⟩⟩
    rintro ⟨id, hcycle⟩
    obtain ⟨next, ⟨r, hr, rfl, -⟩, -⟩ := TransGen.head'_iff.mp hcycle
    exact ((hall r hr).resolve_left not_mem_nil).acyclic hcycle
  | cons start rest ih =>
    have hfollowed : Followed t marks start.credentialId _ :=
      follow_followed h (by simp) (Nat.lt_add_right _ hfuel)
    rw [find_of_mem (horder start mem_cons_self)] at hfollowed
    rw [colorFrom]
    generalize follow t fuel _ _ _ = result at hfollowed ⊢
    cases hfollowed with
    | ended hc hends hlast =>
      refine ih (fun r hr => horder r (mem_cons_of_mem _ hr)) (hc.settle hends) fun r hr => ?_
      rcases hall r hr with hm | hm
      · rcases mem_cons.mp hm with rfl | hm
        · exact .inr hlast
        · exact .inl hm
      · exact .inr hm
    | cycle hc hcyclic => exact ⟨_, _, rfl, hc.nodup, hc.known, .inl ⟨rfl, hcyclic⟩⟩

end

/-- The coloring is exact in every order of the rows. A credential that is replaced by one that does
not exist is the end of its chain. -/
theorem colorCredentials_exact (t : Credentials) {order : List CredentialRow}
    (horder : order.Perm t.rows) {fuel : ℕ} (hfuel : t.rows.length < fuel) :
    Exact t (colorCredentials t fuel order) := by
  refine colorFrom_exact hfuel (fun r hr => horder.mem_iff.mp hr) ?_ fun r hr =>
    .inl (horder.mem_iff.mpr hr)
  exact ⟨by simp, by simp, nodup_nil, by simp, by simp⟩

/-- Two credentials that replace each other, and one that replaces the first of them. -/
def sampleRows : List CredentialRow :=
  [⟨"a", "d", "k1", 9, some 1, some "b"⟩, ⟨"b", "d", "k2", 9, some 2, some "a"⟩,
    ⟨"c", "d", "k3", 9, some 3, some "a"⟩]

def sampleTable : Credentials := ⟨sampleRows, by decide⟩

/-- The cycle of the sample is found from its last row, too. -/
theorem colorCredentials_reversed :
    colorCredentials sampleTable 4 sampleRows.reverse =
      some (.error "credential_rotation_cycle", ["c", "a", "b"]) ∧
      Exact sampleTable (colorCredentials sampleTable 4 sampleRows.reverse) :=
  ⟨by rfl, colorCredentials_exact sampleTable (reverse_perm _) (by decide)⟩

end DaxiangVpn.DeviceAuthRotation
