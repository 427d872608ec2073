import Mathlib.Data.List.Nodup
import Mathlib.Tactic

/-!
# Relations with a primary key

A table is a list of rows whose primary keys are pairwise different. The
uniqueness proof is a field, so no statement can build a table that breaks its
key. Row order is insertion order and is only used by rank arguments.
-/

namespace DaxiangVpn.RelationTable
open List

/-- Rows in insertion order, with pairwise different primary keys. -/
structure Table {κ ρ : Type} (key : ρ → κ) where
  rows : List ρ
  nodup : (rows.map key).Nodup

variable {κ ρ : Type} {key : ρ → κ}

/-- Row membership, as in a query without a condition. -/
instance : Membership ρ (Table key) := ⟨fun t r => r ∈ t.rows⟩

variable {t t' : Table key} {p : ρ → Bool} {f : ρ → ρ} {R : ρ → ρ → Prop} {r a : ρ}

/-- Membership is membership of the row list. -/
theorem mem_def : r ∈ t ↔ r ∈ t.rows := Iff.rfl

/-- A condition on all rows can be evaluated. -/
instance {p : ρ → Prop} [DecidablePred p] (t : Table key) : Decidable (∀ r ∈ t, p r) :=
  inferInstanceAs (Decidable (∀ r ∈ t.rows, p r))

/-- A condition on some row can be evaluated. -/
instance {p : ρ → Prop} [DecidablePred p] (t : Table key) : Decidable (∃ r ∈ t, p r) :=
  inferInstanceAs (Decidable (∃ r ∈ t.rows, p r))

/-- The table without rows. -/
def Table.empty : Table key := ⟨[], nodup_nil⟩

@[simp] theorem not_mem_empty (r : ρ) : r ∉ (Table.empty : Table key) := not_mem_nil

/-- A row is determined by its primary key. -/
theorem Table.eq_of_key {b : ρ} (ha : a ∈ t) (hb : b ∈ t) (hk : key a = key b) : a = b :=
  inj_on_of_nodup_map t.nodup ha hb hk

/-- Rows that satisfy a condition, as a query with `WHERE`. -/
def Table.select (t : Table key) (p : ρ → Bool) : List ρ := t.rows.filter p

/-- A selected row is a row that satisfies the condition. -/
@[simp] theorem mem_select {t : Table key} {p : ρ → Bool} :
    r ∈ t.select p ↔ r ∈ t ∧ p r = true := mem_filter

/-- Whether some row satisfies a condition, as a query with `EXISTS`. -/
def Table.has (t : Table key) (p : ρ → Bool) : Bool := t.rows.any p

/-- `has` finds a row exactly when there is one. -/
@[simp] theorem has_eq_true {t : Table key} {p : ρ → Bool} :
    t.has p = true ↔ ∃ r ∈ t, p r = true := any_eq_true

/-- `has` fails exactly when every row fails. -/
theorem has_eq_false : t.has p = false ↔ ∀ r ∈ t, p r = false := by
  constructor
  · intro h r hr
    cases hp : p r with
    | false => rfl
    | true =>
      rw [has_eq_true.mpr ⟨r, hr, hp⟩] at h
      exact h
  · intro h
    cases hh : t.has p with
    | false => rfl
    | true =>
      obtain ⟨r, hr, hp⟩ := has_eq_true.mp hh
      rw [h r hr] at hp
      exact hp.symm

/-- Number of rows that satisfy a condition, as `COUNT(*)`. -/
def Table.count (t : Table key) (p : ρ → Bool) : Nat := t.rows.countP p

section

variable [DecidableEq κ]

/-- The row with the given primary key. -/
def Table.find (t : Table key) (k : κ) : Option ρ := t.rows.find? (fun r => key r = k)

variable {t : Table key} {r : ρ}

/-- Lookup returns a row exactly when the row is stored under that key. -/
theorem find_eq_some {k : κ} : t.find k = some r ↔ r ∈ t ∧ key r = k := by
  constructor
  · intro h
    exact ⟨mem_of_find?_eq_some h, by simpa using List.find?_some h⟩
  rintro ⟨hr, rfl⟩
  cases h : t.find (key r) with
  | none =>
    have hnone := List.find?_eq_none.mp h r hr
    simp at hnone
  | some other =>
    have hm : other ∈ t := mem_of_find?_eq_some h
    have hk : key other = key r := by simpa using List.find?_some h
    rw [Table.eq_of_key hm hr hk]

/-- Lookup fails exactly when the key is not taken. -/
theorem find_eq_none {k : κ} : t.find k = none ↔ ∀ r ∈ t, key r ≠ k := by
  simp [Table.find, List.find?_eq_none, mem_def]

/-- A stored row is found under its own key. -/
theorem find_of_mem (hr : r ∈ t) : t.find (key r) = some r :=
  find_eq_some.mpr ⟨hr, rfl⟩

/-- Insert a row at the end; a taken primary key refuses the statement. -/
def Table.insert (t : Table key) (r : ρ) : Option (Table key) :=
  if h : key r ∈ t.rows.map key then none
  else some ⟨t.rows ++ [r], by
    rw [map_append, nodup_append]
    refine ⟨t.nodup, by simp, ?_⟩
    intro a ha b hb hab
    simp only [map_cons, map_nil, mem_singleton] at hb
    exact h (hb ▸ hab ▸ ha)⟩

/-- A successful insertion appends the row, whose key was free. -/
theorem insert_eq_some {t' : Table key} (h : t.insert r = some t') :
    t'.rows = t.rows ++ [r] ∧ ∀ a ∈ t, key a ≠ key r := by
  unfold Table.insert at h
  split at h
  · contradiction
  · rename_i hn
    cases h
    refine ⟨rfl, ?_⟩
    intro a ha hk
    exact hn (hk ▸ mem_map_of_mem ha)

theorem mem_of_insert {t' : Table key} (h : t.insert r = some t') (a : ρ) :
    a ∈ t' ↔ a ∈ t ∨ a = r := by
  rw [mem_def, (insert_eq_some h).1, mem_append, mem_singleton, mem_def]

theorem insert_of_free (h : ∀ a ∈ t, key a ≠ key r) : ∃ t', t.insert r = some t' := by
  unfold Table.insert
  split_ifs with hm
  · obtain ⟨a, ha, hk⟩ := mem_map.mp hm
    exact absurd hk (h a ha)
  · exact ⟨_, rfl⟩

/-- Insert several rows in order; the first taken key refuses the statement. -/
def Table.insertAll (t : Table key) : List ρ → Option (Table key)
  | [] => some t
  | r :: rest =>
    match t.insert r with
    | none => none
    | some t' => t'.insertAll rest

/-- Members after a multi-row insertion. -/
theorem mem_of_insertAll {t' : Table key} {rs : List ρ} (h : t.insertAll rs = some t') (a : ρ) :
    a ∈ t' ↔ a ∈ t ∨ a ∈ rs := by
  induction rs generalizing t with
  | nil =>
    cases h
    simp
  | cons r rest ih =>
    simp only [Table.insertAll] at h
    cases hi : t.insert r with
    | none => simp [hi] at h
    | some =>
      rw [hi] at h
      rw [ih h, mem_of_insert hi, mem_cons, or_assoc]

/-- Replace the row stored under a key, or append it when the key is free. -/
def Table.put (t : Table key) (r : ρ) : Table key :=
  match h : t.insert r with
  | some t' => t'
  | none => ⟨t.rows.map (fun a => if key a = key r then r else a), by
      have hk : (t.rows.map (fun a => if key a = key r then r else a)).map key =
        t.rows.map key := by
        rw [map_map]
        apply map_congr_left
        intro a _
        simp only [Function.comp_apply]
        split_ifs with he
        · exact he.symm
        · rfl
      rw [hk]
      exact t.nodup⟩

/-- Members after an upsert: the new row, and the old rows under other keys. -/
theorem mem_put : a ∈ t.put r ↔ a = r ∨ (a ∈ t ∧ key a ≠ key r) := by
  unfold Table.put
  split
  · rename_i t' hi
    rw [mem_of_insert hi]
    have hfree := (insert_eq_some hi).2
    constructor
    · rintro (ha | rfl)
      · exact .inr ⟨ha, hfree a ha⟩
      · exact .inl rfl
    · rintro (rfl | ⟨ha, -⟩)
      · exact .inr rfl
      · exact .inl ha
  · rename_i hi
    have htaken : ∃ a ∈ t, key a = key r := by
      by_contra hno
      push Not at hno
      obtain ⟨t', ht'⟩ := insert_of_free hno
      rw [ht'] at hi
      contradiction
    obtain ⟨old, hold, hk⟩ := htaken
    rw [mem_def, mem_map]
    constructor
    · rintro ⟨b, hb, rfl⟩
      split_ifs with hne
      · exact .inl rfl
      · exact .inr ⟨hb, hne⟩
    · rintro (rfl | ⟨ha, hne⟩)
      · exact ⟨old, hold, by rw [if_pos hk]⟩
      · exact ⟨a, ha, by rw [if_neg hne]⟩

theorem put_of_free (h : ∀ a ∈ t, key a ≠ key r) : (t.put r).rows = t.rows ++ [r] := by
  obtain ⟨t', ht'⟩ := insert_of_free h
  unfold Table.put
  split
  · rename_i t'' hins
    exact (insert_eq_some hins).1
  · rename_i hins
    cases ht'.symm.trans hins

end

theorem map_rewrite (hf : ∀ r, key (f r) = key r) (rows : List ρ) :
    (rows.map fun r => if p r then f r else r).map key = rows.map key := by
  rw [map_map]
  apply map_congr_left
  intro r _
  simp only [Function.comp_apply]
  split
  · exact hf r
  · rfl

/-- Rewrite the rows that satisfy a condition; the key column is kept. -/
def Table.update (t : Table key) (p : ρ → Bool) (f : ρ → ρ) (hf : ∀ r, key (f r) = key r) :
    Table key :=
  ⟨t.rows.map (fun r => if p r then f r else r), by
    rw [map_rewrite hf]
    exact t.nodup⟩

variable {hf : ∀ r, key (f r) = key r}

theorem mem_update : a ∈ t.update p f hf ↔ ∃ r ∈ t, (if p r then f r else r) = a := mem_map

/-- Members after an update whose condition holds of one row only. -/
theorem mem_update_single (hr : r ∈ t) (hp : ∀ x ∈ t, p x = true ↔ key x = key r) :
    a ∈ t.update p f hf ↔ (a ∈ t ∧ key a ≠ key r) ∨ a = f r := by
  rw [mem_update]
  constructor
  · rintro ⟨x, hx, rfl⟩
    by_cases hk : key x = key r
    · rw [if_pos ((hp x hx).mpr hk), Table.eq_of_key hx hr hk]
      exact .inr rfl
    · rw [if_neg fun hpx => hk ((hp x hx).mp hpx)]
      exact .inl ⟨hx, hk⟩
  · rintro (⟨ha, hk⟩ | rfl)
    · exact ⟨a, ha, if_neg fun hpa => hk ((hp a ha).mp hpa)⟩
    · exact ⟨r, hr, if_pos ((hp r hr).mpr rfl)⟩

/-- An update keeps the number of rows. -/
@[simp] theorem update_length {t : Table key} {p : ρ → Bool} {f : ρ → ρ}
    {hf : ∀ r, key (f r) = key r} : (t.update p f hf).rows.length = t.rows.length :=
  length_map _

theorem update_keys : (t.update p f hf).rows.map key = t.rows.map key :=
  map_rewrite hf t.rows

theorem count_update {q : ρ → Bool} (hq : ∀ r, q (f r) = q r) :
    (t.update p f hf).count q = t.count q := by
  unfold Table.count Table.update
  rw [countP_map]
  apply countP_congr
  intro r _
  simp only [Function.comp_apply]
  split
  · rw [hq]
  · exact Iff.rfl

theorem Table.ext_rows (h : t.rows = t'.rows) : t = t' := by
  cases t
  cases t'
  cases h
  rfl

/-- Rewriting only the row that was just inserted is inserting the rewritten row. -/
theorem insert_update [DecidableEq κ] (h : t.insert r = some t') (f : ρ → ρ)
    (hf : ∀ r, key (f r) = key r) (hold : ∀ a ∈ t, p a = false) (hnew : p r = true) :
    t.insert (f r) = some (t'.update p f hf) := by
  obtain ⟨hrows, hfree⟩ := insert_eq_some h
  have hfree' : ∀ a ∈ t, key a ≠ key (f r) := by
    intro a ha
    rw [hf]
    exact hfree a ha
  obtain ⟨t'', ht''⟩ := insert_of_free hfree'
  rw [ht'']
  congr 1
  apply Table.ext_rows
  have hkeep : t.rows.map (fun r => if p r then f r else r) = t.rows := by
    conv_rhs => rw [← map_id t.rows]
    apply map_congr_left
    intro a ha
    simp [hold a ha]
  simp [(insert_eq_some ht'').1, Table.update, hrows, hkeep, hnew]

/-- Delete the rows that satisfy a condition. -/
def Table.delete (t : Table key) (p : ρ → Bool) : Table key :=
  ⟨t.rows.filter (fun r => !p r), t.nodup.sublist (filter_sublist.map key)⟩

@[simp] theorem mem_delete {t : Table key} {p : ρ → Bool} :
    a ∈ t.delete p ↔ a ∈ t ∧ p a = false := by
  simp [mem_def, Table.delete, mem_filter]

/-! ## Successors of rows -/

/-- Every row of the first table has a successor in the second. -/
def Covers (R : ρ → ρ → Prop) (t t' : Table key) : Prop := ∀ r ∈ t, ∃ r' ∈ t', R r r'

theorem covers_refl (hR : ∀ r, R r r) (t : Table key) : Covers R t t :=
  fun r hr => ⟨r, hr, hR r⟩

/-- Successors of successors are successors. -/
theorem covers_trans (hR : ∀ a b c, R a b → R b c → R a c)
    {t'' : Table key} (h : Covers R t t') (h' : Covers R t' t'') : Covers R t t'' := by
  intro a ha
  obtain ⟨b, hb, hab⟩ := h a ha
  obtain ⟨c, hc, hbc⟩ := h' b hb
  exact ⟨c, hc, hR a b c hab hbc⟩

/-- A table that keeps all rows covers the old one. -/
theorem covers_of_subset (hR : ∀ r, R r r) (h : ∀ r ∈ t, r ∈ t') : Covers R t t' :=
  fun r hr => ⟨r, h r hr, hR r⟩

/-- Insertion keeps all rows. -/
theorem covers_insert [DecidableEq κ] (hR : ∀ r, R r r) (h : t.insert r = some t') :
    Covers R t t' :=
  covers_of_subset hR fun a ha => (mem_of_insert h a).mpr (.inl ha)

/-- An update that rewrites rows to successors covers the old table. -/
theorem covers_update (hR : ∀ r, R r r) (hf : ∀ r, key (f r) = key r)
    (h : ∀ r ∈ t, p r = true → R r (f r)) :
    Covers R t (t.update p f hf) := by
  intro r hr
  refine ⟨_, mem_update.mpr ⟨r, hr, rfl⟩, ?_⟩
  split_ifs with hp
  · exact h r hr hp
  · exact hR r

/-! ## Succession in row order -/

/-- When successors stand later in a list, following them never returns and
ends at an element without a successor. -/
theorem ends_of_later {rows : List ρ}
    (hclosed : ∀ a ∈ rows, ∀ b, R a b → b ∈ rows) (hirr : ∀ a ∈ rows, ¬ R a a)
    (hlater : rows.Pairwise fun a b => ¬ R b a) : ∀ a ∈ rows, ¬ Relation.TransGen R a a ∧
      ∃ last ∈ rows, Relation.ReflTransGen R a last ∧ ∀ b, ¬ R last b := by
  induction rows with
  | nil => simp
  | cons x rest ih =>
    obtain ⟨hfirst, hrest⟩ := pairwise_cons.mp hlater
    have hclosed' : ∀ a ∈ rest, ∀ b, R a b → b ∈ rest := by
      intro a ha b hab
      rcases mem_cons.mp (hclosed a (mem_cons_of_mem _ ha) b hab) with rfl | hb
      · exact absurd hab (hfirst a ha)
      · exact hb
    have hstay : ∀ a ∈ rest, ∀ b, Relation.ReflTransGen R a b → b ∈ rest := by
      intro a ha b hab
      induction hab with
      | refl => exact ha
      | tail _ hbc ihb => exact hclosed' _ ihb _ hbc
    have htail := ih hclosed' (fun a ha => hirr a (mem_cons_of_mem _ ha)) hrest
    have hnext : ∀ b, R x b → b ∈ rest := by
      intro b hxb
      rcases mem_cons.mp (hclosed x mem_cons_self b hxb) with rfl | hb
      · exact absurd hxb (hirr b mem_cons_self)
      · exact hb
    intro a ha
    rcases mem_cons.mp ha with rfl | ha
    · refine ⟨fun hcycle => ?_, ?_⟩
      · obtain ⟨b, hab, hba⟩ := Relation.TransGen.head'_iff.mp hcycle
        exact (htail a (hstay b (hnext b hab) a hba)).1 hcycle
      · by_cases hend : ∃ b, R a b
        · obtain ⟨b, hab⟩ := hend
          obtain ⟨last, hlast, hreach, hnone⟩ := (htail b (hnext b hab)).2
          exact ⟨last, mem_cons_of_mem _ hlast, .head hab hreach, hnone⟩
        · exact ⟨a, mem_cons_self, .refl, fun b hab => hend ⟨b, hab⟩⟩
    · obtain ⟨hacyclic, last, hlast, hreach⟩ := htail a ha
      exact ⟨hacyclic, last, mem_cons_of_mem _ hlast, hreach⟩

end DaxiangVpn.RelationTable
