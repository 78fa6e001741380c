import Mathlib.Data.List.Basic
import Mathlib.Data.List.Nodup

/-!
# Tables with a primary key

A table is the list of its rows in insertion order, together with the proof that no two of them carry the same key. The three statements a table knows are insertion, which fails on a key that is already there, an update of the rows a condition selects, which must leave their keys alone, and lookup by key.
-/

structure Table {Row Key : Type*} (key : Row → Key) where
  rows : List Row
  keysNodup : (rows.map key).Nodup

namespace Table

variable {Row Key : Type*} {key : Row → Key}

@[ext] theorem ext {a b : Table key} (h : a.rows = b.rows) : a = b := by
  cases a
  cases b
  congr

instance [DecidableEq Row] : DecidableEq (Table key) := fun a b =>
  decidable_of_iff (a.rows = b.rows) ⟨ext, fun h => h ▸ rfl⟩

instance : Membership Row (Table key) := ⟨fun t r => r ∈ t.rows⟩

theorem mem_iff {t : Table key} {r : Row} : r ∈ t ↔ r ∈ t.rows := Iff.rfl

instance [DecidableEq Row] (t : Table key) (r : Row) : Decidable (r ∈ t) :=
  inferInstanceAs (Decidable (r ∈ t.rows))

def empty : Table key := ⟨[], List.nodup_nil⟩

@[simp] theorem rows_empty : (empty : Table key).rows = [] := rfl

@[simp] theorem not_mem_empty {r : Row} : ¬ r ∈ (empty : Table key) := by
  simp [mem_iff]

/-- A key names at most one row. -/
theorem eq_of_key_eq {t : Table key} {a b : Row} (ha : a ∈ t) (hb : b ∈ t)
    (h : key a = key b) : a = b :=
  List.inj_on_of_nodup_map t.keysNodup ha hb h

variable [DecidableEq Key]

def find? (t : Table key) (k : Key) : Option Row := t.rows.find? fun r => key r = k

def contains (t : Table key) (k : Key) : Bool := t.rows.any fun r => key r = k

theorem find?_eq_some {t : Table key} {k : Key} {r : Row} :
    t.find? k = some r ↔ r ∈ t ∧ key r = k := by
  constructor
  · intro h
    exact ⟨List.mem_of_find?_eq_some h, by simpa using List.find?_some h⟩
  · intro h
    obtain ⟨hmem, rfl⟩ := h
    have hfound : (t.find? (key r)).isSome := by
      simpa [find?] using ⟨r, hmem, rfl⟩
    obtain ⟨r', hr'⟩ := Option.isSome_iff_exists.mp hfound
    have hkey : key r' = key r := by simpa using List.find?_some hr'
    rw [hr', eq_of_key_eq (List.mem_of_find?_eq_some hr') hmem hkey]

theorem find?_eq_none {t : Table key} {k : Key} : t.find? k = none ↔ ∀ r ∈ t, key r ≠ k := by
  simp [find?, mem_iff]

theorem contains_iff {t : Table key} {k : Key} : t.contains k = true ↔ ∃ r ∈ t, key r = k := by
  simp [contains, mem_iff]

theorem contains_eq_false {t : Table key} {k : Key} :
    t.contains k = false ↔ ∀ r ∈ t, key r ≠ k := by
  simp [contains, mem_iff]

theorem isSome_find? {t : Table key} {k : Key} : (t.find? k).isSome = t.contains k := by
  rw [Bool.eq_iff_iff, contains_iff]
  simp [find?, mem_iff]

/-- Insert a row whose key is new. -/
def insert? (t : Table key) (r : Row) : Option (Table key) :=
  if h : t.contains (key r) then none
  else some ⟨t.rows ++ [r], by
    rw [List.map_append, List.map_singleton, List.nodup_append]
    refine ⟨t.keysNodup, List.nodup_singleton _, ?_⟩
    intro a ha b hb heq
    rw [List.mem_singleton] at hb
    obtain ⟨r', hr', rfl⟩ := List.mem_map.mp ha
    exact h (contains_iff.mpr ⟨r', hr', heq.trans hb⟩)⟩

theorem insert?_eq_none {t : Table key} {r : Row} :
    t.insert? r = none ↔ t.contains (key r) = true := by
  unfold insert?
  split <;> simp_all

theorem insert?_eq_some {t t' : Table key} {r : Row} :
    t.insert? r = some t' ↔ t.contains (key r) = false ∧ t'.rows = t.rows ++ [r] := by
  unfold insert?
  split
  · simp_all
  · rename_i h
    simp only [Option.some.injEq, Table.ext_iff]
    simp [h, eq_comm]

theorem mem_insert? {t t' : Table key} {r r' : Row} (h : t.insert? r = some t') :
    r' ∈ t' ↔ r' ∈ t ∨ r' = r := by
  rw [mem_iff, (insert?_eq_some.mp h).2]
  simp [mem_iff]

theorem contains_insert? {t t' : Table key} {r : Row} (h : t.insert? r = some t') (k : Key) :
    t'.contains k = (t.contains k || decide (key r = k)) := by
  rw [contains, (insert?_eq_some.mp h).2]
  simp [contains]

theorem find?_insert? {t t' : Table key} {r found : Row} {k : Key} (h : t.insert? r = some t')
    (hk : t.find? k = some found) : t'.find? k = some found := by
  obtain ⟨hfound, hkey⟩ := find?_eq_some.mp hk
  exact find?_eq_some.mpr ⟨(mem_insert? h).mpr (Or.inl hfound), hkey⟩

omit [DecidableEq Key] in
/-- Update the rows that `p` selects. -/
def update (t : Table key) (p : Row → Bool) (f : Row → Row) (hf : ∀ r, key (f r) = key r) :
    Table key where
  rows := t.rows.map fun r => if p r then f r else r
  keysNodup := by
    have hkeys : (t.rows.map fun r => if p r then f r else r).map key = t.rows.map key := by
      rw [List.map_map]
      apply List.map_congr_left
      intro r _
      simp only [Function.comp_apply]
      split
      · exact hf r
      · rfl
    rw [hkeys]
    exact t.keysNodup

section Update

variable {t : Table key} {p : Row → Bool} {f : Row → Row} {hf : ∀ r, key (f r) = key r}

omit [DecidableEq Key] in
theorem mem_update {r : Row} :
    r ∈ t.update p f hf ↔ ∃ r' ∈ t, (if p r' then f r' else r') = r := by
  simp [mem_iff, update]

omit [DecidableEq Key] in
/-- A row of the updated table is a selected row's image or a row that was not selected. -/
theorem mem_update_cases {r : Row} (h : r ∈ t.update p f hf) :
    ∃ r' ∈ t, (p r' = true ∧ r = f r') ∨ (p r' = false ∧ r = r') := by
  obtain ⟨r', hr', heq⟩ := mem_update.mp h
  cases hp : p r' with
  | true =>
    rw [hp, if_pos rfl] at heq
    exact ⟨r', hr', Or.inl ⟨hp, heq.symm⟩⟩
  | false =>
    rw [hp, if_neg Bool.false_ne_true] at heq
    exact ⟨r', hr', Or.inr ⟨hp, heq.symm⟩⟩

theorem contains_update (k : Key) : (t.update p f hf).contains k = t.contains k := by
  simp only [contains, update, List.any_map]
  congr 1
  funext r
  simp only [Function.comp_apply]
  split
  · rw [hf]
  · rfl

theorem find?_update (k : Key) :
    (t.update p f hf).find? k = (t.find? k).map fun r => if p r then f r else r := by
  cases h : t.find? k with
  | none =>
    rw [Option.map_none, find?_eq_none]
    intro r hr
    obtain ⟨r', hr', rfl⟩ := mem_update.mp hr
    have := find?_eq_none.mp h r' hr'
    split
    · rwa [hf]
    · exact this
  | some r =>
    obtain ⟨hr, hk⟩ := find?_eq_some.mp h
    rw [Option.map_some, find?_eq_some, mem_update]
    refine ⟨⟨r, hr, rfl⟩, ?_⟩
    split
    · rwa [hf]
    · exact hk

omit [DecidableEq Key] in
/-- An update changes nothing exactly when it maps every selected row to itself. -/
theorem update_eq_self : t.update p f hf = t ↔ ∀ r ∈ t, p r = true → f r = r := by
  have hmap : ∀ rows : List Row, (rows.map fun r => if p r then f r else r) = rows ↔
      ∀ r ∈ rows, p r = true → f r = r := by
    intro rows
    induction rows with
    | nil => simp
    | cons r rows ih =>
      simp only [List.map_cons, List.cons.injEq, ih, List.forall_mem_cons]
      apply and_congr_left
      intro _
      split <;> simp_all
  rw [Table.ext_iff]
  exact hmap t.rows

end Update

section Filter

variable {t : Table key} {q : Row → Bool}

omit [DecidableEq Key] in
/-- The rows that `q` selects, as a table of their own. -/
def filter (t : Table key) (q : Row → Bool) : Table key where
  rows := t.rows.filter q
  keysNodup := t.keysNodup.sublist (List.filter_sublist.map key)

omit [DecidableEq Key] in
theorem mem_filter {r : Row} : r ∈ t.filter q ↔ r ∈ t ∧ q r = true := List.mem_filter

omit [DecidableEq Key] in
theorem filter_filter_of_imp {q' : Row → Bool} (h : ∀ r, q' r = true → q r = true) :
    (t.filter q).filter q' = t.filter q' := by
  apply ext
  simp only [filter, List.filter_filter]
  apply List.filter_congr
  intro r _
  cases hr : q' r with
  | false => rfl
  | true => rw [h r hr, Bool.and_self]

theorem filter_insert? {t' : Table key} {r : Row} (h : t.insert? r = some t')
    (hr : q r = false) : t'.filter q = t.filter q := by
  apply ext
  simp [filter, (insert?_eq_some.mp h).2, hr]

omit [DecidableEq Key] in
/-- An update that moves no row into the selection or out of it, seen in the selection. -/
theorem filter_update {p : Row → Bool} {f : Row → Row} {hf : ∀ r, key (f r) = key r}
    (hq : ∀ r, q (f r) = q r) : (t.update p f hf).filter q = (t.filter q).update p f hf := by
  apply ext
  simp only [filter, update, List.filter_map]
  congr 2
  funext r
  simp only [Function.comp_apply]
  split
  · exact hq r
  · rfl

end Filter

end Table
