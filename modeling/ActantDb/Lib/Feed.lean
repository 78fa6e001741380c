import Mathlib.Data.List.Nodup
import Mathlib.Data.List.Sort

/-!
# Following a growing table by key

A reader asks again and again for the first rows beyond the greatest key it has seen, while rows arrive. It never receives a row twice. It has received every row up to its cursor as long as every row arrived beyond the cursor, and a row that arrives behind it is missed for good.
-/

namespace Feed

variable {α κ : Type*} [LinearOrder κ] (key : α → κ)

/-- The first rows beyond the cursor, in the order of their keys. -/
def page (rows : List α) (since : κ) (limit : Nat) : List α :=
  ((rows.filter fun a => since < key a).insertionSort fun a b => key a ≤ key b).take limit

structure Reader (α κ : Type*) where
  since : κ
  received : List α

/-- The cursor is the key of the last row received. -/
def Reader.take (r : Reader α κ) (rows : List α) : Reader α κ where
  since := (rows.getLast?.map key).getD r.since
  received := r.received ++ rows

/-- What a reader has received: rows that are there, up to its cursor, in order. -/
structure Reading (rows : List α) (r : Reader α κ) : Prop where
  sorted : r.received.Pairwise fun a b => key a < key b
  passed : ∀ a ∈ r.received, key a ≤ r.since
  stored : ∀ a ∈ r.received, a ∈ rows

/-- Nothing is missing behind the cursor. -/
def Caught (rows : List α) (r : Reader α κ) : Prop := ∀ a ∈ rows, key a ≤ r.since → a ∈ r.received

variable {key} {rows : List α} {r : Reader α κ} {since : κ} {limit : Nat}

theorem mem_page {a : α} (h : a ∈ page key rows since limit) : a ∈ rows ∧ since < key a := by
  have hmem := List.mem_of_mem_take h
  rw [List.mem_insertionSort, List.mem_filter, decide_eq_true_eq] at hmem
  exact hmem

theorem page_eq_nil (hlimit : 0 < limit) : page key rows since limit = [] ↔ ∀ a ∈ rows, key a ≤ since := by
  rw [page, List.take_eq_nil_iff, or_iff_right hlimit.ne', ← List.length_eq_zero_iff, List.length_insertionSort,
    List.length_eq_zero_iff, List.filter_eq_nil_iff]
  simp

section Sorted

variable (hkeys : (rows.map key).Nodup)
include hkeys

/-- All rows beyond the cursor, by their keys. -/
theorem beyond_sorted :
    ((rows.filter fun a => since < key a).insertionSort fun a b => key a ≤ key b).Pairwise fun a b => key a < key b := by
  have hle := List.pairwise_insertionSort (fun a b => key a ≤ key b) (rows.filter fun a => since < key a)
  have hne : ((rows.filter fun a => since < key a).insertionSort fun a b => key a ≤ key b).Pairwise fun a b => key a ≠ key b := by
    rw [← List.pairwise_map (f := key), ← List.nodup_iff_pairwise_ne, ((List.perm_insertionSort _ _).map key).nodup_iff]
    exact hkeys.sublist (List.filter_sublist.map key)
  exact (hle.and hne).imp fun h => lt_of_le_of_ne h.1 h.2

/-- A page reaches up to its last row. -/
theorem page_split {last : α} (hlast : (page key rows since limit).getLast? = some last) :
    (∀ a ∈ page key rows since limit, key a ≤ key last) ∧
      ∀ a ∈ rows, since < key a → key a ≤ key last → a ∈ page key rows since limit := by
  have hsorted := @beyond_sorted α κ _ key rows since hkeys
  obtain ⟨init, hinit⟩ := List.getLast?_eq_some_iff.mp hlast
  rw [← List.take_append_drop limit ((rows.filter fun a => since < key a).insertionSort fun a b => key a ≤ key b)] at hsorted
  rw [List.pairwise_append] at hsorted
  obtain ⟨hpage, -, hcross⟩ := hsorted
  constructor
  · intro a ha
    change (page key rows since limit).Pairwise _ at hpage
    rw [hinit] at ha hpage
    rcases List.mem_append.mp ha with ha | ha
    · exact ((List.pairwise_append.mp hpage).2.2 a ha last (by simp)).le
    · rw [List.mem_singleton.mp ha]
  · intro a ha hbeyond hle
    have hmem : a ∈ (rows.filter fun a => since < key a).insertionSort fun a b => key a ≤ key b := by
      rw [List.mem_insertionSort, List.mem_filter, decide_eq_true_eq]
      exact ⟨ha, hbeyond⟩
    rw [← List.take_append_drop limit ((rows.filter fun a => since < key a).insertionSort fun a b => key a ≤ key b),
      List.mem_append] at hmem
    refine hmem.resolve_right fun hdrop => ?_
    exact absurd (hcross last (List.mem_of_getLast? hlast) a hdrop) (not_lt.mpr hle)

/-- A reader that takes a page moves on, to its last row. -/
theorem take_since :
    r.since ≤ (r.take key (page key rows r.since limit)).since ∧
      (∀ a ∈ page key rows r.since limit, key a ≤ (r.take key (page key rows r.since limit)).since) ∧
      ∀ a ∈ rows, r.since < key a → key a ≤ (r.take key (page key rows r.since limit)).since →
        a ∈ page key rows r.since limit := by
  rw [Reader.take]
  cases hlast : (page key rows r.since limit).getLast? with
  | none =>
    rw [List.getLast?_eq_none_iff] at hlast
    simp only [hlast, Option.map_none, Option.getD_none]
    exact ⟨le_rfl, by simp, fun a _ hbeyond hle => absurd hbeyond (not_lt.mpr hle)⟩
  | some last =>
    obtain ⟨hup, hdown⟩ := page_split hkeys hlast
    exact ⟨(mem_page (List.mem_of_getLast? hlast)).2.le, hup, hdown⟩

theorem Reading.take (h : Reading key rows r) : Reading key rows (r.take key (page key rows r.since limit)) := by
  obtain ⟨hmoves, hup, -⟩ := @take_since α κ _ key rows r limit hkeys
  refine ⟨?_, fun a ha => ?_, fun a ha => ?_⟩
  · rw [Reader.take, List.pairwise_append]
    refine ⟨h.sorted, (beyond_sorted hkeys).sublist (List.take_sublist _ _), fun a ha b hb => ?_⟩
    exact lt_of_le_of_lt (h.passed a ha) (mem_page hb).2
  · rcases List.mem_append.mp ha with ha | ha
    · exact (h.passed a ha).trans hmoves
    · exact hup a ha
  · rcases List.mem_append.mp ha with ha | ha
    · exact h.stored a ha
    · exact (mem_page ha).1

/-- Taking a page neither misses a row nor makes up for one. -/
theorem caught_take : Caught key rows (r.take key (page key rows r.since limit)) ↔ Caught key rows r := by
  obtain ⟨hmoves, -, hdown⟩ := @take_since α κ _ key rows r limit hkeys
  constructor
  · intro h a ha hle
    rcases List.mem_append.mp (h a ha (hle.trans hmoves)) with hmem | hmem
    · exact hmem
    · exact absurd (mem_page hmem).2 (not_lt.mpr hle)
  · intro h a ha hle
    rw [Reader.take, List.mem_append]
    by_cases hbehind : key a ≤ r.since
    · exact Or.inl (h a ha hbehind)
    · exact Or.inr (hdown a ha (not_le.mp hbehind) hle)

/-- Where nothing lies beyond the cursor, a reader that is caught up has received all. -/
theorem Reading.perm_iff (h : Reading key rows r) (hall : ∀ a ∈ rows, key a ≤ r.since) :
    r.received.Perm rows ↔ Caught key rows r := by
  have hreceived : r.received.Nodup := h.sorted.imp fun hlt heq => by
    subst heq
    exact lt_irrefl _ hlt
  rw [List.perm_ext_iff_of_nodup hreceived hkeys.of_map]
  exact ⟨fun hperm a ha _ => (hperm a).mpr ha, fun hcaught a => ⟨h.stored a, fun ha => hcaught a ha (hall a ha)⟩⟩

end Sorted

theorem Reading.arrive (h : Reading key rows r) (a : α) : Reading key (rows ++ [a]) r :=
  ⟨h.sorted, h.passed, fun b hb => List.mem_append_left _ (h.stored b hb)⟩

/-- A row that arrives is missed where it arrives behind the cursor. -/
theorem Reading.caught_arrive (h : Reading key rows r) {a : α} (hnew : key a ∉ rows.map key) :
    Caught key (rows ++ [a]) r ↔ Caught key rows r ∧ r.since < key a := by
  have hunseen : a ∉ r.received := fun ha => hnew (List.mem_map_of_mem (h.stored a ha))
  constructor
  · intro hcaught
    refine ⟨fun b hb => hcaught b (List.mem_append_left _ hb), ?_⟩
    by_contra hbehind
    exact hunseen (hcaught a (by simp) (not_lt.mp hbehind))
  · intro ⟨hcaught, hahead⟩ b hb hle
    rcases List.mem_append.mp hb with hb | hb
    · exact hcaught b hb hle
    · rw [List.mem_singleton.mp hb] at hle
      exact absurd hahead (not_lt.mpr hle)

end Feed
