import Mathlib.Data.List.Sort

/-!
# What a stable sort keeps

A part of a sorted list that is picked out by a predicate is that part, sorted by itself. So a row that a reader does not look at changes nothing for him wherever it is sorted in, and one that is not before any row he looks at comes last.
-/

namespace Stable

variable {α : Type*} {r : α → α → Prop} [DecidableRel r] {p : α → Bool}

theorem filter_orderedInsert [IsTrans α r] {l : List α} (hsorted : l.Pairwise r) (a : α) :
    (l.orderedInsert r a).filter p = if p a then (l.filter p).orderedInsert r a else l.filter p := by
  induction l with
  | nil => by_cases hp : p a = true <;> simp [hp]
  | cons b l ih =>
    rw [List.pairwise_cons] at hsorted
    rw [List.orderedInsert_cons]
    by_cases hab : r a b
    · rw [if_pos hab, List.filter_cons]
      by_cases hp : p a = true
      · rw [if_pos hp, if_pos hp]
        have hall : ∀ c ∈ (b :: l).filter p, r a c := by
          intro c hc
          rcases List.mem_cons.mp (List.mem_of_mem_filter hc) with rfl | hin
          · exact hab
          · exact trans_of r hab (hsorted.1 c hin)
        cases hfilter : (b :: l).filter p with
        | nil => rfl
        | cons c rest =>
          rw [List.orderedInsert_cons, if_pos (hall c (hfilter ▸ List.mem_cons_self))]
      · rw [if_neg hp, if_neg hp]
    · rw [if_neg hab, List.filter_cons, List.filter_cons, ih hsorted.2]
      by_cases hp : p a = true
      · rw [if_pos hp, if_pos hp]
        by_cases hb : p b = true
        · rw [if_pos hb, if_pos hb, List.orderedInsert_cons, if_neg hab]
        · rw [if_neg hb, if_neg hb]
      · rw [if_neg hp, if_neg hp]

theorem filter_insertionSort [IsTrans α r] [Std.Total r] (l : List α) :
    (l.insertionSort r).filter p = (l.filter p).insertionSort r := by
  induction l with
  | nil => rfl
  | cons a l ih =>
    rw [List.insertionSort_cons, filter_orderedInsert (List.pairwise_insertionSort r l), ih, List.filter_cons]
    split <;> rfl

theorem orderedInsert_append {l : List α} {a b : α} (h : r a b) :
    (l ++ [b]).orderedInsert r a = l.orderedInsert r a ++ [b] := by
  induction l with
  | nil => simp [h]
  | cons c l ih =>
    rw [List.cons_append, List.orderedInsert_cons, List.orderedInsert_cons]
    split
    · rfl
    · rw [ih, List.cons_append]

/-- What is not before anything comes last. -/
theorem insertionSort_append {l : List α} {b : α} (h : ∀ a ∈ l, r a b) :
    (l ++ [b]).insertionSort r = l.insertionSort r ++ [b] := by
  induction l with
  | nil => rfl
  | cons a l ih =>
    rw [List.cons_append, List.insertionSort_cons, List.insertionSort_cons,
      ih fun c hc => h c (List.mem_cons_of_mem _ hc), orderedInsert_append (h a List.mem_cons_self)]

end Stable
