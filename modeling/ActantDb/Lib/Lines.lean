import Mathlib.Data.List.Basic

/-!
# Lines out of pieces

A text is cut into the lines that a separator ends and what stands after the last one. A reader that keeps what stands there and puts the next piece after it finds the lines of the whole text, wherever the pieces end.
-/

namespace Lines

variable {α : Type*} [DecidableEq α]

/-- The lines that `sep` ends, and what is after them. -/
def cut (sep : α) : List α → List (List α) × List α
  | [] => ([], [])
  | c :: s =>
    if c = sep then ([] :: (cut sep s).1, (cut sep s).2)
    else
      match (cut sep s).1 with
      | [] => ([], c :: (cut sep s).2)
      | line :: lines => ((c :: line) :: lines, (cut sep s).2)

variable {sep c : α} {s : List α}

theorem cut_sep (s : List α) : cut sep (sep :: s) = ([] :: (cut sep s).1, (cut sep s).2) := by rw [cut, if_pos rfl]

theorem cut_cons (hc : c ≠ sep) (h : (cut sep s).1 = []) : cut sep (c :: s) = ([], c :: (cut sep s).2) := by
  rw [cut, if_neg hc, h]

theorem cut_cons_cons {line : List α} {lines : List (List α)} (hc : c ≠ sep) (h : (cut sep s).1 = line :: lines) :
    cut sep (c :: s) = ((c :: line) :: lines, (cut sep s).2) := by
  rw [cut, if_neg hc, h]

/-- **A text is cut piece by piece**: what is after the lines of the first is put before the second. -/
theorem cut_append (sep : α) (s t : List α) :
    cut sep (s ++ t) = ((cut sep s).1 ++ (cut sep ((cut sep s).2 ++ t)).1, (cut sep ((cut sep s).2 ++ t)).2) := by
  induction s with
  | nil => rfl
  | cons c s ih =>
    by_cases hc : c = sep
    · subst hc
      rw [List.cons_append, cut_sep, cut_sep, ih, List.cons_append]
    · cases hlines : (cut sep s).1 with
      | nil =>
        rw [hlines, List.nil_append] at ih
        rw [cut_cons hc hlines, List.nil_append, List.cons_append, List.cons_append]
        rw [cut, cut, ih]
      | cons line lines =>
        have hwhole : (cut sep (s ++ t)).1 = line :: (lines ++ (cut sep ((cut sep s).2 ++ t)).1) := by
          rw [ih, hlines, List.cons_append]
        rw [cut_cons_cons hc hlines, List.cons_append, cut_cons_cons hc hwhole, ih, List.cons_append]

/-- A line up to its end. -/
theorem cut_line {line : List α} (h : sep ∉ line) (s : List α) :
    cut sep (line ++ sep :: s) = (line :: (cut sep s).1, (cut sep s).2) := by
  induction line with
  | nil => exact cut_sep s
  | cons c line ih =>
    obtain ⟨hc, hline⟩ := not_or.mp (mt List.mem_cons.mpr h)
    have hrest := ih hline
    rw [List.cons_append, cut_cons_cons (Ne.symm hc) (congrArg Prod.fst hrest), hrest]

/-- Without an end there is no line. -/
theorem cut_of_not_mem (h : sep ∉ s) : cut sep s = ([], s) := by
  induction s with
  | nil => rfl
  | cons c s ih =>
    obtain ⟨hc, hs⟩ := not_or.mp (mt List.mem_cons.mpr h)
    have hrest := ih hs
    rw [cut_cons (Ne.symm hc) (congrArg Prod.fst hrest), hrest]

theorem head_of_cut_nil {lines : List (List α)} (h : (cut sep s).1 = [] :: lines) : s.head? = some sep := by
  cases s with
  | nil => cases h
  | cons c s =>
    by_cases hc : c = sep
    · rw [hc, List.head?_cons]
    · cases hlines : (cut sep s).1 with
      | nil =>
        rw [cut_cons hc hlines] at h
        cases h
      | cons line lines' =>
        rw [cut_cons_cons hc hlines] at h
        cases h

end Lines
