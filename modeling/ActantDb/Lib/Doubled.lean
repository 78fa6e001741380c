import Mathlib.Data.List.Infix

/-!
# Doubled marks

A mark that counts only where it stands twice in a row, as `{{` and `}}` do. A text has no doubled mark, or it has a first one, and there is only one place for that: what comes before it, with one mark more, has none.
-/

namespace Doubled

variable {α : Type} {c d : α} {s t pre post pre' post' : List α}

/-- The mark is nowhere doubled. -/
def Free (c : α) (s : List α) : Prop := ¬ [c, c] <:+: s

theorem free_nil : Free c [] := fun h => absurd h.length_le (by simp)

theorem free_cons : Free c (d :: s) ↔ ¬ (d = c ∧ s.head? = some c) ∧ Free c s := by
  rw [Free, List.infix_cons_iff, not_or, Free, List.cons_prefix_cons, List.singleton_prefix_iff_head?_eq_some,
    eq_comm (a := c)]

theorem free_singleton : Free c [d] := free_cons.mpr ⟨fun h => (nomatch h.2), free_nil⟩

theorem Free.tail (h : Free c (d :: s)) : Free c s := (free_cons.mp h).2

theorem Free.of_infix (h : Free c t) (hst : s <:+: t) : Free c s := fun hs => h (hs.trans hst)

theorem Free.left (h : Free c (s ++ t)) : Free c s := h.of_infix (List.prefix_append s t).isInfix

theorem Free.right (h : Free c (s ++ t)) : Free c t := h.of_infix (List.suffix_append s t).isInfix

/-- Nothing is doubled across something else. -/
theorem free_append_cons (hd : d ≠ c) : Free c (s ++ d :: t) ↔ Free c s ∧ Free c t := by
  induction s with
  | nil =>
    rw [List.nil_append, free_cons]
    exact ⟨fun h => ⟨free_nil, h.2⟩, fun h => ⟨fun hdouble => hd hdouble.1, h.2⟩⟩
  | cons e s ih =>
    have hhead : (s ++ d :: t).head? = some c ↔ s.head? = some c := by
      cases s with
      | nil => simp [hd]
      | cons f s => rfl
    rw [List.cons_append, free_cons, hhead, ih, free_cons, and_assoc]

theorem free_append (hs : c ∉ s) (ht : Free c t) : Free c (s ++ t) := by
  induction s with
  | nil => exact ht
  | cons d s ih =>
    rw [List.mem_cons, not_or] at hs
    exact free_cons.mpr ⟨fun hdouble => hs.1 hdouble.1.symm, ih hs.2⟩

/-- The first doubled mark. -/
theorem free_or_first [DecidableEq α] (c : α) (s : List α) :
    Free c s ∨ ∃ pre post, s = pre ++ c :: c :: post ∧ Free c (pre ++ [c]) := by
  induction s with
  | nil => exact Or.inl free_nil
  | cons d s ih =>
    by_cases hdouble : d = c ∧ s.head? = some c
    · obtain ⟨rfl, hhead⟩ := hdouble
      obtain ⟨post, rfl⟩ := List.head?_eq_some_iff.mp hhead
      exact Or.inr ⟨[], post, rfl, free_singleton⟩
    · rcases ih with hfree | ⟨pre, post, rfl, hfree⟩
      · exact Or.inl (free_cons.mpr ⟨hdouble, hfree⟩)
      · refine Or.inr ⟨d :: pre, post, rfl, ?_⟩
        rw [List.cons_append]
        refine free_cons.mpr ⟨fun h => hdouble ⟨h.1, ?_⟩, hfree⟩
        cases pre with
        | nil => rfl
        | cons e pre => exact h.2

theorem not_free (pre post : List α) : ¬ Free c (pre ++ c :: c :: post) := fun h => h ⟨pre, post, by simp⟩

/-- What comes before the first doubled mark is no longer than what comes before another. -/
theorem length_first_le (hfirst : Free c (pre ++ [c])) (h : pre' ++ c :: c :: post' = pre ++ c :: c :: post) :
    pre.length ≤ pre'.length := by
  refine Nat.le_of_not_lt fun hlt => ?_
  have hprefix : pre' ++ [c, c] <+: pre ++ c :: c :: post := by
    rw [← h]
    exact ⟨post', by simp⟩
  have hshort : pre' ++ [c, c] <+: pre ++ [c] := by
    refine List.prefix_of_prefix_length_le hprefix ⟨c :: post, by simp⟩ ?_
    rw [List.length_append, List.length_append, List.length_cons, List.length_singleton]
    omega
  obtain ⟨rest, hrest⟩ := hshort
  rw [← hrest, List.append_assoc] at hfirst
  exact not_free pre' rest hfirst

/-- There is one first doubled mark. -/
theorem first_unique (hfirst : Free c (pre ++ [c])) (hfirst' : Free c (pre' ++ [c]))
    (h : pre ++ c :: c :: post = pre' ++ c :: c :: post') : pre = pre' ∧ post = post' := by
  have hlen : pre.length = pre'.length :=
    Nat.le_antisymm (length_first_le hfirst h.symm) (length_first_le hfirst' h)
  obtain ⟨hpre, hrest⟩ := List.append_inj h hlen
  exact ⟨hpre, (List.cons.inj (List.cons.inj hrest).2).2⟩

end Doubled
