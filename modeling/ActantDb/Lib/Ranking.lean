import Mathlib.Data.List.Sort

/-!
# The first of a ranking

The items of a list are put in order, those with the greatest keys first, and `n` of them are taken. Items with one key may come in any order, so which ones are taken is not always determined. An item is taken in some order exactly when fewer than `n` items have a greater key, and in every order an item that is left out has no greater key than one that is taken.
-/

namespace Ranking

variable {α κ : Type*} [LinearOrder κ] {key : α → κ} {l sorted : List α} {a b : α} {n : Nat}

/-- The items of `l`, those with the greatest keys first. -/
structure Ranked (key : α → κ) (l sorted : List α) : Prop where
  perm : sorted.Perm l
  descending : sorted.Pairwise fun a b => key b ≤ key a

/-- How many items have a greater key. -/
def ahead (key : α → κ) (l : List α) (a : α) : Nat := l.countP fun other => key a < key other

theorem ahead_perm {others : List α} (h : l.Perm others) : ahead key l a = ahead key others a := h.countP_eq _

theorem ahead_map {β ι : Type*} [LinearOrder ι] {order : β → ι} {items : List β} {b : β} (f : β → α)
    (h : ∀ other ∈ items, key (f b) < key (f other) ↔ order b < order other) :
    ahead key (items.map f) (f b) = ahead order items b := by
  rw [ahead, List.countP_map, ahead]
  apply List.countP_congr
  intro other hother
  simpa using h other hother

theorem ahead_append (l others : List α) (a : α) : ahead key (l ++ others) a = ahead key l a + ahead key others a :=
  List.countP_append

theorem ahead_eq_zero (h : ∀ other ∈ l, key other ≤ key a) : ahead key l a = 0 := by
  apply List.countP_eq_zero.mpr
  intro other hother
  rw [decide_eq_true_eq, not_lt]
  exact h other hother

theorem ranked_insertionSort (key : α → κ) (l : List α) : Ranked key l (l.insertionSort fun a b => key b ≤ key a) := by
  have htotal : Std.Total fun a b : α => key b ≤ key a := ⟨fun a b => le_total (key b) (key a)⟩
  have htrans : IsTrans α fun a b => key b ≤ key a := ⟨fun a b c hab hbc => hbc.trans hab⟩
  exact ⟨List.perm_insertionSort _ _, List.pairwise_insertionSort _ _⟩

theorem Ranked.mem_iff (h : Ranked key l sorted) : a ∈ sorted ↔ a ∈ l := h.perm.mem_iff

/-- What is left out has no greater key than what is taken. -/
theorem Ranked.le_of_not_mem_take (h : Ranked key l sorted) (ha : a ∈ l) (hout : ¬ a ∈ sorted.take n)
    (hb : b ∈ sorted.take n) : key a ≤ key b := by
  have hdescending := h.descending
  have hmem := h.mem_iff.mpr ha
  rw [← List.take_append_drop n sorted, List.pairwise_append] at hdescending
  rw [← List.take_append_drop n sorted, List.mem_append] at hmem
  exact hdescending.2.2 b hb a (hmem.resolve_left hout)

/-- Fewer than `n` items have a greater key than one that is taken. -/
theorem Ranked.ahead_lt (h : Ranked key l sorted) (ha : a ∈ sorted.take n) :
    ahead key l a < n := by
  obtain ⟨before, after, htake⟩ := List.append_of_mem ha
  have hsorted : sorted = before ++ (a :: after ++ sorted.drop n) := by
    rw [← List.append_assoc, ← htake, List.take_append_drop]
  have hlength : before.length < n := by
    have htaken := List.length_take_le n sorted
    rw [htake, List.length_append, List.length_cons] at htaken
    omega
  -- whatever comes after it has no greater key
  have hnone : ahead key (a :: after ++ sorted.drop n) a = 0 := by
    have hdescending := h.descending
    rw [hsorted, List.pairwise_append, List.cons_append, List.pairwise_cons] at hdescending
    apply ahead_eq_zero
    intro other hother
    rcases List.mem_cons.mp hother with rfl | hother
    · exact le_refl _
    · exact hdescending.2.1.1 other hother
  rw [← ahead_perm h.perm, hsorted, ahead_append, hnone, Nat.add_zero]
  exact lt_of_le_of_lt List.countP_le_length hlength

/-- An item comes right after those with a greater key in some order. -/
theorem exists_ranked (ha : a ∈ l) (h : ahead key l a < n) :
    ∃ sorted, Ranked key l sorted ∧ a ∈ sorted.take n := by
  obtain ⟨before, after, rfl⟩ := List.append_of_mem ha
  obtain ⟨greater, hgreater⟩ : ∃ greater, Ranked key ((before ++ after).filter fun other => decide (key a < key other)) greater :=
    ⟨_, ranked_insertionSort key _⟩
  obtain ⟨others, hothers⟩ : ∃ others, Ranked key ((before ++ after).filter fun other => !decide (key a < key other)) others :=
    ⟨_, ranked_insertionSort key _⟩
  have hlt : ∀ other ∈ greater, key a < key other := fun other hother => by
    simpa using (List.mem_filter.mp (hgreater.mem_iff.mp hother)).2
  have hle : ∀ other ∈ others, key other ≤ key a := fun other hother => by
    simpa using (List.mem_filter.mp (hothers.mem_iff.mp hother)).2
  refine ⟨greater ++ a :: others, ⟨?_, ?_⟩, ?_⟩
  · have hperm : (greater ++ others).Perm (before ++ after) :=
      (hgreater.perm.append hothers.perm).trans (List.filter_append_perm _ _)
    exact List.perm_middle.trans ((hperm.cons a).trans List.perm_middle.symm)
  · rw [List.pairwise_append, List.pairwise_cons]
    refine ⟨hgreater.descending, ⟨hle, hothers.descending⟩, ?_⟩
    intro x hx y hy
    rcases List.mem_cons.mp hy with rfl | hy
    · exact (hlt x hx).le
    · exact (hle y hy).trans (hlt x hx).le
  · have hlength : greater.length < n := by
      rw [hgreater.perm.length_eq, ← List.countP_eq_length_filter]
      rw [ahead, List.countP_append, List.countP_cons] at h
      rw [List.countP_append]
      omega
    rw [List.take_append, List.take_of_length_le hlength.le, List.mem_append]
    right
    obtain ⟨m, hm⟩ := Nat.exists_eq_succ_of_ne_zero (Nat.sub_ne_zero_of_lt hlength)
    rw [hm, List.take_succ_cons]
    exact List.mem_cons_self

end Ranking
