import ActantDb.Lib.HashChain

/-!
# Hash forests

When entries are appended by several writers that each look up a predecessor first, the list need not be a chain: two writers may have found the same predecessor. What is left is a forest. Each entry is linked from the root or from an earlier entry that it may follow, and so it is the last one of a chain that starts at the root and runs through earlier entries (`Forest.ancestry`).
-/

namespace HashChain

variable {α H : Type*} (link : H → α → H) (hash : α → H) (follows : α → α → Prop) (root : H)

/-- Each entry of the list, the last one first, is linked from the root or from an earlier one that it follows. -/
inductive Forest : List α → Prop
  | nil : Forest []
  | root {l : List α} {a : α} (h : Forest l) (hlink : hash a = link root a) : Forest (l ++ [a])
  | branch {l : List α} {a b : α} (h : Forest l) (hb : b ∈ l) (hfollows : follows a b)
      (hlink : hash a = link (hash b) a) : Forest (l ++ [a])

variable {link hash follows root} {l : List α} {a : α}

/-- **Every entry of a forest is the last one of a chain from the root**, through earlier entries that it follows. -/
theorem Forest.ancestry (h : Forest link hash follows root l) (htrans : ∀ {a b c}, follows a b → follows b c → follows a c)
    (ha : a ∈ l) : ∃ chain, (chain ++ [a]).Sublist l ∧ Linked link hash root (chain ++ [a]) ∧ ∀ b ∈ chain, follows a b := by
  induction h generalizing a with
  | nil => cases ha
  | @root l new h hlink ih =>
    rcases List.mem_append.mp ha with ha | ha
    · obtain ⟨chain, hsub, hlinked, hfollows⟩ := ih ha
      exact ⟨chain, hsub.trans (List.sublist_append_left l [new]), hlinked, hfollows⟩
    · rw [List.mem_singleton.mp ha]
      exact ⟨[], List.sublist_append_right l [new], ⟨hlink, trivial⟩, fun b hb => nomatch hb⟩
  | @branch l new b h hb hnew hlink ih =>
    rcases List.mem_append.mp ha with ha | ha
    · obtain ⟨chain, hsub, hlinked, hfollows⟩ := ih ha
      exact ⟨chain, hsub.trans (List.sublist_append_left l [new]), hlinked, hfollows⟩
    · rw [List.mem_singleton.mp ha]
      obtain ⟨chain, hsub, hlinked, hfollows⟩ := ih hb
      refine ⟨chain ++ [b], hsub.append (.refl [new]), ?_, ?_⟩
      · rw [linked_append_singleton]
        refine ⟨hlinked, ?_⟩
        rw [tip, List.getLast?_append_of_ne_nil _ (List.cons_ne_nil b []), List.getLast?_singleton]
        exact hlink
      · intro c hc
        rcases List.mem_append.mp hc with hc | hc
        · exact htrans hnew (hfollows c hc)
        · rw [List.mem_singleton.mp hc]
          exact hnew

end HashChain
