import Mathlib.Order.Lattice
import Mathlib.Data.List.Basic

/-!
# Orders and groupings

A collection merged two by two is a binary tree over its items. An operation that returns the one of its two arguments with the greater key returns, over every such tree, the item with the greatest key: what is returned depends on the items alone, and neither on their order nor on how they are grouped.
-/

/-- Items, in some order and grouping. -/
inductive Grouping (α : Type*) where
  | item (a : α)
  | merge (left right : Grouping α)

namespace Grouping

variable {α κ : Type*}

def items : Grouping α → List α
  | .item a => [a]
  | .merge left right => left.items ++ right.items

/-- What is left when every merge has been made. -/
def fold (pick : α → α → α) : Grouping α → α
  | .item a => a
  | .merge left right => pick (left.fold pick) (right.fold pick)

variable [LinearOrder κ] {key : α → κ} {pick : α → α → α}

/-- The operation returns one of its arguments, and none with a lesser key. -/
structure PicksGreater (key : α → κ) (pick : α → α → α) : Prop where
  either : ∀ a b, pick a b = a ∨ pick a b = b
  left : ∀ a b, key a ≤ key (pick a b)
  right : ∀ a b, key b ≤ key (pick a b)

theorem PicksGreater.fold_mem (h : PicksGreater key pick) (g : Grouping α) : g.fold pick ∈ g.items := by
  induction g with
  | item a => exact List.mem_singleton_self a
  | merge left right ihl ihr =>
    rw [items, List.mem_append, fold]
    rcases h.either (left.fold pick) (right.fold pick) with heq | heq
    · rw [heq]
      exact Or.inl ihl
    · rw [heq]
      exact Or.inr ihr

theorem PicksGreater.le_fold (h : PicksGreater key pick) (g : Grouping α) :
    ∀ a ∈ g.items, key a ≤ key (g.fold pick) := by
  induction g with
  | item a =>
    intro b hb
    rw [List.mem_singleton.mp hb]
    exact le_refl _
  | merge left right ihl ihr =>
    intro b hb
    rcases List.mem_append.mp hb with hb | hb
    · exact le_trans (ihl b hb) (h.left _ _)
    · exact le_trans (ihr b hb) (h.right _ _)

/-- **Every order and grouping has the same outcome**: the item with the greatest key. -/
theorem PicksGreater.fold_eq (h : PicksGreater key pick) (g : Grouping α) {m : α} (hm : m ∈ g.items)
    (hgreatest : ∀ a ∈ g.items, a ≠ m → key a < key m) : g.fold pick = m := by
  by_contra hne
  exact absurd (h.le_fold g m hm) (not_le.mpr (hgreatest _ (h.fold_mem g) hne))

end Grouping
