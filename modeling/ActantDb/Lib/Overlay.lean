import Mathlib.Data.List.Basic
import Mathlib.Logic.Function.Basic

/-!
# Writing a list over a store

`overlay key value l f` is the store `f` after every item of `l` has been written under its key, in order. Where an item is going to be written anyway, it makes no difference to have written it before (`overlay_absorb`): that is what makes repeating an interrupted batch harmless.
-/

variable {α κ β : Type*} [DecidableEq κ] (key : α → κ) (value : α → β)

def overlay (l : List α) (f : κ → Option β) : κ → Option β :=
  l.foldl (fun f a => Function.update f (key a) (some (value a))) f

variable {key value} {l : List α} {f g : κ → Option β} {a : α} {k : κ}

@[simp] theorem overlay_nil : overlay key value [] f = f := rfl

@[simp] theorem overlay_cons :
    overlay key value (a :: l) f = overlay key value l (Function.update f (key a) (some (value a))) :=
  rfl

theorem overlay_append (l₁ l₂ : List α) (f : κ → Option β) :
    overlay key value (l₁ ++ l₂) f = overlay key value l₂ (overlay key value l₁ f) :=
  List.foldl_append

/-- At each key on its own. -/
theorem overlay_congr (l : List α) (h : f k = g k) : overlay key value l f k = overlay key value l g k := by
  induction l generalizing f g with
  | nil => exact h
  | cons a l ih =>
    rw [overlay_cons, overlay_cons]
    apply ih
    by_cases hk : k = key a
    · rw [hk, Function.update_self, Function.update_self]
    · rw [Function.update_of_ne hk, Function.update_of_ne hk, h]

/-- An item that is written anyway may have been written before. -/
theorem overlay_absorb (h : a ∈ l) :
    overlay key value l (Function.update f (key a) (some (value a))) = overlay key value l f := by
  induction l generalizing f with
  | nil => cases h
  | cons b l ih =>
    rw [overlay_cons, overlay_cons]
    rcases List.mem_cons.mp h with rfl | hin
    · rw [Function.update_idem]
    · by_cases hkey : key a = key b
      · rw [hkey, Function.update_idem]
      · rw [Function.update_comm hkey]
        exact ih hin
