import Mathlib.Algebra.BigOperators.Group.List.Lemmas
import Mathlib.Algebra.Field.Basic
import Mathlib.Algebra.Order.Field.Basic
import Mathlib.Algebra.Order.BigOperators.Group.List
import Mathlib.Tactic.FieldSimp
import Mathlib.Tactic.Ring
import Mathlib.Tactic.Positivity
import Mathlib.Tactic.Linarith

/-!
# Running means

A mean that is updated with each value it is given, starting from a prior that stands for `prior` earlier values of mean `mean`. The value after any list is the weighted sum of the prior and of the values (`foldl_step`), so it does not depend on their order (`foldl_step_perm`).
-/

namespace ActantDb.RunningMean

variable {K : Type*}

/-- A mean and how many values it has been given. -/
structure Mean (K : Type*) where
  mean : K
  count : ℕ

section Field

variable [Field K]

/-- One more value. -/
def step (prior : K) (m : Mean K) (x : K) : Mean K where
  mean := (m.mean * (m.count + prior) + x) / (m.count + prior + 1)
  count := m.count + 1

@[simp] theorem count_step (prior : K) (m : Mean K) (x : K) : (step prior m x).count = m.count + 1 := rfl

theorem count_foldl (prior : K) (m : Mean K) (xs : List K) : (xs.foldl (step prior) m).count = m.count + xs.length := by
  induction xs generalizing m with
  | nil => rfl
  | cons x xs ih =>
    rw [List.foldl_cons, ih, count_step, List.length_cons]
    omega

end Field

variable [Field K] [LinearOrder K] [IsStrictOrderedRing K]

/-- The weight times the mean is what grows by the value. -/
theorem weight_mul_step {prior : K} (hprior : 0 < prior) (m : Mean K) (x : K) :
    ((step prior m x).count + prior) * (step prior m x).mean = (m.count + prior) * m.mean + x := by
  have hweight : (m.count : K) + prior + 1 ≠ 0 := by positivity
  simp only [step, Nat.cast_add, Nat.cast_one]
  field_simp
  ring

/-- **The closed form.** -/
theorem weight_mul_foldl {prior : K} (hprior : 0 < prior) (m : Mean K) (xs : List K) :
    (m.count + xs.length + prior) * (xs.foldl (step prior) m).mean = (m.count + prior) * m.mean + xs.sum := by
  induction xs generalizing m with
  | nil => simp
  | cons x xs ih =>
    have hrest := ih (step prior m x)
    rw [weight_mul_step hprior, count_step] at hrest
    rw [List.foldl_cons, List.sum_cons, ← add_assoc, ← hrest, List.length_cons]
    push_cast
    ring

theorem foldl_step {prior : K} (hprior : 0 < prior) (m : Mean K) (xs : List K) :
    (xs.foldl (step prior) m).mean = ((m.count + prior) * m.mean + xs.sum) / (m.count + xs.length + prior) := by
  have hweight : (m.count : K) + xs.length + prior ≠ 0 := by positivity
  rw [eq_div_iff hweight, mul_comm]
  exact weight_mul_foldl hprior m xs

/-- **The order of the values is of no account.** -/
theorem foldl_step_perm {prior : K} (hprior : 0 < prior) (m : Mean K) {xs ys : List K} (h : xs.Perm ys) :
    (xs.foldl (step prior) m).mean = (ys.foldl (step prior) m).mean := by
  rw [foldl_step hprior, foldl_step hprior, h.sum_eq, h.length_eq]

end ActantDb.RunningMean
