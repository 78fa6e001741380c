import Mathlib.Init

/-!
# Computations that keep their state when they throw

`EStateM` hands on the state with the error. A computation in it is walked through bind by bind: from a step that returns to what follows it, and past what follows a step that throws.
-/

namespace EStateM

variable {ε σ α β : Type} {x : EStateM ε σ α} {f : α → EStateM ε σ β} {s s' : σ} {a : α} {e : ε}

theorem bind_of_ok (h : x s = .ok a s') : (x >>= f) s = f a s' := by
  simp only [bind, EStateM.bind, h]

theorem bind_of_error (h : x s = .error e s') : (x >>= f) s = .error e s' := by
  simp only [bind, EStateM.bind, h]

theorem tryCatch_of_ok {handler : ε → EStateM ε σ α} (h : x s = .ok a s') : tryCatch x handler s = .ok a s' := by
  change EStateM.tryCatch x handler s = .ok a s'
  delta EStateM.tryCatch
  rw [h]

theorem tryCatch_of_error {handler : ε → EStateM ε σ α} (h : x s = .error e s') : tryCatch x handler s = handler e s' := by
  change EStateM.tryCatch x handler s = handler e s'
  delta EStateM.tryCatch
  rw [h]
  rfl

/-- The state at the end, however it ends. -/
def Result.state : Result ε σ α → σ
  | .ok _ s => s
  | .error _ s => s

/-- However `x` ends, `I` still holds of the state. -/
def Keeps (I : σ → Prop) (x : EStateM ε σ α) : Prop := ∀ s, I s → I (x s).state

section Keeps

variable {I : σ → Prop}

theorem keeps_pure (a : α) : Keeps I (pure a : EStateM ε σ α) := fun _ h => h

theorem keeps_throw (e : ε) : Keeps I (throw e : EStateM ε σ α) := fun _ h => h

theorem keeps_bind (hx : Keeps I x) (hf : ∀ a, Keeps I (f a)) : Keeps I (x >>= f) := by
  intro s hs
  have hnext := hx s hs
  cases hrun : x s with
  | ok a s' =>
    rw [hrun] at hnext
    rw [bind_of_ok hrun]
    exact hf a s' hnext
  | error e s' =>
    rw [hrun] at hnext
    rw [bind_of_error hrun]
    exact hnext

theorem keeps_tryCatch {handler : ε → EStateM ε σ α} (hx : Keeps I x) (hhandler : ∀ e, Keeps I (handler e)) :
    Keeps I (tryCatch x handler) := by
  intro s hs
  have hnext := hx s hs
  cases hrun : x s with
  | ok a s' =>
    rw [hrun] at hnext
    rw [tryCatch_of_ok hrun]
    exact hnext
  | error e s' =>
    rw [hrun] at hnext
    rw [tryCatch_of_error hrun]
    exact hhandler e s' hnext

end Keeps

end EStateM
