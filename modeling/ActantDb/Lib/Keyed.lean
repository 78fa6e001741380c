import Mathlib.Data.List.Induction
import Mathlib.Logic.Function.Basic

/-!
# A machine for each key

A table holds a machine for each key that has been asked, and a key that is asked for the first time gets a fresh one, if any is kept for it. A call goes to the machine of its key: to each key the table is a machine of its own, whatever the other keys are asked (`answers_filter`).
-/

namespace Keyed

variable {κ σ ℓ ρ : Type*} [DecidableEq κ] (fresh : κ → ℓ → Option σ) (step : σ → ℓ → ρ × σ) (idle : ρ)

/-- A call to a machine that may not be there yet. -/
def call (key : κ) (machine : Option σ) (l : ℓ) : ρ × Option σ :=
  match machine.or (fresh key l) with
  | none => (idle, none)
  | some s => ((step s l).1, some (step s l).2)

/-- The answer to a call to the machine of `key`, and the table after it. -/
def ask (table : κ → Option σ) (key : κ) (l : ℓ) : ρ × (κ → Option σ) :=
  let answer := call fresh step idle key (table key) l
  (answer.1, Function.update table key answer.2)

/-- What the calls are answered, each with its key and its label. -/
def answers (table : κ → Option σ) : List (κ × ℓ) → List (κ × ℓ × ρ)
  | [] => []
  | (key, l) :: calls =>
    (key, l, (ask fresh step idle table key l).1) :: answers (ask fresh step idle table key l).2 calls

/-- The table after the calls. -/
def after (table : κ → Option σ) (calls : List (κ × ℓ)) : κ → Option σ :=
  calls.foldl (fun t c => (ask fresh step idle t c.1 c.2).2) table

/-- What a machine answers that gets no other calls. -/
def alone (key : κ) (machine : Option σ) : List ℓ → List (ℓ × ρ)
  | [] => []
  | l :: ls => (l, (call fresh step idle key machine l).1) :: alone key (call fresh step idle key machine l).2 ls

/-- The labels of the calls to `key`. -/
def labels (key : κ) (calls : List (κ × ℓ)) : List ℓ := (calls.filter fun c => c.1 = key).map Prod.snd

variable {fresh step idle} {table : κ → Option σ} {key k : κ} {l : ℓ} {calls : List (κ × ℓ)}

theorem ask_self : (ask fresh step idle table key l).2 key = (call fresh step idle key (table key) l).2 :=
  Function.update_self _ _ _

theorem ask_of_ne (h : k ≠ key) : (ask fresh step idle table key l).2 k = table k :=
  Function.update_of_ne h _ _

theorem labels_cons_self : labels key ((key, l) :: calls) = l :: labels key calls := by
  rw [labels, List.filter_cons_of_pos (by simp), List.map_cons, labels]

theorem labels_cons_of_ne (h : k ≠ key) : labels key ((k, l) :: calls) = labels key calls := by
  rw [labels, List.filter_cons_of_neg (by simpa using h), labels]

/-- **Each key is served alone**: the answers to its calls are those of a machine that gets no others. -/
theorem answers_filter (key : κ) (calls : List (κ × ℓ)) :
    ((answers fresh step idle table calls).filter fun a => a.1 = key).map Prod.snd =
      alone fresh step idle key (table key) (labels key calls) := by
  induction calls generalizing table with
  | nil => rfl
  | cons c calls ih =>
    obtain ⟨k, l⟩ := c
    rw [answers]
    by_cases hk : k = key
    · subst hk
      rw [List.filter_cons_of_pos (by simp), List.map_cons, labels_cons_self, alone, ih, ask_self]
      rfl
    · rw [List.filter_cons_of_neg (by simpa using hk), labels_cons_of_ne hk, ih, ask_of_ne (Ne.symm hk)]

theorem answers_append (pre post : List (κ × ℓ)) :
    answers fresh step idle table (pre ++ post) =
      answers fresh step idle table pre ++ answers fresh step idle (after fresh step idle table pre) post := by
  induction pre generalizing table with
  | nil => rfl
  | cons c pre ih =>
    rw [List.cons_append, answers, answers, ih, List.cons_append]
    rfl

/-- What holds of a machine and the calls it has had, kept by every call to it, holds after all calls to any machines. -/
theorem after_rule (I : List ℓ → Option σ → Prop) (hstart : I [] (table key))
    (hstep : ∀ ls machine l, I ls machine → I (ls ++ [l]) (call fresh step idle key machine l).2)
    (calls : List (κ × ℓ)) : I (labels key calls) (after fresh step idle table calls key) := by
  induction calls using List.reverseRecOn with
  | nil => exact hstart
  | append_singleton calls c ih =>
    obtain ⟨k, l⟩ := c
    rw [after, List.foldl_append, List.foldl_cons, List.foldl_nil, labels, List.filter_append, List.map_append]
    by_cases hk : k = key
    · subst hk
      rw [List.filter_cons_of_pos (by simp), ask_self]
      exact hstep _ _ _ ih
    · rw [List.filter_cons_of_neg (by simpa using hk), ask_of_ne (Ne.symm hk), List.filter_nil, List.map_nil,
        List.append_nil]
      exact ih

end Keyed
