import Mathlib.Data.List.Basic
import Mathlib.Logic.Relation

/-!
# Runs of a labelled step function

A machine is a total function `step : σ → ℓ → σ`, and a run is the list of labels it is fed. A label that is not enabled leaves the state as it is, so every list of labels is a run and a schedule is just a list.

Three ways to speak about a run are used throughout: what every step of it meets (`EveryStep`), what every state on it satisfies (`Always`), and how two states on it are related (`run_rel`).
-/

namespace Lts

variable {σ ℓ : Type*} (step : σ → ℓ → σ)

/-- The state reached from `s` by the labels `ls`. -/
def run (s : σ) (ls : List ℓ) : σ := ls.foldl step s

@[simp] theorem run_nil (s : σ) : run step s [] = s := rfl

@[simp] theorem run_cons (s : σ) (l : ℓ) (ls : List ℓ) :
    run step s (l :: ls) = run step (step s l) ls := rfl

@[simp] theorem run_append (s : σ) (pre post : List ℓ) :
    run step s (pre ++ post) = run step (run step s pre) post :=
  List.foldl_append

/-- Every step the run takes meets `P`, a condition on the state before the step and on its label. -/
def EveryStep (P : σ → ℓ → Prop) : σ → List ℓ → Prop
  | _, [] => True
  | s, l :: ls => P s l ∧ EveryStep P (step s l) ls

instance decidableEveryStep (P : σ → ℓ → Prop) [∀ s l, Decidable (P s l)] :
    ∀ s ls, Decidable (EveryStep step P s ls)
  | _, [] => instDecidableTrue
  | s, l :: ls =>
    have := decidableEveryStep P (step s l) ls
    inferInstanceAs (Decidable (P s l ∧ EveryStep step P (step s l) ls))

variable {step} {P Q : σ → ℓ → Prop} {s : σ} {ls : List ℓ}

@[simp] theorem everyStep_nil : EveryStep step P s [] := trivial

@[simp] theorem everyStep_cons {l : ℓ} :
    EveryStep step P s (l :: ls) ↔ P s l ∧ EveryStep step P (step s l) ls := Iff.rfl

theorem everyStep_append {pre post : List ℓ} :
    EveryStep step P s (pre ++ post) ↔
      EveryStep step P s pre ∧ EveryStep step P (run step s pre) post := by
  induction pre generalizing s with
  | nil => simp
  | cons l pre ih => simp [ih, and_assoc]

/-- `EveryStep`, read at the position where the step is taken. -/
theorem everyStep_iff :
    EveryStep step P s ls ↔ ∀ pre l post, ls = pre ++ l :: post → P (run step s pre) l := by
  constructor
  · rintro h pre l post rfl
    exact (everyStep_append.mp h).2.1
  · intro h
    induction ls generalizing s with
    | nil => trivial
    | cons l ls ih =>
      refine ⟨h [] l ls rfl, ih fun pre l' post heq => ?_⟩
      exact h (l :: pre) l' post (by rw [heq, List.cons_append])

theorem EveryStep.mono (h : EveryStep step P s ls) (hPQ : ∀ s l, P s l → Q s l) :
    EveryStep step Q s ls := by
  induction ls generalizing s with
  | nil => trivial
  | cons l ls ih => exact ⟨hPQ _ _ h.1, ih h.2⟩

theorem everyStep_true {s : σ} (ls : List ℓ) : EveryStep step (fun _ _ => True) s ls := by
  induction ls generalizing s with
  | nil => trivial
  | cons l ls ih => exact ⟨trivial, ih⟩

theorem everyStep_and (hP : EveryStep step P s ls) (hQ : EveryStep step Q s ls) :
    EveryStep step (fun s l => P s l ∧ Q s l) s ls := by
  induction ls generalizing s with
  | nil => trivial
  | cons l ls ih => exact ⟨⟨hP.1, hQ.1⟩, ih hP.2 hQ.2⟩

/-- Two conditions that agree wherever an invariant holds agree on every run from there. -/
theorem everyStep_congr (Inv : σ → Prop) (hstep : ∀ s l, Inv s → Inv (step s l))
    (hPQ : ∀ s l, Inv s → (P s l ↔ Q s l)) (hs : Inv s) :
    EveryStep step P s ls ↔ EveryStep step Q s ls := by
  induction ls generalizing s with
  | nil => rfl
  | cons l ls ih => exact and_congr (hPQ s l hs) (ih (hstep s l hs))

/-- **Invariant rule.** What holds at the start and is kept by every step that meets `P` holds at the end of a run whose steps all meet `P`. -/
theorem run_invariant (Inv : σ → Prop) (hstep : ∀ s l, Inv s → P s l → Inv (step s l))
    (hs : Inv s) (h : EveryStep step P s ls) : Inv (run step s ls) := by
  induction ls generalizing s with
  | nil => exact hs
  | cons l ls ih => exact ih (hstep s l hs h.1) h.2

/-- A relation that is reflexive and transitive, and holds across every step that meets `P` from a state that meets `Inv`, holds between the ends of a run. -/
theorem run_rel (Inv : σ → Prop) (R : σ → σ → Prop) (hrefl : ∀ s, R s s)
    (htrans : ∀ a b c, R a b → R b c → R a c)
    (hstep : ∀ s l, Inv s → P s l → Inv (step s l) ∧ R s (step s l))
    (hs : Inv s) (h : EveryStep step P s ls) : R s (run step s ls) := by
  induction ls generalizing s with
  | nil => exact hrefl s
  | cons l ls ih =>
    obtain ⟨hinv, hrel⟩ := hstep s l hs h.1
    exact htrans _ _ _ hrel (ih hinv h.2)

variable (step) in
/-- Every state on the run from `s`, its two ends included, satisfies `I`. -/
def Always (I : σ → Prop) (s : σ) (ls : List ℓ) : Prop :=
  ∀ pre post, ls = pre ++ post → I (run step s pre)

/-- The invariant rule, for every state on the run. -/
theorem always_of_invariant (Inv : σ → Prop) (hstep : ∀ s l, Inv s → P s l → Inv (step s l))
    (hs : Inv s) (h : EveryStep step P s ls) : Always step Inv s ls := by
  rintro pre post rfl
  exact run_invariant Inv hstep hs (everyStep_append.mp h).1

/-- Where an invariant holds, a step keeps `I` exactly if it meets `P`, and then keeps the invariant: so `I` holds along a run exactly if every step meets `P`. -/
theorem always_iff_everyStep (Inv I : σ → Prop) (hI : ∀ s, Inv s → I s) (hiff : ∀ s l, Inv s → (I (step s l) ↔ P s l))
    (hstep : ∀ s l, Inv s → P s l → Inv (step s l)) (hs : Inv s) : Always step I s ls ↔ EveryStep step P s ls := by
  constructor
  · intro h
    induction ls generalizing s with
    | nil => trivial
    | cons l ls ih =>
      have hl : P s l := (hiff s l hs).mp (h [l] ls rfl)
      exact ⟨hl, ih (hstep s l hs hl) fun pre post heq => h (l :: pre) post (by rw [heq, List.cons_append])⟩
  · intro h pre post heq
    exact hI _ (always_of_invariant Inv hstep hs h pre post heq)

end Lts
