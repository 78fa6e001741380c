import ActantDb.Lib.Run

/-!
# Where a property comes from

What holds at the end of a run and did not hold at its start began to hold at some step of it. If it is known which steps bring a property about, one of them is in the run (`origin`); if it is known, too, which take it away, the property holds exactly if since some step of the former kind there was none of the latter (`standing_iff`).
-/

namespace Lts

variable {σ ℓ : Type*} {step : σ → ℓ → σ} {P : σ → Prop} {brings : σ → ℓ → Prop} {ends : ℓ → Prop}

/-- A step of the run that brings the property about. -/
def Brought (step : σ → ℓ → σ) (brings : σ → ℓ → Prop) (s : σ) (ls : List ℓ) : Prop :=
  ∃ before l after, ls = before ++ l :: after ∧ brings (run step s before) l

theorem Brought.append {s : σ} {ls : List ℓ} (h : Brought step brings s ls) (rest : List ℓ) :
    Brought step brings s (ls ++ rest) := by
  obtain ⟨before, l, after, rfl, hbrings⟩ := h
  exact ⟨before, l, after ++ rest, by rw [List.append_assoc, List.cons_append], hbrings⟩

theorem origin (hstep : ∀ s l, P (step s l) → P s ∨ brings s l) {s : σ} {ls : List ℓ} (h : P (run step s ls)) :
    P s ∨ Brought step brings s ls := by
  induction ls generalizing s with
  | nil => exact Or.inl h
  | cons l ls ih =>
    rcases ih h with hnow | ⟨before, l', after, rfl, hbrings⟩
    · rcases hstep s l hnow with hs | hbrings
      · exact Or.inl hs
      · exact Or.inr ⟨[], l, ls, rfl, hbrings⟩
    · exact Or.inr ⟨l :: before, l', after, rfl, hbrings⟩

/-- A step of the run that brings the property about, with none after it that ends it. -/
def Standing (step : σ → ℓ → σ) (brings : σ → ℓ → Prop) (ends : ℓ → Prop) (s : σ) (ls : List ℓ) : Prop :=
  ∃ before l after, ls = before ++ l :: after ∧ brings (run step s before) l ∧ ∀ l' ∈ after, ¬ ends l'

theorem standing_cons {s : σ} {l : ℓ} {ls : List ℓ} :
    Standing step brings ends s (l :: ls) ↔
      (brings s l ∧ ∀ l' ∈ ls, ¬ ends l') ∨ Standing step brings ends (step s l) ls := by
  constructor
  · rintro ⟨before, l', after, hsplit, hbrings, hafter⟩
    cases before with
    | nil =>
      obtain ⟨rfl, rfl⟩ := List.cons.inj hsplit
      exact Or.inl ⟨hbrings, hafter⟩
    | cons b before =>
      obtain ⟨rfl, rfl⟩ := List.cons.inj hsplit
      exact Or.inr ⟨before, l', after, rfl, hbrings, hafter⟩
  · rintro (⟨hbrings, hafter⟩ | ⟨before, l', after, rfl, hbrings, hafter⟩)
    · exact ⟨[], l, ls, rfl, hbrings, hafter⟩
    · exact ⟨l :: before, l', after, rfl, hbrings, hafter⟩

theorem standing_iff (hstep : ∀ s l, P (step s l) ↔ (P s ∧ ¬ ends l) ∨ brings s l) {s : σ} {ls : List ℓ} :
    P (run step s ls) ↔ (P s ∧ ∀ l ∈ ls, ¬ ends l) ∨ Standing step brings ends s ls := by
  induction ls generalizing s with
  | nil =>
    have hnone : ¬ Standing step brings ends s [] := by
      rintro ⟨before, l, after, hsplit, -⟩
      cases before <;> cases hsplit
    simp [hnone]
  | cons l ls ih =>
    rw [run_cons, ih, hstep, standing_cons, List.forall_mem_cons]
    tauto

end Lts
