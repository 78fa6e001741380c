import ActantDb.Lib.Program

/-!
# What a program leaves of a view

A view forgets a part of the world. A program is blind to it if it never changes what the view shows, and exact, for a condition on calls, if it leaves the view as it was exactly when all its calls meet the condition. Both are read off the single calls: a program of blind calls is blind, and exactness passes through blind calls before and after.
-/

namespace Prog

universe v

variable {Op : Type*} {Res : Op → Type*} {ε W V : Type*} {α β : Type v}
  (handle : (o : Op) → W → Res o × W) (view : W → V) (C : W → Op → Prop)

/-- From every world in `K` the program leaves the view as it is and stays in `K`, and its calls meet `C`. -/
structure Blind (K : W → Prop) (p : Prog Op Res ε α) : Prop where
  leaves : ∀ w, K w → view (p.run handle w).2 = view w ∧ p.Along handle C w ∧ K (p.run handle w).2

/-- From every world the program leaves the view as it is exactly when its calls meet `C`. -/
structure Exact (p : Prog Op Res ε α) : Prop where
  leaves_iff : ∀ w, view (p.run handle w).2 = view w ↔ p.Along handle C w

/-- From every world. -/
abbrev Anywhere : W → Prop := fun _ => True

variable {handle view C} {K : W → Prop}

theorem along_bind {p : Prog Op Res ε α} {f : α → Prog Op Res ε β} {w : W} :
    (p >>= f).Along handle C w ↔ p.Along handle C w ∧
      ∀ a w', p.run handle w = (.ok a, w') → (f a).Along handle C w' := by
  induction p generalizing w with
  | done r =>
    cases r with
    | ok a => simp [Along]
    | error e => simp [Along]
  | call o next ih =>
    simp only [call_bind, Along, run_call, ih, and_assoc]

theorem along_ignore {p : Prog Op Res ε α} {w : W} :
    (p.ignore : Prog Op Res ε PUnit).Along handle C w ↔ p.Along handle C w := by
  induction p generalizing w with
  | done r => rfl
  | call o next ih => exact and_congr_right fun _ => ih _

theorem blind_done (r : Except ε α) : Blind handle view C K (.done r : Prog Op Res ε α) :=
  ⟨fun _ hw => ⟨rfl, trivial, hw⟩⟩

/-- The second program may rely on more than the first, as long as the first provides it. -/
theorem Blind.bind_of {p : Prog Op Res ε α} {f : α → Prog Op Res ε β} (K' : W → Prop)
    (hp : Blind handle view C K p)
    (hprovides : ∀ w a w', K w → p.run handle w = (.ok a, w') → K' w')
    (hf : ∀ a, Blind handle view C K' (f a)) (hback : ∀ w, K' w → K w) :
    Blind handle view C K (p >>= f) := by
  constructor
  intro w hw
  obtain ⟨hview, halong, hkept⟩ := hp.leaves w hw
  rw [run_bind, along_bind]
  cases hrun : p.run handle w with
  | mk r w' =>
    rw [hrun] at hview hkept
    cases r with
    | error e =>
      refine ⟨hview, ⟨halong, ?_⟩, hkept⟩
      intro a w'' heq
      cases heq
    | ok a =>
      obtain ⟨hview', halong', hkept'⟩ := (hf a).leaves w' (hprovides w a w' hw hrun)
      refine ⟨hview'.trans hview, ⟨halong, ?_⟩, hback _ hkept'⟩
      intro a' w'' heq
      cases heq
      exact halong'

theorem Blind.bind {p : Prog Op Res ε α} {f : α → Prog Op Res ε β}
    (hp : Blind handle view C K p) (hf : ∀ a, Blind handle view C K (f a)) :
    Blind handle view C K (p >>= f) := by
  refine hp.bind_of K (fun w a w' hw hrun => ?_) hf fun _ hw => hw
  have hkept := (hp.leaves w hw).2.2
  rwa [hrun] at hkept

theorem Blind.ignore {p : Prog Op Res ε α} (hp : Blind handle view C K p) :
    Blind handle view C K (p.ignore : Prog Op Res ε PUnit) := by
  constructor
  intro w hw
  rw [run_ignore, along_ignore]
  exact hp.leaves w hw

theorem blind_performOr {δ : Type*} {o : Op} {answer : Res o → Except δ α} {onError : δ → ε}
    (h : ∀ w, K w → view (handle o w).2 = view w ∧ C w o ∧ K (handle o w).2) :
    Blind handle view C K (performOr o answer onError : Prog Op Res ε α) := by
  constructor
  intro w hw
  obtain ⟨hview, hcall, hkept⟩ := h w hw
  rw [run_performOr]
  refine ⟨hview, ⟨hcall, ?_⟩, hkept⟩
  beta_reduce
  cases answer (handle o w).1 <;> trivial

theorem blind_perform {Op : Type*} {Res : Op → Type v} {handle : (o : Op) → W → Res o × W}
    {C : W → Op → Prop} {o : Op}
    (h : ∀ w, K w → view (handle o w).2 = view w ∧ C w o ∧ K (handle o w).2) :
    Blind handle view C K (perform o : Prog Op Res ε (Res o)) := by
  constructor
  intro w hw
  obtain ⟨hview, hcall, hkept⟩ := h w hw
  exact ⟨hview, ⟨hcall, trivial⟩, hkept⟩

theorem Along.mono {C' : W → Op → Prop} (hC : ∀ w o, C w o → C' w o) {p : Prog Op Res ε α} {w : W}
    (h : p.Along handle C w) : p.Along handle C' w := by
  induction p generalizing w with
  | done r => trivial
  | call o next ih => exact ⟨hC w o h.1, ih _ h.2⟩

/-- A program is blind to every view that shows less, for every condition that asks less. -/
theorem Blind.mono {V' : Type*} {view' : W → V'} {C' : W → Op → Prop} {p : Prog Op Res ε α}
    (hp : Blind handle view C K p) (hview : ∀ w w', view w' = view w → view' w' = view' w)
    (hC : ∀ w o, C w o → C' w o) : Blind handle view' C' K p := by
  constructor
  intro w hw
  obtain ⟨hleaves, halong, hkept⟩ := hp.leaves w hw
  exact ⟨hview _ _ hleaves, halong.mono hC, hkept⟩

theorem Blind.exact {p : Prog Op Res ε α} (hp : Blind handle view C Anywhere p) :
    Exact handle view C p := by
  constructor
  intro w
  obtain ⟨hview, halong, -⟩ := hp.leaves w trivial
  exact iff_of_true hview halong

theorem exact_performOr {δ : Type*} {o : Op} {answer : Res o → Except δ α} {onError : δ → ε}
    (h : ∀ w, view (handle o w).2 = view w ↔ C w o) :
    Exact handle view C (performOr o answer onError : Prog Op Res ε α) := by
  constructor
  intro w
  rw [run_performOr]
  constructor
  · intro hview
    refine ⟨(h w).mp hview, ?_⟩
    beta_reduce
    cases answer (handle o w).1 <;> trivial
  · intro halong
    exact (h w).mpr halong.1

/-- Two exact programs in a row are exact when what the first changes in the view the second does not undo. -/
theorem Exact.bind {p : Prog Op Res ε α} {f : α → Prog Op Res ε β}
    (hp : Exact handle view C p) (hf : ∀ a, Exact handle view C (f a))
    (hlasting : ∀ w a w', p.run handle w = (.ok a, w') →
      view ((f a).run handle w').2 = view w → view w' = view w) :
    Exact handle view C (p >>= f) := by
  constructor
  intro w
  have hfirst := hp.leaves_iff w
  rw [run_bind, along_bind]
  cases hrun : p.run handle w with
  | mk r w' =>
    rw [hrun] at hfirst
    cases r with
    | error e =>
      refine hfirst.trans (and_iff_left ?_).symm
      intro a w'' heq
      cases heq
    | ok a =>
      constructor
      · intro hview
        have hkept := hlasting w a w' hrun hview
        refine ⟨hfirst.mp hkept, ?_⟩
        intro a' w'' heq
        cases heq
        exact ((hf a).leaves_iff w').mp (hview.trans hkept.symm)
      · intro h
        exact (((hf a).leaves_iff w').mpr (h.2 a w' rfl)).trans (hfirst.mpr h.1)

/-- A blind program before an exact one. -/
theorem Blind.bind_exact {p : Prog Op Res ε α} {f : α → Prog Op Res ε β}
    (hp : Blind handle view C Anywhere p) (hf : ∀ a, Exact handle view C (f a)) :
    Exact handle view C (p >>= f) := by
  refine hp.exact.bind hf fun w a w' hrun _ => ?_
  have hview := (hp.leaves w trivial).1
  rwa [hrun] at hview

/-- A blind program after an exact one. -/
theorem Exact.bind_blind {p : Prog Op Res ε α} {f : α → Prog Op Res ε β}
    (hp : Exact handle view C p) (hf : ∀ a, Blind handle view C Anywhere (f a)) :
    Exact handle view C (p >>= f) := by
  refine hp.bind (fun a => (hf a).exact) fun w a w' _ hview => ?_
  rw [← hview]
  exact ((hf a).leaves w' trivial).1.symm

end Prog
