import Mathlib.Data.List.Infix
import Mathlib.Data.List.Count
import Mathlib.Logic.Function.Basic
import Mathlib.Logic.Relation

/-!
# Listing the nodes of a graph by their indegrees

A node is listed once no edge from an unlisted node leads to it. The loop keeps the number of such edges for each node and a stack of the nodes for which it has come down to zero. Whether or not all nodes get listed, a listed node comes after every node with an edge to it; and those that are listed are the known nodes that no cycle and no unknown node leads to.
-/

namespace Kahn

variable {K : Type*} [DecidableEq K]

/-- The stack has its top first. -/
structure Progress (K : Type*) where
  indeg : K → Nat
  ready : List K
  out : List K

namespace Progress

/-- One edge into `m` less. -/
def relax (s : Progress K) (m : K) : Progress K where
  indeg := Function.update s.indeg m (s.indeg m - 1)
  ready := if s.indeg m - 1 = 0 then m :: s.ready else s.ready
  out := s.out

end Progress

variable (edges : List (K × K))

/-- Where the edges from `n` lead. -/
def successors (n : K) : List K := (edges.filter fun e => e.1 = n).map Prod.snd

def indegree (m : K) : Nat := edges.countP fun e => e.2 = m

/-- The top of the stack is listed, unless it is listed already. -/
def step (s : Progress K) : Progress K :=
  match s.ready with
  | [] => s
  | n :: ready =>
    if n ∈ s.out then { s with ready := ready }
    else (successors edges n).foldl Progress.relax { s with ready := ready, out := s.out ++ [n] }

/-- The stack is worked off, in at most so many steps. -/
def drain : Nat → Progress K → Progress K
  | 0, s => s
  | fuel + 1, s => drain fuel (step edges s)

/-- A node is followed by none with an edge to it. -/
def Topological (order : List K) : Prop :=
  ∀ pre n post, order = pre ++ n :: post → ∀ e ∈ edges, e.2 = n → e.1 ∈ pre

/-- What holds in every turn of the loop. -/
structure Inv (s : Progress K) : Prop where
  indeg : ∀ m, s.indeg m = edges.countP fun e => e.2 = m ∧ e.1 ∉ s.out
  ready : ∀ m ∈ s.ready, s.indeg m = 0
  order : Topological edges s.out

variable {edges} {s : Progress K} {n : K}

section Relax

theorem foldl_relax_indeg (ms : List K) (s : Progress K) (m : K) :
    (ms.foldl Progress.relax s).indeg m = s.indeg m - ms.count m := by
  induction ms generalizing s with
  | nil => simp
  | cons a ms ih =>
    rw [List.foldl_cons, ih, List.count_cons]
    simp only [Progress.relax, Function.update_apply]
    by_cases h : m = a
    · subst h
      simp only [if_pos, beq_self_eq_true]
      omega
    · simp [h, Ne.symm h]

theorem foldl_relax_out (ms : List K) (s : Progress K) : (ms.foldl Progress.relax s).out = s.out := by
  induction ms generalizing s with
  | nil => rfl
  | cons a ms ih => rw [List.foldl_cons, ih, Progress.relax]

theorem foldl_relax_ready (ms : List K) (h : ∀ m ∈ s.ready, s.indeg m = 0) :
    ∀ m ∈ (ms.foldl Progress.relax s).ready, (ms.foldl Progress.relax s).indeg m = 0 := by
  induction ms generalizing s with
  | nil => exact h
  | cons a ms ih =>
    rw [List.foldl_cons]
    apply ih
    intro m hm
    simp only [Progress.relax, Function.update_apply] at hm ⊢
    by_cases hma : m = a
    · subst hma
      rw [if_pos rfl]
      by_cases hzero : s.indeg m - 1 = 0
      · exact hzero
      · rw [if_neg hzero] at hm
        rw [h m hm]
    · rw [if_neg hma]
      apply h
      split at hm
      · exact (List.mem_cons.mp hm).resolve_left hma
      · exact hm

theorem foldl_relax_length (ms : List K) (s : Progress K) :
    (ms.foldl Progress.relax s).ready.length ≤ s.ready.length + ms.length := by
  induction ms generalizing s with
  | nil => simp
  | cons a ms ih =>
    have htail := ih (s.relax a)
    have hhead : (s.relax a).ready.length ≤ s.ready.length + 1 := by
      rw [Progress.relax]
      split <;> simp
    rw [List.foldl_cons, List.length_cons]
    omega

end Relax

theorem count_successors (edges : List (K × K)) (n m : K) :
    (successors edges n).count m = edges.countP fun e => e.2 = m ∧ e.1 = n := by
  rw [successors, List.count, List.countP_map, List.countP_filter]
  apply List.countP_congr
  intro e _
  simp [and_comm]

/-- The edges from an unlisted node are those of the node to be listed and the others. -/
theorem countP_unlisted (p : K × K → Prop) [DecidablePred p] {out : List K} (hn : n ∉ out) (edges : List (K × K)) :
    (edges.countP fun e => p e ∧ e.1 ∉ out) =
      (edges.countP fun e => p e ∧ e.1 ∉ out ++ [n]) + edges.countP fun e => p e ∧ e.1 = n := by
  induction edges with
  | nil => rfl
  | cons e edges ih =>
    simp only [List.countP_cons, ih, List.mem_append, List.mem_singleton, decide_eq_true_eq]
    by_cases he : e.1 = n
    · simp only [he, hn, or_true, not_true_eq_false, and_false, not_false_eq_true, and_true]
      split <;> simp
      omega
    · simp only [he, or_false, and_false, if_false]
      omega

omit [DecidableEq K] in
theorem Topological.snoc {out : List K} (h : Topological edges out) (hn : ∀ e ∈ edges, e.2 = n → e.1 ∈ out) :
    Topological edges (out ++ [n]) := by
  intro pre a post heq e he hea
  rcases List.eq_nil_or_concat' post with rfl | ⟨post, z, rfl⟩
  · obtain ⟨rfl, hna⟩ := List.append_inj' heq rfl
    rw [List.cons.injEq] at hna
    exact hn e he (hea.trans hna.1.symm)
  · rw [← List.cons_append, ← List.append_assoc] at heq
    obtain ⟨hout, -⟩ := List.append_inj' heq rfl
    exact h pre a post hout e he hea

theorem Inv.step (h : Inv edges s) : Inv edges (step edges s) := by
  unfold Kahn.step
  split
  · exact h
  rename_i n ready hready
  split
  · exact ⟨h.indeg, fun m hm => h.ready m (by rw [hready]; exact List.mem_cons_of_mem _ hm), h.order⟩
  rename_i hn
  -- nothing unlisted leads to the node any more
  have hlisted : ∀ e ∈ edges, e.2 = n → e.1 ∈ s.out := by
    have hzero := (h.indeg n).symm.trans (h.ready n (by rw [hready]; exact List.mem_cons_self))
    rw [List.countP_eq_zero] at hzero
    intro e he hen
    by_contra hout
    exact hzero e he (by simp [hen, hout])
  refine ⟨fun m => ?_, foldl_relax_ready _ fun m hm => ?_, ?_⟩
  · have hsplit := countP_unlisted (fun e => e.2 = m) hn edges
    rw [foldl_relax_indeg, foldl_relax_out, count_successors, h.indeg m, hsplit]
    exact Nat.add_sub_cancel ..
  · exact h.ready m (by rw [hready]; exact List.mem_cons_of_mem _ hm)
  · rw [foldl_relax_out]
    exact h.order.snoc hlisted

theorem Inv.drain (fuel : Nat) (h : Inv edges s) : Inv edges (drain edges fuel s) := by
  induction fuel generalizing s with
  | zero => exact h
  | succ fuel ih => exact ih h.step

/-- What is left to be worked off. -/
def measure (edges : List (K × K)) (s : Progress K) : Nat := s.ready.length + edges.countP fun e => e.1 ∉ s.out

theorem measure_step (h : s.ready ≠ []) : measure edges (step edges s) < measure edges s := by
  unfold step
  split
  · contradiction
  rename_i n ready hready
  split
  · simp only [measure, hready, List.length_cons]
    omega
  · rename_i hn
    have hlength := foldl_relax_length (successors edges n) { s with ready := ready, out := s.out ++ [n] }
    have hsuccessors : (successors edges n).length = edges.countP fun e => True ∧ e.1 = n := by
      rw [successors, List.length_map, ← List.countP_eq_length_filter]
      simp
    have hsplit := countP_unlisted (fun _ => True) hn edges
    simp only [true_and] at hsplit hsuccessors
    rw [measure, measure, foldl_relax_out, hready, List.length_cons]
    simp only at hlength ⊢
    omega

theorem drain_nil (fuel : Nat) (h : s.ready = []) : drain edges fuel s = s := by
  induction fuel with
  | zero => rfl
  | succ fuel ih =>
    have hstep : step edges s = s := by rw [step, h]
    rw [drain, hstep, ih]

/-- With enough steps the stack is worked off. -/
theorem ready_drain {fuel : Nat} (h : measure edges s ≤ fuel) : (drain edges fuel s).ready = [] := by
  induction fuel generalizing s with
  | zero =>
    rw [measure] at h
    apply List.eq_nil_of_length_eq_zero
    rw [drain]
    omega
  | succ fuel ih =>
    by_cases hready : s.ready = []
    · rw [drain_nil _ hready, hready]
    · have hless : measure edges (step edges s) < measure edges s := measure_step hready
      exact ih (by omega)

/-! ### What gets listed -/

variable (edges) in
/-- A known node, all of whose predecessors can be listed. -/
inductive Listable (known : K → Prop) : K → Prop
  | intro (n : K) (hknown : known n) (hpred : ∀ e ∈ edges, e.2 = n → Listable known e.1) : Listable known n

variable {known : K → Prop}

omit [DecidableEq K] in
/-- No cycle goes through a node that can be listed. -/
theorem Listable.acyclic (h : Listable edges known n) :
    ¬ Relation.TransGen (fun a b => (a, b) ∈ edges) n n := by
  induction h with
  | intro n _ _ ih =>
    intro hcycle
    cases hcycle with
    | single hedge => exact ih _ hedge rfl (.single hedge)
    | tail hpath hedge => exact ih _ hedge rfl (.head hedge hpath)

variable (edges known) in
/-- What is listed or waits on the stack, in every turn of the loop. -/
structure Reached (s : Progress K) : Prop where
  nodup : s.out.Nodup
  listed : ∀ m ∈ s.out, Listable edges known m
  waiting : ∀ m ∈ s.ready, known m
  complete : ∀ m, known m → s.indeg m = 0 → m ∈ s.out ∨ m ∈ s.ready

theorem ready_foldl_relax (ms : List K) {s : Progress K} {m : K} :
    m ∈ s.ready → m ∈ (ms.foldl Progress.relax s).ready := by
  induction ms generalizing s with
  | nil => exact id
  | cons a ms ih =>
    intro h
    refine ih ?_
    rw [Progress.relax]
    split
    · exact List.mem_cons_of_mem _ h
    · exact h

/-- A node whose last edge is taken away is put on the stack, and nothing else is. -/
theorem indeg_foldl_relax (ms : List K) {s : Progress K} {m : K}
    (h : (ms.foldl Progress.relax s).indeg m = 0) : s.indeg m = 0 ∨ m ∈ (ms.foldl Progress.relax s).ready := by
  induction ms generalizing s with
  | nil => exact Or.inl h
  | cons a ms ih =>
    rcases ih h with hzero | hready
    · by_cases hma : m = a
      · subst hma
        right
        refine ready_foldl_relax ms (s := s.relax m) ?_
        simp only [Progress.relax, Function.update_self] at hzero
        simp only [Progress.relax, if_pos hzero, List.mem_cons_self]
      · left
        simpa only [Progress.relax, Function.update_of_ne hma] using hzero
    · exact Or.inr hready

theorem mem_ready_foldl_relax (ms : List K) {s : Progress K} {m : K}
    (h : m ∈ (ms.foldl Progress.relax s).ready) : m ∈ s.ready ∨ m ∈ ms := by
  induction ms generalizing s with
  | nil => exact Or.inl h
  | cons a ms ih =>
    rcases ih h with hready | hms
    · simp only [Progress.relax] at hready
      split at hready
      · rcases List.mem_cons.mp hready with rfl | hold
        · exact Or.inr List.mem_cons_self
        · exact Or.inl hold
      · exact Or.inl hready
    · exact Or.inr (List.mem_cons_of_mem _ hms)

theorem Inv.pred_mem (h : Inv edges s) {m : K} (hzero : s.indeg m = 0) : ∀ e ∈ edges, e.2 = m → e.1 ∈ s.out := by
  rw [h.indeg m, List.countP_eq_zero] at hzero
  intro e he hem
  by_contra hout
  exact hzero e he (by simp [hem, hout])

theorem Reached.step (hinv : Inv edges s) (htarget : ∀ e ∈ edges, known e.2) (h : Reached edges known s) :
    Reached edges known (step edges s) := by
  unfold Kahn.step
  split
  · exact h
  rename_i n ready hready
  have hn : n ∈ s.ready := by rw [hready]; exact List.mem_cons_self
  have hold : ∀ m, m ∈ s.ready ↔ m = n ∨ m ∈ ready := fun m => by rw [hready, List.mem_cons]
  split
  · rename_i hout
    refine ⟨h.nodup, h.listed, fun m hm => h.waiting m ((hold m).mpr (Or.inr hm)), fun m hknown hzero => ?_⟩
    rcases h.complete m hknown hzero with hm | hm
    · exact Or.inl hm
    · rcases (hold m).mp hm with rfl | hm
      · exact Or.inl hout
      · exact Or.inr hm
  rename_i hout
  refine ⟨?_, ?_, ?_, ?_⟩
  · rw [foldl_relax_out]
    refine List.nodup_append.mpr ⟨h.nodup, List.pairwise_singleton _ n, fun a ha b hb hab => ?_⟩
    rw [List.mem_singleton] at hb
    exact hout (hb ▸ hab ▸ ha)
  · rw [foldl_relax_out]
    intro m hm
    rcases List.mem_append.mp hm with hm | hm
    · exact h.listed m hm
    · rw [List.mem_singleton] at hm
      subst hm
      exact ⟨m, h.waiting m hn, fun e he hem => h.listed e.1 (hinv.pred_mem (hinv.ready m hn) e he hem)⟩
  · intro m hm
    rcases mem_ready_foldl_relax _ hm with hm | hm
    · exact h.waiting m ((hold m).mpr (Or.inr hm))
    · rw [successors, List.mem_map] at hm
      obtain ⟨e, he, rfl⟩ := hm
      exact htarget e (List.mem_filter.mp he).1
  · intro m hknown hzero
    rw [foldl_relax_out, List.mem_append, List.mem_singleton]
    rcases indeg_foldl_relax _ hzero with hzero | hm
    · rcases h.complete m hknown hzero with hm | hm
      · exact Or.inl (Or.inl hm)
      · rcases (hold m).mp hm with rfl | hm
        · exact Or.inl (Or.inr rfl)
        · exact Or.inr (ready_foldl_relax _ hm)
    · exact Or.inr hm

theorem Reached.drain (htarget : ∀ e ∈ edges, known e.2) (fuel : Nat) (hinv : Inv edges s)
    (h : Reached edges known s) : Reached edges known (drain edges fuel s) := by
  induction fuel generalizing s with
  | zero => exact h
  | succ fuel ih => exact ih hinv.step (h.step hinv htarget)

/-- When the stack is empty, just the nodes that can be listed are listed. -/
theorem Reached.mem_out_iff (hinv : Inv edges s) (h : Reached edges known s) (hready : s.ready = []) {m : K} :
    m ∈ s.out ↔ Listable edges known m := by
  refine ⟨h.listed m, fun hlistable => ?_⟩
  induction hlistable with
  | intro m hknown _ ih =>
    have hzero : s.indeg m = 0 := by
      rw [hinv.indeg m, List.countP_eq_zero]
      intro e he
      rw [decide_eq_true_eq]
      rintro ⟨hem, hout⟩
      exact hout (ih e he hem)
    rcases h.complete m hknown hzero with hm | hm
    · exact hm
    · rw [hready] at hm
      cases hm

end Kahn
