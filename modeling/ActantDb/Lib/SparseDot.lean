import Mathlib.Algebra.BigOperators.Group.Finset.Basic
import Mathlib.Algebra.Ring.Defs
import Mathlib.Data.List.Sort
import Mathlib.Order.Compare

/-!
# Dot products by merging

Two lists of entries, each with its indices in strictly increasing order, are merged with one cursor in each; the values of equal indices are multiplied and added up. The result is the sum over the common indices (`merge_eq`): an index that a cursor leaves behind is below all that the other cursor has before it.
-/

namespace ActantDb.SparseDot

variable {ι R : Type*}

def keys (xs : List (ι × R)) : List ι := xs.map Prod.fst

section Values

variable [DecidableEq ι] [Zero R]

/-- The value at an index, zero where there is none. -/
def valueAt (xs : List (ι × R)) (i : ι) : R := (xs.lookup i).getD 0

theorem valueAt_cons_self (i : ι) (x : R) (xs : List (ι × R)) : valueAt ((i, x) :: xs) i = x := by
  rw [valueAt, List.lookup_cons_self, Option.getD_some]

theorem valueAt_cons_of_ne {i k : ι} (h : k ≠ i) (x : R) (xs : List (ι × R)) : valueAt ((i, x) :: xs) k = valueAt xs k := by
  rw [valueAt, List.lookup_cons, beq_eq_false_iff_ne.mpr h, valueAt]

end Values

variable [LinearOrder ι]

def Increasing (xs : List (ι × R)) : Prop := (keys xs).Pairwise (· < ·)

theorem lt_of_mem_tail {i : ι} {x : R} {xs : List (ι × R)} (h : Increasing ((i, x) :: xs)) {k : ι} (hk : k ∈ keys xs) :
    i < k := List.rel_of_pairwise_cons h hk

theorem Increasing.tail {p : ι × R} {xs : List (ι × R)} (h : Increasing (p :: xs)) : Increasing xs := List.Pairwise.of_cons h

theorem Increasing.le_of_mem {i : ι} {x : R} {xs : List (ι × R)} (h : Increasing ((i, x) :: xs)) {k : ι}
    (hk : k ∈ keys ((i, x) :: xs)) : i ≤ k := by
  rcases List.mem_cons.mp hk with rfl | hk
  · exact le_rfl
  · exact (lt_of_mem_tail h hk).le

def common (xs ys : List (ι × R)) : Finset ι := (keys xs).toFinset ∩ (keys ys).toFinset

theorem mem_common {xs ys : List (ι × R)} {k : ι} : k ∈ common xs ys ↔ k ∈ keys xs ∧ k ∈ keys ys := by
  simp [common]

variable [CommRing R]

/-- The merge, with what has been added up so far. -/
def merge (acc : R) : List (ι × R) → List (ι × R) → R
  | (i, x) :: xs, (j, y) :: ys =>
    match compare i j with
    | .lt => merge acc xs ((j, y) :: ys)
    | .gt => merge acc ((i, x) :: xs) ys
    | .eq => merge (acc + x * y) xs ys
  | [], _ => acc
  | _, [] => acc
termination_by xs ys => xs.length + ys.length

/-- What the merge is to compute. -/
def product (xs ys : List (ι × R)) : R := ∑ k ∈ common xs ys, valueAt xs k * valueAt ys k

theorem product_comm (xs ys : List (ι × R)) : product xs ys = product ys xs := by
  rw [product, product, common, common, Finset.inter_comm]
  exact Finset.sum_congr rfl fun k _ => mul_comm _ _

/-- An index that the other list is beyond adds nothing. -/
theorem product_cons_of_notMem {i : ι} (x : R) {xs ys : List (ι × R)} (h : i ∉ keys ys) :
    product ((i, x) :: xs) ys = product xs ys := by
  have hcommon : common ((i, x) :: xs) ys = common xs ys := by
    ext k
    simp only [mem_common, keys, List.map_cons, List.mem_cons]
    constructor
    · rintro ⟨rfl | hk, hy⟩
      · exact absurd hy h
      · exact ⟨hk, hy⟩
    · exact fun hk => ⟨.inr hk.1, hk.2⟩
  rw [product, hcommon]
  refine Finset.sum_congr rfl fun k hk => ?_
  have hne : k ≠ i := fun heq => h (heq ▸ (mem_common.mp hk).2)
  rw [valueAt_cons_of_ne hne]

/-- A common first index adds the product of its values. -/
theorem product_cons_cons {i : ι} {x y : R} {xs ys : List (ι × R)} (hx : i ∉ keys xs) (hy : i ∉ keys ys) :
    product ((i, x) :: xs) ((i, y) :: ys) = x * y + product xs ys := by
  have hcommon : common ((i, x) :: xs) ((i, y) :: ys) = insert i (common xs ys) := by
    ext k
    simp only [mem_common, keys, List.map_cons, List.mem_cons, Finset.mem_insert]
    constructor
    · rintro ⟨heq | hk, heq' | hk'⟩
      · exact .inl heq
      · exact .inl heq
      · exact .inl heq'
      · exact .inr ⟨hk, hk'⟩
    · rintro (rfl | hk)
      · exact ⟨.inl rfl, .inl rfl⟩
      · exact ⟨.inr hk.1, .inr hk.2⟩
  have hfresh : i ∉ common xs ys := fun h => hx (mem_common.mp h).1
  rw [product, hcommon, Finset.sum_insert hfresh, valueAt_cons_self, valueAt_cons_self]
  congr 1
  refine Finset.sum_congr rfl fun k hk => ?_
  have hne : k ≠ i := fun heq => hfresh (heq ▸ hk)
  rw [valueAt_cons_of_ne hne, valueAt_cons_of_ne hne]

theorem product_nil_left (ys : List (ι × R)) : product [] ys = 0 := by
  have hcommon : common ([] : List (ι × R)) ys = ∅ := by simp [common, keys]
  rw [product, hcommon, Finset.sum_empty]

/-- **The merge adds the sum over the common indices.** -/
theorem merge_eq (acc : R) {xs ys : List (ι × R)} (hx : Increasing xs) (hy : Increasing ys) :
    merge acc xs ys = acc + product xs ys := by
  induction acc, xs, ys using merge.induct with
  | case1 acc i x xs j y ys hcmp ih =>
    have hlt : i < j := compare_lt_iff_lt.mp hcmp
    have hskip : i ∉ keys ((j, y) :: ys) := fun hmem => absurd (hy.le_of_mem hmem) (not_le.mpr hlt)
    rw [merge, hcmp, ih hx.tail hy, product_cons_of_notMem x hskip]
  | case2 acc i x xs j y ys hcmp ih =>
    have hlt : j < i := compare_gt_iff_gt.mp hcmp
    have hskip : j ∉ keys ((i, x) :: xs) := fun hmem => absurd (hx.le_of_mem hmem) (not_le.mpr hlt)
    rw [merge, hcmp, ih hx hy.tail, product_comm _ ((j, y) :: ys), product_cons_of_notMem y hskip, product_comm ys]
  | case3 acc i x xs j y ys hcmp ih =>
    obtain rfl : i = j := compare_eq_iff_eq.mp hcmp
    have hfreshx : i ∉ keys xs := fun hmem => lt_irrefl _ (lt_of_mem_tail hx hmem)
    have hfreshy : i ∉ keys ys := fun hmem => lt_irrefl _ (lt_of_mem_tail hy hmem)
    rw [merge, hcmp, ih hx.tail hy.tail, product_cons_cons hfreshx hfreshy, add_assoc]
  | case4 acc ys => rw [merge, product_nil_left, add_zero]
  | case5 acc xs hne =>
    cases xs with
    | nil => exact absurd rfl hne
    | cons p xs =>
      rw [merge, product_comm, product_nil_left, add_zero]
      exact hne

end ActantDb.SparseDot
