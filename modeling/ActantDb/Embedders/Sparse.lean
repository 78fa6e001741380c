import Mathlib.Algebra.Ring.Int.Defs
import ActantDb.Core.Hash
import ActantDb.Lib.SparseDot
import ActantDb.Lib.Utf8
import ActantDb.Lib.Words

/-!
# Sparse vectors

A sparse vector is a list of indices with a list of values beside it. `dot` walks two of them with a cursor each. On vectors whose indices increase strictly, and whose two lists are aligned, it does not run past the values and returns the sum over the common indices. The encoder's vectors are such: the term counts are kept by token id, one entry each, and sorted by it.
-/

namespace ActantDb.Embedders

open SparseDot

universe u v

scoped instance linearOrderUInt32 : LinearOrder UInt32 where
  le_refl _ := UInt32.le_refl _
  le_trans _ _ _ := UInt32.le_trans
  le_antisymm _ _ := UInt32.le_antisymm
  le_total := UInt32.le_total
  lt_iff_le_not_ge a b := by
    rw [UInt32.lt_iff_toNat_lt, UInt32.le_iff_toNat_le, UInt32.le_iff_toNat_le]
    omega
  toDecidableLE := inferInstance
  toDecidableLT := inferInstance
  toDecidableEq := inferInstance

/-! ### The vectors -/

structure SparseVector (R : Type*) where
  indices : List UInt32
  values : List R

variable {R : Type*}

def SparseVector.empty : SparseVector R := ⟨[], []⟩

namespace SparseVector

def pairs (v : SparseVector R) : List (UInt32 × R) := v.indices.zip v.values

/-- One value for each index, and the indices strictly increasing. -/
structure Sorted (v : SparseVector R) : Prop where
  aligned : v.indices.length = v.values.length
  increasing : v.indices.Pairwise (· < ·)

theorem Sorted.keys_pairs {v : SparseVector R} (h : v.Sorted) : keys v.pairs = v.indices :=
  List.map_fst_zip h.aligned.le

theorem Sorted.length_pairs {v : SparseVector R} (h : v.Sorted) : v.pairs.length = v.indices.length := by
  rw [← h.keys_pairs, keys, List.length_map]

theorem Sorted.drop {v : SparseVector R} (h : v.Sorted) (i : ℕ) : Increasing (v.pairs.drop i) := by
  rw [Increasing, keys, List.map_drop, ← keys, h.keys_pairs]
  exact h.increasing.sublist (List.drop_sublist i _)

/-- The value at an index, zero where the vector has none. -/
def weight [Zero R] (v : SparseVector R) (k : UInt32) : R := valueAt v.pairs k

theorem Sorted.drop_pairs {v : SparseVector R} (h : v.Sorted) {i : ℕ} (hi : i < v.indices.length) :
    ∃ x, v.values[i]? = some x ∧ v.pairs.drop i = (v.indices[i], x) :: v.pairs.drop (i + 1) := by
  have hvalues : i < v.values.length := h.aligned ▸ hi
  have hpairs : i < v.pairs.length := h.length_pairs ▸ hi
  refine ⟨v.values[i], List.getElem?_eq_getElem hvalues, ?_⟩
  rw [List.drop_eq_getElem_cons hpairs]
  congr 1
  exact List.getElem_zip

/-! ### The dot product -/

variable [CommRing R]

/-- The loop; `none` where it reads a value that is not there. -/
def dotLoop (a b : SparseVector R) (i j : ℕ) (acc : R) : Option R :=
  if h : i < a.indices.length ∧ j < b.indices.length then
    match compare a.indices[i] b.indices[j] with
    | .lt => dotLoop a b (i + 1) j acc
    | .gt => dotLoop a b i (j + 1) acc
    | .eq =>
      match a.values[i]?, b.values[j]? with
      | some x, some y => dotLoop a b (i + 1) (j + 1) (acc + x * y)
      | _, _ => none
  else some acc
termination_by (a.indices.length - i) + (b.indices.length - j)

def dot (a b : SparseVector R) : Option R := dotLoop a b 0 0 0

/-- **The loop is a merge** of what the cursors have before them. -/
theorem dotLoop_eq {a b : SparseVector R} (ha : a.Sorted) (hb : b.Sorted) (i j : ℕ) (acc : R) :
    dotLoop a b i j acc = some (merge acc (a.pairs.drop i) (b.pairs.drop j)) := by
  induction i, j, acc using dotLoop.induct a b with
  | case1 i j acc h hcmp ih =>
    obtain ⟨x, -, hx⟩ := ha.drop_pairs h.1
    obtain ⟨y, -, hy⟩ := hb.drop_pairs h.2
    rw [dotLoop, dif_pos h, hcmp, hx, hy, merge, hcmp, ← hy]
    exact ih
  | case2 i j acc h hcmp ih =>
    obtain ⟨x, -, hx⟩ := ha.drop_pairs h.1
    obtain ⟨y, -, hy⟩ := hb.drop_pairs h.2
    rw [dotLoop, dif_pos h, hcmp, hx, hy, merge, hcmp, ← hx]
    exact ih
  | case3 i j acc h hcmp x y hvy hvx ih =>
    obtain ⟨x', hx', hx⟩ := ha.drop_pairs h.1
    obtain ⟨y', hy', hy⟩ := hb.drop_pairs h.2
    obtain rfl : x = x' := Option.some.inj (hvx.symm.trans hx')
    obtain rfl : y = y' := Option.some.inj (hvy.symm.trans hy')
    rw [dotLoop, dif_pos h, hcmp, hvx, hvy, hx, hy, merge, hcmp]
    exact ih
  | case4 i j acc h hcmp hnone =>
    obtain ⟨x, hx, -⟩ := ha.drop_pairs h.1
    obtain ⟨y, hy, -⟩ := hb.drop_pairs h.2
    exact absurd hy (hnone x y hx)
  | case5 i j acc h =>
    rw [dotLoop, dif_neg h]
    rcases not_and_or.mp h with hi | hj
    · rw [List.drop_eq_nil_of_le (ha.length_pairs.trans_le (not_lt.mp hi)), merge]
    · rw [List.drop_eq_nil_of_le (hb.length_pairs.trans_le (not_lt.mp hj))]
      cases a.pairs.drop i <;> simp [merge]

end SparseVector

/-! ### The encoder -/

/-- What the standard library knows of letters. -/
structure Unicode where
  isAlphanumeric : Char → Bool
  toLowercase : List Char → List Char

/-- The single-precision operations of a weight. -/
structure Arithmetic (F : Type*) where
  ofNat : ℕ → F
  half : F
  add : F → F → F
  sub : F → F → F
  mul : F → F → F
  div : F → F → F
  ln : F → F
  /-- `> 0.0` -/
  pos : F → Bool

/-- An order in which a hash table yields its entries. -/
structure IterationOrder where
  visit : List (UInt32 × UInt32) → List (UInt32 × UInt32)
  perm : ∀ entries, (visit entries).Perm entries

structure Bm25Encoder (F : Type*) where
  k1 : F
  b : F
  df : UInt32 → Option UInt32
  nDocs : UInt32
  avgdl : F

def trimMatches (p : Char → Bool) (t : List Char) : List Char :=
  ((t.dropWhile p).reverse.dropWhile p).reverse

def tokenize (unicode : Unicode) (text : List Char) : List (List Char) :=
  ((Words.words isWhitespace text).map fun t =>
    unicode.toLowercase (trimMatches (fun c => !unicode.isAlphanumeric c) t)).filter fun s => !s.isEmpty

/-- FNV-1a. -/
def tokenId (tok : List Char) : UInt32 :=
  (Utf8.encode tok).foldl (fun hash b => (hash ^^^ b.toUInt32) * 0x01000193) 0x811c9dc5

/-- `*entry(id).or_insert(0) += 1` -/
def countOne (tf : List (UInt32 × UInt32)) (id : UInt32) : List (UInt32 × UInt32) :=
  if id ∈ keys tf then tf.map fun e => if e.1 = id then (e.1, e.2 + 1) else e else tf ++ [(id, 1)]

def termFrequencies (tokens : List (List Char)) : List (UInt32 × UInt32) :=
  tokens.foldl (fun tf tok => countOne tf (tokenId tok)) []

section Encode

variable {F : Type*} (ops : Arithmetic F) (unicode : Unicode) (order : IterationOrder) (enc : Bm25Encoder F)

def idf (tokId : UInt32) : F :=
  let df := ops.ofNat ((enc.df tokId).getD 0).toNat
  let n := ops.ofNat enc.nDocs.toNat
  ops.ln (ops.add (ops.div (ops.add (ops.sub n df) ops.half) (ops.add df ops.half)) (ops.ofNat 1))

def termWeight (dl avgdl : F) (id count : UInt32) : F :=
  let f := ops.ofNat count.toNat
  let denom := ops.add f (ops.mul enc.k1 (ops.add (ops.sub (ops.ofNat 1) enc.b) (ops.mul enc.b (ops.div dl avgdl))))
  let numer := ops.mul f (ops.add enc.k1 (ops.ofNat 1))
  if ops.pos denom then ops.mul (idf ops enc id) (ops.div numer denom) else ops.ofNat 0

def encode (text : List Char) : SparseVector F :=
  let tokens := tokenize unicode text
  if tokens.isEmpty then SparseVector.empty
  else
    let dl := ops.ofNat tokens.length
    let avgdl := if ops.pos enc.avgdl then enc.avgdl else dl
    let pairs := (order.visit (termFrequencies tokens)).map fun e => (e.1, termWeight ops enc dl avgdl e.1 e.2)
    let sorted := pairs.mergeSort fun p q => p.1 ≤ q.1
    ⟨sorted.map Prod.fst, sorted.map Prod.snd⟩

theorem keys_countOne (tf : List (UInt32 × UInt32)) (id : UInt32) :
    keys (countOne tf id) = if id ∈ keys tf then keys tf else keys tf ++ [id] := by
  unfold countOne
  split
  · rw [keys, List.map_map, keys]
    refine List.map_congr_left fun e _ => ?_
    simp only [Function.comp_apply]
    split <;> rfl
  · rw [keys, List.map_append, keys]
    rfl

/-- Each token id is counted in one entry. -/
theorem nodup_termFrequencies (tokens : List (List Char)) : (keys (termFrequencies tokens)).Nodup := by
  induction tokens using List.reverseRecOn with
  | nil => exact List.nodup_nil
  | append_singleton tokens tok ih =>
    have hstep : termFrequencies (tokens ++ [tok]) = countOne (termFrequencies tokens) (tokenId tok) := by
      rw [termFrequencies, List.foldl_append, List.foldl_cons, List.foldl_nil, termFrequencies]
    rw [hstep, keys_countOne]
    split
    · exact ih
    · next hfresh => exact ih.append (List.nodup_singleton _) (by simpa using hfresh)

/-- Sorting entries of distinct keys puts them in strict order. -/
theorem increasing_mergeSort {R : Type*} {pairs : List (UInt32 × R)} (h : (keys pairs).Nodup) :
    Increasing (pairs.mergeSort fun p q => p.1 ≤ q.1) := by
  have hperm := List.mergeSort_perm pairs fun p q => decide (p.1 ≤ q.1)
  have hnodup : (keys (pairs.mergeSort fun p q => p.1 ≤ q.1)).Nodup := (hperm.map Prod.fst).nodup_iff.mpr h
  have hsorted : (pairs.mergeSort fun p q => p.1 ≤ q.1).Pairwise fun p q => p.1 ≤ q.1 := by
    have htrans : ∀ p q r : UInt32 × R, decide (p.1 ≤ q.1) = true → decide (q.1 ≤ r.1) = true → decide (p.1 ≤ r.1) = true :=
      fun p q r hpq hqr => by simpa using le_trans (of_decide_eq_true hpq) (of_decide_eq_true hqr)
    have htotal : ∀ p q : UInt32 × R, (decide (p.1 ≤ q.1) || decide (q.1 ≤ p.1)) = true :=
      fun p q => by simpa using le_total p.1 q.1
    exact (List.pairwise_mergeSort htrans htotal pairs).imp fun hle => of_decide_eq_true hle
  have hkeys : (keys (pairs.mergeSort fun p q => p.1 ≤ q.1)).Pairwise (· ≤ ·) := List.pairwise_map.mpr hsorted
  exact (hkeys.and hnodup).imp fun ⟨hle, hne⟩ => lt_of_le_of_ne hle hne

/-- **What the encoder returns is sorted,** whatever the text, the state of the encoder and the order of its hash tables. -/
theorem sorted_encode (text : List Char) : (encode ops unicode order enc text).Sorted := by
  unfold encode
  extract_lets tokens dl avgdl pairs sorted
  split
  · exact ⟨rfl, List.Pairwise.nil⟩
  · have hentries : (keys (order.visit (termFrequencies tokens))).Nodup :=
      ((order.perm _).map Prod.fst).nodup_iff.mpr (nodup_termFrequencies tokens)
    have hpairs : (keys pairs).Nodup := by
      rw [keys, List.map_map]
      exact hentries
    exact ⟨by simp, increasing_mergeSort hpairs⟩

end Encode

/-- **The dot product of sorted vectors** is the sum over the common indices of the products of their values, and the encoder's vectors are sorted. -/
theorem dot_eq_sum_and_sorted_encode :
    (∀ (R : Type u) [CommRing R] (a b : SparseVector R), a.Sorted → b.Sorted →
      a.dot b = some (∑ k ∈ a.indices.toFinset ∩ b.indices.toFinset, a.weight k * b.weight k))
    ∧ ∀ (F : Type v) (ops : Arithmetic F) (unicode : Unicode) (order : IterationOrder) (enc : Bm25Encoder F) (text : List Char),
      (encode ops unicode order enc text).Sorted := by
  refine ⟨fun R _ a b ha hb => ?_, fun F ops unicode order enc text => sorted_encode ops unicode order enc text⟩
  have hmerge := SparseVector.dotLoop_eq ha hb 0 0 0
  rw [List.drop_zero, List.drop_zero, merge_eq 0 (by simpa using ha.drop 0) (by simpa using hb.drop 0), zero_add] at hmerge
  rw [SparseVector.dot, hmerge, product, common, ha.keys_pairs, hb.keys_pairs]
  rfl

theorem dot_eq_sum_two_common : SparseVector.dot (⟨[1, 3, 9], [2, 5, 1]⟩ : SparseVector ℤ) ⟨[3, 4, 9], [7, 1, 2]⟩ = some 37 := by
  have hsum := dot_eq_sum_and_sorted_encode.{0, 0}.1 ℤ ⟨[1, 3, 9], [2, 5, 1]⟩ ⟨[3, 4, 9], [7, 1, 2]⟩
    ⟨rfl, by decide⟩ ⟨rfl, by decide⟩
  rw [hsum]
  decide

end ActantDb.Embedders
