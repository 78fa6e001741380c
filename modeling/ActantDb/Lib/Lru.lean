import Mathlib.Data.List.Dedup
import Mathlib.Data.List.Induction

/-!
# Bounded maps that drop what was used longest ago

The entries of such a map in the order of their last use. A map that has seen some operations holds, of the keys that they used, those that were used last, as many as it has room for (`run_keys`), each with the value that was put last (`run_lookup`).
-/

namespace Lru

variable {α β : Type*} [DecidableEq α]

inductive Op (α β : Type*) where
  | get (key : α)
  | put (key : α) (value : β)

abbrev Entries (α β : Type*) := List (α × β)

def keys (entries : Entries α β) : List α := entries.map Prod.fst

def lookup (entries : Entries α β) (key : α) : Option β := (entries.find? fun e => e.1 = key).map Prod.snd

/-- The entry is the one used last. -/
def use (entries : Entries α β) (key : α) (value : β) : Entries α β :=
  (entries.filter fun e => e.1 ≠ key) ++ [(key, value)]

/-- Room for one more entry. -/
def makeRoom (capacity : Nat) (entries : Entries α β) : Entries α β :=
  if entries.length < capacity then entries else entries.tail

def step (capacity : Nat) (entries : Entries α β) : Op α β → Entries α β
  | .get key => (lookup entries key).elim entries (use entries key)
  | .put key value => use (if (lookup entries key).isSome then entries else makeRoom capacity entries) key value

/-- What the operation is answered. -/
def reply (entries : Entries α β) : Op α β → Option β
  | .get key => lookup entries key
  | .put _ _ => none

/-- The key that the operation uses; reading what is not there is no use of it. -/
def used (entries : Entries α β) : Op α β → List α
  | .get key => if (lookup entries key).isSome then [key] else []
  | .put key _ => [key]

variable (capacity : Nat)

def run (ops : List (Op α β)) : Entries α β := ops.foldl (step capacity) []

/-- The keys that the operations use, one for each use, from the first on. -/
def uses : List (Op α β) → List α :=
  fun ops => (ops.foldl (fun s op => (step capacity s.1 op, s.2 ++ used s.1 op)) (([] : Entries α β), ([] : List α))).2

/-- The value that was put last under the key. -/
def lastPut (key : α) (ops : List (Op α β)) : Option β :=
  ops.reverse.findSome? fun
    | .put k v => if k = key then some v else none
    | .get _ => none

/-! ### One operation -/

section Step

variable {capacity} {entries : Entries α β} {key k : α} {value v : β} {op : Op α β}

theorem lookup_isSome : (lookup entries key).isSome = decide (key ∈ keys entries) := by
  rw [Bool.eq_iff_iff, decide_eq_true_eq]
  simp [lookup, keys]

theorem lookup_eq_none : lookup entries key = none ↔ key ∉ keys entries := by
  have h : (lookup entries key).isSome = decide (key ∈ keys entries) := lookup_isSome
  cases hl : lookup entries key <;> simp_all

theorem lookup_append {more : Entries α β} : lookup (entries ++ more) key = (lookup entries key).or (lookup more key) := by
  simp only [lookup, List.find?_append]
  cases entries.find? fun e => e.1 = key <;> rfl

theorem keys_filter : keys (entries.filter fun e => e.1 ≠ key) = (keys entries).filter (· ≠ key) := by
  rw [keys, keys, List.filter_map]
  rfl

theorem keys_use : keys (use entries key value) = (keys entries).filter (· ≠ key) ++ [key] := by
  rw [use, keys, List.map_append, ← keys, keys_filter]
  rfl

theorem lookup_use : lookup (use entries key value) k = if key = k then some value else lookup entries k := by
  rw [use, lookup_append]
  by_cases h : key = k
  · subst h
    have hnone : lookup (entries.filter fun e => e.1 ≠ key) key = none := by
      rw [lookup_eq_none, keys_filter]
      simp
    rw [hnone, if_pos rfl]
    simp [lookup]
  · have hsame : lookup (entries.filter fun e => e.1 ≠ key) k = lookup entries k := by
      simp only [lookup, List.find?_filter]
      congr 2
      funext e
      by_cases he : e.1 = k
      · simp [he, Ne.symm h]
      · simp [he]
    rw [hsame, if_neg h]
    simp [lookup, h]

omit [DecidableEq α] in
theorem makeRoom_suffix : makeRoom capacity entries <:+ entries := by
  rw [makeRoom]
  split
  · exact List.suffix_refl _
  · exact List.tail_suffix _

/-- What stands behind an entry in front says nothing of it, where no key occurs twice. -/
theorem lookup_suffix {rest : Entries α β} (hnodup : (keys entries).Nodup) (hsuffix : rest <:+ entries)
    (h : lookup rest key = some v) : lookup entries key = some v := by
  obtain ⟨front, rfl⟩ := hsuffix
  rw [lookup_append, h]
  have hin : key ∈ keys rest := by
    rw [← decide_eq_true_iff (p := key ∈ keys rest), ← lookup_isSome, h]
    rfl
  have hout : lookup front key = none := by
    rw [lookup_eq_none]
    rw [keys, List.map_append, List.nodup_append] at hnodup
    exact fun hfront => hnodup.2.2 _ hfront _ hin rfl
  rw [hout]
  rfl

end Step

/-! ### Runs -/

section Runs

variable {capacity} {ops : List (Op α β)} {op : Op α β} {key : α} {v : β}

@[simp] theorem run_nil : run capacity ([] : List (Op α β)) = [] := rfl

@[simp] theorem run_append : run capacity (ops ++ [op]) = step capacity (run capacity ops) op := by
  rw [run, run, List.foldl_append]
  rfl

theorem uses_append : uses capacity (ops ++ [op]) = uses capacity ops ++ used (run capacity ops) op := by
  have hstate (s : Entries α β) (us : List α) :
      (ops.foldl (fun s op => (step capacity s.1 op, s.2 ++ used s.1 op)) (s, us)).1 = ops.foldl (step capacity) s := by
    induction ops generalizing s us with
    | nil => rfl
    | cons o ops ih => exact ih _ _
  rw [uses, List.foldl_append]
  show _ ++ used _ op = _
  rw [hstate]
  rfl

theorem lastPut_append : lastPut key (ops ++ [op]) = match op with
    | .put k v => if k = key then some v else lastPut key ops
    | .get _ => lastPut key ops := by
  rw [lastPut, List.reverse_append, List.reverse_singleton, List.singleton_append, List.findSome?_cons]
  cases op with
  | get k => rfl
  | put k v =>
    by_cases h : k = key
    · simp [h]
    · simp [h, lastPut]

/-- The last use of a key is what counts. -/
theorem dedup_concat (l : List α) (k : α) : (l ++ [k]).dedup = l.dedup.filter (· ≠ k) ++ [k] := by
  induction l with
  | nil => simp
  | cons a l ih =>
    rw [List.cons_append]
    by_cases hk : a = k
    · subst hk
      by_cases ha : a ∈ l
      · rw [List.dedup_cons_of_mem (by simp), List.dedup_cons_of_mem ha, ih]
      · rw [List.dedup_cons_of_mem (by simp), List.dedup_cons_of_notMem ha, ih]
        simp
    · by_cases ha : a ∈ l
      · rw [List.dedup_cons_of_mem (by simp [ha]), List.dedup_cons_of_mem ha, ih]
      · rw [List.dedup_cons_of_notMem (by simp [ha, hk]), List.dedup_cons_of_notMem ha, ih]
        simp [hk]

theorem filter_ne {l : List α} (h : l.Nodup) (k : α) : l.filter (· ≠ k) = l.erase k := by
  rw [h.erase_eq_filter]
  congr 1
  funext a
  simp [bne, beq_eq_decide]

theorem length_dedup_concat (l : List α) (k : α) :
    (l ++ [k]).dedup.length = if k ∈ l then l.dedup.length else l.dedup.length + 1 := by
  rw [dedup_concat, List.length_append, List.length_singleton]
  by_cases h : k ∈ l
  · have herase : l.dedup.filter (· ≠ k) = l.dedup.erase k := filter_ne l.nodup_dedup k
    have hin : k ∈ l.dedup := List.mem_dedup.mpr h
    have hpos := List.length_pos_of_mem hin
    rw [herase, List.length_erase_of_mem hin, if_pos h]
    omega
  · have hsame : l.dedup.filter (· ≠ k) = l.dedup := by
      rw [List.filter_eq_self]
      intro a ha
      simpa using fun heq : a = k => h (heq ▸ List.mem_dedup.mp ha)
    rw [hsame, if_neg h]

/-- The entries are those of the keys used last, in the order of their last use, and as many as there is room for. -/
structure Recent (capacity : Nat) (entries : Entries α β) (us : List α) : Prop where
  suffix : keys entries <:+ us.dedup
  length : entries.length = min capacity us.dedup.length

theorem Recent.nodup {entries : Entries α β} {us : List α} (h : Recent capacity entries us) : (keys entries).Nodup :=
  h.suffix.sublist.nodup us.nodup_dedup

omit [DecidableEq α] in
theorem length_keys (entries : Entries α β) : (keys entries).length = entries.length := List.length_map _

/-- The keys that are left when one more is used. -/
theorem Recent.use {entries : Entries α β} {us : List α} {key : α} {value : β}
    (h : Recent capacity entries us) (hkey : key ∈ keys entries) : Recent capacity (use entries key value) (us ++ [key]) where
  suffix := by
    obtain ⟨front, hfront⟩ := h.suffix
    refine ⟨front.filter (· ≠ key), ?_⟩
    rw [keys_use, dedup_concat, ← hfront, List.filter_append, List.append_assoc]
  length := by
    have hmem : key ∈ us := List.mem_dedup.mp (h.suffix.subset hkey)
    have hnodup := h.nodup
    have herase := filter_ne hnodup key
    have hpos := List.length_pos_of_mem hkey
    rw [length_dedup_concat, if_pos hmem, ← h.length, ← length_keys, keys_use, herase, List.length_append,
      List.length_erase_of_mem hkey, ← length_keys entries, List.length_singleton]
    omega

theorem Recent.put {entries : Entries α β} {us : List α} {key : α} {value : β} (hcapacity : 0 < capacity)
    (h : Recent capacity entries us) (hkey : key ∉ keys entries) :
    Recent capacity (Lru.use (makeRoom capacity entries) key value) (us ++ [key]) where
  suffix := by
    have hroom : keys (makeRoom capacity entries) <:+ us.dedup := (List.IsSuffix.map Prod.fst makeRoom_suffix).trans h.suffix
    obtain ⟨front, hfront⟩ := hroom
    refine ⟨front.filter (· ≠ key), ?_⟩
    rw [keys_use, dedup_concat, ← hfront, List.filter_append, List.append_assoc]
  length := by
    have hout : key ∉ keys (makeRoom capacity entries) := fun hin => hkey ((List.IsSuffix.map Prod.fst makeRoom_suffix).subset hin)
    have hsame : (keys (makeRoom capacity entries)).filter (· ≠ key) = keys (makeRoom capacity entries) := by
      rw [List.filter_eq_self]
      intro a ha
      simpa using fun heq : a = key => hout (heq ▸ ha)
    have hlength := h.length
    rw [length_dedup_concat, ← length_keys, keys_use, hsame, List.length_append, List.length_singleton, length_keys, makeRoom]
    by_cases hroom : entries.length < capacity
    · -- every key that was used is still there
      have hall : keys entries = us.dedup := h.suffix.eq_of_length (by rw [length_keys]; omega)
      have hnew : key ∉ us := fun hin => hkey (hall ▸ List.mem_dedup.mpr hin)
      rw [if_pos hroom, if_neg hnew]
      omega
    · rw [if_neg hroom, List.length_tail]
      split <;> omega

/-- The values are those that were put last. -/
def Current (entries : Entries α β) (ops : List (Op α β)) : Prop :=
  ∀ key v, lookup entries key = some v → lastPut key ops = some v

theorem run_recent (hcapacity : 0 < capacity) (ops : List (Op α β)) :
    Recent capacity (run capacity ops) (uses capacity ops) := by
  induction ops using List.reverseRecOn with
  | nil => exact ⟨List.suffix_refl _, by simp [uses]⟩
  | append_singleton ops op ih =>
    rw [run_append, uses_append]
    cases op with
    | get key =>
      cases hl : lookup (run capacity ops) key with
      | none => simpa [step, used, hl] using ih
      | some v =>
        have hkey : key ∈ keys (run capacity ops) := by
          rw [← decide_eq_true_iff (p := key ∈ _), ← lookup_isSome, hl]
          rfl
        simpa [step, used, hl] using ih.use hkey
    | put key value =>
      rw [step, lookup_isSome]
      by_cases hkey : key ∈ keys (run capacity ops)
      · simpa [used, hkey] using ih.use hkey
      · simpa [used, hkey] using ih.put hcapacity hkey

theorem run_current (hcapacity : 0 < capacity) (ops : List (Op α β)) : Current (run capacity ops) ops := by
  induction ops using List.reverseRecOn with
  | nil => exact fun key v h => by cases h
  | append_singleton ops op ih =>
    have hnodup := (run_recent hcapacity ops).nodup
    intro k v h
    rw [run_append] at h
    rw [lastPut_append]
    cases op with
    | get key =>
      cases hl : lookup (run capacity ops) key with
      | none => exact ih k v (by simpa [step, hl] using h)
      | some w =>
        simp only [step, hl, Option.elim_some, lookup_use] at h
        split at h
        · rename_i heq
          exact ih k v (by rw [← heq, hl, h])
        · exact ih k v h
    | put key value =>
      dsimp only
      rw [step, lookup_use] at h
      split at h
      · rename_i heq
        simp [heq, h]
      · rename_i hne
        rw [if_neg hne]
        split at h
        · exact ih k v h
        · exact ih k v (lookup_suffix hnodup makeRoom_suffix h)

/-- **What is held** are the keys used last, in the order of their last use. -/
theorem run_keys (hcapacity : 0 < capacity) (ops : List (Op α β)) :
    keys (run capacity ops) = (uses capacity ops).dedup.drop ((uses capacity ops).dedup.length - capacity) := by
  have h := run_recent hcapacity ops
  have hlength := h.length
  rw [List.suffix_iff_eq_drop.mp h.suffix, length_keys]
  congr 1
  omega

/-- **What is read** is the value that was put last, unless the key has been dropped. -/
theorem run_lookup (hcapacity : 0 < capacity) (ops : List (Op α β)) (key : α) :
    lookup (run capacity ops) key = if key ∈ keys (run capacity ops) then lastPut key ops else none := by
  cases hl : lookup (run capacity ops) key with
  | none => rw [if_neg (lookup_eq_none.mp hl)]
  | some v =>
    have hin : key ∈ keys (run capacity ops) := by
      rw [← decide_eq_true_iff (p := key ∈ _), ← lookup_isSome, hl]
      rfl
    rw [if_pos hin, run_current hcapacity ops key v hl]

end Runs

end Lru
