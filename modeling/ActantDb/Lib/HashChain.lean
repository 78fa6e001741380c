import Mathlib.Data.List.Basic

/-!
# Hash chains

A chain over a list: the hash of each entry is computed from the hash of the entry before it, the first from a given root. What a chain is good for, that no two entries follow the same one, holds as far as the link function has no collisions on the hashes the chain itself contains.
-/

namespace HashChain

variable {α H : Type*} (link : H → α → H) (hash : α → H)

/-- Each entry's hash is linked from the hash before it, the first entry's from `root`. -/
def Linked : H → List α → Prop
  | _, [] => True
  | root, a :: rest => hash a = link root a ∧ Linked (hash a) rest

instance decidableLinked [DecidableEq H] : ∀ root l, Decidable (Linked link hash root l)
  | _, [] => instDecidableTrue
  | root, a :: rest =>
    have := decidableLinked (hash a) rest
    inferInstanceAs (Decidable (hash a = link root a ∧ Linked link hash (hash a) rest))

/-- The hash the next entry is to be linked from. -/
def tip (root : H) (l : List α) : H := (l.getLast?.map hash).getD root

/-- The hashes an entry of `l` may be linked from. -/
def Predecessor (root : H) (l : List α) (h : H) : Prop := h = root ∨ ∃ a ∈ l, hash a = h

/-- On the chain's own hashes and entries the link function has no collision and never gives the root. -/
structure CollisionFree (root : H) (l : List α) : Prop where
  injective : ∀ a ∈ l, ∀ b ∈ l, ∀ g h, Predecessor hash root l g → Predecessor hash root l h →
    link g a = link h b → g = h
  fresh : ∀ a ∈ l, ∀ h, Predecessor hash root l h → link h a ≠ root

/-- No two entries are linked from the same hash. -/
def NoFork (root : H) (l : List α) : Prop :=
  ∀ a ∈ l, ∀ b ∈ l, ∀ h, Predecessor hash root l h → hash a = link h a → hash b = link h b → a = b

variable {link hash} {root : H} {l : List α}

@[simp] theorem linked_nil : Linked link hash root [] := trivial

theorem linked_append_singleton {a : α} :
    Linked link hash root (l ++ [a]) ↔
      Linked link hash root l ∧ hash a = link (tip hash root l) a := by
  induction l generalizing root with
  | nil => simp [Linked, tip]
  | cons b rest ih =>
    have htip : tip hash root (b :: rest) = tip hash (hash b) rest := by
      cases h : rest.getLast? with
      | none =>
        rw [List.getLast?_eq_none_iff] at h
        simp [tip, h]
      | some c => simp [tip, List.getLast?_cons, h]
    rw [List.cons_append, Linked, Linked, ih, htip, and_assoc]

/-- The entry at position `k` is linked from the hash at position `k` of the root and the hashes. -/
theorem Linked.predecessor (hlinked : Linked link hash root l) {k : Nat} {a : α}
    (hk : l[k]? = some a) : ∃ g, (root :: l.map hash)[k]? = some g ∧ hash a = link g a := by
  induction l generalizing root k with
  | nil => simp at hk
  | cons b rest ih =>
    cases k with
    | zero =>
      rw [List.getElem?_cons_zero, Option.some_inj] at hk
      exact ⟨root, rfl, hk ▸ hlinked.1⟩
    | succ k =>
      rw [List.getElem?_cons_succ] at hk
      exact ih hlinked.2 hk

theorem predecessor_of_getElem? {k : Nat} {g : H} (hk : (root :: l.map hash)[k]? = some g) :
    Predecessor hash root l g := by
  have hmem := List.mem_of_getElem? hk
  rw [List.mem_cons, List.mem_map] at hmem
  exact hmem

/-- The root and the hashes of a collision-free chain are pairwise distinct. -/
theorem Linked.hash_ne (hlinked : Linked link hash root l) (hfree : CollisionFree link hash root l)
    {i j : Nat} {g : H} (hij : i < j) (hi : (root :: l.map hash)[i]? = some g)
    (hj : (root :: l.map hash)[j]? = some g) : False := by
  induction i generalizing j g with
  | zero =>
    obtain ⟨j, rfl⟩ : ∃ j', j = j' + 1 := ⟨j - 1, by omega⟩
    rw [List.getElem?_cons_succ, List.getElem?_map, Option.map_eq_some_iff] at hj
    obtain ⟨b, hb, hbg⟩ := hj
    obtain ⟨gb, hgb, hlink⟩ := hlinked.predecessor hb
    rw [List.getElem?_cons_zero, Option.some_inj] at hi
    refine hfree.fresh b (List.mem_of_getElem? hb) gb (predecessor_of_getElem? hgb) ?_
    rw [← hlink, hbg, hi]
  | succ i ih =>
    -- equal hashes at two positions were linked from equal hashes one position earlier
    obtain ⟨j, rfl⟩ : ∃ j', j = j' + 1 := ⟨j - 1, by omega⟩
    rw [List.getElem?_cons_succ, List.getElem?_map, Option.map_eq_some_iff] at hi hj
    obtain ⟨a, ha, hag⟩ := hi
    obtain ⟨b, hb, hbg⟩ := hj
    obtain ⟨ga, hga, hlinka⟩ := hlinked.predecessor ha
    obtain ⟨gb, hgb, hlinkb⟩ := hlinked.predecessor hb
    have hsame : ga = gb :=
      hfree.injective a (List.mem_of_getElem? ha) b (List.mem_of_getElem? hb) ga gb
        (predecessor_of_getElem? hga) (predecessor_of_getElem? hgb)
        (by rw [← hlinka, ← hlinkb, hag, hbg])
    exact ih (by omega) hga (hsame ▸ hgb)

/-- A chain without collisions never forks. -/
theorem Linked.noFork (hlinked : Linked link hash root l) (hfree : CollisionFree link hash root l) :
    NoFork link hash root l := by
  intro a ha b hb h hh hlinka hlinkb
  obtain ⟨i, hi⟩ := List.mem_iff_getElem?.mp ha
  obtain ⟨j, hj⟩ := List.mem_iff_getElem?.mp hb
  obtain ⟨ga, hga, ha'⟩ := hlinked.predecessor hi
  obtain ⟨gb, hgb, hb'⟩ := hlinked.predecessor hj
  have hgah : ga = h :=
    hfree.injective a ha a ha ga h (predecessor_of_getElem? hga) hh (by rw [← ha', hlinka])
  have hgbh : gb = h :=
    hfree.injective b hb b hb gb h (predecessor_of_getElem? hgb) hh (by rw [← hb', hlinkb])
  subst hgah
  subst hgbh
  rcases Nat.lt_trichotomy i j with hij | hij | hij
  · exact (hlinked.hash_ne hfree hij hga hgb).elim
  · rw [hij, hj, Option.some_inj] at hi
    exact hi.symm
  · exact (hlinked.hash_ne hfree hij hgb hga).elim

end HashChain
