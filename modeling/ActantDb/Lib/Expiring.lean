import Mathlib.Data.List.Nodup

/-!
# Values that go stale

A small cache keeps one value for each key with the time it was put there. A value is handed out as long as it is younger than the time to live, and whoever puts a new one replaces the old. So from the moment a value is put until it goes stale the key is answered, with that value or with one put later (`hit_of_newer`).
-/

/-- A value and the time it was put under its key. -/
structure Dated (κ α : Type*) where
  key : κ
  value : α
  since : Nat

structure Expiring (κ α : Type*) where
  entries : List (Dated κ α)
  distinct : (entries.map (·.key)).Nodup

namespace Expiring

variable {κ α : Type*}

def empty : Expiring κ α := ⟨[], List.nodup_nil⟩

variable [DecidableEq κ]

def find? (c : Expiring κ α) (k : κ) : Option (Dated κ α) := c.entries.find? fun e => e.key = k

/-- What is handed out for a key. -/
def hit (c : Expiring κ α) (ttl now : Nat) (k : κ) : Option α :=
  match c.find? k with
  | some e => if now - e.since < ttl then some e.value else none
  | none => none

/-- The other entries stay, and the new one goes to their end. -/
def put (c : Expiring κ α) (k : κ) (v : α) (now : Nat) : Expiring κ α where
  entries := c.entries.filter (fun e => e.key ≠ k) ++ [⟨k, v, now⟩]
  distinct := by
    rw [List.map_append, List.nodup_append]
    refine ⟨c.distinct.sublist (List.filter_sublist.map _), List.nodup_singleton _, ?_⟩
    intro k' hk' k'' hk''
    obtain ⟨e, he, rfl⟩ := List.mem_map.mp hk'
    rw [List.mem_singleton.mp hk'']
    exact of_decide_eq_true (List.mem_filter.mp he).2

variable {c c' : Expiring κ α} {k : κ} {v : α} {now : Nat} {e : Dated κ α}

@[simp] theorem find?_empty : (empty : Expiring κ α).find? k = none := rfl

theorem key_of_find? (h : c.find? k = some e) : e.key = k := by
  simpa using List.find?_some h

theorem mem_of_find? (h : c.find? k = some e) : e ∈ c.entries := List.mem_of_find?_eq_some h

theorem find?_put_self : (c.put k v now).find? k = some ⟨k, v, now⟩ := by
  have hnone : (c.entries.filter fun e => e.key ≠ k).find? (fun e => e.key = k) = none := by
    rw [List.find?_eq_none]
    intro e he
    simpa using (List.mem_filter.mp he).2
  rw [find?, put, List.find?_append, hnone]
  simp

theorem find?_put_of_ne {k' : κ} (h : k' ≠ k) : (c.put k v now).find? k' = c.find? k' := by
  have hsame : (c.entries.filter fun e => e.key ≠ k).find? (fun e => e.key = k') =
      c.entries.find? fun e => e.key = k' := by
    rw [List.find?_filter]
    congr 1
    funext e
    by_cases hk : e.key = k'
    · simp [hk, h]
    · simp [hk]
  have hlast : (⟨k, v, now⟩ : Dated κ α).key ≠ k' := Ne.symm h
  rw [find?, put, List.find?_append, hsame, find?]
  simp [hlast]

/-- Whatever is kept after the new entry was put is that entry or was kept before. -/
theorem mem_put (h : e ∈ (c.put k v now).entries) : e ∈ c.entries ∨ e = ⟨k, v, now⟩ := by
  rw [put, List.mem_append, List.mem_singleton] at h
  exact h.imp_left List.mem_of_mem_filter

/-! ### Later values -/

/-- Each key that had a value has one that is not older. -/
def Newer (c c' : Expiring κ α) : Prop :=
  ∀ k e, c.find? k = some e → ∃ e', c'.find? k = some e' ∧ e.since ≤ e'.since

theorem Newer.refl (c : Expiring κ α) : Newer c c := fun _ e h => ⟨e, h, Nat.le_refl _⟩

theorem Newer.trans {c'' : Expiring κ α} (h : Newer c c') (h' : Newer c' c'') : Newer c c'' := fun k e he => by
  obtain ⟨e', he', hle⟩ := h k e he
  obtain ⟨e'', he'', hle'⟩ := h' k e' he'
  exact ⟨e'', he'', Nat.le_trans hle hle'⟩

theorem newer_put (h : ∀ e ∈ c.entries, e.since ≤ now) : Newer c (c.put k v now) := fun k' e he => by
  by_cases hk : k' = k
  · rw [hk]
    exact ⟨_, find?_put_self, h e (mem_of_find? he)⟩
  · exact ⟨e, (find?_put_of_ne hk).trans he, Nat.le_refl _⟩

/-- Until a value goes stale its key is answered, by a value that is not older. -/
theorem hit_of_newer {ttl : Nat} (h : Newer c c') (hfind : c.find? k = some e) (hfresh : now - e.since < ttl) :
    ∃ e', c'.find? k = some e' ∧ e.since ≤ e'.since ∧ c'.hit ttl now k = some e'.value := by
  obtain ⟨e', he', hle⟩ := h k e hfind
  refine ⟨e', he', hle, ?_⟩
  rw [hit, he']
  exact if_pos (by omega)

theorem find?_of_hit {ttl : Nat} (h : c.hit ttl now k = some v) :
    ∃ e, c.find? k = some e ∧ e.value = v ∧ now - e.since < ttl := by
  rw [hit] at h
  split at h
  case h_1 e he =>
    split at h
    case isTrue hfresh => exact ⟨e, he, Option.some.inj h, hfresh⟩
    case isFalse => cases h
  case h_2 => cases h

end Expiring
