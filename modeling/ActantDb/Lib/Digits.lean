import Mathlib.Algebra.Group.Nat.Defs
import Mathlib.Data.List.Basic
import Mathlib.Order.Basic

/-!
# Fixed-width numerals and their lexicographic order

Numerals of one width, most significant digit first, are ordered as lists the way their values are. Counting up with carry, which works on the digits from the other end, gives the next greater numeral of the width unless every digit is at its highest.
-/

namespace Digits

section Lex

variable {α β : Type*} [LT α] [LT β] {s t u v : List α}

/-- The first parts decide where they differ and are of one length. -/
theorem append_lt_append_of_lt (h : s < t) (hlength : s.length = t.length) (u v : List α) :
    s ++ u < t ++ v := by
  induction s generalizing t with
  | nil =>
    cases t with
    | nil => exact absurd h (List.not_lt_nil [])
    | cons b t => cases hlength
  | cons a s ih =>
    cases t with
    | nil => cases hlength
    | cons b t =>
      rw [List.cons_append, List.cons_append, List.cons_lt_cons_iff]
      rcases List.cons_lt_cons_iff.mp h with hab | ⟨rfl, hst⟩
      · exact Or.inl hab
      · exact Or.inr ⟨rfl, ih hst (Nat.succ.inj hlength)⟩

theorem map_lt_map {f : α → β} {p : α → Prop} (hf : ∀ a b, p a → p b → a < b → f a < f b)
    (hs : ∀ a ∈ s, p a) (ht : ∀ b ∈ t, p b) (h : s < t) (hlength : s.length = t.length) :
    s.map f < t.map f := by
  induction s generalizing t with
  | nil =>
    cases t with
    | nil => exact absurd h (List.not_lt_nil [])
    | cons b t => cases hlength
  | cons a s ih =>
    cases t with
    | nil => cases hlength
    | cons b t =>
      rw [List.map_cons, List.map_cons, List.cons_lt_cons_iff]
      rcases List.cons_lt_cons_iff.mp h with hab | ⟨rfl, hst⟩
      · exact Or.inl (hf a b (hs a List.mem_cons_self) (ht b List.mem_cons_self) hab)
      · exact Or.inr ⟨rfl, ih (fun c hc => hs c (List.mem_cons_of_mem _ hc))
          (fun c hc => ht c (List.mem_cons_of_mem _ hc)) hst (Nat.succ.inj hlength)⟩

end Lex

variable {b n m len : Nat} {ds ds' : List Nat}

/-- The last `len` digits of `n`. -/
def digits (b n : Nat) : Nat → List Nat
  | 0 => []
  | len + 1 => digits b (n / b) len ++ [n % b]

@[simp] theorem length_digits : (digits b n len).length = len := by
  induction len generalizing n with
  | zero => rfl
  | succ len ih => simp [digits, ih]

theorem lt_of_mem_digits (hb : 0 < b) {d : Nat} (hd : d ∈ digits b n len) : d < b := by
  induction len generalizing n with
  | zero => cases hd
  | succ len ih =>
    rcases List.mem_append.mp hd with hd | hd
    · exact ih hd
    · rw [List.mem_singleton.mp hd]
      exact Nat.mod_lt n hb

/-- A smaller number has the smaller numeral, as long as the width is enough for the greater one. -/
theorem digits_lt_digits (h : n < m) (hm : m < b ^ len) : digits b n len < digits b m len := by
  induction len generalizing n m with
  | zero =>
    rw [Nat.pow_zero] at hm
    omega
  | succ len ih =>
    have hquot : m / b < b ^ len := Nat.div_lt_of_lt_mul (by rwa [Nat.pow_succ, Nat.mul_comm] at hm)
    rw [digits, digits]
    rcases Nat.lt_or_eq_of_le (Nat.div_le_div_right (c := b) (Nat.le_of_lt h)) with hlt | heq
    · exact append_lt_append_of_lt (ih hlt hquot) (by simp) _ _
    · rw [heq]
      refine List.append_left_lt ?_
      rw [List.cons_lt_cons_iff]
      left
      have hn := Nat.div_add_mod n b
      have hm := Nat.div_add_mod m b
      rw [heq] at hn
      omega

/-- Counting up, the least significant digit first; nothing where every digit is the highest. -/
def carry? (b : Nat) : List Nat → Option (List Nat)
  | [] => none
  | d :: rest => if d + 1 < b then some ((d + 1) :: rest) else (carry? b rest).map (List.cons 0)

theorem carry?_spec (hb : 0 < b) (h : carry? b ds = some ds') :
    ds'.length = ds.length ∧ ds.reverse < ds'.reverse ∧ ((∀ d ∈ ds, d < b) → ∀ d ∈ ds', d < b) := by
  induction ds generalizing ds' with
  | nil => cases h
  | cons d rest ih =>
    rw [carry?] at h
    split at h
    · rename_i hd
      cases h
      refine ⟨rfl, ?_, ?_⟩
      · rw [List.reverse_cons, List.reverse_cons]
        exact List.append_left_lt (by rw [List.cons_lt_cons_iff]; exact Or.inl (Nat.lt_succ_self d))
      · rintro hall e he
        rcases List.mem_cons.mp he with rfl | he
        · exact hd
        · exact hall e (List.mem_cons_of_mem _ he)
    · obtain ⟨rest', hrest, rfl⟩ := Option.map_eq_some_iff.mp h
      obtain ⟨hlength, hlt, hbound⟩ := ih hrest
      refine ⟨by simp [hlength], ?_, ?_⟩
      · rw [List.reverse_cons, List.reverse_cons]
        exact append_lt_append_of_lt hlt (by simp [hlength]) _ _
      · rintro hall e he
        rcases List.mem_cons.mp he with rfl | he
        · exact hb
        · exact hbound (fun x hx => hall x (List.mem_cons_of_mem _ hx)) e he

/-- Only a numeral with every digit at its highest cannot be counted up. -/
theorem highest_of_carry? (h : carry? b ds = none) : ∀ d ∈ ds, b ≤ d + 1 := by
  induction ds with
  | nil => exact fun d hd => nomatch hd
  | cons d rest ih =>
    rw [carry?] at h
    split at h
    · cases h
    next hd =>
      rw [Option.map_eq_none_iff] at h
      intro e he
      rcases List.mem_cons.mp he with rfl | he
      · exact Nat.le_of_not_lt hd
      · exact ih h e he

/-- No numeral is greater. -/
theorem not_highest_lt (hds : ∀ d ∈ ds, b ≤ d + 1) (hds' : ∀ d ∈ ds', d < b) (hlength : ds.length = ds'.length) :
    ds' < ds ∨ ds' = ds := by
  induction ds generalizing ds' with
  | nil => exact Or.inr (List.eq_nil_of_length_eq_zero hlength.symm)
  | cons d ds ih =>
    cases ds' with
    | nil => cases hlength
    | cons d' ds' =>
      have hd := hds d List.mem_cons_self
      have hd' := hds' d' List.mem_cons_self
      rcases Nat.lt_or_ge d' d with hlt | hge
      · exact Or.inl (List.cons_lt_cons_iff.mpr (Or.inl hlt))
      obtain rfl : d' = d := by omega
      rcases ih (fun e he => hds e (List.mem_cons_of_mem _ he)) (fun e he => hds' e (List.mem_cons_of_mem _ he))
        (Nat.succ.inj hlength) with hlt | rfl
      · exact Or.inl (List.cons_lt_cons_iff.mpr (Or.inr ⟨rfl, hlt⟩))
      · exact Or.inr rfl

end Digits
