import ActantDb.Subscribe.PredicateParse

/-!
# Comparing numbers

Equality of two numbers is equality of what holds them, and an integer is never equal to a float; their order is that of the doubles that they are converted to. The two agree where no two different numbers have one double.
-/

namespace ActantDb

/-! ### The double of an integer -/

section Magnitude

variable {negative : Bool} {m : Nat}

/-- The fraction bits of an integer with one bit more than a double holds. -/
theorem shifted_lt {e : Nat} (he : e ≤ 52) (hm : m < 2 ^ (e + 1)) : m * 2 ^ (52 - e) < 2 ^ 53 := by
  have hscale : m * 2 ^ (52 - e) < 2 ^ (e + 1) * 2 ^ (52 - e) := Nat.mul_lt_mul_of_pos_right hm (by positivity)
  rwa [← pow_add, show e + 1 + (52 - e) = 53 by omega] at hscale

theorem quotient_lt {e : Nat} (he : 52 < e) (hm : m < 2 ^ (e + 1)) : m / 2 ^ (e - 52) < 2 ^ 53 := by
  rw [Nat.div_lt_iff_lt_mul (by positivity), ← pow_add, show 53 + (e - 52) = e + 1 by omega]
  exact hm

/-- What is stored of a sign and a magnitude that fits beside it. -/
theorem magnitude_stored {n : Nat} (h : n < 2 ^ 63) :
    F64.magnitude ⟨UInt64.ofNat ((if negative then 2 ^ 63 else 0) + n)⟩ = n := by
  rw [F64.magnitude, UInt64.toNat_ofNat']
  cases negative <;> simp <;> omega

/-- The double of an integer that fits is finite. -/
theorem ofMagnitude_finite (hm : m < 2 ^ 64) : (F64.ofMagnitude negative m).isFinite = true := by
  rw [F64.isFinite, decide_eq_true_eq]
  unfold F64.ofMagnitude
  dsimp only
  by_cases hzero : m = 0
  · have hstored : F64.magnitude ⟨UInt64.ofNat ((if negative then 2 ^ 63 else 0) + 0)⟩ = 0 :=
      magnitude_stored (by norm_num)
    rw [Nat.add_zero] at hstored
    rw [if_pos hzero, hstored]
    norm_num
  rw [if_neg hzero]
  have hlog : m.log2 < 64 := (Nat.log2_lt hzero).mpr hm
  have hbelow : m < 2 ^ (m.log2 + 1) := Nat.lt_log2_self
  by_cases hsmall : m.log2 ≤ 52
  · have hshift := shifted_lt hsmall hbelow
    rw [if_pos hsmall, Nat.add_assoc, magnitude_stored (by omega)]
    omega
  · have hquotient := quotient_lt (by omega) hbelow
    rw [if_neg hsmall, Nat.add_assoc, magnitude_stored (by split <;> omega)]
    split <;> omega

end Magnitude

/-! ### Six comparisons -/

/-- What `serde_json` holds as a number: a negative integer is below zero, and a float is finite. -/
def Number.valid : Number → Bool
  | .posInt _ => true
  | .negInt n => n < 0
  | .float x => x.isFinite

/-- One double holds both numbers, but they are not equal. -/
def Number.confused (x y : Number) : Bool := x.asF64.eq y.asF64 && !x.eq y

/-- The six comparisons of a field with a literal are those of one order. -/
structure Trichotomous (root : Value) (field : List Char) (lit : Value) : Prop where
  one : [Predicate.lt field lit, .eq field lit, .gt field lit].countP (·.evaluate root) = 1
  ne : (Predicate.ne field lit).evaluate root = !(Predicate.eq field lit).evaluate root
  le : (Predicate.le field lit).evaluate root =
    ((Predicate.lt field lit).evaluate root || (Predicate.eq field lit).evaluate root)
  ge : (Predicate.ge field lit).evaluate root =
    ((Predicate.gt field lit).evaluate root || (Predicate.eq field lit).evaluate root)

section Numbers

variable {x y : Number}

theorem asF64_finite (h : x.valid = true) : x.asF64.isFinite = true := by
  cases x with
  | posInt n => exact ofMagnitude_finite n.toNat_lt
  | negInt n =>
    have hle := n.le_toInt
    have hlt := n.toInt_lt
    exact ofMagnitude_finite (by omega)
  | float x => exact h

theorem asF64_notNaN (h : x.valid = true) : x.asF64.isNaN = false := by
  have hfinite := asF64_finite h
  rw [F64.isFinite, decide_eq_true_eq] at hfinite
  rw [F64.isNaN, decide_eq_false_iff_not]
  omega

/-- Equal numbers have one double. -/
theorem asF64_eq_of_eq (hx : x.valid = true) (h : x.eq y = true) : x.asF64.eq y.asF64 = true := by
  cases x <;> cases y <;> simp only [Number.eq, decide_eq_true_eq, Bool.false_eq_true] at h
  case float.float => exact h
  all_goals
    have hnumber := asF64_notNaN hx
    rw [F64.eq, ← h, hnumber]
    simp

theorem partialCmp_valid (hx : x.valid = true) (hy : y.valid = true) :
    x.asF64.partialCmp y.asF64 = some (compare x.asF64.rank y.asF64.rank) := by
  rw [F64.partialCmp, asF64_notNaN hx, asF64_notNaN hy]
  rfl

theorem asF64_eq_valid (hx : x.valid = true) (hy : y.valid = true) :
    x.asF64.eq y.asF64 = decide (x.asF64.rank = y.asF64.rank) := by
  rw [F64.eq, asF64_notNaN hx, asF64_notNaN hy]
  simp

/-- In each case which of the two comes first, and whether they are equal. -/
theorem compare_trichotomy (a b : Int) :
    (compare a b = .lt ∧ a ≠ b) ∨ (compare a b = .eq ∧ a = b) ∨ (compare a b = .gt ∧ a ≠ b) := by
  rcases lt_trichotomy a b with hless | hequal | hmore
  · exact .inl ⟨compare_lt_iff_lt.mpr hless, hless.ne⟩
  · exact .inr (.inl ⟨compare_eq_iff_eq.mpr hequal, hequal⟩)
  · exact .inr (.inr ⟨compare_gt_iff_gt.mpr hmore, hmore.ne'⟩)

end Numbers

/-- **The comparisons of numbers** are those of one order exactly where the two numbers are not confused. -/
theorem trichotomous_iff (root : Value) (field : List Char) (x y : Number) (hx : x.valid = true) (hy : y.valid = true)
    (hfield : resolve root field = some (.number x)) :
    Trichotomous root field (.number y) ↔ x.confused y = false := by
  have hconfused : x.confused y = (decide (x.asF64.rank = y.asF64.rank) && !x.eq y) := by
    rw [Number.confused, asF64_eq_valid hx hy]
  have heq : (Predicate.eq field (.number y)).evaluate root = x.eq y := by
    simp [Predicate.evaluate, hfield, Value.eq]
  have hne : (Predicate.ne field (.number y)).evaluate root = !x.eq y := by
    simp [Predicate.evaluate, hfield, Value.eq]
  have hcmp (ok : Ordering → Bool) :
      cmp (resolve root field) (.number y) ok = ok (compare x.asF64.rank y.asF64.rank) := by
    simp [cmp, hfield, order, partialCmp_valid hx hy]
  have hsame : x.eq y = true → x.asF64.rank = y.asF64.rank := by
    intro h
    have hdouble := asF64_eq_of_eq hx h
    rwa [asF64_eq_valid hx hy, decide_eq_true_eq] at hdouble
  have hlt : (Predicate.lt field (.number y)).evaluate root = _ := hcmp (· == .lt)
  have hle : (Predicate.le field (.number y)).evaluate root = _ := hcmp (· != .gt)
  have hgt : (Predicate.gt field (.number y)).evaluate root = _ := hcmp (· == .gt)
  have hge : (Predicate.ge field (.number y)).evaluate root = _ := hcmp (· != .lt)
  rw [hconfused, Bool.and_eq_false_iff, decide_eq_false_iff_not, Bool.not_eq_false']
  constructor
  · intro h
    by_cases hrank : x.asF64.rank = y.asF64.rank
    · have hone := h.one
      -- neither is less, so one of the three holds only as an equality
      have hself : compare y.asF64.rank y.asF64.rank = .eq := compare_eq_iff_eq.mpr rfl
      simp only [List.countP_cons, List.countP_nil, hlt, heq, hgt, hrank, hself] at hone
      right
      cases hdiffer : x.eq y with
      | true => rfl
      | false => simp [hdiffer] at hone
    · exact .inl hrank
  · intro h
    have hagree : x.eq y = decide (x.asF64.rank = y.asF64.rank) := by
      rw [Bool.eq_iff_iff, decide_eq_true_eq]
      exact ⟨hsame, fun hrank => h.resolve_left (not_not_intro hrank)⟩
    have hthree := compare_trichotomy x.asF64.rank y.asF64.rank
    constructor
    · simp only [List.countP_cons, List.countP_nil, hlt, heq, hgt, hagree]
      rcases hthree with ⟨hc, hr⟩ | ⟨hc, hr⟩ | ⟨hc, hr⟩ <;> simp [hc, hr]
    · rw [hne, heq]
    · rw [hle, hlt, heq, hagree]
      rcases hthree with ⟨hc, hr⟩ | ⟨hc, hr⟩ | ⟨hc, hr⟩ <;> simp [hc, hr]
    · rw [hge, hgt, heq, hagree]
      rcases hthree with ⟨hc, hr⟩ | ⟨hc, hr⟩ | ⟨hc, hr⟩ <;> simp [hc, hr]

theorem trichotomous_halves : Trichotomous (.object [("x", .number (.float .half))]) ['x'] (.number (.posInt 0)) := by
  refine (trichotomous_iff _ _ (.float .half) (.posInt 0) (by decide) (by decide) ?_).mpr (by decide)
  rfl

/-- The integer of a payload and the float that a literal `1` is read as. -/
theorem one_not_one : ¬ Trichotomous (.object [("x", .number (.posInt 1))]) ['x'] (.number (.float (.ofMagnitude false 1))) := by
  intro h
  exact absurd h.one (by decide)

/-! ### The literals of the command line -/

/-- A number that the parser reads is a float, and a valid one. -/
theorem parseLiteral_number {ts rest : List PredicateParse.Tok} {y : Number}
    (h : PredicateParse.parseLiteral ts = .ok (.number y, rest)) : y.valid = true ∧ ∃ d, y = .float d := by
  cases ts with
  | nil => cases h
  | cons t ts =>
    cases t <;> try cases h
    rename_i d
    rw [PredicateParse.parseLiteral, Except.ok.injEq, Prod.mk.injEq] at h
    obtain ⟨hvalue, -⟩ := h
    split_ifs at hvalue with hfinite
    obtain rfl : Number.float d = y := Value.number.inj hvalue
    exact ⟨hfinite, d, rfl⟩

/-- An integer is confused with every float that has its double. -/
theorem confused_float (x : Number) (d : F64) (hx : ∀ e, x ≠ .float e) :
    x.confused (.float d) = x.asF64.eq d := by
  cases x with
  | posInt n => simp [Number.confused, Number.eq, Number.asF64]
  | negInt n => simp [Number.confused, Number.eq, Number.asF64]
  | float e => exact absurd rfl (hx e)

end ActantDb
