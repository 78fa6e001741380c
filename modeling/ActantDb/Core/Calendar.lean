import ActantDb.Core.Instant
import Mathlib.Order.Basic

/-!
# The order of dates

The dates of two days, as years, months and days, are in the order of the days (`civil_lt`). The years of a cycle are counted from March: the year of a day is found by a division, and it is monotone in the day, so it is enough to look at the first and the last day of each of the 400 years.
-/

namespace ActantDb.OffsetDateTime

/-! ### Years of a cycle -/

def yearOfEra (dayOfEra : Nat) : Nat :=
  (dayOfEra - dayOfEra / 1460 + dayOfEra / 36524 - dayOfEra / 146096) / 365

/-- The day of the cycle on which a year begins. -/
def yearStart (year : Nat) : Nat := 365 * year + year / 4 - year / 100

def dayOfYear (dayOfEra : Nat) : Nat := dayOfEra - yearStart (yearOfEra dayOfEra)

/-- Months from March on. -/
def monthOf (dayOfYear : Nat) : Nat := (5 * dayOfYear + 2) / 153

def dayOf (dayOfYear : Nat) : Nat := dayOfYear - (153 * monthOf dayOfYear + 2) / 5 + 1

theorem yearOfEra_mono {a b : Nat} (h : a ≤ b) (hb : b < 146097) : yearOfEra a ≤ yearOfEra b := by
  unfold yearOfEra
  refine Nat.div_le_div_right ?_
  rcases Nat.lt_or_eq_of_le (Nat.le_of_lt_succ hb) with hb | rfl
  · omega
  · omega

theorem yearOfEra_lt {doe : Nat} (h : doe < 146097) : yearOfEra doe < 400 := by
  have hle := yearOfEra_mono (Nat.le_of_lt_succ h) (by omega)
  have hlast : yearOfEra 146096 = 399 := by decide
  omega

/-- The last day before a year belongs to an earlier one. -/
theorem yearOfEra_before : ∀ y < 400, 0 < y → yearOfEra (yearStart y - 1) < y := by
  decide +kernel

/-- 366 days on, the year is over. -/
theorem yearOfEra_after : ∀ y < 399, y < yearOfEra (yearStart y + 366) := by
  decide +kernel

theorem yearStart_le {doe : Nat} (h : doe < 146097) : yearStart (yearOfEra doe) ≤ doe := by
  by_contra hlt
  have hpos : 0 < yearOfEra doe := by
    by_contra hzero
    rw [Nat.eq_zero_of_not_pos hzero] at hlt
    exact hlt (Nat.zero_le doe)
  have hbefore := yearOfEra_before _ (yearOfEra_lt h) hpos
  have hstart : yearStart (yearOfEra doe) - 1 < 146097 := by
    have := yearOfEra_lt h
    unfold yearStart
    omega
  have hmono := yearOfEra_mono (a := doe) (b := yearStart (yearOfEra doe) - 1) (by omega) hstart
  omega

theorem dayOfYear_lt {doe : Nat} (h : doe < 146097) : dayOfYear doe < 366 := by
  by_contra hge
  have hstart := yearStart_le h
  rcases Nat.lt_or_ge (yearOfEra doe) 399 with hy | hy
  · have hafter := yearOfEra_after _ hy
    have hmono := yearOfEra_mono (a := yearStart (yearOfEra doe) + 366) (by unfold dayOfYear at hge; omega) h
    omega
  · have hlast : yearOfEra doe = 399 := by
      have := yearOfEra_lt h
      omega
    have hvalue : yearStart 399 = 145731 := by decide
    unfold dayOfYear at hge
    rw [hlast] at hge
    omega

/-! ### Dates -/

/-- The months since the beginning of the calendar, and the day of the month. -/
def monthAndDay (days : Nat) : Nat × Nat :=
  let doe := (days + 719468) % 146097
  (12 * (yearOfEra doe + (days + 719468) / 146097 * 400) + monthOf (dayOfYear doe), dayOf (dayOfYear doe))

theorem monthOf_le {doy : Nat} (h : doy < 366) : monthOf doy ≤ 11 := by
  unfold monthOf
  omega

theorem monthAndDay_lt {a b : Nat} (h : a < b) :
    (monthAndDay a).1 < (monthAndDay b).1
      ∨ (monthAndDay a).1 = (monthAndDay b).1 ∧ (monthAndDay a).2 < (monthAndDay b).2 := by
  obtain ⟨x, hx⟩ : ∃ x, a + 719468 = x := ⟨_, rfl⟩
  obtain ⟨y, hy⟩ : ∃ y, b + 719468 = y := ⟨_, rfl⟩
  simp only [monthAndDay, hx, hy]
  have hxlt : x % 146097 < 146097 := Nat.mod_lt _ (by decide)
  have hylt : y % 146097 < 146097 := Nat.mod_lt _ (by decide)
  have hxm := monthOf_le (dayOfYear_lt hxlt)
  have hxy := yearOfEra_lt hxlt
  rcases Nat.lt_or_ge (x / 146097) (y / 146097) with hera | hera
  · left
    omega
  · have heq : x / 146097 = y / 146097 := by omega
    have hday : x % 146097 < y % 146097 := by omega
    rcases Nat.lt_or_eq_of_le (yearOfEra_mono (Nat.le_of_lt hday) hylt) with hyear | hyear
    · left
      omega
    · have hstart := yearStart_le hxlt
      rw [hyear] at hstart
      have hdoy : dayOfYear (x % 146097) < dayOfYear (y % 146097) := by
        unfold dayOfYear
        rw [hyear]
        omega
      rw [heq, hyear]
      unfold dayOf
      have hmonth : monthOf (dayOfYear (x % 146097)) ≤ monthOf (dayOfYear (y % 146097)) := by
        unfold monthOf
        omega
      rcases Nat.lt_or_eq_of_le hmonth with hlt | hsame
      · left
        omega
      · right
        refine ⟨by omega, ?_⟩
        rw [hsame]
        have hfirst : (153 * monthOf (dayOfYear (x % 146097)) + 2) / 5 ≤ dayOfYear (x % 146097) := by
          unfold monthOf
          omega
        rw [hsame] at hfirst
        omega

/-- A date, from the months and the day. -/
theorem civil_eq (days : Nat) :
    12 * (civil days).1 + (civil days).2.1 = (monthAndDay days).1 + 3
      ∧ 1 ≤ (civil days).2.1 ∧ (civil days).2.1 ≤ 12 ∧ (civil days).2.2 = (monthAndDay days).2
      ∧ (civil days).2.2 ≤ 31 := by
  have hdoe : (days + 719468) % 146097 < 146097 := Nat.mod_lt _ (by decide)
  have hdoy := dayOfYear_lt hdoe
  have hmonth := monthOf_le hdoy
  have hcivil : civil days =
      (yearOfEra ((days + 719468) % 146097) + (days + 719468) / 146097 * 400
        + (if (if monthOf (dayOfYear ((days + 719468) % 146097)) < 10 then monthOf (dayOfYear ((days + 719468) % 146097)) + 3
            else monthOf (dayOfYear ((days + 719468) % 146097)) - 9) ≤ 2 then 1 else 0),
        (if monthOf (dayOfYear ((days + 719468) % 146097)) < 10 then monthOf (dayOfYear ((days + 719468) % 146097)) + 3
          else monthOf (dayOfYear ((days + 719468) % 146097)) - 9),
        dayOf (dayOfYear ((days + 719468) % 146097))) := rfl
  have hday : dayOf (dayOfYear ((days + 719468) % 146097)) ≤ 31 := by
    unfold dayOf monthOf
    omega
  rw [hcivil]
  simp only [monthAndDay]
  refine ⟨?_, ?_, ?_, trivial, hday⟩
  · split <;> split <;> omega
  · split <;> omega
  · split <;> omega

/-- **Dates are in the order of their days.** -/
theorem civil_lt {a b : Nat} (h : a < b) :
    (civil a).1 < (civil b).1
      ∨ (civil a).1 = (civil b).1
        ∧ ((civil a).2.1 < (civil b).2.1 ∨ (civil a).2.1 = (civil b).2.1 ∧ (civil a).2.2 < (civil b).2.2) := by
  obtain ⟨ha, ha1, ha12, had, -⟩ := civil_eq a
  obtain ⟨hb, hb1, hb12, hbd, -⟩ := civil_eq b
  rcases monthAndDay_lt h with hlt | ⟨heq, hlt⟩ <;> omega

theorem civil_year_mono {a b : Nat} (h : a ≤ b) : (civil a).1 ≤ (civil b).1 := by
  rcases Nat.lt_or_eq_of_le h with hlt | rfl
  · rcases civil_lt hlt with hyear | ⟨hyear, -⟩
    · exact Nat.le_of_lt hyear
    · exact Nat.le_of_eq hyear
  · exact Nat.le_refl _

/-- The calendar repeats itself every 400 years. -/
theorem civil_add_cycle (days cycles : Nat) :
    civil (days + cycles * 146097) = ((civil days).1 + cycles * 400, (civil days).2.1, (civil days).2.2) := by
  have hmod : (days + cycles * 146097 + 719468) % 146097 = (days + 719468) % 146097 := by omega
  have hdiv : (days + cycles * 146097 + 719468) / 146097 = (days + 719468) / 146097 + cycles := by omega
  simp only [civil, hmod, hdiv, Prod.mk.injEq, and_true]
  rw [Nat.add_mul, ← Nat.add_assoc, Nat.add_right_comm]

end ActantDb.OffsetDateTime
