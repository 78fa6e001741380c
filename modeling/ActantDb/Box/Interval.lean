import Mathlib.Algebra.Order.GroupWithZero.Basic
import Mathlib.Algebra.Order.Ring.Rat
import Mathlib.Tactic.NormNum.Ineq
import ActantDb.Ledger.Canonical
import ActantDb.Policy.Guard

/-!
# The interval of a schedule

`everyMs` is handed to `setInterval` as it is, and the common forms of cron strings as a multiple of a minute, an hour or a day. Node keeps a delay from 1 to `2 ^ 31 - 1` milliseconds and takes any other for one millisecond: the days are too long from the twenty-fifth on, and nothing checks them.
-/

namespace ActantDb

/-! ### Doubles -/

namespace F64

/-- What a finite double stands for. -/
def value (x : F64) : Option ℚ :=
  if x.isFinite then
    let e : Nat := x.magnitude / 2 ^ 52
    let m : ℚ := if e = 0 then 2 * (x.magnitude % 2 ^ 52 : Nat) else (2 ^ 52 + x.magnitude % 2 ^ 52 : Nat)
    some ((if x.isNegative then -1 else 1) * m * 2 ^ ((e : ℤ) - 1075))
  else none

/-- `0 < x`. -/
def isPositive (x : F64) : Bool := !x.isNaN && !x.isNegative && x.magnitude ≠ 0

/-- `x` where `if (x)` takes it. -/
def truthy (x : F64) : Bool := !x.isNaN && x.magnitude ≠ 0

/-- `x * unit`, for an `x` that is a natural number or infinite. -/
def times (x : F64) (unit : Nat) : F64 := if x.isFinite then .ofNat (x.toNat * unit) else x

/-- The natural numbers below `2 ^ 53` are doubles. -/
theorem ofNat_spec {n : Nat} (h : n < 2 ^ 53) (hpos : 0 < n) :
    (ofNat n).value = some (n : ℚ) ∧ (ofNat n).toNat = n ∧ (ofNat n).isFinite = true ∧ (ofNat n).truthy = true := by
  have hne : (n : Int) ≠ 0 := by omega
  have hint : ofNat n = ofInt n := by
    have hlarge : ¬ 2 ^ 1024 ≤ n := not_le.mpr (h.trans_le (Nat.pow_le_pow_right (by decide) (by decide)))
    rw [ofNat, if_neg hlarge, ofInt, Int.natAbs_natCast, decide_eq_false (Int.not_lt.mpr (Int.natCast_nonneg n))]
  obtain ⟨e, m, he, hm, hlow, hhigh, hsign, hmagnitude⟩ := magnitude_ofInt (n := (n : Int)) h hne
  rw [Int.natAbs_natCast] at hm
  have hnegative : (ofInt n).isNegative = false := hsign.trans (decide_eq_false (Int.not_lt.mpr (Int.natCast_nonneg n)))
  have hexponent : ((e + 1023) * 2 ^ 52 + (m - 2 ^ 52)) / 2 ^ 52 = e + 1023 := by omega
  have hmantissa : 2 ^ 52 + ((e + 1023) * 2 ^ 52 + (m - 2 ^ 52)) % 2 ^ 52 = m := by omega
  have hfinite : (ofInt n).isFinite = true := by
    rw [isFinite, hmagnitude, decide_eq_true_eq]
    omega
  rw [hint]
  refine ⟨?_, ?_, hfinite, ?_⟩
  · rw [value, if_pos hfinite]
    simp only [hnegative, hmagnitude, hexponent, hmantissa, Bool.false_eq_true, if_false]
    rw [if_neg (by omega), hm]
    have hscale : (2 : ℚ) ^ (52 - e) * 2 ^ (((e + 1023 : Nat) : ℤ) - 1075) = 1 := by
      have hexponents : ((52 - e : Nat) : ℤ) + (((e + 1023 : Nat) : ℤ) - 1075) = 0 := by omega
      rw [← zpow_natCast, ← zpow_add₀ two_ne_zero, hexponents, zpow_zero]
    rw [Nat.cast_mul, Nat.cast_pow, Nat.cast_ofNat, one_mul, mul_assoc, hscale, mul_one]
  · simp only [toNat, hmagnitude, hexponent, hmantissa]
    rw [if_neg (by omega)]
    split
    · have hlast : e = 52 := by omega
      rw [hm, hlast]
      simp
    · have hshift : 1075 - (e + 1023) = 52 - e := by omega
      rw [hm, hshift, Nat.mul_div_cancel _ (Nat.two_pow_pos _)]
  · have hnumber : (ofInt n).isNaN = false := by
      rw [isNaN, hmagnitude, decide_eq_false_iff_not]
      omega
    have hnonzero : (e + 1023) * 2 ^ 52 + (m - 2 ^ 52) ≠ 0 := by omega
    rw [truthy, hnumber, hmagnitude, decide_eq_true hnonzero]
    rfl

end F64

namespace Boxes

/-! ### The code -/

/-- What a schedule says of its times. -/
structure Timing where
  cron : Option (List Char)
  everyMs : Option F64

/-- `/^\*\/(\d+)$/`, and the number of its group. -/
def everyMatch : List Char → Option F64
  | '*' :: '/' :: digits =>
    if digits ≠ [] ∧ digits.all Char.isDigit = true then some (.ofNat (digitsValue digits)) else none
  | _ => none

/-- `const n = everyMatch(field); if (n) return n * unit`, where the other fields are those of the form. -/
def everyInterval (others : Bool) (field : List Char) (unit : Nat) : Option F64 :=
  if others then ((everyMatch field).filter F64.truthy).map (·.times unit) else none

/-- `field === "*"`. -/
def isAny (field : List Char) : Bool := field = ['*']

/-- The interval of five fields; none where it is the default. -/
def fieldsInterval (minute hour dom month dow : List Char) : Option F64 :=
  if isAny minute && isAny hour && isAny dom && isAny month && isAny dow then none
  else
    ((everyInterval (isAny hour && isAny dom && isAny month && isAny dow) minute 60000).or
      (everyInterval (minute = ['0'] && isAny dom && isAny month && isAny dow) hour 3600000)).or
      (everyInterval (minute = ['0'] && hour = ['0'] && isAny month && isAny dow) dom 86400000)

/-- An empty text has no words, and a cron string of any other number than five gets the default. -/
def cronInterval (cron : List Char) : Option F64 :=
  match Guard.words cron with
  | [minute, hour, dom, month, dow] => fieldsInterval minute hour dom month dow
  | _ => none

def resolveIntervalMs (s : Timing) : F64 :=
  match s.everyMs.filter F64.isPositive with
  | some everyMs => everyMs
  | none => (s.cron.bind cronInterval).getD (.ofNat 60000)

/-- The delay that `startTimer` passes to `setInterval`. -/
def startTimerDelay (s : Timing) : F64 := resolveIntervalMs s

/-! ### What is asked -/

/-- The fields that count in a cron string. -/
inductive CronUnit where
  | minutes
  | hours
  | days
deriving DecidableEq

def CronUnit.ms : CronUnit → Nat
  | .minutes => 60000
  | .hours => 3600000
  | .days => 86400000

/-- The form with `*/N` in the field of the unit, where `digits` is `N`. -/
def CronUnit.fields (digits : List Char) : CronUnit → List (List Char)
  | .minutes => ['*' :: '/' :: digits, ['*'], ['*'], ['*'], ['*']]
  | .hours => [['0'], '*' :: '/' :: digits, ['*'], ['*'], ['*']]
  | .days => [['0'], ['0'], '*' :: '/' :: digits, ['*'], ['*']]

/-- The most of a unit that Node waits for. -/
def CronUnit.most : CronUnit → Nat
  | .minutes => 35791
  | .hours => 596
  | .days => 24

/-- The period that a schedule asks for. -/
inductive Request where
  | everyMs (x : F64)
  | everyMinute
  | every (unit : CronUnit) (digits : List Char)

/-- The schedule is for this request: `everyMs` counts before `cron`. -/
def Request.Of (s : Timing) : Request → Prop
  | .everyMs x => s.everyMs = some x ∧ x.isPositive = true
  | .everyMinute => (∀ x ∈ s.everyMs, x.isPositive = false) ∧ ∃ cron, s.cron = some cron ∧
      Guard.words cron = List.replicate 5 ['*']
  | .every unit digits => (∀ x ∈ s.everyMs, x.isPositive = false) ∧ (∃ cron, s.cron = some cron ∧
      Guard.words cron = unit.fields digits) ∧ digits ≠ [] ∧ digits.all Char.isDigit = true ∧ 1 ≤ digitsValue digits

/-- In milliseconds; an `everyMs` that is infinite is none. -/
def Request.period : Request → Option ℚ
  | .everyMs x => x.value
  | .everyMinute => some 60000
  | .every unit digits => some (digitsValue digits * unit.ms : Nat)

/-- Node waits that long. -/
def Request.Fits : Request → Prop
  | .everyMs x => ∃ ms ∈ x.value, 1 ≤ ms ∧ ms ≤ 2147483647
  | .everyMinute => True
  | .every unit digits => digitsValue digits ≤ unit.most

/-- The delay is the period that was asked for, and one that Node honours. -/
def Honoured (s : Timing) (r : Request) : Prop :=
  ∃ ms, (startTimerDelay s).value = some ms ∧ r.period = some ms ∧ 1 ≤ ms ∧ ms ≤ 2147483647

/-! ### When it is honoured -/

variable {digits : List Char}

theorem everyMatch_eq (hne : digits ≠ []) (hdigits : digits.all Char.isDigit = true) :
    everyMatch ('*' :: '/' :: digits) = some (.ofNat (digitsValue digits)) := if_pos ⟨hne, hdigits⟩

theorem everyInterval_eq (hne : digits ≠ []) (hdigits : digits.all Char.isDigit = true)
    (hpos : 1 ≤ digitsValue digits) (hsmall : digitsValue digits < 2 ^ 53) (unit : Nat) :
    everyInterval true ('*' :: '/' :: digits) unit = some (.ofNat (digitsValue digits * unit)) := by
  obtain ⟨-, hvalue, hfinite, htruthy⟩ := F64.ofNat_spec hsmall hpos
  rw [everyInterval, if_pos rfl, everyMatch_eq hne hdigits, Option.filter_some, if_pos htruthy, Option.map_some, F64.times,
    if_pos hfinite, hvalue]

/-- Each form is read in its own block: no field of it is that of an earlier one. -/
theorem cronInterval_every {unit : CronUnit} {cron : List Char} (hcron : Guard.words cron = unit.fields digits)
    (hne : digits ≠ []) (hdigits : digits.all Char.isDigit = true) (hpos : 1 ≤ digitsValue digits)
    (hsmall : digitsValue digits < 2 ^ 53) : cronInterval cron = some (.ofNat (digitsValue digits * unit.ms)) := by
  have hread (ms : Nat) := everyInterval_eq hne hdigits hpos hsmall ms
  have hother (field : List Char) (ms : Nat) : everyInterval false field ms = none := rfl
  have hstar : isAny ['*'] = true := rfl
  have hevery : isAny ('*' :: '/' :: digits) = false := rfl
  have hzero : isAny ['0'] = false := rfl
  cases unit
  · have hfields : cronInterval cron = fieldsInterval ('*' :: '/' :: digits) ['*'] ['*'] ['*'] ['*'] := by
      rw [cronInterval, hcron, CronUnit.fields]
    rw [hfields, fieldsInterval, hstar, hevery]
    simp only [Bool.false_eq_true, if_false, Bool.and_true, hread, Option.some_or]
    rfl
  · have hfields : cronInterval cron = fieldsInterval ['0'] ('*' :: '/' :: digits) ['*'] ['*'] ['*'] := by
      rw [cronInterval, hcron, CronUnit.fields]
    rw [hfields, fieldsInterval, hstar, hevery, hzero]
    simp only [Bool.false_and, Bool.false_eq_true, if_false, hother, decide_true, Bool.and_true, hread, Option.none_or,
      Option.some_or]
    rfl
  · have hfields : cronInterval cron = fieldsInterval ['0'] ['0'] ('*' :: '/' :: digits) ['*'] ['*'] := by
      rw [cronInterval, hcron, CronUnit.fields]
    rw [hfields, fieldsInterval, hstar, hevery, hzero]
    simp only [Bool.false_eq_true, if_false, hother, decide_true, Bool.and_true, Bool.and_false, hread, Option.none_or]
    rfl

/-- Where `everyMs` does not count, the delay is that of the cron string. -/
theorem startTimerDelay_cron {s : Timing} {cron : List Char} (hms : ∀ x ∈ s.everyMs, x.isPositive = false)
    (hcron : s.cron = some cron) : startTimerDelay s = (cronInterval cron).getD (.ofNat 60000) := by
  have hnone : s.everyMs.filter F64.isPositive = none := by
    rw [Option.filter_eq_none_iff]
    intro x hx
    rw [hms x hx]
    exact Bool.false_ne_true
  rw [startTimerDelay, resolveIntervalMs, hnone, hcron]
  rfl

/-- **A schedule fires as slowly as asked** exactly where Node waits that long: `everyMs` is at least one and less than `2 ^ 31`, or `N` is at most 35791 minutes, 596 hours or 24 days. -/
theorem delay_honoured_iff (s : Timing) (r : Request) (h : r.Of s) : Honoured s r ↔ r.Fits := by
  cases r with
  | everyMs x =>
    obtain ⟨hms, hpositive⟩ := h
    have hdelay : startTimerDelay s = x := by
      rw [startTimerDelay, resolveIntervalMs, hms, Option.filter_some, if_pos hpositive]
    rw [Honoured, hdelay]
    constructor
    · rintro ⟨ms, hvalue, -, hrange⟩
      exact ⟨ms, hvalue, hrange⟩
    · rintro ⟨ms, hvalue, hrange⟩
      exact ⟨ms, hvalue, hvalue, hrange⟩
  | everyMinute =>
    obtain ⟨hms, cron, hcron, hwords⟩ := h
    have hdelay : startTimerDelay s = .ofNat 60000 := by
      have hdefault : cronInterval cron = none := by
        rw [cronInterval, hwords]
        rfl
      rw [startTimerDelay_cron hms hcron, hdefault, Option.getD_none]
    have hvalue := (F64.ofNat_spec (n := 60000) (by decide) (by decide)).1
    refine iff_of_true ⟨60000, ?_, rfl, by norm_num, by norm_num⟩ trivial
    rw [hdelay, hvalue]
    norm_num
  | every unit digits =>
    obtain ⟨hms, ⟨cron, hcron, hwords⟩, hne, hdigits, hpos⟩ := h
    -- the most of a unit is where the limit is crossed
    have hlimit : digitsValue digits ≤ unit.most ↔ digitsValue digits * unit.ms ≤ 2147483647 := by
      cases unit <;> simp only [CronUnit.most, CronUnit.ms] <;> omega
    have hlong : 1 ≤ unit.ms := by cases unit <;> decide
    rw [Request.Fits, hlimit]
    constructor
    · rintro ⟨ms, -, hperiod, -, hle⟩
      rw [← Option.some.inj hperiod] at hle
      exact_mod_cast hle
    · intro hle
      have hsmall : digitsValue digits < 2 ^ 53 := by
        have := Nat.le_mul_of_pos_right (digitsValue digits) hlong
        omega
      have hdelay : startTimerDelay s = .ofNat (digitsValue digits * unit.ms) := by
        rw [startTimerDelay_cron hms hcron, cronInterval_every hwords hne hdigits hpos hsmall, Option.getD_some]
      have hprod : 0 < digitsValue digits * unit.ms := Nat.mul_pos hpos hlong
      refine ⟨_, ?_, rfl, ?_, ?_⟩
      · rw [hdelay, (F64.ofNat_spec (by omega) hprod).1]
      · exact_mod_cast hprod
      · exact_mod_cast hle

/-! ### A month -/

/-- Every thirty days. -/
def monthly : Timing := ⟨some "0 0 */30 * *".toList, none⟩

/-- The delay is past what Node keeps, and the schedule fires every millisecond. -/
theorem monthly_not_honoured : (Request.every .days "30".toList).Of monthly ∧ ¬ Honoured monthly (.every .days "30".toList) := by
  refine ⟨⟨fun x hx => (by cases hx), ⟨_, rfl, by decide⟩, by decide, by decide, by decide⟩, ?_⟩
  rintro ⟨ms, -, hperiod, -, hle⟩
  have hthirty : digitsValue "30".toList * CronUnit.days.ms = 2592000000 := by decide
  rw [Request.period, hthirty] at hperiod
  rw [← Option.some.inj hperiod] at hle
  norm_num at hle

theorem delay_honoured_iff_daily : Honoured ⟨some "0 0 */1 * *".toList, none⟩ (.every .days "1".toList) :=
  (delay_honoured_iff ⟨some "0 0 */1 * *".toList, none⟩ (.every .days "1".toList)
    ⟨fun x hx => (by cases hx), ⟨_, rfl, by decide⟩, by decide, by decide, by decide⟩).mpr
    (by change 1 ≤ 24; decide)

end Boxes

end ActantDb
