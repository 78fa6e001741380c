import ActantDb.Core.Time
import Mathlib.Algebra.Group.Int.Defs

/-!
# Instants

What an `OffsetDateTime` of the `time` crate can be, in nanoseconds from the epoch: an instant of the years from -9999 to 9999. Arithmetic that leaves the range panics. RFC 3339 has no sign for a year, so only the instants from the year 0 on are rendered; their text is that of `formatRfc3339`, continued by whole cycles of the calendar to the time before the epoch.
-/

namespace ActantDb

structure Instant where
  nanos : Int
  lower : -377705116800 * 10 ^ 9 ≤ nanos
  upper : nanos < 253402300800 * 10 ^ 9
deriving DecidableEq

namespace Instant

@[ext] theorem ext {a b : Instant} (h : a.nanos = b.nanos) : a = b := by
  cases a
  cases b
  congr

instance : LE Instant := ⟨fun a b => a.nanos ≤ b.nanos⟩

instance : LT Instant := ⟨fun a b => a.nanos < b.nanos⟩

instance (a b : Instant) : Decidable (a ≤ b) := inferInstanceAs (Decidable (a.nanos ≤ b.nanos))

instance (a b : Instant) : Decidable (a < b) := inferInstanceAs (Decidable (a.nanos < b.nanos))

theorem le_iff {a b : Instant} : a ≤ b ↔ a.nanos ≤ b.nanos := Iff.rfl

theorem lt_iff {a b : Instant} : a < b ↔ a.nanos < b.nanos := Iff.rfl

/-- The nanoseconds of a day. -/
def dayNanos : Int := 86400 * 10 ^ 9

/-- `t - Duration::days(days)`; `none` where the result is out of range. -/
def checkedSubDays (t : Instant) (days : Nat) : Option Instant :=
  if h : -377705116800 * 10 ^ 9 ≤ t.nanos - days * dayNanos then
    some ⟨t.nanos - days * dayNanos, h, by
      have hday : 0 ≤ (days : Int) * dayNanos := Int.mul_nonneg (Int.natCast_nonneg days) (by decide)
      have := t.upper
      omega⟩
  else none

theorem checkedSubDays_eq_none {t : Instant} {days : Nat} :
    t.checkedSubDays days = none ↔ t.nanos - days * dayNanos < -377705116800 * 10 ^ 9 := by
  unfold checkedSubDays
  split
  · next h => exact ⟨fun hnone => (by cases hnone), fun hlt => absurd h (Int.not_le.mpr hlt)⟩
  · next h => exact ⟨fun _ => Int.not_le.mp h, fun _ => rfl⟩

theorem checkedSubDays_eq_some {t c : Instant} {days : Nat} (h : t.checkedSubDays days = some c) :
    c.nanos = t.nanos - days * dayNanos := by
  unfold checkedSubDays at h
  split at h
  · rw [← Option.some.inj h]
  · cases h

end Instant

end ActantDb
