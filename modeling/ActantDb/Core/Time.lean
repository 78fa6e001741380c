import Mathlib.Data.String.Basic

/-!
# RFC 3339 timestamps

Every timestamp column is text, and rows are ordered by that text. `now_rfc3339` is the `time` crate's `Rfc3339` rendering of a UTC instant: the sub-second part is printed without its trailing zeros and left out when it is zero, so the texts of two instants do not always sort as the instants do.
-/

namespace ActantDb

/-- A UTC instant in nanoseconds since the epoch, before the year 10000, the last that the format can render. -/
structure OffsetDateTime where
  nanos : Nat
  inRange : nanos < 253402300800 * 10 ^ 9

namespace OffsetDateTime

instance : LE OffsetDateTime := ⟨fun a b => a.nanos ≤ b.nanos⟩

instance (a b : OffsetDateTime) : Decidable (a ≤ b) := inferInstanceAs (Decidable (a.nanos ≤ b.nanos))

/-- Year, month and day of a day counted from the epoch, in the proleptic Gregorian calendar. -/
def civil (days : Nat) : Nat × Nat × Nat :=
  let z := days + 719468
  let dayOfEra := z % 146097
  let yearOfEra := (dayOfEra - dayOfEra / 1460 + dayOfEra / 36524 - dayOfEra / 146096) / 365
  let dayOfYear := dayOfEra - (365 * yearOfEra + yearOfEra / 4 - yearOfEra / 100)
  -- months counted from March, so that the leap day ends the year
  let month := (5 * dayOfYear + 2) / 153
  let day := dayOfYear - (153 * month + 2) / 5 + 1
  let month' := if month < 10 then month + 3 else month - 9
  (yearOfEra + z / 146097 * 400 + (if month' ≤ 2 then 1 else 0), month', day)

/-- The last `width` decimal digits of `n`. -/
def digits (width n : Nat) : List Char :=
  match width with
  | 0 => []
  | width + 1 => digits width (n / 10) ++ [Char.ofNat (48 + n % 10)]

def trimZeros (ds : List Char) : List Char := (ds.reverse.dropWhile (· = '0')).reverse

/-- The sub-second part: nothing for a whole second. -/
def subsecond (nanos : Nat) : List Char :=
  if nanos = 0 then [] else '.' :: trimZeros (digits 9 nanos)

def formatRfc3339 (t : OffsetDateTime) : String :=
  let seconds := t.nanos / 10 ^ 9
  let date := civil (seconds / 86400)
  let time := seconds % 86400
  String.ofList <|
    digits 4 date.1 ++ '-' :: digits 2 date.2.1 ++ '-' :: digits 2 date.2.2 ++ 'T' ::
      digits 2 (time / 3600) ++ ':' :: digits 2 (time / 60 % 60) ++ ':' :: digits 2 (time % 60) ++
      subsecond (t.nanos % 10 ^ 9) ++ ['Z']

/-- The instant so many seconds later. The format fails past its last instant, which is where this stops. -/
def plusSeconds (t : OffsetDateTime) (seconds : Nat) : OffsetDateTime where
  nanos := min (t.nanos + seconds * 10 ^ 9) (253402300800 * 10 ^ 9 - 1)
  inRange := Nat.lt_of_le_of_lt (Nat.min_le_right _ _) (by decide)

example : formatRfc3339 ⟨1709251199500000000, by decide⟩ = "2024-02-29T23:59:59.5Z" := by decide

end OffsetDateTime

end ActantDb
