import Mathlib.Data.Rat.Floor

/-! # Instants and durations
An instant is a number of microseconds since the epoch, which is what a `datetime` holds and what a
`DateTime` column keeps. A duration given in seconds becomes microseconds the way
`timedelta(seconds=…)` does it: to the nearest microsecond, ties to the even one. -/

namespace Jasil

/-- An instant, in microseconds since the epoch. -/
abbrev Instant := ℤ

/-- Round to the nearest integer, a tie to the even neighbour. -/
def roundHalfEven (q : ℚ) : ℤ :=
  let fraction := q - ⌊q⌋
  if fraction < 1 / 2 then ⌊q⌋
  else if 1 / 2 < fraction then ⌊q⌋ + 1
  else if ⌊q⌋ % 2 = 0 then ⌊q⌋ else ⌊q⌋ + 1

/-- `timedelta(seconds=seconds)`, in microseconds. -/
def timedelta (seconds : ℚ) : ℤ := roundHalfEven (seconds * 1000000)

/-- A whole number is rounded to itself. -/
@[simp] theorem roundHalfEven_intCast (i : ℤ) : roundHalfEven i = i := by
  simp [roundHalfEven]

/-- Proleptic Gregorian year, month and day of a day number counted from the epoch. The count is taken
in eras of 400 years, in years that start in March. -/
def civilFromDays (days : ℤ) : ℤ × ℤ × ℤ :=
  let shifted := days + 719468
  let era := shifted / 146097
  let dayOfEra := shifted % 146097
  let yearOfEra :=
    (dayOfEra - dayOfEra / 1460 + dayOfEra / 36524 - dayOfEra / 146096) / 365
  let dayOfYear := dayOfEra - (365 * yearOfEra + yearOfEra / 4 - yearOfEra / 100)
  let marchMonth := (5 * dayOfYear + 2) / 153
  let day := dayOfYear - (153 * marchMonth + 2) / 5 + 1
  let month := if marchMonth < 10 then marchMonth + 3 else marchMonth - 9
  (yearOfEra + era * 400 + (if month ≤ 2 then 1 else 0), month, day)

/-- A number in decimal, with leading zeros up to `width`. -/
def zeroPadded (width : ℕ) (n : ℤ) : String :=
  let digits := toString n.toNat
  String.ofList (List.replicate (width - digits.length) '0') ++ digits

/-- `as_utc(moment).isoformat()`. -/
def isoformat (t : Instant) : String :=
  let (year, month, day) := civilFromDays (t / 86400000000)
  let inDay := t % 86400000000
  let micros := inDay % 1000000
  zeroPadded 4 year ++ "-" ++ zeroPadded 2 month ++ "-" ++ zeroPadded 2 day ++ "T"
    ++ zeroPadded 2 (inDay / 3600000000) ++ ":" ++ zeroPadded 2 (inDay / 60000000 % 60) ++ ":"
    ++ zeroPadded 2 (inDay / 1000000 % 60)
    ++ (if micros = 0 then "" else "." ++ zeroPadded 6 micros) ++ "+00:00"

/-- A whole number of seconds is kept exactly. -/
@[simp] theorem timedelta_intCast (i : ℤ) : timedelta i = i * 1000000 := by
  have h : ((i : ℚ) * 1000000) = ((i * 1000000 : ℤ) : ℚ) := by push_cast; ring
  rw [timedelta, h, roundHalfEven_intCast]

end Jasil
