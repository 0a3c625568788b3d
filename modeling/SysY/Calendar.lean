import SysY.Text.Words

/-! # Points in time

Microseconds since the start of 1970 as a date and a time of day, in the proleptic Gregorian
calendar and without leap seconds. -/

namespace SysY.Calendar

/-- A day of the calendar. -/
structure Date where
  year : Int
  month : Nat
  day : Nat
deriving DecidableEq, Repr

/-- The date that is a number of days after 1970-01-01. Years are counted from March on, so that a
leap day is the last day of its year, and eras are spans of 400 years. -/
def Date.ofDays (days : Int) : Date :=
  let shifted := days + 719468
  let era := shifted.fdiv 146097
  let dayOfEra := (shifted.fmod 146097).toNat
  let yearOfEra := (dayOfEra - dayOfEra / 1460 + dayOfEra / 36524 - dayOfEra / 146096) / 365
  let dayOfYear := dayOfEra - (365 * yearOfEra + yearOfEra / 4 - yearOfEra / 100)
  let marchMonth := (5 * dayOfYear + 2) / 153
  let month := if marchMonth < 10 then marchMonth + 3 else marchMonth - 9
  { year := yearOfEra + era * 400 + (if month ≤ 2 then 1 else 0)
    month := month
    day := dayOfYear - (153 * marchMonth + 2) / 5 + 1 }

/-- A number with at least `width` digits. -/
def digits (width n : Nat) : String := Text.padLeft width '0' (toString n)

/-- A year with at least four digits. -/
def yearText (y : Int) : String := (if y < 0 then "-" else "") ++ digits 4 y.natAbs

/-- Microseconds since the start of 1970 as text, for example
`2024-02-29T00:00:00.000001Z`. -/
def timestamp (micros : Int) : String :=
  let date := Date.ofDays (micros.fdiv 86400000000)
  let inDay := (micros.fmod 86400000000).toNat
  let seconds := inDay / 1000000
  yearText date.year ++ "-" ++ digits 2 date.month ++ "-" ++ digits 2 date.day ++ "T" ++
    digits 2 (seconds / 3600) ++ ":" ++ digits 2 (seconds / 60 % 60) ++ ":" ++
    digits 2 (seconds % 60) ++ "." ++ digits 6 (inDay % 1000000) ++ "Z"

end SysY.Calendar
