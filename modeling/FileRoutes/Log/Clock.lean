import FileRoutes.Decimal.Digits

/-!
# Times in the log

A time is written in universal time with six places of a second. It is given as a number of
nanoseconds since the start of 1970; the day is found by counting years from March, so that
the day a leap year adds is the last one of its year.
-/

namespace FileRoutes.Log

/-- A number with zeros in front up to a width. -/
def padded (width n : Nat) : String :=
  let ds := Decimal.digitsOf n
  String.ofList (List.replicate (width - ds.length) '0' ++ ds)

/-- The year, the month and the day of the month, for a number of days since the start of
1970. -/
def dateOf (days : Nat) : Nat × Nat × Nat :=
  let fromMarch := days + 719468
  let era := fromMarch / 146097
  let dayOfEra := fromMarch % 146097
  let yearOfEra := (dayOfEra - dayOfEra / 1460 + dayOfEra / 36524 - dayOfEra / 146096) / 365
  let dayOfYear := dayOfEra - (365 * yearOfEra + yearOfEra / 4 - yearOfEra / 100)
  let monthFromMarch := (5 * dayOfYear + 2) / 153
  let day := dayOfYear - (153 * monthFromMarch + 2) / 5 + 1
  let month := if monthFromMarch < 10 then monthFromMarch + 3 else monthFromMarch - 9
  let year := yearOfEra + era * 400
  (if month ≤ 2 then year + 1 else year, month, day)

/-- A number of nanoseconds since the start of 1970, as a time. -/
def timeText (nanoseconds : Nat) : String :=
  let microseconds := nanoseconds / 1000
  let seconds := microseconds / 1000000
  let (year, month, day) := dateOf (seconds / 86400)
  padded 4 year ++ "-" ++ padded 2 month ++ "-" ++ padded 2 day ++ "T" ++
    padded 2 (seconds / 3600 % 24) ++ ":" ++ padded 2 (seconds / 60 % 60) ++ ":" ++
    padded 2 (seconds % 60) ++ "." ++ padded 6 (microseconds % 1000000) ++ "Z"

/-- A day behind a leap day, and the last moment of a year. -/
example : timeText 951868800000000000 = "2000-03-01T00:00:00.000000Z" ∧
    timeText 1735689599999999999 = "2024-12-31T23:59:59.999999Z" := by decide +kernel

end FileRoutes.Log
