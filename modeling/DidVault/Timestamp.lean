/-!
# Times of issue

A time is a number of seconds since the beginning of 1970 and of nanoseconds
behind it; a thousand million nanoseconds or more stand for a leap second.  It
is written as date and time of day, to the second, in the Gregorian calendar.
-/

namespace DidVault

/-- A point in time. -/
structure Timestamp where
  seconds : Int
  nanoseconds : Nat := 0
  deriving Repr, DecidableEq, Inhabited

/-- A date of the Gregorian calendar. -/
structure Date where
  year : Int
  month : Nat
  day : Nat
  deriving Repr, DecidableEq

namespace Date

/-- The date of a day, counted from the first of January 1970.  Years are taken
to begin in March, and to come in eras of four hundred. -/
def ofDay (day : Int) : Date :=
  let shifted := day + 719468
  let era := shifted / 146097
  let dayOfEra := (shifted % 146097).toNat
  let yearOfEra :=
    (dayOfEra - dayOfEra / 1460 + dayOfEra / 36524 - dayOfEra / 146096) / 365
  let dayOfYear :=
    dayOfEra - (365 * yearOfEra + yearOfEra / 4 - yearOfEra / 100)
  let shiftedMonth := (5 * dayOfYear + 2) / 153
  let month := if shiftedMonth < 10 then shiftedMonth + 3 else shiftedMonth - 9
  { year := yearOfEra + era * 400 + (if month ≤ 2 then 1 else 0)
    month
    day := dayOfYear - (153 * shiftedMonth + 2) / 5 + 1 }

end Date

namespace Timestamp

/-- A number with at least `width` digits. -/
def padded (width n : Nat) : String :=
  let digits := Nat.toDigits 10 n
  String.ofList (List.replicate (width - digits.length) '0' ++ digits)

/-- A year of four digits; any other has a sign. -/
def yearText (year : Int) : String :=
  if 0 ≤ year ∧ year ≤ 9999 then padded 4 year.natAbs
  else (if year < 0 then "-" else "+") ++ padded 4 year.natAbs

/-- The text of a point in time. -/
def render (t : Timestamp) : String :=
  let date := Date.ofDay (t.seconds / 86400)
  let second := (t.seconds % 86400).toNat
  let shown := second % 60 + (if 1000000000 ≤ t.nanoseconds then 1 else 0)
  yearText date.year ++ "-" ++ padded 2 date.month ++ "-" ++
    padded 2 date.day ++ "T" ++ padded 2 (second / 3600) ++ ":" ++
      padded 2 (second / 60 % 60) ++ ":" ++ padded 2 shown
    ++ "Z"

end Timestamp

end DidVault
