/-!
This module contains the calendar: dates of the proleptic Gregorian calendar and the count of days
that belongs to each.
-/

namespace ReadProgress

/--
A date. Year 0 is the year before year 1.
-/
structure Date where
  year : Int
  month : Nat
  day : Nat
deriving DecidableEq, Repr

namespace Date

def isLeapYear (year : Int) : Bool :=
  year % 4 == 0 && (year % 100 != 0 || year % 400 == 0)

def daysInMonth (year : Int) (month : Nat) : Nat :=
  match month with
  | 1 | 3 | 5 | 7 | 8 | 10 | 12 => 31
  | 4 | 6 | 9 | 11 => 30
  | 2 => if isLeapYear year then 29 else 28
  | _ => 0

def isValid (date : Date) : Bool :=
  1 ≤ date.day && date.day ≤ daysInMonth date.year date.month

/--
The days from 1 January 1970 to a date. Years are taken to begin in March, so that the day that
leap years have on top is the last one, and are grouped by 400, after which the calendar repeats.
-/
def toDay (date : Date) : Int :=
  let year := if date.month ≤ 2 then date.year - 1 else date.year
  let month : Int := if date.month ≤ 2 then date.month + 9 else date.month - 3
  let ofEra := year % 400
  let ofYear := (153 * month + 2) / 5 + date.day - 1
  year / 400 * 146097 + (ofEra * 365 + ofEra / 4 - ofEra / 100 + ofYear) - 719468

/--
The date that lies the given number of days after 1 January 1970.
-/
def ofDay (day : Int) : Date :=
  let shifted := day + 719468
  let inEra := shifted % 146097
  let ofEra := (inEra - inEra / 1460 + inEra / 36524 - inEra / 146096) / 365
  let inYear := inEra - (365 * ofEra + ofEra / 4 - ofEra / 100)
  let month := (5 * inYear + 2) / 153
  let year := shifted / 146097 * 400 + ofEra
  {
    year := if month < 10 then year else year + 1
    month := (if month < 10 then month + 3 else month - 9).toNat
    day := (inYear - (153 * month + 2) / 5 + 1).toNat
  }

example : toDay ⟨1970, 1, 1⟩ = 0 ∧ toDay ⟨2000, 3, 1⟩ = 11017 ∧ ofDay 19782 = ⟨2024, 2, 29⟩ := by
  decide

end Date

end ReadProgress
