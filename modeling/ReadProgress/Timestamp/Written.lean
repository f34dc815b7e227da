import ReadProgress.Timestamp

/-!
This module contains the written form of moments, such as `2024-05-01T12:00:00.250Z`.
-/

namespace ReadProgress

def zeroPadded (width n : Nat) : String :=
  let digits := Nat.toDigits 10 n
  String.ofList (List.replicate (width - digits.length) '0' ++ digits)

namespace Timestamp

/--
The year, with a sign unless it has at most four digits and none is needed.
-/
def writtenYear (year : Int) : String :=
  let digits := zeroPadded 4 year.natAbs
  if 0 ≤ year ∧ year ≤ 9999 then digits
  else if year < 0 then "-" ++ digits
  else "+" ++ digits

/--
The fraction of a second, in as few groups of three digits as are exact.
-/
def writtenFraction (nano : Nat) : String :=
  if nano = 0 then ""
  else if nano % 1000000 = 0 then "." ++ zeroPadded 3 (nano / 1000000)
  else if nano % 1000 = 0 then "." ++ zeroPadded 6 (nano / 1000)
  else "." ++ zeroPadded 9 nano

/--
The written form of a moment. A leap second is the 60th of its minute.
-/
def written (t : Timestamp) : String :=
  let date := Date.ofDay t.day
  let second := t.second % 60 + t.nano / 1000000000
  writtenYear date.year ++ "-" ++ zeroPadded 2 date.month ++ "-" ++ zeroPadded 2 date.day ++
    "T" ++ zeroPadded 2 (t.second / 3600) ++ ":" ++ zeroPadded 2 (t.second / 60 % 60) ++ ":" ++
    zeroPadded 2 second ++ writtenFraction (t.nano % 1000000000) ++ "Z"

end Timestamp

end ReadProgress
