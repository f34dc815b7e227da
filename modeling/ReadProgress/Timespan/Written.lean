import ReadProgress.Timespan

/-!
This module contains the written form of a length of time, such as `1year 2months 3days 4h 5m 6s`:
the parts that are not zero, from the largest to the smallest.
-/

namespace ReadProgress

namespace Timespan

/--
One part of a written length: how many of a unit there are, and the word for the unit.
-/
structure Part where
  count : Nat
  unit : String
deriving DecidableEq, Repr

/--
The word for a unit of which there are `count`; the long units are written in the plural where
there is more than one.
-/
def pluralWord (count : Nat) (word : String) : String :=
  if count = 1 then word else word ++ "s"

/--
All parts of a length, zero parts included. A year has 365.25 days and a month 30.44.
-/
def parts (d : Timespan) : List Part :=
  let years := d.seconds / 31557600
  let inYear := d.seconds % 31557600
  let months := inYear / 2630016
  let inMonth := inYear % 2630016
  let days := inMonth / 86400
  let inDay := inMonth % 86400
  [ ⟨years, pluralWord years "year"⟩,
    ⟨months, pluralWord months "month"⟩,
    ⟨days, pluralWord days "day"⟩,
    ⟨inDay / 3600, "h"⟩,
    ⟨inDay % 3600 / 60, "m"⟩,
    ⟨inDay % 60, "s"⟩,
    ⟨d.nanos / 1000000, "ms"⟩,
    ⟨d.nanos / 1000 % 1000, "us"⟩,
    ⟨d.nanos % 1000, "ns"⟩ ]

def Part.written (p : Part) : String :=
  toString p.count ++ p.unit

/--
The written form of a length; the empty length is `0s`.
-/
def written (d : Timespan) : String :=
  if d.isZero then
    "0s"
  else
    " ".intercalate ((d.parts.filter (·.count ≠ 0)).map Part.written)

end Timespan

end ReadProgress
