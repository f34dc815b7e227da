import ReadProgress.Date
import ReadProgress.Timespan

/-!
This module contains moments in time, to the nanosecond, and the time that passes between them.
-/

namespace ReadProgress

/--
A moment in universal time: the day, counted from 1 January 1970, the second of the day, and the
nanosecond of the second. The last second of a minute may be a leap second; it is then counted as
the second before it, with `10 ^ 9` nanoseconds more. The years go from -262143 to 262142.
-/
structure Timestamp where
  day : Int
  second : Nat
  nano : Nat
  le_day : -96465292 ≤ day := by omega
  day_le : day ≤ 95026236 := by omega
  second_lt : second < 86400 := by omega
  nano_lt : nano < 2000000000 := by omega
  leap : nano < 1000000000 ∨ second % 60 = 59 := by omega
deriving DecidableEq, Repr

namespace Timestamp

def epoch : Timestamp where
  day := 0
  second := 0
  nano := 0

instance : Inhabited Timestamp := ⟨epoch⟩

def make? (day : Int) (second nano : Nat) : Option Timestamp :=
  if h : (-96465292 ≤ day ∧ day ≤ 95026236) ∧ second < 86400 ∧ nano < 2000000000 ∧
      (nano < 1000000000 ∨ second % 60 = 59) then
    some {
      day, second, nano
      le_day := h.1.1
      day_le := h.1.2
      second_lt := h.2.1
      nano_lt := h.2.2.1
      leap := h.2.2.2
    }
  else
    none

/--
The seconds from the first moment of 1970, leap seconds not counted.
-/
def toSeconds (t : Timestamp) : Int :=
  t.day * 86400 + t.second

/--
The nanoseconds from `start` to `t`. A leap second that lies in between on the clock counts,
whatever the days.
-/
def nanosSince (t start : Timestamp) : Int :=
  let leap : Int :=
    if start.second < t.second ∧ 1000000000 ≤ start.nano then 1
    else if t.second < start.second ∧ 1000000000 ≤ t.nano then -1
    else 0
  (t.toSeconds - start.toSeconds + leap) * 1000000000 + ((t.nano : Int) - start.nano)

/--
The moment some nanoseconds later, as far as the calendar goes.
-/
def plusNanos? (t : Timestamp) (nanos : Nat) : Option Timestamp :=
  let total := t.nano + nanos
  let seconds := t.toSeconds + (total / 1000000000 : Nat)
  make? (seconds / 86400) (seconds % 86400).toNat (total % 1000000000)

theorem nanosSince_self (t : Timestamp) : t.nanosSince t = 0 := by
  simp [nanosSince]

theorem nanosSince_of_lt {t start : Timestamp} (ht : t.nano < 1000000000)
    (hs : start.nano < 1000000000) :
    t.nanosSince start =
      (t.toSeconds * 1000000000 + t.nano) - (start.toSeconds * 1000000000 + start.nano) := by
  have h1 : ¬ (start.second < t.second ∧ 1000000000 ≤ start.nano) := by omega
  have h2 : ¬ (t.second < start.second ∧ 1000000000 ≤ t.nano) := by omega
  simp only [nanosSince, h1, h2, if_false]
  omega

end Timestamp

end ReadProgress
