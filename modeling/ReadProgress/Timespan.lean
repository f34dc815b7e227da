/-!
This module contains lengths of time, counted in whole nanoseconds.
-/

namespace ReadProgress

/--
A length of time: whole seconds, of which there are fewer than `2 ^ 64`, and the nanoseconds of the
second that is not complete.
-/
structure Timespan where
  seconds : Nat
  nanos : Nat
  seconds_lt : seconds < 18446744073709551616 := by omega
  nanos_lt : nanos < 1000000000 := by omega
deriving DecidableEq, Repr

namespace Timespan

def zero : Timespan where
  seconds := 0
  nanos := 0

instance : Inhabited Timespan := ⟨zero⟩

def isZero (d : Timespan) : Bool :=
  d.seconds == 0 && d.nanos == 0

def toNanos (d : Timespan) : Nat :=
  d.seconds * 1000000000 + d.nanos

/--
A length from seconds and any number of nanoseconds, which fill up further seconds. There is none
if the seconds do not fit.
-/
def ofParts? (seconds nanos : Nat) : Option Timespan :=
  if h : seconds + nanos / 1000000000 < 18446744073709551616 then
    some {
      seconds := seconds + nanos / 1000000000
      nanos := nanos % 1000000000
    }
  else
    none

def ofMillis (millis : UInt64) : Timespan where
  seconds := millis.toNat / 1000
  nanos := millis.toNat % 1000 * 1000000
  seconds_lt := by have := millis.toNat_lt; omega

theorem isZero_iff (d : Timespan) : d.isZero = true ↔ d = zero := by
  cases d
  simp [isZero, zero]

theorem toNanos_zero : zero.toNanos = 0 := rfl

theorem toNanos_inj {d e : Timespan} : d.toNanos = e.toNanos ↔ d = e := by
  obtain ⟨s, n, hs, hn⟩ := d
  obtain ⟨s', n', hs', hn'⟩ := e
  simp only [toNanos, mk.injEq]
  omega

theorem toNanos_of_ofParts? {s n : Nat} {d : Timespan} (h : ofParts? s n = some d) :
    d.toNanos = s * 1000000000 + n := by
  unfold ofParts? at h
  split at h
  . obtain rfl := Option.some.inj h
    simp only [toNanos]
    omega
  . simp at h

theorem toNanos_ofMillis (millis : UInt64) :
    (ofMillis millis).toNanos = millis.toNat * 1000000 := by
  simp only [toNanos, ofMillis]
  omega

end Timespan

end ReadProgress
