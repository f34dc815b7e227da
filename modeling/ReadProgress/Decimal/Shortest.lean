/-!
This module contains the shortest decimal forms of binary fractions. Each number in double precision
stands for an interval, that of the real numbers which round to it. Its shortest form is a point of
that interval on the coarsest decimal grid that has one, the nearest such point if there are two.
-/

namespace ReadProgress

namespace Decimal

/--
A positive number in double precision, as `4 * mantissa * 2 ^ exponent`, where the factor leaves
room for the ends of the interval.
-/
structure Binary where
  mantissa : Nat
  exponent : Int
  /-- Whether the numbers below lie closer together than those above. -/
  atPowerOfTwo : Bool
deriving DecidableEq, Repr

/--
The positive number with the given bits, of which the sign is passed over.
-/
def Binary.ofBits (bits : UInt64) : Binary :=
  let fraction : Nat := bits.toNat % 4503599627370496
  let biased : Nat := bits.toNat / 4503599627370496 % 2048
  if biased = 0 then
    ⟨fraction, -1076, false⟩
  else
    ⟨fraction + 4503599627370496, Int.ofNat biased - 1077, fraction == 0 && biased != 1⟩

/--
The lower end of the interval, in units of `2 ^ exponent`.
-/
def Binary.low (x : Binary) : Nat :=
  if x.atPowerOfTwo then 4 * x.mantissa - 1 else 4 * x.mantissa - 2

def Binary.high (x : Binary) : Nat :=
  4 * x.mantissa + 2

/--
Whether `n / scale`, in units of `2 ^ exponent`, lies in the interval. The ends belong to it if the
mantissa is even.
-/
def Binary.covers (x : Binary) (n scale : Nat) : Bool :=
  if x.mantissa % 2 = 0 then
    x.low * scale ≤ n && n ≤ x.high * scale
  else
    x.low * scale < n && n < x.high * scale

/--
The multiple of `10 ^ k` that lies in the interval, if there is one, divided by `10 ^ k`. Of two, it
is the one nearer to the number itself, and an even one if both are equally near.
-/
def Binary.gridPoint? (x : Binary) (k : Int) : Option Nat :=
  -- `step / scale` is `10 ^ k` in units of `2 ^ exponent`
  let step := Nat.pow 10 k.toNat * Nat.pow 2 (-x.exponent).toNat
  let scale := Nat.pow 10 (-k).toNat * Nat.pow 2 x.exponent.toNat
  let exact := 4 * x.mantissa * scale
  let below := exact / step
  let inBelow := x.covers (below * step) scale
  let inAbove := x.covers ((below + 1) * step) scale
  let toBelow := exact - below * step
  let toAbove := (below + 1) * step - exact
  if inBelow && inAbove then
    some (if toBelow < toAbove ∨ (toBelow = toAbove ∧ below % 2 = 0) then below else below + 1)
  else if inBelow then some below
  else if inAbove then some (below + 1)
  else none

/--
The grid point on the coarsest of the grids `10 ^ k`, `10 ^ (k - 1)`, and so on.
-/
def Binary.firstGridPoint (x : Binary) (k : Int) : Nat → Nat × Int
  | 0 => (0, k)
  | fuel + 1 =>
    match x.gridPoint? k with
    | some n => (n, k)
    | none => x.firstGridPoint (k - 1) fuel

/--
The digits and the exponent of the shortest decimal form of a number in double precision. No such
number needs a finer grid than `10 ^ -324` or has a point of a coarser one than `10 ^ 308`.
-/
def shortest (bits : UInt64) : Nat × Int :=
  (Binary.ofBits bits).firstGridPoint 308 650

end Decimal

end ReadProgress
