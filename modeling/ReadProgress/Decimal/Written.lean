import ReadProgress.Decimal.Shortest

/-!
This module contains the written form of numbers in double precision, such as `0.00125`, `1000.0`
and `1.5e+16`.
-/

namespace ReadProgress

namespace Decimal

def isNegative (bits : UInt64) : Bool :=
  9223372036854775808 ≤ bits.toNat

/--
The written form of `n * 10 ^ k`, where `n` has no trailing zero. It is positional from `0.00001` to
below `10 ^ 16`, and always shows that it is no integer of the data format, by its point or its
exponent.
-/
def writtenDigits (n : Nat) (k : Int) : List Char :=
  let digits := Nat.toDigits 10 n
  -- the place of the point, counted from the first digit
  let point : Int := digits.length + k
  if 0 ≤ k ∧ point ≤ 16 then
    digits ++ List.replicate k.toNat '0' ++ ['.', '0']
  else if 0 < point ∧ point ≤ 16 then
    digits.take point.toNat ++ '.' :: digits.drop point.toNat
  else if -5 < point ∧ point ≤ 0 then
    '0' :: '.' :: List.replicate (-point).toNat '0' ++ digits
  else
    let exponent := point - 1
    digits.take 1 ++ (if digits.length = 1 then [] else '.' :: digits.drop 1) ++
      'e' :: (if exponent < 0 then '-' else '+') :: Nat.toDigits 10 exponent.natAbs

def written (bits : UInt64) : List Char :=
  let magnitude :=
    if bits.toNat % 9223372036854775808 = 0 then
      ['0', '.', '0']
    else
      let (n, k) := shortest bits
      writtenDigits n k
  if isNegative bits then '-' :: magnitude else magnitude

end Decimal

end ReadProgress
