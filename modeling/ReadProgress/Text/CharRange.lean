/-!
This module contains ranges of characters, which the tables of characters with some property are
made of.
-/

namespace ReadProgress

abbrev CharRange := Nat × Nat

def CharRange.has (range : CharRange) (c : Char) : Bool :=
  range.1 ≤ c.toNat && c.toNat ≤ range.2

end ReadProgress
