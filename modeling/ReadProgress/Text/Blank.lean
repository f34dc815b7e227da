/-!
This module contains white space as Unicode defines it, and the two ways in which text is freed of
it.
-/

namespace ReadProgress

/--
The characters with the Unicode property `White_Space`.
-/
def isBlank (c : Char) : Bool :=
  let n := c.toNat
  (9 ≤ n && n ≤ 13) || n == 0x20 || n == 0x85 || n == 0xA0 || n == 0x1680 ||
    (0x2000 ≤ n && n ≤ 0x200A) || n == 0x2028 || n == 0x2029 || n == 0x202F || n == 0x205F ||
    n == 0x3000

theorem isBlank_of_isWhitespace {c : Char} (h : c.isWhitespace = true) : isBlank c = true := by
  simp only [Char.isWhitespace, Bool.or_eq_true, decide_eq_true_eq] at h
  rcases h with ((rfl | rfl) | rfl) | rfl <;> decide

def skipBlank (text : List Char) : List Char :=
  text.dropWhile isBlank

def trimBlank (text : List Char) : List Char :=
  (skipBlank (skipBlank text).reverse).reverse

@[simp]
theorem skipBlank_nil : skipBlank [] = [] := rfl

theorem skipBlank_of_not_isBlank {c : Char} (h : isBlank c = false) (rest : List Char) :
    skipBlank (c :: rest) = c :: rest := by
  simp [skipBlank, h]

end ReadProgress
