/-!
This module contains the reading of natural numbers up to a limit, and the texts that are numbers
with a fraction or an exponent.
-/

namespace ReadProgress

/--
Why a text is no natural number.
-/
inductive NumeralError where
  | empty
  | invalidDigit
  | tooLarge
deriving DecidableEq, Repr

def NumeralError.message : NumeralError → String
  | empty => "cannot parse integer from empty string"
  | invalidDigit => "invalid digit found in string"
  | tooLarge => "number too large to fit in target type"

def readDigits (limit value : Nat) : List Char → Except NumeralError Nat
  | [] => .ok value
  | c :: rest =>
    if c.isDigit then
      let value := 10 * value + (c.toNat - '0'.toNat)
      if value ≤ limit then readDigits limit value rest else .error .tooLarge
    else
      .error .invalidDigit

/--
Read a natural number. There may be a plus sign in front and any number of zeros.
-/
def readNumeral (limit : Nat) : List Char → Except NumeralError Nat
  | [] => .error .empty
  | ['+'] => .error .invalidDigit
  | '+' :: digits => readDigits limit 0 digits
  | digits => readDigits limit 0 digits

def dropSign : List Char → List Char
  | '+' :: rest | '-' :: rest => rest
  | text => text

def isExponent : List Char → Bool
  | [] => true
  | 'e' :: rest | 'E' :: rest => dropSign rest ≠ [] && (dropSign rest).all Char.isDigit
  | _ => false

/--
Whether a text is a number. There is a digit in front of the point or behind it, and the two numbers
without an end and the one that is none have names.
-/
def isNumber (text : List Char) : Bool :=
  let text := dropSign text
  let whole := text.takeWhile Char.isDigit
  let named := ["inf", "infinity", "nan"].contains (String.ofList (text.map Char.toLower))
  named || match text.dropWhile Char.isDigit with
    | '.' :: rest =>
      !(whole ++ rest.takeWhile Char.isDigit).isEmpty && isExponent (rest.dropWhile Char.isDigit)
    | rest => !whole.isEmpty && isExponent rest

end ReadProgress
