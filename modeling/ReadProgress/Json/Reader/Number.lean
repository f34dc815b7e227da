import ReadProgress.Json
import ReadProgress.Json.Cursor

/-!
This module contains the reading of numbers. A number without fraction and exponent that fits is an
integer, all others are in double precision.
-/

namespace ReadProgress

namespace Json

def isDigit (b : UInt8) : Bool :=
  byte '0' ≤ b && b ≤ byte '9'

def digitValue (b : UInt8) : Nat :=
  b.toNat - (byte '0').toNat

/--
Append digits to a number for as long as it is a 64-bit word. The second part of the result is the
number of digits that were left.
-/
def appendDigits (n : Nat) : Bytes → Nat × Nat
  | [] => (n, 0)
  | b :: rest =>
    let next := n * 10 + digitValue b
    if next < UInt64.size then appendDigits next rest else (n, (b :: rest).length)

/--
The number `n * 10 ^ exponent` in double precision, up to sign. There is none if it is too large.
Negative exponents below -308 are worked off in steps, which end early when nothing is left.
-/
def scaled? (n : Nat) (exponent : Int) : Option Float :=
  go n.toUInt64.toFloat exponent 3
where
  power (exponent : Nat) : Float :=
    OfScientific.ofScientific 1 false exponent
  go (f : Float) (exponent : Int) : Nat → Option Float
    | 0 => some f
    | fuel + 1 =>
      if exponent.natAbs ≤ 308 then
        if exponent < 0 then
          some (f / power exponent.natAbs)
        else
          let f := f * power exponent.natAbs
          if f.isInf then none else some f
      else if f == 0 then
        some f
      else if 0 ≤ exponent then
        none
      else
        go (f / power 308) (exponent + 308) fuel

namespace Reader

def float (negative : Bool) (n : Nat) (exponent : Int) : Reader Json :=
  match scaled? n exponent with
  | none => fail .numberOutOfRange
  | some f => pure (.float (if negative then -f else f).toBits)

/--
Take the digits of an exponent for as long as it stays below `2 ^ 31`. The result is none where it
does not.
-/
def exponentDigits (exponent : Nat) : Bytes → Reader (Option Nat)
  | [] => do
    let _ ← peek
    pure (some exponent)
  | b :: rest => do
    let _ ← take
    let next := exponent * 10 + digitValue b
    if next < 2147483648 then exponentDigits next rest else pure none

def exponent (negative : Bool) (n : Nat) (shift : Int) : Reader Json := do
  let _ ← take
  let positive ← do
    match ← peek with
    | some b =>
      if b = byte '+' then
        let _ ← take
        pure true
      else if b = byte '-' then
        let _ ← take
        pure false
      else
        pure true
    | none => pure true
  match ← take with
  | none => fail .eofInValue
  | some b =>
    if isDigit b then
      let c ← get
      match ← exponentDigits (digitValue b) (c.rest.takeWhile isDigit) with
      | some exponent => float negative n (if positive then shift + exponent else shift - exponent)
      | none =>
        if n ≠ 0 ∧ positive then
          fail .numberOutOfRange
        else
          let _ ← takeWhile isDigit
          float negative 0 0
    else
      fail .invalidNumber

def fraction (negative : Bool) (n : Nat) (shift : Int) : Reader Json := do
  let _ ← take
  let digits ← takeWhile isDigit
  if digits = [] then
    match ← peek with
    | some _ => failAhead .invalidNumber
    | none => failAhead .eofInValue
  else
    let (n, left) := appendDigits n digits
    let shift := shift - (digits.length - left : Nat)
    match ← peek with
    | some b =>
      if b = byte 'e' ∨ b = byte 'E' then
        exponent negative n shift
      else
        float negative n shift
    | none => float negative n shift

/--
The integer `n` with the given sign, or the number in double precision where there is no such
integer.
-/
def wholeNumber (negative : Bool) (n : Nat) : Json :=
  if negative then
    if 1 ≤ n ∧ n ≤ 9223372036854775808 then .integer (-n) else .float (-n.toUInt64.toFloat).toBits
  else
    .integer n

def unsigned (negative : Bool) : Reader Json := do
  match ← take with
  | none => fail .eofInValue
  | some first =>
    if !isDigit first then
      fail .invalidNumber
    else
      let digits ← if first = byte '0' then pure [] else takeWhile isDigit
      let (n, left) := appendDigits (digitValue first) digits
      match ← peek with
      | none => if left = 0 then pure (wholeNumber negative n) else float negative n left
      | some b =>
        if first = byte '0' ∧ isDigit b then
          failAhead .invalidNumber
        else if b = byte '.' then
          fraction negative n left
        else if b = byte 'e' ∨ b = byte 'E' then
          exponent negative n left
        else if left = 0 then
          pure (wholeNumber negative n)
        else
          float negative n left

def number : Reader Json := do
  match ← peek with
  | some b =>
    if b = byte '-' then
      let _ ← take
      unsigned true
    else
      unsigned false
  | none => unsigned false

end Reader

end Json

end ReadProgress
