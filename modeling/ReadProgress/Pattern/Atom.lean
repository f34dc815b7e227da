import ReadProgress.Pattern
import ReadProgress.Text.Blank

/-!
This module contains the atoms of patterns: characters, escapes and dots.
-/

namespace ReadProgress

namespace Pattern

/--
A part of a pattern that has no parts itself.
-/
inductive Atom where
  | char (c : Char) (asByte : Bool)
  /-- Any character, unless a line ends with it. -/
  | any
  | shorthand (negated : Bool)
  | place (ofWord : Bool)
deriving DecidableEq, Repr

namespace Atom

def isUsable (switches : Switches) : Atom → Bool
  | char c asByte =>
    if switches.unicode then !switches.ignoresCase else !(asByte && '\x80' ≤ c)
  | any => switches.unicode
  | shorthand negated => !switches.unicode && !negated
  | place _ => true

def isUsableInSet (switches : Switches) : Atom → Bool
  | char c _ => switches.unicode || c < '\x80'
  | shorthand negated => !switches.unicode && !negated
  | any | place _ => false

def outline (switches : Switches) : Atom → Outline
  | place ofWord => ⟨0, ofWord && switches.unicode⟩
  | char _ _ | any | shorthand _ => .leaf

end Atom

/--
Pass over white space and remarks, which begin with a number sign and end with a line.
-/
def skipRemarks (inRemark : Bool) : List Char → List Char
  | [] => []
  | c :: rest =>
    if inRemark then skipRemarks (c != '\n') rest
    else if isBlank c then skipRemarks false rest
    else if c = '#' then skipRemarks true rest
    else c :: rest

def skip (switches : Switches) (text : List Char) : List Char :=
  if switches.verbose then skipRemarks false text else text

def hexDigit? (c : Char) : Option Nat :=
  if c.isDigit then some (c.toNat - '0'.toNat)
  else if 'a' ≤ c ∧ c ≤ 'f' then some (c.toNat - 'a'.toNat + 10)
  else if 'A' ≤ c ∧ c ≤ 'F' then some (c.toNat - 'A'.toNat + 10)
  else none

def readHex (switches : Switches) : (digits value : Nat) → List Char → Option (Char × List Char)
  | 0, value, text =>
    if value.isValidChar then some (.ofNat value, skip switches text) else none
  | digits + 1, value, text =>
    match skip switches text with
    | [] => none
    | c :: rest => do
      let digit ← hexDigit? c
      readHex switches digits (16 * value + digit) rest

/--
Read what is behind a backslash. Numbers of groups and classes of Unicode cannot be used.
-/
def readEscape (switches : Switches) : List Char → Option (Atom × List Char)
  | [] => none
  | c :: rest =>
    match c with
    | 'x' => (readHex switches 2 0 rest).map fun (c, rest) => (.char c true, rest)
    | 'u' => (readHex switches 4 0 rest).map fun (c, rest) => (.char c false, rest)
    | 'U' => (readHex switches 8 0 rest).map fun (c, rest) => (.char c false, rest)
    | 'd' | 's' | 'w' => some (.shorthand false, rest)
    | 'D' | 'S' | 'W' => some (.shorthand true, rest)
    | 'a' => some (.char '\x07' false, rest)
    | 't' => some (.char '\t' false, rest)
    | 'n' => some (.char '\n' false, rest)
    | 'v' => some (.char '\x0b' false, rest)
    | 'f' => some (.char '\x0c' false, rest)
    | 'r' => some (.char '\r' false, rest)
    | 'A' | 'z' => some (.place false, rest)
    | 'b' | 'B' | '<' | '>' => some (.place true, rest)
    | c => if c < '\x80' ∧ ¬ c.isAlphanum then some (.char c false, rest) else none

end Pattern

end ReadProgress
