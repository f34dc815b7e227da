import ReadProgress.Decimal.Written
import ReadProgress.Json
import ReadProgress.Text.Bytes

/-!
This module contains the written form of values of the data format, byte by byte. There is a form
without any white space and one that is indented by two spaces for each level.
-/

namespace ReadProgress

namespace Json

/--
Where the written form has white space.
-/
inductive Layout where
  | compact
  | indented
deriving DecidableEq, Repr

namespace Layout

def newline (layout : Layout) (level : Nat) : Bytes :=
  match layout with
  | compact => []
  | indented => byte '\n' :: List.replicate (2 * level) (byte ' ')

def colon : Layout → Bytes
  | compact => [byte ':']
  | indented => [byte ':', byte ' ']

end Layout

def hexDigit (n : Nat) : UInt8 :=
  byte (Nat.digitChar n)

/--
A byte inside a string. Quotes, backslashes and control characters are escaped, all else stands for
itself.
-/
def escapeByte (b : UInt8) : Bytes :=
  if b = byte '"' then [byte '\\', byte '"']
  else if b = byte '\\' then [byte '\\', byte '\\']
  else if b = 0x08 then [byte '\\', byte 'b']
  else if b = 0x09 then [byte '\\', byte 't']
  else if b = 0x0A then [byte '\\', byte 'n']
  else if b = 0x0C then [byte '\\', byte 'f']
  else if b = 0x0D then [byte '\\', byte 'r']
  else if b < 0x20 then
    [byte '\\', byte 'u', byte '0', byte '0', hexDigit (b.toNat / 16), hexDigit (b.toNat % 16)]
  else [b]

def writeString (s : String) : Bytes :=
  byte '"' :: (bytesOf s).flatMap escapeByte ++ [byte '"']

def writeInteger (i : Int) : Bytes :=
  let digits := (Nat.toDigits 10 i.natAbs).map byte
  if i < 0 then byte '-' :: digits else digits

mutual

def write (layout : Layout) (level : Nat) : Json → Bytes
  | null => ascii "null"
  | boolean b => ascii (if b then "true" else "false")
  | integer i => writeInteger i
  | float bits => (Decimal.written bits).map byte
  | string s => writeString s
  | array [] => ascii "[]"
  | array (item :: items) =>
    byte '[' :: layout.newline (level + 1) ++ item.write layout (level + 1) ++
      writeItems layout (level + 1) items ++ layout.newline level ++ [byte ']']
  | object [] => [byte '\x7b', byte '\x7d']
  | object ((name, value) :: members) =>
    byte '\x7b' :: layout.newline (level + 1) ++ writeString name ++ layout.colon ++
      value.write layout (level + 1) ++ writeMembers layout (level + 1) members ++
      layout.newline level ++ [byte '\x7d']
termination_by structural value => value

/--
The written form of the items behind the first one, each with a comma in front.
-/
def writeItems (layout : Layout) (level : Nat) : List Json → Bytes
  | [] => []
  | item :: items =>
    byte ',' :: layout.newline level ++ item.write layout level ++ writeItems layout level items
termination_by structural items => items

/--
The written form of the members behind the first one, each with a comma in front.
-/
def writeMembers (layout : Layout) (level : Nat) : List (String × Json) → Bytes
  | [] => []
  | (name, value) :: members =>
    byte ',' :: layout.newline level ++ writeString name ++ layout.colon ++
      value.write layout level ++ writeMembers layout level members
termination_by structural members => members

end

/--
The text that a value has as a name. Only values without further ones in them can be names.
-/
def keyText? : Json → Option String
  | string s => some s
  | integer i => some (toString i)
  | boolean b => some (if b then "true" else "false")
  | float bits => some (String.ofList (Decimal.written bits))
  | null | array _ | object _ => none

/--
The object whose names are the texts of values, if all of them have one. Of members with one name,
the last one stays.
-/
def ofPairs? (pairs : List (Json × Json)) : Option Json := do
  let members ← pairs.mapM fun (key, value) => do
    let name ← key.keyText?
    pure (name, value)
  pure (object (Members.ofList members))

end Json

end ReadProgress
