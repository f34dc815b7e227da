import ReadProgress.Decimal.Written
import ReadProgress.Text.Quoted
import ReadProgress.Timespan.Reading
import ReadProgress.Timestamp.Reading

/-!
This module contains the reasons for which a text in the data format, or a value that it contains,
is refused.
-/

namespace ReadProgress

namespace Json

/--
What was found where something else was expected.
-/
inductive Found where
  | null
  | boolean (b : Bool)
  | integer (i : Int)
  | float (bits : UInt64)
  | string (s : String)
  | sequence
  | map
deriving DecidableEq, Repr

def Found.message : Found → String
  | null => "null"
  | boolean b => "boolean `" ++ (if b then "true" else "false") ++ "`"
  | integer i => "integer `" ++ toString i ++ "`"
  | float bits => "floating point `" ++ String.ofList (Decimal.written bits) ++ "`"
  | string s => "string " ++ quoted s
  | sequence => "sequence"
  | map => "map"

/--
Why a text or a value is refused.
-/
inductive Reason where
  | eofInList
  | eofInObject
  | eofInString
  | eofInValue
  | expectedColon
  | expectedListEnd
  | expectedObjectEnd
  | expectedIdent
  | expectedValue
  | invalidEscape
  | invalidNumber
  | numberOutOfRange
  | invalidCodePoint
  | controlCharacter
  | keyMustBeString
  | loneSurrogate
  | trailingComma
  | trailingCharacters
  | unexpectedEndOfEscape
  | recursionLimit
  | missingField (name : String)
  | duplicateField (name : String)
  | invalidType (found : Found) (expected : String)
  | invalidValue (found : Found) (expected : String)
  | invalidLength (length : Nat) (expected : String)
  | unknownVariant (name expected : String)
  | ttl (error : Timespan.ReadError)
  | time (error : Timestamp.ReadError)
deriving DecidableEq, Repr

def Reason.message : Reason → String
  | eofInList => "EOF while parsing a list"
  | eofInObject => "EOF while parsing an object"
  | eofInString => "EOF while parsing a string"
  | eofInValue => "EOF while parsing a value"
  | expectedColon => "expected `:`"
  | expectedListEnd => "expected `,` or `]`"
  | expectedObjectEnd => "expected `,` or `\x7d`"
  | expectedIdent => "expected ident"
  | expectedValue => "expected value"
  | invalidEscape => "invalid escape"
  | invalidNumber => "invalid number"
  | numberOutOfRange => "number out of range"
  | invalidCodePoint => "invalid unicode code point"
  | controlCharacter => "control character (\\u0000-\\u001F) found while parsing a string"
  | keyMustBeString => "key must be a string"
  | loneSurrogate => "lone leading surrogate in hex escape"
  | trailingComma => "trailing comma"
  | trailingCharacters => "trailing characters"
  | unexpectedEndOfEscape => "unexpected end of hex escape"
  | recursionLimit => "recursion limit exceeded"
  | missingField name => "missing field `" ++ name ++ "`"
  | duplicateField name => "duplicate field `" ++ name ++ "`"
  | invalidType found expected => "invalid type: " ++ found.message ++ ", expected " ++ expected
  | invalidValue found expected => "invalid value: " ++ found.message ++ ", expected " ++ expected
  | invalidLength length expected =>
    "invalid length " ++ toString length ++ ", expected " ++ expected
  | unknownVariant name expected => "unknown variant `" ++ name ++ "`, expected " ++ expected
  | ttl error => error.message
  | time error => error.message

/--
Whether a reason is one that no operation survives: the text of a policy for removal has more
seconds than there can be.
-/
def Reason.isFatal (reason : Reason) : Bool :=
  reason = .ttl .secondsOverflow

/--
A place in a text: the line, counted from one, and the number of bytes that have been read of it.
-/
structure Position where
  line : Nat
  column : Nat
deriving DecidableEq, Repr

def Position.behind (bytes : List UInt8) : Position where
  line := 1 + bytes.count 10
  column := (bytes.reverse.takeWhile (· ≠ 10)).length

/--
A refusal of a text or a value. Values have no places.
-/
structure Refusal where
  reason : Reason
  position : Option Position
deriving DecidableEq, Repr

def Refusal.message (refusal : Refusal) : String :=
  match refusal.position with
  | none => refusal.reason.message
  | some position =>
    refusal.reason.message ++ " at line " ++ toString position.line ++ " column " ++
      toString position.column

end Json

end ReadProgress
