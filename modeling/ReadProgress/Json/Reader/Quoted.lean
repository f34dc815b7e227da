import ReadProgress.Json.Cursor

/-!
This module contains the reading of strings, and the passing over strings that nobody wants to know.
-/

namespace ReadProgress

namespace Json

def hexValue? (b : UInt8) : Option Nat :=
  if byte '0' ≤ b ∧ b ≤ byte '9' then some (b.toNat - 48)
  else if byte 'a' ≤ b ∧ b ≤ byte 'f' then some (b.toNat - 87)
  else if byte 'A' ≤ b ∧ b ≤ byte 'F' then some (b.toNat - 55)
  else none

def shortEscape? (b : UInt8) : Option UInt8 :=
  if b = byte '"' ∨ b = byte '\\' ∨ b = byte '/' then some b
  else if b = byte 'b' then some 0x08
  else if b = byte 'f' then some 0x0C
  else if b = byte 'n' then some 0x0A
  else if b = byte 'r' then some 0x0D
  else if b = byte 't' then some 0x09
  else none

/--
Whether a 16-bit word is the first one of a pair that stands for one character.
-/
def isLeading (n : Nat) : Bool :=
  0xD800 ≤ n && n ≤ 0xDBFF

/--
Whether a 16-bit word is the second one of a pair that stands for one character.
-/
def isTrailing (n : Nat) : Bool :=
  0xDC00 ≤ n && n ≤ 0xDFFF

namespace Reader

def takeInString : Reader UInt8 := do
  match ← take with
  | some b => pure b
  | none => fail .eofInString

def peekInString : Reader UInt8 := do
  match ← peek with
  | some b => pure b
  | none => fail .eofInString

def hexEscape : Reader Nat := do
  let a ← takeInString
  let b ← takeInString
  let c ← takeInString
  let d ← takeInString
  match hexValue? a, hexValue? b, hexValue? c, hexValue? d with
  | some a, some b, some c, some d => pure (((a * 16 + b) * 16 + c) * 16 + d)
  | _, _, _, _ => fail .invalidEscape

def nextInEscape (expected : UInt8) : Reader PUnit := do
  let b ← peekInString
  let _ ← take
  if b = expected then pure ⟨⟩ else fail .unexpectedEndOfEscape

/--
Read the number of a character behind a backslash and a `u`. A leading word has to be followed by
the escape of a trailing one.
-/
def unicodeEscape : Reader Bytes := do
  let n ← hexEscape
  if isTrailing n then
    fail .loneSurrogate
  else if isLeading n then
    nextInEscape (byte '\\')
    nextInEscape (byte 'u')
    let m ← hexEscape
    if isTrailing m then
      pure (utf8 (0x10000 + (n - 0xD800) * 0x400 + (m - 0xDC00)))
    else
      fail .loneSurrogate
  else
    pure (utf8 n)
where
  utf8 (n : Nat) : Bytes :=
    String.utf8EncodeChar (Char.ofNat n)

def escape : Reader Bytes := do
  let b ← takeInString
  match shortEscape? b with
  | some b => pure [b]
  | none => if b = byte 'u' then unicodeEscape else fail .invalidEscape

def isPlain (b : UInt8) : Bool :=
  0x20 ≤ b && b != byte '"' && b != byte '\\'

def stringBytes : Nat → Reader Bytes
  | 0 => fail .eofInString
  | turns + 1 => do
    let plain ← takeWhile isPlain
    let b ← takeInString
    if b = byte '"' then
      pure plain
    else if b = byte '\\' then
      let escaped ← escape
      let rest ← stringBytes turns
      pure (plain ++ escaped ++ rest)
    else
      fail .controlCharacter

/--
Read a string behind its opening quote. Bytes that make no text are refused. The place is found from
the end of the string, by going back over the bytes that it has from the first malformed one on,
where each escape counts as the bytes that it stands for.
-/
def string : Reader String := fun start =>
  match repeated stringBytes start with
  | .error e c => .error e c
  | .ok bytes c =>
    match textOf? bytes with
    | some s => .ok s c
    | none =>
      .error ⟨.invalidCodePoint, some (c.rest.length + (bytes.length - wellFormedLength bytes))⟩ c

/--
Pass over an escape behind its backslash. Words of pairs are not matched.
-/
def skipEscape : Reader PUnit := do
  let b ← takeInString
  match shortEscape? b with
  | some _ => pure ⟨⟩
  | none =>
    if b = byte 'u' then
      let _ ← hexEscape
    else
      fail .invalidEscape

/--
Pass over a string up to the closing quote, whatever text it makes. A control character is refused
before it is taken.
-/
def skipStringBytes : Nat → Reader PUnit
  | 0 => fail .eofInString
  | turns + 1 => do
    let _ ← takeWhile isPlain
    let b ← peekInString
    if b = byte '"' then
      let _ ← take
    else if b = byte '\\' then
      let _ ← take
      skipEscape
      skipStringBytes turns
    else
      fail .controlCharacter

def skipString : Reader PUnit :=
  repeated skipStringBytes

end Reader

end Json

end ReadProgress
