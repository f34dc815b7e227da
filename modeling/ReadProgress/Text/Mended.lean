import ReadProgress.Text.Bytes

/-!
This module contains the texts of bytes some of which may be malformed. Whatever is no character,
and might not be the beginning of one either, is replaced.
-/

namespace ReadProgress

/--
How many bytes follow the first one of a character, and between which bounds the next one is.
-/
def followers (b : UInt8) : Nat × UInt8 × UInt8 :=
  if b < 0xc2 then (0, 0x80, 0xbf)
  else if b < 0xe0 then (1, 0x80, 0xbf)
  else if b = 0xe0 then (2, 0xa0, 0xbf)
  else if b = 0xed then (2, 0x80, 0x9f)
  else if b < 0xf0 then (2, 0x80, 0xbf)
  else if b = 0xf0 then (3, 0x90, 0xbf)
  else if b < 0xf4 then (3, 0x80, 0xbf)
  else if b = 0xf4 then (3, 0x80, 0x8f)
  else (0, 0x80, 0xbf)

/--
How many bytes in front go on with a character that a number of bytes is missing of.
-/
def continuedLength : Nat × UInt8 × UInt8 → Bytes → Nat
  | (missing + 1, low, high), b :: rest =>
    if low ≤ b ∧ b ≤ high then continuedLength (missing, 0x80, 0xbf) rest + 1 else 0
  | _, _ => 0

/--
The text of some bytes. A character that is broken off is replaced as a whole, and so is each byte
that cannot begin a character.
-/
def mendedText (bytes : Bytes) : String :=
  match textOf? bytes with
  | some text => text
  | none => String.join (pieces bytes)
where
  pieces : Bytes → List String
    | [] => []
    | b :: rest =>
      let length := continuedLength (followers b) rest
      (textOf? (b :: rest.take length)).getD "\ufffd" :: pieces (rest.drop length)
  termination_by bytes => bytes.length

@[simp]
theorem mendedText_bytesOf (text : String) : mendedText (bytesOf text) = text := by
  simp [mendedText]

end ReadProgress
