/-!
This module contains the bytes of texts. Texts are stored in UTF-8; reading them back succeeds on
exactly the bytes of texts.
-/

namespace ReadProgress

abbrev Bytes := List UInt8

def bytesOf (text : String) : Bytes :=
  text.toUTF8.data.toList

def textOf? (bytes : Bytes) : Option String :=
  String.fromUTF8? ⟨bytes.toArray⟩

def byte (c : Char) : UInt8 :=
  c.toNat.toUInt8

def ascii (text : String) : Bytes :=
  text.toList.map byte

/--
How many bytes in front are those of a text: up to the end, or to the first character that is
malformed.
-/
def wellFormedLength (bytes : Bytes) : Nat :=
  go ⟨bytes.toArray⟩ 0 bytes.length
where
  go (bytes : ByteArray) (start : Nat) : Nat → Nat
    | 0 => start
    | fuel + 1 =>
      match bytes.utf8DecodeChar? start with
      | some c => go bytes (start + c.utf8Size) fuel
      | none => start

@[simp]
theorem textOf?_bytesOf (text : String) : textOf? (bytesOf text) = some text := by
  have h : (⟨(bytesOf text).toArray⟩ : ByteArray) = text.toUTF8 := by
    simp [bytesOf]
  rw [textOf?, h, String.fromUTF8?]
  exact dif_pos text.isValidUTF8

theorem bytesOf_inj {s t : String} : bytesOf s = bytesOf t ↔ s = t := by
  constructor
  . intro h
    have := congrArg textOf? h
    simpa using this
  . exact congrArg bytesOf

end ReadProgress
