import ReadProgress.Json.Reader

/-!
This module contains decoders: descriptions of the forms that values of a type have in the data
format. Each reads its form off a text, where it takes the bytes one by one and refuses the first
that is wrong, and out of a value that has been read before.
-/

namespace ReadProgress

namespace Json

def found : Json → Found
  | null => .null
  | boolean b => .boolean b
  | integer i => .integer i
  | float bits => .float bits
  | string s => .string s
  | array _ => .sequence
  | object _ => .map

/--
The forms of values of a type: as text, with a number of lists and objects that may be opened, and
as values.
-/
structure Decoder (α : Type) where
  text : (depth : Nat) → Reader α
  value : Json → Except Reason α

namespace Reader

/--
Read a value that is not of the expected kind, and refuse it. Lists and objects are refused at their
brackets.
-/
def unexpected (expected : String) : Reader α := located do
  match ← peek with
  | none => failAhead .expectedValue
  | some b =>
    if b = byte '[' then
      refuse (.invalidType .sequence expected)
    else if b = byte '\x7b' then
      refuse (.invalidType .map expected)
    else
      let value ← scalar b
      refuse (.invalidType value.found expected)

def checked : Except Reason α → Reader α
  | .ok a => pure a
  | .error reason => refuse reason

def start : Reader UInt8 := do
  match ← peekToken with
  | some b => pure b
  | none => failAhead .eofInValue

end Reader

open Reader

namespace Decoder

/--
Read a whole text. As a stream, the text counts as read where it has been looked at.
-/
def decodeText (d : Decoder α) (streamed : Bool) (text : Bytes) : Except Refusal α :=
  (d.text depthLimit).run streamed text

def any : Decoder Json where
  text := Reader.value
  value := .ok

def map (f : α → β) (d : Decoder α) : Decoder β where
  text depth := f <$> d.text depth
  value j := f <$> d.value j

/--
A decoder whose results are checked when the value has been read as a whole.
-/
def andThen (d : Decoder α) (f : α → Except Reason β) : Decoder β where
  text depth := do checked (f (← d.text depth))
  value j := do f (← d.value j)

def boolean : Decoder Bool where
  text _ := do
    let b ← start
    if b = byte 't' ∨ b = byte 'f' then
      scalar b >>= fun
        | .boolean b => pure b
        | _ => pure false
    else
      unexpected "a boolean"
  value
    | .boolean b => .ok b
    | j => .error (.invalidType j.found "a boolean")

def integer (low high : Int) (expected : String) : Decoder Int where
  text _ := do
    let b ← start
    if b = byte '-' ∨ isDigit b then
      located do checked (inRange (← number))
    else
      unexpected expected
  value := inRange
where
  inRange : Json → Except Reason Int
    | .integer i =>
      if low ≤ i ∧ i ≤ high then .ok i else .error (.invalidValue (.integer i) expected)
    | j => .error (.invalidType j.found expected)

def uint8 : Decoder UInt8 :=
  (integer 0 255 "u8").map fun i => i.toNat.toUInt8

def uint64 : Decoder UInt64 :=
  (integer 0 18446744073709551615 "u64").map fun i => i.toNat.toUInt64

def int64 : Decoder Int :=
  integer (-9223372036854775808) 9223372036854775807 "i64"

def parsed (expected : String) (f : String → Except Reason α) : Decoder α where
  text _ := do
    if (← start) = byte '"' then
      located do
        let _ ← take
        checked (f (← Reader.string))
    else
      unexpected expected
  value
    | .string s => f s
    | j => .error (.invalidType j.found expected)

def string : Decoder String :=
  parsed "a string" .ok

def option (d : Decoder α) : Decoder (Option α) where
  text depth := do
    match ← peekToken with
    | some b =>
      if b = byte 'n' then
        let _ ← scalar b
        pure none
      else
        some <$> d.text depth
    | none => some <$> d.text depth
  value
    | .null => .ok none
    | j => some <$> d.value j

def list (d : Decoder α) : Decoder (List α) where
  text depth := do
    if (← start) = byte '[' then
      located (Reader.list d.text depth)
    else
      unexpected "a sequence"
  value
    | .array items => items.mapM d.value
    | j => .error (.invalidType j.found "a sequence")

/--
An object whose members are all of one form, in the order in which they are read. Names may occur
more than once.
-/
def members (d : Decoder α) : Decoder (List (String × α)) where
  text depth := do
    if (← start) = byte '\x7b' then
      located (Reader.object d.text depth)
    else
      unexpected "a map"
  value
    | .object members => members.mapM fun (name, j) => (name, ·) <$> d.value j
    | j => .error (.invalidType j.found "a map")

end Decoder

/--
A field of a record that is put together in a value of type `σ`.
-/
structure Field (σ : Type) where
  name : String
  decoder : Decoder (σ → σ)
  /-- Whether the field has been read. -/
  isSet : σ → Bool
  optional : Bool

/--
A record with named fields, which may be written as an object or as the list of the values of its
fields. Objects may have more members.
-/
structure RecordForm (σ α : Type) where
  title : String
  fields : List (Field σ)
  blank : σ
  /-- The record itself, unless a field is missing, which is named then. -/
  finish : σ → Except String α

namespace RecordForm

variable {σ α : Type}

def expected (form : RecordForm σ α) : String :=
  "struct " ++ form.title

def expectedLength (form : RecordForm σ α) : String :=
  let count := form.fields.length
  form.expected ++ " with " ++ toString count ++ (if count = 1 then " element" else " elements")

def close (form : RecordForm σ α) (state : σ) : Except Reason α :=
  match form.finish state with
  | .ok a => .ok a
  | .error name => .error (.missingField name)

def readPositions (form : RecordForm σ α) (depth index : Nat) (state : σ) :
    List (Field σ) → Reader σ
  | [] => pure state
  | field :: fields => do
    if ← nextItem (index = 0) then
      let set ← field.decoder.text depth
      form.readPositions depth (index + 1) (set state) fields
    else if field.optional then
      form.readPositions depth (index + 1) state fields
    else
      refuse (.invalidLength index form.expectedLength)

def readMembers (form : RecordForm σ α) (depth : Nat) (state : σ) (first : Bool) : Nat → Reader σ
  | 0 => fail .eofInObject
  | turns + 1 => do
    if ← nextMember first then
      let key ← name
      match form.fields.find? (·.name = key) with
      | none =>
        colon
        skipValue
        form.readMembers depth state false turns
      | some field =>
        if field.isSet state then
          refuse (.duplicateField key)
        else
          colon
          let set ← field.decoder.text depth
          form.readMembers depth (set state) false turns
    else
      pure state

/--
Take the values of the fields out of a list. The items that are left come last.
-/
def takePositions (form : RecordForm σ α) (index : Nat) (state : σ) :
    List (Field σ) → List Json → Except Reason (σ × List Json)
  | [], items => .ok (state, items)
  | field :: fields, [] =>
    if field.optional then
      form.takePositions (index + 1) state fields []
    else
      .error (.invalidLength index form.expectedLength)
  | field :: fields, item :: items => do
    let set ← field.decoder.value item
    form.takePositions (index + 1) (set state) fields items

def takeMembers (form : RecordForm σ α) (state : σ) : List (String × Json) → Except Reason σ
  | [] => .ok state
  | (key, j) :: members =>
    match form.fields.find? (·.name = key) with
    | none => form.takeMembers state members
    | some field => do
      let set ← field.decoder.value j
      form.takeMembers (set state) members

def decoder (form : RecordForm σ α) : Decoder α where
  text depth := do
    let b ← start
    if b = byte '[' then
      located <| opening depth fun depth =>
        enclosed (do
          checked (form.close (← form.readPositions depth 0 form.blank form.fields))) closeList
    else if b = byte '\x7b' then
      located <| opening depth fun depth =>
        enclosed (do
          checked (form.close (← repeated (form.readMembers depth form.blank true)))) closeObject
    else
      unexpected form.expected
  value
    | .array items => do
      let (state, left) ← form.takePositions 0 form.blank form.fields items
      let a ← form.close state
      if left = [] then
        .ok a
      else
        .error (.invalidLength items.length "fewer elements in array")
    | .object members => do form.close (← form.takeMembers form.blank members)
    | j => .error (.invalidType j.found form.expected)

end RecordForm

end Json

end ReadProgress
