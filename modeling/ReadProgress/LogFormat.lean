import ReadProgress.Json.Decoder

/-!
This module contains the formats in which events are written to a log.
-/

namespace ReadProgress

inductive LogFormat where
  | text
  | json
deriving DecidableEq, Repr

namespace LogFormat

instance : Inhabited LogFormat := ⟨text⟩

def all : List LogFormat := [text, json]

def name : LogFormat → String
  | text => "text"
  | json => "json"

def ofName? (text : String) : Option LogFormat :=
  all.find? (·.name = text)

def ofNameIgnoringCase? (text : String) : Option LogFormat :=
  ofName? (String.ofList (text.toList.map Char.toLower))

theorem ofName?_name (format : LogFormat) : ofName? format.name = some format := by
  cases format <;> decide

def ofName (text : String) : Except Json.Reason LogFormat :=
  match ofName? text with
  | some format => .ok format
  | none => .error (.unknownVariant text "`text` or `json`")

/--
The name of a format in a text in the data format. It may also stand in an object, with nothing
under it.
-/
def reader (depth : Nat) : Json.Reader LogFormat := do
  match ← Json.Reader.peekToken with
  | none => Json.Reader.failAhead .eofInValue
  | some b =>
    if b = byte '"' then
      identifier.text depth
    else if b = byte '\x7b' then
      Json.Reader.opening depth fun depth => do
        key
        let format ← identifier.text depth
        Json.Reader.colon
        nothing
        match ← Json.Reader.peekToken with
        | none => Json.Reader.fail .eofInObject
        | some b =>
          if b = byte '\x7d' then
            let _ ← Json.Reader.take
            pure format
          else
            Json.Reader.fail .expectedValue
    else
      Json.Reader.failAhead .expectedValue
where
  identifier : Json.Decoder LogFormat := .parsed "variant identifier" ofName
  key : Json.Reader Unit := do
    match ← Json.Reader.peekToken with
    | none => Json.Reader.failAhead .eofInObject
    | some b =>
      if b = byte '"' then
        pure ()
      else if b = byte '\x7d' then
        Json.Reader.failAhead .expectedValue
      else
        Json.Reader.failAhead .keyMustBeString
  nothing : Json.Reader Unit := do
    let b ← Json.Reader.start
    if b = byte 'n' then
      let _ ← Json.Reader.scalar b
    else
      Json.Reader.unexpected "unit"

def read (text : Bytes) : Except Json.Refusal LogFormat :=
  (reader Json.Reader.depthLimit).run false text

end LogFormat

end ReadProgress
