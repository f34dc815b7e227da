import ReadProgress.Json.Reader.Number
import ReadProgress.Json.Reader.Quoted

/-!
This module contains the reading of lists, objects and whole values, and the passing over values
that nobody wants to know.
-/

namespace ReadProgress

namespace Json

namespace Reader

/--
How many lists and objects may be open at a time.
-/
def depthLimit : Nat := 127

/--
Open a list or an object, whose bracket is ahead, with a number of further ones that may be opened
inside.
-/
def opening (depth : Nat) (inside : Nat → Reader α) : Reader α := do
  match depth with
  | 0 => failAhead .recursionLimit
  | depth + 1 =>
    let _ ← take
    inside depth

/--
Look for the next item of a list. The first one has no comma in front.
-/
def nextItem (first : Bool) : Reader Bool := do
  match ← peekToken with
  | none => failAhead .eofInList
  | some b =>
    if b = byte ']' then
      pure false
    else if first then
      pure true
    else if b = byte ',' then
      let _ ← take
      match ← peekToken with
      | none => failAhead .eofInValue
      | some b => if b = byte ']' then failAhead .trailingComma else pure true
    else
      failAhead .expectedListEnd

def closeList : Reader PUnit := do
  match ← peekToken with
  | none => failAhead .eofInList
  | some b =>
    if b = byte ']' then
      let _ ← take
    else if b = byte ',' then
      let _ ← take
      match ← peekToken with
      | some b => failAhead (if b = byte ']' then .trailingComma else .trailingCharacters)
      | none => failAhead .trailingCharacters
    else
      failAhead .trailingCharacters

/--
Look for the next member of an object. The first one has no comma in front.
-/
def nextMember (first : Bool) : Reader Bool := do
  match ← peekToken with
  | none => failAhead .eofInObject
  | some b =>
    if b = byte '\x7d' then
      pure false
    else if first then
      if b = byte '"' then pure true else failAhead .keyMustBeString
    else if b = byte ',' then
      let _ ← take
      match ← peekToken with
      | none => failAhead .eofInValue
      | some b =>
        if b = byte '"' then pure true
        else if b = byte '\x7d' then failAhead .trailingComma
        else failAhead .keyMustBeString
    else
      failAhead .expectedObjectEnd

def closeObject : Reader PUnit := do
  match ← peekToken with
  | none => failAhead .eofInObject
  | some b =>
    if b = byte '\x7d' then
      let _ ← take
    else if b = byte ',' then
      failAhead .trailingComma
    else
      failAhead .trailingCharacters

def name : Reader String := do
  let _ ← take
  string

def colon : Reader PUnit := do
  match ← peekToken with
  | none => failAhead .eofInObject
  | some b =>
    if b = byte ':' then
      let _ ← take
    else
      failAhead .expectedColon

def items (item : Reader α) : (first : Bool) → Nat → Reader (List α)
  | _, 0 => fail .eofInList
  | first, turns + 1 => do
    if ← nextItem first then
      let a ← item
      let rest ← items item false turns
      pure (a :: rest)
    else
      pure []

def members (value : Reader α) : (first : Bool) → Nat → Reader (List (String × α))
  | _, 0 => fail .eofInObject
  | first, turns + 1 => do
    if ← nextMember first then
      let key ← name
      colon
      let a ← value
      let rest ← members value false turns
      pure ((key, a) :: rest)
    else
      pure []

def list (item : Nat → Reader α) (depth : Nat) : Reader (List α) :=
  opening depth fun depth => enclosed (repeated (items (item depth) true)) closeList

def object (value : Nat → Reader α) (depth : Nat) : Reader (List (String × α)) :=
  opening depth fun depth => enclosed (repeated (members (value depth) true)) closeObject

def scalar (first : UInt8) : Reader Json := do
  if first = byte 'n' then
    let _ ← take
    word (ascii "ull")
    pure .null
  else if first = byte 't' then
    let _ ← take
    word (ascii "rue")
    pure (.boolean true)
  else if first = byte 'f' then
    let _ ← take
    word (ascii "alse")
    pure (.boolean false)
  else if first = byte '-' ∨ isDigit first then
    number
  else if first = byte '"' then
    let _ ← take
    return .string (← string)
  else
    failAhead .expectedValue

def value (depth : Nat) : Reader Json := do
  match ← peekToken with
  | none => failAhead .eofInValue
  | some b =>
    if b = byte '[' then
      match depth with
      | 0 => failAhead .recursionLimit
      | depth + 1 => return .array (← list (fun _ => value depth) (depth + 1))
    else if b = byte '\x7b' then
      match depth with
      | 0 => failAhead .recursionLimit
      | depth + 1 => return .object (Members.ofList (← object (fun _ => value depth) (depth + 1)))
    else
      scalar b

/--
Pass over the digits behind the first one, the fraction and the exponent of a number.
-/
def skipNumber : Reader PUnit := do
  match ← take with
  | none => fail .invalidNumber
  | some first =>
    if !isDigit first then
      fail .invalidNumber
    else
      if first ≠ byte '0' then
        let _ ← takeWhile isDigit
      match ← peek with
      | none => pure ⟨⟩
      | some b =>
        if first = byte '0' ∧ isDigit b then
          failAhead .invalidNumber
        else if b = byte '.' then
          let _ ← take
          if (← takeWhile isDigit) = [] then
            failAhead .invalidNumber
          else
            match ← peek with
            | some b => if b = byte 'e' ∨ b = byte 'E' then skipExponent
            | none => pure ⟨⟩
        else if b = byte 'e' ∨ b = byte 'E' then
          skipExponent
where
  skipExponent : Reader PUnit := do
    let _ ← take
    if let some b ← peek then
      if b = byte '+' ∨ b = byte '-' then
        let _ ← take
    match ← take with
    | none => fail .invalidNumber
    | some b =>
      if isDigit b then
        let _ ← takeWhile isDigit
      else
        fail .invalidNumber

/--
What of an unwanted value is passed over next.
-/
inductive Skip where
  | value
  | items (first : Bool)
  | members (first : Bool)

/--
Pass over something that nobody wants to know. It has to be well-formed, but may be nested to any
depth and contain any numbers.
-/
def skip : Skip → Nat → Reader PUnit
  | _, 0 => fail .eofInValue
  | .value, turns + 1 => do
    match ← peekToken with
    | none => failAhead .eofInValue
    | some b =>
      if b = byte '[' then
        let _ ← take
        skip (.items true) turns
      else if b = byte '\x7b' then
        let _ ← take
        skip (.members true) turns
      else if b = byte '-' then
        let _ ← take
        skipNumber
      else if isDigit b then
        skipNumber
      else if b = byte '"' then
        let _ ← take
        skipString
      else
        let _ ← scalar b
  | .items first, turns + 1 => do
    match ← peekToken with
    | none => failAhead .eofInList
    | some b =>
      if b = byte ']' then
        let _ ← take
      else if first then
        skip .value turns
        skip (.items false) turns
      else if b = byte ',' then
        let _ ← take
        skip .value turns
        skip (.items false) turns
      else
        failAhead .expectedListEnd
  | .members first, turns + 1 => do
    match ← peekToken with
    | none => failAhead .eofInObject
    | some b =>
      if b = byte '\x7d' then
        let _ ← take
      else
        if first then
          pure ⟨⟩
        else if b = byte ',' then
          let _ ← take
        else
          failAhead .expectedObjectEnd
        match ← peekToken with
        | none => failAhead .eofInObject
        | some b =>
          if b = byte '"' then
            let _ ← take
            skipString
            colon
            skip .value turns
            skip (.members false) turns
          else
            failAhead .keyMustBeString

def skipValue : Reader PUnit :=
  repeated (skip .value)

end Reader

end Json

end ReadProgress
