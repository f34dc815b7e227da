import ReadProgress.Json.Refusal
import ReadProgress.Text.Bytes

/-!
This module contains readers of the data format: functions that take bytes from the front of a text
and give back what they stand for, or refuse them. Texts are read a byte at a time, and at most one
byte is looked at before it is taken.
-/

namespace ReadProgress

namespace Json

/--
Where a reader stands: in front of the bytes that have not been taken yet.
-/
structure Cursor where
  rest : Bytes
  peeked : Bool
  /-- Whether the text comes in as a stream, where a byte looked at counts as read. -/
  streamed : Bool
deriving DecidableEq, Repr

/--
A refusal on the way: the reason and, once its place is settled, the number of bytes behind it.
-/
structure Fault where
  reason : Reason
  unread : Option Nat
deriving DecidableEq, Repr

/--
A reader. Where it refuses, the cursor shows how far it came.
-/
abbrev Reader := EStateM Fault Cursor

namespace Reader

def peek : Reader (Option UInt8) := fun c =>
  match c.rest with
  | [] => .ok none c
  | b :: _ => .ok (some b) { c with peeked := true }

def take : Reader (Option UInt8) := fun c =>
  match c.rest with
  | [] => .ok none c
  | b :: rest => .ok (some b) { c with rest, peeked := false }

def fail (reason : Reason) : Reader α := fun c =>
  let ahead := if c.streamed ∧ c.peeked then 1 else 0
  .error ⟨reason, some (c.rest.length - ahead)⟩ c

/--
Refuse the byte ahead, or the end of the text.
-/
def failAhead (reason : Reason) : Reader α := fun c =>
  .error ⟨reason, some (c.rest.length - 1)⟩ c

/--
Refuse a value. The place is left to whoever knows where the value ends.
-/
def refuse (reason : Reason) : Reader α := fun c =>
  .error ⟨reason, none⟩ c

/--
Settle the place of a refusal that has none, as the place where the reader stopped.
-/
def located (reader : Reader α) : Reader α := fun c =>
  match reader c with
  | .error ⟨reason, none⟩ c => fail reason c
  | result => result

/--
A reader between brackets. The closing bracket is looked for even where the reader refuses what is
inside, which is the refusal that counts.
-/
def enclosed (inside : Reader α) (close : Reader PUnit) : Reader α := fun c =>
  match inside c with
  | .ok a c =>
    match close c with
    | .ok _ c => .ok a c
    | .error e c => .error e c
  | .error e c =>
    match close c with
    | .ok _ c => .error e c
    | .error _ c => .error e c

/--
A reader that repeats itself, with more turns than the bytes that are left can be used for.
-/
def repeated (turns : Nat → Reader α) : Reader α := fun c =>
  turns (2 * c.rest.length + 2) c

/--
Take the bytes in front that have some property, and look at the one behind.
-/
def takeWhile (p : UInt8 → Bool) : Reader Bytes := fun c =>
  match c.rest.takeWhile p with
  | [] => .ok [] { c with peeked := c.peeked || !c.rest.isEmpty }
  | run => .ok run { c with rest := c.rest.dropWhile p, peeked := !(c.rest.dropWhile p).isEmpty }

def isSpace (b : UInt8) : Bool :=
  b == byte ' ' || b == byte '\n' || b == byte '\t' || b == byte '\r'

def peekToken : Reader (Option UInt8) := do
  let _ ← takeWhile isSpace
  peek

def word : Bytes → Reader PUnit
  | [] => pure ⟨⟩
  | expected :: rest => do
    match ← take with
    | none => fail .eofInValue
    | some b => if b = expected then word rest else fail .expectedIdent

def run (reader : Reader α) (streamed : Bool) (text : Bytes) : Except Refusal α :=
  let whole : Reader α := do
    let a ← reader
    match ← peekToken with
    | none => pure a
    | some _ => failAhead .trailingCharacters
  match whole ⟨text, false, streamed⟩ with
  | .ok a _ => .ok a
  | .error ⟨reason, unread⟩ _ =>
    .error ⟨reason, unread.map fun n => .behind (text.take (text.length - n))⟩

end Reader

end Json

end ReadProgress
