import ReadProgress.Text.Blank
import ReadProgress.Timestamp

/-!
This module contains the reading of moments: a date, one of `T`, `t` and a space, a time of day and
a zone, as in `2024-05-01T14:00:00.25+02:00`. Numbers may do without leading zeros, and white space
may stand in front of each number and separator.
-/

namespace ReadProgress

namespace Timestamp

/--
Why a text is no moment in time.
-/
inductive ReadError where
  | premature
  | invalid
  | outOfRange
  | trailing
  /-- In universal time, the moment lies beyond the calendar. -/
  | impossible
deriving DecidableEq, Repr

def ReadError.message : ReadError → String
  | premature => "premature end of input"
  | invalid => "input contains invalid characters"
  | outOfRange => "input is out of range"
  | trailing => "trailing input"
  | impossible => "no possible date and time matching input"

def valueOfDigits (digits : List Char) : Nat :=
  digits.foldl (fun n c => n * 10 + (c.toNat - '0'.toNat)) 0

/--
A number of at least one and at most `width` digits, or of any number of them. It has to be less
than `2 ^ 63`.
-/
def readNumber (width : Option Nat) (text : List Char) : Except ReadError (Nat × List Char) :=
  let run := text.takeWhile Char.isDigit
  let digits := match width with
    | some width => run.take width
    | none => run
  match text, digits with
  | [], _ => .error .premature
  | _ :: _, [] => .error .invalid
  | _ :: _, digits =>
    let value := valueOfDigits digits
    if value < 9223372036854775808 then .ok (value, text.drop digits.length) else .error .outOfRange

def readField (low high : Nat) (text : List Char) : Except ReadError (Nat × List Char) := do
  let (value, rest) ← readNumber (some 2) (skipBlank text)
  if low ≤ value ∧ value ≤ high then .ok (value, rest) else .error .outOfRange

/--
A year: four digits at most, or a sign and any number of digits.
-/
def readYear (text : List Char) : Except ReadError (Int × List Char) := do
  let (year, rest) ← match skipBlank text with
    | '-' :: text => do
      let (value, rest) ← readNumber none text
      pure (-(value : Int), rest)
    | '+' :: text => do
      let (value, rest) ← readNumber none text
      pure ((value : Int), rest)
    | text => do
      let (value, rest) ← readNumber (some 4) text
      pure ((value : Int), rest)
  if -2147483648 ≤ year ∧ year < 2147483648 then .ok (year, rest) else .error .outOfRange

def readMark (mark : Char) (text : List Char) : Except ReadError (List Char) :=
  match skipBlank text with
  | [] => .error .premature
  | c :: rest => if c = mark then .ok rest else .error .invalid

/--
A date. Whether its month has such a day is left open.
-/
def readDate (text : List Char) : Except ReadError (Date × List Char) := do
  let (year, text) ← readYear text
  let (month, text) ← readField 1 12 (← readMark '-' text)
  let (day, text) ← readField 1 31 (← readMark '-' text)
  .ok (⟨year, month, day⟩, text)

/--
The fraction of a second in nanoseconds, which is zero if there is none. Digits from the tenth on
are passed over.
-/
def readFraction : List Char → Except ReadError (Nat × List Char)
  | '.' :: text => do
    let (value, rest) ← readNumber (some 9) text
    let count := text.length - rest.length
    .ok (value * Nat.pow 10 (9 - count), rest.dropWhile Char.isDigit)
  | text => .ok (0, text)

/--
A time of day: the second of the day and the nanosecond. Second 60 is a leap second.
-/
def readTime (text : List Char) : Except ReadError ((Nat × Nat) × List Char) := do
  let (hour, text) ← readField 0 23 text
  let (minute, text) ← readField 0 59 (← readMark ':' text)
  let (second, text) ← readField 0 60 (← readMark ':' text)
  let (nano, text) ← readFraction text
  let minutes := hour * 60 + minute
  if second = 60 then
    .ok ((minutes * 60 + 59, 1000000000 + nano), text)
  else
    .ok ((minutes * 60 + second, nano), text)

/--
A number of exactly two digits. Text of a single byte is too short for one.
-/
def readTwoDigits : List Char → Except ReadError (Nat × List Char)
  | [] => .error .premature
  | [c] => if c.utf8Size = 1 then .error .premature else .error .invalid
  | c :: d :: rest =>
    if c.isDigit ∧ d.isDigit then .ok (valueOfDigits [c, d], rest) else .error .invalid

def readSign : List Char → Except ReadError (Bool × List Char)
  | [] => .error .premature
  | c :: rest =>
    if c = '+' then .ok (false, rest)
    else if c = '-' ∨ c = '−' then .ok (true, rest)
    else .error .invalid

/--
An offset from universal time in minutes: two digits for the hours, colons and white space, two
digits for the minutes.
-/
def readOffset (text : List Char) : Except ReadError (Int × List Char) := do
  let (negative, text) ← readSign text
  let (hours, text) ← readTwoDigits text
  let (minutes, text) ← readTwoDigits (text.dropWhile fun c => c == ':' || isBlank c)
  if 60 ≤ minutes then
    .error .outOfRange
  else
    let offset : Int := hours * 60 + minutes
    .ok (if negative then -offset else offset, text)

/--
A zone: `UTC` in any case, the letter `Z`, or an offset. It is given in minutes.
-/
def readZone (text : List Char) : Except ReadError (Int × List Char) :=
  if (text.take 3).map Char.toUpper = ['U', 'T', 'C'] then
    .ok (0, text.drop 3)
  else
    match text with
    | 'Z' :: rest | 'z' :: rest => .ok (0, rest)
    | _ => readOffset text

/--
The moment with a date and a time of day in a zone. The zone is less than a day away from universal
time, and the years are those of the calendar, both before and after the zone is taken into account.
-/
def assemble (date : Date) (second nano : Nat) (offset : Int) : Except ReadError Timestamp := do
  if !date.isValid ∨ (make? date.toDay second nano).isNone ∨ 1440 ≤ offset.natAbs then
    throw .outOfRange
  let seconds := date.toDay * 86400 + second - offset * 60
  match make? (seconds / 86400) (seconds % 86400).toNat nano with
  | some t => .ok t
  | none => .error .impossible

def read (text : String) : Except ReadError Timestamp := do
  let (date, text) ← readDate text.toList
  let text ← match text with
    | [] => .error .premature
    | c :: rest => if c = 'T' ∨ c = 't' ∨ c = ' ' then .ok rest else .error .invalid
  let ((second, nano), text) ← readTime text
  let (offset, text) ← readZone (skipBlank text)
  if skipBlank text = [] then
    assemble date second nano offset
  else
    .error .trailing

end Timestamp

end ReadProgress
