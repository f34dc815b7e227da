import ReadProgress.Text.Blank
import ReadProgress.Timespan

/-!
This module contains the reading of lengths of time. A length is a sum of spans, each a number with
an optional fraction and a unit, as in `1h 30m` or `2.5days`. White space may stand everywhere but
inside the name of a unit.
-/

namespace ReadProgress

namespace Timespan

/--
Why a text is no length of time. Positions are counted in bytes.
-/
inductive ReadError where
  | empty
  | numberExpected (position : Nat)
  /-- A character that has no place in a number, a fraction or a unit. -/
  | invalidCharacter (position : Nat)
  /-- There is no unit of that name, which is empty where it is missing altogether. -/
  | unknownUnit (name : String) (count : Nat)
  /-- A number does not fit, or a fraction is no whole number of the smallest part of its unit. -/
  | numberOverflow
  /-- The nanoseconds make up one more second after the last one that fits. -/
  | secondsOverflow
deriving DecidableEq, Repr

def ReadError.message : ReadError → String
  | empty => "value was empty"
  | numberExpected position => "expected number at " ++ toString position
  | invalidCharacter position => "invalid character at " ++ toString position
  | unknownUnit name count =>
    if name.isEmpty then
      "time unit needed, for example " ++ toString count ++ "sec or " ++ toString count ++ "ms"
    else
      "unknown time unit \"" ++ name ++ "\", supported units: ns, us/µs, ms, sec, min, hours, " ++
        "days, weeks, months, years (and few variations)"
  | numberOverflow =>
    "number is too large or cannot be represented without a lack of precision " ++
      "(values below 1ns are not supported)"
  | secondsOverflow => "overflow in Duration::new"

inductive Unit where
  | nanosecond | microsecond | millisecond | second | minute | hour | day | week | month | year
deriving DecidableEq, Repr

namespace Unit

def ofName? (name : String) : Option Unit :=
  if name ∈ ["nanos", "nsec", "ns"] then some .nanosecond
  else if name ∈ ["usec", "us", "µs"] then some .microsecond
  else if name ∈ ["millis", "msec", "ms"] then some .millisecond
  else if name ∈ ["seconds", "second", "secs", "sec", "s"] then some .second
  else if name ∈ ["minutes", "minute", "min", "mins", "m"] then some .minute
  else if name ∈ ["hours", "hour", "hr", "hrs", "h"] then some .hour
  else if name ∈ ["days", "day", "d"] then some .day
  else if name ∈ ["weeks", "week", "wk", "wks", "w"] then some .week
  else if name ∈ ["months", "month", "M"] then some .month
  else if name ∈ ["years", "year", "yr", "yrs", "y"] then some .year
  else none

/--
The seconds in a unit, for the units of a second and more.
-/
def seconds : Unit → Nat
  | nanosecond | microsecond | millisecond => 0
  | second => 1
  | minute => 60
  | hour => 3600
  | day => 86400
  | week => 604800
  | month => 2630016
  | year => 31557600

/--
The nanoseconds in a unit, for the units below a second.
-/
def nanos : Unit → Nat
  | nanosecond => 1
  | microsecond => 1000
  | millisecond => 1000000
  | _ => 0

/--
What fractions of a unit are counted in: seconds from the hour upwards, nanoseconds below. A
nanosecond has no fractions.
-/
inductive Grain where
  | inNanos (perUnit : Nat)
  | inSeconds (perUnit : Nat)
  | indivisible

def grain : Unit → Grain
  | nanosecond => .indivisible
  | second => .inNanos 1000000000
  | minute => .inNanos 60000000000
  | u@microsecond | u@millisecond => .inNanos u.nanos
  | u => .inSeconds u.seconds

end Unit

def checkedMul (a b : Nat) : Except ReadError Nat :=
  if a * b < UInt64.size then .ok (a * b) else .error .numberOverflow

def checkedAdd (a b : Nat) : Except ReadError Nat :=
  if a + b < UInt64.size then .ok (a + b) else .error .numberOverflow

/--
Add seconds and nanoseconds to a length. Nanoseconds that exceed a second are carried over; those
that make up exactly one second are carried over last of all, when nothing checks the seconds.
-/
def plus (d : Timespan) (seconds nanos : Nat) : Except ReadError Timespan := do
  let nanos ← checkedAdd d.nanos nanos
  if 1000000000 < nanos then
    let seconds ← checkedAdd seconds (nanos / 1000000000)
    finish (← checkedAdd d.seconds seconds) (nanos % 1000000000)
  else
    finish (← checkedAdd d.seconds seconds) nanos
where
  finish (seconds nanos : Nat) : Except ReadError Timespan :=
    match ofParts? seconds nanos with
    | some d => .ok d
    | none => .error .secondsOverflow

/--
The decimal fraction `numerator / denominator` of a span, where the denominator is a power of ten.
-/
structure Fraction where
  numerator : Nat
  denominator : Nat
deriving DecidableEq, Repr

def Fraction.of (f : Fraction) (perUnit : Nat) : Except ReadError Nat := do
  let product ← checkedMul f.numerator perUnit
  if product % f.denominator = 0 then
    .ok (product / f.denominator)
  else
    .error .numberOverflow

def plusSpan (d : Timespan) (count : Nat) (fraction : Option Fraction) (name : String) :
    Except ReadError Timespan :=
  match Unit.ofName? name with
  | none => .error (.unknownUnit name count)
  | some unit => do
    let seconds ← checkedMul count unit.seconds
    let nanos ← checkedMul count unit.nanos
    let d ← d.plus seconds nanos
    match fraction with
    | none => .ok d
    | some f =>
      match unit.grain with
      | .indivisible => .error .numberOverflow
      | .inNanos perUnit => d.plus 0 (← f.of perUnit)
      | .inSeconds perUnit => d.plus (← f.of perUnit) 0

/--
Where the reader stands inside a span.
-/
inductive Stage where
  /-- In front of a span; `since` is where the last one ended. -/
  | seeking (since : Nat)
  | number (count : Nat)
  /-- In the fraction; `mark` is the position that a fault in it is reported at. -/
  | fraction (count : Nat) (f : Fraction) (mark : Nat)
  /-- In the name of the unit, whose characters so far are in reverse. -/
  | unit (count : Nat) (f : Option Fraction) (name : List Char)
deriving DecidableEq, Repr

def isUnitChar (c : Char) : Bool :=
  c.isAlpha || c == 'µ'

def digitValue (c : Char) : Nat :=
  c.toNat - '0'.toNat

/--
Read on at byte `position` in a certain stage, with `total` as the sum of the spans before.
-/
def readFrom (total : Timespan) (position : Nat) : Stage → List Char → Except ReadError Timespan
  | .seeking since, [] => if since = 0 then .error .empty else .ok total
  | .seeking since, c :: rest =>
    if c.isDigit then
      readFrom total (position + c.utf8Size) (.number (digitValue c)) rest
    else if isBlank c then
      readFrom total (position + c.utf8Size) (.seeking since) rest
    else
      .error (.numberExpected since)
  | .number count, [] => total.plusSpan count none ""
  | .number count, c :: rest =>
    if c.isDigit then do
      let count ← checkedAdd (← checkedMul count 10) (digitValue c)
      readFrom total (position + c.utf8Size) (.number count) rest
    else if isBlank c then
      readFrom total (position + c.utf8Size) (.number count) rest
    else if isUnitChar c then
      readFrom total (position + c.utf8Size) (.unit count none [c]) rest
    else if c = '.' then
      readFrom total (position + c.utf8Size) (.fraction count ⟨0, 1⟩ position) rest
    else
      .error (.invalidCharacter position)
  | .fraction count f mark, [] =>
    if f.denominator = 1 then
      .error (.invalidCharacter mark)
    else
      total.plusSpan count (some f) ""
  | .fraction count f mark, c :: rest =>
    if c.isDigit then do
      let denominator ← checkedMul f.denominator 10
      let next := position + c.utf8Size
      let f := ⟨f.numerator * 10 + digitValue c, denominator⟩
      readFrom total next (.fraction count f next) rest
    else if isBlank c then
      let next := position + c.utf8Size
      readFrom total next (.fraction count f next) rest
    else if isUnitChar c then
      if f.denominator = 1 then
        .error (.invalidCharacter mark)
      else
        readFrom total (position + c.utf8Size) (.unit count (some f) [c]) rest
    else
      .error (.invalidCharacter mark)
  | .unit count f name, [] => total.plusSpan count f (String.ofList name.reverse)
  | .unit count f name, c :: rest =>
    if c.isDigit then do
      let total ← total.plusSpan count f (String.ofList name.reverse)
      readFrom total (position + c.utf8Size) (.number (digitValue c)) rest
    else if isBlank c then do
      let total ← total.plusSpan count f (String.ofList name.reverse)
      let next := position + c.utf8Size
      readFrom total next (.seeking next) rest
    else if isUnitChar c then
      readFrom total (position + c.utf8Size) (.unit count f (c :: name)) rest
    else
      .error (.invalidCharacter position)

/--
Read a length of time. The text `0` needs no unit.
-/
def read (text : List Char) : Except ReadError Timespan :=
  if text = ['0'] then .ok zero else readFrom zero 0 (.seeking 0) text

end Timespan

end ReadProgress
