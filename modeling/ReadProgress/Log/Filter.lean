import ReadProgress.Event
import ReadProgress.Pattern.Reader
import ReadProgress.Text.Cut
import ReadProgress.Text.Numeral
import ReadProgress.Text.Split

/-!
This module contains filters, which tell what events a log is interested in. A filter is a list of
directives with commas between them, such as `info,filestate::registry=debug`.
-/

namespace ReadProgress

/--
A directive of a filter.
-/
structure Directive where
  target : Option String
  inSpan : Option String
  fields : List (String × Bool)
  level : Option Level
deriving DecidableEq, Repr

namespace Directive

/--
Read a level, which may also be given by its rank. No level at all is a level here.
-/
def level? (text : List Char) : Option (Option Level) :=
  match readNumeral (UInt64.size - 1) text with
  | .ok 0 => some none
  | .ok 1 => some (some .error)
  | .ok 2 => some (some .warn)
  | .ok 3 => some (some .info)
  | .ok 4 => some (some .debug)
  | .ok 5 => some (some .trace)
  | .ok _ => none
  | .error _ =>
    match String.ofList (text.map Char.toLower) with
    | "off" => some none
    | "error" | "" => some (some .error)
    | "warn" => some (some .warn)
    | "info" => some (some .info)
    | "debug" => some (some .debug)
    | "trace" => some (some .trace)
    | _ => none

/--
A place in the text of a directive. Numbers tell how many bytes are in front of a name.
-/
inductive Place where
  | start
  | name (i : Nat)
  | span (i : Nat)
  | field (i : Nat)
  | behindFields
  | behindSpan
  | level (i : Nat)
deriving DecidableEq, Repr

def startsName (c : Char) : Bool :=
  c == '-' || c == ':' || c == '_' || isAlphanumeric c

def slice (text : List Char) (i j : Nat) : Except Error String :=
  match slice? text i j with
  | some part => .ok (String.ofList part)
  | none => .error (.crash .brokenCharacter)

def checkValue (text : List Char) : Except Error Unit :=
  if isNumber text then
    .ok ()
  else
    match Pattern.fault? text with
    | none => .ok ()
    | some cause => .error (.config (.logPattern cause))

/--
Add a field. Its value, if any, is between the first two equals signs.
-/
def addField (directive : Directive) (text : String) : Except Error Directive := do
  if text = "" then
    throw (.config .logDirective)
  let (name, value) := splitFirst '=' text.toList
  if let some value := value then
    checkValue (splitFirst '=' value).1
  pure { directive with fields := directive.fields ++ [(String.ofList name, value.isSome)] }

def step (text : List Char) (directive : Directive) (i : Nat) (c : Char) :
    Place → Except Error (Place × Directive)
  | .start =>
    if c = '[' then .ok (.span (i + 1), directive)
    else if startsName c then .ok (.name i, directive)
    else .error (.config .logDirective)
  | .name start =>
    if c = '=' ∨ c = '[' then do
      let target ← slice text start i
      let place := if c = '=' then Place.level (i + 1) else .span (i + 1)
      pure (place, { directive with target := some target })
    else
      .ok (.name start, directive)
  | .span start =>
    if c = ']' then do
      let name ← slice text start i
      pure (.behindSpan, { directive with inSpan := some name })
    else if c = '\x7b' then do
      let name ← slice text start i
      pure (.field (i + 1), { directive with inSpan := if name = "" then none else some name })
    else
      .ok (.span start, directive)
  | .field start =>
    if c = '\x7d' then do
      let directive ← directive.addField (← slice text start i)
      pure (.behindFields, directive)
    else
      .ok (.field start, directive)
  | .behindFields =>
    if c = ']' then .ok (.behindSpan, directive) else .error (.config .logDirective)
  | .behindSpan =>
    if c = '=' then .ok (.level (i + 1), directive) else .error (.config .logDirective)
  | .level start => .ok (.level start, directive)

def steps (text : List Char) (place : Place) (directive : Directive) (i : Nat) :
    List Char → Except Error (Place × Directive)
  | [] => .ok (place, directive)
  | c :: rest => do
    let (place, directive) ← step text directive i c place
    steps text place directive (i + c.utf8Size) rest

/--
Read a directive. White space around it is passed over, but the names and levels are taken from the
text with that white space, at the places that they have without it.
-/
def read (text : List Char) : Except Error Directive := do
  let (place, directive) ← steps text .start ⟨none, none, [], some .trace⟩ 0 (trimBlank text)
  match place with
  | .name start =>
    let name ← slice text start (byteCount text)
    match level? name.toList with
    | some level => pure { directive with level }
    | none => pure { directive with target := some name }
  | .level start =>
    let name ← slice text start (byteCount text)
    if name = "" then
      pure directive
    else
      match level? name.toList with
      | some level => pure { directive with level }
      | none => throw (.config .logLevel)
  | .behindSpan => pure directive
  | .start | .span _ | .field _ | .behindFields => throw (.config .logDirective)

def isStatic (directive : Directive) : Bool :=
  directive.inSpan.isNone && directive.fields.all (!·.2)

def concerns (directive : Directive) (event : Event) : Bool :=
  let names := "message" :: event.fields.map (·.1)
  directive.target.all (fun target => target.toList.isPrefixOf event.target.toList) &&
    directive.fields.all fun field => names.contains field.1

/--
Whether a directive is at least as special as another one. A target makes it special, the more so
the longer it is, and then its fields.
-/
def isAsSpecial (directive other : Directive) : Bool :=
  match directive.target, other.target with
  | none, some _ => false
  | some _, none => true
  | some t, some t' =>
    if t.utf8ByteSize = t'.utf8ByteSize then byFields else t'.utf8ByteSize < t.utf8ByteSize
  | none, none => byFields
where
  byFields : Bool :=
    let names := directive.fields.map (·.1)
    let names' := other.fields.map (·.1)
    if names.length = names'.length then !(names < names') else names'.length < names.length

def hasSameScope (directive other : Directive) : Bool :=
  directive.target == other.target && directive.fields.map (·.1) == other.fields.map (·.1)

end Directive

/--
A filter: its directives, the most special ones first.
-/
structure LogFilter where
  directives : List Directive
deriving DecidableEq, Repr

namespace LogFilter

def default : LogFilter where
  directives := [⟨none, none, [], some .info⟩]

/--
The filter of some directives. Of those that speak of the same events, the last one counts.
-/
def ofDirectives (directives : List Directive) : LogFilter :=
  if directives = [] then
    default
  else
    let static := directives.filter (·.isStatic)
    let kept := static.foldl
      (fun kept directive => kept.filter (!·.hasSameScope directive) ++ [directive]) []
    ⟨kept.mergeSort Directive.isAsSpecial⟩

/--
Read a filter. Commas with nothing between them do not matter.
-/
def read (text : String) : Except Error LogFilter := do
  let pieces := (splitAt ',' text.toList).filter (· ≠ [])
  ofDirectives <$> pieces.mapM Directive.read

/--
Whether a filter lets an event through. The most special one of the directives decides.
-/
def passes (filter : LogFilter) (event : Event) : Bool :=
  match filter.directives.find? (·.concerns event) with
  | some ⟨_, _, _, some level⟩ => event.level.rank ≤ level.rank
  | _ => false

end LogFilter

end ReadProgress
