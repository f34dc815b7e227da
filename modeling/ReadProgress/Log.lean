import ReadProgress.Log.Filter
import ReadProgress.LogFormat

/-!
This module contains logs, in which events are written down.
-/

namespace ReadProgress

structure Log where
  filter : LogFilter
  format : LogFormat
deriving DecidableEq, Repr

/--
A line of a log. The time of the event stands in front.
-/
inductive LogLine where
  | text (line : String)
  | object (value : Json)

namespace Log

/--
Set up the log with a filter that is given as a text. This can be done only once.
-/
def install (log : Option Log) (filter : Option String) (format : LogFormat) : Except Error Log :=
  match LogFilter.read (filter.getD "") with
  | .error e => .error e
  | .ok filter =>
    match log with
    | none => .ok ⟨filter, format⟩
    | some _ => .error (.config .logInUse)

def fieldText : Json → String
  | .string s => s
  | .integer i => toString i
  | _ => ""

def line (event : Event) : LogFormat → LogLine
  | .text =>
    let level := event.level.name
    let fields := event.fields.map fun (name, value) => " " ++ name ++ "=" ++ fieldText value
    .text (String.ofList (List.replicate (5 - level.length) ' ') ++ level ++ " " ++ event.message ++
      String.join fields)
  | .json =>
    .object <| .object [
      ("level", .string event.level.name),
      ("fields", .object (("message", .string event.message) :: event.fields)),
      ("target", .string event.target)]

def lines (log : Log) (events : List Event) : List LogLine :=
  (events.filter log.filter.passes).map (line · log.format)

end Log

end ReadProgress
