import ReadProgress.Options
import ReadProgress.Text.Numeral
import ReadProgress.Text.Split
import ReadProgress.Text.Terminal

/-!
This module contains the command line on which options are given: as flags, which have a value each,
or as variables of the environment. A flag counts more than a variable.
-/

namespace ReadProgress

namespace Options

inductive Choice where
  | path
  | cleanup
  | checkpoint
  | failure
deriving DecidableEq, Repr

namespace Choice

def all : List Choice := [path, cleanup, checkpoint, failure]

def flag : Choice → String
  | path => "registry-path"
  | cleanup => "registry-cleanup-interval-ms"
  | checkpoint => "registry-checkpoint-interval-ms"
  | failure => "registry-max-checkpoint-failure-duration-ms"

def placeholder : Choice → String
  | path => "REGISTRY_PATH"
  | cleanup => "REGISTRY_CLEANUP_INTERVAL_MS"
  | checkpoint => "REGISTRY_CHECKPOINT_INTERVAL_MS"
  | failure => "REGISTRY_MAX_CHECKPOINT_FAILURE_DURATION_MS"

def usage (choice : Choice) : String :=
  "--" ++ choice.flag ++ " <" ++ choice.placeholder ++ ">"

def variableName (choice : Choice) : String :=
  "FILESTATE_" ++ choice.placeholder

def description : Choice → String
  | path => "Path of the registry file used to resume files across restarts"
  | cleanup => "Interval in milliseconds between removals of finished, expired file states"
  | checkpoint => "Interval in milliseconds between writes of the registry file"
  | failure => "Maximum duration in milliseconds of consecutive checkpoint failures before exiting"

def defaultText : Choice → String
  | path => default.path.text
  | cleanup => toString default.cleanupMillis.toNat
  | checkpoint => toString default.checkpointMillis.toNat
  | failure => toString default.failureMillis.toNat

end Choice

abbrev Environment := List (String × String)

/--
Why a command line is not followed.
-/
inductive UsageError where
  /-- A flag has no value, or an empty one where that is none. -/
  | valueMissing (choice : Choice)
  | valueInvalid (choice : Choice) (text : String) (e : NumeralError)
  | repeated (choice : Choice)
  | unexpected (text : String)
  | superfluous (flag text : String)
  | help (environment : Environment)
deriving DecidableEq, Repr

/--
The text that tells what can be chosen. Lines of a value are indented like what is around it. A
value is shown together with what follows it, up to the next flag, which is set apart in bold type.
-/
def helpText (environment : Environment) : String :=
  "Usage: agent [OPTIONS]\n\nOptions:\n      " ++ go Choice.all ++
    "-h, --help\n          Print help\n"
where
  go : List Choice → String
    | [] => ""
    | choice :: choices =>
      let value := (environment.lookup choice.variableName).getD ""
      let indent := if choices = [] then "  " else "      "
      shownText (choice.usage ++ "\n          " ++ choice.description ++
        " [env: " ++ choice.variableName ++ "=" ++ indented value ++ "]" ++
        " [default: " ++ choice.defaultText ++ "]\n" ++ indent) ++ go choices
  indented (value : String) : String :=
    "\n          ".intercalate ((splitAt '\n' value.toList).map String.ofList)

def firstLine (text : String) : String :=
  let (line, rest) := splitFirst '\n' text.toList
  match rest, line.getLast? with
  | some _, some '\r' => String.ofList line.dropLast
  | _, _ => String.ofList line

/--
The wording of an error, which is one line unless help is wanted. What has been given is set apart
in colour, so that it is shown by itself.
-/
def UsageError.message : UsageError → String
  | valueMissing choice =>
    "error: a value is required for '" ++ choice.usage ++ "' but none was supplied"
  | valueInvalid choice text e =>
    firstLine ("error: invalid value '" ++ shownText text ++ "' for '" ++ choice.usage ++ "': " ++
      e.message)
  | repeated choice => "error: the argument '" ++ choice.usage ++ "' cannot be used multiple times"
  | unexpected text => firstLine ("error: unexpected argument '" ++ shownText text ++ "' found")
  | superfluous flag text =>
    firstLine ("error: unexpected value '" ++ shownText text ++ "' for '" ++ flag ++
      "' found; no more were expected")
  | help environment => helpText environment

def set (options : Options) (choice : Choice) (text : String) : Except UsageError Options :=
  match choice with
  | .path =>
    if text.isEmpty then .error (.valueMissing choice) else .ok { options with path := ⟨text⟩ }
  | .cleanup => (number choice text).map fun n => { options with cleanupMillis := n }
  | .checkpoint => (number choice text).map fun n => { options with checkpointMillis := n }
  | .failure => (number choice text).map fun n => { options with failureMillis := n }
where
  number (choice : Choice) (text : String) : Except UsageError UInt64 :=
    match readNumeral (UInt64.size - 1) text.toList with
    | .ok n => .ok n.toUInt64
    | .error e => .error (.valueInvalid choice text e)

/--
A command line that has been read in part.
-/
structure Selection where
  options : Options
  chosen : List Choice
  /-- The last flag, if its value is a word of its own, and that word. -/
  open? : Option (Choice × Option String)

namespace Selection

/--
Choose a value. Nothing is chosen twice.
-/
def choose (selection : Selection) (choice : Choice) (text : String) :
    Except UsageError Selection := do
  if choice ∈ selection.chosen then
    throw (.repeated choice)
  let options ← selection.options.set choice text
  pure { selection with options, chosen := choice :: selection.chosen }

def settle (selection : Selection) : Except UsageError Selection :=
  let settled := { selection with open? := none }
  match selection.open? with
  | none => .ok settled
  | some (choice, none) => .error (.valueMissing choice)
  | some (choice, some text) => settled.choose choice text

def addVariables (selection : Selection) (environment : Environment) :
    List Choice → Except UsageError Selection
  | [] => .ok selection
  | choice :: choices => do
    let selection ←
      if choice ∈ selection.chosen then
        pure selection
      else
        match environment.lookup choice.variableName with
        | none => pure selection
        | some text => selection.choose choice text
    selection.addVariables environment choices

end Selection

/--
What a word of a command line is.
-/
inductive Word where
  | stop
  /-- A name behind two dashes, with a value if there is an equals sign. -/
  | flag (name : String) (value : Option String)
  | letter (c : Char)
  | plain
deriving DecidableEq, Repr

def Word.ofText (text : String) : Word :=
  match text.toList with
  | ['-', '-'] => stop
  | '-' :: '-' :: rest =>
    let (name, value) := splitFirst '=' rest
    flag (String.ofList name) (value.map String.ofList)
  | '-' :: c :: _ => letter c
  | _ => plain

/--
Follow the words of a command line. Where a word has no meaning, the value that was given before it
is not looked at any more.
-/
def followWords (environment : Environment) (selection : Selection) :
    List String → Except UsageError Selection
  | [] => selection.settle
  | text :: texts => do
    match Word.ofText text with
    | .stop =>
      match texts with
      | [] => selection.settle
      | text :: _ => throw (.unexpected text)
    | .flag name value =>
      match Choice.all.find? (·.flag = name), value with
      | some choice, some value =>
        let selection ← selection.settle
        let selection ← selection.choose choice value
        followWords environment selection texts
      | some choice, none =>
        let selection ← selection.settle
        followWords environment { selection with open? := some (choice, none) } texts
      | none, value =>
        if name = "help" then
          if let some value := value then
            throw (.superfluous "--help" value)
          let _ ← selection.settle
          throw (.help environment)
        else
          throw (.unexpected ("--" ++ name))
    | .letter c =>
      if c = 'h' then
        let _ ← selection.settle
        throw (.help environment)
      else
        throw (.unexpected (String.ofList ['-', c]))
    | .plain =>
      match selection.open? with
      | some (choice, none) =>
        followWords environment { selection with open? := some (choice, some text) } texts
      | _ => throw (.unexpected text)

def ofCommandLine (words : List String) (environment : Environment) :
    Except UsageError Options := do
  let selection ← followWords environment ⟨default, [], none⟩ words
  let selection ← selection.addVariables environment Choice.all
  pure selection.options

theorem ofCommandLine_nil : ofCommandLine [] [] = .ok default := rfl

end Options

end ReadProgress
