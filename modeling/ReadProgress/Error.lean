import ReadProgress.FileError
import ReadProgress.Json.Refusal
import ReadProgress.Pattern

/-!
This module contains the errors that operations end with.
-/

namespace ReadProgress

/--
What is wrong with a configuration.
-/
inductive Misconfiguration where
  | noPath
  | noCleanupInterval
  | noCheckpointInterval
  | logDirective
  | logLevel
  | logPattern (cause : Pattern.Fault)
  | logInUse
  | other (text : String)
deriving DecidableEq, Repr

def Misconfiguration.message : Misconfiguration → String
  | noPath => "registry states path must be set"
  | noCleanupInterval => "cleanup interval must be greater than zero"
  | noCheckpointInterval => "checkpoint interval must be greater than zero"
  | logDirective => "invalid log filter: invalid filter directive"
  | logLevel =>
    "invalid log filter: error parsing level filter: expected one of \"off\", \"error\", " ++
      "\"warn\", \"info\", \"debug\", \"trace\", or a number 0-5"
  | logPattern cause => "invalid log filter: invalid field filter: " ++ cause.message
  | logInUse =>
    "failed to install log subscriber: a global default trace dispatcher has already been set"
  | other text => text

/--
What is wrong with a snapshot that is to be restored.
-/
inductive Corruption where
  | version (found known : UInt8)
  | unreadable (refusal : Json.Refusal)
  | other (text : String)
deriving DecidableEq, Repr

def Corruption.message : Corruption → String
  | version found known =>
    "unsupported registry state version " ++ toString found.toNat ++ " (expected " ++
      toString known.toNat ++ ")"
  | unreadable refusal => "unreadable registry state: " ++ refusal.message
  | other text => text

/--
What no operation survives.
-/
inductive Crash where
  /-- The text of a policy for removal has more seconds than there can be. -/
  | secondsOverflow
  /-- Something is to be done again and again, with no time in between. -/
  | zeroPeriod
  /-- A filter for the log is cut inside a character. -/
  | brokenCharacter
deriving DecidableEq, Repr

def Crash.message : Crash → String
  | secondsOverflow => "overflow in Duration::new"
  | zeroPeriod => "`period` must be non-zero."
  | brokenCharacter => "text is cut inside a character"

/--
Why an operation fails.
-/
inductive Error where
  | file (e : FileError)
  | json (refusal : Json.Refusal)
  | unreadable (e : FileError)
  | persistence (text : String)
  | config (cause : Misconfiguration)
  | corrupted (cause : Corruption)
  | crash (cause : Crash)
deriving DecidableEq, Repr

namespace Error

def message : Error → String
  | file e => "IO error: " ++ e.message
  | json refusal => "JSON parsing error: " ++ refusal.message
  | unreadable e => "JSON parsing error: " ++ e.message
  | persistence text => "Persistence error: " ++ text
  | config cause => "Configuration error: " ++ cause.message
  | corrupted cause => "Persisted state is corrupted: " ++ cause.message
  | crash cause => cause.message

/--
The error that a refusal leads to, unless it is one that no operation survives.
-/
def ofRefusal (refusal : Json.Refusal) (error : Json.Refusal → Error) : Error :=
  if refusal.reason.isFatal then crash .secondsOverflow else error refusal

def isCrash : Error → Bool
  | crash _ => true
  | _ => false

end Error

end ReadProgress
