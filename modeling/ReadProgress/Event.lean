import ReadProgress.Error
import ReadProgress.Registry.Cleanup
import ReadProgress.Store

/-!
This module contains the events that are told to those who watch the program at work.
-/

namespace ReadProgress

/--
How much an event matters, the most first.
-/
inductive Level where
  | error
  | warn
  | info
  | debug
  | trace
deriving DecidableEq, Repr

namespace Level

def rank : Level → Nat
  | error => 1
  | warn => 2
  | info => 3
  | debug => 4
  | trace => 5

def name : Level → String
  | error => "ERROR"
  | warn => "WARN"
  | info => "INFO"
  | debug => "DEBUG"
  | trace => "TRACE"

end Level

/--
What may happen.
-/
inductive Event where
  | added (record : Record)
  | overdue (record : Record)
  | restored (restoration : Restoration)
  | checkpointed (count : Nat)
  | cleaned (removed pending : Nat)
  | cleanupUnwritten (e : Error)
  | started
  | cancelled
  | recovered
  | checkpointFailed (e : Error)
  | givenUp (e : Error)
  | lastCheckpoint (count : Nat)
  | lastCheckpointFailed (e : Error)
deriving DecidableEq, Repr

namespace Event

def level : Event → Level
  | added _ | restored .fresh | checkpointed _ | cleaned 0 _ | cancelled | recovered => .debug
  | restored (.rows _) | cleaned _ _ | started | lastCheckpoint _ => .info
  | overdue _ | cleanupUnwritten _ | checkpointFailed _ | lastCheckpointFailed _ => .warn
  | givenUp _ => .error

def target : Event → String
  | added _ | overdue _ => "filestate::registry"
  | restored _ | checkpointed _ => "filestate::persistence::store"
  | cleaned _ _ | cleanupUnwritten _ | started | cancelled | recovered | checkpointFailed _
  | givenUp _ | lastCheckpoint _ | lastCheckpointFailed _ => "filestate::housekeeping"

def message : Event → String
  | added _ => "New state added"
  | overdue _ => "State is eligible for removal but not finished, keeping it"
  | restored .fresh => "No persisted registry state found, starting fresh"
  | restored (.rows count) => "Restored " ++ toString count ++ " file states from registry"
  | checkpointed count => "Checkpoint completed with " ++ toString count ++ " states"
  | cleaned 0 _ => "Registry cleanup removed nothing"
  | cleaned _ _ => "Removed finished file states"
  | cleanupUnwritten e => "Failed to write registry after cleanup: " ++ e.message
  | started => "Registry housekeeping started"
  | cancelled => "Registry housekeeping cancelled"
  | recovered => "Checkpoint succeeded after previous failures"
  | checkpointFailed e => "Checkpoint failed (failures started <elapsed> ago): " ++ e.message
  | givenUp e => "Checkpoint failures persisted beyond threshold, exiting: " ++ e.message
  | lastCheckpoint count =>
    "Final registry checkpoint completed with " ++ toString count ++ " states"
  | lastCheckpointFailed e => "Failed to perform final registry checkpoint: " ++ e.message

def fields : Event → List (String × Json)
  | added record => [("id", .string record.id), ("source", .string record.source)]
  | overdue record =>
    [("id", .string record.id), ("source", .string record.source),
      ("ttl", .string record.ttl.written)]
  | cleaned 0 pending => [("pending", .integer pending)]
  | cleaned removed pending => [("removed", .integer removed), ("pending", .integer pending)]
  | restored _ | checkpointed _ | cleanupUnwritten _ | started | cancelled | recovered
  | checkpointFailed _ | givenUp _ | lastCheckpoint _ | lastCheckpointFailed _ => []

end Event

namespace Registry

def updateEvents (registry : Registry) (record : Record) : List Event :=
  if registry.isNew record.id then [.added record] else []

def Cleanup.events (cleanup : Cleanup) : List Event :=
  cleanup.overdue.map .overdue

end Registry

end ReadProgress
