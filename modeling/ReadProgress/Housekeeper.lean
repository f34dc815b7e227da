import ReadProgress.Config
import ReadProgress.Event

/-!
This module contains the housekeeper, who removes the records of a registry whose time is over and
has snapshots of it written.
-/

namespace ReadProgress

structure Housekeeper where
  store : Store
  config : Config
  /-- When it was noted that a periodic checkpoint had failed, if all have failed since. -/
  failingSince : Option Nat

namespace Housekeeper

def ofStore (store : Store) (config : Config) : Housekeeper where
  store := store
  config := config
  failingSince := none

/--
Open the file that a configuration names and bring back the records that are kept there. The
configuration is checked before anything is done.
-/
def restore (config : Config) (registry : Registry) (disk : Disk) :
    Except Error (Restoration × Housekeeper × Registry × Database) × Disk :=
  match config.fault? with
  | some cause => (.error (.config cause), disk)
  | none =>
    match Store.load disk config.statesPath with
    | (.error e, disk) => (.error e, disk)
    | (.ok (store, db), disk) =>
      match store.restore registry db with
      | (.error e, _, _) => (.error e, disk)
      | (.ok restoration, store, registry) =>
        (.ok (restoration, ofStore store config, registry, db), disk)

end Housekeeper

/--
A house: a housekeeper and what the housekeeper works on.
-/
structure House where
  registry : Registry
  keeper : Housekeeper
  database : Database
  disk : Disk

/--
What a cleanup of a house has done.
-/
structure Tidying where
  cleanup : Registry.Cleanup
  /-- Why the rows that are left have not been written, if that was tried and has failed. -/
  failure : Option Error

def Tidying.events (tidying : Tidying) : List Event :=
  tidying.cleanup.events ++
    .cleaned tidying.cleanup.removed.length tidying.cleanup.pending ::
      (tidying.failure.map .cleanupUnwritten).toList

namespace House

def setStore (house : House) (store : Store) : House :=
  { house with keeper := { house.keeper with store } }

def sync (house : House) : Except Error Unit × House :=
  let (result, store, database, disk) := house.keeper.store.sync house.database house.disk
  (result, { house.setStore store with database, disk })

/--
Remove the records that are finished and whose time is over, and their rows in the store. If there
are any, the rows that are left are written.
-/
def cleanup (house : House) (now : Timestamp) : Tidying × House :=
  let (cleanup, registry) := house.registry.cleanup now
  let store := cleanup.removed.foldl Store.forget house.keeper.store
  let house := { house.setStore store with registry }
  if cleanup.removed = [] then
    (⟨cleanup, none⟩, house)
  else
    match house.sync with
    | (.ok _, house) => (⟨cleanup, none⟩, house)
    | (.error e, house) => (⟨cleanup, some e⟩, house)

def checkpoint (house : House) : Except Error Nat × House :=
  let (result, store, database, disk) :=
    house.keeper.store.checkpoint house.registry house.database house.disk
  (result, { house.setStore store with database, disk })

def noteFailing (house : House) (failingSince : Option Nat) : House :=
  { house with keeper := { house.keeper with failingSince } }

/--
What comes of a periodic checkpoint.
-/
inductive Checkpoint where
  | written (count : Nat)
  | recovered (count : Nat)
  | failed (e : Error)
  | givenUp (e : Error)

def Checkpoint.events : Checkpoint → List Event
  | written count => [.checkpointed count]
  | recovered count => [.checkpointed count, .recovered]
  | failed e => [.checkpointFailed e]
  | givenUp e => [.givenUp e]

def Checkpoint.fatal? : Checkpoint → Option Error
  | givenUp e => some e
  | written _ | recovered _ | failed _ => none

/--
How long periodic checkpoints have failed. Where the last one had not failed, that is counted from the
instant at which it is noted now.
-/
def failingFor (house : House) (noted measured : Nat) : Nat :=
  measured - house.keeper.failingSince.getD noted

/--
Write a snapshot of the registry, as it is done from time to time. The housekeeper gives up once
failures have lasted for as long as they are borne.
-/
def periodicCheckpoint (house : House) (noted measured : Nat) : Checkpoint × House :=
  match house.checkpoint with
  | (.ok count, next) =>
    (if house.keeper.failingSince.isSome then .recovered count else .written count,
      next.noteFailing none)
  | (.error e, next) =>
    (if house.failingFor noted measured < house.keeper.config.failureLimit.toNanos then .failed e
      else .givenUp e, next.noteFailing (some (house.keeper.failingSince.getD noted)))

def lastCheckpoint (house : House) : List Event × House :=
  match house.checkpoint with
  | (.ok count, house) => ([.checkpointed count, .lastCheckpoint count], house)
  | (.error e, house) => ([.lastCheckpointFailed e], house)

end House

end ReadProgress
