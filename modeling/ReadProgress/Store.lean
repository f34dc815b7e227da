import ReadProgress.Draft
import ReadProgress.Registry
import ReadProgress.Snapshot.Form

/-!
This module contains stores, which keep snapshots of a registry in a database and bring them back. A
store knows what it has written last, so that single rows can be dropped without a new snapshot.
-/

namespace ReadProgress

/--
A store of snapshots.
-/
structure Store where
  draft : Draft
  /-- The snapshot that is written next, unless a new one is taken before. -/
  view : Snapshot

/--
What has been brought back.
-/
inductive Restoration where
  | fresh
  | rows (count : Nat)
deriving DecidableEq, Repr

def Restoration.count : Restoration → Nat
  | fresh => 0
  | rows count => count

namespace Store

def defaultScope : String := "registry"

def snapshotKey : String := "states"

def ofName (name : String) : Store where
  draft := .ofName name
  view := .empty

def load (disk : Disk) (path : Path) : Except Error (Store × Database) × Disk :=
  match Database.load disk path with
  | (.ok db, disk) => (.ok (ofName defaultScope, db), disk)
  | (.error e, disk) => (.error e, disk)

def row? (store : Store) (id : String) : Option Row :=
  store.view.row? id

def size (store : Store) : Nat :=
  store.view.size

def read (store : Store) (d : Json.Decoder α) : Except Error (Option α) :=
  match store.draft.get d snapshotKey with
  | .ok a => .ok a
  | .error refusal => .error (.ofRefusal refusal fun refusal => .corrupted (.unreadable refusal))

/--
The snapshot in the draft, if there is one. It must be of the version that is known.
-/
def snapshot? (store : Store) : Except Error (Option Snapshot) := do
  match ← store.read Snapshot.versionForm.decoder with
  | none => pure none
  | some version =>
    if version = Snapshot.currentVersion then
      store.read Snapshot.form.decoder
    else
      throw (.corrupted (.version version Snapshot.currentVersion))

/--
Bring back the records of the last snapshot into a registry, in place of those that are in it. Where
there is no snapshot the registry stays as it is, and so it does where there is an error.
-/
def restore (store : Store) (registry : Registry) (db : Database) :
    Except Error Restoration × Store × Registry :=
  let store := { store with draft := store.draft.load db }
  match store.snapshot? with
  | .error e => (.error e, store, registry)
  | .ok none => (.ok .fresh, { store with view := .empty }, registry)
  | .ok (some snapshot) =>
    (.ok (.rows snapshot.size), { store with view := snapshot }, .ofRecords snapshot.toRecords)

def forget (store : Store) (id : String) : Store :=
  { store with view := store.view.erase id }

def sync (store : Store) (db : Database) (disk : Disk) :
    Except Error Unit × Store × Database × Disk :=
  let draft := store.draft.put snapshotKey store.view.toJson
  let (result, db, disk) := draft.sync db disk
  (result, { store with draft }, db, disk)

/--
Take a new snapshot of a registry and write it. The answer is the number of its rows.
-/
def checkpoint (store : Store) (registry : Registry) (db : Database) (disk : Disk) :
    Except Error Nat × Store × Database × Disk :=
  let store := { store with view := .ofRecords registry.records }
  match store.sync db disk with
  | (.ok _, store, db, disk) => (.ok store.size, store, db, disk)
  | (.error e, store, db, disk) => (.error e, store, db, disk)

@[simp]
theorem view_forget (store : Store) (id : String) :
    (store.forget id).view = store.view.erase id := rfl

@[simp]
theorem view_sync (store : Store) (db : Database) (disk : Disk) :
    (store.sync db disk).2.1.view = store.view := rfl

@[simp]
theorem view_checkpoint (store : Store) (registry : Registry) (db : Database) (disk : Disk) :
    (store.checkpoint registry db disk).2.1.view = .ofRecords registry.records := by
  simp only [checkpoint]
  split <;> next h => rw [← congrArg (·.2.1.view) h]; simp

end Store

end ReadProgress
