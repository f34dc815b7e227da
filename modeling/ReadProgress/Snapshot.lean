import ReadProgress.Members
import ReadProgress.Record

/-!
This module contains snapshots: what is kept of records across restarts. A snapshot has one row for
each source, and its rows are in the order of the ids.
-/

namespace ReadProgress

/--
What is kept of a record. The id is what the row is found under.
-/
structure Row where
  source : String
  offset : UInt64
  timestamp : Timestamp
  ttl : Ttl
  finished : Bool
deriving DecidableEq, Repr, Inhabited

namespace Row

def ofRecord (record : Record) : Row where
  source := record.source
  offset := record.offset
  timestamp := record.timestamp
  ttl := record.ttl
  finished := record.finished

def toRecord (row : Row) (id : String) : Record where
  id := id
  source := row.source
  offset := row.offset
  timestamp := row.timestamp
  ttl := row.ttl
  finished := row.finished

@[simp]
theorem ofRecord_toRecord (row : Row) (id : String) : ofRecord (row.toRecord id) = row := rfl

@[simp]
theorem toRecord_ofRecord (record : Record) : (ofRecord record).toRecord record.id = record := rfl

end Row

/--
The rows of all sources, with the version of the form in which they are kept.
-/
structure Snapshot where
  version : UInt8
  rows : Members Row
  ascending : rows.Ascending
deriving DecidableEq

namespace Snapshot

/--
The version that is written, and the only one that is accepted.
-/
def currentVersion : UInt8 := 1

def empty : Snapshot where
  version := currentVersion
  rows := []
  ascending := .nil

instance : Inhabited Snapshot := ⟨empty⟩

/--
The snapshot of some records. Of those with one id, the last one counts.
-/
def ofRecords (records : List Record) : Snapshot where
  version := currentVersion
  rows := .ofList (records.map fun record => (record.id, Row.ofRecord record))
  ascending := Members.ascending_ofList _

def toRecords (snapshot : Snapshot) : List Record :=
  snapshot.rows.map fun (id, row) => row.toRecord id

def row? (snapshot : Snapshot) (id : String) : Option Row :=
  snapshot.rows.lookup id

def size (snapshot : Snapshot) : Nat :=
  snapshot.rows.length

def erase (snapshot : Snapshot) (id : String) : Snapshot where
  version := snapshot.version
  rows := snapshot.rows.erase id
  ascending := Members.ascending_erase snapshot.ascending

@[simp]
theorem row?_erase (snapshot : Snapshot) (name id : String) :
    (snapshot.erase name).row? id = if id = name then none else snapshot.row? id := by
  simp [erase, row?]

@[simp]
theorem row?_empty (id : String) : empty.row? id = none := rfl

end Snapshot

end ReadProgress
