import ReadProgress.Record
import Std.Data.TreeMap

/-!
This module contains the registry: the records of all sources that are known, in a dense list, with
an index that tells at which position the record of an id is found.
-/

namespace ReadProgress

/--
The records of all known sources.
-/
structure Registry where
  records : List Record
  /-- The positions of the records, by their ids. -/
  index : Std.TreeMap String Nat

namespace Registry

def empty : Registry where
  records := []
  index := ∅

instance : Inhabited Registry := ⟨empty⟩

/--
The index leads to records of the right id only.
-/
def Sound (registry : Registry) : Prop :=
  ∀ (id : String) (position : Nat), registry.index[id]? = some position →
    ∃ record : Record, registry.records[position]? = some record ∧ record.id = id

/--
The index leads to each record.
-/
def Complete (registry : Registry) : Prop :=
  ∀ (position : Nat) (record : Record), registry.records[position]? = some record →
    registry.index[record.id]? = some position

def find? (registry : Registry) (id : String) : Option Record := do
  registry.records[← registry.index[id]?]?

def contains (registry : Registry) (id : String) : Bool :=
  registry.index.contains id

/--
Whether an id is not known yet.
-/
def isNew (registry : Registry) (id : String) : Bool :=
  !registry.contains id

def size (registry : Registry) : Nat :=
  registry.records.length

/--
Take in a record that was made at a certain moment, in place of an earlier one with its id.
-/
def update (registry : Registry) (record : Record) (moment : Timestamp) : Registry :=
  let record := { record with timestamp := moment }
  match registry.index[record.id]? with
  | some position =>
    { registry with records := registry.records.set position record }
  | none => {
      records := registry.records ++ [record]
      index := registry.index.insert record.id registry.records.length
    }

/--
The index of some records. Of those with one id, the last one is found.
-/
def indexOf (records : List Record) : Std.TreeMap String Nat :=
  records.zipIdx.foldl (fun index (record, position) => index.insert record.id position) ∅

/--
The registry of some records, in their order. Records that share an id all stay in the list.
-/
def ofRecords (records : List Record) : Registry where
  records := records
  index := indexOf records

def copy (registry : Registry) : Registry :=
  ofRecords registry.records

theorem sound_empty : empty.Sound := by
  simp [Sound, empty]

theorem complete_empty : empty.Complete := by
  simp [Complete, empty]

@[simp]
theorem find?_empty (id : String) : empty.find? id = none := by
  simp [find?, empty]

@[simp]
theorem contains_empty (id : String) : empty.contains id = false := by
  simp [contains, empty]

@[simp]
theorem records_ofRecords (records : List Record) : (ofRecords records).records = records := rfl

@[simp]
theorem records_copy (registry : Registry) : registry.copy.records = registry.records := rfl

theorem find?_update_self {registry : Registry} (h : registry.Sound) (record : Record)
    (moment : Timestamp) :
    (registry.update record moment).find? record.id = some { record with timestamp := moment } := by
  simp only [update, find?]
  split
  . next position hposition =>
    obtain ⟨old, hold, -⟩ := h _ _ hposition
    have := (List.getElem?_eq_some_iff.1 hold).1
    simp [hposition, this]
  . simp

end Registry

end ReadProgress
