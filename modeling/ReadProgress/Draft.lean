import ReadProgress.Database

/-!
This module contains drafts: what is going to be published as a scope of a database.
-/

namespace ReadProgress

/--
A draft of one scope. What is changed in it is seen by nobody else before it is published.
-/
structure Draft where
  name : String
  staged : Scope

namespace Draft

def ofName (name : String) : Draft where
  name := name
  staged := .empty

def put (draft : Draft) (key : String) (value : Json) : Draft :=
  { draft with staged := draft.staged.put key value }

/--
Stage a map whose keys are values themselves. Only those that have a text can be keys.
-/
def putMap (draft : Draft) (key : String) (pairs : List (Json × Json)) : Except Error Draft :=
  match Json.ofPairs? pairs with
  | some value => .ok (draft.put key value)
  | none => .error (.json ⟨.keyMustBeString, none⟩)

def erase (draft : Draft) (key : String) : Draft :=
  { draft with staged := draft.staged.erase key }

def get (draft : Draft) (d : Json.Decoder α) (key : String) : Except Json.Refusal (Option α) :=
  match draft.staged.get? key with
  | none => .ok none
  | some value =>
    match d.value value with
    | .ok a => .ok (some a)
    | .error reason => .error ⟨reason, none⟩

def load (draft : Draft) (db : Database) : Draft :=
  { draft with staged := db.contents.scope draft.name }

/--
Publish what has been staged and write the file. It is published even if the file cannot be written.
-/
def sync (draft : Draft) (db : Database) (disk : Disk) : Except Error Unit × Database × Disk :=
  let db := db.publish draft.name draft.staged
  let (result, disk) := db.flush disk
  (result, db, disk)

@[simp]
theorem name_put (draft : Draft) (key : String) (value : Json) :
    (draft.put key value).name = draft.name := rfl

@[simp]
theorem name_erase (draft : Draft) (key : String) : (draft.erase key).name = draft.name := rfl

@[simp]
theorem get?_staged_put (draft : Draft) (set key : String) (value : Json) :
    (draft.put set value).staged.get? key =
      if key = set then some value else draft.staged.get? key :=
  Table.get?_put _ _ _ _

@[simp]
theorem get?_staged_erase (draft : Draft) (erased key : String) :
    (draft.erase erased).staged.get? key =
      if key = erased then none else draft.staged.get? key :=
  Table.get?_erase _ _ _

/--
What is set is read again, and what is erased is not there any more.
-/
theorem get_put (draft : Draft) {d : Json.Decoder α} {value : Json} {a : α} (key : String)
    (h : d.value value = .ok a) : (draft.put key value).get d key = .ok (some a) := by
  simp only [get, get?_staged_put, if_pos, h]

theorem get_erase (draft : Draft) (d : Json.Decoder α) (key : String) :
    (draft.erase key).get d key = .ok none := by
  simp only [get, get?_staged_erase, if_pos]

end Draft

end ReadProgress
