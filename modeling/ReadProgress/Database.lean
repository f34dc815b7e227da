import ReadProgress.Disk
import ReadProgress.Error
import ReadProgress.Json.Decoder
import ReadProgress.Json.Writer
import ReadProgress.Table

/-!
This module contains databases: values under keys, which are grouped in scopes, as they are kept in
a file. A file always holds all scopes.
-/

namespace ReadProgress

abbrev Scope := Table String Json

abbrev Contents := Table String Scope

namespace Contents

def scope (contents : Contents) (name : String) : Scope :=
  (contents.get? name).getD .empty

def form : Json.RecordForm (Option Contents) Contents where
  title := "DatabaseState"
  fields := [
    ⟨"scopes", Json.Decoder.any.members.members.map fun scopes _ =>
      some (.ofList (scopes.map fun (name, entries) => (name, .ofList entries))),
      (·.isSome), false⟩]
  blank := none
  finish
    | some contents => .ok contents
    | none => .error "scopes"

/--
Contents as a value. The scopes and their keys are in the order in which they are gone through.
-/
def toJson (contents : Contents) : Json :=
  .object [
    ("scopes", .object (contents.entries.map fun (name, scope) => (name, .object scope.entries)))]

def written (contents : Contents) : Bytes :=
  contents.toJson.write .indented 0

def read (content : Bytes) : Except Json.Refusal Contents :=
  form.decoder.decodeText true content

end Contents

/--
A database, with the path of its file. If that is empty, there is no file.
-/
structure Database where
  path : Path
  contents : Contents

namespace Database

def inMemory : Database where
  path := ⟨""⟩
  contents := .empty

instance : Inhabited Database := ⟨inMemory⟩

/--
The database in the file under a path. A file that is missing is not made yet, but the directories
above it are.
-/
def load (disk : Disk) (path : Path) : Except Error Database × Disk :=
  if disk.tree.leads disk.home path then
    match disk.read path with
    | .error e => (.error (.unreadable e), disk)
    | .ok content =>
      match Contents.read content with
      | .ok contents => (.ok ⟨path, contents⟩, disk)
      | .error refusal => (.error (.ofRefusal refusal .json), disk)
  else
    match disk.tree.makeParents disk.home path with
    | (.ok _, tree) => (.ok ⟨path, .empty⟩, { disk with tree })
    | (.error e, tree) => (.error (.file e), { disk with tree })

def flush (db : Database) (disk : Disk) : Except Error Unit × Disk :=
  if db.path.isEmpty then
    (.ok (), disk)
  else
    match disk.replace db.path db.contents.written with
    | (.ok _, disk) => (.ok (), disk)
    | (.error e, disk) => (.error (.file e), disk)

def publish (db : Database) (name : String) (scope : Scope) : Database :=
  { db with contents := db.contents.put name scope }

@[simp]
theorem flush_inMemory (disk : Disk) : inMemory.flush disk = (.ok (), disk) := rfl

@[simp]
theorem scope_publish (db : Database) (name other : String) (scope : Scope) :
    (db.publish name scope).contents.scope other =
      if other = name then scope else db.contents.scope other := by
  simp only [publish, Contents.scope, Table.get?_put]
  split <;> rfl

end Database

end ReadProgress
