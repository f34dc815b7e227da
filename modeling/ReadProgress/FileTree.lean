import ReadProgress.FileError
import ReadProgress.Path
import ReadProgress.Table
import ReadProgress.Text.Bytes

/-!
This module contains trees of files and directories, and how paths lead through them. Directories
are entered one name at a time. What is not entered may be missing.
-/

namespace ReadProgress

/--
A place in a tree: the names that lead there from the root, the last one first.
-/
abbrev Location := List String

/--
What is found at a place.
-/
inductive Node where
  | file (content : Bytes)
  | directory
deriving DecidableEq, Repr, Inhabited

/--
What is found at the places of a tree.
-/
abbrev FileTree := Table Location Node

namespace FileTree

def ofDirectory : Location → FileTree
  | [] => Table.empty.put [] .directory
  | name :: above => (ofDirectory above).put (name :: above) .directory

def nameLimit : Nat := 255

def pathLimit : Nat := 4095

def child (directory : Location) (name : String) : Except FileError Location :=
  if name.utf8ByteSize ≤ nameLimit then .ok (name :: directory) else .error .nameTooLong

def walk (tree : FileTree) (place : Location) : List String → Except FileError Location
  | [] => .ok place
  | name :: names =>
    match tree.get? place with
    | none => .error .notFound
    | some (.file _) => .error .notDirectory
    | some .directory =>
      if name = "" ∨ name = "." then
        tree.walk place names
      else if name = ".." then
        tree.walk place.tail names
      else
        match child place name with
        | .ok place => tree.walk place names
        | .error e => .error e

/--
Refuse paths that lead nowhere in any tree.
-/
def checkPath (path : Path) : Except FileError Unit :=
  if '\x00' ∈ path.text.toList then .error .nameWithNul
  else if path.isEmpty then .error .notFound
  else if pathLimit < path.text.utf8ByteSize then .error .nameTooLong
  else .ok ()

def origin (home : Location) (path : Path) : Location :=
  if path.isRooted then [] else home

def find (tree : FileTree) (home : Location) (path : Path) :
    Except FileError (Location × Node) := do
  checkPath path
  let place ← tree.walk (origin home path) path.names
  match tree.get? place with
  | some node => pure (place, node)
  | none => throw .notFound

def leads (tree : FileTree) (home : Location) (path : Path) : Bool :=
  match tree.find home path with
  | .ok _ => true
  | .error _ => false

def leadsToDirectory (tree : FileTree) (home : Location) (path : Path) : Bool :=
  match tree.find home path with
  | .ok (_, .directory) => true
  | _ => false

/--
The end of a path, where something may be made, moved or taken away.
-/
structure Ending where
  directory : Location
  /-- The last name, unless it is a step up or no step at all. -/
  name : Option String
  slashed : Bool

/--
Follow a path to the directory of its last name.
-/
def ending (tree : FileTree) (home : Location) (path : Path) : Except FileError Ending := do
  checkPath path
  let names := (path.names.reverse.dropWhile (· = "")).reverse
  let slashed := names.length ≠ path.names.length
  match names.getLast? with
  | none => pure ⟨[], none, slashed⟩
  | some last =>
    let directory ← tree.walk (origin home path) (names.dropLast ++ [""])
    pure ⟨directory, if last = "." ∨ last = ".." then none else some last, slashed⟩

def makeDirectory (tree : FileTree) (home : Location) (path : Path) :
    Except FileError FileTree := do
  let e ← tree.ending home path
  let some name := e.name | throw .occupied
  let place ← child e.directory name
  if tree.contains place then
    throw .occupied
  pure (tree.put place .directory)

/--
Make the first directory of a list, each of which is in the one behind it. What is missing is made
before, and stays even if something fails later.
-/
def makeFirst (tree : FileTree) (home : Location) : List Path → Except FileError Unit × FileTree
  | [] => (.ok (), tree)
  | path :: above =>
    match tree.makeDirectory home path with
    | .ok tree => (.ok (), tree)
    | .error .notFound =>
      match tree.makeFirst home above with
      | (.error e, tree) => (.error e, tree)
      | (.ok _, tree) =>
        match tree.makeDirectory home path with
        | .ok tree => (.ok (), tree)
        | .error e => (settled tree path e, tree)
    | .error e => (settled tree path e, tree)
where
  settled (tree : FileTree) (path : Path) (e : FileError) : Except FileError Unit :=
    if tree.leadsToDirectory home path then .ok () else .error e

def makeDirectories (tree : FileTree) (home : Location) (path : Path) :
    Except FileError Unit × FileTree :=
  tree.makeFirst home path.ancestors

/--
Make the directories that are missing above what a path leads to.
-/
def makeParents (tree : FileTree) (home : Location) (path : Path) :
    Except FileError Unit × FileTree :=
  match path.parent? with
  | none => (.ok (), tree)
  | some parent =>
    if parent.isEmpty ∨ tree.leads home parent then
      (.ok (), tree)
    else
      tree.makeDirectories home parent

def filePlace (tree : FileTree) (home : Location) (path : Path) : Except FileError Location := do
  let e ← tree.ending home path
  let some name := e.name | throw .isDirectory
  if e.slashed then
    throw .isDirectory
  let place ← child e.directory name
  match tree.get? place with
  | some .directory => throw .isDirectory
  | _ => pure place

def writeFile (tree : FileTree) (home : Location) (path : Path) (content : Bytes) :
    Except FileError FileTree := do
  let place ← tree.filePlace home path
  pure (tree.put place (.file content))

def readFile (tree : FileTree) (home : Location) (path : Path) : Except FileError Bytes := do
  match ← tree.find home path with
  | (_, .file content) => pure content
  | (_, .directory) => throw .isDirectory

def removeFile (tree : FileTree) (home : Location) (path : Path) : Except FileError FileTree := do
  match ← tree.find home path with
  | (place, .file _) => pure (tree.erase place)
  | (_, .directory) => throw .isDirectory

def remove (tree : FileTree) (home : Location) (path : Path) : Except FileError FileTree := do
  let (place, _) ← tree.find home path
  pure (tree.restrict fun other => !(place.isSuffixOf other))

def moveFile (tree : FileTree) (home : Location) (source target : Path) :
    Except FileError FileTree := do
  let s ← tree.ending home source
  let t ← tree.ending home target
  let some sourceName := s.name | throw .busy
  let some targetName := t.name | throw .busy
  let sourcePlace ← child s.directory sourceName
  let content ← match tree.get? sourcePlace with
    | some (.file content) => pure content
    | some .directory => throw .isDirectory
    | none => throw .notFound
  let targetPlace ← child t.directory targetName
  if s.slashed ∨ t.slashed then
    throw .notDirectory
  match tree.get? targetPlace with
  | some .directory => throw .isDirectory
  | _ => pure ((tree.erase sourcePlace).put targetPlace (.file content))

/--
The text for a place below a directory: the names with slashes between them, and one behind if there
is a directory.
-/
def label (directory : Location) (place : Location) (node : Node) : String :=
  let names := (place.take (place.length - directory.length)).reverse
  let text := "/".intercalate names
  match node with
  | .file _ => text
  | .directory => text ++ "/"

def labels (tree : FileTree) (directory : Location) : List String :=
  let below := tree.entries.filter fun (place, _) =>
    directory.isSuffixOf place && place ≠ directory
  (below.map fun (place, node) => label directory place node).mergeSort (· ≤ ·)

end FileTree

end ReadProgress
