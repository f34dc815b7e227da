import ReadProgress.Text.Split

/-!
This module contains the paths under which files are found. A path is kept as it is written. It
consists of names with slashes between them; names that are empty or a single dot say nothing new.
-/

namespace ReadProgress

/--
A path. Those with a slash in front start at the root, all others where the program works.
-/
structure Path where
  text : String
deriving DecidableEq, Repr, Inhabited

namespace Path

def isEmpty (path : Path) : Bool :=
  path.text.isEmpty

def isRooted (path : Path) : Bool :=
  path.text.toList.head? == some '/'

def names (path : Path) : List String :=
  let text := path.text.toList
  let text := if path.isRooted then text.drop 1 else text
  (splitAt '/' text).map String.ofList

def ofNames (rooted : Bool) (names : List String) : Path where
  text := String.ofList ((if rooted then ['/'] else []) ++ joinWith '/' (names.map String.toList))

/--
Drop the names at the end that say nothing. A dot in front of all others counts, if nothing is above
it.
-/
def trimEnd (keepDot : Bool) : List String → List String
  | [] => []
  | name :: rest =>
    match trimEnd false rest with
    | [] => if name = "" ∨ (name = "." ∧ ¬ keepDot) then [] else [name]
    | rest => name :: rest

def trimmed (path : Path) : List String :=
  trimEnd (!path.isRooted) path.names

def significant (path : Path) : List String :=
  match path.isRooted, path.names with
  | false, "." :: rest => "." :: rest.filter counts
  | _, names => names.filter counts
where
  counts (name : String) : Bool := name ≠ "" && name ≠ "."

def agrees (path other : Path) : Bool :=
  path.isRooted == other.isRooted && path.significant == other.significant

/--
The path in front of the last name. There is none for the root and the empty path.
-/
def parent? (path : Path) : Option Path :=
  match path.trimmed with
  | [] => none
  | names => some (ofNames path.isRooted (trimEnd (!path.isRooted) names.dropLast))

def ancestors (path : Path) : List Path :=
  go path.names.length path
where
  go : Nat → Path → List Path
    | 0, _ => []
    | count + 1, path =>
      if path.isEmpty then
        []
      else
        match path.parent? with
        | none => [path]
        | some parent => path :: go count parent

/--
The name of the file that a path leads to, unless the way ends with a step up or nowhere.
-/
def fileName? (path : Path) : Option String := do
  let name ← path.trimmed.getLast?
  if name = "." ∨ name = ".." then none else some name

/--
A name without its extension and the extension, which is behind the last dot. A dot in front begins
none.
-/
def splitExtension (name : String) : String × Option String :=
  let back := name.toList.reverse
  match back.dropWhile (· ≠ '.') with
  | [] | [_] => (name, none)
  | _ :: front =>
    (String.ofList front.reverse, some (String.ofList (back.takeWhile (· ≠ '.')).reverse))

/--
The path of a file with an extension in place of the one that its name has. A path without a file
name stays as it is.
-/
def setExtension (path : Path) (extension : String) : Path :=
  match path.fileName? with
  | none => path
  | some name =>
    let name := (splitExtension name).1 ++ "." ++ extension
    ofNames path.isRooted (path.trimmed.dropLast ++ [name])

/--
The path of a file with another extension. The old one is cut off first, as many characters at the
end of what is written. Where that leaves two dots, they lead a step up and are left alone.
-/
def withExtension (path : Path) (extension : String) : Path :=
  match path.fileName?.bind fun name => (splitExtension name).2 with
  | none => path.setExtension extension
  | some old =>
    let text := path.text.toList
    let front := Path.mk (String.ofList (text.take (text.length - old.length)))
    front.setExtension extension

theorem agrees_self (path : Path) : path.agrees path = true := by
  simp [agrees]

end Path

end ReadProgress
