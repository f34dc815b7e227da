import ReadProgress.FileTree

/-!
This module contains the replacement of a file as a whole. The new content is written to a temporary
file beside it, which is then moved to its place. Whatever fails on the way, nobody sees half of the
content under the name of the file.
-/

namespace ReadProgress

/--
The steps in which a file is replaced.
-/
inductive Stage where
  | parents
  | create
  /-- Hand over the content. -/
  | write
  /-- Write what has been handed over. -/
  | flush
  /-- Wait until what has been written is safe. -/
  | sync
  | rename
deriving DecidableEq, Repr

/--
A failure of the disk at some step of a replacement.
-/
structure Fault where
  stage : Stage
  error : FileError
  /-- How many bytes are in the temporary file, if they are being written. -/
  written : Nat
deriving DecidableEq, Repr

/--
What is to be written where.
-/
structure Replacement where
  home : Location
  target : Path
  temporary : Path
  content : Bytes
deriving DecidableEq, Repr

/--
A replacement on its way.
-/
structure Attempt where
  tree : FileTree
  /-- The trees before each of the steps so far, the last one first. -/
  earlier : List FileTree
  failure : Option FileError

namespace Replacement

def fill (job : Replacement) (content : Bytes) (tree : FileTree) :
    Except FileError Unit × FileTree :=
  match tree.writeFile job.home job.temporary content with
  | .ok tree => (.ok (), tree)
  | .error e => (.error e, tree)

def perform (job : Replacement) (tree : FileTree) : Stage → Except FileError Unit × FileTree
  | .parents => tree.makeParents job.home job.target
  | .create => job.fill [] tree
  | .write => job.fill job.content tree
  | .flush | .sync => (.ok (), tree)
  | .rename =>
    match tree.moveFile job.home job.temporary job.target with
    | .ok tree => (.ok (), tree)
    | .error e => (.error e, tree)

/--
Fail at a step. Of what was being written, a part may be there.
-/
def fail (job : Replacement) (tree : FileTree) (fault : Fault) : FileTree :=
  match fault.stage with
  | .write | .flush => (job.fill (job.content.take fault.written) tree).2
  | .parents | .create | .sync | .rename => tree

def step (job : Replacement) (fault : Option Fault) (attempt : Attempt) (stage : Stage) : Attempt :=
  if attempt.failure.isSome then
    attempt
  else
    let next := match fault with
      | none => job.perform attempt.tree stage
      | some fault =>
        if fault.stage = stage then
          (.error fault.error, job.fail attempt.tree fault)
        else
          job.perform attempt.tree stage
    {
      tree := next.2
      earlier := attempt.tree :: attempt.earlier
      failure := match next.1 with
        | .ok _ => none
        | .error e => some e
    }

def clear (job : Replacement) (attempt : Attempt) : Attempt :=
  if attempt.failure.isSome then
    match attempt.tree.removeFile job.home job.temporary with
    | .ok tree => { attempt with tree, earlier := attempt.tree :: attempt.earlier }
    | .error _ => attempt
  else
    attempt

def run (job : Replacement) (fault : Option Fault) (tree : FileTree) : Attempt :=
  let prepared := job.step fault ⟨tree, [], none⟩ .parents
  if prepared.failure.isSome then
    prepared
  else
    job.clear ([.create, .write, .flush, .sync, .rename].foldl (job.step fault) prepared)

theorem step_of_failure (job : Replacement) (fault : Option Fault) {attempt : Attempt}
    (h : attempt.failure.isSome = true) (stage : Stage) :
    job.step fault attempt stage = attempt := by
  simp [step, h]

end Replacement

/--
A disk as a program that works on it sees it.
-/
structure Disk where
  tree : FileTree
  home : Location
  /-- The number of the program among all that are running. -/
  process : Nat
  /-- How many files the program has replaced or tried to. -/
  serial : Nat
  /-- How the next replacements fail by the fault of the disk. -/
  faults : List (Option Fault)

namespace Disk

def ofDirectory (home : Location) (process : Nat) : Disk where
  tree := .ofDirectory home
  home := home
  process := process
  serial := 0
  faults := []

/--
The next replacement. No two have the same temporary file.
-/
def replacement (disk : Disk) (target : Path) (content : Bytes) : Replacement where
  home := disk.home
  target := target
  temporary :=
    target.withExtension ("tmp." ++ toString disk.process ++ "." ++ toString disk.serial)
  content := content

def replace (disk : Disk) (target : Path) (content : Bytes) : Except FileError Unit × Disk :=
  let attempt := (disk.replacement target content).run disk.faults.head?.join disk.tree
  let result := match attempt.failure with
    | none => .ok ()
    | some e => .error e
  (result, { disk with
    tree := attempt.tree
    serial := disk.serial + 1
    faults := disk.faults.tail })

def read (disk : Disk) (path : Path) : Except FileError Bytes :=
  disk.tree.readFile disk.home path

end Disk

end ReadProgress
