import ReadProgress.Pattern.CharSet
import ReadProgress.Text.Alphanumeric

/-!
This module contains the reading of patterns. A pattern is made of sequences with bars between them;
what is in a sequence are atoms, sets, groups and switches, which may be repeated.
-/

namespace ReadProgress

namespace Pattern

/--
How a group begins.
-/
inductive GroupStart where
  /-- It is none, but sets switches for what is left of the group around. -/
  | switches (switches : Switches)
  /-- It has switches of its own, and a name if it is called by one. -/
  | group (switches : Switches) (name : Option (List Char))

/--
Read the letters of switches, up to the colon or bracket behind them. Each of them may be set once,
or switched off behind a hyphen.
-/
def readSwitches (switches : Switches) (seen : List Char) :
    List Char → Option (Switches × List Char × List Char)
  | [] => none
  | c :: rest =>
    if c = ':' ∨ c = ')' then
      if seen.head? = some '-' then none else some (switches, seen, c :: rest)
    else if seen.contains c ∨ ¬ ['-', 'i', 'm', 's', 'U', 'u', 'R', 'x'].contains c then
      none
    else
      readSwitches (switches.set c (!seen.contains '-')) (c :: seen) rest

def isNameChar (first : Bool) (c : Char) : Bool :=
  if first then c == '_' || isAlphabetic c
  else c == '_' || c == '.' || c == '[' || c == ']' || isAlphanumeric c

def readName (text : List Char) : Option (List Char × List Char) :=
  let name := text.takeWhile (· ≠ '>')
  match name, text.dropWhile (· ≠ '>') with
  | first :: others, '>' :: rest =>
    if isNameChar true first && others.all (isNameChar false) then some (name, rest) else none
  | _, _ => none

/--
Read how a group begins, behind its bracket. What surrounds a match cannot be looked at.
-/
def readGroupStart (switches : Switches) (text : List Char) : Option (GroupStart × List Char) :=
  match skip switches text with
  | '?' :: '<' :: '=' :: _ | '?' :: '<' :: '!' :: _ => none
  | '?' :: 'P' :: '<' :: rest | '?' :: '<' :: rest =>
    (readName rest).map fun (name, rest) => (.group switches (some name), rest)
  | '?' :: rest => do
    let (inner, seen, rest) ← readSwitches switches [] rest
    match rest with
    | ')' :: rest => if seen = [] then none else some (.switches inner, rest)
    | _ :: rest => some (.group inner none, rest)
    | [] => none
  | rest => some (.group switches none, rest)

/--
Sequences with bars between them that have been read in part.
-/
structure Branches where
  /-- The sequences in front of the last bar. -/
  earlier : List Outline
  /-- The parts behind it, the last one first, and whether they can be repeated. -/
  parts : List (Outline × Bool)

namespace Branches

def empty : Branches :=
  ⟨[], []⟩

def add (branches : Branches) (part : Outline) (repeatable : Bool) : Branches :=
  { branches with parts := (part, repeatable) :: branches.parts }

def bar (branches : Branches) : Branches :=
  ⟨.ofParts (branches.parts.map (·.1)) :: branches.earlier, []⟩

def repeatLast (branches : Branches) : Option Branches :=
  match branches.parts with
  | (part, true) :: parts => some { branches with parts := (part.around, true) :: parts }
  | _ => none

def outline (branches : Branches) : Outline :=
  .ofParts branches.bar.earlier

end Branches

def readAtom (switches : Switches) : List Char → Option (Atom × List Char)
  | [] => none
  | '\\' :: rest => readEscape switches rest
  | '.' :: rest => some (.any, rest)
  | '^' :: rest | '$' :: rest => some (.place false, rest)
  | c :: rest => some (.char c false, rest)

/--
Read sequences with bars between them, up to the closing bracket of a group or to the end. The names
of groups are collected, since no two may be the same.
-/
def readBranches : (fuel : Nat) → (inGroup : Bool) → Switches → (names : List (List Char)) →
    Branches → List Char → Option (Outline × List (List Char) × List Char)
  | 0, _, _, _, _, _ => none
  | fuel + 1, inGroup, switches, names, branches, text =>
    match skip switches text with
    | [] => if inGroup then none else some (branches.outline, names, [])
    | ')' :: rest => if inGroup then some (branches.outline, names, rest) else none
    | '|' :: rest => readBranches fuel inGroup switches names branches.bar rest
    | '(' :: rest => do
      match ← readGroupStart switches rest with
      | (.switches switches, rest) =>
        readBranches fuel inGroup switches names (branches.add .leaf false) rest
      | (.group inner name, rest) =>
        guard (name.all (!names.contains ·))
        let (outline, names, rest) ←
          readBranches fuel true inner (name.toList ++ names) .empty rest
        readBranches fuel inGroup switches names (branches.add outline.around true) rest
    | '[' :: rest => do
      let (set, rest) := OpenSet.read switches rest
      let (set, rest) ← readSet switches fuel set rest
      readBranches fuel inGroup switches names (branches.add ⟨set.depth, false⟩ true) rest
    | '?' :: '?' :: rest | '*' :: '?' :: rest | '+' :: '?' :: rest
    | '?' :: rest | '*' :: rest | '+' :: rest => do
      readBranches fuel inGroup switches names (← branches.repeatLast) rest
    | '\x7b' :: _ => none
    | text => do
      let (atom, rest) ← readAtom switches text
      guard (atom.isUsable switches)
      readBranches fuel inGroup switches names (branches.add (atom.outline switches) true) rest

/--
What matters of a pattern, unless it is malformed. A count of repetitions would have to be in
braces, which end the field.
-/
def read? (text : List Char) : Option Outline :=
  (readBranches (text.length + 1) false .default [] .empty text).map (·.1)

def fault? (text : List Char) : Option Fault :=
  match read? text with
  | none => some .unbuildable
  | some outline => outline.fault?

end Pattern

end ReadProgress
