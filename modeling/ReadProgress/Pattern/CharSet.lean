import ReadProgress.Pattern.Atom

/-!
This module contains the sets of characters in patterns, which stand in brackets. A set has items
side by side, which may be sets in brackets, and operators between such rows of items.
-/

namespace ReadProgress

namespace Pattern

/--
What a set of characters has, as far as it matters where the case of letters is ignored: all of
nothing, and all of everything, have both cases of each letter.
-/
inductive Extent where
  | nothing
  | something
  | everything
deriving DecidableEq, Repr

inductive SetOperator where
  | intersection
  | difference
  | symmetricDifference
deriving DecidableEq, Repr

namespace Extent

def union : Extent → Extent → Extent
  | nothing, e => e
  | e, nothing => e
  | everything, everything => everything
  | _, _ => something

def complement : Extent → Extent
  | nothing => everything
  | something => something
  | everything => nothing

def combine : SetOperator → Extent → Extent → Extent
  | .intersection, everything, e => e
  | .intersection, e, everything => e
  | .intersection, nothing, _ => nothing
  | .intersection, _, nothing => nothing
  | .difference, e, nothing => e
  | .difference, _, everything => nothing
  | .difference, nothing, _ => nothing
  | .symmetricDifference, nothing, e => e
  | .symmetricDifference, e, nothing => e
  | .symmetricDifference, everything, everything => nothing
  | _, _, _ => something

end Extent

/--
What matters of a set of characters.
-/
structure SetOutline where
  depth : Nat
  extent : Extent
deriving DecidableEq, Repr

namespace SetOutline

def leaf : SetOutline :=
  ⟨0, .something⟩

/--
Sets that stand side by side. One alone does not count as such.
-/
def ofItems : List SetOutline → SetOutline
  | [] => ⟨0, .nothing⟩
  | [item] => item
  | items =>
    ⟨(items.map (·.depth)).foldl max 0 + 1, (items.map (·.extent)).foldl Extent.union .nothing⟩

/--
Whether a set can be completed where the case of letters is ignored, if it is.
-/
def isClosed (switches : Switches) (set : SetOutline) : Bool :=
  !(switches.ignoresCase && switches.unicode) || set.extent != .something

def combine (switches : Switches) (operator : SetOperator) (set other : SetOutline) :
    Option SetOutline :=
  if set.isClosed switches && other.isClosed switches then
    some ⟨max set.depth other.depth + 1, set.extent.combine operator other.extent⟩
  else
    none

/--
A set in brackets. All other bytes would not be ASCII, and so not be text.
-/
def bracketed (switches : Switches) (negated : Bool) (set : SetOutline) : Option SetOutline :=
  if !set.isClosed switches || (negated && !switches.unicode) then
    none
  else
    some ⟨set.depth + 1, if negated then set.extent.complement else set.extent⟩

end SetOutline

def classNames : List String :=
  ["alnum", "alpha", "ascii", "blank", "cntrl", "digit", "graph", "lower", "print", "punct",
    "space", "upper", "word", "xdigit"]

/--
Read a named class behind its bracket: whether it is negated, and what follows. Where there is none,
the bracket has another meaning.
-/
def readNamed? : List Char → Option (Bool × List Char)
  | ':' :: rest =>
    let (negated, rest) :=
      match rest with
      | '^' :: rest => (true, rest)
      | rest => (false, rest)
    match rest.dropWhile (· ≠ ':') with
    | ':' :: ']' :: behind =>
      if classNames.contains (String.ofList (rest.takeWhile (· ≠ ':'))) then
        some (negated, behind)
      else
        none
    | _ => none
  | _ => none

def isNamedUsable (switches : Switches) (negated : Bool) : Bool :=
  if switches.unicode then !switches.ignoresCase else !negated

/--
The character that counts behind a hyphen. In what is passed over, a remark has no end here.
-/
def behindHyphen (switches : Switches) (text : List Char) : Option Char :=
  if switches.verbose then
    let rest :=
      match skipBlank text with
      | '#' :: rest => skipBlank rest
      | rest => rest
    rest.head?.or text.head?
  else
    text.head?

def readSetAtom (switches : Switches) : List Char → Option (Atom × List Char)
  | [] => none
  | '\\' :: rest => readEscape switches rest
  | c :: rest => some (.char c false, rest)

/--
Read an item of a set that is not in brackets: a single atom, or a range between two characters.
-/
def readSetItem (switches : Switches) (text : List Char) : Option (List Char) := do
  let (first, rest) ← readSetAtom switches text
  guard (first.isUsableInSet switches)
  match skip switches rest with
  | [] => none
  | '-' :: behind =>
    if behindHyphen switches behind = some ']' ∨ behindHyphen switches behind = some '-' then
      some ('-' :: behind)
    else
      let (last, rest) ← readSetAtom switches (skip switches behind)
      guard (last.isUsableInSet switches)
      match first, last with
      | .char c _, .char d _ => if c ≤ d then some rest else none
      | _, _ => none
  | rest => some rest

/--
A set that has been read in part.
-/
structure OpenSet where
  negated : Bool
  /-- The items so far, the last one first. -/
  items : List SetOutline
  /-- What is in front of the last operator. -/
  left : Option (SetOperator × SetOutline)

namespace OpenSet

def add (set : OpenSet) (item : SetOutline) : OpenSet :=
  { set with items := item :: set.items }

def outline (switches : Switches) (set : OpenSet) : Option SetOutline :=
  let right := SetOutline.ofItems set.items
  match set.left with
  | none => some right
  | some (operator, left) => left.combine switches operator right

def behind (switches : Switches) (set : OpenSet) (operator : SetOperator) : Option OpenSet :=
  (set.outline switches).map fun left => { set with items := [], left := some (operator, left) }

def readHyphens (switches : Switches) (set : OpenSet) : Nat → List Char → OpenSet × List Char
  | 0, text => (set, text)
  | fuel + 1, text =>
    match text with
    | '-' :: rest => (set.add .leaf).readHyphens switches fuel (skip switches rest)
    | _ => (set, text)

/--
Read the start of a set behind its bracket. A bracket that would close it at once stands for itself.
-/
def read (switches : Switches) (text : List Char) : OpenSet × List Char :=
  let text := skip switches text
  let (negated, text) :=
    match text with
    | '^' :: rest => (true, skip switches rest)
    | _ => (false, text)
  let (set, text) := readHyphens switches ⟨negated, [], none⟩ text.length text
  match set.items, text with
  | [], ']' :: rest => (set.add .leaf, skip switches rest)
  | _, _ => (set, text)

end OpenSet

def readSet (switches : Switches) :
    (fuel : Nat) → OpenSet → List Char → Option (SetOutline × List Char)
  | 0, _, _ => none
  | fuel + 1, set, text =>
    let text := skip switches text
    let operator (operator : SetOperator) (rest : List Char) : Option (SetOutline × List Char) := do
      readSet switches fuel (← set.behind switches operator) rest
    match text with
    | [] => none
    | '[' :: rest =>
      match readNamed? rest with
      | some (negated, rest) =>
        if isNamedUsable switches negated then
          readSet switches fuel (set.add .leaf) rest
        else
          none
      | none => do
        let (inner, rest) := OpenSet.read switches rest
        let (inner, rest) ← readSet switches fuel inner rest
        readSet switches fuel (set.add inner) rest
    | ']' :: rest => do
      let outline ← set.outline switches
      let outline ← outline.bracketed switches set.negated
      some (outline, rest)
    | '&' :: '&' :: rest => operator .intersection rest
    | '-' :: '-' :: rest => operator .difference rest
    | '~' :: '~' :: rest => operator .symmetricDifference rest
    | text => do
      let rest ← readSetItem switches text
      readSet switches fuel (set.add .leaf) rest

end Pattern

end ReadProgress
