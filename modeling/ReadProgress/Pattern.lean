/-!
This module contains what matters of patterns, by which the values of fields are described in a
filter. No event has such a value at hand, so that nothing is ever matched; but a pattern that
cannot be used is refused.

A pattern finds text, and it is prepared without tables of characters beyond ASCII. So it cannot
ignore the case of letters or name classes of characters, unless it is switched to bytes; and bytes
by themselves must be ASCII.
-/

namespace ReadProgress

namespace Pattern

/--
Why a pattern cannot be used.
-/
inductive Fault where
  /-- It is malformed, or needs tables of characters, or would find what is no text. -/
  | unbuildable
  /-- It looks for boundaries of words that may be written in any alphabet. -/
  | unicodeWords
deriving DecidableEq, Repr

def Fault.message : Fault → String
  | unbuildable => "error building NFA"
  | unicodeWords =>
    "unsupported regex feature for DFAs: cannot build DFAs for regexes with Unicode word " ++
      "boundaries; switch to ASCII word boundaries, or heuristically enable Unicode word " ++
      "boundaries or use a different regex engine"

/--
The switches that change how a pattern is read.
-/
structure Switches where
  ignoresCase : Bool
  /-- Whether a character may be any of Unicode, and not only a byte. -/
  unicode : Bool
  verbose : Bool
deriving DecidableEq, Repr

def Switches.default : Switches :=
  ⟨false, true, false⟩

/--
Set the switch with a certain letter, if it is one of those that matter.
-/
def Switches.set (switches : Switches) (letter : Char) (on : Bool) : Switches :=
  match letter with
  | 'i' => { switches with ignoresCase := on }
  | 'u' => { switches with unicode := on }
  | 'x' => { switches with verbose := on }
  | _ => switches

/--
What matters of a pattern, or of a part of one.
-/
structure Outline where
  depth : Nat
  unicodeWords : Bool
deriving DecidableEq, Repr

namespace Outline

def leaf : Outline :=
  ⟨0, false⟩

def around (inner : Outline) : Outline :=
  { inner with depth := inner.depth + 1 }

/--
Parts that stand side by side. One alone does not count as such.
-/
def ofParts : List Outline → Outline
  | [] => leaf
  | [part] => part
  | parts => ⟨(parts.map (·.depth)).foldl max 0 + 1, parts.any (·.unicodeWords)⟩

def depthLimit : Nat :=
  250

def fault? (outline : Outline) : Option Fault :=
  if depthLimit < outline.depth then some .unbuildable
  else if outline.unicodeWords then some .unicodeWords
  else none

end Outline

end Pattern

end ReadProgress
