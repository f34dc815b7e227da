/-!
This module contains what a terminal shows of a text: neither control characters nor the sequences
of characters that an escape character begins.
-/

namespace ReadProgress

/--
Where a text has come to, as a terminal takes it.
-/
inductive TerminalState where
  | plain
  /-- Behind an escape character. -/
  | escape
  /-- Behind an escape character and others that do not tell yet what is wanted. -/
  | escapeMore
  /-- In a control sequence, which ends with a letter or the like. -/
  | control
  /-- In a command, which ends with a bell. -/
  | command
  /-- In front of the parameters of a string for a device. -/
  | device
  /-- In the parameters of a string for a device. -/
  | deviceParameter
  /-- Behind the parameters of a string for a device. -/
  | deviceMore
  /-- In a string that ends with the byte for that. -/
  | string
deriving DecidableEq, Repr

namespace TerminalState

def isCancel (c : Char) : Bool :=
  c == '\x18' || c == '\x1a'

def isLayout (c : Char) : Bool :=
  c == '\t' || c == '\n' || c == '\x0c' || c == '\r'

/--
Whether a character has the byte among its own that ends strings.
-/
def hasTerminator (c : Char) : Bool :=
  (String.utf8EncodeChar c).contains 0x9c

/--
Whether the text inside a sequence has no control characters that matter.
-/
def isOpaque : TerminalState → Bool
  | command | device | deviceParameter | deviceMore | string => true
  | plain | escape | escapeMore | control => false

def afterVisible (c : Char) : TerminalState → TerminalState
  | plain => plain
  | escape =>
    if c ≤ '/' then escapeMore
    else if c = '[' then control
    else if c = ']' then command
    else if c = 'P' then device
    else if c = 'X' ∨ c = '^' ∨ c = '_' then string
    else plain
  | escapeMore => if c ≤ '/' then escapeMore else plain
  | control => if c ≤ '?' then control else plain
  | command => command
  | device => if c ≤ '/' then deviceMore else if c ≤ '?' then deviceParameter else string
  | deviceParameter =>
    if c ≤ '/' then deviceMore else if c ≤ ';' then deviceParameter else string
  | deviceMore => if c ≤ '/' then deviceMore else string
  | string => string

/--
The state behind a character, and what is shown of it. Characters that are not in ASCII do not
matter inside a sequence, unless they happen to have a byte that ends it.
-/
def next (state : TerminalState) (c : Char) : TerminalState × List Char :=
  if c = '\x1b' then
    (escape, [])
  else if '\x80' ≤ c then
    if state = plain then (plain, [c])
    else if state = string ∧ hasTerminator c then (plain, [])
    else (state, [])
  else if c = '\x7f' then
    (state, [])
  else if ' ' ≤ c then
    (state.afterVisible c, if state = plain then [c] else [])
  else if isCancel c ∨ (c = '\x07' ∧ state = command) then
    (plain, [])
  else if isLayout c ∧ ¬ state.isOpaque then
    (plain, [c])
  else
    (state, [])

def shown (state : TerminalState) : List Char → List Char
  | [] => []
  | c :: rest =>
    let (state, front) := state.next c
    front ++ state.shown rest

end TerminalState

def shownText (text : String) : String :=
  String.ofList (TerminalState.plain.shown text.toList)

end ReadProgress
