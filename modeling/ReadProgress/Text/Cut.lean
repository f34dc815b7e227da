/-!
This module contains cuts of texts at places that are counted in bytes. A text can be cut between
its characters, but not inside of them.
-/

namespace ReadProgress

def byteCount : List Char → Nat
  | [] => 0
  | c :: rest => c.utf8Size + byteCount rest

def cutAt? : Nat → List Char → Option (List Char × List Char)
  | 0, text => some ([], text)
  | _ + 1, [] => none
  | n + 1, c :: rest =>
    if c.utf8Size ≤ n + 1 then
      (cutAt? (n + 1 - c.utf8Size) rest).map fun (front, behind) => (c :: front, behind)
    else
      none

def slice? (text : List Char) (i j : Nat) : Option (List Char) := do
  let (_, behind) ← cutAt? i text
  let (front, _) ← cutAt? (j - i) behind
  some front

end ReadProgress
