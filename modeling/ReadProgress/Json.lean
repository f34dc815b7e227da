import ReadProgress.Members

/-!
This module contains values of the data format that files are written in.
-/

namespace ReadProgress

/--
A value of the data format. Integers lie between `-2 ^ 63` and `2 ^ 64`; all other numbers are in
double precision and given by their bits. The members of an object stand in the order of their
names, which are distinct.
-/
inductive Json where
  | null
  | boolean (b : Bool)
  | integer (i : Int)
  | float (bits : UInt64)
  | string (s : String)
  | array (items : List Json)
  | object (members : List (String × Json))
deriving Repr, Inhabited, BEq

namespace Json

def member? (name : String) : Json → Option Json
  | object members => members.lookup name
  | _ => none

end Json

end ReadProgress
