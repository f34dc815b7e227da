import ReadProgress.Timespan.Reading
import ReadProgress.Timespan.Written

/-!
This module contains the policies for the removal of records that are finished.
-/

namespace ReadProgress

/--
How long a finished record is kept after its last update.
-/
inductive Ttl where
  | never
  | immediate
  /-- The record may go once more than this much time has passed. -/
  | after (d : Timespan)
deriving DecidableEq, Repr, Inhabited

namespace Ttl

/--
The policy that a length of time stands for. No time at all means that the record may go at once,
not that it is kept for good.
-/
def ofTimespan (d : Timespan) : Ttl :=
  if d.isZero then immediate else after d

def canExpire : Ttl → Bool
  | after _ => true
  | never | immediate => false

def written : Ttl → String
  | never => "never"
  | immediate => "0s"
  | after d => d.written

/--
Read a policy. White space around it does not matter.
-/
def read (text : String) : Except Timespan.ReadError Ttl :=
  let inner := trimBlank text.toList
  if inner = "never".toList then .ok never else (Timespan.read inner).map ofTimespan

theorem ofTimespan_ne_never (d : Timespan) : ofTimespan d ≠ never := by
  unfold ofTimespan
  split <;> simp

theorem ofTimespan_ne_after_zero (d : Timespan) : ofTimespan d ≠ after .zero := by
  unfold ofTimespan
  split
  . simp
  . next h =>
    intro e
    rw [after.injEq] at e
    exact h ((Timespan.isZero_iff d).2 e)

end Ttl

end ReadProgress
