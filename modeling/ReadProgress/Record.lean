import ReadProgress.Timestamp
import ReadProgress.Ttl

/-!
This module contains records of how far sources have been read, and when they may be removed.
-/

namespace ReadProgress

/--
Whether a policy allows the removal, at the moment `now`, of what was last updated at `updated`. If
that lies in the future, time that passes is not over yet.
-/
def Ttl.isExpired (ttl : Ttl) (updated now : Timestamp) : Bool :=
  match ttl with
  | never => false
  | immediate => true
  | after d => (d.toNanos : Int) < now.nanosSince updated

/--
How far a source has been read.
-/
structure Record where
  /-- What tells the source from all others. -/
  id : String
  /-- The path at which the source was last seen, for people to read. -/
  source : String
  /-- The byte from which reading goes on. -/
  offset : UInt64
  /-- When the record was last updated. -/
  timestamp : Timestamp
  /-- How long the record is kept once the source is finished. -/
  ttl : Ttl
  /-- Whether the source will not be read any further. -/
  finished : Bool
deriving DecidableEq, Repr, Inhabited

namespace Record

/--
Whether the policy of a record allows its removal. That the source is finished is another matter.
-/
def isExpired (record : Record) (now : Timestamp) : Bool :=
  record.ttl.isExpired record.timestamp now

/--
Whether a cleanup removes a record.
-/
def isRemovable (record : Record) (now : Timestamp) : Bool :=
  record.isExpired now && record.finished

/--
Whether a cleanup leaves a record that a later one may remove, as time passes.
-/
def isPending (record : Record) (now : Timestamp) : Bool :=
  !record.isExpired now && record.ttl.canExpire

/--
Whether a record could be removed if only its source were finished.
-/
def isOverdue (record : Record) (now : Timestamp) : Bool :=
  record.isExpired now && !record.finished

end Record

end ReadProgress
