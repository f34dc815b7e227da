import ReadProgress.Registry

/-!
This module contains the removal of records that are finished and whose time is over. The records
are gone through once. Where one is removed, the last one that has not been looked at yet takes its
place, so that nothing else has to move.
-/

namespace ReadProgress

namespace Registry

/--
A cleanup on its way through the records of a registry.
-/
structure Sweep where
  /-- The records that have been looked at and stay, which keep their positions. -/
  kept : List Record
  /-- The records that are still to be looked at. -/
  waiting : List Record
  /-- The records that have been removed, the last one first. They are behind all others. -/
  dropped : List Record
  index : Std.TreeMap String Nat
  announced : List String
  /-- The records that stay though their time is over, the last one first. -/
  overdue : List Record
  /-- The number of records that stay and may be removed later. -/
  pending : Nat

namespace Sweep

def records (sweep : Sweep) : List Record :=
  sweep.kept ++ sweep.waiting ++ sweep.dropped

def start (registry : Registry) : Sweep where
  kept := []
  waiting := registry.records
  dropped := []
  index := registry.index
  announced := []
  overdue := []
  pending := 0

def rotate (records : List Record) : List Record :=
  match records.getLast? with
  | none => []
  | some last => last :: records.dropLast

def keep (sweep : Sweep) (now : Timestamp) (record : Record) (rest : List Record) : Sweep :=
  { sweep with
    kept := sweep.kept ++ [record]
    waiting := rest
    overdue := if record.isOverdue now then record :: sweep.overdue else sweep.overdue
    pending := if record.isPending now then sweep.pending + 1 else sweep.pending }

def announce (sweep : Sweep) (record : Record) : Sweep :=
  { sweep with announced := record.id :: sweep.announced }

/--
Remove the record in front. The last one of the others, if there is one, moves up to its position.
-/
def drop (sweep : Sweep) (record : Record) (rest : List Record) : Sweep :=
  let index := sweep.index.erase record.id
  { sweep with
    waiting := rotate rest
    dropped := record :: sweep.dropped
    index :=
      match rest.getLast? with
      | none => index
      | some last => index.insert last.id sweep.kept.length }

@[simp]
theorem length_rotate (records : List Record) : (rotate records).length = records.length := by
  unfold rotate
  split
  . simp_all
  . next last h =>
    have : records ≠ [] := by rintro rfl; simp at h
    have := List.length_pos_iff.2 this
    simp only [List.length_cons, List.length_dropLast]
    omega

theorem length_drop (sweep : Sweep) (record : Record) (rest : List Record) :
    (sweep.drop record rest).waiting.length = rest.length := by
  simp [drop]

theorem rotate_perm (records : List Record) : (rotate records).Perm records := by
  unfold rotate
  split
  . simp_all
  . next last h =>
    obtain ⟨init, rfl⟩ := List.getLast?_eq_some_iff.1 h
    simpa using (List.perm_append_singleton last init).symm

/--
Go through the waiting records. Where the removal of a record is announced whose id is refused, the
sweep stops in front of it.
-/
def run (now : Timestamp) (refuses : String → Bool) (sweep : Sweep) : Sweep :=
  match _h : sweep.waiting with
  | [] => sweep
  | record :: rest =>
    if record.isRemovable now then
      if refuses record.id then
        sweep.announce record
      else
        run now refuses ((sweep.announce record).drop record rest)
    else
      run now refuses (sweep.keep now record rest)
termination_by sweep.waiting.length
decreasing_by
  . simp [length_drop, _h]
  . simp [keep, _h]

/--
The registry after a sweep that went through. What was removed is given up.
-/
def finish (sweep : Sweep) : Registry where
  records := sweep.kept
  index := sweep.index

/--
The registry that a sweep leaves where it stops.
-/
def abandon (sweep : Sweep) : Registry where
  records := sweep.records
  index := sweep.index

end Sweep

/--
What a cleanup has done.
-/
structure Cleanup where
  /-- The ids of the records that were removed, in the order in which that happened. -/
  removed : List String
  /-- The records that stay though their time is over, as their sources are not finished. -/
  overdue : List Record
  /-- The number of records that stay and may be removed by a later cleanup. -/
  pending : Nat
deriving Repr

def Sweep.account (sweep : Sweep) : Cleanup where
  removed := sweep.announced.reverse
  overdue := sweep.overdue.reverse
  pending := sweep.pending

/--
Remove the records that are finished and whose time is over at a certain moment.
-/
def cleanup (registry : Registry) (now : Timestamp) : Cleanup × Registry :=
  let sweep := (Sweep.start registry).run now fun _ => false
  (sweep.account, sweep.finish)

/--
Clean up as long as nobody refuses the removal of an id. If that happens, the registry stays as it
is at that point.
-/
def cleanupUnless (registry : Registry) (now : Timestamp) (refuses : String → Bool) :
    Cleanup × Registry :=
  let sweep := (Sweep.start registry).run now refuses
  (sweep.account, if sweep.waiting = [] then sweep.finish else sweep.abandon)

/--
Whether the removal of an id was refused during a cleanup.
-/
def Cleanup.isRefused (cleanup : Cleanup) (refuses : String → Bool) : Bool :=
  cleanup.removed.any refuses

end Registry

end ReadProgress
