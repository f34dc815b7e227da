import ReadProgress.Event
import ReadProgress.Proofs.Registry.Sweep

/-!
This module contains what a cleanup tells of its work. However the records are moved about on the way,
the ids that are announced are those of the records that are removed, each record that stays though its
time is over is told of once, and the records that may be removed later are counted one by one.
-/

namespace ReadProgress

namespace Record

variable {record : Record} {now : Timestamp}

theorem isRemovable_of_isPending (h : record.isPending now = true) :
    record.isRemovable now = false := by
  unfold isPending at h
  unfold isRemovable
  cases hexpired : record.isExpired now with
  | true => simp [hexpired] at h
  | false => rfl

theorem isRemovable_of_isOverdue (h : record.isOverdue now = true) :
    record.isRemovable now = false := by
  unfold isOverdue at h
  unfold isRemovable
  cases hfinished : record.finished with
  | true => simp [hfinished] at h
  | false => rw [Bool.and_false]

end Record

namespace Registry

variable {now : Timestamp}

namespace Sweep

variable {sweep : Sweep} {record : Record} {rest : List Record}

/--
The account of a sweep is about the records that have been looked at so far.
-/
structure Accounts (now : Timestamp) (sweep : Sweep) : Prop where
  announced : sweep.announced = sweep.dropped.map (·.id)
  overdue : sweep.overdue.reverse = sweep.kept.filter fun record => record.isOverdue now
  pending : sweep.pending = sweep.kept.countP fun record => record.isPending now

namespace Accounts

theorem start (registry : Registry) : Accounts now (start registry) where
  announced := rfl
  overdue := rfl
  pending := rfl

theorem keep (h : Accounts now sweep) (record : Record) (rest : List Record) :
    Accounts now (sweep.keep now record rest) where
  announced := h.announced
  overdue := by
    simp only [Sweep.keep, List.filter_append, ← h.overdue]
    by_cases hrecord : record.isOverdue now
    . simp [hrecord]
    . simp [hrecord]
  pending := by
    simp only [Sweep.keep, List.countP_append, List.countP_singleton, h.pending]
    split <;> rfl

theorem drop (h : Accounts now sweep) (record : Record) (rest : List Record) :
    Accounts now ((sweep.announce record).drop record rest) where
  announced := congrArg (record.id :: ·) h.announced
  overdue := h.overdue
  pending := h.pending

theorem run (h : Accounts now sweep) : Accounts now (sweep.run now fun _ => false) := by
  refine run_induction (P := Accounts now) ?_ ?_ ?_ sweep h
  . intro sweep record rest _ _ haccounts
    exact haccounts.keep record rest
  . intro sweep record rest _ _ _ haccounts
    exact haccounts.drop record rest
  . intro sweep record rest _ _ hrefuses _
    simp at hrefuses

end Accounts

theorem Sorts.dropped_perm {records : List Record} (h : Sorts now records sweep)
    (hwaiting : sweep.waiting = []) :
    sweep.dropped.Perm (records.filter fun record => record.isRemovable now) := by
  have hperm := h.perm.filter fun record => record.isRemovable now
  have hkept : sweep.kept.filter (fun record => record.isRemovable now) = [] := by
    rw [List.filter_eq_nil_iff]
    intro record hmem
    rw [h.kept record hmem]
    simp
  have hdropped : sweep.dropped.filter (fun record => record.isRemovable now) = sweep.dropped := by
    rw [List.filter_eq_self]
    exact h.dropped
  simpa only [Sweep.records, hwaiting, List.append_nil, List.filter_append, hkept, hdropped,
    List.nil_append] using hperm

end Sweep

theorem exists_accounts_cleanup (registry : Registry) (now : Timestamp) :
    ∃ sweep : Sweep, registry.cleanup now = (sweep.account, sweep.finish) ∧ sweep.waiting = [] ∧
      sweep.Sorts now registry.records ∧ sweep.Accounts now :=
  ⟨_, rfl, Sweep.waiting_run _, (Sweep.Sorts.start registry).run _, (Sweep.Accounts.start registry).run⟩

theorem removed_cleanup_perm (registry : Registry) (now : Timestamp) :
    (registry.cleanup now).1.removed.Perm
      ((registry.records.filter fun record => record.isRemovable now).map (·.id)) := by
  obtain ⟨sweep, hcleanup, hwaiting, hsorts, haccounts⟩ := registry.exists_accounts_cleanup now
  rw [hcleanup]
  change (List.reverse _).Perm _
  refine (List.reverse_perm _).trans ?_
  rw [haccounts.announced]
  exact (hsorts.dropped_perm hwaiting).map (·.id)

theorem overdue_cleanup_perm (registry : Registry) (now : Timestamp) :
    (registry.cleanup now).1.overdue.Perm
      (registry.records.filter fun record => record.isOverdue now) := by
  obtain ⟨sweep, hcleanup, hwaiting, hsorts, haccounts⟩ := registry.exists_accounts_cleanup now
  rw [hcleanup]
  change sweep.overdue.reverse.Perm _
  rw [haccounts.overdue]
  refine ((hsorts.kept_perm hwaiting).filter _).trans ?_
  rw [List.filter_filter]
  apply List.Perm.of_eq
  refine List.filter_congr fun record _ => ?_
  cases hoverdue : record.isOverdue now with
  | true => simp [Record.isRemovable_of_isOverdue hoverdue]
  | false => rfl

theorem pending_cleanup_eq_kept (registry : Registry) (now : Timestamp) :
    (registry.cleanup now).1.pending =
      (registry.cleanup now).2.records.countP fun record => record.isPending now := by
  obtain ⟨sweep, hcleanup, -, -, haccounts⟩ := registry.exists_accounts_cleanup now
  rw [hcleanup]
  exact haccounts.pending

/--
Those that are left out of the count are removed, so they are not pending.
-/
theorem pending_cleanup (registry : Registry) (now : Timestamp) :
    (registry.cleanup now).1.pending =
      registry.records.countP fun record => record.isPending now := by
  rw [pending_cleanup_eq_kept, (registry.records_cleanup_perm now).countP_eq, List.countP_filter]
  refine List.countP_congr fun record _ => ?_
  constructor
  . intro h
    exact (Bool.and_eq_true_iff.1 h).1
  . intro h
    simp [h, Record.isRemovable_of_isPending h]

/--
A cleanup sorts out the records, however they are moved about on the way and wherever the index leads.
The records that are removed and those that stay are together all records there were, each of them
once and unchanged. What is announced, told of and counted is so once for each record it is about.
-/
theorem cleanup_sorts_out (registry : Registry) (now : Timestamp) :
    ∃ dropped : List Record,
      ((registry.cleanup now).2.records ++ dropped).Perm registry.records ∧
      dropped.Perm (registry.records.filter fun record => record.isExpired now && record.finished) ∧
      (registry.cleanup now).2.records.Perm
        (registry.records.filter fun record => !(record.isExpired now && record.finished)) ∧
      (registry.cleanup now).1.removed = dropped.map (·.id) ∧
      (registry.cleanup now).1.removed.length = registry.size - (registry.cleanup now).2.size ∧
      (registry.cleanup now).1.events.Perm
        ((registry.records.filter fun record => record.isExpired now && !record.finished).map
          .overdue) ∧
      (registry.cleanup now).1.pending = (registry.cleanup now).2.records.countP fun record =>
        record.ttl.canExpire && !record.isExpired now := by
  obtain ⟨sweep, hcleanup, hwaiting, hsorts, haccounts⟩ := registry.exists_accounts_cleanup now
  have hremoved : (registry.cleanup now).1.removed = sweep.dropped.reverse.map (·.id) := by
    rw [hcleanup, List.map_reverse, ← haccounts.announced]
    rfl
  have hall : ((registry.cleanup now).2.records ++ sweep.dropped.reverse).Perm registry.records := by
    have hperm := hsorts.perm
    rw [Sweep.records, hwaiting, List.append_nil] at hperm
    rw [hcleanup]
    exact ((List.reverse_perm _).append_left _).trans hperm
  refine ⟨sweep.dropped.reverse, hall, ?_, registry.records_cleanup_perm now, hremoved, ?_, ?_, ?_⟩
  . exact (List.reverse_perm _).trans (hsorts.dropped_perm hwaiting)
  . have hlength := hall.length_eq
    rw [List.length_append] at hlength
    rw [hremoved, List.length_map, size, size]
    omega
  . exact (registry.overdue_cleanup_perm now).map _
  . rw [pending_cleanup_eq_kept]
    exact List.countP_congr fun record _ => by rw [Record.isPending, Bool.and_comm]

end Registry

end ReadProgress
