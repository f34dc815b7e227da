import ReadProgress.Proofs.Expiry
import ReadProgress.Proofs.Registry.Account

/-!
This module contains what comes of several cleanups of a registry between which nothing else is done to
it. Together they remove what any of them would remove on its own. So a cleanup makes up for all that
were left out before it, and the number of pending records that the first one counts is a bound on what
all others can remove, whenever they take place.
-/

namespace ReadProgress

/--
Whether a cleanup at one of some moments removes a record.
-/
def Record.isRemovableIn (moments : List Timestamp) (record : Record) : Bool :=
  moments.any record.isRemovable

theorem Record.isRemovableIn_cons (record : Record) (now : Timestamp) (moments : List Timestamp) :
    record.isRemovableIn (now :: moments) =
      (record.isRemovable now || record.isRemovableIn moments) :=
  List.any_cons

theorem filter_or_perm {α : Type} (p q : α → Bool) (l : List α) :
    (l.filter fun a => p a || q a).Perm (l.filter p ++ (l.filter fun a => !p a).filter q) := by
  have hsplit := List.filter_append_perm p (l.filter fun a => p a || q a)
  have hfirst : (l.filter fun a => p a || q a).filter p = l.filter p := by
    rw [List.filter_filter]
    refine List.filter_congr fun a _ => ?_
    cases p a <;> rfl
  have hsecond : (l.filter fun a => p a || q a).filter (fun a => !p a) =
      (l.filter fun a => !p a).filter q := by
    rw [List.filter_filter, List.filter_filter]
    refine List.filter_congr fun a _ => ?_
    cases p a <;> simp
  rw [hfirst, hsecond] at hsplit
  exact hsplit.symm

namespace Registry

def cleanups (registry : Registry) : List Timestamp → List Cleanup
  | [] => []
  | now :: moments => (registry.cleanup now).1 :: (registry.cleanup now).2.cleanups moments

def afterCleanups (registry : Registry) : List Timestamp → Registry
  | [] => registry
  | now :: moments => (registry.cleanup now).2.afterCleanups moments

/--
The records of a registry that cleanups at some moments remove.
-/
def removedBy (registry : Registry) (moments : List Timestamp) : List Record :=
  registry.records.filter (Record.isRemovableIn moments)

variable {registry : Registry} {now : Timestamp}

theorem cleanup_of_forall (h : ∀ record ∈ registry.records, record.isRemovable now = false) :
    (registry.cleanup now).2 = registry := by
  rw [cleanup_eq_live]
  refine Sweep.run_induction (P := fun sweep => sweep.live = registry) ?_ ?_ ?_ _ rfl
  . intro sweep record rest hwaiting _ hlive
    rw [Sweep.live_keep hwaiting]
    exact hlive
  . intro sweep record rest hwaiting hremovable _ hlive
    have hmem : record ∈ sweep.live.records := by simp [Sweep.live, hwaiting]
    rw [hlive] at hmem
    rw [h record hmem] at hremovable
    cases hremovable
  . intro sweep record rest _ _ hrefuses _
    cases hrefuses

theorem removed_cleanup_of_forall (h : ∀ record ∈ registry.records, record.isRemovable now = false) :
    (registry.cleanup now).1.removed = [] := by
  have hnone : registry.records.filter (fun record => record.isRemovable now) = [] := by
    rw [List.filter_eq_nil_iff]
    intro record hmem
    simp [h record hmem]
  have hperm := registry.removed_cleanup_perm now
  rw [hnone] at hperm
  exact hperm.eq_nil

theorem records_afterCleanups_perm (registry : Registry) (moments : List Timestamp) :
    (registry.afterCleanups moments).records.Perm
      (registry.records.filter fun record => !record.isRemovableIn moments) := by
  induction moments generalizing registry with
  | nil => simp [afterCleanups, Record.isRemovableIn]
  | cons now moments ih =>
    refine (ih _).trans (((registry.records_cleanup_perm now).filter _).trans ?_)
    rw [List.filter_filter]
    apply List.Perm.of_eq
    refine List.filter_congr fun record _ => ?_
    rw [Record.isRemovableIn_cons, Bool.not_or, Bool.and_comm]

theorem append_removedBy_perm (registry : Registry) (moments : List Timestamp) :
    ((registry.afterCleanups moments).records ++ registry.removedBy moments).Perm
      registry.records := by
  refine ((registry.records_afterCleanups_perm moments).append_right _).trans ?_
  exact List.perm_append_comm.trans (List.filter_append_perm _ _)

theorem removed_cleanups_perm (registry : Registry) (moments : List Timestamp) :
    ((registry.cleanups moments).flatMap (·.removed)).Perm
      ((registry.removedBy moments).map (·.id)) := by
  induction moments generalizing registry with
  | nil =>
    have hnone : registry.removedBy [] = [] :=
      List.filter_eq_nil_iff.2 fun record _ => Bool.false_ne_true
    rw [hnone]
    exact .nil
  | cons now moments ih =>
    have hsplit := filter_or_perm (fun record : Record => record.isRemovable now)
      (Record.isRemovableIn moments) registry.records
    refine List.Perm.trans ?_ (hsplit.symm.map (·.id))
    rw [List.map_append]
    refine (registry.removed_cleanup_perm now).append ((ih _).trans ?_)
    exact ((registry.records_cleanup_perm now).filter _).map _

theorem afterCleanups_of_removedBy {moments : List Timestamp} (h : registry.removedBy moments = []) :
    registry.afterCleanups moments = registry := by
  replace h : ∀ record ∈ registry.records, record.isRemovableIn moments = false := by
    intro record hmem
    exact Bool.eq_false_iff.2 (List.filter_eq_nil_iff.1 h record hmem)
  induction moments with
  | nil => rfl
  | cons now moments ih =>
    simp only [Record.isRemovableIn_cons, Bool.or_eq_false_iff] at h
    rw [afterCleanups, cleanup_of_forall fun record hmem => (h record hmem).1]
    exact ih fun record hmem => (h record hmem).2

section

variable {first second : Timestamp}
  (hlater : ∀ record ∈ registry.records,
    record.isRemovable first = true → record.isRemovable second = true)

include hlater

theorem isRemovableIn_pair : ∀ record ∈ registry.records,
    record.isRemovableIn [first, second] = record.isRemovable second := by
  intro record hmem
  rw [Record.isRemovableIn_cons]
  show (record.isRemovable first || (record.isRemovable second || false)) = _
  rw [Bool.or_false, Bool.or_eq_right_iff_imp]
  exact hlater record hmem

theorem records_cleanup_cleanup_perm :
    ((registry.cleanup first).2.cleanup second).2.records.Perm
      (registry.cleanup second).2.records := by
  have hperm := registry.records_afterCleanups_perm [first, second]
  rw [List.filter_congr fun record hmem => congrArg not (isRemovableIn_pair hlater record hmem)]
    at hperm
  exact hperm.trans (registry.records_cleanup_perm second).symm

theorem removed_cleanup_cleanup_perm :
    ((registry.cleanup first).1.removed ++
        ((registry.cleanup first).2.cleanup second).1.removed).Perm
      (registry.cleanup second).1.removed := by
  have hperm := registry.removed_cleanups_perm [first, second]
  rw [removedBy, List.filter_congr (isRemovableIn_pair hlater), cleanups, List.flatMap_cons, cleanups,
    cleanups, List.flatMap_singleton] at hperm
  exact hperm.trans (registry.removed_cleanup_perm second).symm

theorem pending_cleanup_cleanup :
    ((registry.cleanup first).2.cleanup second).1.pending =
      (registry.cleanup second).1.pending := by
  rw [pending_cleanup, pending_cleanup, (registry.records_cleanup_perm first).countP_eq,
    List.countP_filter]
  refine List.countP_congr fun record hmem => ?_
  rw [Bool.and_eq_true, Bool.not_eq_true', and_iff_left_of_imp]
  intro hpending
  rw [Bool.eq_false_iff]
  intro hremovable
  have hnot := Record.isRemovable_of_isPending hpending
  rw [hlater record hmem hremovable] at hnot
  cases hnot

end

/--
A cleanup makes up for an earlier one that was left out. Together they leave the same records, announce
the same ids and count as many records as the later one alone. The second one of two cleanups at the
same moment does nothing at all.
-/
theorem cleanup_absorbs_earlier (registry : Registry) {first second : Timestamp} (h : first ≤ second)
    (hfirst : ¬ first.IsLeap) (hsecond : ¬ second.IsLeap)
    (hrecords : ∀ record ∈ registry.records, ¬ record.timestamp.IsLeap) :
    let early := registry.cleanup first
    let late := early.2.cleanup second
    let once := registry.cleanup second
    late.2.records.Perm once.2.records ∧
      (early.1.removed ++ late.1.removed).Perm once.1.removed ∧
      early.1.removed.length + late.1.removed.length = once.1.removed.length ∧
      late.1.pending = once.1.pending ∧
      (first = second → late.1.removed = [] ∧ late.2 = early.2) := by
  intro early late once
  have hlater : ∀ record ∈ registry.records, record.isRemovable first = true →
      record.isRemovable second = true := by
    intro record hmem
    exact Record.isRemovable_of_le h (hrecords record hmem) hfirst hsecond
  have hremoved : (early.1.removed ++ late.1.removed).Perm once.1.removed :=
    removed_cleanup_cleanup_perm hlater
  refine ⟨records_cleanup_cleanup_perm hlater, hremoved, ?_, pending_cleanup_cleanup hlater, ?_⟩
  . rw [← List.length_append]
    exact hremoved.length_eq
  . rintro rfl
    have hnone : ∀ record ∈ early.2.records, record.isRemovable first = false := by
      intro record hmem
      exact (mem_cleanup.1 hmem).2
    exact ⟨removed_cleanup_of_forall hnone, cleanup_of_forall hnone⟩

/--
Four sources that have been read to the end, and one that has not. The first one is kept for five
seconds, the second one for fifteen, the third one for longer than the calendar goes and the fourth one
for good.
-/
def leftBehind : Registry :=
  .ofRecords [
    ⟨"brief", "/brief", 5, .epoch, .after (.ofMillis 5000), true⟩,
    ⟨"longer", "/longer", 15, .epoch, .after (.ofMillis 15000), true⟩,
    ⟨"ages", "/ages", 30, .epoch, .after (.ofMillis 18446744073709551615), true⟩,
    ⟨"kept", "/kept", 40, .epoch, .never, true⟩,
    ⟨"stuck", "/stuck", 50, .epoch, .immediate, false⟩]

theorem cleanup_absorbs_earlier_left_behind :
    let first := (Timestamp.make? 0 10 0).get rfl
    let second := (Timestamp.make? 0 15 1).get rfl
    first ≤ second ∧ ¬ first.IsLeap ∧ ¬ second.IsLeap ∧
      (∀ record ∈ leftBehind.records, ¬ record.timestamp.IsLeap) ∧
      (leftBehind.cleanup first).1.removed = ["brief"] ∧
      ((leftBehind.cleanup first).2.cleanup second).1.removed = ["longer"] ∧
      (["brief"] ++ ["longer"]).Perm (leftBehind.cleanup second).1.removed ∧
      ((leftBehind.cleanup first).2.cleanup second).2.records.Perm
        (leftBehind.cleanup second).2.records ∧
      ((leftBehind.cleanup first).2.cleanup second).1.pending =
        (leftBehind.cleanup second).1.pending := by
  intro first second
  have hle : first ≤ second := by decide
  have hrecords : ∀ record ∈ leftBehind.records, ¬ record.timestamp.IsLeap := by decide
  have hearly : (leftBehind.cleanup first).1.removed = ["brief"] := by decide +kernel
  have hlate : ((leftBehind.cleanup first).2.cleanup second).1.removed = ["longer"] := by
    decide +kernel
  obtain ⟨hkept, hremoved, -, hpending, -⟩ :=
    cleanup_absorbs_earlier leftBehind hle (by decide) (by decide) hrecords
  rw [hearly, hlate] at hremoved
  exact ⟨hle, by decide, by decide, hrecords, hearly, hlate, hremoved, hkept, hpending⟩

section

variable (registry : Registry) (now : Timestamp) (moments : List Timestamp)

theorem isPending_of_mem_removedBy : ∀ record ∈ (registry.cleanup now).2.removedBy moments,
    record.isPending now = true := by
  intro record hgone
  obtain ⟨hmem, hremovable⟩ := List.mem_filter.1 hgone
  obtain ⟨other, -, hother⟩ := List.any_eq_true.1 hremovable
  exact Record.isPending_of_isRemovable (mem_cleanup.1 hmem).2 hother

theorem length_removedBy_le_pending :
    ((registry.cleanup now).2.removedBy moments).length ≤ (registry.cleanup now).1.pending := by
  have hall := (registry.cleanup now).2.append_removedBy_perm moments
  rw [pending_cleanup_eq_kept, ← hall.countP_eq, List.countP_append,
    List.countP_eq_length.2 (registry.isPending_of_mem_removedBy now moments)]
  exact Nat.le_add_left _ _

end

/--
Whatever is done by cleanups after a first one, and whenever they take place, they remove no more records
than the first one has counted as pending, and only such records that it left as they were waiting for
their time to be over. Where it has counted none, no cleanup does anything until the next update.
-/
theorem later_cleanups_within_pending (registry : Registry) (now : Timestamp)
    (moments : List Timestamp) :
    let first := registry.cleanup now
    let later := first.2.cleanups moments
    let last := first.2.afterCleanups moments
    ∃ gone : List Record,
      (last.records ++ gone).Perm first.2.records ∧
      (later.flatMap (·.removed)).Perm (gone.map (·.id)) ∧
      (∀ record ∈ gone, record ∈ first.2.records ∧ (∃ d, record.ttl = .after d) ∧
        record.isExpired now = false) ∧
      (later.flatMap (·.removed)).length ≤ first.1.pending ∧
      (first.1.pending = 0 → (∀ cleanup ∈ later, cleanup.removed = []) ∧ last = first.2) := by
  intro first later last
  have hids : (later.flatMap (·.removed)).Perm ((first.2.removedBy moments).map (·.id)) :=
    first.2.removed_cleanups_perm moments
  have hcount : (first.2.removedBy moments).length ≤ first.1.pending :=
    registry.length_removedBy_le_pending now moments
  refine ⟨first.2.removedBy moments, first.2.append_removedBy_perm moments, hids, ?_, ?_, ?_⟩
  . intro record hgone
    exact ⟨List.mem_of_mem_filter hgone,
      Record.isPending_iff.1 (registry.isPending_of_mem_removedBy now moments record hgone)⟩
  . rw [hids.length_eq, List.length_map]
    exact hcount
  . intro hzero
    rw [hzero, Nat.le_zero, List.length_eq_zero_iff] at hcount
    rw [hcount] at hids
    constructor
    . exact List.flatMap_eq_nil_iff.1 hids.eq_nil
    . exact afterCleanups_of_removedBy hcount

theorem later_cleanups_within_pending_left_behind :
    let now := (Timestamp.make? 0 10 0).get rfl
    let moments := [.epoch, (Timestamp.make? 95026236 0 0).get rfl, now]
    let first := leftBehind.cleanup now
    first.1.pending = 2 ∧
      (first.2.cleanups moments).map (·.removed) = [[], ["longer"], []] ∧
      ((first.2.cleanups moments).flatMap (·.removed)).length ≤ 2 := by
  intro now moments first
  have hpending : first.1.pending = 2 := by decide +kernel
  have hremoved : (first.2.cleanups moments).map (·.removed) = [[], ["longer"], []] := by
    decide +kernel
  obtain ⟨gone, -, -, -, hcount, -⟩ := later_cleanups_within_pending leftBehind now moments
  exact ⟨hpending, hremoved, hpending ▸ hcount⟩

end Registry

end ReadProgress
