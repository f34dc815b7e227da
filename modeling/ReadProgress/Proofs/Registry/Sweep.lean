import Mathlib.Data.List.Basic
import ReadProgress.Proofs.Registry.Index
import ReadProgress.Registry.Cleanup

/-!
This module contains what a sweep keeps up while it goes through the records of a registry: the
correspondence of the records that are not removed with the index, and where each record ends up.
-/

namespace ReadProgress

namespace Registry

namespace Sweep

variable {now : Timestamp} {refuses : String → Bool} {sweep : Sweep} {record : Record}
  {rest : List Record}

/--
The registry of the records that have not been removed so far.
-/
def live (sweep : Sweep) : Registry where
  records := sweep.kept ++ sweep.waiting
  index := sweep.index

/--
Whatever each step preserves holds where a sweep ends, be it at the end of the records or in front of
an id that is refused.
-/
theorem run_induction {P : Sweep → Prop}
    (hkeep : ∀ (sweep : Sweep) (record : Record) (rest : List Record),
      sweep.waiting = record :: rest → record.isRemovable now = false → P sweep →
      P (sweep.keep now record rest))
    (hdrop : ∀ (sweep : Sweep) (record : Record) (rest : List Record),
      sweep.waiting = record :: rest → record.isRemovable now = true →
      refuses record.id = false → P sweep → P ((sweep.announce record).drop record rest))
    (hstop : ∀ (sweep : Sweep) (record : Record) (rest : List Record),
      sweep.waiting = record :: rest → record.isRemovable now = true →
      refuses record.id = true → P sweep → P (sweep.announce record))
    (sweep : Sweep) (h : P sweep) : P (sweep.run now refuses) := by
  fun_induction run now refuses sweep with
  | case1 => exact h
  | case2 sweep record rest hwaiting hremovable hrefuses =>
    exact hstop sweep record rest hwaiting hremovable hrefuses h
  | case3 sweep record rest hwaiting hremovable hrefuses ih =>
    apply ih
    exact hdrop sweep record rest hwaiting hremovable (by simpa using hrefuses) h
  | case4 sweep record rest hwaiting hremovable ih =>
    apply ih
    exact hkeep sweep record rest hwaiting (by simpa using hremovable) h

theorem waiting_run (sweep : Sweep) : (sweep.run now fun _ => false).waiting = [] := by
  generalize hrefuses : (fun _ : String => false) = refuses
  fun_induction run now refuses sweep with
  | case1 sweep hwaiting => exact hwaiting
  | case2 sweep record rest hwaiting hremovable hrefused =>
    subst hrefuses
    simp at hrefused
  | case3 sweep record rest hwaiting hremovable hrefused ih => exact ih
  | case4 sweep record rest hwaiting hremovable ih => exact ih

theorem live_keep (h : sweep.waiting = record :: rest) :
    (sweep.keep now record rest).live = sweep.live := by
  simp [live, keep, h]

theorem rotate_concat (records : List Record) (last : Record) :
    rotate (records ++ [last]) = last :: records := by
  simp [rotate]

theorem getElem?_concat_last (kept between : List Record) (record last : Record) :
    (kept ++ record :: (between ++ [last]))[kept.length + between.length + 1]? = some last := by
  rw [List.getElem?_append_right (by omega),
    show kept.length + between.length + 1 - kept.length = between.length + 1 by omega,
    List.getElem?_cons_succ, List.getElem?_concat_length]

theorem getElem?_moved (kept between : List Record) (record last : Record) (position : Nat) :
    (kept ++ last :: between)[position]? =
      if position = kept.length then some last
      else if position = kept.length + between.length + 1 then none
      else (kept ++ record :: (between ++ [last]))[position]? := by
  rcases Nat.lt_trichotomy position kept.length with hlt | rfl | hgt
  . rw [List.getElem?_append_left hlt, List.getElem?_append_left hlt, if_neg (by omega),
      if_neg (by omega)]
  . simp
  . obtain ⟨offset, rfl⟩ := Nat.exists_eq_add_of_lt hgt
    rw [List.getElem?_append_right (by omega), List.getElem?_append_right (by omega),
      if_neg (by omega), show kept.length + offset + 1 - kept.length = offset + 1 by omega,
      List.getElem?_cons_succ, List.getElem?_cons_succ]
    split
    . rw [List.getElem?_eq_none (by omega)]
    . by_cases hlt : offset < between.length
      . rw [List.getElem?_append_left hlt]
      . rw [List.getElem?_eq_none (by omega), List.getElem?_eq_none (by simp; omega)]

theorem getElem?_index_drop (sweep : Sweep) (record last : Record) (between : List Record)
    (id : String) :
    (sweep.drop record (between ++ [last])).index[id]? =
      if id = last.id then some sweep.kept.length
      else if id = record.id then none
      else sweep.index[id]? := by
  simp only [drop, List.getLast?_concat, getElem?_index_insert, getElem?_index_erase]

theorem live_drop_nil (sweep : Sweep) (record : Record) :
    (sweep.drop record []).live = ⟨sweep.kept, sweep.index.erase record.id⟩ := by
  simp [live, drop, rotate]

theorem live_drop_concat (sweep : Sweep) (record last : Record) (between : List Record) :
    (sweep.drop record (between ++ [last])).live =
      ⟨sweep.kept ++ last :: between,
        (sweep.index.erase record.id).insert last.id sweep.kept.length⟩ := by
  simp [live, drop, rotate_concat]

section Removal

variable {kept between : List Record} {last : Record} {index : Std.TreeMap String Nat}

theorem sound_of_removed (h : Sound ⟨kept ++ [record], index⟩) :
    Sound ⟨kept, index.erase record.id⟩ := by
  intro id position hposition
  rw [getElem?_index_erase] at hposition
  split at hposition
  . simp at hposition
  . next hne =>
    obtain ⟨found, hrecord, hid⟩ := h id position hposition
    rcases getElem?_concat_eq_some_iff.1 hrecord with hrecord | ⟨-, rfl⟩
    . exact ⟨found, hrecord, hid⟩
    . exact absurd hid.symm hne

theorem sound_of_moved (h : Sound ⟨kept ++ record :: (between ++ [last]), index⟩) :
    Sound ⟨kept ++ last :: between, (index.erase record.id).insert last.id kept.length⟩ := by
  intro id position hposition
  rw [getElem?_index_insert, getElem?_index_erase] at hposition
  rw [getElem?_moved _ _ record]
  split at hposition
  . next heq =>
    obtain rfl := Option.some.inj hposition
    exact ⟨last, by simp, heq.symm⟩
  . next hlast =>
    split at hposition
    . simp at hposition
    . next hne =>
      obtain ⟨found, hrecord, hid⟩ := h id position hposition
      refine ⟨found, ?_, hid⟩
      -- The id is neither that of the moved record nor that of the removed one, so its position
      -- is none of the two that have changed.
      rw [if_neg, if_neg]
      . exact hrecord
      . intro heq
        apply hlast
        rw [heq, getElem?_concat_last] at hrecord
        rw [← hid, Option.some.inj hrecord]
      . intro heq
        apply hne
        rw [heq, List.getElem?_append_right (by omega)] at hrecord
        simp only [Nat.sub_self, List.getElem?_cons_zero] at hrecord
        rw [← hid, Option.some.inj hrecord]

theorem completeAt_of_removed {id : String} (h : CompleteAt ⟨kept ++ [record], index⟩ id) :
    CompleteAt ⟨kept, index.erase record.id⟩ id := by
  rintro position found hfound rfl
  have hlt : position < kept.length := (List.getElem?_eq_some_iff.1 hfound).1
  have hindex := h position found (getElem?_concat_eq_some_iff.2 (.inl hfound)) rfl
  rw [getElem?_index_erase, if_neg]
  . exact hindex
  . -- The index leads to one place only, which is not the last one.
    intro heq
    have hremoved := h kept.length record (by simp) heq.symm
    have := Option.some.inj (hindex.symm.trans hremoved)
    omega

theorem completeAt_of_moved {id : String}
    (h : CompleteAt ⟨kept ++ record :: (between ++ [last]), index⟩ id) :
    CompleteAt ⟨kept ++ last :: between, (index.erase record.id).insert last.id kept.length⟩ id := by
  rintro position found hfound rfl
  rw [getElem?_index_insert, getElem?_index_erase]
  rw [getElem?_moved _ _ record] at hfound
  split at hfound
  . next heq =>
    obtain rfl := Option.some.inj hfound
    rw [if_pos rfl, heq]
  . next hne =>
    split at hfound
    . simp at hfound
    . next hend =>
      have hindex := h position found hfound rfl
      -- Neither of the two records that were moved has this id, for it leads somewhere else.
      rw [if_neg, if_neg]
      . exact hindex
      . intro heq
        have hremoved := h kept.length record (by simp) heq.symm
        exact hne (Option.some.inj (hindex.symm.trans hremoved))
      . intro heq
        have hlast := h _ last (getElem?_concat_last kept between record last) heq.symm
        exact hend (Option.some.inj (hindex.symm.trans hlast))

end Removal

theorem sound_drop (hwaiting : sweep.waiting = record :: rest) (h : sweep.live.Sound) :
    (sweep.drop record rest).live.Sound := by
  simp only [live, hwaiting] at h
  -- Either the removed record was the last one and nothing moves, or the last one fills its place.
  rcases List.eq_nil_or_concat rest with rfl | ⟨between, last, rfl⟩
  . rw [live_drop_nil]
    exact sound_of_removed h
  . rw [List.concat_eq_append] at h ⊢
    rw [live_drop_concat]
    exact sound_of_moved h

theorem completeAt_drop {id : String} (hwaiting : sweep.waiting = record :: rest)
    (h : sweep.live.CompleteAt id) : (sweep.drop record rest).live.CompleteAt id := by
  simp only [live, hwaiting] at h
  rcases List.eq_nil_or_concat rest with rfl | ⟨between, last, rfl⟩
  . rw [live_drop_nil]
    exact completeAt_of_removed h
  . rw [List.concat_eq_append] at h ⊢
    rw [live_drop_concat]
    exact completeAt_of_moved h

theorem complete_drop (hwaiting : sweep.waiting = record :: rest) (h : sweep.live.Complete) :
    (sweep.drop record rest).live.Complete := by
  rw [complete_iff] at h ⊢
  intro id
  exact completeAt_drop hwaiting (h id)

theorem sound_run (refuses : String → Bool) (h : sweep.live.Sound) :
    (sweep.run now refuses).live.Sound := by
  refine run_induction (P := fun sweep => sweep.live.Sound) ?_ ?_ ?_ sweep h
  . intro sweep record rest hwaiting _ hsound
    rw [live_keep hwaiting]
    exact hsound
  . intro sweep record rest hwaiting _ _ hsound
    have hannounced : (sweep.announce record).waiting = record :: rest := hwaiting
    exact sound_drop hannounced hsound
  . intro sweep record rest _ _ _ hsound
    exact hsound

theorem completeAt_run {id : String} (refuses : String → Bool) (h : sweep.live.CompleteAt id) :
    (sweep.run now refuses).live.CompleteAt id := by
  refine run_induction (P := fun sweep => sweep.live.CompleteAt id) ?_ ?_ ?_ sweep h
  . intro sweep record rest hwaiting _ hcomplete
    rw [live_keep hwaiting]
    exact hcomplete
  . intro sweep record rest hwaiting _ _ hcomplete
    have hannounced : (sweep.announce record).waiting = record :: rest := hwaiting
    exact completeAt_drop hannounced hcomplete
  . intro sweep record rest _ _ _ hcomplete
    exact hcomplete

/--
Where the records of a registry are in the course of a sweep.
-/
structure Sorts (now : Timestamp) (records : List Record) (sweep : Sweep) : Prop where
  perm : sweep.records.Perm records
  kept : ∀ record ∈ sweep.kept, record.isRemovable now = false
  dropped : ∀ record ∈ sweep.dropped, record.isRemovable now = true

namespace Sorts

variable {records : List Record}

theorem start (registry : Registry) : Sorts now registry.records (start registry) where
  perm := by simp [Sweep.records, Sweep.start]
  kept := by simp [Sweep.start]
  dropped := by simp [Sweep.start]

theorem keep (hwaiting : sweep.waiting = record :: rest) (hremovable : record.isRemovable now = false)
    (h : Sorts now records sweep) : Sorts now records (sweep.keep now record rest) where
  perm := by
    have := h.perm
    simp only [Sweep.records, hwaiting] at this
    simpa [Sweep.records, Sweep.keep] using this
  kept := by
    intro other hother
    rcases List.mem_append.1 hother with hother | hother
    . exact h.kept other hother
    . rw [List.mem_singleton.1 hother]
      exact hremovable
  dropped := h.dropped

theorem announce (h : Sorts now records sweep) (record : Record) :
    Sorts now records (sweep.announce record) :=
  ⟨h.perm, h.kept, h.dropped⟩

theorem drop (hwaiting : sweep.waiting = record :: rest) (hremovable : record.isRemovable now = true)
    (h : Sorts now records sweep) : Sorts now records (sweep.drop record rest) where
  perm := by
    refine List.Perm.trans ?_ h.perm
    simp only [Sweep.records, Sweep.drop, hwaiting, List.append_assoc]
    apply List.Perm.append_left
    refine List.perm_middle.trans ?_
    apply List.Perm.cons
    apply List.Perm.append_right
    apply rotate_perm
  kept := h.kept
  dropped := by
    intro other hother
    rcases List.mem_cons.1 hother with rfl | hother
    . exact hremovable
    . exact h.dropped other hother

theorem run (refuses : String → Bool) (h : Sorts now records sweep) :
    Sorts now records (sweep.run now refuses) := by
  refine run_induction (P := Sorts now records) ?_ ?_ ?_ sweep h
  . intro sweep record rest hwaiting hremovable hsorts
    exact hsorts.keep hwaiting hremovable
  . intro sweep record rest hwaiting hremovable _ hsorts
    exact (hsorts.announce record).drop hwaiting hremovable
  . intro sweep record rest _ _ _ hsorts
    exact hsorts.announce record

theorem kept_perm (h : Sorts now records sweep) (hwaiting : sweep.waiting = []) :
    sweep.kept.Perm (records.filter fun record => !record.isRemovable now) := by
  have hperm := h.perm.filter fun record => !record.isRemovable now
  have hkept : sweep.kept.filter (fun record => !record.isRemovable now) = sweep.kept := by
    rw [List.filter_eq_self]
    intro record hmem
    rw [h.kept record hmem]
    rfl
  have hdropped : sweep.dropped.filter (fun record => !record.isRemovable now) = [] := by
    rw [List.filter_eq_nil_iff]
    intro record hmem
    rw [h.dropped record hmem]
    simp
  simpa only [Sweep.records, hwaiting, List.append_nil, List.filter_append, hkept, hdropped]
    using hperm

end Sorts

end Sweep

theorem finish_of_waiting {sweep : Sweep} (h : sweep.waiting = []) : sweep.finish = sweep.live := by
  simp [Sweep.finish, Sweep.live, h]

theorem cleanup_eq_live (registry : Registry) (now : Timestamp) :
    (registry.cleanup now).2 = ((Sweep.start registry).run now fun _ => false).live :=
  finish_of_waiting (Sweep.waiting_run _)

theorem Sound.cleanup {registry : Registry} (h : registry.Sound) (now : Timestamp) :
    (registry.cleanup now).2.Sound := by
  rw [cleanup_eq_live]
  apply Sweep.sound_run
  exact h

theorem CompleteAt.cleanup {registry : Registry} {id : String} (h : registry.CompleteAt id)
    (now : Timestamp) : (registry.cleanup now).2.CompleteAt id := by
  rw [cleanup_eq_live]
  apply Sweep.completeAt_run
  exact h

theorem Complete.cleanup {registry : Registry} (h : registry.Complete) (now : Timestamp) :
    (registry.cleanup now).2.Complete := by
  rw [complete_iff] at h ⊢
  intro id
  exact (h id).cleanup now

/--
A cleanup leaves exactly the records that are not to be removed.
-/
theorem records_cleanup_perm (registry : Registry) (now : Timestamp) :
    (registry.cleanup now).2.records.Perm
      (registry.records.filter fun record => !record.isRemovable now) :=
  ((Sweep.Sorts.start registry).run _).kept_perm (Sweep.waiting_run _)

theorem mem_cleanup {registry : Registry} {now : Timestamp} {record : Record} :
    record ∈ (registry.cleanup now).2.records ↔
      record ∈ registry.records ∧ record.isRemovable now = false := by
  rw [(registry.records_cleanup_perm now).mem_iff, List.mem_filter, Bool.not_eq_true']

theorem find?_cleanup_iff {registry : Registry} (h : registry.Complete) (hsound : registry.Sound)
    (now : Timestamp) {id : String} {record : Record} :
    (registry.cleanup now).2.find? id = some record ↔
      registry.find? id = some record ∧ record.isRemovable now = false := by
  rw [(h.cleanup now).find?_iff_mem (hsound.cleanup now), h.find?_iff_mem hsound, mem_cleanup]
  exact and_right_comm

end Registry

end ReadProgress
