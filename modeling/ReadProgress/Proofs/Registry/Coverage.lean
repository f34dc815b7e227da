import ReadProgress.Proofs.Registry.Refinement

/-!
This module contains what becomes of records that share an id. Where some of them are removed in a
cleanup and others stay, the id may get lost, so that what stays is not found any more. This depends
on the order in which the gaps of the removed records are filled by those that move up.
-/

namespace ReadProgress

namespace Registry

/--
Each record is known by its id.
-/
def Covered (registry : Registry) : Prop :=
  ∀ record ∈ registry.records, registry.contains record.id = true

/--
The records that leave gaps in a cleanup, in the order in which their gaps are filled.
-/
def gaps (now : Timestamp) (records : List Record) : List Record :=
  records.filter fun record => record.isRemovable now

/--
The number of records that stay in a cleanup.
-/
def stayCount (now : Timestamp) (records : List Record) : Nat :=
  records.countP fun record => !record.isRemovable now

/--
Some record with a certain id stays in a cleanup and moves up so late that no record with that id is
removed afterwards. What moves up fills the gap whose number is its own number among all that stay,
where these are counted from the end.
-/
def MovesUp (now : Timestamp) (records : List Record) (id : String) : Prop :=
  ∃ (front : List Record) (record : Record) (back : List Record),
    records = front ++ record :: back ∧ record.id = id ∧ record.isRemovable now = false ∧
    stayCount now back + 1 ≤ (gaps now front).length ∧
    ∀ removed ∈ (gaps now front).drop (stayCount now back + 1), removed.id ≠ id

/--
No record with a certain id is removed in a cleanup.
-/
def Spares (now : Timestamp) (records : List Record) (id : String) : Prop :=
  ∀ record ∈ records, record.id = id → record.isRemovable now = false

/--
A cleanup loses an id: some records with that id stay, others are removed, and none moves up late
enough to make the id known again.
-/
def Loses (now : Timestamp) (records : List Record) (id : String) : Prop :=
  (∃ record ∈ records, record.id = id ∧ record.isRemovable now = false) ∧
    ¬ Spares now records id ∧ ¬ MovesUp now records id

variable {now : Timestamp} {record : Record} {rest : List Record} {id : String}

theorem gaps_cons_of_removable (h : record.isRemovable now = true) :
    gaps now (record :: rest) = record :: gaps now rest := by
  rw [gaps, List.filter_cons, if_pos h]
  rfl

theorem gaps_cons_of_kept (h : record.isRemovable now = false) :
    gaps now (record :: rest) = gaps now rest := by
  rw [gaps, List.filter_cons, h, if_neg Bool.false_ne_true]
  rfl

theorem stayCount_cons_of_removable (h : record.isRemovable now = true) :
    stayCount now (record :: rest) = stayCount now rest := by
  rw [stayCount, List.countP_cons, h]
  rfl

theorem stayCount_cons_of_kept (h : record.isRemovable now = false) :
    stayCount now (record :: rest) = stayCount now rest + 1 := by
  rw [stayCount, List.countP_cons, h]
  rfl

theorem stayCount_concat (records : List Record) (last : Record) :
    stayCount now (records ++ [last]) =
      if last.isRemovable now then stayCount now records else stayCount now records + 1 := by
  rw [stayCount, List.countP_append, List.countP_singleton]
  cases last.isRemovable now <;> rfl

theorem spares_cons_of_removable (h : record.isRemovable now = true) :
    Spares now (record :: rest) id ↔ record.id ≠ id ∧ Spares now rest id := by
  unfold Spares
  rw [List.forall_mem_cons, h, Bool.true_eq_false, imp_false]

theorem spares_rotate (records : List Record) (last : Record) :
    Spares now (records ++ [last]) id ↔ Spares now (last :: records) id := by
  unfold Spares
  simp only [(List.perm_append_singleton last records).mem_iff]

theorem not_movesUp_nil : ¬ MovesUp now [] id := by
  rintro ⟨front, record, back, heq, -⟩
  simp at heq

theorem movesUp_cons_of_kept (h : record.isRemovable now = false) :
    MovesUp now (record :: rest) id ↔ MovesUp now rest id := by
  constructor
  . rintro ⟨front, moved, back, heq, hid, hmoved, hnumber, hgap⟩
    cases front with
    | nil => simp [gaps] at hnumber
    | cons first front =>
      obtain ⟨rfl, rfl⟩ := List.cons.inj heq
      rw [gaps_cons_of_kept h] at hnumber hgap
      exact ⟨front, moved, back, rfl, hid, hmoved, hnumber, hgap⟩
  . rintro ⟨front, moved, back, rfl, hid, hmoved, hnumber, hgap⟩
    rw [← gaps_cons_of_kept h] at hnumber hgap
    exact ⟨record :: front, moved, back, rfl, hid, hmoved, hnumber, hgap⟩

theorem not_movesUp_singleton (h : record.isRemovable now = true) : ¬ MovesUp now [record] id := by
  rintro ⟨front, moved, back, heq, -, hmoved, -⟩
  cases front with
  | nil =>
    rw [List.nil_append, List.cons.injEq] at heq
    rw [← heq.1, h] at hmoved
    simp at hmoved
  | cons first front => simp at heq

theorem movesUp_fill {last : Record} {front back : List Record}
    (hrecord : record.isRemovable now = true) :
    (stayCount now (back ++ [last]) + 1 ≤ (gaps now (record :: front)).length ∧
      ∀ removed ∈ (gaps now (record :: front)).drop (stayCount now (back ++ [last]) + 1),
        removed.id ≠ id) ↔
    (stayCount now back + 1 ≤ (gaps now (last :: front)).length ∧
      ∀ removed ∈ (gaps now (last :: front)).drop (stayCount now back + 1), removed.id ≠ id) := by
  rw [stayCount_concat, gaps_cons_of_removable hrecord, List.drop_succ_cons, List.length_cons,
    Nat.add_le_add_iff_right]
  cases hlast : last.isRemovable now with
  | true =>
    rw [gaps_cons_of_removable hlast, List.drop_succ_cons, List.length_cons,
      Nat.add_le_add_iff_right, if_pos rfl]
  | false => rw [gaps_cons_of_kept hlast, if_neg Bool.false_ne_true]

/--
Where the first record is removed, the last one fills its gap. It is the one that moves up late
enough, or some other record is.
-/
theorem movesUp_rotate {last : Record} {between : List Record}
    (hrecord : record.isRemovable now = true) :
    MovesUp now (record :: (between ++ [last])) id ↔
      (last.id = id ∧ Spares now (last :: between) id) ∨ MovesUp now (last :: between) id := by
  constructor
  . rintro ⟨front, moved, back, heq, hid, hmoved, hgap⟩
    cases front with
    | nil =>
      rw [List.nil_append, List.cons.injEq] at heq
      rw [← heq.1, hrecord] at hmoved
      simp at hmoved
    | cons first front =>
      rw [List.cons_append, List.cons.injEq] at heq
      obtain ⟨rfl, heq⟩ := heq
      -- either the record that moves up is the last one, or it lies between
      rcases List.eq_nil_or_concat back with rfl | ⟨back, other, rfl⟩
      . obtain ⟨rfl, hlast⟩ := List.append_inj' heq rfl
        obtain rfl := List.singleton_inj.1 hlast
        refine .inl ⟨hid, ?_⟩
        intro other hother hsame
        rcases List.mem_cons.1 hother with rfl | hother
        . exact hmoved
        . by_contra hremovable
          refine hgap.2 other ?_ hsame
          rw [gaps_cons_of_removable hrecord]
          exact List.mem_filter.2 ⟨hother, by simpa using hremovable⟩
      . rw [List.concat_eq_append, ← List.cons_append, ← List.append_assoc] at heq
        obtain ⟨rfl, hlast⟩ := List.append_inj' heq rfl
        obtain rfl := List.singleton_inj.1 hlast
        rw [List.concat_eq_append, movesUp_fill hrecord] at hgap
        exact .inr ⟨last :: front, moved, back, rfl, hid, hmoved, hgap⟩
  . rintro (⟨hid, hspares⟩ | ⟨front, moved, back, heq, hid, hmoved, hgap⟩)
    . refine ⟨record :: between, last, [], rfl, hid, hspares last (by simp) hid, ?_⟩
      rw [gaps_cons_of_removable hrecord]
      refine ⟨by simp [stayCount], ?_⟩
      intro removed hremoved hsame
      have hmem := List.mem_filter.1 hremoved
      rw [hspares removed (by simp [hmem.1]) hsame] at hmem
      exact Bool.false_ne_true hmem.2
    . cases front with
      | nil => simp [gaps] at hgap
      | cons first front =>
        rw [List.cons_append, List.cons.injEq] at heq
        obtain ⟨rfl, rfl⟩ := heq
        rw [← movesUp_fill hrecord] at hgap
        exact ⟨record :: front, moved, back ++ [last], by simp, hid, hmoved, hgap⟩

/--
An id will be known at the end of a sweep: it is known and no record with it is removed any more, or
one that stays will move up.
-/
def Sweep.WillKnow (now : Timestamp) (id : String) (sweep : Sweep) : Prop :=
  (sweep.live.contains id = true ∧ Spares now sweep.waiting id) ∨ MovesUp now sweep.waiting id

namespace Sweep

variable {sweep : Sweep}

theorem willKnow_of_waiting (h : sweep.waiting = []) :
    sweep.WillKnow now id ↔ sweep.live.contains id = true := by
  simp [WillKnow, h, not_movesUp_nil, Spares]

theorem willKnow_keep (hwaiting : sweep.waiting = record :: rest)
    (hrecord : record.isRemovable now = false) :
    (sweep.keep now record rest).WillKnow now id ↔ sweep.WillKnow now id := by
  unfold WillKnow
  rw [live_keep hwaiting, hwaiting, movesUp_cons_of_kept hrecord]
  simp [keep, Spares, hrecord]

theorem contains_drop_concat (sweep : Sweep) (record last : Record) (between : List Record)
    (id : String) :
    (sweep.drop record (between ++ [last])).live.contains id = true ↔
      last.id = id ∨ (record.id ≠ id ∧ sweep.live.contains id = true) := by
  rw [contains_iff, contains_iff]
  simp only [live, getElem?_index_drop]
  split
  . next heq => simp [heq]
  . next hne =>
    rw [or_iff_right (Ne.symm hne)]
    split
    . next heq => simp [heq]
    . next hne => simp [Ne.symm hne]

theorem contains_drop_nil (sweep : Sweep) (record : Record) (id : String) :
    (sweep.drop record []).live.contains id = true ↔
      record.id ≠ id ∧ sweep.live.contains id = true := by
  rw [contains_iff, contains_iff]
  simp only [live, drop, List.getLast?_nil, getElem?_index_erase]
  split
  . next heq => simp [heq]
  . next hne => simp [Ne.symm hne]

theorem willKnow_drop (hwaiting : sweep.waiting = record :: rest)
    (hrecord : record.isRemovable now = true) :
    (sweep.drop record rest).WillKnow now id ↔ sweep.WillKnow now id := by
  unfold WillKnow
  rw [hwaiting, spares_cons_of_removable hrecord]
  rcases List.eq_nil_or_concat rest with rfl | ⟨between, last, rfl⟩
  . rw [contains_drop_nil]
    simp only [drop, rotate, List.getLast?_nil, not_movesUp_nil, not_movesUp_singleton hrecord,
      or_false]
    tauto
  . rw [List.concat_eq_append, contains_drop_concat, movesUp_rotate hrecord, spares_rotate]
    simp only [drop, rotate_concat]
    tauto

theorem willKnow_run (sweep : Sweep) :
    (sweep.run now fun _ => false).live.contains id = true ↔ sweep.WillKnow now id := by
  rw [← willKnow_of_waiting (waiting_run sweep)]
  refine run_induction (P := fun other => other.WillKnow now id ↔ sweep.WillKnow now id)
    ?_ ?_ ?_ sweep Iff.rfl
  . intro other record rest hwaiting hrecord h
    rw [willKnow_keep hwaiting hrecord]
    exact h
  . intro other record rest hwaiting hrecord _ h
    have hannounced : (other.announce record).waiting = record :: rest := hwaiting
    rw [willKnow_drop hannounced hrecord]
    exact h
  . intro other record rest _ _ hrefuses _
    simp at hrefuses

end Sweep

theorem contains_cleanup (registry : Registry) (now : Timestamp) (id : String) :
    (registry.cleanup now).2.contains id = true ↔
      (registry.contains id = true ∧ Spares now registry.records id) ∨
        MovesUp now registry.records id := by
  rw [cleanup_eq_live, Sweep.willKnow_run]
  rfl

namespace Covered

variable {registry : Registry}

theorem empty : Covered .empty := by
  intro record hrecord
  simp [Registry.empty] at hrecord

theorem ofRecords (records : List Record) : (Registry.ofRecords records).Covered := by
  intro record hrecord
  exact contains_ofRecords.2 ⟨record, hrecord, rfl⟩

theorem update (h : registry.Covered) (hsound : registry.Sound) (record : Record)
    (moment : Timestamp) : (registry.update record moment).Covered := by
  intro other hother
  rw [hsound.contains_update]
  exact (id_of_mem_update hother).imp_right (h other)

theorem cleanup_iff (h : registry.Covered) (now : Timestamp) :
    (registry.cleanup now).2.Covered ↔ ∀ id, ¬ Loses now registry.records id := by
  constructor
  . rintro hcovered id ⟨⟨record, hrecord, rfl, hkept⟩, hspares, hmoves⟩
    have := hcovered record (mem_cleanup.2 ⟨hrecord, hkept⟩)
    rw [contains_cleanup] at this
    tauto
  . intro hloses record hrecord
    rw [mem_cleanup] at hrecord
    rw [contains_cleanup]
    -- The record stays, so its id is lost unless one of the other two conditions fails.
    have hknown := h record hrecord.1
    have := hloses record.id
    unfold Loses at this
    by_contra hnot
    apply this
    refine ⟨⟨record, hrecord.1, rfl, hrecord.2⟩, ?_, ?_⟩
    . intro hspares
      exact hnot (.inl ⟨hknown, hspares⟩)
    . intro hmoves
      exact hnot (.inr hmoves)

end Covered

theorem Sound.apply {registry : Registry} (h : registry.Sound) (operation : Operation) :
    (operation.apply registry).Sound := by
  cases operation with
  | update record moment => exact h.update record moment
  | cleanup now => exact h.cleanup now
  | replace records => exact sound_ofRecords records
  | copy => exact sound_ofRecords _

theorem sound_afterAll (operations : List Operation) : (afterAll operations).Sound := by
  induction operations using List.reverseRecOn with
  | nil => exact sound_empty
  | append_singleton operations operation ih =>
    rw [afterAll_concat]
    exact ih.apply operation

theorem covered_afterAll {operations : List Operation}
    (h : ∀ front now, front ++ [.cleanup now] <+: operations →
      ∀ id, ¬ Loses now (afterAll front).records id) : (afterAll operations).Covered := by
  induction operations using List.reverseRecOn with
  | nil => exact Covered.empty
  | append_singleton operations operation ih =>
    have hcovered := ih fun front now hfront => h front now (hfront.trans (List.prefix_append _ _))
    rw [afterAll_concat]
    cases operation with
    | update record moment => exact hcovered.update (sound_afterAll _) record moment
    | cleanup now =>
      apply (hcovered.cleanup_iff now).2
      exact h operations now (List.prefix_refl _)
    | replace records => exact Covered.ofRecords records
    | copy => exact Covered.ofRecords _

/--
The registry accounts for a record: its id is known, one of the records with that id is found, and an
update of that id replaces a record.
-/
structure Accounts (registry : Registry) (record : Record) : Prop where
  contains : registry.contains record.id = true
  find? : ∃ found ∈ registry.records, registry.find? record.id = some found ∧ found.id = record.id
  size_update : ∀ (changed : Record) (moment : Timestamp), changed.id = record.id →
    (registry.update changed moment).size = registry.size

theorem Sound.accounts {registry : Registry} (h : registry.Sound) {record : Record}
    (hcontains : registry.contains record.id = true) : registry.Accounts record where
  contains := hcontains
  find? := by
    rw [h.contains_eq_isSome, Option.isSome_iff_exists] at hcontains
    obtain ⟨found, hfound⟩ := hcontains
    exact ⟨found, Sound.mem_of_find? hfound, hfound, h.id_of_find? hfound⟩
  size_update := by
    intro changed moment hid
    rw [Registry.size_update, hid, if_pos hcontains]

/--
Along a sequence of operations, whatever the lists that are brought, the registry accounts for each of
its records all the time if and only if no cleanup loses an id.
-/
theorem accounts_along_iff (operations : List Operation) :
    (∀ front, front <+: operations →
      ∀ record ∈ (afterAll front).records, (afterAll front).Accounts record) ↔
    ∀ front now, front ++ [.cleanup now] <+: operations →
      ∀ id, ¬ Loses now (afterAll front).records id := by
  constructor
  . intro h front now hfront
    have hcovered : (afterAll front).Covered := fun record hrecord =>
      (h front ((List.prefix_append _ _).trans hfront) record hrecord).contains
    rw [← hcovered.cleanup_iff now]
    have hcleanup := h _ hfront
    rw [afterAll_concat] at hcleanup
    intro record hrecord
    exact (hcleanup record hrecord).contains
  . intro h front hfront record hrecord
    apply (sound_afterAll front).accounts
    have hcovered : (afterAll front).Covered :=
      covered_afterAll fun other now hother => h other now (hother.trans hfront)
    exact hcovered record hrecord

/--
The last one of two records with one id is removed without anything moving up. The first one stays,
but is not found any more, and an update of its id puts another record beside it.
-/
theorem cleanup_loses_first_of_two :
    let live : Record := ⟨"id", "/log", 7, .epoch, .never, false⟩
    let done : Record := ⟨"id", "/log", 7, .epoch, .immediate, true⟩
    let registry := afterAll [.replace [live, done], .cleanup .epoch]
    registry.records = [live] ∧ registry.contains "id" = false ∧ registry.find? "id" = none ∧
      (registry.update live .epoch).size = 2 := by
  intro live done registry
  have hrecords : registry.records = [live] :=
    List.perm_singleton.1 (records_cleanup_perm (.ofRecords [live, done]) .epoch)
  have hlive : live.isRemovable .epoch = false := by decide
  have hdone : done.isRemovable .epoch = true := by decide
  have hcontains : registry.contains "id" = false := by
    rw [Bool.eq_false_iff]
    intro hknown
    rcases (contains_cleanup (.ofRecords [live, done]) .epoch "id").1 hknown with ⟨-, hspares⟩ | hmoves
    . have := hspares done (by simp) rfl
      rw [hdone] at this
      simp at this
    . rw [records_ofRecords, movesUp_cons_of_kept hlive] at hmoves
      exact not_movesUp_singleton hdone hmoves
  have hfind : registry.find? "id" = none := by
    rw [(sound_afterAll _).contains_eq_isSome] at hcontains
    simpa using hcontains
  have hsize : registry.size = 1 := by
    rw [size, hrecords]
    rfl
  exact ⟨hrecords, hcontains, hfind, by rw [size_update, hsize, hcontains]; rfl⟩

end Registry

end ReadProgress
