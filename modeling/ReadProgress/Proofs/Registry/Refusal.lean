import ReadProgress.Proofs.Registry.Sweep

/-!
This module contains what is left of a registry where the removal of an id is refused in the middle
of a cleanup. The records that were removed before are out of the index by then, but they are still in
the list, behind all others.
-/

namespace ReadProgress

namespace Registry

variable {now : Timestamp} {registry : Registry}

/--
The records correspond to the index: each record is found at its position, nothing else is found, no
two records share an id, and there are as many records as ids that are known.
-/
structure IsExact (registry : Registry) : Prop where
  sound : registry.Sound
  complete : registry.Complete
  nodup : (registry.records.map (·.id)).Nodup
  size_index : registry.index.size = registry.size

theorem Complete.size_index (h : registry.Complete) (hsound : registry.Sound) :
    registry.index.size = registry.size := by
  have hperm : registry.index.keys.Perm (registry.records.map (·.id)) := by
    rw [List.perm_ext_iff_of_nodup Std.TreeMap.nodup_keys h.nodup]
    intro id
    rw [Std.TreeMap.mem_keys, Std.TreeMap.mem_iff_contains, List.mem_map]
    change registry.contains id = true ↔ _
    rw [hsound.contains_eq_isSome, Option.isSome_iff_exists]
    apply exists_congr
    intro record
    exact h.find?_iff_mem hsound
  rw [← Std.TreeMap.length_keys, hperm.length_eq, List.length_map]
  rfl

theorem Complete.isExact (h : registry.Complete) (hsound : registry.Sound) : registry.IsExact where
  sound := hsound
  complete := h
  nodup := h.nodup
  size_index := h.size_index hsound

namespace Sweep

variable {refuses : String → Bool} {sweep : Sweep} {records : List Record}

/--
A sweep on its way, from which nothing was refused so far. What was announced has been removed.
-/
structure Underway (now : Timestamp) (records : List Record) (refuses : String → Bool)
    (sweep : Sweep) : Prop where
  sound : sweep.live.Sound
  complete : sweep.live.Complete
  sorts : Sorts now records sweep
  announced : sweep.announced = sweep.dropped.map (·.id)
  unrefused : ∀ id ∈ sweep.announced, refuses id = false

namespace Underway

variable {record : Record} {rest : List Record}

theorem start (h : registry.Complete) (hsound : registry.Sound) :
    Underway now registry.records refuses (start registry) where
  sound := hsound
  complete := h
  sorts := .start registry
  announced := rfl
  unrefused := by simp [Sweep.start]

theorem keep (hwaiting : sweep.waiting = record :: rest) (hrecord : record.isRemovable now = false)
    (h : Underway now records refuses sweep) :
    Underway now records refuses (sweep.keep now record rest) where
  sound := by
    rw [live_keep hwaiting]
    exact h.sound
  complete := by
    rw [live_keep hwaiting]
    exact h.complete
  sorts := h.sorts.keep hwaiting hrecord
  announced := h.announced
  unrefused := h.unrefused

theorem drop (hwaiting : sweep.waiting = record :: rest) (hrecord : record.isRemovable now = true)
    (hrefuses : refuses record.id = false) (h : Underway now records refuses sweep) :
    Underway now records refuses ((sweep.announce record).drop record rest) where
  sound := by
    have hannounced : (sweep.announce record).live.Sound := h.sound
    exact sound_drop hwaiting hannounced
  complete := by
    have hannounced : (sweep.announce record).live.Complete := h.complete
    exact complete_drop hwaiting hannounced
  sorts := (h.sorts.announce record).drop hwaiting hrecord
  announced := by
    change record.id :: sweep.announced = record.id :: sweep.dropped.map (·.id)
    rw [h.announced]
  unrefused := by
    intro id hid
    rcases List.mem_cons.1 hid with rfl | hid
    . exact hrefuses
    . exact h.unrefused id hid

end Underway

theorem announced_suffix_run (now : Timestamp) (refuses : String → Bool) (sweep : Sweep) :
    sweep.announced <:+ (sweep.run now refuses).announced := by
  apply run_induction (P := fun other => sweep.announced <:+ other.announced)
  . intro other record rest _ _ h
    exact h
  . intro other record rest _ _ _ h
    exact h.trans (List.suffix_cons _ _)
  . intro other record rest _ _ _ h
    exact h.trans (List.suffix_cons _ _)
  . exact List.suffix_refl _

theorem run_keep {record : Record} {rest : List Record} (hwaiting : sweep.waiting = record :: rest)
    (hrecord : record.isRemovable now = false) (refuses : String → Bool) :
    sweep.run now refuses = (sweep.keep now record rest).run now refuses := by
  rw [run.eq_def]
  split
  . simp_all
  . next heq =>
    obtain ⟨rfl, rfl⟩ := List.cons.inj (hwaiting.symm.trans heq)
    rw [hrecord, if_neg Bool.false_ne_true]

theorem run_drop {record : Record} {rest : List Record} (hwaiting : sweep.waiting = record :: rest)
    (hrecord : record.isRemovable now = true) (hrefuses : refuses record.id = false) :
    sweep.run now refuses = ((sweep.announce record).drop record rest).run now refuses := by
  rw [run.eq_def]
  split
  . simp_all
  . next heq =>
    obtain ⟨rfl, rfl⟩ := List.cons.inj (hwaiting.symm.trans heq)
    rw [if_pos hrecord, hrefuses, if_neg Bool.false_ne_true]

/--
A sweep that may be refused goes the way of one that may not, up to some point. There it is at its
end, or in front of a record whose removal is announced and refused.
-/
theorem exists_halt (h : Underway now records refuses sweep) :
    ∃ halt, Underway now records refuses halt ∧
      (sweep.run now fun _ => false) = halt.run now (fun _ => false) ∧
      ((halt.waiting = [] ∧ sweep.run now refuses = halt) ∨
        ∃ record rest, halt.waiting = record :: rest ∧ record.isRemovable now = true ∧
          refuses record.id = true ∧ sweep.run now refuses = halt.announce record) := by
  fun_induction run now refuses sweep with
  | case1 sweep hwaiting => exact ⟨sweep, h, rfl, .inl ⟨hwaiting, rfl⟩⟩
  | case2 sweep record rest hwaiting hremovable hrefuses =>
    exact ⟨sweep, h, rfl, .inr ⟨record, rest, hwaiting, hremovable, hrefuses, rfl⟩⟩
  | case3 sweep record rest hwaiting hremovable hrefuses ih =>
    rw [run_drop hwaiting hremovable rfl]
    exact ih (h.drop hwaiting hremovable (by simpa using hrefuses))
  | case4 sweep record rest hwaiting hremovable ih =>
    rw [Bool.not_eq_true] at hremovable
    rw [run_keep hwaiting hremovable]
    exact ih (h.keep hwaiting hremovable)

theorem run_of_waiting_nil (hwaiting : sweep.waiting = []) (refuses : String → Bool) :
    sweep.run now refuses = sweep := by
  rw [run.eq_def]
  split
  . rfl
  . simp_all

namespace Underway

theorem find?_abandon (h : Underway now records refuses sweep) (id : String) :
    sweep.abandon.find? id = sweep.live.find? id := by
  unfold find?
  change (sweep.index[id]?).bind _ = (sweep.index[id]?).bind _
  cases hposition : sweep.index[id]? with
  | none => rfl
  | some position =>
    obtain ⟨record, hrecord, -⟩ := h.sound id position hposition
    exact List.getElem?_append_left (List.getElem?_eq_some_iff.1 hrecord).1

theorem nodup (h : Underway now registry.records refuses sweep) (hregistry : registry.Complete) :
    (sweep.live.records.map (·.id) ++ sweep.announced).Nodup := by
  rw [h.announced, ← List.map_append]
  exact (h.sorts.perm.map (·.id)).nodup_iff.2 hregistry.nodup

theorem find?_live (h : Underway now registry.records refuses sweep) (hregistry : registry.Complete)
    (hsound : registry.Sound) (id : String) :
    sweep.live.find? id = if id ∈ sweep.announced then none else registry.find? id := by
  have hmem : ∀ record, record ∈ registry.records ↔
      record ∈ sweep.live.records ∨ record ∈ sweep.dropped := by
    intro record
    rw [← h.sorts.perm.mem_iff, ← List.mem_append]
    rfl
  ext record
  rw [h.complete.find?_iff_mem h.sound]
  split
  . next hannounced =>
    -- No two records share an id, so none that is left has the one of a record that was dropped.
    constructor
    . rintro ⟨hrecord, rfl⟩
      exact absurd hannounced
        ((List.nodup_append'.1 (h.nodup hregistry)).2.2 (List.mem_map.2 ⟨record, hrecord, rfl⟩))
    . intro hnone
      cases hnone
  . next hannounced =>
    rw [hregistry.find?_iff_mem hsound, hmem]
    constructor
    . rintro ⟨hrecord, hid⟩
      exact ⟨.inl hrecord, hid⟩
    . rintro ⟨hrecord | hrecord, rfl⟩
      . exact ⟨hrecord, rfl⟩
      . rw [h.announced] at hannounced
        exact absurd (List.mem_map.2 ⟨record, hrecord, rfl⟩) hannounced

theorem run (h : Underway now records (fun _ => false) sweep) :
    Underway now records (fun _ => false) (sweep.run now fun _ => false) := by
  apply run_induction
  . intro sweep record rest hwaiting hrecord h
    exact h.keep hwaiting hrecord
  . intro sweep record rest hwaiting hrecord hrefuses h
    exact h.drop hwaiting hrecord hrefuses
  . intro sweep record rest _ _ hrefuses _
    simp at hrefuses
  . exact h

end Underway

end Sweep

theorem find?_cleanup (hregistry : registry.Complete) (hsound : registry.Sound) (now : Timestamp)
    (id : String) : (registry.cleanup now).2.find? id =
      if id ∈ (registry.cleanup now).1.removed then none else registry.find? id := by
  have hstart : Sweep.Underway now registry.records (fun _ => false) (.start registry) :=
    .start hregistry hsound
  rw [cleanup_eq_live, hstart.run.find?_live hregistry hsound]
  change _ = if id ∈ ((Sweep.start registry).run now fun _ => false).announced.reverse then _ else _
  simp only [List.mem_reverse]

theorem nodup_removed_cleanup (hregistry : registry.Complete) (hsound : registry.Sound)
    (now : Timestamp) : (registry.cleanup now).1.removed.Nodup := by
  have hstart : Sweep.Underway now registry.records (fun _ => false) (.start registry) :=
    .start hregistry hsound
  exact List.nodup_reverse.2 (List.nodup_append'.1 (hstart.run.nodup hregistry)).2.1

theorem exists_refused (hregistry : registry.Complete) (hsound : registry.Sound) {id : String}
    {front back : List String} (h : (registry.cleanup now).1.removed = front ++ id :: back) :
    ∃ halt, Sweep.Underway now registry.records (fun other => other = id) halt ∧
      halt.announced = front.reverse ∧
        registry.cleanupUnless now (fun other => other = id) =
          (⟨front ++ [id], halt.overdue.reverse, halt.pending⟩, halt.abandon) := by
  have hnodup := h ▸ nodup_removed_cleanup hregistry hsound now
  have hstart : Sweep.Underway now registry.records (fun other => other = id) (.start registry) :=
    .start hregistry hsound
  obtain ⟨halt, hhalt, hfull, hend⟩ := Sweep.exists_halt hstart
  change ((Sweep.start registry).run now fun _ => false).announced.reverse = _ at h
  rw [hfull] at h
  rcases hend with ⟨hwaiting, -⟩ | ⟨record, rest, hwaiting, hremovable, hrefused, hrun⟩
  . -- Nothing was refused up to the end, although the id was announced.
    rw [Sweep.run_of_waiting_nil hwaiting] at h
    have hannounced : id ∈ halt.announced := by
      rw [← List.mem_reverse, h]
      simp
    simpa using hhalt.unrefused id hannounced
  . obtain rfl : record.id = id := by simpa using hrefused
    -- Without the refusal, the record would be dropped here and others may be later.
    rw [Sweep.run_drop hwaiting hremovable rfl] at h
    obtain ⟨later, hlater⟩ :=
      Sweep.announced_suffix_run now (fun _ => false) ((halt.announce record).drop record rest)
    change later ++ record.id :: halt.announced = _ at hlater
    rw [← hlater, List.reverse_append, List.reverse_cons, List.append_assoc,
      List.singleton_append] at h
    -- No id is announced twice, so that there is one way only to split the list at this one.
    rw [← h, List.nodup_middle, List.nodup_cons, List.mem_append, not_or] at hnodup
    obtain ⟨hfront, -, -⟩ := (List.append_cons_inj_of_notMem hnodup.1.1 hnodup.1.2).1 h
    refine ⟨halt, hhalt, by rw [← hfront, List.reverse_reverse], ?_⟩
    have hleft : (halt.announce record).waiting ≠ [] := by
      change halt.waiting ≠ []
      simp [hwaiting]
    unfold cleanupUnless
    rw [hrun]
    dsimp only
    rw [if_neg hleft]
    change (Cleanup.mk (record.id :: halt.announced).reverse _ _, halt.abandon) = _
    rw [List.reverse_cons, hfront]
    rfl

/--
Where the removal of an id is refused, all records are still there, though those that were removed
before are not found any more. What is left is exact, and free of what was removed, only if nothing
had been removed by then.
-/
theorem isExact_refused_iff (h : registry.IsExact) (now : Timestamp) {id : String}
    {front back : List String} (hcleanup : (registry.cleanup now).1.removed = front ++ id :: back) :
    let left := (registry.cleanupUnless now fun other => other = id).2
    left.records.Perm registry.records ∧
      (∀ other, left.find? other = if other ∈ front then none else registry.find? other) ∧
      left.index.size + front.length = left.size ∧
      ((left.IsExact ∧ ∀ gone ∈ front,
        left.find? gone = none ∧ ∀ record ∈ left.records, record.id ≠ gone) ↔ front = []) := by
  obtain ⟨halt, hhalt, hannounced, hrefused⟩ := exists_refused h.complete h.sound hcleanup
  rw [hrefused]
  dsimp only
  have hperm : halt.abandon.records.Perm registry.records := hhalt.sorts.perm
  have hsize : halt.abandon.index.size + front.length = halt.abandon.size := by
    have hfront : front.length = halt.dropped.length := by
      rw [← List.length_reverse, ← hannounced, hhalt.announced, List.length_map]
    change halt.live.index.size + _ = (halt.live.records ++ halt.dropped).length
    rw [hhalt.complete.size_index hhalt.sound, List.length_append, hfront]
    rfl
  refine ⟨hperm, ?_, hsize, ?_, ?_⟩
  . intro other
    rw [hhalt.find?_abandon, hhalt.find?_live h.complete h.sound, hannounced]
    simp only [List.mem_reverse]
  . -- Each record that was removed before is one that the index lacks.
    rintro ⟨hexact, -⟩
    have := hexact.size_index
    apply List.eq_nil_of_length_eq_zero
    omega
  . rintro rfl
    have hdropped : halt.dropped = [] := by
      have := hhalt.announced
      rw [hannounced] at this
      exact List.map_eq_nil_iff.1 this.symm
    have hlive : halt.abandon = halt.live := by
      unfold Sweep.abandon Sweep.live Sweep.records
      rw [hdropped, List.append_nil]
    rw [hlive]
    exact ⟨hhalt.complete.isExact hhalt.sound, by simp⟩

theorem isExact_ofRecords {records : List Record} (h : (records.map (·.id)).Nodup) :
    (ofRecords records).IsExact :=
  (complete_ofRecords h).isExact (sound_ofRecords records)

theorem isExact_refused_iff_first_of_two :
    let first : Record := ⟨"a", "/log/a", 7, .epoch, .immediate, true⟩
    let second : Record := ⟨"b", "/log/b", 7, .epoch, .immediate, true⟩
    let registry := ofRecords [first, second]
    registry.IsExact ∧ (registry.cleanup .epoch).1.removed = [] ++ "a" :: ["b"] ∧
      (registry.cleanupUnless .epoch fun id => id = "a").2.IsExact := by
  intro first second registry
  have hexact : registry.IsExact := isExact_ofRecords (by decide)
  have hcleanup : (registry.cleanup .epoch).1.removed = [] ++ "a" :: ["b"] := by decide +kernel
  exact ⟨hexact, hcleanup, ((isExact_refused_iff hexact .epoch hcleanup).2.2.2.2 rfl).1⟩

/--
The removal of the second one of two ids is refused. The first one is out of the index, but its record
is still in the list.
-/
theorem refused_keeps_removed_record :
    let first : Record := ⟨"a", "/log/a", 7, .epoch, .immediate, true⟩
    let second : Record := ⟨"b", "/log/b", 7, .epoch, .immediate, true⟩
    let left := ((ofRecords [first, second]).cleanupUnless .epoch fun id => id = "b").2
    (ofRecords [first, second]).IsExact ∧ left.records = [second, first] ∧
      left.find? "a" = none ∧ left.size = 2 ∧ left.index.size = 1 ∧ ¬ left.IsExact := by
  intro first second left
  have hrecords : left.records = [second, first] := by decide +kernel
  have hfind : left.find? "a" = none := by decide +kernel
  have hsize : left.size = 2 := by decide +kernel
  have hindex : left.index.size = 1 := by decide +kernel
  refine ⟨isExact_ofRecords (by decide), hrecords, hfind, hsize, hindex, ?_⟩
  intro hexact
  have := hexact.size_index
  omega

end Registry

end ReadProgress
