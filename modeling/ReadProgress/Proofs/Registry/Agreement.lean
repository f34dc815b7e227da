import Mathlib.Data.List.NodupEquivFin
import Mathlib.Tactic.Tauto
import ReadProgress.Proofs.Registry.Coverage
import ReadProgress.Proofs.Snapshot

/-!
This module contains whether snapshots and copies of a registry agree with what is found in it. Of the
records with one id, the last one of the list goes into a snapshot. The index leads to that one too,
until a cleanup moves or removes one of them.
-/

namespace ReadProgress

namespace Registry

/--
The last position of an id among those of some records.
-/
structure IsLast (ids : List String) (id : String) (position : Nat) : Prop where
  found : ids[position]? = some id
  last : ∀ other : Nat, ids[other]? = some id → other ≤ position

theorem IsLast.unique {ids : List String} {id : String} {first second : Nat}
    (hfirst : IsLast ids id first) (hsecond : IsLast ids id second) : first = second :=
  Nat.le_antisymm (hsecond.last first hfirst.found) (hfirst.last second hsecond.found)

theorem isLast_append_cons {ids rest : List String} {id : String} :
    IsLast (ids ++ id :: rest) id ids.length ↔ id ∉ rest := by
  constructor
  . intro h hmem
    obtain ⟨offset, hoffset⟩ := List.mem_iff_getElem?.1 hmem
    have := h.last (ids.length + (offset + 1)) (by
      rw [List.getElem?_append_right (by omega), Nat.add_sub_cancel_left, List.getElem?_cons_succ,
        hoffset])
    omega
  . intro hnone
    refine ⟨by simp, fun position hposition => Nat.le_of_not_lt fun hgt => hnone ?_⟩
    obtain ⟨offset, rfl⟩ := Nat.exists_eq_add_of_lt hgt
    rw [Nat.add_assoc, List.getElem?_append_right (by omega), Nat.add_sub_cancel_left,
      List.getElem?_cons_succ] at hposition
    exact List.mem_of_getElem? hposition

theorem isLast_concat {ids : List String} {last id : String} {position : Nat} :
    IsLast (ids ++ [last]) id position ↔
      if id = last then position = ids.length else IsLast ids id position := by
  split
  . next heq =>
    subst heq
    have hend : IsLast (ids ++ [id]) id ids.length := isLast_append_cons.2 List.not_mem_nil
    constructor
    . intro h
      exact h.unique hend
    . rintro rfl
      exact hend
  . next hne =>
    have hsame : ∀ other : Nat, (ids ++ [last])[other]? = some id ↔ ids[other]? = some id := by
      intro other
      rw [getElem?_concat_eq_some_iff, or_iff_left (fun h => hne h.2.symm)]
    constructor
    . intro h
      exact ⟨(hsame _).1 h.found, fun other hother => h.last other ((hsame _).2 hother)⟩
    . intro h
      exact ⟨(hsame _).2 h.found, fun other hother => h.last other ((hsame _).1 hother)⟩

theorem getElem?_indexOf {records : List Record} {id : String} {position : Nat} :
    (indexOf records)[id]? = some position ↔ IsLast (records.map (·.id)) id position := by
  induction records using List.reverseRecOn with
  | nil =>
    rw [indexOf_nil, Std.TreeMap.getElem?_emptyc]
    constructor
    . intro h
      simp at h
    . intro h
      simpa using h.found
  | append_singleton records record ih =>
    rw [indexOf_concat, getElem?_index_insert, List.map_append, List.map_singleton, isLast_concat,
      List.length_map]
    split
    . rw [Option.some.injEq, eq_comm]
    . exact ih

/--
The last one of the records with a certain id is the one that is found.
-/
def FindsLast (registry : Registry) (id : String) : Prop :=
  ∀ position : Nat, registry.index[id]? = some position ↔
    IsLast (registry.records.map (·.id)) id position

/--
No record with a certain id is removed in a cleanup, and none of them moves up. They all are at
positions that remain when the removed ones are gone.
-/
def Rests (now : Timestamp) (records : List Record) (id : String) : Prop :=
  ∀ (position : Nat) (record : Record), records[position]? = some record → record.id = id →
    record.isRemovable now = false ∧ position < stayCount now records

/--
All records with a certain id are removed in a cleanup.
-/
def Clears (now : Timestamp) (records : List Record) (id : String) : Prop :=
  ∀ record ∈ records, record.id = id → record.isRemovable now = true

/--
A record with a certain id moves up into the gap of one that is removed, and no record with that id
stands between the two. As many stay behind it as there are gaps before that one, so those gaps are
filled first.
-/
def MovesLast (now : Timestamp) (records : List Record) (id : String) : Prop :=
  ∃ (front : List Record) (removed : Record) (between : List Record) (record : Record)
    (back : List Record),
    records = front ++ removed :: (between ++ record :: back) ∧ removed.isRemovable now = true ∧
    record.id = id ∧ record.isRemovable now = false ∧
    (gaps now front).length = stayCount now back ∧ ∀ other ∈ between, other.id ≠ id

/--
A cleanup leaves it clear which record of an id comes last: none of them stays, none of them is touched,
or the one that moves up last has no other one of them behind it then.
-/
def LeavesOrder (now : Timestamp) (records : List Record) (id : String) : Prop :=
  Clears now records id ∨ Rests now records id ∨ MovesLast now records id

variable {registry : Registry} {now : Timestamp} {id : String}

theorem exists_isLast {records : List Record} {record : Record} (h : record ∈ records)
    (hid : record.id = id) : ∃ position, IsLast (records.map (·.id)) id position := by
  have hcontains : (Registry.ofRecords records).contains id = true :=
    contains_ofRecords.2 ⟨record, h, hid⟩
  obtain ⟨position, hposition⟩ := contains_iff.1 hcontains
  exact ⟨position, getElem?_indexOf.1 hposition⟩

section

variable {record last : Record} {rest between : List Record}

theorem not_movesLast_nil : ¬ MovesLast now [] id := by
  rintro ⟨front, removed, between, record, back, heq, -⟩
  simp at heq

theorem not_movesLast_singleton : ¬ MovesLast now [record] id := by
  rintro ⟨front, removed, between, moved, back, heq, -⟩
  have := congrArg List.length heq
  simp at this
  omega

theorem movesLast_cons_of_kept (h : record.isRemovable now = false) :
    MovesLast now (record :: rest) id ↔ MovesLast now rest id := by
  constructor
  . rintro ⟨front, removed, between, moved, back, heq, hremoved, hmoved⟩
    cases front with
    | nil =>
      obtain ⟨rfl, -⟩ := List.cons.inj heq
      rw [h] at hremoved
      cases hremoved
    | cons first front =>
      obtain ⟨rfl, rfl⟩ := List.cons.inj heq
      rw [gaps_cons_of_kept h] at hmoved
      exact ⟨front, removed, between, moved, back, rfl, hremoved, hmoved⟩
  . rintro ⟨front, removed, between, moved, back, rfl, hremoved, hmoved⟩
    rw [← gaps_cons_of_kept h] at hmoved
    exact ⟨record :: front, removed, between, moved, back, rfl, hremoved, hmoved⟩

theorem gaps_fill {front back : List Record} (hrecord : record.isRemovable now = true) :
    (gaps now (record :: front)).length = stayCount now (back ++ [last]) ↔
      (gaps now (last :: front)).length = stayCount now back := by
  rw [stayCount_concat, gaps_cons_of_removable hrecord, List.length_cons]
  cases hlast : last.isRemovable now with
  | true => rw [gaps_cons_of_removable hlast, if_pos rfl, List.length_cons]
  | false => rw [gaps_cons_of_kept hlast, if_neg Bool.false_ne_true, Nat.add_right_cancel_iff]

/--
Where the first record is removed, the last one fills its gap. It is the one that moves up with none of
its id behind it, or some other record is.
-/
theorem movesLast_rotate (hrecord : record.isRemovable now = true) :
    MovesLast now (record :: (between ++ [last])) id ↔
      (last.id = id ∧ last.isRemovable now = false ∧ ∀ other ∈ between, other.id ≠ id) ∨
        MovesLast now (last :: between) id := by
  constructor
  . rintro ⟨front, removed, middle, moved, back, heq, hremoved, hid, hmoved, hgaps, hmiddle⟩
    cases front with
    | nil =>
      obtain ⟨rfl, hrest⟩ := List.cons.inj heq
      rcases List.eq_nil_or_concat back with rfl | ⟨back, other, rfl⟩
      . obtain ⟨rfl, hlast⟩ := List.append_inj' hrest rfl
        obtain rfl := List.singleton_inj.1 hlast
        exact .inl ⟨hid, hmoved, hmiddle⟩
      . -- The last one is removed as well, so its gap is filled in its turn.
        rw [List.concat_eq_append, ← List.cons_append, ← List.append_assoc] at hrest
        obtain ⟨rfl, hlast⟩ := List.append_inj' hrest rfl
        obtain rfl := List.singleton_inj.1 hlast
        rw [List.concat_eq_append, stayCount_concat] at hgaps
        cases hlast : last.isRemovable now with
        | true =>
          rw [hlast, if_pos rfl] at hgaps
          exact .inr ⟨[], last, middle, moved, back, rfl, hlast, hid, hmoved, hgaps, hmiddle⟩
        | false =>
          rw [hlast, if_neg Bool.false_ne_true] at hgaps
          simp [gaps] at hgaps
    | cons first front =>
      obtain ⟨rfl, hrest⟩ := List.cons.inj heq
      rcases List.eq_nil_or_concat back with rfl | ⟨back, other, rfl⟩
      . rw [gaps_cons_of_removable hrecord] at hgaps
        simp [stayCount] at hgaps
      . have hsplit : between ++ [last] =
            (front ++ removed :: (middle ++ moved :: back)) ++ [other] := by
          simpa using hrest
        obtain ⟨rfl, hlast⟩ := List.append_inj' hsplit rfl
        obtain rfl := List.singleton_inj.1 hlast
        rw [List.concat_eq_append, gaps_fill hrecord] at hgaps
        exact .inr ⟨last :: front, removed, middle, moved, back, rfl, hremoved, hid, hmoved, hgaps,
          hmiddle⟩
  . rintro (⟨hid, hmoved, hbetween⟩ |
      ⟨front, removed, middle, moved, back, heq, hremoved, hid, hmoved, hgaps, hmiddle⟩)
    . exact ⟨[], record, between, last, [], rfl, hrecord, hid, hmoved, rfl, hbetween⟩
    . cases front with
      | nil =>
        obtain ⟨rfl, rfl⟩ := List.cons.inj heq
        refine ⟨[], record, middle, moved, back ++ [last], by simp, hrecord, hid, hmoved, ?_, hmiddle⟩
        rw [stayCount_concat, if_pos hremoved]
        exact hgaps
      | cons first front =>
        obtain ⟨rfl, rfl⟩ := List.cons.inj heq
        rw [← gaps_fill hrecord] at hgaps
        exact ⟨record :: front, removed, middle, moved, back ++ [last], by simp, hremoved, hid,
          hmoved, hgaps, hmiddle⟩

end

namespace FindsLast

theorem ofRecords (records : List Record) : (Registry.ofRecords records).FindsLast id :=
  fun _ => getElem?_indexOf

theorem empty : FindsLast .empty id :=
  ofRecords []

theorem find?_copy (h : registry.FindsLast id) : registry.copy.find? id = registry.find? id := by
  have hindex : (indexOf registry.records)[id]? = registry.index[id]? := by
    ext position
    exact getElem?_indexOf.trans (h position).symm
  unfold find?
  change ((indexOf registry.records)[id]?).bind _ = _
  rw [hindex]
  rfl

theorem congr {other : Registry} (h : registry.FindsLast id)
    (hindex : other.index[id]? = registry.index[id]?)
    (hids : ∀ position : Nat, (other.records.map (·.id))[position]? = some id ↔
      (registry.records.map (·.id))[position]? = some id) : other.FindsLast id := by
  intro position
  rw [hindex, h position]
  constructor
  . intro hlast
    exact ⟨(hids _).2 hlast.found, fun later hlater => hlast.last later ((hids _).1 hlater)⟩
  . intro hlast
    exact ⟨(hids _).1 hlast.found, fun later hlater => hlast.last later ((hids _).2 hlater)⟩

theorem map_id_set (hsound : registry.Sound) {record : Record} {position : Nat}
    (h : registry.index[record.id]? = some position) (moment : Timestamp) :
    (registry.records.set position { record with timestamp := moment }).map (·.id) =
      registry.records.map (·.id) := by
  obtain ⟨replaced, hreplaced, hid⟩ := hsound _ _ h
  rw [List.map_set]
  apply List.ext_getElem?
  intro other
  rw [List.getElem?_set]
  split
  . next heq =>
    subst heq
    have hlt := (List.getElem?_eq_some_iff.1 hreplaced).1
    rw [if_pos (by simpa using hlt), List.getElem?_map, hreplaced, Option.map_some, hid]
  . rfl

theorem update (h : registry.FindsLast id) (hsound : registry.Sound) (record : Record)
    (moment : Timestamp) : (registry.update record moment).FindsLast id := by
  intro position
  rcases update_cases registry record moment with ⟨old, hold, heq⟩ | ⟨-, heq⟩
  . rw [heq, map_id_set hsound hold]
    exact h position
  . rw [heq, getElem?_index_insert, List.map_append, List.map_singleton, isLast_concat,
      List.length_map]
    split
    . rw [Option.some.injEq, eq_comm]
    . exact h position

theorem completeAt (h : registry.FindsLast id)
    (hcount : (registry.records.map (·.id)).count id ≤ 1) : registry.CompleteAt id := by
  intro position record hrecord hid
  have hposition : (registry.records.map (·.id))[position]? = some id := by
    rw [List.getElem?_map, hrecord, Option.map_some, hid]
  refine (h position).2 ⟨hposition, ?_⟩
  intro later hlater
  by_contra hlt
  rw [List.getElem?_eq_some_iff] at hposition hlater
  obtain ⟨hfirst, hfirstid⟩ := hposition
  obtain ⟨hsecond, hsecondid⟩ := hlater
  have hduplicate : List.Duplicate id (registry.records.map (·.id)) :=
    List.duplicate_iff_exists_distinct_get.2 ⟨⟨position, hfirst⟩, ⟨later, hsecond⟩,
      Nat.lt_of_not_le hlt, hfirstid.symm, hsecondid.symm⟩
  have := List.duplicate_iff_two_le_count.1 hduplicate
  omega

end FindsLast

theorem CompleteAt.findsLast (h : registry.CompleteAt id) (hsound : registry.Sound) :
    registry.FindsLast id := by
  intro position
  constructor
  . intro hposition
    obtain ⟨record, hrecord, hid⟩ := hsound id position hposition
    refine ⟨by rw [List.getElem?_map, hrecord, Option.map_some, hid], ?_⟩
    intro other hother
    rw [List.getElem?_map, Option.map_eq_some_iff] at hother
    obtain ⟨found, hfound, hfoundid⟩ := hother
    have := h other found hfound hfoundid
    rw [hposition] at this
    exact Nat.le_of_eq (Option.some.inj this).symm
  . intro hlast
    have hfound := hlast.found
    rw [List.getElem?_map, Option.map_eq_some_iff] at hfound
    obtain ⟨record, hrecord, hid⟩ := hfound
    exact h position record hrecord hid

namespace Sweep

variable {sweep : Sweep} {record : Record} {rest : List Record}

theorem getElem?_untouched_drop (hwaiting : sweep.waiting = record :: rest) (hrecord : id ≠ record.id)
    (hlast : ∀ last ∈ rest.getLast?, id ≠ last.id) :
    (sweep.drop record rest).index[id]? = sweep.index[id]? ∧
      ∀ position : Nat, ((sweep.drop record rest).live.records.map (·.id))[position]? = some id ↔
        (sweep.live.records.map (·.id))[position]? = some id := by
  rcases List.eq_nil_or_concat rest with rfl | ⟨between, last, rfl⟩
  . -- The removed record is the last one, so nothing moves up.
    simp only [live, drop, rotate, List.getLast?_nil, hwaiting, getElem?_index_erase, if_neg hrecord,
      List.append_nil, true_and]
    intro position
    rw [List.map_append, List.map_singleton, getElem?_concat_eq_some_iff,
      or_iff_left (fun h => hrecord h.2.symm)]
  . rw [List.concat_eq_append] at hlast hwaiting ⊢
    have hne : id ≠ last.id := hlast last List.getLast?_concat
    refine ⟨by rw [getElem?_index_drop, if_neg hne, if_neg hrecord], ?_⟩
    intro position
    simp only [live, drop, rotate_concat, hwaiting, List.getElem?_map]
    rw [getElem?_moved _ _ record]
    split
    . next heq =>
      subst heq
      simp [hne.symm, hrecord.symm]
    . split
      . next heq =>
        subst heq
        rw [getElem?_concat_last]
        simp [hne.symm]
      . rfl

/--
A sweep that has found, and will find, all records with a certain id in their places.
-/
structure Resting (now : Timestamp) (id : String) (sweep : Sweep) : Prop where
  spares : Spares now sweep.waiting id
  before : ∀ position : Nat, (sweep.live.records.map (·.id))[position]? = some id →
    position < sweep.kept.length + stayCount now sweep.waiting
  findsLast : sweep.live.FindsLast id

theorem resting_keep (hwaiting : sweep.waiting = record :: rest)
    (hrecord : record.isRemovable now = false) :
    (sweep.keep now record rest).Resting now id ↔ sweep.Resting now id := by
  have hplaces : (sweep.kept ++ [record]).length + stayCount now rest =
      sweep.kept.length + stayCount now sweep.waiting := by
    rw [hwaiting, stayCount_cons_of_kept hrecord, List.length_append, List.length_singleton]
    omega
  have hspares : Spares now sweep.waiting id ↔ Spares now rest id := by
    rw [hwaiting]
    simp [Spares, hrecord]
  constructor
  . rintro ⟨hstays, hbefore, hlast⟩
    rw [live_keep hwaiting] at hbefore hlast
    exact ⟨hspares.2 hstays, fun position hposition => hplaces ▸ hbefore position hposition, hlast⟩
  . rintro ⟨hstays, hbefore, hlast⟩
    refine ⟨hspares.1 hstays, fun position hposition => ?_, ?_⟩
    . rw [live_keep hwaiting] at hposition
      exact Nat.lt_of_lt_of_eq (hbefore position hposition) hplaces.symm
    . rw [live_keep hwaiting]
      exact hlast

theorem Resting.untouched (hwaiting : sweep.waiting = record :: rest)
    (hrecord : record.isRemovable now = true) (h : sweep.Resting now id) :
    id ≠ record.id ∧ ∀ last ∈ rest.getLast?, id ≠ last.id := by
  constructor
  . rintro rfl
    have := h.spares record (by rw [hwaiting]; exact List.mem_cons_self) rfl
    rw [hrecord] at this
    cases this
  . rintro last hlast rfl
    obtain ⟨between, rfl⟩ := List.getLast?_eq_some_iff.1 hlast
    -- The last position is no place to stay, since as many as are removed have to go.
    have hend := h.before (sweep.kept.length + between.length + 1) (by
      rw [List.getElem?_map, live, hwaiting, getElem?_concat_last, Option.map_some])
    have := List.countP_le_length (p := fun record => !record.isRemovable now) (l := between ++ [last])
    change stayCount now (between ++ [last]) ≤ _ at this
    rw [hwaiting, stayCount_cons_of_removable hrecord] at hend
    rw [List.length_append, List.length_singleton] at this
    omega

/-
Neither the removed record nor the one that moves up has the id, so all that have it are where they were.
-/
theorem resting_drop (hwaiting : sweep.waiting = record :: rest)
    (hrecord : record.isRemovable now = true) (hne : id ≠ record.id)
    (hlast : ∀ last ∈ rest.getLast?, id ≠ last.id) :
    (sweep.drop record rest).Resting now id ↔ sweep.Resting now id := by
  obtain ⟨hindex, hsame⟩ := getElem?_untouched_drop hwaiting hne hlast
  have hcount : stayCount now (rotate rest) = stayCount now sweep.waiting := by
    rw [hwaiting, stayCount_cons_of_removable hrecord]
    exact (rotate_perm rest).countP_eq _
  have hspares : Spares now (rotate rest) id ↔ Spares now sweep.waiting id := by
    rw [hwaiting, spares_cons_of_removable hrecord, and_iff_right hne.symm]
    simp only [Spares, (rotate_perm rest).mem_iff]
  constructor
  . rintro ⟨hstays, hbefore, hfinds⟩
    refine ⟨hspares.1 hstays, fun position hposition => ?_, ?_⟩
    . rw [← hcount]
      exact hbefore position ((hsame position).2 hposition)
    . exact hfinds.congr hindex.symm fun position => (hsame position).symm
  . rintro ⟨hstays, hbefore, hfinds⟩
    refine ⟨hspares.2 hstays, fun position hposition => ?_, hfinds.congr hindex hsame⟩
    change position < sweep.kept.length + stayCount now (rotate rest)
    rw [hcount]
    exact hbefore position ((hsame position).1 hposition)

/-
The record that moves up has the id. It is found from now on, so none with that id may come behind it.
-/
theorem resting_drop_moved (sweep : Sweep) (record : Record) {last : Record} {between : List Record}
    (hid : last.id = id) :
    (sweep.drop record (between ++ [last])).Resting now id ↔
      last.isRemovable now = false ∧ ∀ other ∈ between, other.id ≠ id := by
  have hindex : (sweep.drop record (between ++ [last])).index[id]? = some sweep.kept.length := by
    rw [getElem?_index_drop, if_pos hid.symm]
  have hids : (sweep.drop record (between ++ [last])).live.records.map (·.id) =
      sweep.kept.map (·.id) ++ id :: between.map (·.id) := by
    rw [live_drop_concat, List.map_append, List.map_cons, hid]
  have hwaiting : (sweep.drop record (between ++ [last])).waiting = last :: between :=
    rotate_concat between last
  have hlast : IsLast (sweep.kept.map (·.id) ++ id :: between.map (·.id)) id sweep.kept.length ↔
      ∀ other ∈ between, other.id ≠ id := by
    rw [← List.length_map (·.id), isLast_append_cons, List.mem_map, not_exists]
    simp only [not_and]
  constructor
  . rintro ⟨hstays, -, hfinds⟩
    refine ⟨hstays last (by simp [hwaiting]) hid, hlast.1 ?_⟩
    rw [← hids]
    exact (hfinds _).1 hindex
  . rintro ⟨hmoved, hbetween⟩
    have hat := hlast.2 hbetween
    refine ⟨?_, ?_, ?_⟩
    . rw [hwaiting]
      intro other hother hsame
      rcases List.mem_cons.1 hother with rfl | hother
      . exact hmoved
      . exact absurd hsame (hbetween other hother)
    . intro position hposition
      rw [hids] at hposition
      rw [hwaiting, stayCount_cons_of_kept hmoved]
      have := hat.last position hposition
      change position < sweep.kept.length + _
      omega
    . intro position
      change (sweep.drop record (between ++ [last])).index[id]? = _ ↔ _
      rw [hindex, hids, Option.some.injEq]
      constructor
      . rintro rfl
        exact hat
      . exact hat.unique

/--
A sweep will end with the last record of an id as the one that is found: none of them will be left, all
of them are in their places, or the one that moves up last will have no other one of them behind it.
-/
def WillFindLast (now : Timestamp) (id : String) (sweep : Sweep) : Prop :=
  ((∀ record ∈ sweep.kept, record.id ≠ id) ∧ Clears now sweep.waiting id) ∨
    sweep.Resting now id ∨ MovesLast now sweep.waiting id

theorem willFindLast_of_waiting (hsound : sweep.live.Sound) (h : sweep.waiting = []) :
    sweep.WillFindLast now id ↔ sweep.live.FindsLast id := by
  have hkept : sweep.live.records = sweep.kept := by simp [live, h]
  constructor
  . rintro (⟨hnone, -⟩ | hresting | hmoves)
    . -- There is no such record, so the index leads nowhere.
      rw [← hkept] at hnone
      intro position
      constructor
      . intro hposition
        obtain ⟨record, hrecord, hid⟩ := hsound id position hposition
        exact absurd hid (hnone record (List.mem_of_getElem? hrecord))
      . intro hlast
        have hfound := hlast.found
        rw [List.getElem?_map, Option.map_eq_some_iff] at hfound
        obtain ⟨record, hrecord, hid⟩ := hfound
        exact absurd hid (hnone record (List.mem_of_getElem? hrecord))
    . exact hresting.findsLast
    . rw [h] at hmoves
      exact absurd hmoves not_movesLast_nil
  . intro hlast
    refine .inr (.inl ⟨by simp [h, Spares], fun position hposition => ?_, hlast⟩)
    rw [hkept] at hposition
    have := (List.getElem?_eq_some_iff.1 hposition).1
    rw [List.length_map] at this
    omega

theorem willFindLast_keep (hwaiting : sweep.waiting = record :: rest)
    (hrecord : record.isRemovable now = false) :
    (sweep.keep now record rest).WillFindLast now id ↔ sweep.WillFindLast now id := by
  unfold WillFindLast
  rw [resting_keep hwaiting hrecord, hwaiting, movesLast_cons_of_kept hrecord]
  simp [keep, Clears, hrecord, or_imp, forall_and, and_assoc]

/-
The index knows nothing of the id any more, so there is an end to it unless some record moves up.
-/
theorem ne_of_resting_drop (hrecord : id = record.id) (hlast : ∀ last ∈ rest.getLast?, id ≠ last.id)
    (h : (sweep.drop record rest).Resting now id) :
    ∀ other ∈ sweep.kept ++ rotate rest, other.id ≠ id := by
  have hindex : (sweep.drop record rest).index[id]? = none := by
    rcases List.eq_nil_or_concat rest with rfl | ⟨between, last, rfl⟩
    . simp only [drop, List.getLast?_nil, getElem?_index_erase, if_pos hrecord]
    . rw [List.concat_eq_append] at hlast ⊢
      rw [getElem?_index_drop, if_neg (hlast last List.getLast?_concat), if_pos hrecord]
  intro other hother hid
  obtain ⟨position, hposition⟩ := exists_isLast hother hid
  have hfound := (h.findsLast position).2 hposition
  change (sweep.drop record rest).index[id]? = _ at hfound
  rw [hindex] at hfound
  cases hfound

theorem willFindLast_drop (hwaiting : sweep.waiting = record :: rest)
    (hrecord : record.isRemovable now = true) :
    (sweep.drop record rest).WillFindLast now id ↔ sweep.WillFindLast now id := by
  have hclears : Clears now (rotate rest) id ↔ Clears now (record :: rest) id := by
    simp [Clears, hrecord, (rotate_perm rest).mem_iff]
  have hmoves : (∀ last ∈ rest.getLast?, id ≠ last.id) →
      (MovesLast now (rotate rest) id ↔ MovesLast now (record :: rest) id) := by
    intro hlast
    rcases List.eq_nil_or_concat rest with rfl | ⟨between, last, rfl⟩
    . simp [rotate, not_movesLast_nil, not_movesLast_singleton]
    . rw [List.concat_eq_append] at hlast ⊢
      rw [rotate_concat, movesLast_rotate hrecord, or_iff_right]
      exact fun hmoved => hlast last List.getLast?_concat hmoved.1.symm
  change ((∀ record ∈ sweep.kept, record.id ≠ id) ∧ Clears now (rotate rest) id) ∨
    (sweep.drop record rest).Resting now id ∨ MovesLast now (rotate rest) id ↔ _
  unfold WillFindLast
  rw [hwaiting, hclears]
  by_cases hlast : ∀ last ∈ rest.getLast?, id ≠ last.id
  . rw [hmoves hlast]
    by_cases hne : id = record.id
    . have hnot : ¬ sweep.Resting now id := fun h => (h.untouched hwaiting hrecord).1 hne
      have hcleared : (sweep.drop record rest).Resting now id →
          (∀ record ∈ sweep.kept, record.id ≠ id) ∧ Clears now (record :: rest) id := by
        intro h
        have hnone := ne_of_resting_drop hne hlast h
        refine ⟨fun other hother => hnone other (List.mem_append_left _ hother), hclears.1 ?_⟩
        exact fun other hother hid => absurd hid (hnone other (List.mem_append_right _ hother))
      tauto
    . rw [resting_drop hwaiting hrecord hne hlast]
  . have hnot : ¬ sweep.Resting now id := fun h => hlast (h.untouched hwaiting hrecord).2
    rcases List.eq_nil_or_concat rest with rfl | ⟨between, last, rfl⟩
    . simp at hlast
    . rw [List.concat_eq_append] at hlast ⊢
      have hid : last.id = id := by simpa [eq_comm] using hlast
      rw [resting_drop_moved sweep record hid, rotate_concat, movesLast_rotate hrecord]
      tauto

theorem willFindLast_run (sweep : Sweep) (hsound : sweep.live.Sound) :
    (sweep.run now fun _ => false).live.FindsLast id ↔ sweep.WillFindLast now id := by
  rw [← willFindLast_of_waiting (sound_run _ hsound) (waiting_run sweep)]
  refine run_induction (P := fun other => other.WillFindLast now id ↔ sweep.WillFindLast now id)
    ?_ ?_ ?_ sweep Iff.rfl
  . intro other record rest hwaiting hrecord h
    rw [willFindLast_keep hwaiting hrecord]
    exact h
  . intro other record rest hwaiting hrecord _ h
    have hannounced : (other.announce record).waiting = record :: rest := hwaiting
    have hsame : (other.announce record).WillFindLast now id ↔ other.WillFindLast now id :=
      or_congr_right (or_congr_left ⟨fun h => ⟨h.1, h.2, h.3⟩, fun h => ⟨h.1, h.2, h.3⟩⟩)
    rw [willFindLast_drop hannounced hrecord, hsame]
    exact h
  . intro other record rest _ _ hrefuses _
    simp at hrefuses

end Sweep

/--
A cleanup leaves the index at the last record of an id exactly if it leaves it clear which one that is.
-/
theorem FindsLast.cleanup_iff (h : registry.FindsLast id) (hsound : registry.Sound) :
    (registry.cleanup now).2.FindsLast id ↔ LeavesOrder now registry.records id := by
  have hrests : (Sweep.start registry).Resting now id ↔ Rests now registry.records id := by
    constructor
    . rintro ⟨hspares, hbefore, -⟩ position record hrecord hid
      refine ⟨hspares record (List.mem_of_getElem? hrecord) hid, ?_⟩
      have := hbefore position (by
        change (registry.records.map (·.id))[position]? = _
        rw [List.getElem?_map, hrecord, Option.map_some, hid])
      rwa [Sweep.start, List.length_nil, Nat.zero_add] at this
    . intro hrests
      refine ⟨?_, ?_, h⟩
      . intro record hrecord hid
        obtain ⟨position, hposition⟩ := List.mem_iff_getElem?.1 hrecord
        exact (hrests position record hposition hid).1
      . intro position hposition
        rw [List.getElem?_map, Option.map_eq_some_iff] at hposition
        obtain ⟨record, hrecord, hid⟩ := hposition
        change position < 0 + stayCount now registry.records
        rw [Nat.zero_add]
        exact (hrests position record hrecord hid).2
  rw [cleanup_eq_live, Sweep.willFindLast_run (Sweep.start registry) hsound, Sweep.WillFindLast, hrests]
  exact or_congr_left (and_iff_right (by simp [Sweep.start]))

/--
A cleanup leaves the order of an id clear that no two records share.
-/
theorem leavesOrder_of_count_le_one {records : List Record}
    (h : (records.map (·.id)).count id ≤ 1) : LeavesOrder now records id := by
  have hlast : (Registry.ofRecords records).FindsLast id := .ofRecords records
  have hsound := sound_ofRecords records
  exact (hlast.cleanup_iff hsound).1 (((hlast.completeAt h).cleanup now).findsLast (hsound.cleanup now))

/--
Whether an operation fills the index anew.
-/
def Operation.isRefill : Operation → Bool
  | .replace _ | .copy => true
  | .update _ _ | .cleanup _ => false

theorem findsLast_afterAll {operations : List Operation}
    (h : ∀ front now back, operations = front ++ .cleanup now :: back →
      (∀ operation ∈ back, operation.isRefill = false) →
      LeavesOrder now (afterAll front).records id) : (afterAll operations).FindsLast id := by
  induction operations using List.reverseRecOn with
  | nil => exact FindsLast.empty
  | append_singleton operations operation ih =>
    have hlast : operation.isRefill = false → (afterAll operations).FindsLast id := by
      intro hrefill
      refine ih fun front now back hsplit hback => h front now (back ++ [operation]) ?_ ?_
      . rw [hsplit, List.append_assoc, List.cons_append]
      . intro other hother
        rcases List.mem_append.1 hother with hother | hother
        . exact hback other hother
        . rwa [List.mem_singleton.1 hother]
    rw [afterAll_concat]
    cases operation with
    | update record moment => exact (hlast rfl).update (sound_afterAll _) record moment
    | cleanup now =>
      refine ((hlast rfl).cleanup_iff (sound_afterAll _)).2 (h operations now [] rfl ?_)
      exact fun _ hnone => nomatch hnone
    | replace records => exact FindsLast.ofRecords records
    | copy => exact FindsLast.ofRecords _

theorem Sound.row?_ofRecords_iff (h : registry.Sound) (id : String) :
    (Snapshot.ofRecords registry.records).row? id = (registry.find? id).map Row.ofRecord ↔
      registry.copy.find? id = registry.find? id := by
  rw [Snapshot.row?_ofRecords]
  change (registry.copy.find? id).map Row.ofRecord = _ ↔ _
  constructor
  . intro hrow
    have hid : ∀ other : Registry, other.Sound →
        (other.find? id).map (fun record => (Row.ofRecord record).toRecord id) = other.find? id := by
      intro other hsound
      cases hfind : other.find? id with
      | none => rfl
      | some record =>
        obtain rfl := hsound.id_of_find? hfind
        rfl
    rw [← hid registry h, ← hid registry.copy (sound_ofRecords _)]
    have := congrArg (Option.map (·.toRecord id)) hrow
    rw [Option.map_map, Option.map_map] at this
    exact this
  . intro hcopy
    rw [hcopy]

/--
Along a sequence of operations, whatever the lists that are brought, snapshots, copies and registries
that are filled with the same records agree with what is found under an id, as long as each cleanup since
the registry was last filled anew leaves it clear which record with that id comes last. If they agree so
far, the next cleanup leaves the index at the last one exactly if it leaves that clear.
-/
theorem snapshot_agrees (operations : List Operation) (id : String)
    (h : ∀ front now back, operations = front ++ .cleanup now :: back →
      (∀ operation ∈ back, operation.isRefill = false) →
      LeavesOrder now (afterAll front).records id) :
    (Snapshot.ofRecords (afterAll operations).records).row? id =
        ((afterAll operations).find? id).map Row.ofRecord ∧
      (afterAll operations).copy.find? id = (afterAll operations).find? id ∧
      (afterAll (operations ++ [.replace (afterAll operations).records])).find? id =
        (afterAll operations).find? id ∧
      ∀ now, (afterAll (operations ++ [.cleanup now])).FindsLast id ↔
        LeavesOrder now (afterAll operations).records id := by
  have hlast := findsLast_afterAll h
  have hcopy := hlast.find?_copy
  refine ⟨((sound_afterAll operations).row?_ofRecords_iff id).2 hcopy, hcopy, ?_, ?_⟩
  . rw [afterAll_concat]
    exact hcopy
  . intro now
    rw [afterAll_concat]
    exact hlast.cleanup_iff (sound_afterAll operations)

theorem snapshot_agrees_on_untouched_twins :
    let first : Record := ⟨"x", "/log", 1, .epoch, .never, false⟩
    let second : Record := ⟨"x", "/log", 2, .epoch, .never, false⟩
    let gone : Record := ⟨"gone", "/log", 0, .epoch, .immediate, true⟩
    let operations : List Operation := [.replace [first, second, gone], .cleanup .epoch]
    (∀ front now back, operations = front ++ .cleanup now :: back →
      (∀ operation ∈ back, operation.isRefill = false) →
      LeavesOrder now (afterAll front).records "x") ∧
      (afterAll operations).copy.find? "x" = some second := by
  intro first second gone operations
  have horder : ∀ front now back, operations = front ++ .cleanup now :: back →
      (∀ operation ∈ back, operation.isRefill = false) →
      LeavesOrder now (afterAll front).records "x" := by
    intro front now back hsplit _
    obtain ⟨rfl, rfl⟩ : front = [.replace [first, second, gone]] ∧ now = .epoch := by
      rcases front with _ | ⟨head, _ | ⟨next, rest⟩⟩ <;> simp_all [operations]
    refine .inr (.inl ?_)
    rintro (_ | _ | _ | position) record hrecord hid
    . obtain rfl := Option.some.inj hrecord
      decide
    . obtain rfl := Option.some.inj hrecord
      decide
    . obtain rfl := Option.some.inj hrecord
      simp [gone] at hid
    . simp [afterAll, Operation.apply] at hrecord
  have hfind : (afterAll operations).find? "x" = some second := by decide +kernel
  exact ⟨horder, (snapshot_agrees operations "x" horder).2.1.trans hfind⟩

/--
Of two records with one id, the last one moves up into the gap of a record that is removed. It is
found still, but the other one is the last one now, which goes into snapshots and is found in copies.
-/
theorem cleanup_turns_twins :
    let gone : Record := ⟨"gone", "/log", 0, .epoch, .immediate, true⟩
    let first : Record := ⟨"x", "/log", 1, .epoch, .never, false⟩
    let second : Record := ⟨"x", "/log", 2, .epoch, .never, false⟩
    let registry := afterAll [.replace [gone, first, second], .cleanup .epoch]
    registry.records = [second, first] ∧ registry.find? "x" = some second ∧
      registry.copy.find? "x" = some first ∧
      (afterAll [.replace [gone, first, second], .cleanup .epoch, .replace registry.records]).find? "x" =
        some first ∧
      (Snapshot.ofRecords registry.records).row? "x" = some (Row.ofRecord first) := by
  intro gone first second registry
  have hrecords : registry.records = [second, first] := by decide +kernel
  have hfind : registry.find? "x" = some second := by decide +kernel
  have hcopy : (ofRecords [second, first]).find? "x" = some first := by decide +kernel
  refine ⟨hrecords, hfind, ?_, ?_, ?_⟩
  . rw [copy, hrecords]
    exact hcopy
  . rw [hrecords]
    exact hcopy
  . rw [Snapshot.row?_ofRecords, hrecords, hcopy]
    rfl

end Registry

end ReadProgress
