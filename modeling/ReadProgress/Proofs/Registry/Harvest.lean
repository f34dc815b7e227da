import Mathlib.Data.List.Dedup
import ReadProgress.Proofs.Registry.Request

/-!
This module contains what is left of the work of harvesters, which take in records at the same time,
while cleanups go on. As long as each source belongs to one harvester, what is found of a source depends
on the last record of its harvester and on the cleanups since then. The turns of the others do not
matter.
-/

namespace ReadProgress

/--
A run in which several parties take turns. Whoever has something left to do may do the next thing.
-/
inductive Interleaves {α : Type} : List (List α) → List α → Prop where
  | done {parties : List (List α)} (h : ∀ party ∈ parties, party = []) : Interleaves parties []
  | turn {parties : List (List α)} (position : Nat) {a : α} {rest run : List α}
    (hnext : parties[position]? = some (a :: rest)) (h : Interleaves (parties.set position rest) run) :
    Interleaves parties (a :: run)

namespace Interleaves

variable {α β : Type} {parties : List (List α)} {run : List α}

theorem exists_party (h : Interleaves parties run) {a : α} (hmem : a ∈ run) :
    ∃ party ∈ parties, a ∈ party := by
  induction h with
  | done hdone => cases hmem
  | turn position hnext hrun ih =>
    have hparty := List.mem_of_getElem? hnext
    rcases List.mem_cons.1 hmem with rfl | hmem
    . exact ⟨_, hparty, List.mem_cons_self⟩
    . obtain ⟨party, hother, ha⟩ := ih hmem
      rcases List.mem_or_eq_of_mem_set hother with hother | rfl
      . exact ⟨party, hother, ha⟩
      . exact ⟨_, hparty, List.mem_cons_of_mem _ ha⟩

theorem filterMap_eq (h : Interleaves parties run) (f : α → Option β) {position : Nat} {party : List α}
    (hparty : parties[position]? = some party)
    (hothers : ∀ place other, place ≠ position → parties[place]? = some other →
      ∀ a ∈ other, f a = none) :
    run.filterMap f = party.filterMap f := by
  induction h generalizing party with
  | done hdone => rw [hdone party (List.mem_of_getElem? hparty)]
  | @turn parties next a rest run hnext hrun ih =>
    have hlt : next < parties.length := (List.getElem?_eq_some_iff.1 hnext).1
    by_cases heq : next = position
    . -- the party itself has its turn
      subst heq
      rw [hnext] at hparty
      obtain rfl := Option.some.inj hparty
      rw [List.filterMap_cons, List.filterMap_cons, ih (List.getElem?_set_self hlt)]
      intro place other hne hother
      rw [List.getElem?_set_ne hne.symm] at hother
      exact hothers place other hne hother
    . -- another party has, of which only less is left to do
      have ha : f a = none := hothers next _ heq hnext a List.mem_cons_self
      rw [List.filterMap_cons_none ha]
      apply ih
      . rw [List.getElem?_set_ne heq]
        exact hparty
      . intro place other hne hother b hmem
        by_cases hsame : place = next
        . subst hsame
          rw [List.getElem?_set_self hlt] at hother
          obtain rfl := Option.some.inj hother
          exact hothers place _ hne hnext b (List.mem_cons_of_mem _ hmem)
        . rw [List.getElem?_set_ne (Ne.symm hsame)] at hother
          exact hothers place other hne hother b hmem

end Interleaves

namespace Registry

namespace Operation

/--
Whether an operation goes on with the records that are there.
-/
def GoesOn : Operation → Prop
  | replace _ => False
  | update _ _ | cleanup _ | copy => True

theorem isDistinct_of_goesOn {operation : Operation} (h : operation.GoesOn) : operation.IsDistinct := by
  cases operation with
  | replace records => exact h.elim
  | update | cleanup | copy => trivial

/--
The record that an operation takes in under an id.
-/
def taken? (id : String) : Operation → Option Record
  | update record moment => if record.id = id then some { record with timestamp := moment } else none
  | cleanup _ | replace _ | copy => none

theorem id_of_taken? {id : String} {operation : Operation} {record : Record}
    (h : operation.taken? id = some record) : record.id = id := by
  cases operation with
  | update other moment =>
    rw [taken?] at h
    split at h
    . next hid =>
      cases h
      exact hid
    . cases h
  | cleanup | replace | copy => cases h

end Operation

/--
The last record that is taken in under an id.
-/
def lastTaken? (id : String) (run : List Operation) : Option Record :=
  (run.filterMap (Operation.taken? id)).getLast?

/--
The moments of the cleanups since a record has last been taken in under an id.
-/
def cleanupsSince (id : String) (run : List Operation) : List Timestamp :=
  run.foldl next []
where
  next (moments : List Timestamp) : Operation → List Timestamp
    | .update record _ => if record.id = id then [] else moments
    | .cleanup now => moments ++ [now]
    | .replace _ | .copy => moments

/--
The last record that is taken in under an id, unless a cleanup since then finds that it is to be
removed.
-/
def survivor? (id : String) (updates run : List Operation) : Option Record :=
  (lastTaken? id updates).filter fun record =>
    (cleanupsSince id run).all fun now => !record.isRemovable now

theorem lastTaken?_concat (id : String) (run : List Operation) (operation : Operation) :
    lastTaken? id (run ++ [operation]) = (operation.taken? id).or (lastTaken? id run) := by
  unfold lastTaken?
  rw [List.filterMap_append]
  cases htaken : operation.taken? id with
  | none => simp [htaken]
  | some record => simp [htaken]

theorem cleanupsSince_concat (id : String) (run : List Operation) (operation : Operation) :
    cleanupsSince id (run ++ [operation]) =
      cleanupsSince.next id (cleanupsSince id run) operation := by
  simp [cleanupsSince]

theorem cleanupsSince_eq_nil {run : List Operation}
    (h : ∀ operation ∈ run, ∀ now, operation ≠ .cleanup now) (id : String) :
    cleanupsSince id run = [] := by
  induction run using List.reverseRecOn with
  | nil => rfl
  | append_singleton run operation ih =>
    have hlast := h operation (by simp)
    rw [cleanupsSince_concat, ih fun other hother => h other (List.mem_append_left _ hother)]
    cases operation with
    | cleanup now => exact absurd rfl (hlast now)
    | update | replace | copy => simp [cleanupsSince.next]

theorem get?_ledger_afterAll {run : List Operation} (h : ∀ operation ∈ run, operation.GoesOn)
    (id : String) : (Ledger.afterAll run).get? id = survivor? id run run := by
  induction run using List.reverseRecOn with
  | nil => rfl
  | append_singleton run operation ih =>
    have hrun := ih fun other hother => h other (List.mem_append_left _ hother)
    have hlast := h operation (by simp)
    rw [Ledger.afterAll_concat]
    unfold survivor? at hrun ⊢
    rw [lastTaken?_concat, cleanupsSince_concat]
    cases operation with
    | replace records => exact hlast.elim
    | copy => exact hrun
    | update record moment =>
      rw [Ledger.apply, Table.get?_put, hrun]
      by_cases hid : record.id = id
      . simp [Operation.taken?, cleanupsSince.next, hid, Option.filter_some]
      . simp [Operation.taken?, cleanupsSince.next, hid, Ne.symm hid]
    | cleanup now =>
      -- the last record is still the same, and has to survive one more moment
      show ((Ledger.afterAll run).retain fun record => !record.isRemovable now).get? id = _
      rw [Table.get?_retain, hrun, Option.filter_filter]
      simp [Operation.taken?, cleanupsSince.next]

/--
Someone who takes in records, each at a certain moment.
-/
structure Harvester where
  updates : List (Record × Timestamp)

namespace Harvester

def operations (harvester : Harvester) : List Operation :=
  harvester.updates.map fun (record, moment) => .update record moment

def ids (harvester : Harvester) : List String :=
  (harvester.updates.map (·.1.id)).dedup

/--
What a run leaves of the work of the harvester.
-/
def survivors (harvester : Harvester) (run : List Operation) : List Record :=
  harvester.ids.filterMap fun id => survivor? id harvester.operations run

end Harvester

/--
Harvesters and cleaners who work on one registry. No two harvesters have a source in common. Each
cleaner has its own clock.
-/
structure Crew where
  harvesters : List Harvester
  cleaners : List (List Timestamp)
  disjoint : harvesters.Pairwise fun a b => a.ids.Disjoint b.ids

def Crew.parties (crew : Crew) : List (List Operation) :=
  crew.harvesters.map (·.operations) ++ crew.cleaners.map (·.map .cleanup)

namespace Harvester

variable {harvester : Harvester} {id : String}

theorem mem_ids_of_taken? {operation : Operation} (hmem : operation ∈ harvester.operations)
    {record : Record} (h : operation.taken? id = some record) : id ∈ harvester.ids := by
  obtain ⟨update, hupdate, rfl⟩ := List.mem_map.1 hmem
  rw [Operation.taken?] at h
  split at h
  . next hid =>
    rw [ids, List.mem_dedup]
    exact List.mem_map.2 ⟨update, hupdate, hid⟩
  . cases h

theorem exists_lastTaken? (h : id ∈ harvester.ids) :
    ∃ record, lastTaken? id harvester.operations = some record := by
  rw [ids, List.mem_dedup] at h
  obtain ⟨update, hupdate, hid⟩ := List.mem_map.1 h
  have htaken : (Operation.update update.1 update.2).taken? id =
      some { update.1 with timestamp := update.2 } := if_pos hid
  have hoperation : Operation.update update.1 update.2 ∈ harvester.operations :=
    List.mem_map.2 ⟨update, hupdate, rfl⟩
  have hmem := List.mem_filterMap.2 ⟨_, hoperation, htaken⟩
  exact Option.isSome_iff_exists.1 (List.getLast?_isSome.2 (List.ne_nil_of_mem hmem))

end Harvester

theorem survivor?_of_survives {updates run : List Operation} {id : String} {record : Record}
    (hlast : lastTaken? id updates = some record)
    (h : ∀ now ∈ cleanupsSince id run, record.isRemovable now = false) :
    survivor? id updates run = some record := by
  rw [survivor?, hlast, Option.filter_some, if_pos]
  rw [List.all_eq_true]
  intro now hmem
  rw [h now hmem]
  rfl

theorem survivor?_of_isRemovable {updates run : List Operation} {id : String} {record : Record}
    (hlast : lastTaken? id updates = some record) {now : Timestamp}
    (hmem : now ∈ cleanupsSince id run) (h : record.isRemovable now = true) :
    survivor? id updates run = none := by
  rw [survivor?, hlast, Option.filter_some, if_neg]
  intro hall
  have := List.all_eq_true.1 hall now hmem
  rw [h] at this
  cases this

theorem id_of_survivor? {updates run : List Operation} {id : String} {record : Record}
    (h : survivor? id updates run = some record) : record.id = id := by
  have hmem := List.mem_of_getLast? (Option.filter_eq_some_iff.1 h).1
  obtain ⟨operation, -, htaken⟩ := List.mem_filterMap.1 hmem
  exact Operation.id_of_taken? htaken

theorem Harvester.map_id_survivors (harvester : Harvester) (run : List Operation) :
    (harvester.survivors run).map (·.id) =
      harvester.ids.filter fun id => (survivor? id harvester.operations run).isSome := by
  rw [survivors, List.map_filterMap, ← List.filterMap_eq_filter]
  apply List.filterMap_congr
  intro id _
  cases hsurvivor : survivor? id harvester.operations run with
  | none => simp [Option.guard, hsurvivor]
  | some record => simp [Option.guard, hsurvivor, id_of_survivor? hsurvivor]

namespace Crew

variable {crew : Crew} {run : List Operation}

theorem goesOn_of_mem (h : Interleaves crew.parties run) {operation : Operation}
    (hmem : operation ∈ run) : operation.GoesOn := by
  obtain ⟨party, hparty, hmem⟩ := h.exists_party hmem
  rcases List.mem_append.1 hparty with hparty | hparty
  . obtain ⟨harvester, -, rfl⟩ := List.mem_map.1 hparty
    obtain ⟨update, -, rfl⟩ := List.mem_map.1 hmem
    trivial
  . obtain ⟨cleaner, -, rfl⟩ := List.mem_map.1 hparty
    obtain ⟨now, -, rfl⟩ := List.mem_map.1 hmem
    trivial

theorem exists_harvester {party : List Operation} {position : Nat}
    (hparty : crew.parties[position]? = some party) {operation : Operation} (hmem : operation ∈ party)
    {id : String} {record : Record} (htaken : operation.taken? id = some record) :
    ∃ harvester, crew.harvesters[position]? = some harvester ∧ id ∈ harvester.ids := by
  rw [parties, List.getElem?_append] at hparty
  split at hparty
  . rw [List.getElem?_map] at hparty
    obtain ⟨harvester, hharvester, rfl⟩ := Option.map_eq_some_iff.1 hparty
    exact ⟨harvester, hharvester, harvester.mem_ids_of_taken? hmem htaken⟩
  . obtain ⟨cleaner, -, rfl⟩ := List.mem_map.1 (List.mem_of_getElem? hparty)
    obtain ⟨now, -, rfl⟩ := List.mem_map.1 hmem
    cases htaken

theorem position_unique {place other : Nat} {a b : Harvester}
    (ha : crew.harvesters[place]? = some a) (hb : crew.harvesters[other]? = some b) {id : String}
    (hida : id ∈ a.ids) (hidb : id ∈ b.ids) : place = other := by
  obtain ⟨hplace, rfl⟩ := List.getElem?_eq_some_iff.1 ha
  obtain ⟨hother, rfl⟩ := List.getElem?_eq_some_iff.1 hb
  have hdisjoint := List.pairwise_iff_getElem.1 crew.disjoint
  rcases Nat.lt_trichotomy place other with hlt | heq | hlt
  . exact absurd hidb (hdisjoint place other hplace hother hlt hida)
  . exact heq
  . exact absurd hida (hdisjoint other place hother hplace hlt hidb)

theorem lastTaken?_of_mem_ids (h : Interleaves crew.parties run) {harvester : Harvester}
    (hharvester : harvester ∈ crew.harvesters) {id : String} (hid : id ∈ harvester.ids) :
    lastTaken? id run = lastTaken? id harvester.operations := by
  obtain ⟨position, hposition⟩ := List.mem_iff_getElem?.1 hharvester
  have hparty : crew.parties[position]? = some harvester.operations := by
    have hlt := (List.getElem?_eq_some_iff.1 hposition).1
    rw [parties, List.getElem?_append_left (by simpa using hlt), List.getElem?_map, hposition]
    rfl
  unfold lastTaken?
  rw [h.filterMap_eq _ hparty]
  intro place other hne hother operation hmem
  rw [Option.eq_none_iff_forall_ne_some]
  intro record htaken
  obtain ⟨owner, howner, howned⟩ := exists_harvester hother hmem htaken
  exact hne (position_unique howner hposition howned hid)

theorem lastTaken?_of_notMem_ids (h : Interleaves crew.parties run) {id : String}
    (hid : ∀ harvester ∈ crew.harvesters, id ∉ harvester.ids) : lastTaken? id run = none := by
  have hnone : run.filterMap (Operation.taken? id) = [] := by
    rw [List.filterMap_eq_nil_iff]
    intro operation hmem
    rw [Option.eq_none_iff_forall_ne_some]
    intro record htaken
    obtain ⟨party, hparty, hmem⟩ := h.exists_party hmem
    obtain ⟨position, hposition⟩ := List.mem_iff_getElem?.1 hparty
    obtain ⟨owner, howner, howned⟩ := exists_harvester hposition hmem htaken
    exact hid owner (List.mem_of_getElem? howner) howned
  unfold lastTaken?
  rw [hnone]
  rfl

theorem refines (h : Interleaves crew.parties run) :
    (afterAll run).Refines (Ledger.afterAll run) :=
  .afterAll fun _ hmem => Operation.isDistinct_of_goesOn (goesOn_of_mem h hmem)

theorem find?_of_mem_ids (h : Interleaves crew.parties run) {harvester : Harvester}
    (hharvester : harvester ∈ crew.harvesters) {id : String} (hid : id ∈ harvester.ids) :
    (afterAll run).find? id = survivor? id harvester.operations run := by
  rw [(refines h).find?, get?_ledger_afterAll fun _ => goesOn_of_mem h, survivor?, survivor?,
    lastTaken?_of_mem_ids h hharvester hid]

theorem find?_of_notMem_ids (h : Interleaves crew.parties run) {id : String}
    (hid : ∀ harvester ∈ crew.harvesters, id ∉ harvester.ids) : (afterAll run).find? id = none := by
  rw [(refines h).find?, get?_ledger_afterAll fun _ => goesOn_of_mem h, survivor?,
    lastTaken?_of_notMem_ids h hid]
  rfl

theorem nodup_survivors (crew : Crew) (run : List Operation) :
    ((crew.harvesters.flatMap fun harvester => harvester.survivors run).map (·.id)).Nodup := by
  rw [List.map_flatMap, List.nodup_flatMap]
  constructor
  . intro harvester _
    rw [harvester.map_id_survivors]
    exact (List.nodup_dedup _).filter _
  . refine crew.disjoint.imp ?_
    intro a b hdisjoint
    show List.Disjoint ((a.survivors run).map (·.id)) ((b.survivors run).map (·.id))
    rw [a.map_id_survivors, b.map_id_survivors]
    intro id hida hidb
    exact hdisjoint (List.mem_of_mem_filter hida) (List.mem_of_mem_filter hidb)

theorem records_perm (h : Interleaves crew.parties run) :
    (afterAll run).records.Perm
      (crew.harvesters.flatMap fun harvester => harvester.survivors run) := by
  have hrefines := refines h
  rw [List.perm_ext_iff_of_nodup (hrefines.complete.nodup.of_map _)
    ((crew.nodup_survivors run).of_map _)]
  intro record
  rw [List.mem_flatMap]
  constructor
  . intro hmem
    have hfind := hrefines.complete.find?_of_mem hmem
    by_cases howned : ∃ harvester ∈ crew.harvesters, record.id ∈ harvester.ids
    . obtain ⟨harvester, hharvester, hid⟩ := howned
      rw [find?_of_mem_ids h hharvester hid] at hfind
      exact ⟨harvester, hharvester, List.mem_filterMap.2 ⟨_, hid, hfind⟩⟩
    . rw [find?_of_notMem_ids h fun harvester hharvester hid => howned ⟨harvester, hharvester, hid⟩]
        at hfind
      cases hfind
  . rintro ⟨harvester, hharvester, hmem⟩
    obtain ⟨id, hid, hsurvivor⟩ := List.mem_filterMap.1 hmem
    rw [← find?_of_mem_ids h hharvester hid] at hsurvivor
    exact Sound.mem_of_find? hsurvivor

theorem survivor?_of_idle (h : Interleaves crew.parties run)
    (hidle : ∀ cleaner ∈ crew.cleaners, cleaner = []) (id : String) (updates : List Operation) :
    survivor? id updates run = lastTaken? id updates := by
  have hnone : cleanupsSince id run = [] := by
    apply cleanupsSince_eq_nil
    rintro _ hmem now rfl
    obtain ⟨party, hparty, hmem⟩ := h.exists_party hmem
    rcases List.mem_append.1 hparty with hparty | hparty
    . obtain ⟨harvester, -, rfl⟩ := List.mem_map.1 hparty
      obtain ⟨update, -, hupdate⟩ := List.mem_map.1 hmem
      cases hupdate
    . obtain ⟨cleaner, hcleaner, rfl⟩ := List.mem_map.1 hparty
      rw [hidle cleaner hcleaner] at hmem
      cases hmem
  rw [survivor?, hnone]
  cases lastTaken? id updates with
  | none => rfl
  | some record => rfl

/--
Harvesters and cleaners do not get in each other's way. At the end, the last record of each source is
found as its harvester has made it, unless a cleanup since then has found that it was to be removed, and
the records that are found in this way are all there are. A source that is not finished is never
lost, and where nobody cleans up, the turns do not matter at all.
-/
theorem afterAll_of_interleaves (crew : Crew) {run : List Operation}
    (h : Interleaves crew.parties run) :
    (∀ harvester ∈ crew.harvesters, ∀ id ∈ harvester.ids, ∃ record,
      lastTaken? id harvester.operations = some record ∧
      ((∀ now ∈ cleanupsSince id run, record.isRemovable now = false) →
        (afterAll run).find? id = some record) ∧
      ((∃ now ∈ cleanupsSince id run, record.isRemovable now = true) →
        (afterAll run).find? id = none) ∧
      (record.finished = false → (afterAll run).find? id = some record)) ∧
    (∀ id, (∀ harvester ∈ crew.harvesters, id ∉ harvester.ids) → (afterAll run).find? id = none) ∧
    ((afterAll run).records.map (·.id)).Nodup ∧
    (afterAll run).records.Perm
      (crew.harvesters.flatMap fun harvester => harvester.survivors run) ∧
    (afterAll run).size =
      (crew.harvesters.flatMap fun harvester => harvester.survivors run).length ∧
    ((∀ cleaner ∈ crew.cleaners, cleaner = []) → ∀ other, Interleaves crew.parties other →
      (∀ id, (afterAll other).find? id = (afterAll run).find? id) ∧
      (afterAll other).records.Perm (afterAll run).records) := by
  have hrefines := refines h
  refine ⟨?_, fun id => find?_of_notMem_ids h, hrefines.complete.nodup, records_perm h, ?_, ?_⟩
  . intro harvester hharvester id hid
    obtain ⟨record, hlast⟩ := Harvester.exists_lastTaken? hid
    rw [find?_of_mem_ids h hharvester hid]
    refine ⟨record, hlast, survivor?_of_survives hlast, ?_, ?_⟩
    . rintro ⟨now, hmem, hremovable⟩
      exact survivor?_of_isRemovable hlast hmem hremovable
    . intro hfinished
      apply survivor?_of_survives hlast
      intro now _
      rw [Record.isRemovable, hfinished, Bool.and_false]
  . exact (records_perm h).length_eq
  . intro hidle other hother
    -- each id has one owner at most, and without cleanups what is found is the owner's last record
    have hfind : ∀ id, (afterAll other).find? id = (afterAll run).find? id := by
      intro id
      by_cases howned : ∃ harvester ∈ crew.harvesters, id ∈ harvester.ids
      . obtain ⟨harvester, hharvester, hid⟩ := howned
        rw [find?_of_mem_ids h hharvester hid, find?_of_mem_ids hother hharvester hid,
          survivor?_of_idle h hidle, survivor?_of_idle hother hidle]
      . have hid : ∀ harvester ∈ crew.harvesters, id ∉ harvester.ids :=
          fun harvester hharvester hid => howned ⟨harvester, hharvester, hid⟩
        rw [find?_of_notMem_ids h hid, find?_of_notMem_ids hother hid]
    have hresembles : (afterAll run).Resembles (afterAll other) := {
      sound := hrefines.sound
      complete := hrefines.complete
      sound_other := (refines hother).sound
      complete_other := (refines hother).complete
      find? := hfind }
    exact ⟨hfind, hresembles.records_perm⟩

/--
A harvester whose source is finished and one whose source is still read, with a cleaner who comes
twice.
-/
def pair : Crew where
  harvesters := [
    ⟨[(⟨"done", "/done", 7, .epoch, .immediate, false⟩, .epoch),
      (⟨"done", "/done", 9, .epoch, .immediate, true⟩, .epoch)]⟩,
    ⟨[(⟨"live", "/live", 5, .epoch, .immediate, false⟩, .epoch)]⟩]
  cleaners := [[.epoch, .epoch]]
  disjoint := by simp [Harvester.ids]

/--
One order in which they may have their turns.
-/
def turns : List Operation := [
  .update ⟨"done", "/done", 7, .epoch, .immediate, false⟩ .epoch,
  .cleanup .epoch,
  .update ⟨"live", "/live", 5, .epoch, .immediate, false⟩ .epoch,
  .update ⟨"done", "/done", 9, .epoch, .immediate, true⟩ .epoch,
  .cleanup .epoch]

theorem afterAll_of_interleaves_pair :
    Interleaves pair.parties turns ∧
      (afterAll turns).find? "live" = some ⟨"live", "/live", 5, .epoch, .immediate, false⟩ ∧
      (afterAll turns).find? "done" = none ∧ (afterAll turns).size = 1 := by
  have hdone : ∀ party ∈ ([[], [], []] : List (List Operation)), party = [] := by simp
  have h : Interleaves pair.parties turns :=
    .turn 0 rfl <| .turn 2 rfl <| .turn 1 rfl <|
      .turn 0 rfl <| .turn 2 rfl <| .done hdone
  obtain ⟨hfound, -, -, -, hsize, -⟩ := afterAll_of_interleaves pair h
  obtain ⟨record, hlast, -, -, hlive⟩ := hfound _ (List.mem_cons_of_mem _ List.mem_cons_self) "live"
    (by decide)
  obtain ⟨last, hended, -, hgone, -⟩ := hfound _ List.mem_cons_self "done" (by decide)
  cases hlast
  cases hended
  exact ⟨h, hlive rfl, hgone ⟨.epoch, by decide, by decide⟩, hsize.trans (by decide)⟩

end Crew

end Registry

end ReadProgress
