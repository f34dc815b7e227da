import ReadProgress.Proofs.Durability

/-!
This module contains the proof that the view of a store mirrors the registry, but for what has been
taken in since a snapshot was taken last. A row that is dropped because its record is removed is a row
that a new snapshot would not have either.
-/

namespace ReadProgress

/--
The ids that are not to be looked up in a store any more after a chore, given those from before.
-/
def Chore.stale (ids : List String) : Chore → List String
  | update record _ => record.id :: ids
  | cleanup _ => ids
  | checkpoint => []

/--
The ids of the records that have been taken in since the last checkpoint, whether or not that could be
written, or since the beginning if there was none.
-/
def Chore.staleAfter (chores : List Chore) : List String :=
  chores.foldl Chore.stale []

namespace House

def afterAll (house : House) (chores : List Chore) : House :=
  chores.foldl (fun house chore => (house.perform chore).2) house

theorem version_foldl_forget (store : Store) (ids : List String) :
    (ids.foldl Store.forget store).view.version = store.view.version := by
  induction ids generalizing store with
  | nil => rfl
  | cons id ids ih => exact ih (store.forget id)

/--
The rows of the store are those that a new snapshot would have, but for some ids.
-/
structure Mirrors (ids : List String) (house : House) : Prop where
  complete : house.registry.Complete
  sound : house.registry.Sound
  version_eq : house.keeper.store.view.version = Snapshot.currentVersion
  row? : ∀ id, id ∉ ids →
    house.keeper.store.row? id = (house.registry.find? id).map Row.ofRecord

namespace Mirrors

variable {house : House} {ids : List String}

theorem prepare (h : house.Mirrors ids) (chore : Chore) :
    (house.prepare chore).Mirrors (chore.stale ids) := by
  cases chore with
  | update record moment =>
    refine ⟨h.complete.update record moment, h.sound.update record moment, h.version_eq, ?_⟩
    intro id hid
    rw [Chore.stale, List.mem_cons, not_or] at hid
    obtain ⟨hne, hid⟩ := hid
    refine (h.row? id hid).trans ?_
    rw [← h.sound.find?_update record moment id |>.trans (if_neg hne)]
    rfl
  | cleanup now =>
    refine ⟨h.complete.cleanup now, h.sound.cleanup now,
      (version_foldl_forget _ _).trans h.version_eq, ?_⟩
    intro id hid
    -- The ids whose rows are dropped are those whose records are removed.
    have hfind := Registry.find?_cleanup h.complete h.sound now id
    refine (house.row?_prepare_cleanup now id).trans ?_
    change _ = ((house.registry.cleanup now).2.find? id).map Row.ofRecord
    rw [hfind]
    split
    . rfl
    . exact h.row? id hid
  | checkpoint =>
    refine ⟨h.complete, h.sound, rfl, ?_⟩
    intro id _
    exact row?_prepare_checkpoint h.complete h.sound id

theorem perform (h : house.Mirrors ids) (chore : Chore) :
    (house.perform chore).2.Mirrors (chore.stale ids) := by
  have hprepared := h.prepare chore
  rw [perform_eq]
  split
  . exact ⟨hprepared.complete, hprepared.sound, hprepared.version_eq, hprepared.row?⟩
  . exact hprepared

theorem afterAll (h : house.Mirrors []) (chores : List Chore) :
    (house.afterAll chores).Mirrors (Chore.staleAfter chores) := by
  unfold House.afterAll Chore.staleAfter
  induction chores using List.reverseRecOn with
  | nil => exact h
  | append_singleton chores chore ih =>
    rw [List.foldl_append, List.foldl_append]
    exact ih.perform chore

theorem view_eq (h : house.Mirrors []) :
    house.keeper.store.view = .ofRecords house.registry.records := by
  refine Snapshot.eq_of_row? h.version_eq fun id => ?_
  exact (h.row? id List.not_mem_nil).trans (row?_prepare_checkpoint h.complete h.sound id).symm

theorem of_restore {config : Config} {disk opened : Disk} {restoration : Restoration}
    {keeper : Housekeeper} {registry : Registry} {db : Database}
    (hopen : Housekeeper.restore config .empty disk =
      (.ok (restoration, keeper, registry, db), opened)) :
    Mirrors [] ⟨registry, keeper, db, opened⟩ := by
  have horder := InOrder.of_restore hopen
  refine ⟨horder.complete, horder.sound, horder.archive.view.version_eq, ?_⟩
  intro id _
  obtain ⟨rfl, -⟩ := Housekeeper.registry_of_restore hopen
  rw [Snapshot.find?_ofRecords_toRecords, Option.map_map]
  cases hrow : keeper.store.view.row? id <;> exact hrow

end Mirrors

/--
Whatever a housekeeper does who has opened a file, and whichever writings fail, the row of an id and
its record in the registry are the same unless a record with that id has been taken in since the last
checkpoint. Where none has been taken in at all, the view that is left of the last snapshot after any
number of cleanups is the one that a new snapshot would have.
-/
theorem row?_of_notMem_staleAfter {config : Config} {disk opened : Disk} {restoration : Restoration}
    {keeper : Housekeeper} {registry : Registry} {db : Database}
    (hopen : Housekeeper.restore config .empty disk =
      (.ok (restoration, keeper, registry, db), opened)) (chores : List Chore) :
    let house := afterAll ⟨registry, keeper, db, opened⟩ chores
    (∀ id, id ∉ Chore.staleAfter chores →
      house.keeper.store.row? id = (house.registry.find? id).map Row.ofRecord) ∧
    (Chore.staleAfter chores = [] →
      house.keeper.store.view = .ofRecords house.registry.records) := by
  intro house
  have hmirrors : house.Mirrors (Chore.staleAfter chores) := (Mirrors.of_restore hopen).afterAll chores
  refine ⟨hmirrors.row?, fun hnone => ?_⟩
  rw [hnone] at hmirrors
  exact hmirrors.view_eq

theorem row?_of_notMem_staleAfter_unwritten :
    let gone : Record := ⟨"gone", "/gone", 3, .epoch, .immediate, true⟩
    let stays : Record := ⟨"b", "/b", 7, .epoch, .never, true⟩
    let chores : List Chore := [.update gone .epoch, .update stays .epoch, .checkpoint,
      .cleanup .epoch, .update firstRecord .epoch]
    Housekeeper.restore nearby .empty failingOnce =
        (.ok (.fresh, untouched.keeper, untouched.registry, untouched.database), untouched.disk) ∧
      Chore.staleAfter chores = ["a"] ∧
      (untouched.afterAll chores).keeper.store.row? "gone" = none ∧
      (untouched.afterAll chores).keeper.store.row? "b" = some (Row.ofRecord stays) := by
  intro gone stays chores
  have hopen : Housekeeper.restore nearby .empty failingOnce =
      (.ok (.fresh, untouched.keeper, untouched.registry, untouched.database), untouched.disk) := rfl
  have heta : House.mk untouched.registry untouched.keeper untouched.database untouched.disk =
      untouched := rfl
  have hrow := (row?_of_notMem_staleAfter hopen chores).1
  rw [heta] at hrow
  have hstale : Chore.staleAfter chores = ["a"] := rfl
  have hgone : (untouched.afterAll chores).registry.find? "gone" = none := by decide +kernel
  have hstays : (untouched.afterAll chores).registry.find? "b" = some stays := by decide +kernel
  refine ⟨hopen, hstale, ?_, ?_⟩
  . rw [hrow "gone" (by decide), hgone, Option.map_none]
  . rw [hrow "b" (by decide), hstays, Option.map_some]

end House

end ReadProgress
