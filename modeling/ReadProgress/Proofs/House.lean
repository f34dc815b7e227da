import ReadProgress.Proofs.Registry.Agreement
import ReadProgress.Proofs.Registry.Refusal
import ReadProgress.Proofs.Restoration
import ReadProgress.Proofs.Store

/-!
This module contains what may happen in a house, and what becomes of its registry, its store and its
file. Rows are written at the end of a chore or not at all, and where that fails, whoever starts again
finds what was there before.
-/

namespace ReadProgress

/--
What may happen in a house.
-/
inductive Chore where
  | update (record : Record) (moment : Timestamp)
  | cleanup (now : Timestamp)
  | checkpoint

/--
Whether no record is taken in whose policy would be read as another one.
-/
def Chore.IsStorable : Chore → Prop
  | update record _ => record.ttl ≠ .after .zero
  | cleanup _ | checkpoint => True

namespace House

/--
Do something in a house. The answer is whether rows have been written.
-/
def perform (house : House) : Chore → Bool × House
  | .update record moment => (false, { house with registry := house.registry.update record moment })
  | .cleanup now =>
    let (tidying, house) := house.cleanup now
    (!tidying.cleanup.removed.isEmpty && tidying.failure.isNone, house)
  | .checkpoint =>
    let (result, house) := house.checkpoint
    (result.isOk, house)

/--
Do what comes before the rows of the store are written.
-/
def prepare (house : House) : Chore → House
  | .update record moment => { house with registry := house.registry.update record moment }
  | .cleanup now =>
    let (cleanup, registry) := house.registry.cleanup now
    { house.setStore (cleanup.removed.foldl Store.forget house.keeper.store) with registry }
  | .checkpoint => house.setStore (house.keeper.store.take house.registry)

/--
Whether it is tried to write the rows of the store.
-/
def writes (house : House) : Chore → Bool
  | .update _ _ => false
  | .cleanup now => !(house.registry.cleanup now).1.removed.isEmpty
  | .checkpoint => true

theorem cleanup_of_removed {house : House} {now : Timestamp}
    (h : (house.registry.cleanup now).1.removed ≠ []) :
    (house.cleanup now).1.cleanup = (house.registry.cleanup now).1 ∧
      (house.cleanup now).1.failure.isNone = (house.prepare (.cleanup now)).sync.1.isOk ∧
      (house.cleanup now).2 = (house.prepare (.cleanup now)).sync.2 := by
  unfold cleanup
  dsimp only
  rw [if_neg h]
  split
  . next next hsync =>
    change (house.prepare (.cleanup now)).sync = _ at hsync
    rw [hsync]
    exact ⟨rfl, rfl, rfl⟩
  . next next hsync =>
    change (house.prepare (.cleanup now)).sync = _ at hsync
    rw [hsync]
    exact ⟨rfl, rfl, rfl⟩

theorem perform_eq (house : House) (chore : Chore) :
    house.perform chore =
      if house.writes chore then
        ((house.prepare chore).sync.1.isOk, (house.prepare chore).sync.2)
      else
        (false, house.prepare chore) := by
  cases chore with
  | update record moment => rfl
  | cleanup now =>
    by_cases hremoved : (house.registry.cleanup now).1.removed = []
    . have hcleanup : house.cleanup now =
          (⟨(house.registry.cleanup now).1, none⟩, house.prepare (.cleanup now)) := if_pos hremoved
      simp [perform, writes, hcleanup, hremoved]
    . obtain ⟨hcleanup, hfailure, hnext⟩ := cleanup_of_removed hremoved
      simp [perform, writes, hcleanup, hfailure, hnext, hremoved]
  | checkpoint =>
    simp only [perform, checkpoint, writes, prepare, Store.checkpoint_eq, sync, setStore]
    rcases (house.keeper.store.take house.registry).sync house.database house.disk with
      ⟨e | done, store, database, disk⟩ <;> rfl

end House

namespace Disk

variable {disk disk' : Disk} {config : Config} {view : Snapshot}

/--
Whoever starts with an empty registry finds the rows of a view, and nothing else.
-/
def Brings (disk : Disk) (config : Config) (view : Snapshot) : Prop :=
  ∃ restoration keeper registry db disk',
    Housekeeper.restore config .empty disk = (.ok (restoration, keeper, registry, db), disk') ∧
      restoration.count = view.size ∧ keeper.store.view = view ∧ registry.size = view.size ∧
      ∀ id, registry.find? id = (view.row? id).map (·.toRecord id)

theorem brings_of_load {store store' : Store} {db : Database} {restoration : Restoration}
    {registry : Registry} (hfault : config.fault? = none)
    (hload : (Store.load disk config.statesPath).1 = .ok (store, db))
    (hrestore : store.restore .empty db = (.ok restoration, store', registry))
    (hcount : restoration.count = view.size) (hview : store'.view = view)
    (hsize : registry.size = view.size)
    (hfind : ∀ id, registry.find? id = (view.row? id).map (·.toRecord id)) :
    disk.Brings config view := by
  have hopen : Housekeeper.restore config .empty disk = _ :=
    Housekeeper.restore_of_load hfault (Prod.ext hload rfl)
  rw [hrestore] at hopen
  exact ⟨restoration, _, registry, db, _, hopen, hcount, hview, hsize, hfind⟩

theorem brings_of_holds {db : Database} (hfault : config.fault? = none)
    (hload : Database.load disk config.statesPath = (.ok db, disk'))
    (hholds : db.Holds Store.defaultScope view) : disk.Brings config view := by
  obtain ⟨store, restored, hrestore, hview, hsize, hfind⟩ := hholds.restores .empty
  have hopen : (Store.load disk config.statesPath).1 = .ok (.ofName Store.defaultScope, db) := by
    rw [Store.load, hload]
  exact brings_of_load hfault hopen hrestore rfl hview hsize hfind

theorem Brings.unique {other : Snapshot} (h : disk.Brings config view)
    (h' : disk.Brings config other) : other = view := by
  obtain ⟨_, _, _, _, _, hrestore, -, hview, -⟩ := h
  obtain ⟨_, _, _, _, _, hrestore', -, hview', -⟩ := h'
  rw [hrestore] at hrestore'
  cases hrestore'
  rw [← hview, ← hview']

theorem Brings.congr (h : disk.Brings config view) (hsteady : disk.Steady config.statesPath)
    (hsteady' : disk'.Steady config.statesPath)
    (hcontent : disk'.content? config.statesPath = disk.content? config.statesPath) :
    disk'.Brings config view := by
  obtain ⟨restoration, keeper, registry, db, next, hrestore, hcount, hview, hsize, hfind⟩ := h
  have hload : (Store.load disk' config.statesPath).1 = (Store.load disk config.statesPath).1 := by
    unfold Store.load
    rw [Database.load_of_steady hsteady, Database.load_of_steady hsteady', hcontent]
    cases Database.ofContent config.statesPath (disk.content? config.statesPath) <;> rfl
  -- The store is made from the file alone, and all else from the store.
  obtain ⟨hfault, store, hopen, hresult⟩ := Housekeeper.restore_eq_ok hrestore
  rw [hopen] at hload
  exact brings_of_load hfault hload hresult hcount hview hsize hfind

end Disk

namespace House

variable {house : House} {config : Config} {chore : Chore}

/--
All that is in a house can be written and read again.
-/
structure InOrder (config : Config) (house : House) : Prop where
  archive : Archive.Sane Store.defaultScope config.statesPath ⟨house.keeper.store, house.database⟩
  ttls : ∀ record ∈ house.registry.records, record.ttl ≠ .after .zero
  complete : house.registry.Complete
  sound : house.registry.Sound

/--
All that is in a house can be written and read again, and the file can be found.
-/
structure Fit (config : Config) (house : House) : Prop extends House.InOrder config house where
  steady : house.disk.Steady config.statesPath

theorem disk_prepare (house : House) (chore : Chore) : (house.prepare chore).disk = house.disk := by
  cases chore <;> rfl

theorem view_perform (house : House) (chore : Chore) :
    (house.perform chore).2.keeper.store.view = (house.prepare chore).keeper.store.view := by
  rw [perform_eq]
  split <;> rfl

theorem registry_perform (house : House) (chore : Chore) :
    (house.perform chore).2.registry = (house.prepare chore).registry := by
  rw [perform_eq]
  split <;> rfl

theorem config_perform (house : House) (chore : Chore) :
    (house.perform chore).2.keeper.config = house.keeper.config := by
  rw [perform_eq]
  split <;> cases chore <;> rfl

namespace InOrder

theorem of_restore {disk opened : Disk} {restoration : Restoration} {keeper : Housekeeper}
    {registry : Registry} {db : Database}
    (hopen : Housekeeper.restore config .empty disk =
      (.ok (restoration, keeper, registry, db), opened)) :
    InOrder config ⟨registry, keeper, db, opened⟩ := by
  obtain ⟨-, store, hload, hrestore⟩ := Housekeeper.restore_eq_ok hopen
  obtain ⟨rfl, hdb⟩ := Store.load_eq_ok hload
  obtain ⟨hpath, hregular⟩ := Database.load_eq_ok hdb
  have hstart : (Archive.afterAll Store.defaultScope db []).Sane Store.defaultScope db.path :=
    Archive.sane_afterAll hregular (by simp)
  have harchive := hstart.apply (.restore .empty) trivial
  change Archive.Sane _ _
    ⟨((Store.ofName Store.defaultScope).restore .empty db).2.1, db⟩ at harchive
  rw [hrestore, hpath] at harchive
  obtain ⟨rfl, -⟩ := Housekeeper.registry_of_restore hopen
  -- The records were made from the rows of a snapshot, which has no id twice.
  refine ⟨harchive, ?_, ?_, Registry.sound_ofRecords _⟩
  . intro record hrecord
    obtain ⟨row, hrow, rfl⟩ := List.mem_map.1 hrecord
    exact harchive.view.rows row hrow
  . exact Registry.complete_ofRecords (Snapshot.nodup_toRecords _)

theorem sane_foldl_forget {name : String} {path : Path} {store : Store} {database : Database}
    (h : Archive.Sane name path ⟨store, database⟩) (ids : List String) :
    Archive.Sane name path ⟨ids.foldl Store.forget store, database⟩ := by
  induction ids generalizing store with
  | nil => exact h
  | cons id ids ih => exact ih (h.apply (.forget id) trivial)

theorem prepare (h : house.InOrder config) (hchore : chore.IsStorable) :
    (house.prepare chore).InOrder config := by
  cases chore with
  | update record moment =>
    have hsound := h.sound.update record moment
    have hcomplete := h.complete.update record moment
    refine { h with complete := hcomplete, sound := hsound, ttls := ?_ }
    intro other hother
    -- A record of the list is found, and what is found is the new one or was there before.
    have hfind := hcomplete.find?_of_mem hother
    rw [h.sound.find?_update] at hfind
    split at hfind
    . cases hfind
      exact hchore
    . exact h.ttls other ((h.complete.find?_iff_mem h.sound).1 hfind).1
  | cleanup now =>
    refine { h with
      archive := sane_foldl_forget h.archive _
      complete := h.complete.cleanup now
      sound := h.sound.cleanup now
      ttls := ?_ }
    intro record hrecord
    exact h.ttls record (Registry.mem_cleanup.1 hrecord).1
  | checkpoint =>
    exact { h with archive := { h.archive with view := Snapshot.storable_ofRecords h.ttls } }

theorem sync (h : house.InOrder config) : house.sync.2.InOrder config :=
  { h with archive := h.archive.apply (.sync house.disk) trivial }

theorem perform (h : house.InOrder config) (hchore : chore.IsStorable) :
    (house.perform chore).2.InOrder config := by
  rw [perform_eq]
  split
  . exact (h.prepare hchore).sync
  . exact h.prepare hchore

theorem brings_of_sync (h : house.InOrder config) (hfault : config.fault? = none)
    (hpath : config.statesPath.isEmpty = false) (hsync : house.sync.1.isOk = true) :
    house.sync.2.disk.Brings config house.keeper.store.view := by
  rcases hresult : house.keeper.store.sync house.database house.disk with ⟨result, store, db, disk⟩
  have hhouse : house.sync = (result, { house.setStore store with database := db, disk }) := by
    unfold House.sync
    rw [hresult]
  rw [hhouse] at hsync ⊢
  cases result with
  | error e => cases hsync
  | ok done =>
    have hview : store.view = house.keeper.store.view := by
      have := congrArg (·.2.1.view) hresult
      exact this.symm
    obtain ⟨-, hreopened⟩ := h.archive.holds_of_sync hresult
    obtain ⟨reopened, hload, hholds⟩ := hreopened hpath
    rw [hview] at hholds
    exact Disk.brings_of_holds hfault hload hholds

end InOrder

namespace Fit

theorem prepare (h : house.Fit config) (hchore : chore.IsStorable) :
    (house.prepare chore).Fit config := by
  have hsteady := h.steady
  rw [← disk_prepare house chore] at hsteady
  exact ⟨h.toInOrder.prepare hchore, hsteady⟩

theorem sync (h : house.Fit config) (hpath : config.statesPath.isEmpty = false) :
    house.sync.2.Fit config ∧ house.sync.2.disk.content? config.statesPath =
      if house.sync.1.isOk then
        some (house.keeper.store.published house.database).contents.written
      else
        house.disk.content? config.statesPath := by
  have hsame : (house.keeper.store.published house.database).path = config.statesPath :=
    h.archive.path_eq
  rw [← hsame] at hpath
  have hdisk : house.disk.Steady (house.keeper.store.published house.database).path := by
    rw [hsame]
    exact h.steady
  obtain ⟨hsteady, hcontent⟩ := Database.steady_flush hpath hdisk
  rw [hsame] at hsteady hcontent
  exact ⟨⟨h.toInOrder.sync, hsteady⟩, hcontent⟩

theorem perform (h : house.Fit config) (hpath : config.statesPath.isEmpty = false)
    (hchore : chore.IsStorable) : (house.perform chore).2.Fit config := by
  rw [perform_eq]
  split
  . exact ((h.prepare hchore).sync hpath).1
  . exact h.prepare hchore

end Fit

theorem Fit.content?_perform (h : house.Fit config) (hpath : config.statesPath.isEmpty = false)
    (hchore : chore.IsStorable) (hwritten : (house.perform chore).1 = false) :
    (house.perform chore).2.disk.content? config.statesPath =
      house.disk.content? config.statesPath := by
  rw [perform_eq] at hwritten ⊢
  split at hwritten
  . next hwrites =>
    rw [if_pos hwrites, ((h.prepare hchore).sync hpath).2]
    dsimp only at hwritten
    rw [hwritten, if_neg Bool.false_ne_true, disk_prepare]
  . next hwrites =>
    rw [if_neg hwrites]
    dsimp only
    rw [disk_prepare]

theorem row?_foldl_forget (store : Store) (ids : List String) (id : String) :
    (ids.foldl Store.forget store).view.row? id =
      if id ∈ ids then none else store.view.row? id := by
  induction ids generalizing store with
  | nil => rfl
  | cons other ids ih =>
    rw [List.foldl_cons, ih, Store.view_forget, Snapshot.row?_erase]
    by_cases hother : id = other
    . simp [hother]
    . simp [hother]

theorem row?_prepare_cleanup (house : House) (now : Timestamp) (id : String) :
    (house.prepare (.cleanup now)).keeper.store.view.row? id =
      if id ∈ (house.registry.cleanup now).1.removed then none
      else house.keeper.store.view.row? id :=
  row?_foldl_forget _ _ _

theorem row?_prepare_checkpoint (hcomplete : house.registry.Complete)
    (hsound : house.registry.Sound) (id : String) :
    (house.prepare .checkpoint).keeper.store.view.row? id =
      (house.registry.find? id).map Row.ofRecord := by
  apply (hsound.row?_ofRecords_iff id).2
  exact ((Registry.complete_iff.1 hcomplete id).findsLast hsound).find?_copy

end House

end ReadProgress
