import ReadProgress.Proofs.Database
import ReadProgress.Proofs.Snapshot
import ReadProgress.Proofs.Snapshot.Form
import ReadProgress.Store

/-!
This module contains the proof that a store restores what a store has written: from the database that
it was published in, and from the file after it has been opened again. What had been in the file
before, and how often something was brought back or could not be written, makes no difference.
-/

namespace ReadProgress

namespace Database

/--
In a scope of the database there is a document of the first version, from which a new store brings
back the rows of a view. They are the records of the registry that is restored, whatever was in there
before.
-/
structure Holds (db : Database) (name : String) (view : Snapshot) : Prop where
  document : ∃ document, (db.contents.scope name).get? Store.snapshotKey = some document ∧
    document.member? "version" = some (.integer 1)
  restores : ∀ registry, ∃ store restored,
    (Store.ofName name).restore registry db = (.ok (.rows view.size), store, restored) ∧
      store.view = view ∧ restored.size = view.size ∧
        ∀ id, restored.find? id = (view.row? id).map (·.toRecord id)

/--
A database holds a view, and so does the one that is found in the file when that is opened again, if
there is a file.
-/
def HoldsOn (disk : Disk) (path : Path) (db : Database) (name : String) (view : Snapshot) : Prop :=
  db.Holds name view ∧ (path.isEmpty = false →
    ∃ reopened, load disk path = (.ok reopened, disk) ∧ reopened.Holds name view)

/--
A database as a program finds it when it starts: one without a file, or what a file contains.
-/
inductive Opened : Database → Prop where
  | inMemory : Opened .inMemory
  | ofFile {disk disk' : Disk} {path : Path} {db : Database} (hpath : path.isEmpty = false)
    (h : load disk path = (.ok db, disk')) : Opened db

theorem Opened.regular {db : Database} (h : db.Opened) : db.contents.Regular := by
  cases h with
  | inMemory => exact Contents.regular_empty
  | ofFile _ h => exact (load_eq_ok h).2

end Database

namespace Store

variable {store : Store} {db : Database} {view : Snapshot}

theorem read_of_value {value : Json} {d : Json.Decoder α} {a : α}
    (h : store.draft.staged.get? snapshotKey = some value) (hvalue : d.value value = .ok a) :
    store.read d = .ok (some a) := by
  have hget : store.draft.get d snapshotKey = .ok (some a) := by
    unfold Draft.get
    rw [h]
    dsimp only
    rw [hvalue]
  unfold read
  rw [hget]

theorem read_eq_ok {d : Json.Decoder α} {a : α} (h : store.read d = .ok (some a)) :
    ∃ value, store.draft.staged.get? snapshotKey = some value ∧ d.value value = .ok a := by
  unfold read Draft.get at h
  cases hget : store.draft.staged.get? snapshotKey with
  | none =>
    rw [hget] at h
    cases h
  | some value =>
    rw [hget] at h
    dsimp only at h
    cases hvalue : d.value value with
    | error reason =>
      rw [hvalue] at h
      cases h
    | ok found =>
      rw [hvalue] at h
      cases h
      exact ⟨value, rfl, hvalue⟩

theorem snapshot?_of_staged (hview : view.Storable)
    (h : store.draft.staged.get? snapshotKey = some view.toJson) :
    store.snapshot? = .ok (some view) := by
  have hversion : store.read Snapshot.versionForm.decoder = .ok (some view.version) :=
    read_of_value h view.value_versionForm
  unfold snapshot?
  rw [hversion, hview.version_eq]
  exact read_of_value h (Snapshot.value_form hview.rows)

theorem storable_of_snapshot? (h : store.snapshot? = .ok (some view)) : view.Storable := by
  obtain ⟨version?, hversion, h⟩ := bind_eq_ok.1 h
  cases version? with
  | none => cases h
  | some version =>
    dsimp only at h
    split at h
    . next heq =>
      subst heq
      obtain ⟨value, hvalue, hversion⟩ := read_eq_ok hversion
      obtain ⟨value', hvalue', h⟩ := read_eq_ok h
      cases hvalue.symm.trans hvalue'
      exact Snapshot.storable_of_value hversion h
    . cases h

def stage (store : Store) : Store :=
  { store with draft := store.draft.put snapshotKey store.view.toJson }

theorem regular_stage (h : ∀ member ∈ store.draft.staged.entries, member.2.Regular 124) :
    ∀ member ∈ store.stage.draft.staged.entries, member.2.Regular 124 := by
  intro member hmem
  rcases Table.mem_entries_put hmem with rfl | hmem
  . exact store.view.regular_toJson 121
  . exact h member hmem

/--
A database in which the view of a store is published.
-/
def published (store : Store) (db : Database) : Database :=
  db.publish store.draft.name store.stage.draft.staged

theorem sync_eq (store : Store) (db : Database) (disk : Disk) :
    store.sync db disk =
      let flushed := (store.published db).flush disk
      (flushed.1, store.stage, store.published db, flushed.2) := rfl

theorem sync_eq_ok {store' : Store} {db' : Database} {disk disk' : Disk}
    (h : store.sync db disk = (.ok (), store', db', disk')) :
    store' = store.stage ∧ db' = store.published db ∧ db'.flush disk = (.ok (), disk') := by
  rw [sync_eq] at h
  obtain ⟨hresult, hrest⟩ := Prod.mk.inj h
  obtain ⟨hstore, hrest⟩ := Prod.mk.inj hrest
  obtain ⟨rfl, hdisk⟩ := Prod.mk.inj hrest
  exact ⟨hstore.symm, rfl, Prod.ext hresult hdisk⟩

theorem get?_published (store : Store) (db : Database) :
    ((store.published db).contents.scope store.draft.name).get? snapshotKey =
      some store.view.toJson := by
  rw [published, Database.scope_publish, if_pos rfl]
  exact (Table.get?_put _ _ _ _).trans (if_pos rfl)

/--
The store with a new snapshot of a registry as its view.
-/
def take (store : Store) (registry : Registry) : Store :=
  { store with view := .ofRecords registry.records }

theorem checkpoint_eq (store : Store) (registry : Registry) (db : Database) (disk : Disk) :
    store.checkpoint registry db disk =
      let written := (store.take registry).sync db disk
      (written.1.map fun _ => written.2.1.size, written.2) := by
  unfold checkpoint
  dsimp only
  split
  . next hsync =>
    rw [take, hsync]
    rfl
  . next hsync =>
    rw [take, hsync]
    rfl

theorem checkpoint_eq_ok {store' : Store} {registry : Registry} {db' : Database}
    {disk disk' : Disk} {count : Nat}
    (h : store.checkpoint registry db disk = (.ok count, store', db', disk')) :
    (store.take registry).sync db disk = (.ok (), store', db', disk') ∧ store'.size = count := by
  rw [checkpoint_eq] at h
  obtain ⟨hcount, hrest⟩ := Prod.mk.inj h
  obtain ⟨⟨⟩, hresult, hcount⟩ := map_eq_ok.1 hcount
  rw [hrest] at hcount
  exact ⟨Prod.ext hresult hrest, hcount⟩

/--
The store with the values that are published as its draft.
-/
def reload (store : Store) (db : Database) : Store :=
  { store with draft := store.draft.load db }

theorem draft_restore (store : Store) (registry : Registry) (db : Database) :
    (store.restore registry db).2.1.draft = (store.reload db).draft := by
  unfold restore
  dsimp only
  split <;> rfl

theorem storable_restore (h : store.view.Storable) (registry : Registry) (db : Database) :
    (store.restore registry db).2.1.view.Storable := by
  unfold restore
  dsimp only
  split
  . exact h
  . exact Snapshot.storable_empty
  . next hsnapshot => exact storable_of_snapshot? hsnapshot

theorem restore_of_scope (hview : view.Storable)
    (h : (db.contents.scope store.draft.name).get? snapshotKey = some view.toJson)
    (registry : Registry) :
    store.restore registry db = (.ok (.rows view.size),
      { store with draft := store.draft.load db, view := view }, .ofRecords view.toRecords) := by
  have hsnapshot : Store.snapshot? { store with draft := store.draft.load db } = .ok (some view) :=
    snapshot?_of_staged hview h
  unfold restore
  dsimp only
  rw [hsnapshot]

theorem holds_of_scope (hview : view.Storable) {name : String}
    (h : (db.contents.scope name).get? snapshotKey = some view.toJson) : db.Holds name view where
  document := by
    refine ⟨_, h, ?_⟩
    show some (Json.integer view.version.toNat) = _
    rw [hview.version_eq]
    rfl
  restores registry := ⟨_, _, @restore_of_scope (ofName name) _ _ hview h registry, rfl,
    view.size_ofRecords_toRecords, view.find?_ofRecords_toRecords⟩

end Store

/--
A store and the database that it works on.
-/
structure Archive where
  store : Store
  database : Database

namespace Archive

/--
What is done with a store. Whenever something is written, the disk may have changed in any way since
the last time.
-/
inductive Action where
  | restore (registry : Registry)
  | forget (id : String)
  | sync (disk : Disk)
  | checkpoint (registry : Registry) (disk : Disk)

/--
Whether no record that is written has the policy that would be read as another one.
-/
def Action.IsStorable : Action → Prop
  | checkpoint registry _ => ∀ record ∈ registry.records, record.ttl ≠ .after .zero
  | restore _ | forget _ | sync _ => True

def apply (archive : Archive) : Action → Archive
  | .restore registry =>
    { archive with store := (archive.store.restore registry archive.database).2.1 }
  | .forget id => { archive with store := archive.store.forget id }
  | .sync disk =>
    let (_, store, database, _) := archive.store.sync archive.database disk
    { store, database }
  | .checkpoint registry disk =>
    let (_, store, database, _) := archive.store.checkpoint registry archive.database disk
    { store, database }

theorem apply_checkpoint (archive : Archive) (registry : Registry) (disk : Disk) :
    archive.apply (.checkpoint registry disk) =
      apply { archive with store := archive.store.take registry } (.sync disk) := by
  unfold apply
  dsimp only
  rw [Store.checkpoint_eq]

def afterAll (name : String) (db : Database) (actions : List Action) : Archive :=
  actions.foldl apply ⟨.ofName name, db⟩

/--
What depends on nothing but the draft and the database is kept by all actions if it is kept when the
draft is loaded and when something is written.
-/
theorem apply_keeps {P : Archive → Prop}
    (hview : ∀ (archive : Archive) (store : Store), store.draft = archive.store.draft → P archive →
      P { archive with store })
    (hload : ∀ archive, P archive →
      P { archive with store := archive.store.reload archive.database })
    (hsync : ∀ archive disk, P archive → P (archive.apply (.sync disk))) {archive : Archive}
    (h : P archive) (action : Action) : P (archive.apply action) := by
  cases action with
  | restore registry =>
    exact hview { archive with store := archive.store.reload archive.database } _
      (archive.store.draft_restore registry archive.database) (hload archive h)
  | forget id => exact hview archive (archive.store.forget id) rfl h
  | sync disk => exact hsync archive disk h
  | checkpoint registry disk =>
    rw [apply_checkpoint]
    exact hsync _ disk (hview archive (archive.store.take registry) rfl h)

/--
All that is in the store and in the database can be read again once it has been written, except maybe
the view.
-/
structure Legible (name : String) (path : Path) (archive : Archive) : Prop where
  name_eq : archive.store.draft.name = name
  path_eq : archive.database.path = path
  staged : ∀ member ∈ archive.store.draft.staged.entries, member.2.Regular 124
  contents : archive.database.contents.Regular

/--
All that is in the store and in the database can be written and read again.
-/
structure Sane (name : String) (path : Path) (archive : Archive) : Prop
    extends Legible name path archive where
  view : archive.store.view.Storable

section

variable {name : String} {path : Path} {archive : Archive}

theorem legible_ofName {db : Database} (hdb : db.contents.Regular) :
    Legible name db.path ⟨.ofName name, db⟩ :=
  ⟨rfl, rfl, fun _ hmem => absurd hmem List.not_mem_nil, hdb⟩

theorem Legible.congr (h : archive.Legible name path) {store : Store}
    (hdraft : store.draft = archive.store.draft) : Legible name path { archive with store } := by
  refine ⟨?_, h.path_eq, ?_, h.contents⟩
  . rw [hdraft]
    exact h.name_eq
  . rw [hdraft]
    exact h.staged

theorem Legible.apply (h : archive.Legible name path) (action : Action) :
    (archive.apply action).Legible name path := by
  refine apply_keeps ?_ ?_ ?_ h action
  . exact fun _ _ hdraft h => h.congr hdraft
  . exact fun _ h => { h with staged := h.contents.scope _ }
  . intro archive disk h
    have hstaged := Store.regular_stage h.staged
    exact { h with
      staged := hstaged
      contents := h.contents.put _ hstaged }

theorem Legible.afterAll {db : Database} (hdb : db.contents.Regular) (actions : List Action) :
    (afterAll name db actions).Legible name db.path :=
  List.foldlRecOn actions _ (legible_ofName hdb) fun _ h action _ => h.apply action

theorem Sane.apply (h : archive.Sane name path) (action : Action) (haction : action.IsStorable) :
    (archive.apply action).Sane name path := by
  refine ⟨h.toLegible.apply action, ?_⟩
  cases action with
  | restore registry => exact Store.storable_restore h.view registry archive.database
  | forget id => exact h.view.erase id
  | sync disk => exact h.view
  | checkpoint registry disk =>
    show (archive.store.checkpoint registry archive.database disk).2.1.view.Storable
    rw [Store.view_checkpoint]
    exact Snapshot.storable_ofRecords haction

theorem sane_afterAll {db : Database} (hdb : db.contents.Regular) {actions : List Action}
    (h : ∀ action ∈ actions, action.IsStorable) : (afterAll name db actions).Sane name db.path :=
  List.foldlRecOn actions _ ⟨legible_ofName hdb, Snapshot.storable_empty⟩
    fun _ hsane action hmem => hsane.apply action (h action hmem)

/-
What is read from the file has passed through text. The view has nothing in it that would not come
back as it was.
-/
theorem Sane.holds_of_sync (h : archive.Sane name path) {disk disk' : Disk} {store : Store}
    {db : Database} (hsync : archive.store.sync archive.database disk = (.ok (), store, db, disk')) :
    db.HoldsOn disk' path name store.view := by
  obtain ⟨hstore, hpublished, hflush⟩ := Store.sync_eq_ok hsync
  have hget : (db.contents.scope name).get? Store.snapshotKey = some store.view.toJson := by
    rw [hpublished, hstore, ← h.name_eq]
    exact archive.store.get?_published archive.database
  have hview : store.view.Storable := by
    rw [hstore]
    exact h.view
  have hregular : db.contents.Regular := by
    rw [hpublished]
    exact h.contents.put _ (Store.regular_stage h.staged)
  have hsame : db.path = path := by
    rw [hpublished, ← h.path_eq]
    rfl
  refine ⟨Store.holds_of_scope hview hget, fun hpath => ?_⟩
  rw [← hsame] at hpath
  have hload := Database.load_of_flush hregular hpath hflush
  rw [hsame] at hload
  refine ⟨_, hload, Store.holds_of_scope hview ?_⟩
  show (db.contents.reread.scope name).get? Store.snapshotKey = _
  rw [Contents.get?_scope_reread, hget, Option.map_some, store.view.exact_toJson.reread_eq]

/--
Where a checkpoint has been written, the rows of the registry are held from then on. What the view was
before does not matter.
-/
theorem Legible.holds_of_checkpoint (h : archive.Legible name path) {registry : Registry}
    (hregistry : ∀ record ∈ registry.records, record.ttl ≠ .after .zero) {disk disk' : Disk}
    {store : Store} {db : Database} {count : Nat}
    (hcheckpoint : archive.store.checkpoint registry archive.database disk =
      (.ok count, store, db, disk')) :
    count = store.size ∧ store.view = .ofRecords registry.records ∧
      db.HoldsOn disk' path name store.view := by
  have htaken : Sane name path { archive with store := archive.store.take registry } :=
    ⟨h.congr rfl, Snapshot.storable_ofRecords hregistry⟩
  obtain ⟨hsync, hcount⟩ := Store.checkpoint_eq_ok hcheckpoint
  have hview := archive.store.view_checkpoint registry archive.database disk
  rw [hcheckpoint] at hview
  exact ⟨hcount.symm, hview, htaken.holds_of_sync hsync⟩

end

/--
A registry with a record of one source.
-/
def oneSource : Registry :=
  .ofRecords [⟨"a", "/a", 5, default, .never, false⟩]

/--
A store that has failed to write that record, has brought back what it had published nevertheless and
then dropped it.
-/
def disturbed : Archive :=
  afterAll "registry" ⟨⟨"r"⟩, .empty⟩
    [.checkpoint oneSource { Disk.ofDirectory [] 7 with faults := [some ⟨.rename, .busy, 0⟩] },
      .restore oneSource, .forget "a"]

end Archive

end ReadProgress
