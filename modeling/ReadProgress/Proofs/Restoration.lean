import ReadProgress.Housekeeper
import ReadProgress.Proofs.Database
import ReadProgress.Proofs.Snapshot
import ReadProgress.Proofs.Snapshot.Reading
import ReadProgress.Proofs.Timespan.Overflow

/-!
This module contains what comes of bringing back the records of a snapshot. Either all of them are
brought back or none, and there is one kind of text in a file that no restoration survives.
-/

namespace ReadProgress

open Json (Decoder)

namespace Store

variable {store : Store} {registry : Registry} {db : Database} {value : Json}

/--
The value that the snapshot is read from, if there is one.
-/
def kept? (store : Store) (db : Database) : Option Json :=
  (db.contents.scope store.draft.name).get? snapshotKey

/--
What may come of bringing back records. If there is no value to read them from, the registry stays as
it is. If the value is read as a snapshot, its records are in the registry, and no others. In all
other cases nothing changes but the draft, which has been loaded.
-/
inductive Restores (store : Store) (registry : Registry) (db : Database) :
    Except Error Restoration → Store → Registry → Prop where
  | fresh (hkept : store.kept? db = none) :
      Restores store registry db (.ok .fresh) ⟨store.draft.load db, .empty⟩ registry
  | rows (value : Json) (snapshot : Snapshot) (hkept : store.kept? db = some value)
      (hread : snapshot.IsReadFrom value) :
      Restores store registry db (.ok (.rows snapshot.size)) ⟨store.draft.load db, snapshot⟩
        (.ofRecords snapshot.toRecords)
  | corrupted (value : Json) (cause : Corruption) (hkept : store.kept? db = some value)
      (hread : ∀ snapshot : Snapshot, ¬ snapshot.IsReadFrom value) :
      Restores store registry db (.error (.corrupted cause)) ⟨store.draft.load db, store.view⟩ registry
  | crashed (value : Json) (text : String) (hkept : store.kept? db = some value)
      (hread : ∀ snapshot : Snapshot, ¬ snapshot.IsReadFrom value)
      (httl : Snapshot.HasTtl value text) (htext : Ttl.read text = .error .secondsOverflow) :
      Restores store registry db (.error (.crash .secondsOverflow)) ⟨store.draft.load db, store.view⟩
        registry

theorem read_of_none {α : Type} (d : Decoder α) (h : store.kept? db = none) :
    read ⟨store.draft.load db, store.view⟩ d = .ok none := by
  have hget : (store.draft.load db).staged.get? snapshotKey = none := h
  simp only [read, Draft.get, hget]

theorem read_of_ok {α : Type} {d : Decoder α} {a : α} (h : store.kept? db = some value)
    (hvalue : d.value value = .ok a) : read ⟨store.draft.load db, store.view⟩ d = .ok (some a) := by
  have hget : (store.draft.load db).staged.get? snapshotKey = some value := h
  simp only [read, Draft.get, hget, hvalue]

theorem read_of_error {α : Type} {d : Decoder α} {reason : Json.Reason}
    (h : store.kept? db = some value) (hvalue : d.value value = .error reason) :
    read ⟨store.draft.load db, store.view⟩ d =
      .error (.ofRefusal ⟨reason, none⟩ fun refusal => .corrupted (.unreadable refusal)) := by
  have hget : (store.draft.load db).staged.get? snapshotKey = some value := h
  simp only [read, Draft.get, hget, hvalue]

theorem snapshot?_of_none (h : store.kept? db = none) :
    snapshot? ⟨store.draft.load db, store.view⟩ = .ok none := by
  unfold snapshot?
  rw [read_of_none _ h]
  rfl

theorem snapshot?_of_version_error {reason : Json.Reason} (h : store.kept? db = some value)
    (hversion : Snapshot.versionForm.decoder.value value = .error reason) :
    snapshot? ⟨store.draft.load db, store.view⟩ =
      .error (.ofRefusal ⟨reason, none⟩ fun refusal => .corrupted (.unreadable refusal)) := by
  unfold snapshot?
  rw [read_of_error h hversion]
  rfl

theorem snapshot?_of_value {version : UInt8} (h : store.kept? db = some value)
    (hversion : Snapshot.versionForm.decoder.value value = .ok version) :
    snapshot? ⟨store.draft.load db, store.view⟩ =
      if version = Snapshot.currentVersion then
        read ⟨store.draft.load db, store.view⟩ Snapshot.form.decoder
      else
        .error (.corrupted (.version version Snapshot.currentVersion)) := by
  unfold snapshot?
  rw [read_of_ok h hversion]
  rfl

theorem ofRefusal_of_isFatal {reason : Json.Reason} (h : reason.isFatal = false) :
    Error.ofRefusal ⟨reason, none⟩ (fun refusal => .corrupted (.unreadable refusal)) =
      .corrupted (.unreadable ⟨reason, none⟩) := by
  rw [Error.ofRefusal, h, if_neg Bool.false_ne_true]

theorem restore_of_error {e : Error}
    (h : snapshot? ⟨store.draft.load db, store.view⟩ = .error e) :
    store.restore registry db = (.error e, ⟨store.draft.load db, store.view⟩, registry) := by
  simp only [restore, h]

theorem restores_of_currentVersion {registry : Registry} (hkept : store.kept? db = some value)
    (hversion : Snapshot.versionForm.decoder.value value = .ok Snapshot.currentVersion) :
    store.Restores registry db (store.restore registry db).1 (store.restore registry db).2.1
      (store.restore registry db).2.2 := by
  have hsnapshot := snapshot?_of_value hkept hversion
  rw [if_pos rfl] at hsnapshot
  cases hvalue : Snapshot.form.decoder.value value with
  | ok snapshot =>
    rw [read_of_ok hkept hvalue] at hsnapshot
    simp only [restore, hsnapshot]
    exact .rows value snapshot hkept (Snapshot.isReadFrom_iff.2 ⟨hversion, hvalue⟩)
  | error reason =>
    have hread : ∀ snapshot : Snapshot, ¬ snapshot.IsReadFrom value := by
      intro snapshot hread
      have := hread.decoded
      rw [hvalue] at this
      cases this
    rw [read_of_error hkept hvalue] at hsnapshot
    cases hfatal : reason.isFatal with
    | false =>
      rw [ofRefusal_of_isFatal hfatal] at hsnapshot
      rw [restore_of_error hsnapshot]
      exact .corrupted value _ hkept hread
    | true =>
      -- Of all that can be wrong with a row, only its policy for removal is as bad as that.
      obtain ⟨text, httl, htext⟩ := Snapshot.exists_ttl_of_error hvalue hfatal
      rw [Error.ofRefusal, hfatal, if_pos rfl] at hsnapshot
      rw [restore_of_error hsnapshot]
      exact .crashed value text hkept hread httl htext

/--
Bringing back records is all or nothing.
-/
theorem restores (store : Store) (registry : Registry) (db : Database) :
    store.Restores registry db (store.restore registry db).1 (store.restore registry db).2.1
      (store.restore registry db).2.2 := by
  cases hkept : store.kept? db with
  | none =>
    simp only [restore, snapshot?_of_none hkept]
    exact .fresh hkept
  | some value =>
    -- The version is looked at first, and whatever is wrong with it says nothing about the rows.
    cases hversion : Snapshot.versionForm.decoder.value value with
    | error reason =>
      have hsnapshot := snapshot?_of_version_error hkept hversion
      rw [ofRefusal_of_isFatal (Snapshot.isMild_versionForm _ _ hversion)] at hsnapshot
      rw [restore_of_error hsnapshot]
      refine .corrupted value _ hkept ?_
      intro snapshot hread
      have := hread.value_versionForm
      rw [hversion] at this
      cases this
    | ok version =>
      by_cases hknown : version = Snapshot.currentVersion
      . subst hknown
        exact restores_of_currentVersion hkept hversion
      . have hsnapshot := snapshot?_of_value hkept hversion
        rw [if_neg hknown] at hsnapshot
        rw [restore_of_error hsnapshot]
        refine .corrupted value _ hkept ?_
        intro snapshot hread
        have := hread.value_versionForm
        rw [hversion] at this
        exact hknown (Except.ok.inj this)

/--
No row that a store is brought back from has a policy for removal whose spans run over the last second
that there is.
-/
def HasTtlsInBounds (store : Store) (db : Database) : Prop :=
  ∀ value, store.kept? db = some value → ∀ text, Snapshot.HasTtl value text → ¬ Ttl.IsOverfull text

/--
Some row that a store is brought back from has a policy for removal that makes no sense.
-/
def HasBadTtl (store : Store) (db : Database) : Prop :=
  ∃ value text error, store.kept? db = some value ∧ Snapshot.HasTtl value text ∧
    Ttl.read text = .error error

namespace Restores

variable {result : Except Error Restoration} {store' : Store} {registry' : Registry}
  (h : store.Restores registry db result store' registry') (hbounds : store.HasTtlsInBounds db)

include h hbounds

theorem corrupted_of_error {e : Error} (hresult : result = .error e) :
    ∃ cause, e = .corrupted cause := by
  cases h with
  | fresh hkept => cases hresult
  | rows value snapshot hkept hread => cases hresult
  | corrupted value cause hkept hread => exact ⟨cause, (Except.error.inj hresult).symm⟩
  | crashed value text hkept hread httl htext =>
    exact absurd (Ttl.read_eq_secondsOverflow_iff.1 htext) (hbounds value hkept text httl)

theorem corrupted_of_not_isReadFrom {value : Json} (hkept : store.kept? db = some value)
    (hread : ∀ snapshot : Snapshot, ¬ snapshot.IsReadFrom value) :
    ∃ cause, result = .error (.corrupted cause) := by
  cases h with
  | fresh hnone =>
    rw [hnone] at hkept
    cases hkept
  | rows value' snapshot hkept' hread' =>
    rw [hkept'] at hkept
    cases hkept
    exact absurd hread' (hread snapshot)
  | corrupted value' cause hkept' hread' => exact ⟨cause, rfl⟩
  | crashed value' text hkept' hread' httl htext =>
    exact absurd (Ttl.read_eq_secondsOverflow_iff.1 htext) (hbounds value' hkept' text httl)

theorem corrupted_of_hasBadTtl (hbad : store.HasBadTtl db) :
    ∃ cause, result = .error (.corrupted cause) := by
  obtain ⟨value, text, error, hvalue, httl, herror⟩ := hbad
  cases h with
  | fresh hkept =>
    rw [hkept] at hvalue
    cases hvalue
  | rows value' snapshot hkept hread =>
    rw [hkept] at hvalue
    cases hvalue
    obtain ⟨ttl, hok⟩ := Snapshot.read_of_hasTtl hread.decoded httl
    rw [hok] at herror
    cases herror
  | corrupted value' cause hkept hread => exact ⟨cause, rfl⟩
  | crashed value' text' hkept hread httl' htext =>
    exact absurd (Ttl.read_eq_secondsOverflow_iff.1 htext) (hbounds value' hkept text' httl')

end Restores

theorem Restores.eq_ofRecords {restoration : Restoration} {store' : Store} {registry' : Registry}
    (h : store.Restores .empty db (.ok restoration) store' registry') :
    registry' = .ofRecords store'.view.toRecords ∧ restoration.count = store'.view.size := by
  cases h with
  | fresh hkept => exact ⟨rfl, rfl⟩
  | rows value snapshot hkept hread => exact ⟨rfl, rfl⟩

theorem load_eq_ok {disk disk' : Disk} {path : Path} (h : load disk path = (.ok (store, db), disk')) :
    store = ofName defaultScope ∧ Database.load disk path = (.ok db, disk') := by
  unfold load at h
  split at h
  . next hload =>
    cases h
    exact ⟨rfl, hload⟩
  . cases h

theorem isCrash_of_load {disk disk' : Disk} {path : Path} {e : Error}
    (h : load disk path = (.error e, disk')) : e.isCrash = false := by
  unfold load at h
  split at h
  . cases h
  . next hload =>
    cases h
    exact Database.isCrash_of_load hload

theorem load_of_written {disk : Disk} {path : Path} {contents : Contents} (h : contents.Regular)
    (hread : disk.read path = .ok contents.written) :
    load disk path = (.ok (ofName defaultScope, ⟨path, contents.reread⟩), disk) := by
  unfold load
  rw [Database.load_of_read hread (Contents.read_written h)]

theorem tree_load (disk : Disk) (path : Path) :
    (load disk path).2 = (Database.load disk path).2 := by
  unfold load
  split
  . next hload => rw [hload]
  . next hload => rw [hload]

end Store

namespace Housekeeper

variable {config : Config} {registry : Registry} {disk disk' : Disk}

theorem restore_of_fault {cause : Misconfiguration} (h : config.fault? = some cause) :
    restore config registry disk = (.error (.config cause), disk) := by
  simp only [restore, h]

theorem restore_of_load_error {e : Error} (h : config.fault? = none)
    (hload : Store.load disk config.statesPath = (.error e, disk')) :
    restore config registry disk = (.error e, disk') := by
  simp only [restore, h, hload]

theorem restore_of_load {store : Store} {db : Database} (h : config.fault? = none)
    (hload : Store.load disk config.statesPath = (.ok (store, db), disk')) :
    restore config registry disk =
      ((store.restore registry db).1.map fun restoration =>
        (restoration, ofStore (store.restore registry db).2.1 config,
          (store.restore registry db).2.2, db), disk') := by
  simp only [restore, h, hload]
  rcases store.restore registry db with ⟨_ | _, _, _⟩ <;> rfl

theorem sameFiles_restore (config : Config) (registry : Registry) (disk : Disk) :
    disk.tree.SameFiles (restore config registry disk).2.tree := by
  cases hfault : config.fault? with
  | some cause =>
    rw [restore_of_fault hfault]
    exact fun _ _ => Iff.rfl
  | none =>
    have hsame := Database.sameFiles_load disk config.statesPath
    rw [← Store.tree_load] at hsame
    rcases hload : Store.load disk config.statesPath with ⟨e | ⟨store, db⟩, disk'⟩
    . rw [restore_of_load_error hfault hload]
      rw [hload] at hsame
      exact hsame
    . rw [restore_of_load hfault hload]
      rw [hload] at hsame
      exact hsame

theorem restore_cases (config : Config) (registry : Registry) (disk : Disk) :
    (∃ cause, config.fault? = some cause ∧
      restore config registry disk = (.error (.config cause), disk)) ∨
    (config.fault? = none ∧ ∃ e disk', e.isCrash = false ∧
      Store.load disk config.statesPath = (.error e, disk') ∧
      restore config registry disk = (.error e, disk')) ∨
    (config.fault? = none ∧ ∃ store db disk',
      Store.load disk config.statesPath = (.ok (store, db), disk') ∧
      restore config registry disk =
        ((store.restore registry db).1.map fun restoration =>
          (restoration, ofStore (store.restore registry db).2.1 config,
            (store.restore registry db).2.2, db), disk')) := by
  cases hfault : config.fault? with
  | some cause => exact .inl ⟨cause, rfl, restore_of_fault hfault⟩
  | none =>
    rcases hload : Store.load disk config.statesPath with ⟨e | ⟨store, db⟩, disk'⟩
    . refine .inr (.inl ⟨rfl, e, disk', Store.isCrash_of_load hload, rfl, ?_⟩)
      exact restore_of_load_error hfault hload
    . exact .inr (.inr ⟨rfl, store, db, disk', rfl, restore_of_load hfault hload⟩)

theorem restore_eq_ok {restoration : Restoration} {keeper : Housekeeper} {registry' : Registry}
    {db : Database}
    (h : restore config registry disk = (.ok (restoration, keeper, registry', db), disk')) :
    config.fault? = none ∧ ∃ store, Store.load disk config.statesPath = (.ok (store, db), disk') ∧
      store.restore registry db = (.ok restoration, keeper.store, registry') := by
  rcases restore_cases config registry disk with ⟨cause, -, hfailed⟩ |
    ⟨-, e, next, -, -, hfailed⟩ | ⟨hfault, store, db', next, hload, hdone⟩
  . rw [hfailed] at h
    cases h
  . rw [hfailed] at h
    cases h
  . rw [hdone] at h
    rcases hresult : store.restore registry db' with ⟨e | found, store', registry''⟩
    . rw [hresult] at h
      cases h
    . rw [hresult] at h
      cases h
      exact ⟨hfault, store, hload, hresult⟩

theorem registry_of_restore {restoration : Restoration} {keeper : Housekeeper} {registry : Registry}
    {db : Database}
    (h : restore config .empty disk = (.ok (restoration, keeper, registry, db), disk')) :
    registry = .ofRecords keeper.store.view.toRecords ∧ restoration.count = keeper.store.view.size := by
  obtain ⟨-, store, -, hrestore⟩ := restore_eq_ok h
  have hrestores := store.restores .empty db
  rw [hrestore] at hrestores
  exact hrestores.eq_ofRecords

theorem config_of_restore {restoration : Restoration} {keeper : Housekeeper} {registry' : Registry}
    {db : Database}
    (h : restore config registry disk = (.ok (restoration, keeper, registry', db), disk')) :
    keeper.config = config := by
  obtain ⟨hfault, store, hload, -⟩ := restore_eq_ok h
  rw [restore_of_load hfault hload] at h
  rcases hresult : (store.restore registry db).1 with e | found
  . rw [hresult] at h
    cases h
  . rw [hresult] at h
    cases h
    rfl

/--
Whatever is in the store, and whatever is in the file that a configuration names, all records are
brought back or none, and as long as no policy for removal runs over the last second, every value that
is not read as a snapshot is reported as corrupted. No file is changed, and where something is wrong
with the configuration, nothing is done at all.
-/
theorem restore_all_or_nothing (store : Store) (registry : Registry) (db : Database) (config : Config)
    (disk : Disk) :
    store.Restores registry db (store.restore registry db).1 (store.restore registry db).2.1
        (store.restore registry db).2.2 ∧
      (store.HasTtlsInBounds db → ∀ value, store.kept? db = some value →
        (∀ snapshot : Snapshot, ¬ snapshot.IsReadFrom value) →
          ∃ cause, (store.restore registry db).1 = .error (.corrupted cause)) ∧
      disk.tree.SameFiles (restore config registry disk).2.tree ∧
      ((∃ cause, config.fault? = some cause ∧
          restore config registry disk = (.error (.config cause), disk)) ∨
        (config.fault? = none ∧ ∃ e disk', e.isCrash = false ∧
          Store.load disk config.statesPath = (.error e, disk') ∧
          restore config registry disk = (.error e, disk')) ∨
        (config.fault? = none ∧ ∃ store db disk',
          Store.load disk config.statesPath = (.ok (store, db), disk') ∧
          restore config registry disk =
            ((store.restore registry db).1.map fun restoration =>
              (restoration, ofStore (store.restore registry db).2.1 config,
                (store.restore registry db).2.2, db), disk'))) := by
  have hrestores := store.restores registry db
  refine ⟨hrestores, ?_, sameFiles_restore config registry disk, restore_cases config registry disk⟩
  intro hbounds value hkept hread
  exact hrestores.corrupted_of_not_isReadFrom hbounds hkept hread

/--
Every text is read as a policy for removal or refused, unless its spans run over the last second. As
long as those of no row do, bringing back records gives a result or an error, and where a policy makes
no sense, the error is that the records are corrupted.
-/
theorem restore_survives (store : Store) (registry : Registry) (db : Database) (config : Config)
    (disk : Disk) :
    (∀ text : String, Ttl.read text = .error .secondsOverflow ↔ Ttl.IsOverfull text) ∧
    (store.HasTtlsInBounds db →
      (∀ e, (store.restore registry db).1 = .error e → ∃ cause, e = .corrupted cause) ∧
      (store.HasBadTtl db → ∃ cause, (store.restore registry db).1 = .error (.corrupted cause))) ∧
    ((∀ store db disk', Store.load disk config.statesPath = (.ok (store, db), disk') →
        store.HasTtlsInBounds db) →
      ∀ e, (restore config registry disk).1 = .error e → e.isCrash = false) := by
  refine ⟨fun _ => Ttl.read_eq_secondsOverflow_iff, ?_, ?_⟩
  . intro hbounds
    have hrestores := store.restores registry db
    exact ⟨fun _ => hrestores.corrupted_of_error hbounds, hrestores.corrupted_of_hasBadTtl hbounds⟩
  . intro hbounds e he
    rcases restore_cases config registry disk with ⟨cause, -, hrestore⟩ |
      ⟨-, e', disk', hcrash, -, hrestore⟩ | ⟨-, store, db, disk', hload, hrestore⟩
    . rw [hrestore] at he
      cases he
      rfl
    . rw [hrestore] at he
      cases he
      exact hcrash
    . rw [hrestore] at he
      cases hresult : (store.restore registry db).1 with
      | ok restoration =>
        rw [hresult] at he
        cases he
      | error e' =>
        rw [hresult] at he
        cases he
        obtain ⟨cause, rfl⟩ :=
          (store.restores registry db).corrupted_of_error (hbounds store db disk' hload) hresult
        rfl

/--
A value with one row whose policy for removal waits for as many seconds as there can be, and for a
billion nanoseconds more.
-/
def overfull : Json :=
  .object [
    ("states", .object [
      ("x", .object [
        ("finished", .boolean false),
        ("offset", .integer 1),
        ("source", .string "/x"),
        ("timestamp", .string "2024-05-01T12:00:00Z"),
        ("ttl", .string "18446744073709551615s 1000000000ns")])]),
    ("version", .integer 1)]

/--
Contents with that value in the place of the snapshot.
-/
def overfullContents : Contents :=
  Table.empty.put Store.defaultScope (Table.empty.put Store.snapshotKey overfull)

/--
The policy for removal of the one row is no policy, but the row is not reported as corrupted.
-/
theorem restore_overfull :
    Ttl.read "18446744073709551615s 1000000000ns" = .error .secondsOverflow ∧
      ((Store.ofName Store.defaultScope).restore .empty ⟨⟨"b"⟩, overfullContents⟩).1 =
        .error (.crash .secondsOverflow) :=
  ⟨by decide, rfl⟩

theorem regular_overfull : overfull.Regular 124 := by
  refine .object (Members.ascending_of_names ["states", "version"] rfl (by decide)) ?_
  simp only [List.forall_mem_cons, List.not_mem_nil, false_implies, implies_true, and_true]
  refine ⟨.object (Members.ascending_of_names ["x"] rfl (by decide)) ?_, .integer (by omega) (by omega)⟩
  simp only [List.forall_mem_cons, List.not_mem_nil, false_implies, implies_true, and_true]
  refine .object (Members.ascending_of_names ["finished", "offset", "source", "timestamp", "ttl"] rfl
    (by decide)) ?_
  simp only [List.forall_mem_cons, List.not_mem_nil, false_implies, implies_true, and_true]
  exact ⟨.boolean _, .integer (by omega) (by omega), .string _, .string _, .string _⟩

/--
There is nothing that could be brought back from a file with these contents, and no error that says
so.
-/
theorem restore_overfull_file :
    let disk : Disk := { Disk.ofDirectory [] 7 with
      tree := (FileTree.ofDirectory []).put ["b"] (.file overfullContents.written) }
    (∀ snapshot : Snapshot, ¬ snapshot.IsReadFrom overfull) ∧
      (restore { Config.default with statesPath := ⟨"b"⟩ } .empty disk).1 =
        .error (.crash .secondsOverflow) := by
  intro disk
  have hregular : overfullContents.Regular := by
    apply Contents.regular_empty.put
    intro member hmem
    obtain rfl := List.mem_singleton.1 hmem
    exact regular_overfull
  have hread : disk.read ⟨"b"⟩ = .ok overfullContents.written := by
    unfold disk
    generalize overfullContents.written = content
    rfl
  constructor
  . intro snapshot hread
    cases hread.decoded
  . rw [restore_of_load rfl (Store.load_of_written hregular hread)]
    rfl

end Housekeeper

end ReadProgress
