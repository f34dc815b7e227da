import ReadProgress.Proofs.Restoration
import ReadProgress.Proofs.Store
import ReadProgress.Proofs.Text.Bytes

/-!
This module contains how the rows of a snapshot correspond to records, in both directions. A snapshot of
some records has the last one of each id, in the order of the bytes of the ids, and nothing is lost where
a snapshot is taken of the records of another one. So what has been brought back is written again as it
was.
-/

namespace ReadProgress

namespace Snapshot

theorem pairwise_toRecords (snapshot : Snapshot) :
    snapshot.toRecords.Pairwise fun record other => bytesOf record.id < bytesOf other.id :=
  List.pairwise_map.2 (snapshot.ascending.imp bytesOf_lt_bytesOf.2)

/--
The rows of some records, before they are sorted.
-/
def entries (records : List Record) : List (String × Row) :=
  records.map fun record => (record.id, Row.ofRecord record)

theorem rows_ofRecords (records : List Record) : (ofRecords records).rows = .ofList (entries records) :=
  rfl

theorem toRecords_eq_map (snapshot : Snapshot) :
    snapshot.toRecords = snapshot.rows.map fun row => row.2.toRecord row.1 :=
  rfl

theorem map_toRecord_entries (records : List Record) :
    (entries records).map (fun row => row.2.toRecord row.1) = records := by
  rw [entries, List.map_map]
  exact List.map_id records

theorem entries_toRecords (snapshot : Snapshot) : entries snapshot.toRecords = snapshot.rows := by
  rw [toRecords_eq_map, entries, List.map_map]
  exact List.map_id snapshot.rows

theorem filter_entries (records : List Record) (id : String) :
    (entries records).filter (·.1 = id) = entries (records.filter (·.id = id)) :=
  List.filter_map

theorem filter_toRecords_ofRecords (records : List Record) (id : String) :
    (ofRecords records).toRecords.filter (·.id = id) =
      (records.filter (·.id = id)).getLast?.toList := by
  have hrecords : (ofRecords records).toRecords.filter (·.id = id) =
      ((Members.ofList (entries records)).filter (·.1 = id)).map fun row => row.2.toRecord row.1 :=
    List.filter_map
  rw [hrecords, Members.filter_ofList, filter_entries, entries, List.getLast?_map]
  cases (records.filter (·.id = id)).getLast? with
  | none => rfl
  | some record => rfl

theorem toRecords_ofRecords_perm {records : List Record} (h : (records.map (·.id)).Nodup) :
    (ofRecords records).toRecords.Perm records := by
  have hnames : ((entries records).map Prod.fst).Nodup := by
    rw [entries, List.map_map]
    exact h
  have hperm := (Members.ofList_perm hnames).map fun row => row.2.toRecord row.1
  rw [map_toRecord_entries] at hperm
  exact hperm

theorem ofRecords_toRecords {snapshot : Snapshot} (h : snapshot.version = currentVersion) :
    ofRecords snapshot.toRecords = snapshot := by
  have hrows : (ofRecords snapshot.toRecords).rows = snapshot.rows := by
    rw [rows_ofRecords, entries_toRecords]
    exact Members.ofList_of_ascending snapshot.ascending
  obtain ⟨version, rows, ascending⟩ := snapshot
  obtain rfl : version = currentVersion := h
  rw [Snapshot.mk.injEq]
  exact ⟨rfl, hrows⟩

end Snapshot

namespace Store

variable {store restored : Store} {registry filled : Registry} {db : Database} {count : Nat}

theorem take_of_restore (h : store.restore registry db = (.ok (.rows count), restored, filled)) :
    restored.take filled = restored := by
  have hrestores := store.restores registry db
  rw [h] at hrestores
  cases hrestores with
  | rows value snapshot hkept hread =>
    exact congrArg (Store.mk (store.draft.load db)) (Snapshot.ofRecords_toRecords hread.version)

end Store

namespace Snapshot

/--
Rows and records correspond. The records of a snapshot are in the order of the bytes of their ids. For
each id they have the last record with that id, and nothing else; so they are the same as those the
snapshot was taken of, if these have different ids. In the other direction, a snapshot is the snapshot
of its records. So what is brought back and not changed is written again as it was read.
-/
theorem rows_and_records_correspond :
    (∀ records : List Record,
      ((ofRecords records).toRecords.Pairwise fun record other =>
        bytesOf record.id < bytesOf other.id) ∧
      (∀ id, (ofRecords records).toRecords.filter (·.id = id) =
        (records.filter (·.id = id)).getLast?.toList) ∧
      ((records.map (·.id)).Nodup → (ofRecords records).toRecords.Perm records)) ∧
    (∀ snapshot : Snapshot, snapshot.version = currentVersion →
      ofRecords snapshot.toRecords = snapshot) ∧
    (∀ (store restored : Store) (registry filled : Registry) (db : Database) (disk : Disk)
      (count : Nat), store.restore registry db = (.ok (.rows count), restored, filled) →
        (restored.checkpoint filled db disk).2.1.view = restored.view ∧
        ((restored.checkpoint filled db disk).2.2.1.contents.scope restored.draft.name).get?
          Store.snapshotKey = some restored.view.toJson) := by
  refine ⟨?_, ?_, ?_⟩
  . intro records
    exact ⟨pairwise_toRecords _, filter_toRecords_ofRecords records, toRecords_ofRecords_perm⟩
  . intro snapshot
    exact ofRecords_toRecords
  . intro store restored registry filled db disk count hrestore
    rw [Store.checkpoint_eq, Store.take_of_restore hrestore]
    exact ⟨Store.view_sync _ _ _, Store.get?_published _ _⟩

theorem rows_and_records_correspond_repeated :
    let early : Record := ⟨"b", "/b", 1, .epoch, .never, false⟩
    let late : Record := ⟨"b", "/renamed", 2, .epoch, .immediate, true⟩
    let other : Record := ⟨"a", "/a", 3, .epoch, .never, false⟩
    let view := ofRecords [early, late, other]
    let database := ((Store.ofName "registry").take (.ofRecords [early, late, other])).published
      .inMemory
    view.toRecords.filter (·.id = "b") = [late] ∧
      ([late, other].map (·.id)).Nodup ∧
      (ofRecords [late, other]).toRecords.Perm [late, other] ∧
      view.version = currentVersion ∧ ofRecords view.toRecords = view ∧
      ∃ restored filled,
        (Store.ofName "registry").restore .empty database = (.ok (.rows 2), restored, filled) ∧
        (restored.checkpoint filled database (.ofDirectory [] 0)).2.1.view = restored.view := by
  intro early late other view database
  have hnodup : ([late, other].map (·.id)).Nodup := by decide
  have hstorable : view.Storable := by
    refine storable_ofRecords fun record hmem => ?_
    simp only [List.mem_cons, List.not_mem_nil, or_false] at hmem
    rcases hmem with rfl | rfl | rfl <;> nofun
  have hrestore := @Store.restore_of_scope (Store.ofName "registry") database view hstorable
    (Store.get?_published _ _) .empty
  rw [show view.size = 2 by decide] at hrestore
  obtain ⟨hrecords, hsnapshots, hstores⟩ := rows_and_records_correspond
  refine ⟨?_, hnodup, (hrecords _).2.2 hnodup, rfl, hsnapshots view rfl, _, _, hrestore, ?_⟩
  . exact (hrecords [early, late, other]).2.1 "b"
  . exact (hstores _ _ _ _ _ _ _ hrestore).1

end Snapshot

end ReadProgress
