import ReadProgress.Proofs.Members
import ReadProgress.Proofs.Registry.Refinement
import ReadProgress.Snapshot

/-!
This module contains how the rows of a snapshot correspond to the records of a registry that is
filled with them.
-/

namespace ReadProgress

namespace Snapshot

variable (snapshot : Snapshot)

theorem map_id_toRecords : snapshot.toRecords.map (·.id) = snapshot.rows.map Prod.fst := by
  rw [toRecords, List.map_map]
  rfl

theorem nodup_toRecords : (snapshot.toRecords.map (·.id)).Nodup := by
  rw [map_id_toRecords]
  exact snapshot.ascending.nodup

theorem lookup_map_toRecord (rows : Members Row) (id : String) :
    List.lookup id (rows.map fun row => (row.1, row.2.toRecord row.1)) =
      (rows.lookup id).map (·.toRecord id) := by
  induction rows with
  | nil => rfl
  | cons row rows ih =>
    rw [List.map_cons, List.lookup_cons, List.lookup_cons, ih]
    split
    . next heq =>
      obtain rfl := eq_of_beq heq
      rfl
    . rfl

theorem size_ofRecords_toRecords : (Registry.ofRecords snapshot.toRecords).size = snapshot.size :=
  List.length_map _

theorem find?_ofRecords_toRecords (id : String) :
    (Registry.ofRecords snapshot.toRecords).find? id = (snapshot.row? id).map (·.toRecord id) := by
  have hentries : snapshot.toRecords.map (fun record => (record.id, record)) =
      snapshot.rows.map fun row => (row.1, row.2.toRecord row.1) := by
    rw [toRecords, List.map_map]
    rfl
  rw [Registry.find?_ofRecords, Ledger.ofRecords, hentries, Table.get?_ofList, lookup_map_toRecord]
  . rfl
  . exact (Members.ascending_map snapshot.ascending _).nodup

theorem eq_of_row? {snapshot other : Snapshot} (hversion : snapshot.version = other.version)
    (hrow : ∀ id, snapshot.row? id = other.row? id) : snapshot = other := by
  obtain ⟨version, rows, hrows⟩ := snapshot
  obtain ⟨version', rows', hrows'⟩ := other
  obtain rfl : version = version' := hversion
  obtain rfl : rows = rows' := hrows.eq_of_lookup hrows' hrow
  rfl

theorem row?_ofRecords (records : List Record) (id : String) :
    (ofRecords records).row? id = ((Registry.ofRecords records).find? id).map Row.ofRecord := by
  rw [Registry.find?_ofRecords]
  induction records using List.reverseRecOn with
  | nil => rfl
  | append_singleton records record ih =>
    simp only [row?, ofRecords, Ledger.ofRecords, List.map_append, List.map_singleton,
      Members.ofList_concat, Members.lookup_insert, Table.ofList_concat, Table.get?_put] at ih ⊢
    rw [ih]
    split <;> rfl

end Snapshot

end ReadProgress
