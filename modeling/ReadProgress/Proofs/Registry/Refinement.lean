import ReadProgress.Proofs.Registry.Sweep
import ReadProgress.Proofs.Table

/-!
This module contains the view of a registry from outside: a ledger, which is a finite map from ids to
records. Whatever is done to a registry is done to its ledger in a way that does not know of lists,
positions or sweeps, and all that can be asked of a registry is answered by its ledger.
-/

namespace ReadProgress

namespace Registry

/--
What is done to a registry.
-/
inductive Operation where
  | update (record : Record) (moment : Timestamp)
  | cleanup (now : Timestamp)
  | replace (records : List Record)
  | copy

namespace Operation

def apply (registry : Registry) : Operation → Registry
  | update record moment => registry.update record moment
  | cleanup now => (registry.cleanup now).2
  | replace records => .ofRecords records
  | copy => registry.copy

/--
Whether an operation brings no two records with one id.
-/
def IsDistinct : Operation → Prop
  | replace records => (records.map (·.id)).Nodup
  | update _ _ | cleanup _ | copy => True

end Operation

/--
The registry after some operations, the first of which starts with no records.
-/
def afterAll (operations : List Operation) : Registry :=
  operations.foldl Operation.apply .empty

theorem afterAll_concat (operations : List Operation) (operation : Operation) :
    afterAll (operations ++ [operation]) = operation.apply (afterAll operations) := by
  simp [afterAll]

end Registry

/--
The records that are known under their ids.
-/
abbrev Ledger := Table String Record

namespace Ledger

/--
The ledger of some records. Of those with one id, the last one counts.
-/
def ofRecords (records : List Record) : Ledger :=
  .ofList (records.map fun record => (record.id, record))

def apply (ledger : Ledger) : Registry.Operation → Ledger
  | .update record moment => ledger.put record.id { record with timestamp := moment }
  | .cleanup now => ledger.retain fun record => !(record.isExpired now && record.finished)
  | .replace records => ofRecords records
  | .copy => ledger

/--
The ledger after some operations.
-/
def afterAll (operations : List Registry.Operation) : Ledger :=
  operations.foldl apply .empty

theorem afterAll_concat (operations : List Registry.Operation) (operation : Registry.Operation) :
    afterAll (operations ++ [operation]) = (afterAll operations).apply operation := by
  simp [afterAll]

end Ledger

namespace Registry

theorem find?_ofRecords (records : List Record) (id : String) :
    (ofRecords records).find? id = (Ledger.ofRecords records).get? id := by
  induction records using List.reverseRecOn with
  | nil => rfl
  | append_singleton records record ih =>
    rw [find?_ofRecords_concat, ih]
    simp only [Ledger.ofRecords, List.map_append, List.map_singleton, Table.ofList_concat,
      Table.get?_put]

/--
A registry whose index is exact, and a ledger in which the same is found.
-/
structure Refines (registry : Registry) (ledger : Ledger) : Prop where
  sound : registry.Sound
  complete : registry.Complete
  find? : ∀ id, registry.find? id = ledger.get? id

namespace Refines

variable {registry : Registry} {ledger : Ledger}

theorem empty : Refines .empty .empty where
  sound := sound_empty
  complete := complete_empty
  find? := by simp

theorem update (h : registry.Refines ledger) (record : Record) (moment : Timestamp) :
    (registry.update record moment).Refines
      (ledger.put record.id { record with timestamp := moment }) where
  sound := h.sound.update record moment
  complete := h.complete.update record moment
  find? := by
    intro id
    rw [h.sound.find?_update, h.find?, Table.get?_put]

theorem cleanup (h : registry.Refines ledger) (now : Timestamp) :
    (registry.cleanup now).2.Refines (ledger.retain fun record => !record.isRemovable now) where
  sound := h.sound.cleanup now
  complete := h.complete.cleanup now
  find? := by
    intro id
    ext record
    rw [find?_cleanup_iff h.complete h.sound, Table.get?_retain, Option.filter_eq_some_iff, ← h.find?,
      Bool.not_eq_true']

theorem ofRecords {records : List Record} (h : (records.map (·.id)).Nodup) :
    (Registry.ofRecords records).Refines (Ledger.ofRecords records) where
  sound := sound_ofRecords records
  complete := complete_ofRecords h
  find? := find?_ofRecords records

theorem copy (h : registry.Refines ledger) : registry.copy.Refines ledger where
  sound := sound_ofRecords _
  complete := complete_ofRecords h.complete.nodup
  find? := by
    intro id
    have hcopy : registry.copy.Complete := complete_ofRecords h.complete.nodup
    ext record
    rw [← h.find?, h.complete.find?_iff_mem h.sound, hcopy.find?_iff_mem (sound_ofRecords _)]
    rfl

theorem apply (h : registry.Refines ledger) {operation : Operation} (hdistinct : operation.IsDistinct) :
    (operation.apply registry).Refines (ledger.apply operation) := by
  cases operation with
  | update record moment => exact h.update record moment
  | cleanup now => exact h.cleanup now
  | replace records => exact ofRecords hdistinct
  | copy => exact h.copy

theorem afterAll {operations : List Operation}
    (h : ∀ operation ∈ operations, operation.IsDistinct) :
    (afterAll operations).Refines (Ledger.afterAll operations) := by
  induction operations using List.reverseRecOn with
  | nil => exact empty
  | append_singleton operations operation ih =>
    rw [afterAll_concat, Ledger.afterAll_concat]
    apply apply
    . apply ih
      intro other hother
      exact h other (List.mem_append_left _ hother)
    . exact h operation (by simp)

theorem contains_eq (h : registry.Refines ledger) (id : String) :
    registry.contains id = ledger.contains id := by
  rw [h.sound.contains_eq_isSome, h.find?]
  rfl

theorem records_perm (h : registry.Refines ledger) : registry.records.Perm ledger.values := by
  have hid : ∀ entry ∈ ledger.entries, entry.2.id = entry.1 := by
    intro entry hentry
    apply h.sound.id_of_find?
    rw [h.find?, Table.get?_eq_some_iff]
    exact hentry
  have hvalues : ledger.values.map (·.id) = ledger.entries.map Prod.fst := by
    rw [Table.values, List.map_map]
    exact List.map_congr_left hid
  rw [List.perm_ext_iff_of_nodup]
  . intro record
    rw [Table.values, List.mem_map]
    constructor
    . intro hmem
      refine ⟨(record.id, record), ?_, rfl⟩
      rw [← Table.get?_eq_some_iff, ← h.find?]
      exact h.complete.find?_of_mem hmem
    . rintro ⟨entry, hentry, rfl⟩
      apply Sound.mem_of_find?
      rw [h.find?, Table.get?_eq_some_iff]
      exact hentry
  . exact h.complete.nodup.of_map _
  . apply List.Nodup.of_map (·.id)
    rw [hvalues]
    exact ledger.nodup

end Refines

/--
Whatever is done to a registry, as long as no two records with one id are brought at a time, each
record is at the position that the index gives for its id, the index knows no other ids, no two
records share an id, and the registry answers as its ledger does.
-/
theorem afterAll_refines (operations : List Operation)
    (h : ∀ operation ∈ operations, operation.IsDistinct) :
    (∀ (position : Nat) (record : Record),
      (afterAll operations).records[position]? = some record →
        (afterAll operations).index[record.id]? = some position) ∧
    (∀ (id : String) (position : Nat), (afterAll operations).index[id]? = some position →
      ∃ record, (afterAll operations).records[position]? = some record ∧ record.id = id) ∧
    ((afterAll operations).records.map (·.id)).Nodup ∧
    (∀ id, (afterAll operations).find? id = (Ledger.afterAll operations).get? id) ∧
    (∀ id, (afterAll operations).contains id = (Ledger.afterAll operations).contains id) ∧
    (∀ id, (afterAll operations).isNew id = !(Ledger.afterAll operations).contains id) ∧
    (afterAll operations).size = (Ledger.afterAll operations).size ∧
    (afterAll operations).records.Perm (Ledger.afterAll operations).values := by
  have hrefines := Refines.afterAll h
  refine ⟨hrefines.complete, hrefines.sound, hrefines.complete.nodup, hrefines.find?,
    hrefines.contains_eq, ?_, ?_, hrefines.records_perm⟩
  . intro id
    rw [isNew, hrefines.contains_eq]
  . rw [size, hrefines.records_perm.length_eq]
    simp [Table.values, Table.size]

theorem afterAll_refines_two_sources :
    let done : Record := ⟨"done", "/log/done", 7, .epoch, .immediate, true⟩
    let live : Record := ⟨"live", "/log/live", 7, .epoch, .immediate, false⟩
    let operations : List Operation :=
      [.replace [done, live], .update { live with offset := 9 } .epoch, .cleanup .epoch, .copy]
    (∀ operation ∈ operations, operation.IsDistinct) ∧
      (afterAll operations).find? "done" = none ∧
      (afterAll operations).find? "live" = some { live with offset := 9 } ∧
      (afterAll operations).size = 1 := by
  intro done live operations
  have hdistinct : ∀ operation ∈ operations, operation.IsDistinct := by
    simp [operations, Operation.IsDistinct, done, live]
  obtain ⟨-, -, -, hfind, -, -, hsize, -⟩ := afterAll_refines operations hdistinct
  exact ⟨hdistinct, (hfind "done").trans (by decide), (hfind "live").trans (by decide),
    hsize.trans (by decide)⟩

end Registry

end ReadProgress
