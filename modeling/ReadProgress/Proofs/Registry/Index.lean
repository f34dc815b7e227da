import Mathlib.Data.List.Induction
import Mathlib.Data.List.Nodup
import ReadProgress.Registry

/-!
This module contains the correspondence between the records of a registry and its index. It comes in
two halves. That the index is sound survives everything, even records that share an id. That it is
complete means that no two records do.
-/

namespace ReadProgress

namespace Registry

theorem getElem?_index_insert (index : Std.TreeMap String Nat) (name id : String) (position : Nat) :
    (index.insert name position)[id]? = if id = name then some position else index[id]? := by
  rw [Std.TreeMap.getElem?_insert]
  simp only [Std.LawfulEqCmp.compare_eq_iff_eq, eq_comm (a := name)]

theorem getElem?_index_erase (index : Std.TreeMap String Nat) (name id : String) :
    (index.erase name)[id]? = if id = name then none else index[id]? := by
  rw [Std.TreeMap.getElem?_erase]
  simp only [Std.LawfulEqCmp.compare_eq_iff_eq, eq_comm (a := name)]

theorem getElem?_concat_eq_some_iff {α : Type} {xs : List α} {x y : α} {position : Nat} :
    (xs ++ [x])[position]? = some y ↔
      xs[position]? = some y ∨ (position = xs.length ∧ x = y) := by
  rcases Nat.lt_trichotomy position xs.length with hlt | rfl | hgt
  . rw [List.getElem?_append_left hlt]
    simp [Nat.ne_of_lt hlt]
  . simp
  . rw [List.getElem?_eq_none (by simp; omega), List.getElem?_eq_none (by omega)]
    simp [Nat.ne_of_gt hgt]

theorem contains_iff {registry : Registry} {id : String} :
    registry.contains id = true ↔ ∃ position : Nat, registry.index[id]? = some position := by
  unfold contains
  rw [Std.TreeMap.contains_eq_isSome_getElem?, Option.isSome_iff_exists]

theorem find?_eq_some_iff {registry : Registry} {id : String} {record : Record} :
    registry.find? id = some record ↔
      ∃ position : Nat, registry.index[id]? = some position ∧
        registry.records[position]? = some record := by
  simp [find?, Option.bind_eq_some_iff]

theorem update_cases (registry : Registry) (record : Record) (moment : Timestamp) :
    (∃ position : Nat, registry.index[record.id]? = some position ∧
      registry.update record moment =
        ⟨registry.records.set position { record with timestamp := moment }, registry.index⟩) ∨
    (registry.index[record.id]? = none ∧
      registry.update record moment =
        ⟨registry.records ++ [{ record with timestamp := moment }],
          registry.index.insert record.id registry.records.length⟩) := by
  unfold update
  dsimp only
  split
  . next position hposition => exact .inl ⟨position, hposition, rfl⟩
  . next hnone => exact .inr ⟨hnone, rfl⟩

theorem size_update (registry : Registry) (record : Record) (moment : Timestamp) :
    (registry.update record moment).size =
      if registry.contains record.id then registry.size else registry.size + 1 := by
  unfold contains size
  rw [Std.TreeMap.contains_eq_isSome_getElem?]
  rcases update_cases registry record moment with ⟨position, hposition, heq⟩ | ⟨hnone, heq⟩
  . simp [heq, hposition]
  . simp [heq, hnone]

theorem id_of_mem_update {registry : Registry} {record other : Record} {moment : Timestamp}
    (h : other ∈ (registry.update record moment).records) :
    other.id = record.id ∨ other ∈ registry.records := by
  rcases update_cases registry record moment with ⟨position, -, heq⟩ | ⟨-, heq⟩
  . rw [heq] at h
    rcases List.mem_or_eq_of_mem_set h with hmem | hother
    . exact .inr hmem
    . exact .inl (by rw [hother])
  . rw [heq] at h
    rcases List.mem_append.1 h with hmem | hmem
    . exact .inr hmem
    . exact .inl (by rw [List.mem_singleton.1 hmem])

namespace Sound

variable {registry : Registry}

theorem id_of_find? (h : registry.Sound) {id : String} {record : Record}
    (hfind : registry.find? id = some record) : record.id = id := by
  obtain ⟨position, hposition, hrecord⟩ := find?_eq_some_iff.1 hfind
  obtain ⟨found, hfound, hid⟩ := h id position hposition
  rw [hrecord] at hfound
  rw [Option.some.inj hfound]
  exact hid

theorem mem_of_find? {id : String} {record : Record}
    (hfind : registry.find? id = some record) : record ∈ registry.records := by
  obtain ⟨position, -, hrecord⟩ := find?_eq_some_iff.1 hfind
  exact List.mem_of_getElem? hrecord

theorem contains_eq_isSome (h : registry.Sound) (id : String) :
    registry.contains id = (registry.find? id).isSome := by
  rw [Bool.eq_iff_iff, contains_iff, Option.isSome_iff_exists]
  constructor
  . intro ⟨position, hposition⟩
    obtain ⟨record, hrecord, -⟩ := h id position hposition
    exact ⟨record, find?_eq_some_iff.2 ⟨position, hposition, hrecord⟩⟩
  . intro ⟨record, hrecord⟩
    obtain ⟨position, hposition, -⟩ := find?_eq_some_iff.1 hrecord
    exact ⟨position, hposition⟩

theorem find?_update (h : registry.Sound) (record : Record) (moment : Timestamp) (id : String) :
    (registry.update record moment).find? id =
      if id = record.id then some { record with timestamp := moment } else registry.find? id := by
  split
  . next heq =>
    rw [heq, find?_update_self h]
  . next hne =>
    rcases update_cases registry record moment with ⟨old, hold, heq⟩ | ⟨-, heq⟩
    . -- The id does not lead to the position of the record that is replaced.
      obtain ⟨replaced, hreplaced, hid⟩ := h _ _ hold
      simp only [heq, find?]
      cases hposition : registry.index[id]? with
      | none => rfl
      | some position =>
        obtain ⟨found, hfound, hfoundid⟩ := h _ _ hposition
        simp only [Option.bind_eq_bind, Option.bind_some]
        rw [List.getElem?_set_ne]
        rintro rfl
        rw [hreplaced] at hfound
        rw [← hfoundid, ← Option.some.inj hfound, hid] at hne
        exact hne rfl
    . simp only [heq, find?, getElem?_index_insert, if_neg hne]
      cases hposition : registry.index[id]? with
      | none => rfl
      | some position =>
        obtain ⟨found, hfound, -⟩ := h _ _ hposition
        simp only [Option.bind_eq_bind, Option.bind_some]
        rw [List.getElem?_append_left (List.getElem?_eq_some_iff.1 hfound).1]

theorem concat (h : registry.Sound) (record : Record) :
    Sound ⟨registry.records ++ [record],
      registry.index.insert record.id registry.records.length⟩ := by
  intro id position hposition
  rw [getElem?_index_insert] at hposition
  split at hposition
  . next heq =>
    obtain rfl := Option.some.inj hposition
    exact ⟨record, List.getElem?_concat_length, heq.symm⟩
  . obtain ⟨found, hfound, hid⟩ := h id position hposition
    exact ⟨found, getElem?_concat_eq_some_iff.2 (.inl hfound), hid⟩

theorem update (h : registry.Sound) (record : Record) (moment : Timestamp) :
    (registry.update record moment).Sound := by
  rcases update_cases registry record moment with ⟨old, hold, heq⟩ | ⟨-, heq⟩
  . rw [heq]
    intro id position hposition
    obtain ⟨replaced, hreplaced, hid⟩ := h _ _ hold
    have hlt := (List.getElem?_eq_some_iff.1 hreplaced).1
    obtain ⟨found, hfound, hfoundid⟩ := h _ _ hposition
    rw [List.getElem?_set]
    split
    . next heq =>
      subst heq
      rw [hreplaced] at hfound
      have : replaced = found := Option.some.inj hfound
      exact ⟨_, rfl, by rw [← hid, this, hfoundid]⟩
    . exact ⟨found, hfound, hfoundid⟩
  . rw [heq]
    exact h.concat { record with timestamp := moment }

theorem contains_update (h : registry.Sound) (record : Record) (moment : Timestamp) (id : String) :
    (registry.update record moment).contains id = true ↔
      id = record.id ∨ registry.contains id = true := by
  rw [(h.update record moment).contains_eq_isSome, h.find?_update, h.contains_eq_isSome]
  split
  . next heq => simp [heq]
  . next hne => simp [hne]

end Sound

/--
The index leads to each record with a certain id. There is one at most, then.
-/
def CompleteAt (registry : Registry) (id : String) : Prop :=
  ∀ (position : Nat) (record : Record), registry.records[position]? = some record →
    record.id = id → registry.index[id]? = some position

theorem complete_iff {registry : Registry} :
    registry.Complete ↔ ∀ id, registry.CompleteAt id := by
  constructor
  . rintro h id position record hrecord rfl
    exact h position record hrecord
  . intro h position record hrecord
    exact h record.id position record hrecord rfl

namespace Complete

variable {registry : Registry}

theorem nodup (h : registry.Complete) : (registry.records.map (·.id)).Nodup := by
  rw [List.nodup_iff_injective_get]
  intro i j heq
  simp only [List.get_eq_getElem, List.getElem_map] at heq
  have hfirst := h i _ (List.getElem?_eq_getElem (by simpa using i.isLt))
  have hsecond := h j _ (List.getElem?_eq_getElem (by simpa using j.isLt))
  rw [heq, hsecond] at hfirst
  exact Fin.ext (Option.some.inj hfirst).symm

theorem find?_of_mem (h : registry.Complete) {record : Record} (hmem : record ∈ registry.records) :
    registry.find? record.id = some record := by
  obtain ⟨position, hposition⟩ := List.mem_iff_getElem?.1 hmem
  exact find?_eq_some_iff.2 ⟨position, h position record hposition, hposition⟩

theorem find?_iff_mem (h : registry.Complete) (hsound : registry.Sound) {id : String}
    {record : Record} :
    registry.find? id = some record ↔ record ∈ registry.records ∧ record.id = id := by
  constructor
  . intro hfind
    exact ⟨Sound.mem_of_find? hfind, hsound.id_of_find? hfind⟩
  . rintro ⟨hmem, rfl⟩
    exact h.find?_of_mem hmem

theorem concat (h : registry.Complete) {record : Record}
    (hnew : ∀ found ∈ registry.records, found.id ≠ record.id) :
    Complete ⟨registry.records ++ [record],
      registry.index.insert record.id registry.records.length⟩ := by
  intro position found hfound
  rw [getElem?_index_insert]
  rcases getElem?_concat_eq_some_iff.1 hfound with hfound | ⟨rfl, rfl⟩
  . rw [if_neg (hnew found (List.mem_of_getElem? hfound))]
    exact h position found hfound
  . rw [if_pos rfl]

theorem update (h : registry.Complete) (record : Record) (moment : Timestamp) :
    (registry.update record moment).Complete := by
  rcases update_cases registry record moment with ⟨old, hold, heq⟩ | ⟨hnone, heq⟩
  . rw [heq]
    intro position found hfound
    dsimp only at hfound
    rw [List.getElem?_set] at hfound
    split at hfound
    . next heq =>
      subst heq
      split at hfound
      . obtain rfl := Option.some.inj hfound
        exact hold
      . simp at hfound
    . exact h _ _ hfound
  . rw [heq]
    refine h.concat ?_
    intro found hmem hid
    obtain ⟨position, hposition⟩ := List.mem_iff_getElem?.1 hmem
    have hindex := h position found hposition
    rw [hid, hnone] at hindex
    simp at hindex

end Complete

@[simp]
theorem indexOf_nil : indexOf [] = ∅ := rfl

theorem indexOf_concat (records : List Record) (record : Record) :
    indexOf (records ++ [record]) = (indexOf records).insert record.id records.length := by
  simp [indexOf, List.zipIdx_append]

theorem ofRecords_concat (records : List Record) (record : Record) :
    ofRecords (records ++ [record]) =
      ⟨(ofRecords records).records ++ [record],
        (ofRecords records).index.insert record.id (ofRecords records).records.length⟩ := by
  simp only [ofRecords, indexOf_concat]

theorem sound_ofRecords (records : List Record) : (ofRecords records).Sound := by
  induction records using List.reverseRecOn with
  | nil => exact sound_empty
  | append_singleton records record ih =>
    rw [ofRecords_concat]
    exact ih.concat record

theorem complete_ofRecords {records : List Record} (h : (records.map (·.id)).Nodup) :
    (ofRecords records).Complete := by
  induction records using List.reverseRecOn with
  | nil => exact complete_empty
  | append_singleton records record ih =>
    rw [List.map_append, List.nodup_append'] at h
    obtain ⟨hnodup, -, hdisjoint⟩ := h
    rw [ofRecords_concat]
    apply (ih hnodup).concat
    intro found hmem heq
    exact hdisjoint (List.mem_map.2 ⟨found, hmem, rfl⟩) (by simp [heq])

theorem find?_ofRecords_concat (records : List Record) (record : Record) (id : String) :
    (ofRecords (records ++ [record])).find? id =
      if id = record.id then some record else (ofRecords records).find? id := by
  simp only [find?, ofRecords, indexOf_concat, getElem?_index_insert]
  split
  . simp
  . cases hposition : (indexOf records)[id]? with
    | none => rfl
    | some position =>
      obtain ⟨found, hfound, -⟩ := sound_ofRecords records id position hposition
      simp only [Option.bind_eq_bind, Option.bind_some]
      exact List.getElem?_append_left (List.getElem?_eq_some_iff.1 hfound).1

theorem contains_ofRecords {records : List Record} {id : String} :
    (ofRecords records).contains id = true ↔ ∃ record ∈ records, record.id = id := by
  rw [contains_iff]
  induction records using List.reverseRecOn with
  | nil => simp [ofRecords]
  | append_singleton records record ih =>
    simp only [ofRecords, indexOf_concat, getElem?_index_insert] at ih ⊢
    by_cases heq : id = record.id
    . simp [heq]
    . simp only [heq, if_false, ih, List.mem_append, List.mem_singleton, or_and_right, exists_or,
        exists_eq_left, Ne.symm heq, or_false]

end Registry

end ReadProgress
