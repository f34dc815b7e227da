import Mathlib.Data.List.Induction
import Mathlib.Data.List.Nodup
import ReadProgress.Table

/-!
This module contains how the entries of a table correspond to what is found under its keys, and what
is found in tables that are put together from lists or reduced.
-/

namespace ReadProgress

namespace Table

variable {κ α : Type}

def size (table : Table κ α) : Nat :=
  table.entries.length

def values (table : Table κ α) : List α :=
  table.entries.map Prod.snd

/--
Keep the entries whose values have some property.
-/
def retain (table : Table κ α) (p : α → Bool) : Table κ α where
  entries := table.entries.filter fun entry => p entry.2
  nodup := table.nodup.sublist (List.filter_sublist.map _)

variable [DecidableEq κ]

theorem lookup_eq_some_iff_mem {entries : List (κ × α)} (h : (entries.map Prod.fst).Nodup) {key : κ}
    {value : α} : entries.lookup key = some value ↔ (key, value) ∈ entries := by
  induction entries with
  | nil => simp
  | cons entry rest ih =>
    obtain ⟨name, found⟩ := entry
    rw [List.map_cons, List.nodup_cons] at h
    rw [List.lookup_cons, List.mem_cons, Prod.mk.injEq]
    by_cases heq : key = name
    . subst heq
      have hnot : (key, value) ∉ rest := by
        intro hmem
        exact h.1 (List.mem_map.2 ⟨_, hmem, rfl⟩)
      simp [hnot, eq_comm]
    . rw [beq_false_of_ne heq]
      simp [heq, ih h.2]

theorem get?_eq_some_iff {table : Table κ α} {key : κ} {value : α} :
    table.get? key = some value ↔ (key, value) ∈ table.entries :=
  lookup_eq_some_iff_mem table.nodup

theorem get?_retain (table : Table κ α) (p : α → Bool) (key : κ) :
    (table.retain p).get? key = (table.get? key).filter p := by
  ext value
  rw [get?_eq_some_iff, Option.filter_eq_some_iff, get?_eq_some_iff]
  simp [retain]

@[simp]
theorem ofList_nil : (ofList [] : Table κ α) = empty := rfl

theorem ofList_concat (entries : List (κ × α)) (entry : κ × α) :
    ofList (entries ++ [entry]) = (ofList entries).put entry.1 entry.2 := by
  simp [ofList]

theorem mem_entries_put {table : Table κ α} {key : κ} {value : α} {entry : κ × α}
    (h : entry ∈ (table.put key value).entries) : entry = (key, value) ∨ entry ∈ table.entries := by
  rcases List.mem_cons.1 h with heq | hmem
  . exact .inl heq
  . exact .inr (List.mem_of_mem_filter hmem)

theorem mem_of_mem_ofList {entries : List (κ × α)} {entry : κ × α}
    (h : entry ∈ (ofList entries).entries) : entry ∈ entries := by
  induction entries using List.reverseRecOn with
  | nil => cases h
  | append_singleton rest last ih =>
    rw [ofList_concat] at h
    rcases mem_entries_put h with rfl | hmem
    . simp
    . exact List.mem_append_left _ (ih hmem)

theorem lookup_concat {entries : List (κ × α)} {last : κ × α}
    (h : ((entries ++ [last]).map Prod.fst).Nodup) (key : κ) :
    (entries ++ [last]).lookup key = if key = last.1 then some last.2 else entries.lookup key := by
  rw [List.map_append, List.nodup_append] at h
  obtain ⟨-, -, hlast⟩ := h
  rw [List.lookup_append]
  split
  . next heq =>
    subst heq
    have hnone : entries.lookup last.1 = none := by
      rw [List.lookup_eq_none_iff]
      intro entry hmem
      have := hlast entry.1 (List.mem_map_of_mem hmem) last.1 (by simp)
      simpa using Ne.symm this
    rw [hnone, Option.none_or, List.lookup_cons, beq_self_eq_true]
  . next hne =>
    have : [last].lookup key = none := by simp [hne]
    rw [this, Option.or_none]

theorem get?_ofList {entries : List (κ × α)} (h : (entries.map Prod.fst).Nodup) (key : κ) :
    (ofList entries).get? key = entries.lookup key := by
  induction entries using List.reverseRecOn with
  | nil => rfl
  | append_singleton rest last ih =>
    have hrest : (rest.map Prod.fst).Nodup := by
      rw [List.map_append] at h
      exact h.of_append_left
    rw [ofList_concat, get?_put, ih hrest, lookup_concat h]

theorem get?_ofList_map (table : Table κ α) {β : Type} (f : α → β) (key : κ) :
    (ofList (table.entries.map fun entry => (entry.1, f entry.2))).get? key =
      (table.get? key).map f := by
  have hnames : (table.entries.map fun entry => (entry.1, f entry.2)).map Prod.fst =
      table.entries.map Prod.fst := by
    rw [List.map_map]
    rfl
  rw [get?_ofList (hnames ▸ table.nodup), get?]
  induction table.entries with
  | nil => rfl
  | cons entry rest ih =>
    rw [List.map_cons, List.lookup_cons, List.lookup_cons, ih]
    split <;> rfl

end Table

end ReadProgress
