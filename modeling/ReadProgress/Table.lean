/-!
This module contains finite tables, with an order in which they are gone through that depends on
their history. Nothing but that order tells apart two tables with the same values under the same
keys.
-/

namespace ReadProgress

/--
A finite table: its entries in the order in which they are gone through, each key once.
-/
structure Table (κ α : Type) where
  entries : List (κ × α)
  nodup : (entries.map Prod.fst).Nodup

namespace Table

variable {κ α : Type}

def empty : Table κ α where
  entries := []
  nodup := .nil

instance : Inhabited (Table κ α) := ⟨empty⟩

def isEmpty (table : Table κ α) : Bool :=
  table.entries.isEmpty

def restrict (table : Table κ α) (p : κ → Bool) : Table κ α where
  entries := table.entries.filter fun entry => p entry.1
  nodup := table.nodup.sublist (List.filter_sublist.map _)

variable [DecidableEq κ]

def get? (table : Table κ α) (key : κ) : Option α :=
  table.entries.lookup key

def contains (table : Table κ α) (key : κ) : Bool :=
  (table.get? key).isSome

def erase (table : Table κ α) (key : κ) : Table κ α :=
  table.restrict (· ≠ key)

def put (table : Table κ α) (key : κ) (value : α) : Table κ α where
  entries := (key, value) :: (table.erase key).entries
  nodup := by
    refine List.nodup_cons.2 ⟨?_, (table.erase key).nodup⟩
    simp [erase, restrict]

/--
A table from entries in the order in which they come. Of those with one key, the last one stays.
-/
def ofList (entries : List (κ × α)) : Table κ α :=
  entries.foldl (fun table entry => table.put entry.1 entry.2) empty

@[simp]
theorem get?_empty (key : κ) : (empty : Table κ α).get? key = none := rfl

@[simp]
theorem get?_restrict (table : Table κ α) (p : κ → Bool) (key : κ) :
    (table.restrict p).get? key = if p key then table.get? key else none := by
  simp only [get?, restrict]
  induction table.entries with
  | nil => simp
  | cons head rest ih => grind

@[simp]
theorem get?_erase (table : Table κ α) (erased key : κ) :
    (table.erase erased).get? key = if key = erased then none else table.get? key := by
  simp only [erase, get?_restrict]
  grind

@[simp]
theorem get?_put (table : Table κ α) (set key : κ) (value : α) :
    (table.put set value).get? key = if key = set then some value else table.get? key := by
  have h := table.get?_erase set key
  simp only [get?, put] at h ⊢
  grind

end Table

end ReadProgress
