/-!
This module contains lists of named members that are sorted by name, each name once. Such a list is
determined by what is found under each name.
-/

namespace ReadProgress

abbrev Members (α : Type) := List (String × α)

namespace Members

variable {α : Type}

/--
Each name comes before all those behind it, in the order of their bytes.
-/
def Ascending (members : Members α) : Prop :=
  members.Pairwise fun a b => a.1 < b.1

instance (members : Members α) : Decidable members.Ascending :=
  inferInstanceAs (Decidable (members.Pairwise fun a b => a.1 < b.1))

/--
Put a member into its place. A member of the same name is replaced.
-/
def insert (name : String) (value : α) : Members α → Members α
  | [] => [(name, value)]
  | (name', value') :: rest =>
    if name < name' then (name, value) :: (name', value') :: rest
    else if name = name' then (name, value) :: rest
    else (name', value') :: insert name value rest

/--
Sort members. Of those with one name, the last one stays.
-/
def ofList (members : List (String × α)) : Members α :=
  members.foldl (fun sorted member => insert member.1 member.2 sorted) []

def erase (name : String) (members : Members α) : Members α :=
  members.filter (·.1 ≠ name)

theorem mem_insert {name : String} {value : α} {members : Members α} {member : String × α}
    (h : member ∈ insert name value members) : member = (name, value) ∨ member ∈ members := by
  induction members with
  | nil => simpa [insert] using h
  | cons head rest ih => grind [insert]

theorem ascending_insert {name : String} {value : α} {members : Members α}
    (h : members.Ascending) : (insert name value members).Ascending := by
  induction members with
  | nil => simp [insert, Ascending]
  | cons head rest ih =>
    obtain ⟨hhead, hrest⟩ := List.pairwise_cons.1 h
    simp only [insert]
    split
    . next hlt =>
      refine List.pairwise_cons.2 ⟨fun member hmem => ?_, h⟩
      rcases List.mem_cons.1 hmem with rfl | hmem
      . exact hlt
      . exact String.lt_trans hlt (hhead member hmem)
    . split
      . next heq => exact List.pairwise_cons.2 ⟨fun member hmem => heq ▸ hhead member hmem, hrest⟩
      . next hnlt hne =>
        refine List.pairwise_cons.2 ⟨fun member hmem => ?_, ih hrest⟩
        rcases mem_insert hmem with rfl | hmem
        . exact Std.lt_of_le_of_ne (String.not_lt.1 hnlt) (Ne.symm hne)
        . exact hhead member hmem

theorem ascending_ofList (members : List (String × α)) : (ofList members).Ascending := by
  suffices h : ∀ sorted : Members α, sorted.Ascending →
      (members.foldl (fun sorted member => insert member.1 member.2 sorted) sorted).Ascending by
    exact h [] .nil
  induction members with
  | nil => exact fun _ h => h
  | cons head rest ih => exact fun sorted h => ih _ (ascending_insert h)

theorem ascending_erase {name : String} {members : Members α} (h : members.Ascending) :
    (erase name members).Ascending :=
  h.filter _

@[simp]
theorem lookup_insert (name key : String) (value : α) (members : Members α) :
    (insert name value members).lookup key =
      if key = name then some value else members.lookup key := by
  induction members with
  | nil => grind [insert]
  | cons head rest ih =>
    simp only [insert]
    split
    . grind
    . split <;> grind

@[simp]
theorem lookup_erase (name key : String) (members : Members α) :
    (erase name members).lookup key = if key = name then none else members.lookup key := by
  induction members with
  | nil => simp [erase]
  | cons head rest ih => grind [erase]

end Members

end ReadProgress
