import Mathlib.Data.List.Sort
import ReadProgress.Members
import ReadProgress.Proofs.Table

/-!
This module contains what is found in lists of named members after they have been sorted.
-/

namespace ReadProgress

namespace Members

variable {α β : Type}

theorem ofList_concat (members : List (String × α)) (member : String × α) :
    ofList (members ++ [member]) = insert member.1 member.2 (ofList members) := by
  rw [ofList, List.foldl_append]
  rfl

theorem mem_ofList {members : List (String × α)} {member : String × α}
    (h : member ∈ ofList members) : member ∈ members := by
  induction members using List.reverseRecOn with
  | nil => cases h
  | append_singleton rest last ih =>
    rw [ofList_concat] at h
    rcases mem_insert h with rfl | hmem
    . simp
    . exact List.mem_append_left _ (ih hmem)

theorem insert_of_forall_lt {name : String} {value : α} {members : Members α}
    (h : ∀ member ∈ members, member.1 < name) :
    insert name value members = members ++ [(name, value)] := by
  induction members with
  | nil => rfl
  | cons head rest ih =>
    have hhead := h head List.mem_cons_self
    have hne : name ≠ head.1 := by
      rintro rfl
      exact String.lt_irrefl _ hhead
    rw [insert, if_neg (String.lt_asymm hhead), if_neg hne,
      ih fun member hmem => h member (List.mem_cons_of_mem _ hmem)]
    rfl

theorem ofList_of_ascending {members : Members α} (h : members.Ascending) :
    ofList members = members := by
  induction members using List.reverseRecOn with
  | nil => rfl
  | append_singleton rest last ih =>
    obtain ⟨hrest, -, hlast⟩ := List.pairwise_append.1 h
    rw [ofList_concat, ih hrest]
    exact insert_of_forall_lt fun member hmem => hlast member hmem last (by simp)

theorem ascending_map {members : Members α} (h : members.Ascending) (f : String × α → β) :
    Ascending (members.map fun member => (member.1, f member)) :=
  List.pairwise_map.2 h

theorem ascending_of_names (names : List String) {members : Members α}
    (hnames : members.map Prod.fst = names) (h : names.Pairwise (· < ·)) : members.Ascending := by
  subst hnames
  exact List.pairwise_map.1 h

theorem Ascending.nodup {members : Members α} (h : members.Ascending) :
    (members.map Prod.fst).Nodup := by
  refine List.pairwise_map.2 (h.imp ?_)
  intro a b hlt heq
  exact String.lt_irrefl b.1 (heq ▸ hlt)

theorem Ascending.eq_of_lookup {members others : Members α} (h : members.Ascending)
    (hothers : others.Ascending) (hsame : ∀ name, members.lookup name = others.lookup name) :
    members = others := by
  have hasymm : Std.Antisymm fun a b : String × α => a.1 < b.1 :=
    ⟨fun a b hlt hgt => absurd hgt (String.lt_asymm hlt)⟩
  have hirrefl : Std.Irrefl fun a b : String × α => a.1 < b.1 := ⟨fun a => String.lt_irrefl a.1⟩
  refine List.Pairwise.eq_of_mem_iff h hothers fun member => ?_
  rw [← Table.lookup_eq_some_iff_mem h.nodup, ← Table.lookup_eq_some_iff_mem hothers.nodup, hsame]

/--
The last one of some members with a certain name.
-/
def last? (members : List (String × α)) (name : String) : Option α :=
  members.reverse.lookup name

theorem last?_concat (members : List (String × α)) (member : String × α) (name : String) :
    last? (members ++ [member]) name = if name = member.1 then some member.2 else last? members name := by
  rw [last?, List.reverse_concat, List.lookup_cons]
  split
  . next heq => rw [if_pos (eq_of_beq heq)]
  . next hne => rw [if_neg (by simpa using hne), last?]

theorem last?_cons (member : String × α) (members : List (String × α)) (name : String) :
    last? (member :: members) name =
      (last? members name).or (if name = member.1 then some member.2 else none) := by
  rw [last?, List.reverse_cons, List.lookup_append, last?, List.lookup_cons]
  congr
  split
  . next heq => rw [if_pos (eq_of_beq heq)]
  . next hne => rw [if_neg (by simpa using hne), List.lookup_nil]

theorem lookup_ofList_eq_last? (members : List (String × α)) (name : String) :
    (ofList members).lookup name = last? members name := by
  induction members using List.reverseRecOn with
  | nil => rfl
  | append_singleton rest last ih => rw [ofList_concat, lookup_insert, last?_concat, ih]

theorem filter_of_forall_lt {name : String} {members : Members α}
    (h : ∀ member ∈ members, name < member.1) : members.filter (·.1 = name) = [] := by
  rw [List.filter_eq_nil_iff]
  intro member hmem heq
  have hlt := h member hmem
  rw [of_decide_eq_true heq] at hlt
  exact String.lt_irrefl _ hlt

theorem filter_cons_of_forall_lt (head : String × α) {rest : Members α}
    (h : ∀ member ∈ rest, head.1 < member.1) (key : String) :
    (head :: rest).filter (·.1 = key) =
      if key = head.1 then [head] else rest.filter (·.1 = key) := by
  rw [List.filter_cons]
  by_cases heq : head.1 = key
  . subst heq
    rw [if_pos (decide_eq_true rfl), if_pos rfl, filter_of_forall_lt h]
  . rw [if_neg fun h => heq (of_decide_eq_true h), if_neg (Ne.symm heq)]

theorem filter_insert {members : Members α} (h : members.Ascending) (name key : String) (value : α) :
    (insert name value members).filter (·.1 = key) =
      if key = name then [(name, value)] else members.filter (·.1 = key) := by
  induction members with
  | nil => exact filter_cons_of_forall_lt (name, value) (List.forall_mem_nil _) key
  | cons head rest ih =>
    obtain ⟨hhead, hrest⟩ := List.pairwise_cons.1 h
    have hinsert : (insert name value (head :: rest)).Ascending := ascending_insert h
    by_cases hlt : name < head.1
    . rw [insert, if_pos hlt] at hinsert ⊢
      exact filter_cons_of_forall_lt _ (List.pairwise_cons.1 hinsert).1 key
    by_cases heq : name = head.1
    . subst heq
      rw [insert, if_neg hlt, if_pos rfl] at hinsert ⊢
      rw [filter_cons_of_forall_lt _ (List.pairwise_cons.1 hinsert).1, filter_cons_of_forall_lt _ hhead]
      split <;> rfl
    . rw [insert, if_neg hlt, if_neg heq] at hinsert ⊢
      rw [filter_cons_of_forall_lt _ (List.pairwise_cons.1 hinsert).1, ih hrest,
        filter_cons_of_forall_lt _ hhead]
      -- the names differ, so at most one of them is the one that is looked for
      by_cases hkey : key = head.1
      . subst hkey
        rw [if_pos rfl, if_pos rfl, if_neg (Ne.symm heq)]
      . rw [if_neg hkey, if_neg hkey]

theorem filter_ofList (members : List (String × α)) (name : String) :
    (ofList members).filter (·.1 = name) = (members.filter (·.1 = name)).getLast?.toList := by
  induction members using List.reverseRecOn with
  | nil => rfl
  | append_singleton rest last ih =>
    rw [ofList_concat, filter_insert (ascending_ofList rest), List.filter_append, ih]
    by_cases heq : name = last.1
    . simp [heq]
    . simp [heq, Ne.symm heq]

theorem insert_perm {name : String} {members : Members α} (h : name ∉ members.map Prod.fst)
    (value : α) : (insert name value members).Perm ((name, value) :: members) := by
  induction members with
  | nil => exact .refl _
  | cons head rest ih =>
    rw [List.map_cons, List.mem_cons, not_or] at h
    unfold insert
    split
    . exact .refl _
    . rw [if_neg h.1]
      exact ((ih h.2).cons _).trans (.swap _ _ _)

theorem ofList_perm {members : List (String × α)} (h : (members.map Prod.fst).Nodup) :
    (ofList members).Perm members := by
  induction members using List.reverseRecOn with
  | nil => exact .nil
  | append_singleton rest last ih =>
    rw [List.map_append, List.map_singleton, List.nodup_append] at h
    obtain ⟨hrest, -, hlast⟩ := h
    have hnot : last.1 ∉ (ofList rest).map Prod.fst := by
      rw [((ih hrest).map _).mem_iff]
      intro hmem
      exact hlast _ hmem _ List.mem_cons_self rfl
    rw [ofList_concat]
    refine (insert_perm hnot last.2).trans ?_
    exact ((ih hrest).cons last).trans (List.perm_append_singleton last rest).symm

end Members

end ReadProgress
