import ReadProgress.Proofs.Json.Decoder
import ReadProgress.Proofs.Json.Survival
import ReadProgress.Proofs.Members

/-!
This module contains how the decoding of a value depends on that of its parts. A record is read only
if all of its parts are, and unless something is wrong with the record itself, it is refused for the
same reason as one of them.
-/

namespace ReadProgress

namespace Json

theorem isFatal_of_ne_ttl {reason : Reason} (h : ∀ error, reason ≠ .ttl error) :
    reason.isFatal = false := by
  unfold Reason.isFatal
  rw [decide_eq_false_iff_not]
  exact h _

namespace Decoder

variable {α : Type} {d : Decoder α} {j : Json} {reason : Reason}

theorem error_map {β : Type} {f : α → β} (h : (d.map f).value j = .error reason) :
    d.value j = .error reason :=
  map_eq_error.1 h

theorem exists_of_members_error (h : d.members.value j = .error reason)
    (hfatal : reason.isFatal = true) :
    ∃ members name part, j = .object members ∧ (name, part) ∈ members ∧
      d.value part = .error reason := by
  cases j with
  | object members =>
    obtain ⟨⟨name, part⟩, hmem, hpart⟩ := exists_of_mapM_eq_error h
    exact ⟨members, name, part, rfl, hmem, map_eq_error.1 hpart⟩
  | null | boolean | integer | float | string | array =>
    cases h
    cases hfatal

theorem forall₂_of_members {members : List (String × Json)} {read : List (String × α)}
    (h : d.members.value (.object members) = .ok read) :
    List.Forall₂ (fun member entry => entry.1 = member.1 ∧ d.value member.2 = .ok entry.2)
      members read := by
  refine (forall₂_of_mapM_eq_ok h).imp ?_
  intro member entry hentry
  obtain ⟨a, ha, rfl⟩ := map_eq_ok.1 hentry
  exact ⟨rfl, ha⟩

theorem value_of_mem_members {members : List (String × Json)} {read : List (String × α)}
    (h : d.members.value (.object members) = .ok read) {name : String} {part : Json}
    (hmem : (name, part) ∈ members) : ∃ a, d.value part = .ok a := by
  obtain ⟨position, hposition, heq⟩ := List.mem_iff_getElem.1 hmem
  obtain ⟨hlength, hread⟩ := List.forall₂_iff_get.1 (forall₂_of_members h)
  obtain ⟨-, hvalue⟩ := hread position hposition (by omega)
  rw [List.get_eq_getElem, heq] at hvalue
  exact ⟨_, hvalue⟩

theorem last?_of_members {members : List (String × Json)} {read : List (String × α)}
    (h : d.members.value (.object members) = .ok read) (name : String) :
    (Members.last? members name).map d.value = (Members.last? read name).map .ok := by
  have hback := List.forall₂_reverse_iff.2 (forall₂_of_members h)
  unfold Members.last?
  generalize members.reverse = front, read.reverse = back at hback
  induction hback with
  | nil => rfl
  | @cons member entry _ _ hentry _ ih =>
    rw [List.lookup_cons, List.lookup_cons, hentry.1]
    split
    . rw [Option.map_some, Option.map_some, hentry.2]
    . exact ih

end Decoder

namespace RecordForm

variable {σ α : Type} {form : RecordForm σ α} {field : Field σ} {reason : Reason}

/--
A value has a part that is read as a certain field of a record. It is found under the name of the
field, or where a record is a list, at the position of the field.
-/
inductive HasPart (form : RecordForm σ α) (field : Field σ) : Json → Json → Prop where
  | named {members : List (String × Json)} {part : Json} {name : String}
      (hfield : form.fields.find? (·.name = name) = some field) (hmem : (name, part) ∈ members) :
      HasPart form field (.object members) part
  | placed {items : List Json} {part : Json} {index : Nat}
      (hfield : form.fields[index]? = some field) (hitem : items[index]? = some part) :
      HasPart form field (.array items) part

theorem HasPart.mem_fields {j part : Json} (h : form.HasPart field j part) : field ∈ form.fields := by
  cases h with
  | named hfield hmem => exact List.mem_of_find?_eq_some hfield
  | placed hfield hitem => exact List.mem_of_getElem? hfield

theorem exists_of_takeMembers_error {members : List (String × Json)} {state : σ}
    (h : form.takeMembers state members = .error reason) :
    ∃ name field part, form.fields.find? (·.name = name) = some field ∧ (name, part) ∈ members ∧
      field.decoder.value part = .error reason := by
  induction members generalizing state with
  | nil => cases h
  | cons member members ih =>
    obtain ⟨key, j⟩ := member
    unfold takeMembers at h
    split at h
    . obtain ⟨name, field, part, hfield, hmem, hpart⟩ := ih h
      exact ⟨name, field, part, hfield, List.mem_cons_of_mem _ hmem, hpart⟩
    . next field hfind =>
      rcases bind_eq_error.1 h with herror | ⟨set, -, hlater⟩
      . exact ⟨key, field, j, hfind, List.mem_cons_self, herror⟩
      . obtain ⟨name, field, part, hfield, hmem, hpart⟩ := ih hlater
        exact ⟨name, field, part, hfield, List.mem_cons_of_mem _ hmem, hpart⟩

theorem exists_of_takePositions_error {fields : List (Field σ)} {items : List Json} {index : Nat}
    {state : σ} (h : form.takePositions index state fields items = .error reason)
    (hfatal : reason.isFatal = true) :
    ∃ (position : Nat) (field : Field σ) (part : Json), fields[position]? = some field ∧
      items[position]? = some part ∧ field.decoder.value part = .error reason := by
  induction fields generalizing index items state with
  | nil => cases h
  | cons field fields ih =>
    cases items with
    | nil =>
      unfold takePositions at h
      split at h
      . obtain ⟨position, field, part, -, hitem, -⟩ := ih h
        simp at hitem
      . cases h
        cases hfatal
    | cons item items =>
      rcases bind_eq_error.1 h with herror | ⟨set, -, hlater⟩
      . exact ⟨0, field, item, rfl, rfl, herror⟩
      . obtain ⟨position, field, part, hfield, hitem, hpart⟩ := ih hlater
        exact ⟨position + 1, field, part, hfield, hitem, hpart⟩

theorem exists_part_of_error {j : Json} (h : form.decoder.value j = .error reason)
    (hfatal : reason.isFatal = true) :
    ∃ field part, form.HasPart field j part ∧ field.decoder.value part = .error reason := by
  cases j with
  | array items =>
    rcases bind_eq_error.1 h with htaken | ⟨⟨state, left⟩, -, h⟩
    . obtain ⟨position, field, part, hfield, hitem, hpart⟩ :=
        exists_of_takePositions_error htaken hfatal
      exact ⟨field, part, .placed hfield hitem, hpart⟩
    . rcases bind_eq_error.1 h with hclosed | ⟨a, -, h⟩
      . rw [isFatal_of_close hclosed] at hfatal
        cases hfatal
      . split at h
        . cases h
        . cases h
          cases hfatal
  | object members =>
    rcases bind_eq_error.1 h with htaken | ⟨state, -, hclosed⟩
    . obtain ⟨name, field, part, hfield, hmem, hpart⟩ := exists_of_takeMembers_error htaken
      exact ⟨field, part, .named hfield hmem, hpart⟩
    . rw [isFatal_of_close hclosed] at hfatal
      cases hfatal
  | null | boolean | integer | float | string =>
    cases h
    cases hfatal

theorem value_of_takeMembers {members : List (String × Json)} {state state' : σ}
    (h : form.takeMembers state members = .ok state') {name : String} {part : Json}
    (hfield : form.fields.find? (·.name = name) = some field) (hmem : (name, part) ∈ members) :
    ∃ set, field.decoder.value part = .ok set := by
  induction members generalizing state with
  | nil => cases hmem
  | cons member members ih =>
    rcases List.mem_cons.1 hmem with rfl | hmem
    . obtain ⟨set, hset, -⟩ := exists_of_takeMembers_cons hfield h
      exact ⟨set, hset⟩
    . unfold takeMembers at h
      split at h
      . exact ih h hmem
      . obtain ⟨set, -, h⟩ := bind_eq_ok.1 h
        exact ih h hmem

theorem value_of_takePositions {fields : List (Field σ)} {items left : List Json} {index : Nat}
    {state state' : σ} (h : form.takePositions index state fields items = .ok (state', left))
    {position : Nat} {part : Json} (hfield : fields[position]? = some field)
    (hitem : items[position]? = some part) : ∃ set, field.decoder.value part = .ok set := by
  induction fields generalizing index items state position with
  | nil => simp at hfield
  | cons first fields ih =>
    cases items with
    | nil => simp at hitem
    | cons item items =>
      obtain ⟨set, hset, h⟩ := bind_eq_ok.1 h
      cases position with
      | zero =>
        cases hfield
        cases hitem
        exact ⟨set, hset⟩
      | succ position => exact ih h hfield hitem

theorem value_of_hasPart {j part : Json} {a : α} (h : form.decoder.value j = .ok a)
    (hpart : form.HasPart field j part) : ∃ set, field.decoder.value part = .ok set := by
  cases hpart with
  | named hfield hmem =>
    obtain ⟨state, hstate, -⟩ := bind_eq_ok.1 h
    exact value_of_takeMembers hstate hfield hmem
  | placed hfield hitem =>
    obtain ⟨⟨state, left⟩, hstate, -⟩ := bind_eq_ok.1 h
    exact value_of_takePositions hstate hfield hitem

/--
Of the members that have the name of a field, the last one counts, as long as no other field puts
anything in its place.
-/
theorem last?_of_takeMembers {β : Type} {name : String} (get : σ → Option β) (d : Decoder β)
    (hfield : form.fields.find? (·.name = name) = some field)
    (hget : ∀ part set, field.decoder.value part = .ok set →
      ∃ x, d.value part = .ok x ∧ ∀ state, get (set state) = some x)
    (hother : ∀ other ∈ form.fields, other.name ≠ name → ∀ part set,
      other.decoder.value part = .ok set → ∀ state, get (set state) = get state)
    {members : List (String × Json)} {state state' : σ}
    (h : form.takeMembers state members = .ok state') :
    (Members.last? members name = none ∧ get state' = get state) ∨
      ∃ part x, Members.last? members name = some part ∧ d.value part = .ok x ∧
        get state' = some x := by
  induction members generalizing state with
  | nil =>
    cases h
    exact .inl ⟨rfl, rfl⟩
  | cons member members ih =>
    obtain ⟨key, j⟩ := member
    rw [Members.last?_cons]
    by_cases hkey : name = key
    . subst hkey
      obtain ⟨set, hset, h⟩ := exists_of_takeMembers_cons hfield h
      obtain ⟨x, hx, hstate⟩ := hget j set hset
      rw [if_pos rfl]
      -- This member counts only if none of the later ones has the same name.
      rcases ih h with ⟨hnone, hsame⟩ | ⟨part, x', hlast, hx', hstate'⟩
      . refine .inr ⟨j, x, ?_, hx, ?_⟩
        . rw [hnone, Option.none_or]
        . rw [hsame, hstate]
      . refine .inr ⟨part, x', ?_, hx', hstate'⟩
        rw [hlast, Option.some_or]
    . rw [if_neg hkey, Option.or_none]
      unfold takeMembers at h
      split at h
      . exact ih h
      . next other hfind =>
        obtain ⟨set, hset, h⟩ := bind_eq_ok.1 h
        have hname : other.name ≠ name := by
          have hsame : other.name = key := by simpa using List.find?_some hfind
          rw [hsame]
          exact Ne.symm hkey
        rw [← hother other (List.mem_of_find?_eq_some hfind) hname j set hset state]
        exact ih h

theorem exists_last?_of_takeMembers {β : Type} {name : String} (get : σ → Option β) (d : Decoder β)
    (hfield : form.fields.find? (·.name = name) = some field)
    (hget : ∀ part set, field.decoder.value part = .ok set →
      ∃ x, d.value part = .ok x ∧ ∀ state, get (set state) = some x)
    (hother : ∀ other ∈ form.fields, other.name ≠ name → ∀ part set,
      other.decoder.value part = .ok set → ∀ state, get (set state) = get state)
    {members : List (String × Json)} {state state' : σ}
    (h : form.takeMembers state members = .ok state') (hstate : get state = none) {x : β}
    (hstate' : get state' = some x) :
    ∃ part, Members.last? members name = some part ∧ d.value part = .ok x := by
  rcases form.last?_of_takeMembers get d hfield hget hother h with
    ⟨-, hsame⟩ | ⟨part, x', hlast, hvalue, htaken⟩
  . rw [hsame, hstate] at hstate'
    cases hstate'
  . rw [htaken] at hstate'
    cases hstate'
    exact ⟨part, hlast, hvalue⟩

end RecordForm

end Json

end ReadProgress
