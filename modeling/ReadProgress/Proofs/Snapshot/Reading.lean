import ReadProgress.Proofs.Json.Parts
import ReadProgress.Proofs.Snapshot.Form

/-!
This module contains what values have to be like to be read as a snapshot, and for which reason those
are refused that are not.
-/

namespace ReadProgress

open Json (Decoder Reason)

namespace Json.Decoder

variable {α β : Type} {d : Decoder α}

/--
The decoder never refuses a value for a reason that no operation survives.
-/
def IsMild (d : Decoder α) : Prop :=
  ∀ (j : Json) (reason : Reason), d.value j = .error reason → reason.isFatal = false

theorem IsMild.map (h : d.IsMild) (f : α → β) : (d.map f).IsMild := by
  intro j reason hvalue
  exact h j reason (error_map hvalue)

theorem isMild_boolean : boolean.IsMild := by
  intro j reason h
  cases j with
  | boolean b => cases h
  | null | integer | float | string | array | object =>
    cases h
    exact isFatal_of_ne_ttl (by simp)

theorem isMild_integer (low high : Int) (expected : String) : (integer low high expected).IsMild := by
  intro j reason h
  cases j with
  | integer i =>
    change (if low ≤ i ∧ i ≤ high then _ else _) = _ at h
    split at h
    . cases h
    . cases h
      exact isFatal_of_ne_ttl (by simp)
  | null | boolean | float | string | array | object =>
    cases h
    exact isFatal_of_ne_ttl (by simp)

theorem isMild_parsed {expected : String} {f : String → Except Reason α}
    (h : ∀ text reason, f text = .error reason → reason.isFatal = false) :
    (parsed expected f).IsMild := by
  intro j reason hvalue
  cases j with
  | string text => exact h text reason hvalue
  | null | boolean | integer | float | array | object =>
    cases hvalue
    exact isFatal_of_ne_ttl (by simp)

theorem isMild_string : string.IsMild :=
  isMild_parsed (by simp)

end Json.Decoder

theorem Timestamp.isMild_decoder : decoder.IsMild := by
  apply Decoder.isMild_parsed
  intro text reason h
  obtain ⟨cause, -, rfl⟩ := mapError_eq_error.1 h
  exact Json.isFatal_of_ne_ttl (by simp)

theorem Ttl.exists_of_value_error {j : Json} {reason : Reason} (h : decoder.value j = .error reason)
    (hfatal : reason.isFatal = true) :
    ∃ text, j = .string text ∧ read text = .error .secondsOverflow := by
  rcases bind_eq_error.1 h with hstring | ⟨text, hstring, hread⟩
  . rw [Decoder.isMild_string j reason hstring] at hfatal
    cases hfatal
  . obtain ⟨cause, hcause, rfl⟩ := mapError_eq_error.1 hread
    obtain rfl : cause = .secondsOverflow := by simpa [Reason.isFatal] using hfatal
    cases j with
    | string text' =>
      cases hstring
      exact ⟨text, rfl, hcause⟩
    | null | boolean | integer | float | array | object => cases hstring

/--
A value has a text as its policy for removal that is to be read as a row.
-/
def Row.HasTtl (value : Json) (text : String) : Prop :=
  ∃ field : Json.Field Row.Parts, field.name = "ttl" ∧ form.HasPart field value (.string text)

/--
One of the rows of a value that is to be read as a snapshot has a text as its policy for removal.
-/
def Snapshot.HasTtl (value : Json) (text : String) : Prop :=
  ∃ (field : Json.Field Snapshot.Parts) (rows : List (String × Json)) (id : String) (row : Json),
    field.name = "states" ∧ form.HasPart field value (.object rows) ∧ (id, row) ∈ rows ∧
      Row.HasTtl row text

namespace Row

theorem exists_ttl_of_error {j : Json} {reason : Reason} (h : form.decoder.value j = .error reason)
    (hfatal : reason.isFatal = true) :
    ∃ text, HasTtl j text ∧ Ttl.read text = .error .secondsOverflow := by
  obtain ⟨field, part, hpart, herror⟩ := form.exists_part_of_error h hfatal
  have hmild : ∀ {α : Type} {d : Decoder α} (f : α → Parts → Parts), d.IsMild →
      field.decoder ≠ d.map f := by
    rintro α d f hd heq
    rw [heq] at herror
    rw [hd.map f part reason herror] at hfatal
    cases hfatal
  have hfield : field ∈ form.fields := hpart.mem_fields
  simp only [form, List.mem_cons, List.not_mem_nil, or_false] at hfield
  rcases hfield with rfl | rfl | rfl | rfl | rfl
  . exact absurd rfl (hmild _ Decoder.isMild_string)
  . exact absurd rfl (hmild _ ((Decoder.isMild_integer _ _ _).map _))
  . exact absurd rfl (hmild _ Timestamp.isMild_decoder)
  . obtain ⟨text, rfl, hread⟩ := Ttl.exists_of_value_error (Decoder.error_map herror) hfatal
    exact ⟨text, ⟨_, rfl, hpart⟩, hread⟩
  . exact absurd rfl (hmild _ Decoder.isMild_boolean)

theorem read_of_hasTtl {j : Json} {row : Row} {text : String} (h : form.decoder.value j = .ok row)
    (httl : HasTtl j text) : ∃ ttl, Ttl.read text = .ok ttl := by
  obtain ⟨field, hname, hpart⟩ := httl
  obtain ⟨set, hset⟩ := form.value_of_hasPart h hpart
  have hfield : field ∈ form.fields := hpart.mem_fields
  simp only [form, List.mem_cons, List.not_mem_nil, or_false] at hfield
  rcases hfield with rfl | rfl | rfl | rfl | rfl
  . simp at hname
  . simp at hname
  . simp at hname
  . obtain ⟨ttl, httl, -⟩ := map_eq_ok.1 hset
    exact ⟨ttl, mapError_eq_ok.1 httl⟩
  . simp at hname

end Row

namespace Snapshot

variable {value : Json} {snapshot : Snapshot}

theorem exists_ttl_of_error {reason : Reason} (h : form.decoder.value value = .error reason)
    (hfatal : reason.isFatal = true) :
    ∃ text, HasTtl value text ∧ Ttl.read text = .error .secondsOverflow := by
  obtain ⟨field, part, hpart, herror⟩ := form.exists_part_of_error h hfatal
  have hfield : field ∈ form.fields := hpart.mem_fields
  simp only [form, List.mem_cons, List.not_mem_nil, or_false] at hfield
  rcases hfield with rfl | rfl
  . rw [((Decoder.isMild_integer _ _ _).map _).map _ part reason herror] at hfatal
    cases hfatal
  . obtain ⟨rows, id, row, rfl, hmem, hrow⟩ :=
      Decoder.exists_of_members_error (Decoder.error_map herror) hfatal
    obtain ⟨text, httl, hread⟩ := Row.exists_ttl_of_error hrow hfatal
    exact ⟨text, ⟨_, rows, id, row, rfl, hpart, hmem, httl⟩, hread⟩

theorem isMild_versionForm : versionForm.decoder.IsMild := by
  intro j reason h
  by_contra hfatal
  rw [Bool.not_eq_false] at hfatal
  obtain ⟨field, part, hpart, herror⟩ := versionForm.exists_part_of_error h hfatal
  obtain rfl := List.mem_singleton.1 hpart.mem_fields
  rw [((Decoder.isMild_integer _ _ _).map _).map _ part reason herror] at hfatal
  cases hfatal

theorem read_of_hasTtl {text : String} (h : form.decoder.value value = .ok snapshot)
    (httl : HasTtl value text) : ∃ ttl, Ttl.read text = .ok ttl := by
  obtain ⟨field, rows, id, row, hname, hpart, hmem, httl⟩ := httl
  obtain ⟨set, hset⟩ := form.value_of_hasPart h hpart
  have hfield : field ∈ form.fields := hpart.mem_fields
  simp only [form, List.mem_cons, List.not_mem_nil, or_false] at hfield
  rcases hfield with rfl | rfl
  . simp at hname
  . obtain ⟨read, hread, -⟩ := map_eq_ok.1 hset
    obtain ⟨found, hrow⟩ := Decoder.value_of_mem_members hread hmem
    exact Row.read_of_hasTtl hrow httl

/--
A value is an object that has the version that is known and all the rows of a snapshot, and no others.
Where a name occurs more than once, the last member of that name counts.
-/
structure IsReadFrom (snapshot : Snapshot) (value : Json) : Prop where
  decoded : form.decoder.value value = .ok snapshot
  version : snapshot.version = currentVersion
  members : ∃ members rows, value = .object members ∧
    Members.last? members "version" = some (.integer 1) ∧
    Members.last? members "states" = some (.object rows) ∧
    ∀ id, (Members.last? rows id).map Row.form.decoder.value = (snapshot.row? id).map .ok

theorem eq_one_of_value_uint8 {j : Json} (h : Decoder.uint8.value j = .ok 1) : j = .integer 1 := by
  obtain ⟨i, hi, hvalue⟩ := map_eq_ok.1 h
  cases j with
  | integer k =>
    change (if 0 ≤ k ∧ k ≤ 255 then _ else _) = _ at hi
    split at hi
    . next hrange =>
      cases hi
      have := congrArg UInt8.toNat hvalue
      rw [Nat.toUInt8, UInt8.toNat_ofNat'] at this
      congr
      change i.toNat % 256 = 1 at this
      omega
    . cases hi
  | null | boolean | float | string | array | object => cases hi

theorem exists_takeMembers_version {members : List (String × Json)} {parts parts' : Parts}
    (h : form.takeMembers parts members = .ok parts') (v : Option UInt8) :
    ∃ v', versionForm.takeMembers v members = .ok v' := by
  cases hversion : versionForm.takeMembers v members with
  | ok v' => exact ⟨v', rfl⟩
  | error reason =>
    obtain ⟨name, field, part, hfield, hmem, herror⟩ := versionForm.exists_of_takeMembers_error hversion
    obtain rfl := List.mem_singleton.1 (List.mem_of_find?_eq_some hfield)
    obtain rfl : "version" = name := by simpa using List.find?_some hfield
    obtain ⟨set, hset⟩ := form.value_of_takeMembers h rfl hmem
    obtain ⟨x, hx, -⟩ := map_eq_ok.1 hset
    have := Decoder.error_map herror
    rw [hx] at this
    cases this

theorem last?_version_of_takeMembers {members : List (String × Json)} {parts : Parts}
    (h : form.takeMembers form.blank members = .ok parts) {version : UInt8}
    (hversion : parts.version = some version) :
    ∃ part, Members.last? members "version" = some part ∧ Decoder.uint8.value part = .ok version := by
  have hfield : form.fields.find? (·.name = "version") = some _ := rfl
  have hother : ∀ other ∈ form.fields, other.name ≠ "version" → ∀ part set,
      other.decoder.value part = .ok set → ∀ parts : Parts, (set parts).version = parts.version := by
    intro other hother hname part set hset
    simp only [form, List.mem_cons, List.not_mem_nil, or_false] at hother
    rcases hother with rfl | rfl
    . simp at hname
    . obtain ⟨x, -, rfl⟩ := map_eq_ok.1 hset
      exact fun _ => rfl
  refine form.exists_last?_of_takeMembers Parts.version _ hfield ?_ hother h rfl hversion
  intro part set hset
  obtain ⟨x, hx, rfl⟩ := map_eq_ok.1 hset
  exact ⟨x, hx, fun _ => rfl⟩

theorem last?_states_of_takeMembers {members : List (String × Json)} {parts : Parts}
    (h : form.takeMembers form.blank members = .ok parts) {rows : List (String × Row)}
    (hrows : parts.rows = some rows) :
    ∃ part, Members.last? members "states" = some part ∧
      Row.form.decoder.members.value part = .ok rows := by
  have hfield : form.fields.find? (·.name = "states") = some _ := rfl
  have hother : ∀ other ∈ form.fields, other.name ≠ "states" → ∀ part set,
      other.decoder.value part = .ok set → ∀ parts : Parts, (set parts).rows = parts.rows := by
    intro other hother hname part set hset
    simp only [form, List.mem_cons, List.not_mem_nil, or_false] at hother
    rcases hother with rfl | rfl
    . obtain ⟨x, -, rfl⟩ := map_eq_ok.1 hset
      exact fun _ => rfl
    . simp at hname
  refine form.exists_last?_of_takeMembers Parts.rows _ hfield ?_ hother h rfl hrows
  intro part set hset
  obtain ⟨x, hx, rfl⟩ := map_eq_ok.1 hset
  exact ⟨x, hx, fun _ => rfl⟩

theorem IsReadFrom.value_versionForm (h : snapshot.IsReadFrom value) :
    versionForm.decoder.value value = .ok currentVersion := by
  obtain ⟨members, rows, rfl, -⟩ := h.members
  obtain ⟨parts, hparts, hclose⟩ := bind_eq_ok.1 h.decoded
  obtain ⟨v, hv⟩ := exists_takeMembers_version hparts none
  obtain ⟨-, hsnapshot, -⟩ := of_close hclose
  -- Both readings take the version from the same members.
  have hsame := takeMembers_version rfl hv hparts
  refine bind_eq_ok.2 ⟨v, hv, ?_⟩
  rw [← hsame, hsnapshot, h.version]
  rfl

theorem isReadFrom_iff : snapshot.IsReadFrom value ↔
    versionForm.decoder.value value = .ok currentVersion ∧ form.decoder.value value = .ok snapshot := by
  constructor
  . intro h
    exact ⟨h.value_versionForm, h.decoded⟩
  . rintro ⟨hversion, hdecoded⟩
    have hknown : snapshot.version = currentVersion := version_eq_of_value hversion hdecoded
    obtain ⟨members, rfl⟩ := isObject_of_value hversion hdecoded
    refine ⟨hdecoded, hknown, ?_⟩
    obtain ⟨parts, hparts, hclose⟩ := bind_eq_ok.1 hdecoded
    obtain ⟨rows, hv, hrows, hsnapshot⟩ := of_close hclose
    obtain ⟨part, hlast, hone⟩ := last?_version_of_takeMembers hparts hv
    obtain ⟨part', hlast', hstates⟩ := last?_states_of_takeMembers hparts hrows
    rw [hknown] at hone
    obtain rfl := eq_one_of_value_uint8 hone
    obtain ⟨kept, rfl⟩ : ∃ kept, part' = .object kept := by
      cases part' with
      | object kept => exact ⟨kept, rfl⟩
      | null | boolean | integer | float | string | array => cases hstates
    refine ⟨members, kept, rfl, hlast, hlast', ?_⟩
    intro id
    rw [Decoder.last?_of_members hstates, row?, hsnapshot, Members.lookup_ofList_eq_last?]

end Snapshot

end ReadProgress
