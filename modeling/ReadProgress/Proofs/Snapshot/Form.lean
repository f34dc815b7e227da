import ReadProgress.Proofs.Json.Decoder
import ReadProgress.Proofs.Ttl
import ReadProgress.Snapshot.Form

/-!
This module contains the proof that snapshots are read as they were written, row by row, and what is
known of snapshots that have been read.
-/

namespace ReadProgress

open Json (Decoder)

namespace Json.Decoder

theorem value_integer {low high i : Int} (hlow : low ≤ i) (hhigh : i ≤ high) (expected : String) :
    (integer low high expected).value (.integer i) = .ok i :=
  if_pos ⟨hlow, hhigh⟩

theorem value_uint8 (x : UInt8) : uint8.value (.integer x.toNat) = .ok x := by
  have hx := x.toNat_lt
  exact map_eq_ok.2 ⟨_, value_integer (by omega) (by omega) _, by simp⟩

theorem value_uint64 (x : UInt64) : uint64.value (.integer x.toNat) = .ok x := by
  have hx := x.toNat_lt
  exact map_eq_ok.2 ⟨_, value_integer (by omega) (by omega) _, by simp⟩

end Json.Decoder

theorem Timestamp.value_decoder (t : Timestamp) : decoder.value (.string t.written) = .ok t := by
  simp only [decoder, Decoder.parsed, Timestamp.read_written]
  rfl

theorem Ttl.value_decoder {t : Ttl} (h : t ≠ after .zero) :
    decoder.value (.string t.written) = .ok t :=
  mapError_eq_ok.2 (Ttl.read_written h)

theorem Ttl.ne_after_zero_of_value {j : Json} {t : Ttl} (h : decoder.value j = .ok t) :
    t ≠ after .zero := by
  obtain ⟨text, -, hread⟩ := bind_eq_ok.1 h
  exact Ttl.ne_after_zero_of_read (mapError_eq_ok.1 hread)

namespace Row

/--
A row that is written as it is and not as another one.
-/
def Storable (row : Row) : Prop :=
  row.ttl ≠ .after .zero

theorem value_form {row : Row} (h : row.Storable) : form.decoder.value row.toJson = .ok row := by
  have hfinished : form.fields.find? (·.name = "finished") = some _ := rfl
  have hoffset : form.fields.find? (·.name = "offset") = some _ := rfl
  have hsource : form.fields.find? (·.name = "source") = some _ := rfl
  have htimestamp : form.fields.find? (·.name = "timestamp") = some _ := rfl
  have httl : form.fields.find? (·.name = "ttl") = some _ := rfl
  refine bind_eq_ok.2 ⟨⟨some row.source, some row.offset, some row.timestamp, some row.ttl,
    some row.finished⟩, ?_, rfl⟩
  rw [form.takeMembers_cons hfinished (Decoder.value_map rfl _),
    form.takeMembers_cons hoffset (Decoder.value_map (Decoder.value_uint64 _) _),
    form.takeMembers_cons hsource (Decoder.value_map rfl _),
    form.takeMembers_cons htimestamp (Decoder.value_map (Timestamp.value_decoder _) _),
    form.takeMembers_cons httl (Decoder.value_map (Ttl.value_decoder h) _)]
  rfl

theorem of_finish {parts : Parts} {row : Row} (h : form.finish parts = .ok row) :
    parts = ⟨some row.source, some row.offset, some row.timestamp, some row.ttl,
      some row.finished⟩ := by
  obtain ⟨source, offset, timestamp, ttl, finished⟩ := parts
  cases source with
  | none => cases h
  | some source =>
  cases offset with
  | none => cases h
  | some offset =>
  cases timestamp with
  | none => cases h
  | some timestamp =>
  cases ttl with
  | none => cases h
  | some ttl =>
  cases finished with
  | none => cases h
  | some finished =>
    cases h
    rfl

theorem storable_of_value {j : Json} {row : Row} (h : form.decoder.value j = .ok row) :
    row.Storable := by
  refine Json.RecordForm.of_value (fun parts => ∀ t, parts.ttl = some t → t ≠ .after .zero)
    nofun ?_ ?_ h
  . intro field hfield j set hset parts hparts
    simp only [form, List.mem_cons, List.not_mem_nil, or_false] at hfield
    rcases hfield with rfl | rfl | rfl | rfl | rfl
    . obtain ⟨x, -, rfl⟩ := map_eq_ok.1 hset
      exact hparts
    . obtain ⟨x, -, rfl⟩ := map_eq_ok.1 hset
      exact hparts
    . obtain ⟨x, -, rfl⟩ := map_eq_ok.1 hset
      exact hparts
    . obtain ⟨t, ht, rfl⟩ := map_eq_ok.1 hset
      intro t' ht'
      cases ht'
      exact Ttl.ne_after_zero_of_value ht
    . obtain ⟨x, -, rfl⟩ := map_eq_ok.1 hset
      exact hparts
  . intro parts row hparts hfinish
    rw [of_finish hfinish] at hparts
    exact hparts row.ttl rfl

theorem exact_toJson (row : Row) : Json.Exact row.toJson := by
  refine .object fun member hmem => ?_
  simp only [List.mem_cons, List.not_mem_nil, or_false] at hmem
  rcases hmem with rfl | rfl | rfl | rfl | rfl
  . exact .boolean _
  . exact .integer _
  . exact .string _
  . exact .string _
  . exact .string _

theorem regular_toJson (row : Row) (depth : Nat) : Json.Regular (depth + 1) row.toJson := by
  have hoffset := row.offset.toNat_lt
  refine .object (Members.ascending_of_names
    ["finished", "offset", "source", "timestamp", "ttl"] rfl (by decide)) fun member hmem => ?_
  simp only [List.mem_cons, List.not_mem_nil, or_false] at hmem
  rcases hmem with rfl | rfl | rfl | rfl | rfl
  . exact .boolean _
  . exact .integer (by omega) (by omega)
  . exact .string _
  . exact .string _
  . exact .string _

end Row

namespace Snapshot

/--
A snapshot that is accepted after it has been written, and comes back as it was.
-/
structure Storable (snapshot : Snapshot) : Prop where
  version_eq : snapshot.version = currentVersion
  rows : ∀ member ∈ snapshot.rows, member.2.Storable

theorem storable_empty : empty.Storable where
  version_eq := rfl
  rows _ hmem := absurd hmem List.not_mem_nil

theorem Storable.erase {snapshot : Snapshot} (h : snapshot.Storable) (id : String) :
    (snapshot.erase id).Storable where
  version_eq := h.version_eq
  rows member hmem := h.rows member (List.mem_filter.1 hmem).1

theorem storable_ofRecords {records : List Record}
    (h : ∀ record ∈ records, record.ttl ≠ .after .zero) : (ofRecords records).Storable := by
  refine ⟨rfl, fun member hmem => ?_⟩
  obtain ⟨record, hrecord, heq⟩ := List.mem_map.1 (Members.mem_ofList hmem)
  rw [← heq]
  exact h record hrecord

section

variable (snapshot : Snapshot)

theorem exact_toJson : Json.Exact snapshot.toJson := by
  refine .object fun member hmem => ?_
  simp only [List.mem_cons, List.not_mem_nil, or_false] at hmem
  rcases hmem with rfl | rfl
  . refine .object fun member hmem => ?_
    obtain ⟨row, -, rfl⟩ := List.mem_map.1 hmem
    exact row.2.exact_toJson
  . exact .integer _

theorem regular_toJson (depth : Nat) : Json.Regular (depth + 3) snapshot.toJson := by
  have hversion := snapshot.version.toNat_lt
  refine .object (Members.ascending_of_names ["states", "version"] rfl (by decide))
    fun member hmem => ?_
  simp only [List.mem_cons, List.not_mem_nil, or_false] at hmem
  rcases hmem with rfl | rfl
  . refine .object (Members.ascending_map snapshot.ascending _) fun member hmem => ?_
    obtain ⟨row, -, rfl⟩ := List.mem_map.1 hmem
    exact row.2.regular_toJson depth
  . exact .integer (by omega) (by omega)

theorem value_versionForm :
    versionForm.decoder.value snapshot.toJson = .ok snapshot.version := by
  have hversion : versionForm.fields.find? (·.name = "version") = some _ := rfl
  refine bind_eq_ok.2 ⟨some snapshot.version, ?_, rfl⟩
  show versionForm.takeMembers none [("version", .integer snapshot.version.toNat)] = _
  rw [versionForm.takeMembers_cons hversion (Decoder.value_map (Decoder.value_uint8 _) _)]
  rfl

end

theorem value_form {snapshot : Snapshot} (h : ∀ member ∈ snapshot.rows, member.2.Storable) :
    form.decoder.value snapshot.toJson = .ok snapshot := by
  have hversion : form.fields.find? (·.name = "version") = some _ := rfl
  have hstates : form.fields.find? (·.name = "states") = some _ := rfl
  have hrows : Row.form.decoder.members.value
      (.object (snapshot.rows.map fun row => (row.1, row.2.toJson))) = .ok snapshot.rows :=
    Decoder.value_members fun member hmem => Row.value_form (h member hmem)
  refine bind_eq_ok.2 ⟨⟨some snapshot.version, some snapshot.rows⟩, ?_, ?_⟩
  . rw [form.takeMembers_cons hstates (Decoder.value_map hrows _),
      form.takeMembers_cons hversion (Decoder.value_map (Decoder.value_uint8 _) _)]
    rfl
  . have hsame := Members.ofList_of_ascending snapshot.ascending
    show Except.ok (Snapshot.mk snapshot.version (.ofList snapshot.rows) _) = _
    obtain ⟨version, rows, ascending⟩ := snapshot
    congr

/-
Both forms look at the same member for the version, whatever else there is.
-/
theorem takeMembers_version {members : List (String × Json)} {v v' : Option UInt8}
    {parts parts' : Parts} (hsame : parts.version = v)
    (hversion : versionForm.takeMembers v members = .ok v')
    (h : form.takeMembers parts members = .ok parts') : parts'.version = v' := by
  induction members generalizing v parts with
  | nil =>
    cases hversion
    cases h
    exact hsame
  | cons member members ih =>
    obtain ⟨key, j⟩ := member
    by_cases hkey : key = "version"
    . subst hkey
      obtain ⟨_, hset, hversion⟩ := versionForm.exists_of_takeMembers_cons rfl hversion
      obtain ⟨_, hset', h⟩ := form.exists_of_takeMembers_cons rfl h
      obtain ⟨x, hx, rfl⟩ := map_eq_ok.1 hset
      obtain ⟨x', hx', rfl⟩ := map_eq_ok.1 hset'
      cases hx.symm.trans hx'
      exact ih rfl hversion h
    . have hother : ("version" = key) = False := by simp [Ne.symm hkey]
      rw [versionForm.takeMembers_cons_of_none (by simp [versionForm, hother])] at hversion
      by_cases hkey' : key = "states"
      . subst hkey'
        obtain ⟨_, hset', h⟩ := form.exists_of_takeMembers_cons rfl h
        obtain ⟨x', -, rfl⟩ := map_eq_ok.1 hset'
        refine ih ?_ hversion h
        exact hsame
      . have hother' : ("states" = key) = False := by simp [Ne.symm hkey']
        rw [form.takeMembers_cons_of_none (by simp [form, hother, hother'])] at h
        exact ih hsame hversion h

theorem of_close {parts : Parts} {snapshot : Snapshot} (h : form.close parts = .ok snapshot) :
    ∃ rows, parts.version = some snapshot.version ∧ parts.rows = some rows ∧
      snapshot.rows = .ofList rows := by
  obtain ⟨version, rows⟩ := parts
  cases version with
  | none => cases h
  | some version =>
  cases rows with
  | none => cases h
  | some rows =>
    cases h
    exact ⟨rows, rfl, rfl, rfl⟩

/--
What is read as a snapshot, and as its version before, is an object. Of a list with one item, there is
no snapshot, and of a list with more, no version.
-/
theorem isObject_of_value {j : Json} {snapshot : Snapshot} {version : UInt8}
    (hversion : versionForm.decoder.value j = .ok version)
    (h : form.decoder.value j = .ok snapshot) : ∃ members, j = .object members := by
  cases j with
  | object members => exact ⟨members, rfl⟩
  | array items =>
    match items with
    | [] => cases h
    | [item] =>
      obtain ⟨taken, htaken, -⟩ := bind_eq_ok.1 h
      obtain ⟨set, -, htaken⟩ := bind_eq_ok.1 htaken
      cases htaken
    | item :: item' :: items =>
      obtain ⟨taken, htaken, hversion⟩ := bind_eq_ok.1 hversion
      obtain ⟨set, -, htaken⟩ := bind_eq_ok.1 htaken
      cases htaken
      cases hversion
  | null | boolean | integer | float | string => cases h

theorem version_eq_of_value {j : Json} {snapshot : Snapshot} {version : UInt8}
    (hversion : versionForm.decoder.value j = .ok version)
    (h : form.decoder.value j = .ok snapshot) : snapshot.version = version := by
  obtain ⟨members, rfl⟩ := isObject_of_value hversion h
  obtain ⟨v, hv, hversion⟩ := bind_eq_ok.1 hversion
  obtain ⟨parts, hparts, h⟩ := bind_eq_ok.1 h
  obtain ⟨rows, hsnapshot, -, -⟩ := of_close h
  rw [takeMembers_version rfl hv hparts] at hsnapshot
  subst hsnapshot
  cases hversion
  rfl

theorem storable_of_value {j : Json} {snapshot : Snapshot}
    (hversion : versionForm.decoder.value j = .ok currentVersion)
    (h : form.decoder.value j = .ok snapshot) : snapshot.Storable := by
  refine ⟨version_eq_of_value hversion h, ?_⟩
  refine Json.RecordForm.of_value (P := fun snapshot => ∀ member ∈ snapshot.rows, member.2.Storable)
    (fun parts => ∀ rows, parts.rows = some rows → ∀ member ∈ rows, member.2.Storable)
    nofun ?_ ?_ h
  . intro field hfield j set hset parts hparts
    simp only [form, List.mem_cons, List.not_mem_nil, or_false] at hfield
    rcases hfield with rfl | rfl
    . obtain ⟨x, -, rfl⟩ := map_eq_ok.1 hset
      exact hparts
    . obtain ⟨rows, hrows, rfl⟩ := map_eq_ok.1 hset
      intro rows' hrows'
      cases hrows'
      exact Decoder.of_value_members (fun _ _ => Row.storable_of_value) hrows
  . intro parts snapshot hparts hfinish
    obtain ⟨rows, -, hrows, hsnapshot⟩ := of_close (by unfold Json.RecordForm.close; rw [hfinish])
    intro member hmem
    rw [hsnapshot] at hmem
    exact hparts rows hrows member (Members.mem_ofList hmem)

end Snapshot

end ReadProgress
