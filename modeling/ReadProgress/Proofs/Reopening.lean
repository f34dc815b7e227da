import ReadProgress.Draft
import ReadProgress.Proofs.Database
import ReadProgress.Proofs.Json.Nesting

/-!
This module contains the proof that a file which has been written can be opened again, and has the
same values then, exactly if none of them is nested too deep. Nothing keeps such a value from being
written.
-/

namespace ReadProgress

open Json (Decoder)

namespace Contents

variable {contents : Contents}

/--
The values that are found somewhere in the scopes.
-/
def Has (contents : Contents) (value : Json) : Prop :=
  ∃ name key, (contents.scope name).get? key = some value

theorem has_iff {value : Json} :
    contents.Has value ↔
      ∃ entry ∈ contents.entries, ∃ member ∈ entry.2.entries, member.2 = value := by
  constructor
  . rintro ⟨name, key, hvalue⟩
    unfold scope at hvalue
    cases hscope : contents.get? name with
    | none =>
      rw [hscope] at hvalue
      cases hvalue
    | some scope =>
      rw [hscope] at hvalue
      exact ⟨_, Table.get?_eq_some_iff.1 hscope, _, Table.get?_eq_some_iff.1 hvalue, rfl⟩
  . rintro ⟨⟨name, scope⟩, hscope, ⟨key, value⟩, hvalue, rfl⟩
    refine ⟨name, key, ?_⟩
    rw [Contents.scope, Table.get?_eq_some_iff.2 hscope]
    exact Table.get?_eq_some_iff.2 hvalue

theorem forall_has_iff {p : Json → Prop} : (∀ value, contents.Has value → p value) ↔
    ∀ entry ∈ contents.entries, ∀ member ∈ entry.2.entries, p member.2 := by
  simp only [has_iff]
  constructor
  . exact fun h entry hentry member hmember => h _ ⟨entry, hentry, member, hmember, rfl⟩
  . rintro h _ ⟨entry, hentry, member, hmember, rfl⟩
    exact h entry hentry member hmember

theorem nesting_add_le_of_has {value : Json} (h : contents.Has value) :
    value.nesting + 3 ≤ contents.toJson.nesting := by
  obtain ⟨entry, hentry, member, hmember, rfl⟩ := has_iff.1 h
  have hinner : ∀ {members : List (String × Json)} {part : String × Json}, part ∈ members →
      part.2.nesting + 1 ≤ (Json.object members).nesting :=
    fun hmem => Nat.succ_le_succ (Json.nestingMembers_le_iff.1 (Nat.le_refl _) _ hmem)
  have hvalue : member.2.nesting + 1 ≤ (Json.object entry.2.entries).nesting := hinner hmember
  have hscope := hinner (List.mem_map_of_mem (f := fun entry : String × Scope =>
    (entry.1, Json.object entry.2.entries)) hentry)
  have hscopes := hinner (List.mem_singleton_self ("scopes", Json.object
    (contents.entries.map fun entry => (entry.1, Json.object entry.2.entries))))
  change _ ≤ contents.toJson.nesting at hscopes
  dsimp only at hscope hscopes
  omega

theorem grows_decoder_form : form.decoder.Grows := by
  refine Json.RecordForm.grows_decoder fun field hfield => ?_
  obtain rfl := List.mem_singleton.1 hfield
  exact Decoder.grows_any.members.members.map _

theorem eq_reread_of_read (hproper : ∀ value, contents.Has value → value.Proper) {found : Contents}
    (h : read contents.written = .ok found) : found = contents.reread := by
  have hregular : ∀ value, contents.Has value → value.Regular (contents.toJson.nesting + 124) := by
    intro value hvalue
    rw [(hproper value hvalue).regular_iff]
    have := nesting_add_le_of_has hvalue
    omega
  have hroom : Json.Reader.depthLimit ≤ contents.toJson.nesting + 124 + 3 := by
    unfold Json.Reader.depthLimit
    omega
  have hwide := (grows_decoder_form _ _ hroom).run h
  rw [(takes_written (forall_has_iff.1 hregular)).run true] at hwide
  exact (Except.ok.inj hwide).symm

theorem regular_iff_nesting_le (hproper : ∀ value, contents.Has value → value.Proper) :
    contents.Regular ↔ ∀ value, contents.Has value → value.nesting ≤ 124 := by
  rw [Regular, ← forall_has_iff]
  exact forall₂_congr fun value hvalue => (hproper value hvalue).regular_iff

theorem has_reread {value : Json} (h : contents.Has value) : contents.reread.Has value.reread := by
  obtain ⟨name, key, hvalue⟩ := h
  refine ⟨name, key, ?_⟩
  rw [get?_scope_reread, hvalue]
  rfl

end Contents

namespace Database

variable {db : Database} {disk : Disk}

/--
A database whose file has been written at last, by itself or for one of its drafts.
-/
inductive Saved : Database → Disk → Prop where
  | flush {db : Database} {before disk : Disk} (h : db.flush before = (.ok (), disk)) :
      Saved db disk
  | sync {draft : Draft} {old db : Database} {before disk : Disk}
      (h : draft.sync old before = (.ok (), db, disk)) : Saved db disk

theorem Saved.exists_flush (h : db.Saved disk) : ∃ before, db.flush before = (.ok (), disk) := by
  cases h with
  | flush h => exact ⟨_, h⟩
  | @sync draft old db before disk h =>
    obtain ⟨hresult, hrest⟩ := Prod.mk.inj h
    obtain ⟨rfl, hdisk⟩ := Prod.mk.inj hrest
    exact ⟨before, Prod.ext hresult hdisk⟩

/--
Whether the file of a database can be opened, and each draft that is loaded from it has the same
values under the same keys as the scope of its name.
-/
def Reopens (db : Database) (disk : Disk) : Prop :=
  ∃ reopened, load disk db.path = (.ok reopened, disk) ∧ ∀ (draft : Draft) (key : String),
    (draft.load reopened).staged.get? key = (db.contents.scope draft.name).get? key

/--
Whether all values in a database are what a file can hold, but for how deep they are nested. None of
them has a number in double precision.
-/
def IsPlain (db : Database) : Prop :=
  ∀ value, db.contents.Has value → value.Exact ∧ value.Proper

theorem load_of_saved (hpath : db.path.isEmpty = false) (hsaved : db.Saved disk)
    (h : db.contents.Regular) : load disk db.path = (.ok ⟨db.path, db.contents.reread⟩, disk) := by
  obtain ⟨before, hflush⟩ := hsaved.exists_flush
  exact load_of_flush h hpath hflush

theorem reopens_of_nesting_le (hpath : db.path.isEmpty = false) (hplain : db.IsPlain)
    (hsaved : db.Saved disk) (h : ∀ value, db.contents.Has value → value.nesting ≤ 124) :
    db.Reopens disk := by
  have hregular := (Contents.regular_iff_nesting_le fun value hvalue => (hplain value hvalue).2).2 h
  refine ⟨_, load_of_saved hpath hsaved hregular, fun draft key => ?_⟩
  change (db.contents.reread.scope draft.name).get? key = _
  rw [Contents.get?_scope_reread]
  cases hvalue : (db.contents.scope draft.name).get? key with
  | none => rfl
  | some value =>
    have hexact := (hplain value ⟨draft.name, key, hvalue⟩).1
    exact congrArg some hexact.reread_eq

theorem load_of_nesting_gt (hpath : db.path.isEmpty = false) (hplain : db.IsPlain)
    (hsaved : db.Saved disk) {value : Json} (hvalue : db.contents.Has value)
    (h : 124 < value.nesting) :
    ∃ refusal, load disk db.path = (.error (.json refusal), disk) := by
  obtain ⟨before, hflush⟩ := hsaved.exists_flush
  have hread := read_of_flush hpath hflush
  cases hcontents : Contents.read db.contents.written with
  | ok found =>
    -- What is read is never nested too deep, and it would be what was written.
    have hproper := fun value hvalue => (hplain value hvalue).2
    have hregular := Contents.regular_of_read hcontents
    rw [Contents.eq_reread_of_read hproper hcontents] at hregular
    have hfound : value.Regular 124 := by
      rw [← (hplain value hvalue).1.reread_eq]
      exact Contents.forall_has_iff.2 hregular _ (Contents.has_reread hvalue)
    have := hfound.nesting_le
    omega
  | error refusal =>
    refine ⟨refusal, ?_⟩
    rw [load, if_pos (FileTree.leads_of_readFile hread), hread]
    dsimp only
    rw [hcontents]
    dsimp only
    rw [Error.ofRefusal, Contents.isFatal_of_read hcontents, if_neg Bool.false_ne_true]

theorem not_reopens_of_nesting_gt (hpath : db.path.isEmpty = false) (hplain : db.IsPlain)
    (hsaved : db.Saved disk) {value : Json} (hvalue : db.contents.Has value)
    (h : 124 < value.nesting) : ¬ db.Reopens disk := by
  obtain ⟨refusal, hload⟩ := load_of_nesting_gt hpath hplain hsaved hvalue h
  rintro ⟨reopened, hok, -⟩
  rw [hload] at hok
  cases hok

/--
Once a file has been written, by the database or by one of its drafts, it can be opened again with
the same values under the same keys in all scopes, exactly if no value is nested more than 124 lists
and objects deep. Otherwise the file is refused, though it has been written without an error.
-/
theorem reopens_iff (hpath : db.path.isEmpty = false) (hplain : db.IsPlain)
    (hsaved : db.Saved disk) :
    (db.Reopens disk ↔ ∀ value, db.contents.Has value → value.nesting ≤ 124) ∧
      (¬ db.Reopens disk → ∃ refusal, load disk db.path = (.error (.json refusal), disk)) := by
  have hiff : db.Reopens disk ↔ ∀ value, db.contents.Has value → value.nesting ≤ 124 := by
    refine ⟨?_, reopens_of_nesting_le hpath hplain hsaved⟩
    intro hreopens value hvalue
    by_contra hdeep
    exact not_reopens_of_nesting_gt hpath hplain hsaved hvalue (by omega) hreopens
  refine ⟨hiff, fun hrefused => ?_⟩
  rw [hiff] at hrefused
  simp only [not_forall, Nat.not_le] at hrefused
  obtain ⟨value, hvalue, hdeep⟩ := hrefused
  exact load_of_nesting_gt hpath hplain hsaved hvalue hdeep

end Database

/--
Lists inside each other.
-/
def Json.nest : Nat → Json
  | 0 => .null
  | count + 1 => .array [nest count]

theorem Json.exact_nest (count : Nat) : (nest count).Exact := by
  induction count with
  | zero => exact .null
  | succ count ih => exact .array (by simpa using ih)

theorem Json.regular_nest (count : Nat) : (nest count).Regular count := by
  induction count with
  | zero => exact .null
  | succ count ih => exact .array (by simpa using ih)

theorem Json.nesting_nest (count : Nat) : (nest count).nesting = count := by
  induction count with
  | zero => rfl
  | succ count ih => rw [nest, nesting, nestingItems, nestingItems, ih, Nat.max_zero]

namespace Database

/--
A database with nothing in it but lists inside each other.
-/
def ofNest (count : Nat) : Database :=
  ⟨⟨"f"⟩, Table.empty.put "s" (Table.empty.put "k" (Json.nest count))⟩

theorem eq_nest_of_has {count : Nat} {value : Json} (h : (ofNest count).contents.Has value) :
    value = Json.nest count := by
  obtain ⟨entry, hentry, member, hmember, rfl⟩ := Contents.has_iff.1 h
  obtain rfl := List.mem_singleton.1 hentry
  obtain rfl := List.mem_singleton.1 hmember
  rfl

theorem isPlain_ofNest (count : Nat) : (ofNest count).IsPlain := by
  intro value hvalue
  obtain rfl := eq_nest_of_has hvalue
  exact ⟨Json.exact_nest count, count, Json.regular_nest count⟩

theorem has_ofNest (count : Nat) : (ofNest count).contents.Has (Json.nest count) :=
  ⟨"s", "k", rfl⟩

theorem exists_sync_ofNest (count : Nat)
    (hdone : ((ofNest count).flush (Disk.ofDirectory [] 7)).1.isOk = true) :
    ∃ disk, ((Draft.ofName "s").put "k" (Json.nest count)).sync ⟨⟨"f"⟩, .empty⟩
      (Disk.ofDirectory [] 7) = (.ok (), ofNest count, disk) := by
  have hflush : (ofNest count).flush (Disk.ofDirectory [] 7) =
      (.ok (), ((ofNest count).flush (Disk.ofDirectory [] 7)).2) := by
    cases hresult : (ofNest count).flush (Disk.ofDirectory [] 7) with
    | mk result disk =>
      cases result with
      | ok done => rfl
      | error e =>
        rw [hresult] at hdone
        cases hdone
  exact ⟨_, congrArg (fun result => (result.1, ofNest count, result.2)) hflush⟩

theorem reopens_iff_nest :
    ∃ disk, (ofNest 124).Saved disk ∧ (ofNest 124).Reopens disk := by
  obtain ⟨disk, hsync⟩ := exists_sync_ofNest 124 (by decide +kernel)
  refine ⟨disk, .sync hsync, (reopens_iff rfl (isPlain_ofNest 124) (.sync hsync)).1.2 ?_⟩
  intro value hvalue
  rw [eq_nest_of_has hvalue, Json.nesting_nest]

/--
With one list more, the file is written without an error as well, but it cannot be opened again.
-/
theorem sync_writes_what_load_refuses :
    ∃ disk, ((Draft.ofName "s").put "k" (Json.nest 125)).sync ⟨⟨"f"⟩, .empty⟩
        (Disk.ofDirectory [] 7) = (.ok (), ofNest 125, disk) ∧
      disk.read ⟨"f"⟩ = .ok (ofNest 125).contents.written ∧
      (ofNest 125).IsPlain ∧ ¬ (ofNest 125).Reopens disk ∧
      ∃ refusal, load disk ⟨"f"⟩ = (.error (.json refusal), disk) := by
  obtain ⟨disk, hsync⟩ := exists_sync_ofNest 125 (by decide +kernel)
  have hplain := isPlain_ofNest 125
  have hdeep : 124 < (Json.nest 125).nesting := by
    rw [Json.nesting_nest]
    decide
  obtain ⟨before, hflush⟩ := (Saved.sync hsync).exists_flush
  exact ⟨disk, hsync, read_of_flush rfl hflush, hplain,
    not_reopens_of_nesting_gt rfl hplain (.sync hsync) (has_ofNest 125) hdeep,
    load_of_nesting_gt rfl hplain (.sync hsync) (has_ofNest 125) hdeep⟩

end Database

end ReadProgress
