import ReadProgress.Database
import ReadProgress.Proofs.Disk
import ReadProgress.Proofs.Json.Decoder
import ReadProgress.Proofs.Json.Survival
import ReadProgress.Proofs.Table

/-!
This module contains the proof that the content of a file is read as it was written, scope by scope
and key by key. What has been read from a file can always be written back, and what has been written
is what is there when the file is opened again.
-/

namespace ReadProgress

open Json (Layout between writeMember writeString Decoder)
open Json.Reader (Takes Gives Accepts)

namespace Contents

/--
All values can be read with the lists and objects that may still be open inside three objects.
-/
def Regular (contents : Contents) : Prop :=
  ∀ entry ∈ contents.entries, ∀ member ∈ entry.2.entries, member.2.Regular 124

def rereadScope (scope : Scope) : Scope :=
  .ofList (scope.entries.map fun member => (member.1, member.2.reread))

/--
What is read for contents that were written.
-/
def reread (contents : Contents) : Contents :=
  .ofList (contents.entries.map fun entry => (entry.1, rereadScope entry.2))

theorem regular_empty : Regular .empty :=
  fun _ hmem => absurd hmem List.not_mem_nil

theorem Regular.put {contents : Contents} (h : contents.Regular) (name : String) {scope : Scope}
    (hscope : ∀ member ∈ scope.entries, member.2.Regular 124) :
    Regular (contents.put name scope) := by
  intro entry hmem
  rcases Table.mem_entries_put hmem with rfl | hmem
  . exact hscope
  . exact h entry hmem

theorem Regular.scope {contents : Contents} (h : contents.Regular) (name : String) :
    ∀ member ∈ (contents.scope name).entries, member.2.Regular 124 := by
  intro member hmem
  unfold Contents.scope at hmem
  cases hget : contents.get? name with
  | none =>
    rw [hget] at hmem
    cases hmem
  | some scope =>
    rw [hget] at hmem
    exact h _ (Table.get?_eq_some_iff.1 hget) member hmem

theorem get?_scope_reread (contents : Contents) (name key : String) :
    (contents.reread.scope name).get? key = ((contents.scope name).get? key).map Json.reread := by
  rw [scope, reread, Table.get?_ofList_map contents rereadScope, scope]
  cases contents.get? name with
  | none => rfl
  | some scope => exact Table.get?_ofList_map scope Json.reread key

theorem regular_of_read {content : Bytes} {contents : Contents} (h : read content = .ok contents) :
    contents.Regular := by
  refine Gives.run (Json.RecordForm.gives_decoder
    (fun state => ∀ contents, state = some contents → Regular contents) ?_ ?_ ?_) h
  . intro contents hblank
    cases hblank
  . intro inner hinner field hfield
    obtain rfl := List.mem_singleton.1 hfield
    refine Gives.map ?_
    have hvalues : Gives (Decoder.any.members.members.text inner) fun scopes =>
        ∀ scope ∈ scopes, ∀ member ∈ scope.2, member.2.Regular 124 := by
      refine Json.Decoder.gives_members fun depth hdepth =>
        Json.Decoder.gives_members fun depth' hdepth' => ?_
      obtain rfl : depth' = 124 := by
        unfold Json.Reader.depthLimit at hinner
        omega
      exact Json.Reader.gives_value 124
    refine hvalues.weaken fun scopes hscopes state _ contents hcontents entry hmem member hmem' => ?_
    cases hcontents
    obtain ⟨scope, hscope, rfl⟩ := List.mem_map.1 (Table.mem_of_mem_ofList hmem)
    exact hscopes scope hscope member (Table.mem_of_mem_ofList hmem')
  . intro state a hstate hfinish
    cases state with
    | none => cases hfinish
    | some contents =>
      cases hfinish
      exact hstate _ rfl

theorem isFatal_of_read {content : Bytes} {refusal : Json.Refusal}
    (h : read content = .error refusal) : refusal.reason.isFatal = false := by
  refine Json.Reader.isFatal_of_run (Json.RecordForm.survives_decoder ?_ _) h
  intro depth field hfield
  obtain rfl := List.mem_singleton.1 hfield
  have hscopes : Json.Reader.Survives (Decoder.any.members.members.text depth) :=
    Decoder.survives_members (Decoder.survives_members Json.Reader.survives_value) depth
  exact Json.Reader.survives_map _ hscopes

section

variable {contents : Contents} {depth : Nat}
  (h : ∀ entry ∈ contents.entries, ∀ member ∈ entry.2.entries, member.2.Regular depth)

include h

theorem accepts_scopes :
    Accepts (Decoder.any.members.members.text (depth + 2))
      ((Json.object (contents.entries.map fun entry => (entry.1, .object entry.2.entries))).write
        .indented 1)
      (contents.entries.map fun entry =>
        (entry.1, entry.2.entries.map fun member => (member.1, member.2.reread))) := by
  have hscope : ∀ entry ∈ contents.entries, Accepts (Decoder.any.members.text (depth + 1))
      ((Json.object entry.2.entries).write .indented 2)
      (entry.2.entries.map fun member => (member.1, member.2.reread)) := by
    intro entry hentry
    rw [Json.write_object]
    exact Decoder.accepts_members (fun member hmem => (h entry hentry member hmem).accepts _ 3) _ 2
  rw [Json.write_object, Json.between_map]
  exact Decoder.accepts_members
    (w := fun scope : Scope => (Json.object scope.entries).write .indented 2)
    (f := fun scope : Scope => scope.entries.map fun member => (member.1, member.2.reread))
    hscope .indented 1

omit h in
theorem written_eq (contents : Contents) :
    contents.written = byte '\x7b' :: (Layout.indented.newline 1 ++ (writeString "scopes" ++
      (Layout.indented.colon ++
        ((Json.object (contents.entries.map fun entry => (entry.1, .object entry.2.entries))).write
          .indented 1 ++ (Layout.indented.newline 0 ++ [byte '\x7d']))))) := by
  rw [written, toJson, Json.write_object]
  simp only [between, writeMember, List.flatMap_nil, List.append_assoc, List.nil_append]

theorem takes_readMembers {text : Bytes} (htext : contents.written = byte '\x7b' :: text)
    {turns : Nat} (hturns : 2 ≤ turns) :
    Takes (form.readMembers (depth + 2) none true turns) text (some contents.reread)
      [byte '\x7d'] := by
  obtain ⟨-, htakes⟩ := accepts_scopes h
  rw [written_eq] at htext
  obtain rfl := (List.cons.inj htext).2
  obtain ⟨turns, rfl⟩ : ∃ more, turns = more + 2 := ⟨turns - 2, by omega⟩
  rw [Json.writeString_append]
  refine (Json.Reader.takes_nextMember_first (Layout.indented.isSpace_newline 1)).bind ?_
  rw [← Json.writeString_append, if_pos rfl]
  refine (Json.Reader.takes_name "scopes" _).bind ?_
  obtain ⟨space, hspace, hcolon⟩ := Json.Reader.takes_colon .indented _
  refine hcolon.bind ?_
  have hend := Layout.indented.endsNumber_newline 0 (Json.endsNumber_bracket (.inr rfl) [])
  refine ((htakes space _ hspace hend).map _).bind ?_
  refine (Json.Reader.takes_nextMember_end false _ (Layout.indented.isSpace_newline 0)).bind ?_
  have hsame : contents.reread = .ofList ((contents.entries.map fun entry =>
      (entry.1, entry.2.entries.map fun member => (member.1, member.2.reread))).map
        fun scope => (scope.1, .ofList scope.2)) := by
    rw [List.map_map]
    rfl
  rw [if_neg (by decide), hsame]
  exact Takes.pure _ _

theorem takes_written :
    Takes (form.decoder.text (depth + 3)) contents.written contents.reread [] := by
  rw [written_eq]
  refine (Json.Reader.takes_start [] (by simp) (by decide)).bind ?_
  rw [if_neg (by decide), if_pos rfl]
  refine Takes.located ((Takes.take _ _).bind (Takes.enclosed ?_ (Json.Reader.takes_closeObject [])))
  refine (Takes.repeated (takes_readMembers h (written_eq contents) ?_)).bind ?_
  . simp only [List.length_append, List.length_cons]
    omega
  . exact Json.Reader.takes_checked rfl _

end

/--
What has been written is read again, up to the numbers in double precision.
-/
theorem read_written {contents : Contents} (h : contents.Regular) :
    read contents.written = .ok contents.reread :=
  (takes_written h).run true

end Contents

namespace Database

variable {db : Database} {disk disk' : Disk} {path : Path}

theorem load_eq_ok (h : load disk path = (.ok db, disk')) : db.path = path ∧ db.contents.Regular := by
  unfold load at h
  split at h
  . split at h
    . cases h
    . split at h
      . next hread =>
        cases h
        exact ⟨rfl, Contents.regular_of_read hread⟩
      . cases h
  . split at h
    . cases h
      exact ⟨rfl, Contents.regular_empty⟩
    . cases h

theorem isCrash_of_load {e : Error} (h : load disk path = (.error e, disk')) : e.isCrash = false := by
  unfold load at h
  split at h
  . split at h
    . cases h
      rfl
    . split at h
      . cases h
      . next refusal hread =>
        cases h
        rw [Error.ofRefusal, Contents.isFatal_of_read hread, if_neg Bool.false_ne_true]
        rfl
  . split at h
    . cases h
    . cases h
      rfl

theorem isCrash_of_flush {e : Error} (h : (db.flush disk).1 = .error e) : e.isCrash = false := by
  unfold flush at h
  split at h
  . cases h
  . split at h <;> cases h
    rfl

theorem sameFiles_load (disk : Disk) (path : Path) :
    disk.tree.SameFiles (load disk path).2.tree := by
  have hparents := FileTree.sameFiles_makeParents disk.tree disk.home path
  unfold load
  split
  . split
    . exact fun _ _ => Iff.rfl
    . split
      . exact fun _ _ => Iff.rfl
      . exact fun _ _ => Iff.rfl
  . split
    . next hmade =>
      rw [hmade] at hparents
      exact hparents
    . next hfailed =>
      rw [hfailed] at hparents
      exact hparents

theorem load_of_read {content : Bytes} {contents : Contents} (h : disk.read path = .ok content)
    (hcontents : Contents.read content = .ok contents) :
    load disk path = (.ok ⟨path, contents⟩, disk) := by
  rw [load, if_pos (FileTree.leads_of_readFile h), h]
  dsimp only
  rw [hcontents]

theorem read_of_flush (hpath : db.path.isEmpty = false) (h : db.flush disk = (.ok (), disk')) :
    disk'.read db.path = .ok db.contents.written := by
  unfold flush at h
  rw [hpath, if_neg Bool.false_ne_true] at h
  split at h
  . next hreplace =>
    cases h
    exact (Disk.replace_eq_ok hreplace).2
  . cases h

theorem load_of_flush (hregular : db.contents.Regular) (hpath : db.path.isEmpty = false)
    (h : db.flush disk = (.ok (), disk')) :
    load disk' db.path = (.ok ⟨db.path, db.contents.reread⟩, disk') :=
  load_of_read (read_of_flush hpath h) (Contents.read_written hregular)

/--
The database with the content of a file, or with nothing in it where there is no file.
-/
def ofContent (path : Path) : Option Bytes → Except Error Database
  | none => .ok ⟨path, .empty⟩
  | some content =>
    match Contents.read content with
    | .ok contents => .ok ⟨path, contents⟩
    | .error refusal => .error (.ofRefusal refusal .json)

/--
As long as all is there that is above a file, opening it depends on nothing but its content.
-/
theorem load_of_steady (h : disk.Steady path) :
    load disk path = (ofContent path (disk.content? path), disk) := by
  unfold load
  cases hleads : disk.tree.leads disk.home path with
  | true =>
    obtain ⟨content, hread⟩ := h.readable hleads
    change disk.read path = .ok content at hread
    rw [if_pos rfl, hread, Disk.content?_eq_some.2 hread, ofContent]
    dsimp only
    cases Contents.read content <;> rfl
  | false =>
    have hnone : disk.content? path = none := by
      cases hcontent : disk.content? path with
      | none => rfl
      | some content =>
        rw [FileTree.leads_of_readFile (Disk.content?_eq_some.1 hcontent)] at hleads
        cases hleads
    rw [if_neg Bool.false_ne_true, h.hasParent.makeParents_eq, hnone]
    rfl

/--
Once a file has been opened, all is there that is above it. Where there was no file, this takes that
the path still leads nowhere after the directories above it have been made.
-/
theorem steady_of_load (hfounded : disk.tree.Founded) (h : load disk path = (.ok db, disk'))
    (hsettled : disk.tree.leads disk.home path = false →
      disk'.tree.leads disk'.home path = false) :
    disk'.Steady path ∧ load disk' path = (.ok db, disk') := by
  have hload := h
  unfold load at h
  cases hleads : disk.tree.leads disk.home path with
  | true =>
    rw [hleads, if_pos rfl] at h
    split at h
    . cases h
    . next content hread =>
      split at h
      . cases h
        exact ⟨Disk.steady_of_read hfounded hread, hload⟩
      . cases h
  | false =>
    rw [hleads, if_neg Bool.false_ne_true] at h
    split at h
    . next tree hmade =>
      cases h
      have hnowhere := hsettled hleads
      have hfounded' : tree.Founded := by
        have := hfounded.makeParents disk.home path
        rw [hmade] at this
        exact this
      have hparent := FileTree.hasParent_of_makeParents hmade
      have hsteady : Disk.Steady { disk with tree } path := by
        refine ⟨hfounded', hparent, fun hleads' => ?_⟩
        rw [hnowhere] at hleads'
        cases hleads'
      refine ⟨hsteady, ?_⟩
      -- There is no file still, and no directory is left to be made.
      rw [load, hnowhere, if_neg Bool.false_ne_true, hparent.makeParents_eq]
    . cases h

theorem steady_flush (hpath : db.path.isEmpty = false) (h : disk.Steady db.path) :
    (db.flush disk).2.Steady db.path ∧ (db.flush disk).2.content? db.path =
      if (db.flush disk).1.isOk then some db.contents.written else disk.content? db.path := by
  obtain ⟨hsteady, hcontent⟩ := h.replace db.contents.written
  unfold flush
  rw [hpath, if_neg Bool.false_ne_true]
  split
  . next hreplace =>
    rw [hreplace] at hsteady hcontent
    exact ⟨hsteady, hcontent⟩
  . next hreplace =>
    rw [hreplace] at hsteady hcontent
    refine ⟨hsteady, hcontent.trans ?_⟩
    rw [if_neg (by simp)]
    rfl

end Database

end ReadProgress
