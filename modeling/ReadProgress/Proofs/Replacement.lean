import ReadProgress.Draft
import ReadProgress.Proofs.Database
import ReadProgress.Proofs.FileTree.Growth

/-!
This module contains what a replacement that may fail at any step does to a tree. Nobody ever sees half
of the new content, nothing is left of the temporary file, and all else is as it was, up to directories
that have been made above the file.
-/

namespace ReadProgress

namespace Attempt

/--
Something is true of the tree of an attempt, and of all trees before, but for the one that the attempt
has begun with.
-/
def Along (p : FileTree → Prop) (start : FileTree) (attempt : Attempt) : Prop :=
  p attempt.tree ∧ ∀ tree ∈ attempt.earlier, tree = start ∨ p tree

end Attempt

namespace Replacement

variable {job : Replacement} {fault : Option Fault} {attempt : Attempt} {tree made start : FileTree}
  {p : FileTree → Prop}

theorem earlier_step (h : attempt.Along p start) (stage : Stage) :
    ∀ tree ∈ (job.step fault attempt stage).earlier, tree = start ∨ p tree := by
  unfold step
  split
  . exact h.2
  . intro tree hmem
    rcases List.mem_cons.1 hmem with rfl | hmem
    . exact .inr h.1
    . exact h.2 tree hmem

theorem along_step (hfill : ∀ content tree, p tree → p (job.fill content tree).2)
    (hparents : ∀ tree, p tree → p (tree.makeParents job.home job.target).2) {stage : Stage}
    (hrename : stage = .rename → (job.step fault attempt stage).failure ≠ none)
    (h : attempt.Along p start) : (job.step fault attempt stage).Along p start :=
  ⟨of_step hfill hparents hrename h.1, earlier_step h stage⟩

theorem along_foldl (hfill : ∀ content tree, p tree → p (job.fill content tree).2)
    (hparents : ∀ tree, p tree → p (tree.makeParents job.home job.target).2) {stages : List Stage}
    (hstages : .rename ∉ stages) (h : attempt.Along p start) :
    (stages.foldl (job.step fault) attempt).Along p start := by
  induction stages generalizing attempt with
  | nil => exact h
  | cons stage stages ih =>
    rw [List.mem_cons, not_or] at hstages
    exact ih hstages.2 (along_step hfill hparents (fun heq => absurd heq.symm hstages.1) h)

theorem along_clear
    (hclear : ∀ tree tree', p tree → tree.removeFile job.home job.temporary = .ok tree' → p tree')
    (h : attempt.Along p start) : (job.clear attempt).Along p start := by
  unfold clear
  split
  . split
    . next tree' hremove =>
      refine ⟨hclear _ tree' h.1 hremove, ?_⟩
      intro tree hmem
      rcases List.mem_cons.1 hmem with rfl | hmem
      . exact .inr h.1
      . exact h.2 tree hmem
    . exact h
  . exact h

theorem readFile_clear (hfailed : attempt.failure ≠ none) (content : Bytes) :
    (job.clear attempt).tree.readFile job.home job.temporary ≠ .ok content := by
  intro hread
  unfold clear at hread
  rw [if_pos (Option.isSome_iff_ne_none.2 hfailed)] at hread
  split at hread
  . next tree' hremove =>
    obtain ⟨place, removed, -, hwalk, hfile, rfl⟩ := FileTree.removeFile_eq_ok hremove
    obtain ⟨place', -, hwalk', hfile'⟩ := FileTree.readFile_eq_ok.1 hread
    have hkeeps : FileTree.Keeps (attempt.tree.erase place) attempt.tree := by
      intro other hother
      rw [Table.get?_erase] at hother
      split at hother
      . cases hother
      . exact hother
    -- The path leads where it has led, but the file there is the one that was taken away.
    cases hwalk.symm.trans (FileTree.walk_of_keeps hkeeps hwalk')
    rw [Table.get?_erase, if_pos rfl] at hfile'
    cases hfile'
  . next e hremove =>
    obtain ⟨place, hfound⟩ := FileTree.readFile_eq_ok.1 hread
    unfold FileTree.removeFile at hremove
    rw [FileTree.find_eq_ok.2 hfound] at hremove
    cases hremove

/--
The directories above the file are made first. Where that fails, nothing else is tried.
-/
theorem run_cases (job : Replacement) (fault : Option Fault) (tree : FileTree) :
    ((job.run fault tree).failure ≠ none ∧ (job.run fault tree).earlier = [tree] ∧
      ((job.run fault tree).tree = tree ∨
        (job.run fault tree).tree = (tree.makeParents job.home job.target).2)) ∨
    ∃ made, tree.makeParents job.home job.target = (.ok (), made) ∧
      job.run fault tree =
        job.clear ([Stage.create, .write, .flush, .sync, .rename].foldl (job.step fault)
          ⟨made, [tree], none⟩) := by
  have hearlier : (job.step fault ⟨tree, [], none⟩ .parents).earlier = [tree] := by
    simp [step]
  unfold run
  dsimp only
  by_cases hfailed : (job.step fault ⟨tree, [], none⟩ .parents).failure.isSome = true
  . rw [if_pos hfailed]
    refine .inl ⟨Option.isSome_iff_ne_none.1 hfailed, hearlier, ?_⟩
    rcases job.step_cases fault ⟨tree, [], none⟩ .parents with ⟨hnone, -⟩ | ⟨-, htree, -⟩ |
      ⟨-, -, cause, hstage, htree⟩
    . exact absurd rfl hnone
    . exact .inr htree
    . rw [htree, fail, hstage]
      exact .inl rfl
  . rw [if_neg hfailed]
    have hnone : (job.step fault ⟨tree, [], none⟩ .parents).failure = none := by simpa using hfailed
    obtain ⟨-, hmade⟩ := step_of_failure_eq_none hnone
    have heta : ∀ attempt : Attempt, attempt.earlier = [tree] → attempt.failure = none →
        attempt = ⟨attempt.tree, [tree], none⟩ := by
      rintro ⟨_, _, _⟩ rfl rfl
      rfl
    refine .inr ⟨_, hmade, ?_⟩
    rw [← heta _ hearlier hnone]

section

variable {extension : String} (hslash : '/' ∉ extension.toList) (hdot : '.' ∈ extension.toList)
  (htemporary : job.temporary = job.target.withExtension extension)

include hslash hdot htemporary

/--
Once the directories above the file are there, no tree differs from the others by more than a temporary
file, unless that has been moved at last.
-/
theorem along_steps (fault : Option Fault) (hfounded : made.Founded)
    (hparent : made.HasParent job.home job.target) (start : FileTree) :
    let last := [Stage.create, .write, .flush, .sync, .rename].foldl (job.step fault)
      ⟨made, [start], none⟩
    (∀ tree ∈ last.earlier, tree = start ∨ FileTree.Spares job.home job.temporary made tree) ∧
      (last.failure ≠ none →
        (job.clear last).Along (FileTree.Spares job.home job.temporary made) start) := by
  have hfill : ∀ content tree, FileTree.Spares job.home job.temporary made tree →
      FileTree.Spares job.home job.temporary made (job.fill content tree).2 :=
    fun content tree hspares => spares_fill hspares content
  have hparents : ∀ tree, FileTree.Spares job.home job.temporary made tree →
      FileTree.Spares job.home job.temporary made (tree.makeParents job.home job.target).2 :=
    fun tree => spares_makeParents hslash hdot htemporary hparent
  have hfirst : Attempt.Along (FileTree.Spares job.home job.temporary made) start
      ⟨made, [start], none⟩ :=
    ⟨.refl hfounded, fun tree hmem => .inl (List.mem_singleton.1 hmem)⟩
  have hfilled : Attempt.Along (FileTree.Spares job.home job.temporary made) start
      ([Stage.create, .write, .flush, .sync].foldl (job.step fault) ⟨made, [start], none⟩) :=
    along_foldl hfill hparents (by simp) hfirst
  -- only the move changes more than the temporary file, so it is taken apart from the other steps
  refine ⟨earlier_step hfilled .rename, fun hfailed => along_clear (fun _ _ => spares_removeFile) ?_⟩
  exact along_step hfill hparents (fun _ => hfailed) hfilled

theorem get?_run_of_free (hdone : (job.run fault tree).failure = none)
    (hfree : ∀ content,
      (tree.makeParents job.home job.target).2.readFile job.home job.temporary ≠ .ok content) :
    ∃ directory name,
      (job.run fault tree).tree.PointsTo job.home job.target directory name ∧
      (tree.makeParents job.home job.target).2.Keeps (job.run fault tree).tree ∧
      (∀ place, (job.run fault tree).tree.get? place =
        if place = name :: directory then some (.file job.content)
        else (tree.makeParents job.home job.target).2.get? place) ∧
      ∀ content, (job.run fault tree).tree.readFile job.home job.temporary ≠ .ok content := by
  obtain ⟨made, directory, name, above, last, hparents, htarget, htemp, hplace, hkeeps, hend⟩ :=
    get?_run hdone
  rw [hparents] at hfree ⊢
  -- No file has been there, and no directory is there when a file is made.
  have hnone : made.get? (last :: above) = none := by
    cases hget : made.get? (last :: above) with
    | none => rfl
    | some node =>
      cases node with
      | file content => exact absurd (htemp.readFile hget) (hfree content)
      | directory => exact absurd hget hplace
  refine ⟨directory, name, htarget.keeps hkeeps, hkeeps, fun place => ?_, ?_⟩
  . rw [hend]
    split
    . rfl
    . split
      . next heq => rw [heq, hnone]
      . rfl
  . intro content hread
    have hne : name :: directory ≠ last :: above := by
      rw [htemporary] at htemp
      exact htarget.ne_temporary hslash hdot htemp
    obtain ⟨place, -, hwalk, hfile⟩ := FileTree.readFile_eq_ok.1 hread
    cases hwalk.symm.trans (htemp.keeps hkeeps).walk
    rw [hend, if_neg hne.symm, if_pos rfl] at hfile
    cases hfile

variable (hfounded : tree.Founded)

include hfounded

theorem earlier_run : ∀ other ∈ (job.run fault tree).earlier, other = tree ∨
    FileTree.Spares job.home job.temporary (tree.makeParents job.home job.target).2 other := by
  have hmade := hfounded.makeParents job.home job.target
  rcases job.run_cases fault tree with ⟨-, hearlier, -⟩ | ⟨made, hparents, hrun⟩
  . rw [hearlier]
    exact fun other hmem => .inl (List.mem_singleton.1 hmem)
  . have hparent := FileTree.hasParent_of_makeParents hparents
    rw [hparents] at hmade ⊢
    obtain ⟨hearlier, hcleared⟩ := along_steps hslash hdot htemporary fault hmade hparent tree
    rw [hrun]
    by_cases hdone : ([Stage.create, .write, .flush, .sync, .rename].foldl (job.step fault)
        ⟨made, [tree], none⟩).failure = none
    . rw [clear_of_failure_eq_none hdone]
      exact hearlier
    . exact (hcleared hdone).2

variable (hfree : ∀ content,
  (tree.makeParents job.home job.target).2.readFile job.home job.temporary ≠ .ok content)

include hfree

theorem run_of_failure (hfailed : (job.run fault tree).failure ≠ none) :
    (job.run fault tree).tree = tree ∨
      FileTree.Spares job.home job.temporary (tree.makeParents job.home job.target).2
        (job.run fault tree).tree ∧
      ∀ place, (job.run fault tree).tree.get? place =
        (tree.makeParents job.home job.target).2.get? place := by
  have hmade := hfounded.makeParents job.home job.target
  rcases job.run_cases fault tree with ⟨-, -, hsame | hparents⟩ | ⟨made, hparents, hrun⟩
  . exact .inl hsame
  . rw [hparents]
    exact .inr ⟨.refl hmade, fun _ => rfl⟩
  . have hparent := FileTree.hasParent_of_makeParents hparents
    rw [hparents] at hmade hfree ⊢
    rw [hrun, failure_clear] at hfailed
    obtain ⟨hspares, -⟩ := (along_steps hslash hdot htemporary fault hmade hparent tree).2 hfailed
    rw [hrun]
    exact .inr ⟨hspares, hspares.get?_eq hfree (readFile_clear hfailed)⟩

theorem readFile_temporary_run (content : Bytes) :
    (job.run fault tree).tree.readFile job.home job.temporary ≠ .ok content := by
  by_cases hdone : (job.run fault tree).failure = none
  . obtain ⟨-, -, -, -, -, hclean⟩ := get?_run_of_free hslash hdot htemporary hdone hfree
    exact hclean content
  . rcases run_of_failure hslash hdot htemporary hfounded hfree hdone with hsame | ⟨-, hsame⟩
    . rw [hsame]
      exact fun hread => hfree content (FileTree.readFile_of_makeParents job.target hread)
    . exact fun hread => hfree content (FileTree.readFile_of_get?_eq hsame hread)

end

end Replacement

namespace Disk

variable {disk : Disk} {path : Path}

def temporary (disk : Disk) (path : Path) : Path :=
  (disk.replacement path []).temporary

def attempt (disk : Disk) (path : Path) (content : Bytes) : Attempt :=
  (disk.replacement path content).run disk.faults.head?.join disk.tree

/--
The tree with all directories above a file, as far as they can be made.
-/
def withParents (disk : Disk) (path : Path) : FileTree :=
  (disk.tree.makeParents disk.home path).2

/--
A path that leads nowhere still leads nowhere when all directories above it have been made.
-/
def Settled (disk : Disk) (path : Path) : Prop :=
  disk.tree.leads disk.home path = false → (disk.withParents path).leads disk.home path = false

theorem settled_of_up_notMem (hfounded : disk.tree.Founded) (h : ".." ∉ path.names) :
    disk.Settled path :=
  FileTree.leads_makeParents_of_up_notMem hfounded h

/--
What comes of it when a file is to be replaced, and whether it has been. All of the new content is there
or all is as it was, up to the directories above the file, and nothing is left of the temporary
file. What the path leads to does not change on the way either, as long as that is not the work of those
directories.
-/
structure Replaces (disk : Disk) (path : Path) (content : Bytes) (replaced : Bool) (disk' : Disk) :
    Prop where
  done : replaced = true → ∃ place,
    disk'.tree.find disk.home path = .ok (place, .file content) ∧
      ∀ other, other ≠ place → FileTree.KeptAt disk.home path.above disk.tree disk'.tree other
  failed : replaced = false →
    ∀ place, FileTree.KeptAt disk.home path.above disk.tree disk'.tree place
  kept : replaced = false → disk.Settled path →
    disk'.tree.node? disk.home path = disk.tree.node? disk.home path
  clean : ∀ rest, disk'.read (disk.temporary path) ≠ .ok rest
  between : disk.Settled path →
    ∀ tree ∈ disk'.tree :: (disk.attempt path content).earlier,
      tree.node? disk.home path = disk.tree.node? disk.home path ∨
        tree.node? disk.home path = some (.file content)

theorem node?_of_spares (hfounded : disk.tree.Founded) (hsettled : disk.Settled path)
    {tree : FileTree}
    (h : FileTree.Spares disk.home (disk.temporary path) (disk.withParents path) tree) :
    tree.node? disk.home path = disk.tree.node? disk.home path := by
  have hmade := hfounded.makeParents disk.home path
  have hsame := FileTree.Spares.node?_eq disk.slash_notMem_extension disk.dot_mem_extension h hmade
  exact hsame.trans (FileTree.node?_makeParents hsettled)

theorem node?_of_mem_earlier (hfounded : disk.tree.Founded) (hsettled : disk.Settled path)
    {content : Bytes} {tree : FileTree} (hmem : tree ∈ (disk.attempt path content).earlier) :
    tree.node? disk.home path = disk.tree.node? disk.home path := by
  rcases Replacement.earlier_run disk.slash_notMem_extension disk.dot_mem_extension
    (disk.temporary_replacement path content) hfounded tree hmem with rfl | hspares
  . rfl
  . exact node?_of_spares hfounded hsettled hspares

section

variable (hfounded : disk.tree.Founded)
  (hfree : ∀ rest, (disk.withParents path).readFile disk.home (disk.temporary path) ≠ .ok rest)
  {content : Bytes}

include hfounded hfree

theorem read_temporary_replace (rest : Bytes) :
    (disk.replace path content).2.read (disk.temporary path) ≠ .ok rest :=
  Replacement.readFile_temporary_run disk.slash_notMem_extension disk.dot_mem_extension
    (disk.temporary_replacement path content) hfounded hfree rest

theorem replaces_of_failure (hfailed : (disk.attempt path content).failure ≠ none) :
    disk.Replaces path content false (disk.replace path content).2 := by
  have hend : (disk.attempt path content).tree = disk.tree ∨
      FileTree.Spares disk.home (disk.temporary path) (disk.withParents path)
        (disk.attempt path content).tree ∧
      ∀ place, (disk.attempt path content).tree.get? place = (disk.withParents path).get? place :=
    Replacement.run_of_failure disk.slash_notMem_extension disk.dot_mem_extension
      (disk.temporary_replacement path content) hfounded hfree hfailed
  -- at each place all is the same, but whether the path leads where it has led is another question
  have hkept : disk.Settled path →
      (disk.attempt path content).tree.node? disk.home path = disk.tree.node? disk.home path := by
    intro hsettled
    rcases hend with hsame | ⟨hspares, -⟩
    . rw [hsame]
    . exact node?_of_spares hfounded hsettled hspares
  exact {
    done := nofun
    failed := by
      intro _ place
      rcases hend with hsame | ⟨hspares, hsame⟩
      . exact .inl (congrArg (Table.get? · place) hsame)
      . exact (FileTree.keptAt_makeParents _ _ _ place).of_keeps hspares.keeps (hsame place)
    kept := fun _ => hkept
    clean := read_temporary_replace hfounded hfree
    between := by
      intro hsettled tree hmem
      rcases List.mem_cons.1 hmem with rfl | hmem
      . exact .inl (hkept hsettled)
      . exact .inl (node?_of_mem_earlier hfounded hsettled hmem) }

theorem replaces_of_failure_eq_none (hdone : (disk.attempt path content).failure = none) :
    disk.Replaces path content true (disk.replace path content).2 := by
  obtain ⟨directory, name, htarget, hkeeps, hend, -⟩ :=
    Replacement.get?_run_of_free disk.slash_notMem_extension disk.dot_mem_extension
      (disk.temporary_replacement path content) hdone hfree
  have hfind : (disk.attempt path content).tree.find disk.home path =
      .ok (name :: directory, .file content) :=
    FileTree.find_eq_ok.2 ⟨htarget.check, htarget.walk, (hend _).trans (if_pos rfl)⟩
  exact {
    done := by
      refine fun _ => ⟨_, hfind, fun other hne => ?_⟩
      have hother := FileTree.keptAt_makeParents disk.tree disk.home path other
      exact hother.of_keeps hkeeps ((hend other).trans (if_neg hne))
    failed := nofun
    kept := nofun
    clean := read_temporary_replace hfounded hfree
    between := by
      intro hsettled tree hmem
      rcases List.mem_cons.1 hmem with rfl | hmem
      . exact .inr (FileTree.node?_eq_some.2 ⟨_, hfind⟩)
      . exact .inl (node?_of_mem_earlier hfounded hsettled hmem) }

theorem replaces :
    disk.Replaces path content (disk.replace path content).1.isOk (disk.replace path content).2 := by
  cases hresult : (disk.replace path content).1 with
  | ok done => exact replaces_of_failure_eq_none hfounded hfree (replace_isOk_iff.1 hresult)
  | error e =>
    refine replaces_of_failure hfounded hfree fun hnone => ?_
    rw [replace_isOk_iff.2 hnone] at hresult
    cases hresult

end

/--
A disk with a file that fails when a temporary file is to be moved.
-/
def busy (name : String) : Disk :=
  { Disk.ofDirectory [] 7 with
    tree := (FileTree.ofDirectory []).put [name] (.file (bytesOf "old"))
    faults := [some ⟨.rename, .busy, 0⟩] }

theorem founded_busy (name : String) : (busy name).tree.Founded := by
  obtain ⟨hfounded, hroot⟩ := FileTree.founded_ofDirectory []
  exact hfounded.put hroot nofun _

end Disk

namespace Database

theorem replaces_of_flush {db : Database} {disk : Disk} (hpath : db.path.isEmpty = false)
    (hfounded : disk.tree.Founded)
    (hfree : ∀ rest,
      (disk.withParents db.path).readFile disk.home (disk.temporary db.path) ≠ .ok rest) :
    disk.Replaces db.path db.contents.written (db.flush disk).1.isOk (db.flush disk).2 := by
  have hreplaces : disk.Replaces db.path db.contents.written _ _ := Disk.replaces hfounded hfree
  unfold flush
  rw [hpath, if_neg Bool.false_ne_true]
  split
  . next hdone =>
    rw [hdone] at hreplaces
    exact hreplaces
  . next hfailed =>
    rw [hfailed] at hreplaces
    exact hreplaces

/--
A write that fails does no damage. Wherever it fails, and whether a database is flushed or a draft is
synced, the file is replaced as a whole, or it is left alone and so is everything else, up to the
directories above the file. Nothing is left of the temporary file, if there was none under its name
before. Only a path with a step up may lead to something that it has not led to before the directories
were made.
-/
theorem replaces_of_write (db : Database) (disk : Disk) (hpath : db.path.isEmpty = false)
    (hfounded : disk.tree.Founded)
    (hfree : ∀ rest,
      (disk.withParents db.path).readFile disk.home (disk.temporary db.path) ≠ .ok rest) :
    disk.Replaces db.path db.contents.written (db.flush disk).1.isOk (db.flush disk).2 ∧
      (∀ draft : Draft, disk.Replaces db.path
        (db.publish draft.name draft.staged).contents.written (draft.sync db disk).1.isOk
        (draft.sync db disk).2.2) ∧
      (".." ∉ db.path.names → disk.Settled db.path) := by
  refine ⟨replaces_of_flush hpath hfounded hfree, fun draft => ?_,
    Disk.settled_of_up_notMem hfounded⟩
  have hsame : (db.publish draft.name draft.staged).path.isEmpty = false := hpath
  exact replaces_of_flush hsame hfounded hfree

theorem replaces_of_write_busy :
    let db : Database := ⟨⟨"r"⟩, .empty⟩
    (db.flush (Disk.busy "r")).1.isOk = false ∧
      (Disk.busy "r").Replaces ⟨"r"⟩ db.contents.written false (db.flush (Disk.busy "r")).2 ∧
      (db.flush (Disk.busy "r")).2.tree.node? [] ⟨"r"⟩ = some (.file (bytesOf "old")) := by
  intro db
  have hfree : ∀ rest,
      ((Disk.busy "r").withParents ⟨"r"⟩).readFile [] ((Disk.busy "r").temporary ⟨"r"⟩) ≠ .ok rest := by
    intro rest
    have hnone : ((Disk.busy "r").withParents ⟨"r"⟩).readFile [] ((Disk.busy "r").temporary ⟨"r"⟩) =
        .error .notFound := rfl
    rw [hnone]
    nofun
  obtain ⟨hflush, -, hsettled⟩ := replaces_of_write db (Disk.busy "r") rfl (Disk.founded_busy "r") hfree
  have hfailed : (db.flush (Disk.busy "r")).1.isOk = false := by decide
  rw [hfailed] at hflush
  exact ⟨hfailed, hflush, (hflush.kept rfl (hsettled (by decide))).trans (by decide)⟩

/--
A path with a step up leads nowhere as long as a directory on the way is missing. The directory is made
when the file is to be written, and when that fails, the path leads to another file all the same.
-/
theorem flush_reveals_other_file :
    let db : Database := ⟨⟨"a/../b"⟩, .empty⟩
    db.path.fileName? = some "b" ∧ (Disk.busy "b").tree.Founded ∧
      ((Disk.busy "b").withParents db.path).leads [] ((Disk.busy "b").temporary db.path) = false ∧
      (db.flush (Disk.busy "b")).1.isOk = false ∧ (Disk.busy "b").tree.node? [] db.path = none ∧
      (db.flush (Disk.busy "b")).2.tree.node? [] db.path = some (.file (bytesOf "old")) := by
  intro db
  exact ⟨by decide, Disk.founded_busy "b", by decide, by decide, by decide, by decide⟩

end Database

end ReadProgress
