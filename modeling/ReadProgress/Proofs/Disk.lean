import ReadProgress.Disk
import ReadProgress.Proofs.FileTree.Steady

/-!
This module contains the proof that a replacement that does not fail puts the new content under the
path, and that one that fails changes nothing there.
-/

namespace ReadProgress

namespace Replacement

variable {job : Replacement} {fault : Option Fault} {attempt : Attempt} {tree tree' : FileTree}

theorem fill_eq_ok {content : Bytes} (h : job.fill content tree = (.ok (), tree')) :
    tree.writeFile job.home job.temporary content = .ok tree' := by
  unfold fill at h
  split at h
  . next hwrite =>
    cases h
    exact hwrite
  . cases h

theorem fill_cases (job : Replacement) (content : Bytes) (tree : FileTree) :
    (job.fill content tree).2 = tree ∨
      tree.writeFile job.home job.temporary content = .ok (job.fill content tree).2 := by
  unfold fill
  split
  . next hwrite => exact .inr hwrite
  . exact .inl rfl

theorem perform_rename_eq_ok (h : job.perform tree .rename = (.ok (), tree')) :
    tree.moveFile job.home job.temporary job.target = .ok tree' := by
  unfold perform at h
  dsimp only at h
  split at h
  . next hmove =>
    cases h
    exact hmove
  . cases h

/--
A step is not taken after a failure. Else it is done, which may fail as well, or it fails by a fault
of the disk.
-/
theorem step_cases (job : Replacement) (fault : Option Fault) (attempt : Attempt) (stage : Stage) :
    (attempt.failure ≠ none ∧ job.step fault attempt stage = attempt) ∨
    (attempt.failure = none ∧
      (job.step fault attempt stage).tree = (job.perform attempt.tree stage).2 ∧
      ((job.step fault attempt stage).failure = none ↔
        (job.perform attempt.tree stage).1 = .ok ())) ∨
    (attempt.failure = none ∧ (job.step fault attempt stage).failure ≠ none ∧
      ∃ cause : Fault, cause.stage = stage ∧
        (job.step fault attempt stage).tree = job.fail attempt.tree cause) := by
  by_cases hfailed : attempt.failure.isSome = true
  . refine .inl ⟨?_, step_of_failure job fault hfailed stage⟩
    intro hnone
    simp [hnone] at hfailed
  . have hnone : attempt.failure = none := by simpa using hfailed
    rcases fault with _ | fault
    . refine .inr (.inl ⟨hnone, by simp [step, hnone], ?_⟩)
      cases hresult : (job.perform attempt.tree stage).1 <;> simp [step, hnone, hresult]
    . by_cases hstage : fault.stage = stage
      . refine .inr (.inr ⟨hnone, ?_, fault, hstage, ?_⟩)
        . simp [step, hnone, hstage]
        . simp [step, hnone, hstage]
      . refine .inr (.inl ⟨hnone, by simp [step, hnone, hstage], ?_⟩)
        cases hresult : (job.perform attempt.tree stage).1 <;>
          simp [step, hnone, hstage, hresult]

theorem step_of_failure_eq_none {stage : Stage}
    (h : (job.step fault attempt stage).failure = none) :
    attempt.failure = none ∧
      job.perform attempt.tree stage = (.ok (), (job.step fault attempt stage).tree) := by
  rcases job.step_cases fault attempt stage with ⟨hfailed, hsame⟩ | ⟨hnone, htree, hdone⟩ |
    ⟨-, hfailed, -⟩
  . rw [hsame] at h
    exact absurd h hfailed
  . exact ⟨hnone, Prod.ext (hdone.1 h) htree.symm⟩
  . exact absurd h hfailed

theorem failure_clear (job : Replacement) (attempt : Attempt) :
    (job.clear attempt).failure = attempt.failure := by
  unfold clear
  split
  . split <;> rfl
  . rfl

theorem clear_of_failure_eq_none (h : attempt.failure = none) : job.clear attempt = attempt := by
  unfold clear
  rw [h]
  rfl

theorem run_of_failure_eq_none (h : (job.run fault tree).failure = none) :
    ∃ prepared created filled, tree.makeParents job.home job.target = (.ok (), prepared) ∧
      prepared.writeFile job.home job.temporary [] = .ok created ∧
        created.writeFile job.home job.temporary job.content = .ok filled ∧
          filled.moveFile job.home job.temporary job.target = .ok (job.run fault tree).tree := by
  unfold run at h ⊢
  dsimp only at h ⊢
  split at h
  . next hfailed =>
    rw [h] at hfailed
    cases hfailed
  . next hprepared =>
    rw [if_neg hprepared]
    simp only [List.foldl] at h ⊢
    rw [failure_clear] at h
    rw [clear_of_failure_eq_none h]
    obtain ⟨h, hrename⟩ := step_of_failure_eq_none h
    obtain ⟨h, hsync⟩ := step_of_failure_eq_none h
    obtain ⟨h, hflush⟩ := step_of_failure_eq_none h
    obtain ⟨h, hwrite⟩ := step_of_failure_eq_none h
    obtain ⟨h, hcreate⟩ := step_of_failure_eq_none h
    obtain ⟨h, hparents⟩ := step_of_failure_eq_none h
    rw [← (Prod.mk.inj hsync).2, ← (Prod.mk.inj hflush).2] at hrename
    exact ⟨_, _, _, hparents, fill_eq_ok hcreate, fill_eq_ok hwrite, perform_rename_eq_ok hrename⟩

section

variable {p : FileTree → Prop}

theorem of_step (hfill : ∀ content tree, p tree → p (job.fill content tree).2)
    (hparents : ∀ tree, p tree → p (tree.makeParents job.home job.target).2) {stage : Stage}
    (hrename : stage = .rename → (job.step fault attempt stage).failure ≠ none)
    (h : p attempt.tree) : p (job.step fault attempt stage).tree := by
  rcases job.step_cases fault attempt stage with ⟨-, hsame⟩ | ⟨-, htree, hdone⟩ |
    ⟨-, -, cause, -, htree⟩
  . rw [hsame]
    exact h
  . rw [htree]
    cases stage with
    | parents => exact hparents _ h
    | create => exact hfill _ _ h
    | write => exact hfill _ _ h
    | flush => exact h
    | sync => exact h
    | rename =>
      -- the step fails, so nothing is moved
      have hfailed := mt hdone.2 (hrename rfl)
      rw [perform] at hfailed ⊢
      cases hmove : attempt.tree.moveFile job.home job.temporary job.target with
      | ok tree =>
        rw [hmove] at hfailed
        exact absurd rfl hfailed
      | error e => exact h
  . rw [htree, fail]
    split
    . exact hfill _ _ h
    . exact hfill _ _ h
    . exact h
    . exact h
    . exact h
    . exact h

theorem of_run_of_failure (hfill : ∀ content tree, p tree → p (job.fill content tree).2)
    (hparents : ∀ tree, p tree → p (tree.makeParents job.home job.target).2)
    (hclear : ∀ tree tree', p tree → tree.removeFile job.home job.temporary = .ok tree' → p tree')
    (hfailed : (job.run fault tree).failure ≠ none) (h : p tree) : p (job.run fault tree).tree := by
  unfold run at hfailed ⊢
  dsimp only at hfailed ⊢
  have hprepared : p (job.step fault ⟨tree, [], none⟩ .parents).tree :=
    of_step hfill hparents (by simp) h
  split
  . exact hprepared
  . next hnone =>
    rw [if_neg hnone, failure_clear] at hfailed
    have hlast : p ([Stage.create, .write, .flush, .sync, .rename].foldl (job.step fault)
        (job.step fault ⟨tree, [], none⟩ .parents)).tree := by
      refine of_step hfill hparents (fun _ => hfailed) ?_
      refine of_step hfill hparents (by simp) ?_
      refine of_step hfill hparents (by simp) ?_
      refine of_step hfill hparents (by simp) ?_
      exact of_step hfill hparents (by simp) hprepared
    unfold clear
    split
    . split
      . next tree' hremove => exact hclear _ tree' hlast hremove
      . exact hlast
    . exact hlast

end

/--
A replacement that does not fail puts a file under the path and takes away the temporary file. Apart
from that, only directories have been made.
-/
theorem get?_run (h : (job.run fault tree).failure = none) :
    ∃ made directory name above last, tree.makeParents job.home job.target = (.ok (), made) ∧
      made.PointsTo job.home job.target directory name ∧
      made.PointsTo job.home job.temporary above last ∧
      made.get? (last :: above) ≠ some .directory ∧ made.Keeps (job.run fault tree).tree ∧
      ∀ place, (job.run fault tree).tree.get? place =
        if place = name :: directory then some (.file job.content)
        else if place = last :: above then none
        else made.get? place := by
  obtain ⟨made, created, filled, hparents, hcreate, hwrite, hmove⟩ := run_of_failure_eq_none h
  obtain ⟨above, last, htemporary, hplace, rfl⟩ := FileTree.writeFile_eq_ok hcreate
  obtain ⟨above', last', htemporary', hplace', rfl⟩ := FileTree.writeFile_eq_ok hwrite
  have hcreated := htemporary.keeps (FileTree.keeps_put hplace (.file []))
  obtain ⟨rfl, rfl⟩ := hcreated.unique htemporary'
  have hfilled := hcreated.keeps (FileTree.keeps_put hplace' (.file job.content))
  obtain ⟨above, last, directory, name, content, hsource, htarget, hcontent, hnode, hrun⟩ :=
    FileTree.moveFile_eq_ok hmove
  -- The file that is moved is the one that was written, since a path points to one place only.
  obtain ⟨rfl, rfl⟩ := hfilled.unique hsource
  obtain rfl : job.content = content := by
    rw [Table.get?_put, if_pos rfl] at hcontent
    exact Node.file.inj (Option.some.inj hcontent)
  have hsame : ∀ place, place ≠ last :: above →
      Table.get? (Table.put (Table.put made (last :: above) (.file [])) (last :: above)
        (.file job.content)) place = made.get? place := by
    intro place hne
    rw [Table.get?_put, if_neg hne, Table.get?_put, if_neg hne]
  -- Both writes went to the temporary path, so every directory now there was there at the start.
  have hback : FileTree.Keeps (Table.put (Table.put made (last :: above) (.file []))
      (last :: above) (.file job.content)) made := by
    intro place hdirectory
    rw [← hsame place]
    . exact hdirectory
    . rintro rfl
      rw [Table.get?_put, if_pos rfl] at hdirectory
      cases hdirectory
  have hend : ∀ place, (job.run fault tree).tree.get? place =
      if place = name :: directory then some (.file job.content)
      else if place = last :: above then none
      else made.get? place := by
    intro place
    rw [hrun, Table.get?_put, Table.get?_erase]
    split
    . rfl
    . split
      . rfl
      . next hne => exact hsame place hne
  refine ⟨made, directory, name, above, last, hparents, htarget.keeps hback, htemporary, hplace, ?_,
    hend⟩
  intro place hdirectory
  have hother : place ≠ last :: above := by
    rintro rfl
    exact hplace hdirectory
  rw [hend, if_neg, if_neg hother]
  . exact hdirectory
  . rintro rfl
    rw [hsame _ hother] at hnode
    exact hnode hdirectory

/--
A replacement that does not fail puts the whole content under the path.
-/
theorem readFile_run (h : (job.run fault tree).failure = none) :
    (job.run fault tree).tree.readFile job.home job.target = .ok job.content := by
  obtain ⟨made, directory, name, above, last, -, htarget, -, -, hkeeps, hend⟩ := get?_run h
  exact (htarget.keeps hkeeps).readFile ((hend _).trans (if_pos rfl))

theorem founded_run (job : Replacement) (fault : Option Fault) (h : tree.Founded) :
    (job.run fault tree).tree.Founded := by
  by_cases hdone : (job.run fault tree).failure = none
  . obtain ⟨prepared, created, filled, hparents, hcreate, hwrite, hmove⟩ := run_of_failure_eq_none hdone
    have hprepared : prepared.Founded := by
      have := h.makeParents job.home job.target
      rw [hparents] at this
      exact this
    exact ((hprepared.writeFile hcreate).writeFile hwrite).moveFile hmove
  . refine of_run_of_failure ?_ (fun tree hfounded => hfounded.makeParents _ _)
      (fun tree tree' hfounded hremove => hfounded.removeFile hremove) hdone h
    intro content tree hfounded
    rcases job.fill_cases content tree with hsame | hwrite
    . rw [hsame]
      exact hfounded
    . exact hfounded.writeFile hwrite

theorem spares_fill (h : FileTree.Spares job.home job.temporary tree tree') (content : Bytes) :
    FileTree.Spares job.home job.temporary tree (job.fill content tree').2 := by
  rcases job.fill_cases content tree' with hsame | hwrite
  . rw [hsame]
    exact h
  . obtain ⟨directory, name, hpoints, hplace, heq⟩ := FileTree.writeFile_eq_ok hwrite
    rw [heq]
    exact h.put hpoints hplace content

theorem spares_removeFile {next : FileTree} (h : FileTree.Spares job.home job.temporary tree tree')
    (hremove : tree'.removeFile job.home job.temporary = .ok next) :
    FileTree.Spares job.home job.temporary tree next := by
  obtain ⟨place, content, hcheck, hwalk, hfile, rfl⟩ := FileTree.removeFile_eq_ok hremove
  obtain ⟨directory, name, rfl, hpoints⟩ := h.founded.pointsTo hcheck hwalk hfile
  exact h.erase hpoints (by simp [hfile])

theorem spares_makeParents {extension : String} (hslash : '/' ∉ extension.toList)
    (hdot : '.' ∈ extension.toList) (htemporary : job.temporary = job.target.withExtension extension)
    (hparent : tree.HasParent job.home job.target)
    (h : FileTree.Spares job.home job.temporary tree tree') :
    FileTree.Spares job.home job.temporary tree (tree'.makeParents job.home job.target).2 := by
  have hsame : tree'.HasParent job.home job.target := by
    rw [htemporary] at h
    exact h.hasParent hslash hdot hparent
  rw [hsame.makeParents_eq]
  exact h

section

variable {extension : String} (hslash : '/' ∉ extension.toList) (hdot : '.' ∈ extension.toList)
  (htemporary : job.temporary = job.target.withExtension extension)
  (hsteady : tree.Steady job.home job.target)

include hslash hdot htemporary hsteady

theorem spares_run (hfailed : (job.run fault tree).failure ≠ none) :
    FileTree.Spares job.home job.temporary tree (job.run fault tree).tree := by
  apply of_run_of_failure
  . exact fun content _ hother => spares_fill hother content
  . exact fun _ hother => spares_makeParents hslash hdot htemporary hsteady.hasParent hother
  . exact fun _ _ => spares_removeFile
  . exact hfailed
  . exact .refl hsteady.founded

theorem steady_run_of_failure_eq_none (hdone : (job.run fault tree).failure = none) :
    (job.run fault tree).tree.Steady job.home job.target := by
  obtain ⟨made, -, -, above, last, hparents, -, htemp, -, hkeeps, -⟩ := get?_run hdone
  rw [hsteady.hasParent.makeParents_eq] at hparents
  obtain rfl := (Prod.mk.inj hparents).2
  refine ⟨founded_run job fault hsteady.founded, ?_, fun _ => ⟨_, readFile_run hdone⟩⟩
  -- The temporary file is gone, but it had a place, so nothing above the path was a file.
  apply hsteady.hasParent.keeps hslash hdot hkeeps
  intro place file hfile hnone
  rw [← htemporary] at hnone
  exact absurd htemp (hnone above last)

end

end Replacement

namespace Disk

variable {disk disk' : Disk} {path : Path} {content : Bytes}

/--
A path leads to a file or nowhere, and what is above it is there.
-/
def Steady (disk : Disk) (path : Path) : Prop :=
  disk.tree.Steady disk.home path

def content? (disk : Disk) (path : Path) : Option Bytes :=
  (disk.read path).toOption

theorem content?_eq_some : disk.content? path = some content ↔ disk.read path = .ok content := by
  unfold content?
  cases disk.read path with
  | ok found => simp [Except.toOption]
  | error e => simp [Except.toOption]

theorem replace_isOk_iff : (disk.replace path content).1 = .ok () ↔
    ((disk.replacement path content).run disk.faults.head?.join disk.tree).failure = none := by
  unfold replace
  dsimp only
  split
  . next hnone => simp [hnone]
  . next e hfailed => simp [hfailed]

theorem replace_eq_ok (h : disk.replace path content = (.ok (), disk')) :
    disk'.home = disk.home ∧ disk'.read path = .ok content := by
  have hnone := replace_isOk_iff.1 (congrArg Prod.fst h)
  obtain rfl : (disk.replace path content).2 = disk' := congrArg Prod.snd h
  exact ⟨rfl, Replacement.readFile_run hnone⟩

theorem steady_of_read (h : disk.tree.Founded) (hread : disk.read path = .ok content) :
    disk.Steady path := by
  obtain ⟨directory, name, hpoints, -⟩ := h.pointsTo_of_readFile hread
  exact ⟨h, hpoints.hasParent, fun _ => ⟨content, hread⟩⟩

theorem slash_notMem_extension (disk : Disk) :
    '/' ∉ ("tmp." ++ toString disk.process ++ "." ++ toString disk.serial).toList := by
  have hdigits : ∀ n : Nat, '/' ∉ Nat.toDigits 10 n := by
    intro n hmem
    have := Nat.isDigit_of_mem_toDigits (by decide) (by decide) hmem
    cases this
  simp [hdigits]

theorem dot_mem_extension (disk : Disk) :
    '.' ∈ ("tmp." ++ toString disk.process ++ "." ++ toString disk.serial).toList := by
  simp

theorem temporary_replacement (disk : Disk) (path : Path) (content : Bytes) :
    (disk.replacement path content).temporary = (disk.replacement path content).target.withExtension
      ("tmp." ++ toString disk.process ++ "." ++ toString disk.serial) := rfl

/--
Whether or not a file can be replaced, whoever looks next finds the old content or the new one.
-/
theorem Steady.replace (h : disk.Steady path) (content : Bytes) :
    (disk.replace path content).2.Steady path ∧
      (disk.replace path content).2.content? path =
        if (disk.replace path content).1 = .ok () then some content else disk.content? path := by
  have hslash := disk.slash_notMem_extension
  have hdot := disk.dot_mem_extension
  have htemporary := disk.temporary_replacement path content
  have htree : disk.tree.Steady (disk.replacement path content).home
      (disk.replacement path content).target := h
  cases hresult : (disk.replace path content).1 with
  | ok done =>
    have hdone : disk.replace path content = (.ok (), (disk.replace path content).2) :=
      Prod.ext hresult rfl
    refine ⟨?_, (content?_eq_some.2 (replace_eq_ok hdone).2).trans (if_pos rfl).symm⟩
    exact Replacement.steady_run_of_failure_eq_none hslash hdot htemporary htree
      (replace_isOk_iff.1 hresult)
  | error e =>
    have hfailed : (disk.replace path content).1 ≠ .ok () := by simp [hresult]
    have hspares := Replacement.spares_run hslash hdot htemporary htree
      (mt replace_isOk_iff.2 hfailed)
    refine ⟨hspares.steady hslash hdot h, ?_⟩
    rw [if_neg (by simp)]
    ext found
    rw [content?_eq_some, content?_eq_some]
    exact hspares.readFile_iff hslash hdot h.founded

end Disk

end ReadProgress
