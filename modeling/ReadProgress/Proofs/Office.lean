import Mathlib.Logic.Function.Basic
import ReadProgress.Draft
import ReadProgress.Proofs.Database

/-!
This module contains what may happen in an office, where several drafts of one database are worked on
at the same time, and the proof that nothing gets lost between them and nothing leaks. What is
published under the name of a draft is what that draft had in it when it was published last, and the
file has what was published when it was written last.
-/

namespace ReadProgress

/--
What is done in an office. The drafts are told apart by their indices.
-/
inductive Task (ι : Type) where
  | put (i : ι) (key : String) (value : Json)
  | putMap (i : ι) (key : String) (pairs : List (Json × Json))
  | erase (i : ι) (key : String)
  | load (i : ι)
  /-- Begin a sync. What has been staged is published, and others get their turns before the file is
  written, which is done by a flush. -/
  | publish (i : ι)
  | sync (i : ι)
  | flush

namespace Task

variable {ι : Type}

def published? : Task ι → Option ι
  | publish i | sync i => some i
  | put _ _ _ | putMap _ _ _ | erase _ _ | load _ | flush => none

/--
Whether it is tried to write the file.
-/
def writes : Task ι → Bool
  | sync _ | flush => true
  | put _ _ _ | putMap _ _ _ | erase _ _ | load _ | publish _ => false

end Task

/--
A database with drafts of some of its scopes, and the disk that has its file.
-/
structure Office (ι : Type) where
  drafts : ι → Draft
  database : Database
  disk : Disk

namespace Office

variable {ι : Type} [DecidableEq ι]

def setDraft (office : Office ι) (i : ι) (draft : Draft) : Office ι :=
  { office with drafts := Function.update office.drafts i draft }

/--
Do a task, with the answer that is given to whoever does it.
-/
def perform (office : Office ι) : Task ι → Except Error Unit × Office ι
  | .put i key value => (.ok (), office.setDraft i ((office.drafts i).put key value))
  | .putMap i key pairs =>
    match (office.drafts i).putMap key pairs with
    | .ok draft => (.ok (), office.setDraft i draft)
    | .error e => (.error e, office)
  | .erase i key => (.ok (), office.setDraft i ((office.drafts i).erase key))
  | .load i => (.ok (), office.setDraft i ((office.drafts i).load office.database))
  | .publish i =>
    let draft := office.drafts i
    (.ok (), { office with database := office.database.publish draft.name draft.staged })
  | .sync i =>
    let (result, database, disk) := (office.drafts i).sync office.database office.disk
    (result, { office with database, disk })
  | .flush =>
    let (result, disk) := office.database.flush office.disk
    (result, { office with disk })

def run (office : Office ι) : List (Task ι) → Office ι
  | [] => office
  | task :: tasks => (office.perform task).2.run tasks

/--
What was in a draft when it was published last.
-/
def lastPublished? (office : Office ι) (i : ι) : List (Task ι) → Option Scope
  | [] => none
  | task :: tasks =>
    ((office.perform task).2.lastPublished? i tasks).or
      (if task.published? = some i then some (office.drafts i).staged else none)

variable {office : Office ι}

theorem drafts_setDraft (office : Office ι) (i : ι) (draft : Draft) (j : ι) :
    (office.setDraft i draft).drafts j = if j = i then draft else office.drafts j :=
  Function.update_apply _ _ _ _

theorem name_setDraft {i : ι} {draft : Draft} (h : draft.name = (office.drafts i).name) (j : ι) :
    ((office.setDraft i draft).drafts j).name = (office.drafts j).name := by
  rw [drafts_setDraft]
  split
  . next heq => rw [h, heq]
  . rfl

theorem perform_putMap (office : Office ι) (i : ι) (key : String) (pairs : List (Json × Json)) :
    (office.perform (.putMap i key pairs)).2 =
      match Json.ofPairs? pairs with
      | some value => office.setDraft i ((office.drafts i).put key value)
      | none => office := by
  simp only [perform, Draft.putMap]
  cases Json.ofPairs? pairs <;> rfl

theorem name_perform (office : Office ι) (task : Task ι) (j : ι) :
    ((office.perform task).2.drafts j).name = (office.drafts j).name := by
  cases task with
  | put | erase | load => exact name_setDraft (by rfl) j
  | publish | sync | flush => rfl
  | putMap i key pairs =>
    rw [perform_putMap]
    split
    . exact name_setDraft (by rfl) j
    . rfl

theorem database_perform (office : Office ι) (task : Task ι) :
    (office.perform task).2.database =
      match task.published? with
      | none => office.database
      | some i => office.database.publish (office.drafts i).name (office.drafts i).staged := by
  cases task with
  | putMap i key pairs =>
    rw [perform_putMap]
    split <;> rfl
  | put | erase | load | publish | sync | flush => rfl

section

variable (hnames : Function.Injective fun i => (office.drafts i).name)

include hnames

theorem injective_perform (task : Task ι) :
    Function.Injective fun i => ((office.perform task).2.drafts i).name := by
  intro i j heq
  simp only [name_perform] at heq
  exact hnames heq

theorem get?_perform (task : Task ι) (i : ι) :
    (office.perform task).2.database.contents.get? (office.drafts i).name =
      if task.published? = some i then some (office.drafts i).staged
      else office.database.contents.get? (office.drafts i).name := by
  rw [database_perform]
  cases task.published? with
  | none => rfl
  | some j =>
    dsimp only
    rw [Database.publish, Table.get?_put]
    by_cases heq : i = j
    . rw [if_pos (by rw [heq]), if_pos (by rw [heq]), heq]
    . rw [if_neg fun hname => heq (hnames hname), if_neg]
      simpa using Ne.symm heq

/--
What is published under the name of a draft is what was in it when it was published last.
-/
theorem get?_run (tasks : List (Task ι)) (i : ι) :
    (office.run tasks).database.contents.get? (office.drafts i).name =
      (office.lastPublished? i tasks).or
        (office.database.contents.get? (office.drafts i).name) := by
  induction tasks generalizing office with
  | nil => rfl
  | cons task tasks ih =>
    have hrest := ih (injective_perform hnames task)
    rw [name_perform, get?_perform hnames] at hrest
    rw [run, lastPublished?, Option.or_assoc, hrest]
    split <;> rfl

end

/--
Two offices that cannot be told apart by those who do not look into one of the drafts.
-/
structure AlikeBut (i : ι) (office other : Office ι) : Prop where
  database : other.database = office.database
  disk : other.disk = office.disk
  name : (other.drafts i).name = (office.drafts i).name
  drafts : ∀ j, j ≠ i → other.drafts j = office.drafts j

namespace AlikeBut

variable {i : ι} {other : Office ι}

theorem setDraft (h : AlikeBut i office other) (j : ι) {draft draft' : Draft}
    (hname : draft'.name = draft.name) (hdraft : j ≠ i → draft' = draft) :
    AlikeBut i (office.setDraft j draft) (other.setDraft j draft') where
  database := h.database
  disk := h.disk
  name := by
    rw [drafts_setDraft, drafts_setDraft]
    split
    . exact hname
    . exact h.name
  drafts k hne := by
    rw [drafts_setDraft, drafts_setDraft]
    split
    . next heq => exact hdraft (heq ▸ hne)
    . exact h.drafts k hne

theorem names (h : AlikeBut i office other) (j : ι) :
    (other.drafts j).name = (office.drafts j).name := by
  by_cases heq : j = i
  . rw [heq, h.name]
  . rw [h.drafts j heq]

theorem perform (h : AlikeBut i office other) {task : Task ι} (htask : task.published? ≠ some i) :
    AlikeBut i (office.perform task).2 (other.perform task).2 := by
  cases task with
  | put j key value => exact h.setDraft j (h.names j) fun hne => by rw [h.drafts j hne]
  | erase j key => exact h.setDraft j (h.names j) fun hne => by rw [h.drafts j hne]
  | load j =>
    exact h.setDraft j (h.names j) fun hne => by rw [h.drafts j hne, h.database]
  | putMap j key pairs =>
    rw [perform_putMap, perform_putMap]
    cases Json.ofPairs? pairs with
    | none => exact h
    | some value => exact h.setDraft j (h.names j) fun hne => by rw [h.drafts j hne]
  | publish j =>
    have hne : j ≠ i := fun heq => htask (congrArg some heq)
    exact { h with database := by simp only [Office.perform, h.database, h.drafts j hne] }
  | sync j =>
    have hne : j ≠ i := fun heq => htask (congrArg some heq)
    exact { h with
      database := by simp only [Office.perform, Draft.sync, h.database, h.drafts j hne]
      disk := by simp only [Office.perform, Draft.sync, h.database, h.disk, h.drafts j hne] }
  | flush => exact { h with disk := by simp only [Office.perform, h.database, h.disk] }

theorem run (h : AlikeBut i office other) {tasks : List (Task ι)}
    (htasks : ∀ task ∈ tasks, task.published? ≠ some i) :
    AlikeBut i (office.run tasks) (other.run tasks) := by
  induction tasks generalizing office other with
  | nil => exact h
  | cons task tasks ih =>
    exact ih (h.perform (htasks task List.mem_cons_self)) fun later hlater =>
      htasks later (List.mem_cons_of_mem _ hlater)

end AlikeBut

/--
An office with two drafts. The second time that the file is written, the disk fails.
-/
def pair : Office Bool where
  drafts second := .ofName (if second then "b" else "a")
  database := ⟨⟨"r"⟩, .empty⟩
  disk := { Disk.ofDirectory [] 7 with faults := [none, some ⟨.rename, .busy, 0⟩] }

end Office

end ReadProgress
