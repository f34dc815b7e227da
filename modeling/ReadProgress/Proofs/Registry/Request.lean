import Mathlib.Data.Finset.Dedup
import ReadProgress.Proofs.Registry.Account
import ReadProgress.Proofs.Registry.Refinement

/-!
This module contains what those who use a registry ask of it, and the proof that all answers are given
by its ledger. So two registries with one ledger cannot be told apart, in whichever order their records
are.
-/

namespace ReadProgress

namespace Registry

inductive Request where
  | update (record : Record) (moment : Timestamp)
  | cleanup (now : Timestamp)
  | find (id : String)
  | contains (id : String)
  | isNew (id : String)
  | size

/--
What is answered to a request.
-/
inductive Answer where
  | done
  | cleaned (ids : Finset String) (removed pending : Nat)
  | found (record : Option Record)
  | known (known : Bool)
  | counted (count : Nat)

/--
The account of a cleanup for those who do not look at the order in which records were removed.
-/
def Cleanup.answer (cleanup : Cleanup) : Answer :=
  .cleaned cleanup.removed.toFinset cleanup.removed.length cleanup.pending

def serve (registry : Registry) : Request → Answer × Registry
  | .update record moment => (.done, registry.update record moment)
  | .cleanup now => ((registry.cleanup now).1.answer, (registry.cleanup now).2)
  | .find id => (.found (registry.find? id), registry)
  | .contains id => (.known (registry.contains id), registry)
  | .isNew id => (.known (registry.isNew id), registry)
  | .size => (.counted registry.size, registry)

def answers (registry : Registry) : List Request → List Answer
  | [] => []
  | request :: requests =>
    (registry.serve request).1 :: (registry.serve request).2.answers requests

end Registry

namespace Ledger

open Registry (Request Answer)

/--
The ids of the records that a cleanup removes.
-/
def removableIds (ledger : Ledger) (now : Timestamp) : List String :=
  (ledger.values.filter fun record => record.isRemovable now).map (·.id)

def serve (ledger : Ledger) : Request → Answer × Ledger
  | .update record moment => (.done, ledger.put record.id { record with timestamp := moment })
  | .cleanup now =>
    (.cleaned (ledger.removableIds now).toFinset (ledger.removableIds now).length
      (ledger.values.countP fun record => record.isPending now),
      ledger.retain fun record => !record.isRemovable now)
  | .find id => (.found (ledger.get? id), ledger)
  | .contains id => (.known (ledger.contains id), ledger)
  | .isNew id => (.known (!ledger.contains id), ledger)
  | .size => (.counted ledger.size, ledger)

def answers (ledger : Ledger) : List Request → List Answer
  | [] => []
  | request :: requests => (ledger.serve request).1 :: (ledger.serve request).2.answers requests

end Ledger

namespace Registry

namespace Refines

variable {registry : Registry} {ledger : Ledger}

theorem size_eq (h : registry.Refines ledger) : registry.size = ledger.size := by
  rw [size, h.records_perm.length_eq]
  exact List.length_map _

theorem answer_cleanup (h : registry.Refines ledger) (now : Timestamp) :
    (registry.cleanup now).1.answer = (ledger.serve (.cleanup now)).1 := by
  have hperm := h.records_perm
  have hremoved : (registry.cleanup now).1.removed.Perm (ledger.removableIds now) :=
    (registry.removed_cleanup_perm now).trans
      ((hperm.filter fun record => record.isRemovable now).map (·.id))
  unfold Cleanup.answer
  rw [List.toFinset_eq_of_perm _ _ hremoved, hremoved.length_eq, pending_cleanup, hperm.countP_eq]
  rfl

theorem serve (h : registry.Refines ledger) (request : Request) :
    (registry.serve request).1 = (ledger.serve request).1 ∧
      (registry.serve request).2.Refines (ledger.serve request).2 := by
  cases request with
  | update record moment => exact ⟨rfl, h.update record moment⟩
  | cleanup now => exact ⟨h.answer_cleanup now, h.cleanup now⟩
  | find id => exact ⟨congrArg Answer.found (h.find? id), h⟩
  | contains id => exact ⟨congrArg Answer.known (h.contains_eq id), h⟩
  | isNew id => exact ⟨congrArg (fun known => Answer.known !known) (h.contains_eq id), h⟩
  | size => exact ⟨congrArg Answer.counted h.size_eq, h⟩

theorem answers_eq (h : registry.Refines ledger) (requests : List Request) :
    registry.answers requests = ledger.answers requests := by
  induction requests generalizing registry ledger with
  | nil => rfl
  | cons request requests ih =>
    obtain ⟨hanswer, hnext⟩ := h.serve request
    rw [Registry.answers, Ledger.answers, hanswer, ih hnext]

end Refines

/--
Registries whose index is exact, and in which the same is found.
-/
structure Resembles (registry other : Registry) : Prop where
  sound : registry.Sound
  complete : registry.Complete
  sound_other : other.Sound
  complete_other : other.Complete
  find? : ∀ id, other.find? id = registry.find? id

namespace Resembles

variable {registry other : Registry}

theorem records_perm (h : registry.Resembles other) : other.records.Perm registry.records := by
  -- neither has a record twice, and each has the records that are found under their own id
  rw [List.perm_ext_iff_of_nodup]
  . intro record
    have hmem : ∀ registry : Registry, registry.Sound → registry.Complete →
        (record ∈ registry.records ↔ registry.find? record.id = some record) := by
      intro registry hsound hcomplete
      rw [hcomplete.find?_iff_mem hsound]
      exact (and_iff_left rfl).symm
    rw [hmem other h.sound_other h.complete_other, hmem registry h.sound h.complete, h.find?]
  . exact h.complete_other.nodup.of_map _
  . exact h.complete.nodup.of_map _

theorem answers_eq (h : registry.Resembles other) (requests : List Request) :
    other.answers requests = registry.answers requests := by
  have hledger : registry.Refines (Ledger.ofRecords registry.records) := {
    sound := h.sound
    complete := h.complete
    find? := by
      have hcopy : registry.copy.Complete := complete_ofRecords h.complete.nodup
      intro id
      ext record
      rw [← find?_ofRecords, h.complete.find?_iff_mem h.sound]
      exact (hcopy.find?_iff_mem (sound_ofRecords _)).symm }
  have hother : other.Refines (Ledger.ofRecords registry.records) := {
    sound := h.sound_other
    complete := h.complete_other
    find? := by
      intro id
      rw [h.find?, hledger.find?] }
  rw [hledger.answers_eq, hother.answers_eq]

end Resembles

end Registry

end ReadProgress
