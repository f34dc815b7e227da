import ReadProgress.Proofs.Registry.Request
import ReadProgress.Proofs.Restoration
import ReadProgress.Proofs.Store

/-!
This module contains the proof that a restart cannot be noticed. A registry that is brought back from
the file that a checkpoint has written answers whatever is asked later as the registry would have done
that was written, though its records are in another order.
-/

namespace ReadProgress

namespace Registry

variable {registry : Registry}

theorem find?_restored (h : registry.Complete) (hsound : registry.Sound) (id : String) :
    (Registry.ofRecords (Snapshot.ofRecords registry.records).toRecords).find? id =
      registry.find? id := by
  have hcopy : (Registry.ofRecords registry.records).Complete := complete_ofRecords h.nodup
  have hfound : (Registry.ofRecords registry.records).find? id = registry.find? id := by
    ext record
    rw [h.find?_iff_mem hsound]
    exact hcopy.find?_iff_mem (sound_ofRecords _)
  rw [Snapshot.find?_ofRecords_toRecords, Snapshot.row?_ofRecords, hfound, Option.map_map]
  cases hfind : registry.find? id with
  | none => rfl
  | some record =>
    obtain rfl := hsound.id_of_find? hfind
    rfl

theorem resembles_restored (h : registry.Complete) (hsound : registry.Sound) :
    registry.Resembles (.ofRecords (Snapshot.ofRecords registry.records).toRecords) where
  sound := hsound
  complete := h
  sound_other := sound_ofRecords _
  complete_other := complete_ofRecords (Snapshot.nodup_toRecords _)
  find? := find?_restored h hsound

/--
Whatever a store has been used for, once a checkpoint of a registry has been written to its file, the
file can be opened, and a new store brings back a registry from it that answers each later request as
the registry answers it that was written. The records are the same but for their order: those that have
been brought back are in the order of their ids.
-/
theorem answers_restored (name : String) {db : Database} (hdb : db.Opened)
    (hpath : db.path.isEmpty = false) (actions : List Archive.Action) (h : registry.Complete)
    (hsound : registry.Sound) (hregistry : ∀ record ∈ registry.records, record.ttl ≠ .after .zero)
    {disk disk' : Disk} {store : Store} {written : Database} {count : Nat}
    (hcheckpoint : (Archive.afterAll name db actions).store.checkpoint registry
      (Archive.afterAll name db actions).database disk = (.ok count, store, written, disk')) :
    ∃ reopened later restored, Database.load disk' db.path = (.ok reopened, disk') ∧
      (Store.ofName name).restore .empty reopened = (.ok (.rows registry.size), later, restored) ∧
      restored.records.Perm registry.records ∧
      (restored.records.map (·.id)).Pairwise (· < ·) ∧
      ∀ requests, restored.answers requests = registry.answers requests := by
  have hlegible : Archive.Legible name db.path _ := .afterAll hdb.regular actions
  obtain ⟨-, hwritten, -, hreopened⟩ := hlegible.holds_of_checkpoint hregistry hcheckpoint
  rw [hwritten] at hreopened
  obtain ⟨reopened, hload, hholds⟩ := hreopened hpath
  obtain ⟨later, restored, hrestore, hview, -, -⟩ := hholds.restores .empty
  have hrestores := (Store.ofName name).restores .empty reopened
  rw [hrestore] at hrestores
  -- an empty registry gets exactly the rows of the view, in the order in which the view has them
  have hrestored : restored = .ofRecords (Snapshot.ofRecords registry.records).toRecords := by
    rw [← hview]
    exact hrestores.eq_ofRecords.1
  subst hrestored
  have hresembles := resembles_restored h hsound
  have hsize : (Snapshot.ofRecords registry.records).size = registry.size := by
    rw [← Snapshot.size_ofRecords_toRecords]
    exact hresembles.records_perm.length_eq
  rw [hsize] at hrestore
  refine ⟨reopened, later, _, hload, hrestore, hresembles.records_perm, ?_, hresembles.answers_eq⟩
  show ((Snapshot.ofRecords registry.records).toRecords.map (·.id)).Pairwise (· < ·)
  rw [Snapshot.map_id_toRecords, List.pairwise_map]
  exact (Snapshot.ofRecords registry.records).ascending

/--
A registry with two records that are not in the order of their ids.
-/
def unordered : Registry :=
  .ofRecords [⟨"b", "/b", 5, default, .immediate, true⟩, ⟨"a", "/a", 7, default, .never, false⟩]

theorem answers_restored_unordered :
    let written := Archive.disturbed.store.checkpoint unordered Archive.disturbed.database
      (.ofDirectory [] 7)
    written.1 = .ok 2 ∧ ∃ reopened later restored,
      Database.load written.2.2.2 ⟨"r"⟩ = (.ok reopened, written.2.2.2) ∧
      (Store.ofName "registry").restore .empty reopened = (.ok (.rows 2), later, restored) ∧
      ∀ requests, restored.answers requests = unordered.answers requests := by
  intro written
  have hload : Database.load (.ofDirectory [] 7) ⟨"r"⟩ =
      (.ok ⟨⟨"r"⟩, .empty⟩, .ofDirectory [] 7) := rfl
  have hopened : Database.Opened ⟨⟨"r"⟩, .empty⟩ := .ofFile rfl hload
  have hnodup : (unordered.records.map (·.id)).Nodup := by decide
  have hregistry : ∀ record ∈ unordered.records, record.ttl ≠ .after .zero := by
    intro record hmem
    rcases List.mem_pair.1 hmem with rfl | rfl
    . nofun
    . nofun
  have hpair : ∀ result : Except Error Nat × Store × Database × Disk, result.1 = .ok 2 →
      result = (.ok 2, result.2) := by
    rintro ⟨_, rest⟩ rfl
    rfl
  have hcount : written.1 = .ok 2 := by rfl
  obtain ⟨reopened, later, restored, hreopened, hrestored, -, -, hanswers⟩ :=
    answers_restored "registry" hopened rfl _ (complete_ofRecords hnodup) (sound_ofRecords _) hregistry
      (hpair written hcount)
  exact ⟨hcount, reopened, later, restored, hreopened, hrestored, hanswers⟩

end Registry

end ReadProgress
