import ReadProgress.Proofs.Registry.Coverage

/-!
This module contains what can be relied on in every registry, even after a cleanup that was broken off
because whoever is told of the removals gave up. That the index leads to each record is lost then, and
so it is where records share an id. That it leads to records of the right id only is never lost.
-/

namespace ReadProgress

namespace Registry

variable {now : Timestamp}

namespace Sweep

variable {sweep : Sweep}

/--
Go through the waiting records. Whoever is told of the removals gives up at the call that comes after
a certain number of others, be it for the same id or not, and the sweep stops there.
-/
def runFor (now : Timestamp) (calls : Nat) (sweep : Sweep) : Sweep :=
  match _h : sweep.waiting with
  | [] => sweep
  | record :: rest =>
    if record.isRemovable now then
      match calls with
      | 0 => sweep.announce record
      | calls + 1 => runFor now calls ((sweep.announce record).drop record rest)
    else
      runFor now calls (sweep.keep now record rest)
termination_by sweep.waiting.length
decreasing_by
  . simp [length_drop, _h]
  . simp [keep, _h]

theorem runFor_of_waiting {record : Record} {rest : List Record}
    (hwaiting : sweep.waiting = record :: rest) (calls : Nat) :
    sweep.runFor now calls =
      if record.isRemovable now then
        match calls with
        | 0 => sweep.announce record
        | calls + 1 => ((sweep.announce record).drop record rest).runFor now calls
      else
        (sweep.keep now record rest).runFor now calls := by
  rw [runFor.eq_def]
  split
  . simp_all
  . next heq =>
    obtain ⟨rfl, rfl⟩ := List.cons.inj (hwaiting.symm.trans heq)
    rfl

theorem exists_runFor (now : Timestamp) (refuses : String → Bool) (sweep : Sweep) :
    ∃ calls, sweep.run now refuses = sweep.runFor now calls := by
  fun_induction run now refuses sweep with
  | case1 sweep hwaiting =>
    refine ⟨0, ?_⟩
    rw [runFor.eq_def]
    split
    . rfl
    . simp_all
  | case2 sweep record rest hwaiting hremovable hrefuses =>
    refine ⟨0, ?_⟩
    rw [runFor_of_waiting hwaiting, if_pos hremovable]
  | case3 sweep record rest hwaiting hremovable hrefuses ih =>
    obtain ⟨calls, hcalls⟩ := ih
    refine ⟨calls + 1, ?_⟩
    rw [runFor_of_waiting hwaiting, if_pos hremovable, hcalls]
  | case4 sweep record rest hwaiting hremovable ih =>
    obtain ⟨calls, hcalls⟩ := ih
    refine ⟨calls, ?_⟩
    rw [runFor_of_waiting hwaiting, if_neg hremovable, hcalls]

theorem sound_runFor (calls : Nat) (h : sweep.live.Sound) :
    (sweep.runFor now calls).live.Sound := by
  fun_induction runFor now calls sweep with
  | case1 => exact h
  | case2 => exact h
  | case3 sweep record rest hwaiting hremovable calls ih =>
    have hannounced : (sweep.announce record).live.Sound := h
    exact ih (sound_drop hwaiting hannounced)
  | case4 calls sweep record rest hwaiting hremovable ih =>
    apply ih
    rw [live_keep hwaiting]
    exact h

theorem sound_abandon (h : sweep.live.Sound) : sweep.abandon.Sound := by
  intro id position hposition
  obtain ⟨record, hrecord, hid⟩ := h id position hposition
  have hlt := (List.getElem?_eq_some_iff.1 hrecord).1
  exact ⟨record, (List.getElem?_append_left hlt).trans hrecord, hid⟩

end Sweep

/--
Clean up as long as whoever is told of the removals does not give up. If that happens, the registry
stays as it is at that point.
-/
def cleanupFor (registry : Registry) (now : Timestamp) (calls : Nat) : Registry :=
  let sweep := (Sweep.start registry).runFor now calls
  if sweep.waiting = [] then sweep.finish else sweep.abandon

theorem exists_cleanupFor (registry : Registry) (now : Timestamp) (refuses : String → Bool) :
    ∃ calls, (registry.cleanupUnless now refuses).2 = registry.cleanupFor now calls := by
  obtain ⟨calls, hcalls⟩ := Sweep.exists_runFor now refuses (.start registry)
  refine ⟨calls, ?_⟩
  unfold cleanupUnless cleanupFor
  rw [hcalls]

theorem Sound.cleanupFor {registry : Registry} (h : registry.Sound) (now : Timestamp) (calls : Nat) :
    (registry.cleanupFor now calls).Sound := by
  have hlive : ((Sweep.start registry).runFor now calls).live.Sound := Sweep.sound_runFor calls h
  unfold Registry.cleanupFor
  dsimp only
  split
  . next hwaiting =>
    rw [finish_of_waiting hwaiting]
    exact hlive
  . exact Sweep.sound_abandon hlive

/--
What is done to a registry, by operations that go through and by cleanups that may be broken off.
-/
inductive Handling where
  | operate (operation : Operation)
  | cleanupFor (now : Timestamp) (calls : Nat)

def Handling.apply (registry : Registry) : Handling → Registry
  | operate operation => operation.apply registry
  | cleanupFor now calls => registry.cleanupFor now calls

/--
The registry after some handlings, the first of which starts with no records.
-/
def handled (handlings : List Handling) : Registry :=
  handlings.foldl Handling.apply .empty

theorem Sound.handle {registry : Registry} (h : registry.Sound) (handling : Handling) :
    (handling.apply registry).Sound := by
  cases handling with
  | operate operation => exact h.apply operation
  | cleanupFor now calls => exact Sound.cleanupFor h now calls

theorem sound_handled (handlings : List Handling) : (handled handlings).Sound := by
  unfold handled
  induction handlings using List.reverseRecOn with
  | nil => exact sound_empty
  | append_singleton handlings handling ih =>
    rw [List.foldl_append]
    exact ih.handle handling

/--
Whatever is done to a registry, with lists in which ids occur more than once and with cleanups that
are broken off at any call, the index does not lead out of the list, and where it leads there is a
record of the right id. So what is known is found and nothing else is, what is found has the id that
was looked for, and a record that is taken in is found while nothing changes under other ids.
-/
theorem lookups_sound (handlings : List Handling) :
    let registry := handled handlings
    (∀ (id : String) (position : Nat), registry.index[id]? = some position →
      ∃ h : position < registry.records.length, registry.records[position].id = id) ∧
    (∀ id record, registry.find? id = some record → record.id = id) ∧
    (∀ id, registry.contains id = (registry.find? id).isSome) ∧
    (∀ id, registry.isNew id = !(registry.find? id).isSome) ∧
    ∀ record moment id, (registry.update record moment).find? id =
      if id = record.id then some { record with timestamp := moment } else registry.find? id := by
  intro registry
  have hsound : registry.Sound := sound_handled handlings
  refine ⟨?_, fun id record => hsound.id_of_find?, hsound.contains_eq_isSome, ?_,
    hsound.find?_update⟩
  . intro id position hposition
    obtain ⟨record, hrecord, hid⟩ := hsound id position hposition
    obtain ⟨hlt, rfl⟩ := List.getElem?_eq_some_iff.1 hrecord
    exact ⟨hlt, hid⟩
  . intro id
    rw [isNew, hsound.contains_eq_isSome]

end Registry

end ReadProgress
