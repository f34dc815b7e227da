import ReadProgress.Proofs.House

/-!
This module contains the proof that what a housekeeper has written outlasts whatever happens later.
Whoever starts again finds the rows as they were written last, however often writing has failed since.
-/

namespace ReadProgress

/--
A house with the view of its store as it stood when rows were written last.
-/
structure Diary where
  house : House
  saved : Snapshot

namespace Diary

def note (diary : Diary) (chore : Chore) : Diary :=
  let (written, house) := diary.house.perform chore
  { house, saved := if written then house.keeper.store.view else diary.saved }

/--
A house after some chores. At the beginning, what counts as written is what has been brought back.
-/
def afterAll (house : House) (chores : List Chore) : Diary :=
  chores.foldl note ⟨house, house.keeper.store.view⟩

theorem afterAll_concat (house : House) (chores : List Chore) (chore : Chore) :
    afterAll house (chores ++ [chore]) = (afterAll house chores).note chore := by
  simp [afterAll]

/--
Whoever starts again finds what is saved.
-/
structure Faithful (config : Config) (diary : Diary) : Prop where
  fit : diary.house.Fit config
  brings : diary.house.disk.Brings config diary.saved

variable {config : Config} {diary : Diary} {chore : Chore}

theorem Faithful.note (h : diary.Faithful config) (hfault : config.fault? = none)
    (hpath : config.statesPath.isEmpty = false) (hchore : chore.IsStorable) :
    (diary.note chore).Faithful config := by
  have hfit := h.fit.perform hpath hchore
  refine ⟨hfit, ?_⟩
  unfold Diary.note
  dsimp only
  cases hwritten : (diary.house.perform chore).1 with
  | false =>
    rw [if_neg Bool.false_ne_true]
    -- What is found depends on the file alone, and the file stays as it is.
    exact h.brings.congr h.fit.steady hfit.steady (h.fit.content?_perform hpath hchore hwritten)
  | true =>
    rw [if_pos rfl, House.view_perform]
    rw [House.perform_eq] at hwritten ⊢
    split at hwritten
    . next hwrites =>
      rw [if_pos hwrites]
      exact (h.fit.prepare hchore).toInOrder.brings_of_sync hfault hpath hwritten
    . cases hwritten

theorem faithful_of_restore {disk opened : Disk} {restoration : Restoration} {keeper : Housekeeper}
    {registry : Registry} {db : Database} (hfounded : disk.tree.Founded)
    (hopen : Housekeeper.restore config .empty disk =
      (.ok (restoration, keeper, registry, db), opened))
    (hsettled : disk.tree.leads disk.home config.statesPath = false →
      opened.tree.leads opened.home config.statesPath = false) :
    config.fault? = none ∧ registry = .ofRecords keeper.store.view.toRecords ∧
      (afterAll ⟨registry, keeper, db, opened⟩ []).Faithful config := by
  obtain ⟨hfault, store, hload, hrestore⟩ := Housekeeper.restore_eq_ok hopen
  obtain ⟨rfl, hdb⟩ := Store.load_eq_ok hload
  obtain ⟨hsteady, hagain⟩ := Database.steady_of_load hfounded hdb hsettled
  have hfit := House.Fit.mk (House.InOrder.of_restore hopen) hsteady
  obtain ⟨rfl, hcount⟩ := Housekeeper.registry_of_restore hopen
  refine ⟨hfault, rfl, hfit, ?_⟩
  -- Nothing is missing above the file by now, so opening it once more gives the same.
  have hreload : (Store.load opened config.statesPath).1 =
      .ok (.ofName Store.defaultScope, db) := by
    rw [Store.load, hagain]
  exact Disk.brings_of_load hfault hreload hrestore hcount rfl
    (Snapshot.size_ofRecords_toRecords _) (Snapshot.find?_ofRecords_toRecords _)

variable {house : House} {chores : List Chore}

theorem faithful_afterAll (h : (afterAll house []).Faithful config) (hfault : config.fault? = none)
    (hpath : config.statesPath.isEmpty = false) (hchores : ∀ chore ∈ chores, chore.IsStorable) :
    (afterAll house chores).Faithful config := by
  induction chores using List.reverseRecOn with
  | nil => exact h
  | append_singleton chores chore ih =>
    rw [List.forall_mem_append, List.forall_mem_singleton] at hchores
    rw [afterAll_concat]
    exact (ih hchores.1).note hfault hpath hchores.2

/--
Each row of a view was made from the record that was found in the registry at some time.
-/
def WasKnown (house : House) (chores : List Chore) (view : Snapshot) : Prop :=
  ∀ id row, view.row? id = some row → ∃ front, front <+: chores ∧
    (afterAll house front).house.registry.find? id = some (row.toRecord id)

theorem WasKnown.concat {view : Snapshot} (h : WasKnown house chores view) (chore : Chore) :
    WasKnown house (chores ++ [chore]) view := by
  intro id row hrow
  obtain ⟨front, hfront, hfind⟩ := h id row hrow
  exact ⟨front, hfront.trans (List.prefix_append _ _), hfind⟩

theorem WasKnown.prepare (h : WasKnown house chores (afterAll house chores).house.keeper.store.view)
    (hfit : (afterAll house chores).house.Fit config) (chore : Chore) :
    WasKnown house chores ((afterAll house chores).house.prepare chore).keeper.store.view := by
  cases chore with
  | update record moment => exact h
  | cleanup now =>
    intro id row hrow
    rw [House.row?_prepare_cleanup] at hrow
    split at hrow
    . cases hrow
    . exact h id row hrow
  | checkpoint =>
    intro id row hrow
    rw [House.row?_prepare_checkpoint hfit.complete hfit.sound, Option.map_eq_some_iff] at hrow
    obtain ⟨record, hrecord, rfl⟩ := hrow
    obtain rfl := hfit.sound.id_of_find? hrecord
    exact ⟨chores, List.prefix_refl _, hrecord⟩

theorem wasKnown_afterAll
    (hfit : ∀ front, front <+: chores → (afterAll house front).house.Fit config)
    (h : ∀ id, house.registry.find? id = (house.keeper.store.view.row? id).map (·.toRecord id)) :
    WasKnown house chores (afterAll house chores).house.keeper.store.view ∧
      WasKnown house chores (afterAll house chores).saved := by
  induction chores using List.reverseRecOn with
  | nil =>
    have hstart : WasKnown house [] house.keeper.store.view := by
      intro id row hrow
      refine ⟨[], List.prefix_refl _, ?_⟩
      change house.registry.find? id = _
      rw [h id, hrow]
      rfl
    exact ⟨hstart, hstart⟩
  | append_singleton chores chore ih =>
    -- The view has to go along with what is saved: the next writing saves it as it is then.
    obtain ⟨hview, hsaved⟩ := ih fun front hfront =>
      hfit front (hfront.trans (List.prefix_append _ _))
    have hnext := (hview.prepare (hfit chores (List.prefix_append _ _)) chore).concat chore
    rw [← House.view_perform] at hnext
    rw [afterAll_concat]
    refine ⟨hnext, ?_⟩
    unfold note
    dsimp only
    split
    . exact hnext
    . exact hsaved.concat chore

/--
Nothing is left of an id, neither in the registry nor in what is or will be written.
-/
structure Lacks (id : String) (diary : Diary) : Prop where
  registry : diary.house.registry.find? id = none
  view : diary.house.keeper.store.view.row? id = none
  saved : diary.saved.row? id = none

theorem lacks_of_cleanup {now : Timestamp} {id : String} (hfit : diary.house.Fit config)
    (hwritten : (diary.house.perform (.cleanup now)).1 = true)
    (hid : id ∈ (diary.house.registry.cleanup now).1.removed) :
    (diary.note (.cleanup now)).Lacks id := by
  have hview : (diary.house.perform (.cleanup now)).2.keeper.store.view.row? id = none := by
    rw [House.view_perform, House.row?_prepare_cleanup, if_pos hid]
  refine ⟨?_, hview, ?_⟩
  . change (diary.house.perform (.cleanup now)).2.registry.find? id = none
    rw [House.registry_perform]
    exact (Registry.find?_cleanup hfit.complete hfit.sound now id).trans (if_pos hid)
  . unfold Diary.note
    dsimp only
    rw [hwritten, if_pos rfl]
    exact hview

theorem Lacks.note {id : String} (h : diary.Lacks id) (hfit : diary.house.Fit config)
    (hchore : ∀ record moment, chore = .update record moment → record.id ≠ id) :
    (diary.note chore).Lacks id := by
  -- Rows come from the registry only, so that the view still lacks the id, and with it what is saved.
  have hview : (diary.house.perform chore).2.keeper.store.view.row? id = none := by
    rw [House.view_perform]
    cases chore with
    | update record moment => exact h.view
    | cleanup now =>
      rw [House.row?_prepare_cleanup, h.view]
      split <;> rfl
    | checkpoint =>
      rw [House.row?_prepare_checkpoint hfit.complete hfit.sound, h.registry]
      rfl
  refine ⟨?_, hview, ?_⟩
  . change (diary.house.perform chore).2.registry.find? id = none
    rw [House.registry_perform]
    cases chore with
    | update record moment =>
      refine (hfit.sound.find?_update record moment id).trans ?_
      rw [if_neg (Ne.symm (hchore record moment rfl)), h.registry]
    | cleanup now =>
      refine (Registry.find?_cleanup hfit.complete hfit.sound now id).trans ?_
      rw [h.registry]
      split <;> rfl
    | checkpoint => exact h.registry
  . unfold Diary.note
    dsimp only
    split
    . exact hview
    . exact h.saved

theorem lacks_afterAll {front back : List Chore} {now : Timestamp} {id : String}
    (hfit : ∀ chores, chores <+: front ++ .cleanup now :: back →
      (afterAll house chores).house.Fit config)
    (hwritten : ((afterAll house front).house.perform (.cleanup now)).1 = true)
    (hid : id ∈ ((afterAll house front).house.registry.cleanup now).1.removed)
    (hback : ∀ record moment, .update record moment ∈ back → record.id ≠ id) :
    (afterAll house (front ++ .cleanup now :: back)).Lacks id := by
  induction back using List.reverseRecOn with
  | nil =>
    rw [afterAll_concat]
    exact lacks_of_cleanup (hfit front (List.prefix_append _ _)) hwritten hid
  | append_singleton back chore ih =>
    have hsplit : front ++ .cleanup now :: (back ++ [chore]) =
        (front ++ .cleanup now :: back) ++ [chore] := by simp
    rw [hsplit] at hfit ⊢
    rw [afterAll_concat]
    refine Lacks.note (ih ?_ ?_) (hfit _ (List.prefix_append _ _)) ?_
    . exact fun chores hchores => hfit chores (hchores.trans (List.prefix_append _ _))
    . exact fun record moment hmem => hback record moment (List.mem_append_left _ hmem)
    . rintro record moment rfl
      exact hback record moment (by simp)

end Diary

namespace House

/--
Whatever a housekeeper does who has opened a file, and whatever fails, whoever starts again finds the
rows as they were written last, or what was found at the beginning if nothing has been written. They
were all made from records that were known at some time, and what a cleanup has dropped from them does
not come back unless it is taken in again. Where there was no file, this takes that the path still
leads nowhere after the directories above it have been made.
-/
theorem brings_saved {config : Config} {disk opened : Disk} {restoration : Restoration}
    {keeper : Housekeeper} {registry : Registry} {db : Database} (hfounded : disk.tree.Founded)
    (hopen : Housekeeper.restore config .empty disk =
      (.ok (restoration, keeper, registry, db), opened))
    (hsettled : disk.tree.leads disk.home config.statesPath = false →
      opened.tree.leads opened.home config.statesPath = false)
    (chores : List Chore) (hchores : ∀ chore ∈ chores, chore.IsStorable) :
    let house : House := ⟨registry, keeper, db, opened⟩
    let diary := Diary.afterAll house chores
    diary.house.disk.Brings config diary.saved ∧
      (∀ chore, chore.IsStorable → (diary.house.perform chore).1 = false →
        (diary.house.perform chore).2.disk.content? config.statesPath =
          diary.house.disk.content? config.statesPath) ∧
      (∀ id row, diary.saved.row? id = some row → ∃ front, front <+: chores ∧
        (Diary.afterAll house front).house.registry.find? id = some (row.toRecord id)) ∧
      ∀ front now back id, chores = front ++ .cleanup now :: back →
        ((Diary.afterAll house front).house.perform (.cleanup now)).1 = true →
        id ∈ ((Diary.afterAll house front).house.registry.cleanup now).1.removed →
        (∀ record moment, .update record moment ∈ back → record.id ≠ id) →
          diary.saved.row? id = none := by
  obtain ⟨hfault, hregistry, hstart⟩ := Diary.faithful_of_restore hfounded hopen hsettled
  intro house diary
  have hpath := Config.isEmpty_of_fault? hfault
  have hfaithful : ∀ front, front <+: chores → (Diary.afterAll house front).Faithful config := by
    intro front hfront
    exact Diary.faithful_afterAll hstart hfault hpath fun chore hchore =>
      hchores chore (hfront.subset hchore)
  have hend := hfaithful chores (List.prefix_refl _)
  refine ⟨hend.brings, ?_, ?_, ?_⟩
  . intro chore hchore hwritten
    exact hend.fit.content?_perform hpath hchore hwritten
  . refine (Diary.wasKnown_afterAll (fun front hfront => (hfaithful front hfront).fit) ?_).2
    intro id
    change registry.find? id = _
    rw [hregistry]
    exact Snapshot.find?_ofRecords_toRecords _ id
  . rintro front now back id rfl hwritten hid hback
    exact (Diary.lacks_afterAll (fun chores hchores => (hfaithful chores hchores).fit) hwritten hid
      hback).saved

/--
A disk on which the first file that is to be replaced stays as it is.
-/
def failingOnce : Disk :=
  { Disk.ofDirectory [] 7 with faults := [some ⟨.rename, .busy, 0⟩] }

/--
A configuration with a file in the directory where the program works.
-/
def nearby : Config :=
  { Config.default with statesPath := ⟨"r"⟩ }

/--
What a housekeeper finds on that disk who has never worked there.
-/
def untouched : House :=
  ⟨.empty, .ofStore (.ofName Store.defaultScope) nearby, ⟨⟨"r"⟩, .empty⟩, failingOnce⟩

def firstRecord : Record :=
  ⟨"a", "/a", 5, .epoch, .never, false⟩

theorem brings_saved_after_failure :
    let diary := Diary.afterAll untouched [.update firstRecord .epoch, .checkpoint, .checkpoint]
    failingOnce.tree.Founded ∧
      Housekeeper.restore nearby .empty failingOnce =
        (.ok (.fresh, untouched.keeper, untouched.registry, untouched.database), untouched.disk) ∧
      failingOnce.tree.leads failingOnce.home nearby.statesPath = false ∧
      diary.saved.row? "a" = some (Row.ofRecord firstRecord) ∧
      diary.house.disk.Brings nearby diary.saved := by
  have hfounded : failingOnce.tree.Founded := (FileTree.founded_ofDirectory []).1
  have hopen : Housekeeper.restore nearby .empty failingOnce =
      (.ok (.fresh, untouched.keeper, untouched.registry, untouched.database), untouched.disk) := rfl
  have hchores : ∀ chore ∈ [Chore.update firstRecord .epoch, .checkpoint, .checkpoint],
      chore.IsStorable := by
    simp [Chore.IsStorable, firstRecord]
  exact ⟨hfounded, hopen, rfl, rfl, (brings_saved hfounded hopen id _ hchores).1⟩

def firstContents : Contents :=
  Table.empty.put Store.defaultScope
    (Table.empty.put Store.snapshotKey (Snapshot.ofRecords [firstRecord]).toJson)

/--
A disk with a file of these contents, and nothing else.
-/
def besides : Disk :=
  { Disk.ofDirectory [] 7 with
    tree := (FileTree.ofDirectory []).put ["b"] (.file firstContents.written) }

/--
A configuration with a path that goes through a directory and back.
-/
def roundabout : Config :=
  { Config.default with statesPath := ⟨"a/../b"⟩ }

def opened : Disk :=
  { besides with tree := besides.tree.put ["a"] .directory }

theorem regular_firstContents : firstContents.Regular := by
  apply Contents.regular_empty.put
  intro member hmem
  obtain rfl := List.mem_singleton.1 hmem
  exact (Snapshot.ofRecords [firstRecord]).regular_toJson 121

theorem brings_opened : opened.Brings roundabout (.ofRecords [firstRecord]) := by
  have hread : opened.read roundabout.statesPath = .ok firstContents.written := by
    unfold opened besides
    generalize firstContents.written = content
    rfl
  have hload := Database.load_of_read hread (Contents.read_written regular_firstContents)
  have hstorable : (Snapshot.ofRecords [firstRecord]).Storable :=
    Snapshot.storable_ofRecords (by simp [firstRecord])
  refine Disk.brings_of_holds rfl hload (Store.holds_of_scope hstorable ?_)
  rw [Contents.get?_scope_reread]
  change some (Json.reread _) = _
  rw [(Snapshot.ofRecords [firstRecord]).exact_toJson.reread_eq]

/--
A path leads nowhere as long as a directory on the way is missing. The directory is made when the file
is opened, and then the same path leads to another file: nothing was found at first, and a row is
found by whoever starts again, though nothing has been written.
-/
theorem restore_reveals_other_file :
    ∃ keeper registry db, Housekeeper.restore roundabout .empty besides =
        (.ok (.fresh, keeper, registry, db), opened) ∧
      keeper.store.view = .empty ∧ ¬ opened.Brings roundabout keeper.store.view := by
  have hopen : Housekeeper.restore roundabout .empty besides =
      (.ok (.fresh, .ofStore (.ofName Store.defaultScope) roundabout, .empty,
        ⟨⟨"a/../b"⟩, .empty⟩), opened) := by
    unfold opened besides
    generalize firstContents.written = content
    rfl
  refine ⟨_, _, _, hopen, rfl, ?_⟩
  intro hbrings
  have := congrArg Snapshot.size (hbrings.unique brings_opened)
  cases this

end House

end ReadProgress
