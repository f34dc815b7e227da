import ReadProgress.Proofs.Store

/-!
This module contains the proof that a store leaves alone what belongs to others. It publishes a whole
scope each time and writes the whole file, but in all of that nothing is its own work but the snapshot.
-/

namespace ReadProgress

namespace Contents

/--
The same scopes are there, with the same values under the same keys, but for the snapshot in the scope
with a certain name.
-/
structure AgreesBeside (name : String) (contents others : Contents) : Prop where
  scopes : ∀ other, other ≠ name → ∀ key,
    (contents.get? other).map (·.get? key) = (others.get? other).map (·.get? key)
  keys : ∀ key, key ≠ Store.snapshotKey →
    (contents.scope name).get? key = (others.scope name).get? key

/--
All values but the snapshot in the scope with a certain name are without numbers in double precision,
and can be read inside the three objects of a file.
-/
def PlainBeside (name : String) (contents : Contents) : Prop :=
  ∀ other scope key value, contents.get? other = some scope → scope.get? key = some value →
    (other = name → key ≠ Store.snapshotKey) → Json.Exact value ∧ value.Regular 124

variable {name : String} {contents others : Contents}

theorem scope_of_get? {scope : Scope} (h : contents.get? name = some scope) :
    contents.scope name = scope := by
  rw [Contents.scope, h, Option.getD_some]

theorem get?_of_get?_scope {key : String} {value : Json}
    (h : (contents.scope name).get? key = some value) :
    ∃ scope, contents.get? name = some scope ∧ scope.get? key = some value := by
  unfold Contents.scope at h
  cases hget : contents.get? name with
  | none =>
    rw [hget] at h
    cases h
  | some scope =>
    rw [hget] at h
    exact ⟨scope, rfl, h⟩

theorem scope_put (contents : Contents) (name other : String) (scope : Scope) :
    (Contents.scope (contents.put name scope) other) =
      if other = name then scope else contents.scope other :=
  Database.scope_publish ⟨⟨""⟩, contents⟩ name other scope

theorem plainBeside_empty (name : String) : PlainBeside name .empty := by
  intro other scope key value hscope
  cases hscope

theorem PlainBeside.put (h : contents.PlainBeside name) (other : String) {scope : Scope}
    (hscope : ∀ member ∈ scope.entries, Json.Exact member.2 ∧ member.2.Regular 124) :
    PlainBeside name (contents.put other scope) := by
  intro third found key value hfound hvalue hbeside
  rw [Table.get?_put] at hfound
  split at hfound
  . cases hfound
    exact hscope _ (Table.get?_eq_some_iff.1 hvalue)
  . exact h third found key value hfound hvalue hbeside

namespace AgreesBeside

theorem refl (name : String) (contents : Contents) : contents.AgreesBeside name contents :=
  ⟨fun _ _ _ => rfl, fun _ _ => rfl⟩

theorem put (h : contents.AgreesBeside name others) {other : String} (hne : other ≠ name)
    (scope : Scope) :
    AgreesBeside name (contents.put other scope) (others.put other scope) where
  scopes := by
    intro third hthird key
    rw [Table.get?_put, Table.get?_put]
    split
    . rfl
    . exact h.scopes third hthird key
  keys := by
    intro key hkey
    rw [scope_put, scope_put, if_neg hne.symm, if_neg hne.symm]
    exact h.keys key hkey

theorem put_self (h : contents.AgreesBeside name others) {scope : Scope}
    (hscope : ∀ key, key ≠ Store.snapshotKey →
      scope.get? key = (others.scope name).get? key) :
    AgreesBeside name (contents.put name scope) others where
  scopes := by
    intro other hother key
    rw [Table.get?_put, if_neg hother]
    exact h.scopes other hother key
  keys := by
    intro key hkey
    rw [scope_put, if_pos rfl]
    exact hscope key hkey

theorem regular (h : contents.AgreesBeside name others) (hplain : others.PlainBeside name)
    (hsnapshot : ∀ value, (contents.scope name).get? Store.snapshotKey = some value →
      value.Regular 124) : contents.Regular := by
  rintro ⟨other, scope⟩ hscope ⟨key, value⟩ hvalue
  rw [← Table.get?_eq_some_iff] at hscope hvalue
  -- Every value but the snapshot is one of those that the others have.
  by_cases hother : other = name
  . subst hother
    by_cases hkey : key = Store.snapshotKey
    . subst hkey
      rw [← scope_of_get? hscope] at hvalue
      exact hsnapshot value hvalue
    . rw [← scope_of_get? hscope, h.keys key hkey] at hvalue
      obtain ⟨scope', hscope', hvalue'⟩ := get?_of_get?_scope hvalue
      exact (hplain _ _ _ _ hscope' hvalue' fun _ => hkey).2
  . have hsame := h.scopes other hother key
    rw [hscope, Option.map_some, hvalue, eq_comm, Option.map_eq_some_iff] at hsame
    obtain ⟨scope', hscope', hvalue'⟩ := hsame
    exact (hplain _ _ _ _ hscope' hvalue' fun heq => absurd heq hother).2

theorem reread (h : contents.AgreesBeside name others) (hplain : others.PlainBeside name) :
    contents.reread.AgreesBeside name others where
  scopes := by
    intro other hother key
    rw [Contents.reread, Table.get?_ofList_map contents rereadScope, Option.map_map]
    have hsame : ((contents.get? other).map (·.get? key)).map (Option.map Json.reread) =
        ((others.get? other).map (·.get? key)).map (Option.map Json.reread) := by
      rw [h.scopes other hother key]
    rw [Option.map_map] at hsame
    have hscope : (fun scope : Scope => scope.get? key) ∘ rereadScope =
        Option.map Json.reread ∘ (·.get? key) := by
      funext scope
      exact Table.get?_ofList_map scope Json.reread key
    rw [hscope, hsame]
    cases hget : others.get? other with
    | none => rfl
    | some scope =>
      rw [Option.map_some, Option.map_some]
      cases hvalue : scope.get? key with
      | none => rfl
      | some value =>
        have hexact := (hplain _ _ _ _ hget hvalue fun heq => absurd heq hother).1
        rw [Option.map_some, hexact.reread_eq]
  keys := by
    intro key hkey
    rw [get?_scope_reread, h.keys key hkey]
    cases hvalue : (others.scope name).get? key with
    | none => rfl
    | some value =>
      obtain ⟨scope, hscope, hvalue⟩ := get?_of_get?_scope hvalue
      rw [Option.map_some, (hplain _ _ _ _ hscope hvalue fun _ => hkey).1.reread_eq]

end AgreesBeside

end Contents

namespace Archive

/--
What happens to a store and its database.
-/
inductive Turn where
  | own (action : Action)
  | foreign (name : String) (scope : Scope)

namespace Turn

def apply (archive : Archive) : Turn → Archive
  | own action => archive.apply action
  | foreign name scope => { archive with database := archive.database.publish name scope }

/--
What there would be in a database after a turn if there were no store.
-/
def onOthers (contents : Contents) : Turn → Contents
  | own _ => contents
  | foreign name scope => contents.put name scope

end Turn

def afterTurns (archive : Archive) (turns : List Turn) : Archive :=
  turns.foldl Turn.apply archive

def othersAfter (contents : Contents) (turns : List Turn) : Contents :=
  turns.foldl Turn.onOthers contents

/--
The rows of a store have been written, by a sync or by a checkpoint, and there was no error.
-/
inductive Written (archive : Archive) : Archive → Disk → Prop where
  | sync {disk disk' : Disk} {store : Store} {db : Database}
      (h : archive.store.sync archive.database disk = (.ok (), store, db, disk')) :
      Written archive ⟨store, db⟩ disk'
  | checkpoint {registry : Registry} {disk disk' : Disk} {store : Store} {db : Database} {count : Nat}
      (h : archive.store.checkpoint registry archive.database disk = (.ok count, store, db, disk')) :
      Written archive ⟨store, db⟩ disk'

/--
A store has, in its draft and in the database, what the others have.
-/
structure Minds (name : String) (path : Path) (others : Contents) (archive : Archive) : Prop where
  name_eq : archive.store.draft.name = name
  path_eq : archive.database.path = path
  agrees : archive.database.contents.AgreesBeside name others
  staged : ∀ key, key ≠ Store.snapshotKey →
    archive.store.draft.staged.get? key = (others.scope name).get? key

variable {name : String} {path : Path} {others : Contents} {archive : Archive}

theorem get?_stage (store : Store) {key : String} (h : key ≠ Store.snapshotKey) :
    store.stage.draft.staged.get? key = store.draft.staged.get? key :=
  (Table.get?_put _ _ _ _).trans (if_neg h)

namespace Minds

theorem congr (h : archive.Minds name path others) {store : Store}
    (hdraft : store.draft = archive.store.draft) : Minds name path others { archive with store } := by
  refine ⟨?_, h.path_eq, h.agrees, ?_⟩
  . rw [hdraft]
    exact h.name_eq
  . rw [hdraft]
    exact h.staged

theorem reload (archive : Archive) (hname : archive.store.draft.name = name)
    (hpath : archive.database.path = path)
    (hagrees : archive.database.contents.AgreesBeside name others) :
    Minds name path others { archive with store := archive.store.reload archive.database } := by
  refine ⟨hname, hpath, hagrees, fun key hkey => ?_⟩
  change (archive.database.contents.scope archive.store.draft.name).get? key = _
  rw [hname]
  exact hagrees.keys key hkey

theorem published (h : archive.Minds name path others) {store : Store}
    (hdraft : store.draft = archive.store.draft) :
    (store.published archive.database).contents.AgreesBeside name others := by
  have hname : store.draft.name = name := by rw [hdraft, h.name_eq]
  unfold Store.published Database.publish
  rw [hname]
  refine h.agrees.put_self fun key hkey => ?_
  rw [get?_stage store hkey, hdraft]
  exact h.staged key hkey

theorem apply (h : archive.Minds name path others) (action : Action) :
    (archive.apply action).Minds name path others := by
  refine apply_keeps ?_ ?_ ?_ h action
  . exact fun _ _ hdraft h => h.congr hdraft
  . exact fun _ h => .reload _ h.name_eq h.path_eq h.agrees
  . intro archive disk h
    exact ⟨h.name_eq, h.path_eq, h.published rfl, fun key hkey =>
      (get?_stage archive.store hkey).trans (h.staged key hkey)⟩

theorem turn (h : archive.Minds name path others) {turn : Turn}
    (hturn : ∀ other scope, turn = .foreign other scope → other ≠ name) :
    (turn.apply archive).Minds name path (turn.onOthers others) := by
  cases turn with
  | own action => exact h.apply action
  | foreign other scope =>
    have hne := hturn other scope rfl
    refine ⟨h.name_eq, h.path_eq, h.agrees.put hne scope, fun key hkey => ?_⟩
    change _ = (Contents.scope (others.put other scope) name).get? key
    rw [Contents.scope_put, if_neg hne.symm]
    exact h.staged key hkey

theorem afterTurns (h : archive.Minds name path others) {turns : List Turn}
    (hturns : ∀ other scope, .foreign other scope ∈ turns → other ≠ name) :
    (archive.afterTurns turns).Minds name path (othersAfter others turns) := by
  unfold Archive.afterTurns othersAfter
  induction turns generalizing archive others with
  | nil => exact h
  | cons turn turns ih =>
    apply ih
    . apply h.turn
      rintro other scope rfl
      exact hturns other scope List.mem_cons_self
    . exact fun other scope hmem => hturns other scope (List.mem_cons_of_mem _ hmem)

end Minds

theorem Written.exists_sync {next : Archive} {disk' : Disk} (h : archive.Written next disk') :
    ∃ (store : Store) (disk : Disk), store.draft = archive.store.draft ∧
      store.sync archive.database disk = (.ok (), next.store, next.database, disk') := by
  cases h with
  | @sync disk _ _ _ h => exact ⟨archive.store, disk, rfl, h⟩
  | @checkpoint registry disk _ _ _ _ h =>
    exact ⟨archive.store.take registry, disk, rfl, (Store.checkpoint_eq_ok h).1⟩

theorem Written.agreesBeside {next : Archive} {disk' : Disk} (h : archive.Written next disk')
    (hminds : archive.Minds name path others) :
    next.database.contents.AgreesBeside name others ∧
      (path.isEmpty = false → others.PlainBeside name →
        ∃ reopened, Database.load disk' path = (.ok reopened, disk') ∧
          reopened.contents.AgreesBeside name others ∧
          (reopened.contents.scope name).get? Store.snapshotKey = some next.store.view.toJson) := by
  -- What the view was before plays no part, so a checkpoint is seen as a sync.
  obtain ⟨store, disk, hdraft, hsync⟩ := h.exists_sync
  obtain ⟨hstore, hdatabase, hflush⟩ := Store.sync_eq_ok hsync
  have hname : store.draft.name = name := by rw [hdraft, hminds.name_eq]
  have hagrees : next.database.contents.AgreesBeside name others := by
    rw [hdatabase]
    exact hminds.published hdraft
  have hsnapshot : (next.database.contents.scope name).get? Store.snapshotKey =
      some next.store.view.toJson := by
    rw [hdatabase, hstore, ← hname]
    exact store.get?_published archive.database
  refine ⟨hagrees, fun hpath hplain => ?_⟩
  have hregular : next.database.contents.Regular := by
    refine hagrees.regular hplain fun value hvalue => ?_
    rw [hsnapshot] at hvalue
    cases hvalue
    exact next.store.view.regular_toJson 121
  have hsame : next.database.path = path := by
    rw [hdatabase, ← hminds.path_eq]
    rfl
  rw [← hsame] at hpath ⊢
  refine ⟨_, Database.load_of_flush hregular hpath hflush, hagrees.reread hplain, ?_⟩
  rw [Contents.get?_scope_reread, hsnapshot, Option.map_some, next.store.view.exact_toJson.reread_eq]

/--
A store leaves the others alone. From the moment when it has been brought back, be it with an error,
whatever is done with it, whatever fails, and whatever others publish in the meantime under other
names, the database has in all scopes and under all keys but that of the snapshot what it would have
without the store. When rows have been written without an error, so has the file, as long as the values
of the others can be read as they are written.
-/
theorem agreesBeside_afterTurns (store : Store) (db : Database) (registry : Registry)
    (turns : List Turn)
    (hturns : ∀ other scope, .foreign other scope ∈ turns → other ≠ store.draft.name) :
    let archive := afterTurns ⟨store, db⟩ (.own (.restore registry) :: turns)
    let others := othersAfter db.contents turns
    archive.database.contents.AgreesBeside store.draft.name others ∧
      ∀ next disk', archive.Written next disk' →
        next.database.contents.AgreesBeside store.draft.name others ∧
        (db.path.isEmpty = false → others.PlainBeside store.draft.name →
          ∃ reopened, Database.load disk' db.path = (.ok reopened, disk') ∧
            reopened.contents.AgreesBeside store.draft.name others ∧
            (reopened.contents.scope store.draft.name).get? Store.snapshotKey =
              some next.store.view.toJson) := by
  intro archive others
  have hreloaded : Minds store.draft.name db.path db.contents ⟨store.reload db, db⟩ :=
    .reload ⟨store, db⟩ rfl rfl (.refl _ _)
  have hstart : (apply ⟨store, db⟩ (.restore registry)).Minds store.draft.name db.path db.contents :=
    hreloaded.congr (store.draft_restore registry db)
  have hminds : archive.Minds store.draft.name db.path others := hstart.afterTurns hturns
  exact ⟨hminds.agrees, fun next disk' hwritten => hwritten.agreesBeside hminds⟩

/--
A database in which something else is found in place of the snapshot. Next to it there is a key that
is not the store's, and there is another scope.
-/
def shared : Database where
  path := ⟨"r"⟩
  contents :=
    (Table.empty.put "registry"
      ((Table.empty.put Store.snapshotKey (.boolean true)).put "kept" (.boolean false))).put
      "other" (Table.empty.put "k" .null)

/--
Something fails to be written there, and someone else publishes a third scope.
-/
def sharing : List Turn := [
  .own (.checkpoint .empty { Disk.ofDirectory [] 7 with faults := [some ⟨.rename, .busy, 0⟩] }),
  .foreign "third" (Table.empty.put "k" (.boolean true)),
  .own (.forget "a")]

theorem plainBeside_sharing :
    (othersAfter shared.contents sharing).PlainBeside "registry" := by
  have hboolean : ∀ b, Json.Exact (.boolean b) ∧ (Json.boolean b).Regular 124 :=
    fun b => ⟨.boolean b, .boolean b⟩
  have hothers : othersAfter shared.contents sharing =
      shared.contents.put "third" (Table.empty.put "k" (.boolean true)) := rfl
  rw [hothers, shared]
  apply Contents.PlainBeside.put
  . apply Contents.PlainBeside.put
    . apply Contents.PlainBeside.put (Contents.plainBeside_empty _)
      rintro member (_ | ⟨_, _ | ⟨_, hmem⟩⟩)
      . exact hboolean false
      . exact hboolean true
      . cases hmem
    . rintro member (_ | ⟨_, hmem⟩)
      . exact ⟨.null, .null⟩
      . cases hmem
  . rintro member (_ | ⟨_, hmem⟩)
    . exact hboolean true
    . cases hmem

theorem agreesBeside_afterTurns_corrupted :
    let store := Store.ofName "registry"
    let archive := afterTurns ⟨store, shared⟩ (.own (.restore .empty) :: sharing)
    (store.restore .empty shared).1.isOk = false ∧ ∃ store' db disk reopened,
      archive.store.sync archive.database (.ofDirectory [] 7) = (.ok (), store', db, disk) ∧
        Database.load disk ⟨"r"⟩ = (.ok reopened, disk) ∧
        (reopened.contents.scope "registry").get? "kept" = some (.boolean false) ∧
        (reopened.contents.get? "other").map (·.get? "k") = some (some .null) ∧
        (reopened.contents.get? "third").map (·.get? "k") = some (some (.boolean true)) := by
  intro store archive
  have hturns : ∀ other scope, .foreign other scope ∈ sharing → other ≠ store.draft.name := by
    intro other scope hmem
    simp only [sharing, List.mem_cons, reduceCtorEq, Turn.foreign.injEq, List.not_mem_nil, false_or,
      or_false] at hmem
    rw [hmem.1]
    decide
  obtain ⟨-, hwrite⟩ := agreesBeside_afterTurns store shared .empty sharing hturns
  have hdone : (archive.store.sync archive.database (.ofDirectory [] 7)).1.isOk = true := by
    decide +kernel
  rcases hsync : archive.store.sync archive.database (.ofDirectory [] 7) with
    ⟨_ | _, store', db, disk⟩
  . rw [hsync] at hdone
    cases hdone
  obtain ⟨-, hreopened⟩ := hwrite _ _ (.sync hsync)
  obtain ⟨reopened, hload, hagrees, -⟩ := hreopened rfl plainBeside_sharing
  have hcorrupted : (store.restore .empty shared).1.isOk = false := by decide +kernel
  have hkept : ((othersAfter shared.contents sharing).scope "registry").get? "kept" =
      some (.boolean false) := rfl
  have hother : ((othersAfter shared.contents sharing).get? "other").map (·.get? "k") =
      some (some .null) := rfl
  have hthird : ((othersAfter shared.contents sharing).get? "third").map (·.get? "k") =
      some (some (.boolean true)) := rfl
  exact ⟨hcorrupted, store', db, disk, reopened, rfl, hload,
    (hagrees.keys "kept" (by decide)).trans hkept,
    (hagrees.scopes "other" (by decide) "k").trans hother,
    (hagrees.scopes "third" (by decide) "k").trans hthird⟩

end Archive

end ReadProgress
