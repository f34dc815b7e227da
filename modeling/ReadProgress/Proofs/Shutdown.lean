import ReadProgress.Housekeeper.Run
import ReadProgress.Proofs.Durability
import ReadProgress.Proofs.Registry.Refinement
import ReadProgress.Proofs.Restart
import ReadProgress.Proofs.Schedule

/-!
This module contains the proof that a housekeeper who stops loses nothing. Whichever records come in
along the way, whichever snapshots cannot be written, and whether the work is called off or given up,
whoever starts again finds what is in the registry at the end, if only the last snapshot is written.
-/

namespace ReadProgress

/--
A record that comes in, and the moment when it was made.
-/
structure Arrival where
  record : Record
  moment : Timestamp

def Arrival.chore (arrival : Arrival) : Chore :=
  .update arrival.record arrival.moment

/--
Whether no cleanup removes a record, whenever it is done.
-/
def Record.IsLasting (record : Record) : Prop :=
  record.finished = false ∨ record.ttl = .never

theorem Record.IsLasting.isRemovable_eq {record : Record} (h : record.IsLasting) (now : Timestamp) :
    record.isRemovable now = false := by
  unfold Record.isRemovable
  rcases h with hfinished | httl
  . rw [hfinished, Bool.and_false]
  . rw [Record.isExpired, httl, Ttl.isExpired, Bool.false_and]

/--
A ledger in which nothing is ever removed, after some records have come in.
-/
def Ledger.receive (ledger : Ledger) (arrivals : List Arrival) : Ledger :=
  arrivals.foldl (fun ledger arrival => ledger.apply (.update arrival.record arrival.moment)) ledger

namespace Registry

def receive (registry : Registry) (arrivals : List Arrival) : Registry :=
  arrivals.foldl (fun registry arrival => registry.update arrival.record arrival.moment) registry

/--
All that is found is found as it is known, and no record gets lost that is to last.
-/
structure Remembers (ledger : Ledger) (registry : Registry) : Prop where
  known : ∀ id record, registry.find? id = some record → ledger.get? id = some record
  lasting : ∀ id record, ledger.get? id = some record → record.IsLasting →
    registry.find? id = some record

namespace Remembers

variable {ledger : Ledger} {registry : Registry}

theorem ofRecords (records : List Record) :
    (Registry.ofRecords records).Remembers (.ofRecords records) where
  known id record h := by rw [← find?_ofRecords, h]
  lasting id record h _ := by rw [find?_ofRecords, h]

theorem update (h : registry.Remembers ledger) (hsound : registry.Sound) (record : Record)
    (moment : Timestamp) :
    (registry.update record moment).Remembers (ledger.apply (.update record moment)) where
  known := by
    intro id found hfound
    rw [hsound.find?_update] at hfound
    refine (Table.get?_put _ _ _ _).trans ?_
    split at hfound
    . next heq => rw [if_pos heq, hfound]
    . next hne => rw [if_neg hne, h.known id found hfound]
  lasting := by
    intro id found hfound hlasting
    replace hfound := (Table.get?_put _ _ _ _).symm.trans hfound
    rw [hsound.find?_update]
    split at hfound
    . next heq => rw [if_pos heq, hfound]
    . next hne => rw [if_neg hne, h.lasting id found hfound hlasting]

theorem cleanup (h : registry.Remembers ledger) (hcomplete : registry.Complete)
    (hsound : registry.Sound) (now : Timestamp) : (registry.cleanup now).2.Remembers ledger where
  known := by
    intro id record hfind
    rw [find?_cleanup_iff hcomplete hsound] at hfind
    exact h.known id record hfind.1
  lasting := by
    intro id record hknown hlasting
    rw [find?_cleanup_iff hcomplete hsound]
    exact ⟨h.lasting id record hknown hlasting, hlasting.isRemovable_eq now⟩

end Remembers

end Registry

/--
Whoever starts again with an empty registry finds the records of a registry as they are there, and no
others.
-/
def Disk.BringsBack (disk : Disk) (config : Config) (registry : Registry) : Prop :=
  ∃ restoration keeper restored db disk',
    Housekeeper.restore config .empty disk = (.ok (restoration, keeper, restored, db), disk') ∧
      restored.records.Perm registry.records ∧
      ∀ id, restored.find? id = registry.find? id

namespace House

variable {house : House} {config other : Config} {ledger : Ledger}

theorem InOrder.of_statesPath_eq (h : house.InOrder config)
    (hpath : other.statesPath = config.statesPath) : house.InOrder other := by
  refine ⟨?_, h.ttls, h.complete, h.sound⟩
  rw [hpath]
  exact h.archive

theorem InOrder.bringsBack_of_checkpoint (h : house.InOrder config) (hfault : config.fault? = none)
    (hdone : house.checkpoint.1.isOk = true) :
    house.checkpoint.2.disk.BringsBack config house.registry := by
  have hperform : (house.checkpoint.1.isOk, house.checkpoint.2) =
      ((house.prepare .checkpoint).sync.1.isOk, (house.prepare .checkpoint).sync.2) :=
    house.perform_eq .checkpoint
  rw [Prod.mk.injEq] at hperform
  rw [hperform.1] at hdone
  rw [hperform.2]
  have hprepared : (house.prepare .checkpoint).InOrder config := h.prepare trivial
  obtain ⟨restoration, keeper, restored, db, disk', hrestore, -, hview, -, -⟩ :=
    hprepared.brings_of_sync hfault (Config.isEmpty_of_fault? hfault) hdone
  obtain ⟨rfl, -⟩ := Housekeeper.registry_of_restore hrestore
  rw [hview] at hrestore
  have hresembles := Registry.resembles_restored h.complete h.sound
  exact ⟨restoration, keeper, _, db, disk', hrestore, hresembles.records_perm, hresembles.find?⟩

/-
All that a periodic checkpoint does to a house, but for what the housekeeper keeps in mind, is done by
any checkpoint.
-/
theorem house_periodicCheckpoint (house : House) (noted measured : Nat) :
    ∃ since, (house.periodicCheckpoint noted measured).2 = house.checkpoint.2.noteFailing since := by
  unfold periodicCheckpoint
  rcases house.checkpoint with ⟨e | count, next⟩
  . exact ⟨_, rfl⟩
  . exact ⟨_, rfl⟩

/--
Why a snapshot cannot be written now, if it cannot.
-/
def checkpointFault? (house : House) : Option Error :=
  match house.checkpoint.1 with
  | .ok _ => none
  | .error e => some e

theorem checkpointFault?_eq_some_iff {e : Error} :
    house.checkpointFault? = some e ↔ house.checkpoint.1 = .error e := by
  unfold checkpointFault?
  rcases house.checkpoint.1 with cause | count <;> simp

theorem fatal?_periodicCheckpoint (house : House) (noted measured : Nat) :
    (house.periodicCheckpoint noted measured).1.fatal? =
      if house.failingFor noted measured < house.keeper.config.failureLimit.toNanos then none
      else house.checkpointFault? := by
  unfold periodicCheckpoint checkpointFault?
  rcases house.checkpoint with ⟨e | count, next⟩
  . dsimp only
    split <;> rfl
  . dsimp only
    split <;> split <;> rfl

theorem registry_cleanup (house : House) (now : Timestamp) :
    (house.cleanup now).2.registry = (house.registry.cleanup now).2 :=
  house.registry_perform (.cleanup now)

/--
A house in which all can be written and read again, with a registry that remembers what has come in.
-/
structure Tracks (config : Config) (ledger : Ledger) (house : House) : Prop where
  inOrder : house.InOrder config
  remembers : house.registry.Remembers ledger

namespace Tracks

theorem of_restore {disk opened : Disk} {restoration : Restoration} {keeper : Housekeeper}
    {registry : Registry} {db : Database}
    (hopen : Housekeeper.restore config .empty disk =
      (.ok (restoration, keeper, registry, db), opened)) :
    Tracks config (.ofRecords registry.records) ⟨registry, keeper, db, opened⟩ := by
  refine ⟨.of_restore hopen, ?_⟩
  obtain ⟨rfl, -⟩ := Housekeeper.registry_of_restore hopen
  exact .ofRecords _

theorem update (h : house.Tracks config ledger) {record : Record} (moment : Timestamp)
    (hrecord : record.ttl ≠ .after .zero) :
    (house.perform (.update record moment)).2.Tracks config
      (ledger.apply (.update record moment)) :=
  ⟨h.inOrder.perform hrecord, h.remembers.update h.inOrder.sound record moment⟩

theorem cleanup (h : house.Tracks config ledger) (now : Timestamp) :
    (house.cleanup now).2.Tracks config ledger := by
  have hperform : (house.perform (.cleanup now)).2.InOrder config := h.inOrder.perform trivial
  refine ⟨hperform, ?_⟩
  rw [registry_cleanup]
  exact h.remembers.cleanup h.inOrder.complete h.inOrder.sound now

theorem checkpoint (h : house.Tracks config ledger) : house.checkpoint.2.Tracks config ledger := by
  have hperform : (house.perform .checkpoint).2.InOrder config := h.inOrder.perform trivial
  exact ⟨hperform, h.remembers⟩

theorem receive {registry : Registry} {keeper : Housekeeper} {db : Database} {disk : Disk}
    (h : Tracks config ledger ⟨registry, keeper, db, disk⟩) {arrivals : List Arrival}
    (harrivals : ∀ arrival ∈ arrivals, arrival.record.ttl ≠ .after .zero) :
    Tracks config (ledger.receive arrivals) ⟨registry.receive arrivals, keeper, db, disk⟩ := by
  induction arrivals generalizing registry ledger with
  | nil => exact h
  | cons arrival arrivals ih =>
    rw [List.forall_mem_cons] at harrivals
    exact ih (h.update arrival.moment harrivals.1) harrivals.2

theorem periodicCheckpoint (h : house.Tracks config ledger) (noted measured : Nat) :
    (house.periodicCheckpoint noted measured).2.Tracks config ledger := by
  obtain ⟨since, hhouse⟩ := house.house_periodicCheckpoint noted measured
  obtain ⟨horder, hremembers⟩ := h.checkpoint
  rw [hhouse]
  exact ⟨⟨horder.archive, horder.ttls, horder.complete, horder.sound⟩, hremembers⟩

end Tracks

end House

namespace Config

theorem intervals_pos {config : Config} (h : config.fault? = none) :
    0 < config.cleanupInterval.toNanos ∧ 0 < config.checkpointInterval.toNanos := by
  have hpos : ∀ interval : Timespan, ¬ interval.isZero → 0 < interval.toNanos := by
    intro interval hinterval
    rw [Nat.pos_iff_ne_zero]
    intro hzero
    apply hinterval
    rw [Timespan.isZero_iff]
    exact Timespan.toNanos_inj.1 hzero
  unfold fault? at h
  split at h
  . cases h
  . split at h
    . cases h
    . next hcleanup =>
      split at h
      . cases h
      . next hcheckpoint => exact ⟨hpos _ hcleanup, hpos _ hcheckpoint⟩

/--
The times between two cleanups and between two checkpoints under a configuration without fault.
-/
def periods (config : Config) (h : config.fault? = none) (timers : Timers) : Periods :=
  timers.periods (intervals_pos h).1 (intervals_pos h).2

end Config

namespace Premises

variable {σ : Type} {premises : Premises σ} {duty : Duty σ Error} {config : Config}
  {ledger : Ledger} {s : σ}

/--
The house is what it was set to, and neither the clocks nor what is told changes it.
-/
structure Lawful (premises : Premises σ) : Prop where
  house_setHouse : ∀ house s, premises.house (premises.setHouse house s) = house
  house_now : ∀ s, premises.house (premises.now s).2 = premises.house s
  house_instant : ∀ s, premises.house (premises.instant s).2 = premises.house s
  house_report : ∀ events s, premises.house (premises.report events s) = premises.house s

/--
A duty that is the one of a housekeeper, but for how long failures are borne. It may be given up at any
checkpoint that fails.
-/
structure Allows (premises : Premises σ) (duty : Duty σ Error) : Prop where
  cleanup_eq : duty.cleanup = premises.cleanup
  close_eq : duty.close = premises.close
  house_checkpoint : ∀ s, ∃ noted measured,
    premises.house (duty.checkpoint s).2 = ((premises.house s).periodicCheckpoint noted measured).2
  failed : ∀ s e, (duty.checkpoint s).1 = some e → (premises.house s).checkpoint.1 = .error e

/--
The instants that are read when a checkpoint is to be written.
-/
def noted (premises : Premises σ) (s : σ) : Nat :=
  (premises.instant s).1

def measured (premises : Premises σ) (s : σ) : Nat :=
  (premises.instant (premises.instant s).2).1

theorem house_checkpoint (h : premises.Lawful) (s : σ) :
    premises.house (premises.checkpoint s).2 =
      ((premises.house s).periodicCheckpoint (premises.noted s) (premises.measured s)).2 := by
  change premises.house (premises.report _ (premises.setHouse ((premises.house
    (premises.instant (premises.instant s).2).2).periodicCheckpoint _ _).2 _)) = _
  rw [h.house_report, h.house_setHouse, h.house_instant, h.house_instant]
  rfl

theorem fst_checkpoint (h : premises.Lawful) (s : σ) :
    (premises.checkpoint s).1 = ((premises.house s).periodicCheckpoint (premises.noted s)
      (premises.measured s)).1.fatal? := by
  change ((premises.house (premises.instant (premises.instant s).2).2).periodicCheckpoint _ _).1.fatal?
    = _
  rw [h.house_instant, h.house_instant]
  rfl

theorem allows_duty (h : premises.Lawful) : premises.Allows premises.duty where
  cleanup_eq := rfl
  close_eq := rfl
  house_checkpoint s := ⟨_, _, house_checkpoint h s⟩
  failed := by
    intro s e hfatal
    change (premises.checkpoint s).1 = some e at hfatal
    rw [fst_checkpoint h, House.fatal?_periodicCheckpoint] at hfatal
    split at hfatal
    . cases hfatal
    . exact House.checkpointFault?_eq_some_iff.1 hfatal

/--
A step in which a record comes in at a certain time.
-/
def arrival (premises : Premises σ) (late : Nat × Arrival) : ScriptStep σ Error where
  time := late.1
  take s := (none, premises.setHouse ((premises.house s).perform late.2.chore).2 s)

/--
The moment that the clock shows at the last cleanup.
-/
def lastReading (premises : Premises σ) (fatal : Option Error) (s : σ) : Timestamp :=
  (premises.now (if fatal.isNone then premises.report [.cancelled] s else s)).1

theorem house_cleanup (h : premises.Lawful) (s : σ) :
    premises.house (premises.cleanup s) = ((premises.house s).cleanup (premises.now s).1).2 := by
  change premises.house (premises.report _
    (premises.setHouse ((premises.house (premises.now s).2).cleanup (premises.now s).1).2 _)) = _
  rw [h.house_report, h.house_setHouse, h.house_now]

theorem house_close (h : premises.Lawful) (fatal : Option Error) (s : σ) :
    premises.house (premises.close fatal s) =
      ((premises.house s).cleanup (premises.lastReading fatal s)).2.checkpoint.2 := by
  have htold : premises.house (if fatal.isNone then premises.report [.cancelled] s else s) =
      premises.house s := by
    split
    . exact h.house_report _ _
    . rfl
  have hlast : ∀ house : House, house.lastCheckpoint.2 = house.checkpoint.2 := by
    intro house
    unfold House.lastCheckpoint
    rcases house.checkpoint with ⟨e | count, next⟩ <;> rfl
  change premises.house (premises.report _
    (premises.setHouse (premises.house (premises.cleanup _)).lastCheckpoint.2 _)) = _
  rw [h.house_report, h.house_setHouse, hlast, house_cleanup h, htold]
  rfl

theorem tracks_of_course (hpremises : premises.Lawful) (hduty : premises.Allows duty)
    {taken : List (Nat × Arrival)} (htaken : ∀ late ∈ taken, late.2.record.ttl ≠ .after .zero)
    {s t : σ} {fatal : Option Error} (hcourse : duty.Course (taken.map premises.arrival) s fatal t)
    (h : (premises.house s).Tracks config ledger) :
    (premises.house t).Tracks config (ledger.receive (taken.map Prod.snd)) := by
  generalize hsteps : taken.map premises.arrival = steps at hcourse
  -- The ledger changes with each arrival that is taken, all else leaves it as it is.
  induction hcourse generalizing taken ledger with
  | refl s =>
    obtain rfl := List.map_eq_nil_iff.1 hsteps
    exact h
  | cleanup _ ih =>
    apply ih htaken _ hsteps
    rw [hduty.cleanup_eq, house_cleanup hpremises]
    exact h.cleanup _
  | @checkpoint _ s next _ _ hcheckpoint _ ih =>
    apply ih htaken _ hsteps
    have hhouse := hduty.house_checkpoint s
    rw [hcheckpoint] at hhouse
    obtain ⟨noted, measured, hhouse⟩ := hhouse
    rw [hhouse]
    exact h.periodicCheckpoint noted measured
  | @giveUp s t e hcheckpoint =>
    obtain rfl := List.map_eq_nil_iff.1 hsteps
    have hhouse := hduty.house_checkpoint s
    rw [hcheckpoint] at hhouse
    obtain ⟨noted, measured, hhouse⟩ := hhouse
    rw [hhouse]
    exact h.periodicCheckpoint noted measured
  | step _ ih =>
    obtain ⟨late, rest, rfl, rfl, hrest⟩ := List.map_eq_cons_iff.1 hsteps
    rw [List.forall_mem_cons] at htaken
    apply ih htaken.2 _ hrest
    change (premises.house (premises.setHouse _ _)).Tracks config _
    rw [hpremises.house_setHouse]
    exact h.update late.2.moment htaken.1

theorem run_eq (hconfig : (premises.house (premises.report [.started] s)).keeper.config = config)
    (hfault : config.fault? = none) (timers : Timers) (script : Script σ Error) :
    premises.run timers script s =
      premises.duty.run (config.periods hfault timers) script (premises.report [.started] s) := by
  subst hconfig
  exact dif_pos (Config.intervals_pos hfault)

/--
A housekeeper who stops loses nothing. Whatever has been found in the file at first, and whichever
records come in before and during the work, whoever starts again finds exactly the records that are in
the registry at the end, if only the last snapshot is written. Each of them is as it came in last, all
are there that are to last, and none is there that was to be removed at the last cleanup. This holds
whichever snapshots could not be written before that, whether the work is called off or given up,
however long failures are borne and whenever the timers ring. Why the work was given up, if it was, is
not changed by what is done at the end: it is up to the snapshots before.
-/
theorem bringsBack_after_run (hpremises : premises.Lawful) {disk opened : Disk}
    {restoration : Restoration} {keeper : Housekeeper} {registry : Registry} {db : Database}
    (hopen : Housekeeper.restore config .empty disk =
      (.ok (restoration, keeper, registry, db), opened))
    {early : List Arrival} (hearly : ∀ arrival ∈ early, arrival.record.ttl ≠ .after .zero)
    (hs : premises.house s = ⟨registry.receive early, keeper, db, opened⟩)
    {late : List (Nat × Arrival)} (hlate : ∀ arrival ∈ late, arrival.2.record.ttl ≠ .after .zero)
    (cancelAt : Nat) (timers : Timers) :
    let periods := config.periods (Housekeeper.restore_eq_ok hopen).1 timers
    let script : Script σ Error := ⟨late.map premises.arrival, cancelAt⟩
    let started := premises.report [.started] s
    premises.run timers script s = premises.duty.run periods script started ∧
      premises.Allows premises.duty ∧ ∀ duty, premises.Allows duty →
        let halt := duty.halt periods script started
        let now := premises.lastReading halt.fatal halt.state
        let house := premises.house (duty.close halt.fatal halt.state)
        duty.run periods script started = duty.finish halt ∧
        (∀ close, ({ duty with close }.run periods script started).1 = halt.fatal) ∧
        ∃ during after, late = during ++ after ∧ halt.left = after.map premises.arrival ∧
          duty.Course (during.map premises.arrival) started halt.fatal halt.state ∧
          house.registry.Remembers
            ((Ledger.ofRecords registry.records).receive (early ++ during.map Prod.snd)) ∧
          (∀ record ∈ house.registry.records, record.isRemovable now = false) ∧
          (((premises.house halt.state).cleanup now).2.checkpoint.1.isOk = true →
            ∀ other : Config, other.fault? = none → other.statesPath = config.statesPath →
              house.disk.BringsBack other house.registry) := by
  intro periods script started
  have hstarted : premises.house started = ⟨registry.receive early, keeper, db, opened⟩ :=
    (hpremises.house_report _ _).trans hs
  have hconfig : (premises.house started).keeper.config = config := by
    rw [hstarted]
    exact Housekeeper.config_of_restore hopen
  refine ⟨run_eq hconfig _ timers script, allows_duty hpremises, ?_⟩
  intro duty hduty halt now house
  have hquiet : ∀ step ∈ script.steps, step.IsQuiet := by
    intro step hstep
    obtain ⟨arrival, -, rfl⟩ := List.mem_map.1 hstep
    exact fun _ => rfl
  refine ⟨Duty.run_eq_finish hquiet started, ?_, ?_⟩
  . intro close
    rw [Duty.run_eq_finish hquiet, Duty.halt_withClose]
    rfl
  . -- The steps that are taken before the halt are the first ones, so they are arrivals, too.
    obtain ⟨taken, hsplit, hcourse⟩ := duty.course_halt periods script started
    obtain ⟨during, after, hlate', htaken, hleft⟩ := List.map_eq_append_iff.1 hsplit
    subst htaken
    have hstart : (premises.house started).Tracks config
        ((Ledger.ofRecords registry.records).receive early) := by
      rw [hstarted]
      exact (House.Tracks.of_restore hopen).receive hearly
    have hduring : ∀ arrival ∈ during, arrival.2.record.ttl ≠ .after .zero := by
      intro arrival harrival
      apply hlate arrival
      rw [hlate']
      exact List.mem_append_left _ harrival
    have hcleaned := (tracks_of_course hpremises hduty hduring hcourse hstart).cleanup now
    have hhouse : house = ((premises.house halt.state).cleanup now).2.checkpoint.2 := by
      change premises.house (duty.close _ _) = _
      rw [hduty.close_eq, house_close hpremises]
    refine ⟨during, after, hlate', hleft.symm, hcourse, ?_, ?_, ?_⟩
    . rw [hhouse]
      have := hcleaned.checkpoint.remembers
      unfold Ledger.receive at this ⊢
      rw [List.foldl_append]
      exact this
    . intro record hrecord
      rw [hhouse] at hrecord
      change record ∈ ((premises.house halt.state).cleanup now).2.registry.records at hrecord
      rw [House.registry_cleanup] at hrecord
      exact (Registry.mem_cleanup.1 hrecord).2
    . intro hdone other hfault hpath
      rw [hhouse]
      exact (hcleaned.inOrder.of_statesPath_eq hpath).bringsBack_of_checkpoint hfault hdone

/--
A house and nothing else. The clocks stand still.
-/
def bare : Premises House where
  house house := house
  setHouse house _ := house
  now house := (.epoch, house)
  instant house := (0, house)
  report _ house := house

theorem lawful_bare : bare.Lawful :=
  ⟨fun _ _ => rfl, fun _ => rfl, fun _ => rfl, fun _ _ => rfl⟩

/--
A record that is removed with the first cleanup.
-/
def gone : Arrival :=
  ⟨⟨"gone", "/gone", 3, .epoch, .immediate, true⟩, .epoch⟩

/--
A house in which that record has come in, and where the first snapshot cannot be written.
-/
def entered : House :=
  { House.untouched with registry := House.untouched.registry.receive [gone] }

/--
Another record comes in before the work is called off.
-/
def brief : Script House Error :=
  ⟨[(1, ⟨House.firstRecord, .epoch⟩)].map bare.arrival, 5⟩

theorem bringsBack_after_run_brief :
    (bare.run .coarse brief entered).1 = none ∧
      (bare.run .coarse brief entered).2.disk.BringsBack House.nearby
        (bare.run .coarse brief entered).2.registry ∧
      (bare.run .coarse brief entered).2.registry.find? "a" = some House.firstRecord ∧
      ∀ record ∈ (bare.run .coarse brief entered).2.registry.records,
        record.isRemovable .epoch = false := by
  have hopen : Housekeeper.restore House.nearby .empty House.failingOnce =
      (.ok (.fresh, House.untouched.keeper, House.untouched.registry, House.untouched.database),
        House.untouched.disk) := rfl
  have hearly : ∀ arrival ∈ [gone], arrival.record.ttl ≠ .after .zero := by
    simp [gone]
  have hlate : ∀ arrival ∈ [(1, (⟨House.firstRecord, .epoch⟩ : Arrival))],
      arrival.2.record.ttl ≠ .after .zero := by
    simp [House.firstRecord]
  have hs : bare.house entered = ⟨House.untouched.registry.receive [gone], House.untouched.keeper,
      House.untouched.database, House.untouched.disk⟩ := rfl
  obtain ⟨hrun, hallows, hduty⟩ := bringsBack_after_run lawful_bare hopen hearly hs hlate 5 .coarse
  obtain ⟨hfinish, -, during, after, hsplit, hleft, -, hremembers, hremoved, hback⟩ :=
    hduty bare.duty hallows
  -- No step is left when the work is called off.
  have htaken : (bare.duty.halt (House.nearby.periods rfl .coarse) brief entered).left.length = 0 := by
    decide +kernel
  have hcalm : (bare.duty.halt (House.nearby.periods rfl .coarse) brief entered).fatal.isNone = true := by
    decide +kernel
  have hwritten : ((bare.duty.halt (House.nearby.periods rfl .coarse) brief entered).state.cleanup
      .epoch).2.checkpoint.1.isOk = true := by
    decide +kernel
  have hafter : after = [] := by
    rw [← List.length_eq_zero_iff, ← List.length_map bare.arrival, ← hleft]
    exact htaken
  rw [hafter] at hleft hsplit
  rw [← hsplit.trans (List.append_nil during)] at hremembers
  have hlast : bare.run .coarse brief entered = _ := hrun.trans hfinish
  rw [Duty.finish, hleft] at hlast
  have hknown : ((Ledger.ofRecords House.untouched.registry.records).receive
      [gone, ⟨House.firstRecord, .epoch⟩]).get? "a" = some House.firstRecord := by
    decide
  rw [hlast]
  exact ⟨Option.isNone_iff_eq_none.1 hcalm, hback hwritten House.nearby rfl rfl,
    hremembers.lasting "a" House.firstRecord hknown (.inl rfl), hremoved⟩

end Premises

end ReadProgress
