import ReadProgress.Proofs.Shutdown
import ReadProgress.Proofs.Timetable.Clocks

/-!
This module contains the proof that a housekeeper keeps to the timetable: each cleanup and each
checkpoint is done once, at its time and in its order, until the work is called off, and it is given up
only for a checkpoint of the timetable that fails, and then at once.
-/

namespace ReadProgress

namespace House

theorem isCrash_of_checkpointFault? {house : House} {e : Error}
    (h : house.checkpointFault? = some e) : e.isCrash = false := by
  have hfailed := checkpointFault?_eq_some_iff.1 h
  change (house.keeper.store.checkpoint house.registry house.database house.disk).1 = _ at hfailed
  rw [Store.checkpoint_eq] at hfailed
  exact Database.isCrash_of_flush (map_eq_error.1 hfailed)

theorem config_periodicCheckpoint (house : House) (noted measured : Nat) :
    (house.periodicCheckpoint noted measured).2.keeper.config = house.keeper.config := by
  obtain ⟨since, hhouse⟩ := house.house_periodicCheckpoint noted measured
  rw [hhouse]
  exact house.config_perform .checkpoint

end House

namespace Timers

/--
A timer that is set to an interval again and again rings at the beginning and at all multiples of it.
-/
structure Keep (timers : Timers) (interval : Nat) : Prop where
  period_eq : timers.period interval = interval
  rings_mul : ∀ count, timers.rings (count * interval) = count * interval

theorem Keep.punctual {timers : Timers} {cleanup checkpoint : Nat} (hcleanup : timers.Keep cleanup)
    (hcheckpoint : timers.Keep checkpoint) (hpos : 0 < cleanup) (hpos' : 0 < checkpoint) :
    (timers.periods hpos hpos').Punctual := by
  have hrings : ∀ {interval}, timers.Keep interval → ∀ time, timers.period interval ∣ time →
      timers.rings time = time := by
    rintro interval h time ⟨count, rfl⟩
    rw [h.period_eq, Nat.mul_comm, h.rings_mul]
  exact ⟨hrings hcleanup, hrings hcheckpoint⟩

theorem Keep.run_eq_carryOut {σ ε : Type} {timers : Timers} {cleanup checkpoint : Nat}
    (hcleanup : timers.Keep cleanup) (hcheckpoint : timers.Keep checkpoint) (hpos : 0 < cleanup)
    (hpos' : 0 < checkpoint) {script : Script σ ε} (hc : script.Avoids cleanup)
    (hk : script.Avoids checkpoint) (duty : Duty σ ε) (s : σ) :
    duty.run (timers.periods hpos hpos') script s =
      duty.carryOut script.late (script.timetable cleanup checkpoint) s := by
  have hfirst : (timers.periods hpos hpos').cleanup = cleanup := hcleanup.period_eq
  have hsecond : (timers.periods hpos hpos').checkpoint = checkpoint := hcheckpoint.period_eq
  rw [duty.run_eq_carryOut (hcleanup.punctual hcheckpoint hpos hpos') (by rwa [hfirst])
    (by rwa [hsecond]), hfirst, hsecond]

/--
Timers that count in milliseconds keep all intervals of full ones that they can be set to.
-/
theorem keep_coarse {millis : Nat} (h : millis * 1000000 ≤ farthest) :
    coarse.Keep (millis * 1000000) where
  period_eq := Nat.min_eq_left h
  rings_mul count := by
    change ringing _ = _
    unfold ringing
    rw [← Nat.mul_assoc]
    omega

end Timers

namespace Premises

variable {σ : Type} {premises : Premises σ} {config : Config} {s : σ} {script : Script σ Error}

/--
Whether a step breaks nothing off, and leaves the housekeeper's configuration as it is.
-/
structure Spares (premises : Premises σ) (step : ScriptStep σ Error) : Prop where
  isQuiet : step.IsQuiet
  config_eq : ∀ s,
    (premises.house (step.take s).2).keeper.config = (premises.house s).keeper.config

theorem spares_arrival (hpremises : premises.Lawful) (late : Nat × Arrival) :
    premises.Spares (premises.arrival late) where
  isQuiet _ := rfl
  config_eq s := by
    change (premises.house (premises.setHouse _ _)).keeper.config = _
    rw [hpremises.house_setHouse, House.config_perform]

theorem config_perform (hpremises : premises.Lawful) {operation : Operation σ Error}
    (hoperation : ∀ step, operation = .step step → premises.Spares step) (s : σ) :
    (premises.house (premises.duty.perform operation s)).keeper.config =
      (premises.house s).keeper.config := by
  cases operation with
  | cleanup =>
    change (premises.house (premises.cleanup s)).keeper.config = _
    rw [house_cleanup hpremises]
    exact House.config_perform _ (.cleanup _)
  | checkpoint =>
    change (premises.house (premises.checkpoint s).2).keeper.config = _
    rw [house_checkpoint hpremises, House.config_periodicCheckpoint]
  | step step => exact (hoperation step rfl).config_eq s

theorem config_after (hpremises : premises.Lawful) {table : Timetable σ Error}
    (hsteps : ∀ step ∈ table.steps, premises.Spares step) (s : σ) :
    (premises.house (premises.duty.after table s)).keeper.config =
      (premises.house s).keeper.config := by
  induction table generalizing s with
  | nil => rfl
  | cons appointment table ih =>
    have hfirst : ∀ step, appointment.operation = .step step → premises.Spares step :=
      fun step hstep => hsteps step (Timetable.mem_steps.2 ⟨_, List.mem_cons_self, hstep⟩)
    have hrest : ∀ step ∈ Timetable.steps table, premises.Spares step := by
      intro step hstep
      obtain ⟨other, hother, hoperation⟩ := Timetable.mem_steps.1 hstep
      exact hsteps step (Timetable.mem_steps.2 ⟨other, List.mem_cons_of_mem _ hother, hoperation⟩)
    exact (ih hrest _).trans (config_perform hpremises hfirst s)

/--
How long the checkpoints have failed, as it is measured at a checkpoint that fails now.
-/
def failingFor (premises : Premises σ) (s : σ) : Nat :=
  (premises.house s).failingFor (premises.noted s) (premises.measured s)

/--
Why the work is given up at a checkpoint that is to be written now, if it is. Failures are borne for a
certain time.
-/
def fatalFault? (premises : Premises σ) (limit : Timespan) (s : σ) : Option Error :=
  if premises.failingFor s < limit.toNanos then none else (premises.house s).checkpointFault?

/--
Whether no failure in a timetable lasts for longer than it is borne.
-/
def Bears (premises : Premises σ) (limit : Timespan) (table : Timetable σ Error) (s : σ) : Prop :=
  ∀ front time back, table = front ++ ⟨time, .checkpoint⟩ :: back →
    (premises.house (premises.duty.after front s)).checkpointFault? ≠ none →
      premises.failingFor (premises.duty.after front s) < limit.toNanos

theorem fst_checkpoint_eq_fatalFault? (hpremises : premises.Lawful) (s : σ) :
    (premises.duty.checkpoint s).1 =
      premises.fatalFault? (premises.house s).keeper.config.failureLimit s :=
  (fst_checkpoint hpremises s).trans (House.fatal?_periodicCheckpoint _ _ _)

theorem outcome_carryOut (hpremises : premises.Lawful) {table : Timetable σ Error}
    {late : List (ScriptStep σ Error)} (hsteps : ∀ step ∈ table.steps ++ late, premises.Spares step)
    (s : σ) :
    premises.duty.Outcome (premises.fatalFault? (premises.house s).keeper.config.failureLimit) table
      late s (premises.duty.carryOut late table s) := by
  apply (Duty.outcome_carryOut (fun step hstep => (hsteps step hstep).isQuiet) s).congr
  rintro front time back rfl
  rw [fst_checkpoint_eq_fatalFault? hpremises, config_after hpremises]
  intro step hstep
  obtain ⟨appointment, hmem, hoperation⟩ := Timetable.mem_steps.1 hstep
  exact hsteps step (List.mem_append_left _
    (Timetable.mem_steps.2 ⟨appointment, List.mem_append_left _ hmem, hoperation⟩))

theorem fatalFault?_zero (premises : Premises σ) :
    premises.fatalFault? .zero = fun s => (premises.house s).checkpointFault? := by
  funext s
  rw [fatalFault?, Timespan.toNanos_zero, if_neg (Nat.not_lt_zero _)]

theorem fatalFault?_eq_some_iff {limit : Timespan} {e : Error} :
    premises.fatalFault? limit s = some e ↔
      limit.toNanos ≤ premises.failingFor s ∧ (premises.house s).checkpointFault? = some e := by
  unfold fatalFault?
  split
  . next hlt => simp [Nat.not_le.2 hlt]
  . next hge => simp [Nat.not_lt.1 hge]

theorem not_firstFault_of_bears {table front : Timetable σ Error} {limit : Timespan}
    (h : premises.Bears limit table s) (e : Error) :
    ¬ premises.duty.FirstFault (premises.fatalFault? limit) table s front e := by
  rintro ⟨⟨time, back, hsplit⟩, hshows, -⟩
  obtain ⟨hlong, hfault⟩ := fatalFault?_eq_some_iff.1 hshows
  exact Nat.not_lt.2 hlong (h front time back hsplit (by simp [hfault]))

/--
A housekeeper keeps to the timetable. Whatever the intervals are, in full milliseconds that the timers
keep, and whatever others do at times when no timer rings, exactly what stands in the timetable is done,
and the end is made after it: one more cleanup and one more checkpoint. In the timetable there are a
cleanup and a checkpoint for each multiple of their intervals before the work is called off, and the
steps that are taken until then, all once and by their times, with a cleanup before a checkpoint. The
work is given up for the first snapshot of the timetable that cannot be written once failures have lasted
for as long as they are borne, and then the end is made at once. It is given up for nothing else, and
nothing is broken off.
-/
theorem run_keeps_timetable (hpremises : premises.Lawful)
    (hconfig : (premises.house s).keeper.config = config) (hfault : config.fault? = none)
    {c k : UInt64} (hcleanup : config.cleanupInterval = .ofMillis c)
    (hcheckpoint : config.checkpointInterval = .ofMillis k) {timers : Timers}
    (hkeepc : timers.Keep (c.toNat * 1000000)) (hkeepk : timers.Keep (k.toNat * 1000000))
    (hc : script.Avoids (c.toNat * 1000000)) (hk : script.Avoids (k.toNat * 1000000))
    (hsteps : ∀ step ∈ script.steps, premises.Spares step) :
    let started := premises.report [.started] s
    let table := script.timetable (c.toNat * 1000000) (k.toNat * 1000000)
    let result := premises.run timers script s
    premises.duty.Outcome (premises.fatalFault? config.failureLimit) table script.late started
        result ∧
      (∀ time, ⟨time, .cleanup⟩ ∈ table ↔ time < script.cancelAt ∧ c.toNat * 1000000 ∣ time) ∧
      (∀ time, ⟨time, .checkpoint⟩ ∈ table ↔ time < script.cancelAt ∧ k.toNat * 1000000 ∣ time) ∧
      table.steps = script.early ∧
      (script.steps.Pairwise (·.time ≤ ·.time) → table.Pairwise Appointment.Precedes) ∧
      (∀ s, premises.house (premises.duty.cleanup s) =
        ((premises.house s).cleanup (premises.now s).1).2) ∧
      (∀ s, ∃ since, premises.house (premises.duty.checkpoint s).2 =
        (premises.house s).checkpoint.2.noteFailing since) ∧
      (∀ fatal s, premises.house (premises.duty.close fatal s) =
        ((premises.house s).cleanup (premises.lastReading fatal s)).2.checkpoint.2) ∧
      (config.failureLimit = .zero ∨ premises.Bears config.failureLimit table started →
        ∀ e, result.1 = some e ↔ config.failureLimit = .zero ∧ ∃ front, premises.duty.FirstFault
          (fun s => (premises.house s).checkpointFault?) table started front e) ∧
      ∀ e, result.1 = some e → e.isCrash = false := by
  rw [← Timespan.toNanos_ofMillis, ← hcleanup] at hkeepc hc ⊢
  rw [← Timespan.toNanos_ofMillis, ← hcheckpoint] at hkeepk hk ⊢
  intro started table result
  obtain ⟨hcpos, hkpos⟩ := Config.intervals_pos hfault
  have hstarted : (premises.house started).keeper.config = config := by
    rw [hpremises.house_report, hconfig]
  have houtcome : premises.duty.Outcome (premises.fatalFault? config.failureLimit) table script.late
      started result := by
    have hall : ∀ step ∈ table.steps ++ script.late, premises.Spares step := by
      rwa [steps_timetable, script.early_append_late]
    have hrun : result = premises.duty.carryOut script.late table started :=
      (run_eq hstarted hfault timers script).trans
        (hkeepc.run_eq_carryOut hkeepk hcpos hkpos hc hk premises.duty started)
    have hcarry := outcome_carryOut hpremises hall started
    rwa [hstarted, ← hrun] at hcarry
  refine ⟨houtcome, fun _ => cleanup_mem_timetable_iff hcpos,
    fun _ => checkpoint_mem_timetable_iff hkpos, steps_timetable,
    pairwise_timetable hcpos hkpos hc hk, house_cleanup hpremises, ?_, house_close hpremises, ?_, ?_⟩
  . intro s
    change ∃ since, premises.house (premises.checkpoint s).2 = _
    rw [house_checkpoint hpremises]
    exact House.house_periodicCheckpoint _ _ _
  . intro hlimit e
    rw [houtcome.fst_eq_some_iff]
    by_cases hzero : config.failureLimit = .zero
    . rw [hzero, fatalFault?_zero]
      simp only [true_and]
    . simp [hzero, not_firstFault_of_bears (hlimit.resolve_left hzero)]
  . intro e he
    obtain ⟨front, hfirst⟩ := houtcome.fst_eq_some_iff.1 he
    exact House.isCrash_of_checkpointFault? (fatalFault?_eq_some_iff.1 hfirst.shows).2

/--
A configuration with short intervals, where no failure is borne.
-/
def hasty : Config :=
  { House.nearby with
    cleanupInterval := .ofMillis 2
    checkpointInterval := .ofMillis 3
    failureLimit := .zero }

/--
A house in which the second snapshot cannot be written.
-/
def hurried : House :=
  ⟨.empty, .ofStore (.ofName Store.defaultScope) hasty, ⟨⟨"r"⟩, .empty⟩,
    { Disk.ofDirectory [] 7 with faults := [none, some ⟨.rename, .busy, 0⟩] }⟩

/--
A record comes in before the first timer rings again, and another one long after the work is called off,
which is after seven milliseconds.
-/
def errand : Script House Error :=
  ⟨[(1, ⟨House.firstRecord, .epoch⟩), (9000001, gone)].map bare.arrival, 7000000⟩

/--
The work is given up for the second snapshot, before it would be called off.
-/
theorem run_keeps_timetable_errand :
    ∃ front, (bare.run .coarse errand hurried).1 = some (.file .busy) ∧
      bare.duty.FirstFault House.checkpointFault? (errand.timetable 2000000 3000000) hurried front
        (.file .busy) ∧
      bare.duty.Outcome (bare.fatalFault? .zero) (errand.timetable 2000000 3000000) errand.late hurried
        (bare.run .coarse errand hurried) := by
  have hc : errand.Avoids ((2 : UInt64).toNat * 1000000) := by
    simp [Script.Avoids, errand, arrival]
  have hk : errand.Avoids ((3 : UInt64).toNat * 1000000) := by
    simp [Script.Avoids, errand, arrival]
  have hsteps : ∀ step ∈ errand.steps, bare.Spares step := by
    intro step hstep
    obtain ⟨late, -, rfl⟩ := List.mem_map.1 hstep
    exact spares_arrival lawful_bare late
  obtain ⟨houtcome, -, -, -, -, -, -, -, hfatal, -⟩ :=
    run_keeps_timetable (s := hurried) lawful_bare rfl rfl rfl rfl (Timers.keep_coarse (by decide))
      (Timers.keep_coarse (by decide)) hc hk hsteps
  have hgiven : (bare.run .coarse errand hurried).1 = some (.file .busy) := by
    decide +kernel
  obtain ⟨-, front, hfirst⟩ := (hfatal (.inl rfl) (.file .busy)).1 hgiven
  exact ⟨front, hgiven, hfirst, houtcome⟩

end Premises

end ReadProgress
