import ReadProgress.Proofs.Timetable

/-!
This module contains the proof that the clocks of the work along a script lead through its timetable,
as long as nothing else happens at the times when the timers ring.
-/

namespace ReadProgress

variable {σ ε : Type}

theorem le_of_mem_ticks {period bound start time : Nat} (h : time ∈ ticks period bound start) :
    start ≤ time := by
  obtain ⟨i, -, rfl⟩ := List.mem_range'.1 h
  exact Nat.le_add_right _ _

theorem le_of_mem_head? {steps : List (ScriptStep σ ε)} {time : Nat}
    (h : ∀ step ∈ steps.head?, time ≤ step.time) :
    ∀ next ∈ (steps.map Appointment.ofStep).head?, time ≤ next.time := by
  cases steps with
  | nil => exact fun _ hnext => nomatch hnext
  | cons step steps =>
    rintro _ ⟨⟩
    exact h step rfl

/--
What is still to be done along the steps that are left.
-/
def Clocks.agenda (clocks : Clocks) (periods : Periods) (ending : Nat)
    (steps : List (ScriptStep σ ε)) : Timetable σ ε :=
  (work (ticks periods.cleanup ending clocks.cleanup)
    (ticks periods.checkpoint ending clocks.checkpoint)).merge (steps.map .ofStep)
    Appointment.isInTime

namespace Clocks

variable {clocks : Clocks} {periods : Periods} {ending : Nat} {steps : List (ScriptStep σ ε)}

theorem steps_agenda (clocks : Clocks) (periods : Periods) (ending : Nat)
    (steps : List (ScriptStep σ ε)) :
    Timetable.steps (clocks.agenda periods ending steps) = steps := by
  rw [agenda, steps_merge (steps_work _ _), steps_map_ofStep]

theorem agenda_cleanup (hending : clocks.cleanup < ending)
    (hfirst : clocks.cleanup ≤ clocks.checkpoint)
    (hsteps : ∀ step ∈ steps.head?, clocks.cleanup ≤ step.time) :
    clocks.agenda periods ending steps = ⟨clocks.cleanup, .cleanup⟩ ::
      { clocks with cleanup := clocks.cleanup + periods.cleanup }.agenda periods ending steps := by
  unfold agenda work
  rw [ticks_of_lt periods.cleanup_pos hending, List.map_cons, merge_cons_left, merge_cons_left]
  . exact le_of_mem_head? hsteps
  . intro next hnext
    obtain ⟨time, htime, rfl⟩ := List.mem_map.1 (List.mem_of_mem_head? hnext)
    exact Nat.le_trans hfirst (le_of_mem_ticks htime)

theorem agenda_checkpoint (hending : clocks.checkpoint < ending)
    (hfirst : clocks.checkpoint < clocks.cleanup)
    (hsteps : ∀ step ∈ steps.head?, clocks.checkpoint ≤ step.time) :
    clocks.agenda periods ending steps = ⟨clocks.checkpoint, .checkpoint⟩ ::
      { clocks with checkpoint := clocks.checkpoint + periods.checkpoint }.agenda periods ending
        steps := by
  unfold agenda work
  rw [ticks_of_lt periods.checkpoint_pos hending, List.map_cons, merge_cons_right, merge_cons_left]
  . exact le_of_mem_head? hsteps
  . intro next hnext
    obtain ⟨time, htime, rfl⟩ := List.mem_map.1 (List.mem_of_mem_head? hnext)
    exact Nat.lt_of_lt_of_le hfirst (le_of_mem_ticks htime)

theorem agenda_step {step : ScriptStep σ ε} (hcleanup : step.time < clocks.cleanup)
    (hcheckpoint : step.time < clocks.checkpoint) :
    clocks.agenda periods ending (step :: steps) =
      .ofStep step :: clocks.agenda periods ending steps := by
  unfold agenda
  rw [List.map_cons, merge_cons_right]
  intro next hnext
  rcases (mem_work (List.mem_of_mem_head? hnext)).2 with htime | htime
  . exact Nat.lt_of_lt_of_le hcleanup (le_of_mem_ticks htime)
  . exact Nat.lt_of_lt_of_le hcheckpoint (le_of_mem_ticks htime)

theorem agenda_nil (hcleanup : ending ≤ clocks.cleanup) (hcheckpoint : ending ≤ clocks.checkpoint) :
    clocks.agenda periods ending ([] : List (ScriptStep σ ε)) = [] := by
  simp [agenda, work, ticks_of_le periods.cleanup_pos hcleanup,
    ticks_of_le periods.checkpoint_pos hcheckpoint]

end Clocks

/--
Whether the timers ring on time.
-/
structure Periods.Punctual (periods : Periods) : Prop where
  rings_cleanup : ∀ time, periods.cleanup ∣ time → periods.rings time = time
  rings_checkpoint : ∀ time, periods.checkpoint ∣ time → periods.rings time = time

namespace Clocks

/--
Whether the next cleanup and the next checkpoint are each to be done at the end of one of their
periods.
-/
structure OnBeat (periods : Periods) (clocks : Clocks) : Prop where
  cleanup : periods.cleanup ∣ clocks.cleanup
  checkpoint : periods.checkpoint ∣ clocks.checkpoint

/--
Whether nothing is left to be done before a certain time.
-/
structure IsFreeUntil (clocks : Clocks) (time : Nat) : Prop where
  cleanup : time ≤ clocks.cleanup
  checkpoint : time ≤ clocks.checkpoint

/--
Whether nothing is left to be done in the turn that it is.
-/
def IsSettled (clocks : Clocks) : Prop :=
  clocks.IsFreeUntil (clocks.turn.time + 1)

theorem OnBeat.rings_eq {periods : Periods} {clocks : Clocks} (h : clocks.OnBeat periods)
    (hpunctual : periods.Punctual) :
    periods.rings clocks.cleanup = clocks.cleanup ∧
      periods.rings clocks.checkpoint = clocks.checkpoint :=
  ⟨hpunctual.rings_cleanup _ h.cleanup, hpunctual.rings_checkpoint _ h.checkpoint⟩

theorem IsFreeUntil.mono {clocks : Clocks} {bound time : Nat} (h : clocks.IsFreeUntil time)
    (hbound : bound ≤ time) : clocks.IsFreeUntil bound :=
  ⟨Nat.le_trans hbound h.cleanup, Nat.le_trans hbound h.checkpoint⟩

theorem onBeat_start (periods : Periods) : start.OnBeat periods :=
  ⟨Nat.dvd_zero _, Nat.dvd_zero _⟩

theorem OnBeat.afterCleanup {periods : Periods} {clocks : Clocks} (h : clocks.OnBeat periods)
    (time : Nat) :
    { clocks.moveTo time with cleanup := clocks.cleanup + periods.cleanup }.OnBeat periods :=
  ⟨Nat.dvd_add h.cleanup (Nat.dvd_refl _), h.checkpoint⟩

theorem OnBeat.afterCheckpoint {periods : Periods} {clocks : Clocks} (h : clocks.OnBeat periods)
    (time : Nat) :
    { clocks.moveTo time with checkpoint := clocks.checkpoint + periods.checkpoint }.OnBeat
      periods :=
  ⟨h.cleanup, Nat.dvd_add h.checkpoint (Nat.dvd_refl _)⟩

@[simp]
theorem time_turn_moveTo (clocks : Clocks) (time : Nat) :
    (clocks.moveTo time).turn.time = max time clocks.turn.time := by
  unfold moveTo Turn.next
  dsimp only
  split
  . next heq => exact heq
  . rfl

end Clocks

namespace Duty

variable {duty : Duty σ ε} {periods : Periods} {clocks next : Clocks} {bound ending : Nat}
  {steps : List (ScriptStep σ ε)}

theorem advance_of_isFreeUntil (h : clocks.IsFreeUntil bound) (s : σ) :
    duty.advance periods bound clocks s = (.ok clocks, s) := by
  have hcleanup := Nat.le_trans h.cleanup (periods.le_rings _)
  have hcheckpoint := Nat.le_trans h.checkpoint (periods.le_rings _)
  rw [advance]
  dsimp only
  rw [if_neg (by omega), if_neg (by omega)]

/--
What holds of the clocks when all work has been done before a certain time.
-/
structure Advanced (periods : Periods) (bound : Nat) (clocks next : Clocks) : Prop where
  onBeat : next.OnBeat periods
  isFree : next.IsFreeUntil bound
  cleanup_le : clocks.cleanup ≤ next.cleanup
  checkpoint_le : clocks.checkpoint ≤ next.checkpoint
  turn : next.turn.time = clocks.turn.time ∨ next.turn.time < bound

theorem Advanced.of_moveTo {time : Nat} {clocks' : Clocks} (h : Advanced periods bound clocks' next)
    (hcleanup : clocks.cleanup ≤ clocks'.cleanup)
    (hcheckpoint : clocks.checkpoint ≤ clocks'.checkpoint)
    (hturn : clocks'.turn = (clocks.moveTo time).turn) (htime : time < bound) :
    Advanced periods bound clocks next where
  onBeat := h.onBeat
  isFree := h.isFree
  cleanup_le := Nat.le_trans hcleanup h.cleanup_le
  checkpoint_le := Nat.le_trans hcheckpoint h.checkpoint_le
  turn := by
    have := h.turn
    rw [hturn, Clocks.time_turn_moveTo] at this
    omega

theorem advanced_of_advance (hpunctual : periods.Punctual) (honBeat : clocks.OnBeat periods)
    {s t : σ} (h : duty.advance periods bound clocks s = (.ok next, t)) :
    Advanced periods bound clocks next := by
  fun_induction duty.advance periods bound clocks s with
  | case1 clocks s cleanup checkpoint hcleanup ih =>
    exact (ih (honBeat.afterCleanup cleanup) h).of_moveTo (Nat.le_add_right _ _) (Nat.le_refl _) rfl
      hcleanup.1
  | case2 clocks s cleanup checkpoint hcleanup hcheckpoint e t hfatal => cases h
  | case3 clocks s cleanup checkpoint hcleanup hcheckpoint t hdone ih =>
    exact (ih (honBeat.afterCheckpoint checkpoint) h).of_moveTo (Nat.le_refl _)
      (Nat.le_add_right _ _) rfl hcheckpoint
  | case4 clocks s cleanup checkpoint hcleanup hcheckpoint =>
    obtain ⟨hleft, hright⟩ : cleanup = clocks.cleanup ∧ checkpoint = clocks.checkpoint :=
      honBeat.rings_eq hpunctual
    cases h
    exact ⟨honBeat, ⟨by omega, by omega⟩, Nat.le_refl _, Nat.le_refl _, .inl rfl⟩

theorem carryOut_advance (duty : Duty σ ε) (late : List (ScriptStep σ ε))
    (hpunctual : periods.Punctual) (honBeat : clocks.OnBeat periods) (hbound : bound ≤ ending)
    (hsteps : ∀ step ∈ steps.head?, bound ≤ step.time) (s : σ) :
    duty.carryOut late (clocks.agenda periods ending steps) s =
      match duty.advance periods bound clocks s with
      | (.ok next, s) => duty.carryOut late (next.agenda periods ending steps) s
      | (.error e, s) => duty.giveUp e (steps ++ late) s := by
  -- No step is due before the bound, so what a timer tells to do stands first in the agenda.
  have hlate : ∀ time < bound, ∀ step ∈ steps.head?, time ≤ step.time :=
    fun time htime step hstep => Nat.le_trans (Nat.le_of_lt htime) (hsteps step hstep)
  fun_induction duty.advance periods bound clocks s with
  | case1 clocks s cleanup checkpoint hcleanup ih =>
    rw [← ih (honBeat.afterCleanup cleanup)]
    obtain ⟨hleft, hright⟩ : cleanup = clocks.cleanup ∧ checkpoint = clocks.checkpoint :=
      honBeat.rings_eq hpunctual
    rw [hleft, hright] at hcleanup
    rw [Clocks.agenda_cleanup (by omega) hcleanup.2 (hlate _ hcleanup.1)]
    rfl
  | case2 clocks s cleanup checkpoint hcleanup hcheckpoint e t hfatal =>
    obtain ⟨hleft, hright⟩ : cleanup = clocks.cleanup ∧ checkpoint = clocks.checkpoint :=
      honBeat.rings_eq hpunctual
    rw [hright] at hcheckpoint
    rw [Clocks.agenda_checkpoint (by omega) (by omega) (hlate _ hcheckpoint), carryOut, hfatal]
    dsimp only
    rw [Clocks.steps_agenda]
  | case3 clocks s cleanup checkpoint hcleanup hcheckpoint t hdone ih =>
    rw [← ih (honBeat.afterCheckpoint checkpoint)]
    obtain ⟨hleft, hright⟩ : cleanup = clocks.cleanup ∧ checkpoint = clocks.checkpoint :=
      honBeat.rings_eq hpunctual
    rw [hright] at hcheckpoint
    rw [Clocks.agenda_checkpoint (by omega) (by omega) (hlate _ hcheckpoint), carryOut, hdone]
    rfl
  | case4 clocks s cleanup checkpoint hcleanup hcheckpoint => rfl

/--
What holds of the clocks when all work has been done that comes before a certain time, at which no
timer rings.
-/
structure Reached (periods : Periods) (time : Nat) (clocks next : Clocks) : Prop where
  onBeat : next.OnBeat periods
  isFree : next.IsFreeUntil (time + 1)
  isSettled : next.IsSettled
  keeps : ∀ bound, clocks.IsFreeUntil bound → next.IsFreeUntil bound

theorem Advanced.reached {time : Nat} (h : Advanced periods time clocks next)
    (hcleanup : ¬ periods.cleanup ∣ time) (hcheckpoint : ¬ periods.checkpoint ∣ time)
    (hturn : clocks.turn.time = 0 ∨ clocks.IsSettled) :
    Reached periods time clocks (next.moveTo time) := by
  have hpos : time ≠ 0 := by
    rintro rfl
    exact hcleanup (Nat.dvd_zero _)
  have hleft : time < next.cleanup := by
    refine Nat.lt_of_le_of_ne h.isFree.cleanup ?_
    rintro rfl
    exact hcleanup h.onBeat.cleanup
  have hright : time < next.checkpoint := by
    refine Nat.lt_of_le_of_ne h.isFree.checkpoint ?_
    rintro rfl
    exact hcheckpoint h.onBeat.checkpoint
  have hmore := h.cleanup_le
  have hmore' := h.checkpoint_le
  refine ⟨⟨h.onBeat.cleanup, h.onBeat.checkpoint⟩, ⟨hleft, hright⟩, ?_, ?_⟩
  . -- Either nothing was done and the turn is still the one from before, or it is an earlier one.
    have hlate : max time next.turn.time < next.cleanup ∧
        max time next.turn.time < next.checkpoint := by
      rcases h.turn with hsame | hearly
      . rcases hturn with hzero | hsettled
        . omega
        . have := hsettled.cleanup
          have := hsettled.checkpoint
          omega
      . omega
    unfold Clocks.IsSettled
    rw [Clocks.time_turn_moveTo]
    exact ⟨hlate.1, hlate.2⟩
  . exact fun bound hfree =>
      ⟨Nat.le_trans hfree.cleanup hmore, Nat.le_trans hfree.checkpoint hmore'⟩

theorem reach_cases (duty : Duty σ ε) (steps late : List (ScriptStep σ ε))
    (hpunctual : periods.Punctual) (honBeat : clocks.OnBeat periods) {time : Nat}
    (hcleanup : ¬ periods.cleanup ∣ time) (hcheckpoint : ¬ periods.checkpoint ∣ time)
    (hturn : clocks.turn.time = 0 ∨ clocks.IsSettled) (htime : time ≤ ending)
    (hsteps : ∀ step ∈ steps.head?, time ≤ step.time) (s : σ) :
    (∃ next t, duty.reach periods time clocks s = (.ok next, t) ∧
        Reached periods time clocks next ∧
        duty.carryOut late (clocks.agenda periods ending steps) s =
          duty.carryOut late (next.agenda periods ending steps) t) ∨
      ∃ e t, duty.reach periods time clocks s = (.error e, t) ∧
        duty.carryOut late (clocks.agenda periods ending steps) s =
          duty.giveUp e (steps ++ late) t := by
  have hcarry := duty.carryOut_advance late hpunctual honBeat htime hsteps s
  cases hadvance : duty.advance periods time clocks s with
  | mk result t =>
    rw [hadvance] at hcarry
    rw [reach, hadvance]
    cases result with
    | error e => exact .inr ⟨e, t, rfl, hcarry⟩
    | ok next =>
      have hreached :=
        (advanced_of_advance hpunctual honBeat hadvance).reached hcleanup hcheckpoint hturn
      refine .inl ⟨next.moveTo time, t, ?_, hreached, hcarry⟩
      dsimp only
      split
      . exact advance_of_isFreeUntil hreached.isSettled t
      . rfl

theorem carryOut_ofStep (duty : Duty σ ε) (late : List (ScriptStep σ ε)) (step : ScriptStep σ ε)
    (rest : Timetable σ ε) (s : σ) :
    duty.carryOut late (.ofStep step :: rest) s =
      match step.take s with
      | (none, s) => duty.carryOut late rest s
      | (some e, s) => (some e, s) :=
  rfl

section

variable (hpunctual : periods.Punctual) {cancelAt : Nat}
  (hcancel : ¬ periods.cleanup ∣ cancelAt ∧ ¬ periods.checkpoint ∣ cancelAt)

include hpunctual hcancel

theorem callOff_eq_carryOut (honBeat : clocks.OnBeat periods)
    (hturn : clocks.turn.time = 0 ∨ clocks.IsSettled) (s : σ) :
    duty.callOff periods cancelAt steps clocks s =
      duty.carryOut steps (clocks.agenda periods cancelAt []) s := by
  rw [callOff]
  rcases duty.reach_cases [] steps hpunctual honBeat hcancel.1 hcancel.2 hturn (Nat.le_refl _)
    (by simp) s with ⟨next, t, hreach, hreached, hcarry⟩ | ⟨e, t, hreach, hcarry⟩
  . have hfree := hreached.isFree.mono (Nat.le_succ cancelAt)
    rw [hcarry, hreach, Clocks.agenda_nil hfree.cleanup hfree.checkpoint]
    rfl
  . rw [hcarry, hreach]
    rfl

/-
By induction along the steps. Each of them either comes in time, when it stands first in the agenda, or
it is left for later like all that follow it.
-/
theorem follow_eq_carryOut
    (hsteps : ∀ step ∈ steps, ¬ periods.cleanup ∣ step.time ∧ ¬ periods.checkpoint ∣ step.time)
    (honBeat : clocks.OnBeat periods) (hturn : clocks.turn.time = 0 ∨ clocks.IsSettled) (s : σ) :
    duty.follow periods cancelAt steps clocks s =
      duty.carryOut (steps.dropWhile (·.time ≤ cancelAt))
        (clocks.agenda periods cancelAt (steps.takeWhile (·.time ≤ cancelAt))) s := by
  induction steps generalizing clocks s with
  | nil => exact callOff_eq_carryOut hpunctual hcancel honBeat hturn s
  | cons step steps ih =>
    rw [List.forall_mem_cons] at hsteps
    rw [follow]
    split
    . next hlate =>
      rw [List.dropWhile_cons_of_neg (by simpa using hlate),
        List.takeWhile_cons_of_neg (by simpa using hlate)]
      exact callOff_eq_carryOut hpunctual hcancel honBeat hturn s
    . next hearly =>
      rw [Nat.not_lt] at hearly
      rw [List.dropWhile_cons_of_pos (by simpa using hearly),
        List.takeWhile_cons_of_pos (by simpa using hearly)]
      rcases duty.reach_cases (step :: steps.takeWhile (·.time ≤ cancelAt))
        (steps.dropWhile (·.time ≤ cancelAt)) hpunctual honBeat hsteps.1.1 hsteps.1.2 hturn hearly
        (by simp) s with ⟨next, t, hreach, hreached, hcarry⟩ | ⟨e, t, hreach, hcarry⟩
      . rw [hcarry, Clocks.agenda_step hreached.isFree.cleanup hreached.isFree.checkpoint, hreach,
          carryOut_ofStep]
        dsimp only
        rcases step.take t with ⟨_ | e, u⟩
        . exact ih hsteps.2 hreached.onBeat (.inr hreached.isSettled) u
        . rfl
      . rw [hcarry, hreach, List.cons_append, List.takeWhile_append_dropWhile]

end

/--
Work along a script keeps to its timetable.
-/
theorem run_eq_carryOut (hpunctual : periods.Punctual) {script : Script σ ε}
    (hcleanup : script.Avoids periods.cleanup) (hcheckpoint : script.Avoids periods.checkpoint)
    (s : σ) :
    duty.run periods script s =
      duty.carryOut script.late (script.timetable periods.cleanup periods.checkpoint) s := by
  unfold run Script.late
  split
  . next hcancel =>
    -- There is nothing in the timetable.
    rw [Script.timetable, Script.early, if_pos hcancel, hcancel,
      ticks_of_le periods.cleanup_pos (Nat.le_refl 0),
      ticks_of_le periods.checkpoint_pos (Nat.le_refl 0)]
    simp [work, carryOut]
  . next hcancel =>
    rw [Script.timetable, Script.early, if_neg hcancel]
    apply follow_eq_carryOut hpunctual
      ⟨hcleanup.2.resolve_left hcancel, hcheckpoint.2.resolve_left hcancel⟩
    . exact fun step hstep => ⟨hcleanup.1 step hstep, hcheckpoint.1 step hstep⟩
    . exact Clocks.onBeat_start periods
    . exact .inl rfl

end Duty

end ReadProgress
