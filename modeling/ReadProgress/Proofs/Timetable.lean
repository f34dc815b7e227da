import ReadProgress.Proofs.Schedule

/-!
This module contains the timetable of the work along a script: a cleanup and a checkpoint once in
each of their periods, merged by time with the steps that others take. Keeping to it is giving it up
at the first checkpoint that says so, and going through it to the end otherwise.
-/

namespace ReadProgress

variable {σ ε : Type}

/--
The times from `start` on at which something is done once in each period, as far as they lie below a
bound.
-/
def ticks (period bound start : Nat) : List Nat :=
  List.range' start ((bound - start + (period - 1)) / period) period

theorem ticks_of_le {period bound start : Nat} (hperiod : 0 < period) (h : bound ≤ start) :
    ticks period bound start = [] := by
  rw [ticks, Nat.div_eq_of_lt (by omega), List.range'_zero]

theorem ticks_of_lt {period bound start : Nat} (hperiod : 0 < period) (h : start < bound) :
    ticks period bound start = start :: ticks period bound (start + period) := by
  have hcount : (bound - start + (period - 1)) / period =
      (bound - (start + period) + (period - 1)) / period + 1 := by
    rcases Nat.le_total bound (start + period) with hle | hle
    . rw [Nat.div_eq_of_lt (a := bound - (start + period) + (period - 1)) (by omega)]
      exact Nat.div_eq_of_lt_le (by omega) (by omega)
    . rw [← Nat.add_div_right _ hperiod]
      congr 1
      omega
  rw [ticks, hcount, List.range'_succ]
  rfl

theorem pairwise_ticks {period : Nat} (hperiod : 0 < period) (bound start : Nat) :
    (ticks period bound start).Pairwise (· < ·) :=
  List.pairwise_lt_range' period hperiod

theorem mem_ticks_iff {period bound time : Nat} (hperiod : 0 < period) :
    time ∈ ticks period bound 0 ↔ time < bound ∧ period ∣ time := by
  rw [ticks, List.mem_range']
  constructor
  . rintro ⟨i, hi, rfl⟩
    rw [Nat.lt_div_iff_mul_lt hperiod] at hi
    refine ⟨?_, Nat.dvd_add (Nat.dvd_zero _) (Nat.dvd_mul_right _ _)⟩
    rw [Nat.mul_comm] at hi
    omega
  . rintro ⟨hbound, i, rfl⟩
    refine ⟨i, ?_, by omega⟩
    rw [Nat.lt_div_iff_mul_lt hperiod, Nat.mul_comm]
    omega

/--
What is done while a housekeeper is at work.
-/
inductive Operation (σ ε : Type) where
  | cleanup
  | checkpoint
  | step (step : ScriptStep σ ε)

/--
What is to be done at a certain time.
-/
structure Appointment (σ ε : Type) where
  time : Nat
  operation : Operation σ ε

/--
Whether an appointment is not later than another one.
-/
def Appointment.isInTime (appointment other : Appointment σ ε) : Bool :=
  appointment.time ≤ other.time

/--
The step that is taken, if it is one of a script.
-/
def Appointment.step? (appointment : Appointment σ ε) : Option (ScriptStep σ ε) :=
  match appointment.operation with
  | .cleanup | .checkpoint => none
  | .step step => some step

/--
Whether an appointment is to be kept before another one, since it is earlier, since a cleanup goes
before a checkpoint, or since both of them are steps that others take in this order.
-/
def Appointment.Precedes (appointment other : Appointment σ ε) : Prop :=
  appointment.time < other.time ∨ appointment.time = other.time ∧
    (appointment.operation = .cleanup ∧ other.operation = .checkpoint ∨
      appointment.step?.isSome = true ∧ other.step?.isSome = true)

def Appointment.ofStep (step : ScriptStep σ ε) : Appointment σ ε where
  time := step.time
  operation := .step step

abbrev Timetable (σ ε : Type) := List (Appointment σ ε)

def Timetable.steps (table : Timetable σ ε) : List (ScriptStep σ ε) :=
  table.filterMap Appointment.step?

theorem Timetable.mem_steps {table : Timetable σ ε} {step : ScriptStep σ ε} :
    step ∈ table.steps ↔ ∃ appointment ∈ table, appointment.operation = .step step := by
  have hstep : ∀ appointment : Appointment σ ε,
      appointment.step? = some step ↔ appointment.operation = .step step := by
    rintro ⟨time, _ | _ | other⟩ <;> simp [Appointment.step?]
  simp only [steps, List.mem_filterMap, hstep]

/--
Cleanups and checkpoints at certain times. Where both are to be done at one time, the cleanup goes
first.
-/
def work (cleanups checkpoints : List Nat) : Timetable σ ε :=
  (cleanups.map (⟨·, .cleanup⟩)).merge (checkpoints.map (⟨·, .checkpoint⟩)) Appointment.isInTime

/--
The steps of a script that are taken while the work goes on, and those that come after it.
-/
def Script.early (script : Script σ ε) : List (ScriptStep σ ε) :=
  if script.cancelAt = 0 then [] else script.steps.takeWhile (·.time ≤ script.cancelAt)

def Script.late (script : Script σ ε) : List (ScriptStep σ ε) :=
  if script.cancelAt = 0 then script.steps else script.steps.dropWhile (·.time ≤ script.cancelAt)

theorem Script.early_append_late (script : Script σ ε) :
    script.early ++ script.late = script.steps := by
  unfold early late
  split
  . rfl
  . exact List.takeWhile_append_dropWhile

theorem Script.mem_steps_of_mem_early {script : Script σ ε} {step : ScriptStep σ ε}
    (h : step ∈ script.early) : step ∈ script.steps := by
  rw [← early_append_late]
  exact List.mem_append_left _ h

/--
The timetable of the work along a script, given the times between two cleanups and between two
checkpoints.
-/
def Script.timetable (script : Script σ ε) (cleanup checkpoint : Nat) : Timetable σ ε :=
  (work (ticks cleanup script.cancelAt 0) (ticks checkpoint script.cancelAt 0)).merge
    (script.early.map .ofStep) Appointment.isInTime

/--
Whether nothing happens along a script at the times of something that is done once in a period.
-/
def Script.Avoids (script : Script σ ε) (period : Nat) : Prop :=
  (∀ step ∈ script.steps, ¬ period ∣ step.time) ∧
    (script.cancelAt = 0 ∨ ¬ period ∣ script.cancelAt)

namespace Duty

def perform (duty : Duty σ ε) : Operation σ ε → σ → σ
  | .cleanup, s => duty.cleanup s
  | .checkpoint, s => (duty.checkpoint s).2
  | .step step, s => (step.take s).2

/--
The state when all in a timetable has been done, whatever came of it.
-/
def after (duty : Duty σ ε) (table : Timetable σ ε) (s : σ) : σ :=
  table.foldl (fun s appointment => duty.perform appointment.operation s) s

/--
Where the first checkpoint stands in a timetable at which something is wrong, and what that is.
-/
structure FirstFault (duty : Duty σ ε) (fault? : σ → Option ε) (table : Timetable σ ε) (s : σ)
    (front : Timetable σ ε) (e : ε) : Prop where
  scheduled : ∃ time back, table = front ++ ⟨time, .checkpoint⟩ :: back
  shows : fault? (duty.after front s) = some e
  first : ∀ earlier time later, front = earlier ++ ⟨time, .checkpoint⟩ :: later →
    fault? (duty.after earlier s) = none

/--
What comes of work that follows a timetable. Either all in it is done, and the end is made after that, or
the end is made right after the first checkpoint at which something is wrong. The steps that are still to
come are taken afterwards.
-/
inductive Outcome (duty : Duty σ ε) (fault? : σ → Option ε) (table : Timetable σ ε)
    (late : List (ScriptStep σ ε)) (s : σ) : Option ε × σ → Prop where
  | calledOff (hcalm : ∀ front e, ¬ duty.FirstFault fault? table s front e) :
      Outcome duty fault? table late s
        (none, duty.after (late.map .ofStep) (duty.close none (duty.after table s)))
  | givenUp {front back : Timetable σ ε} {time : Nat} {e : ε}
      (hsplit : table = front ++ ⟨time, .checkpoint⟩ :: back)
      (hfirst : duty.FirstFault fault? table s front e) :
      Outcome duty fault? table late s
        (some e, duty.after ((Timetable.steps back ++ late).map .ofStep)
          (duty.close (some e) (duty.after (front ++ [⟨time, .checkpoint⟩]) s)))

/--
Keep to a timetable, and make the end when all is done or the work is given up. Some steps come after
that. If a step breaks everything off, the work just stops.
-/
def carryOut (duty : Duty σ ε) (late : List (ScriptStep σ ε)) : Timetable σ ε → σ → Option ε × σ
  | [], s => takeAll late (duty.close none s)
  | ⟨_, .cleanup⟩ :: rest, s => duty.carryOut late rest (duty.cleanup s)
  | ⟨_, .checkpoint⟩ :: rest, s =>
    match duty.checkpoint s with
    | (none, s) => duty.carryOut late rest s
    | (some e, s) => duty.giveUp e (Timetable.steps rest ++ late) s
  | ⟨_, .step step⟩ :: rest, s =>
    match step.take s with
    | (none, s) => duty.carryOut late rest s
    | (some e, s) => (some e, s)

end Duty

section

variable {table other : Timetable σ ε} {appointment next : Appointment σ ε}

theorem merge_cons_left (h : ∀ next ∈ other.head?, appointment.time ≤ next.time) :
    (appointment :: table).merge other Appointment.isInTime =
      appointment :: table.merge other Appointment.isInTime := by
  cases other with
  | nil => simp
  | cons next other => exact List.cons_merge_cons_pos _ _ _ (decide_eq_true (h next rfl))

theorem merge_cons_right (h : ∀ next ∈ table.head?, appointment.time < next.time) :
    table.merge (appointment :: other) Appointment.isInTime =
      appointment :: table.merge other Appointment.isInTime := by
  cases table with
  | nil => simp
  | cons next table =>
    refine List.cons_merge_cons_neg _ _ _ ?_
    have := h next rfl
    simp only [Appointment.isInTime, decide_eq_true_eq]
    omega

theorem steps_merge (h : table.steps = []) :
    Timetable.steps (table.merge other Appointment.isInTime) = other.steps := by
  induction table generalizing other with
  | nil => simp
  | cons appointment table ih =>
    obtain ⟨hhead, htable⟩ : appointment.step? = none ∧ Timetable.steps table = [] := by
      cases hstep : appointment.step? with
      | none => exact ⟨rfl, by simpa [Timetable.steps, hstep] using h⟩
      | some step => simp [Timetable.steps, hstep] at h
    induction other with
    | nil =>
      rw [List.merge_right]
      exact h
    | cons next other ih' =>
      by_cases hle : appointment.isInTime next
      . rw [List.cons_merge_cons_pos _ _ _ hle]
        simp only [Timetable.steps, List.filterMap_cons, hhead]
        exact ih htable
      . rw [List.cons_merge_cons_neg _ _ _ hle]
        simp only [Timetable.steps, List.filterMap_cons]
        unfold Timetable.steps at ih'
        rw [ih']

theorem Appointment.Precedes.time_le (h : appointment.Precedes next) :
    appointment.time ≤ next.time := by
  rcases h with hlt | ⟨heq, -⟩
  . exact Nat.le_of_lt hlt
  . exact Nat.le_of_eq heq

/-
What comes from one of the timetables goes first where the times are the same, so it has to precede what
comes from the other one.
-/
theorem pairwise_merge (h : table.Pairwise Appointment.Precedes)
    (hother : other.Pairwise Appointment.Precedes)
    (htie : ∀ a ∈ table, ∀ b ∈ other, a.time = b.time → a.Precedes b) :
    (table.merge other Appointment.isInTime).Pairwise Appointment.Precedes := by
  induction table generalizing other with
  | nil => simpa using hother
  | cons appointment table ih =>
    induction other with
    | nil => simpa using h
    | cons next other ih' =>
      have hall := List.pairwise_cons.1 h
      have hall' := List.pairwise_cons.1 hother
      by_cases hle : appointment.isInTime next
      . rw [List.cons_merge_cons_pos _ _ _ hle]
        have hle := of_decide_eq_true hle
        refine List.pairwise_cons.2 ⟨?_, ih hall.2 hother fun a ha => htie a (List.mem_cons_of_mem _ ha)⟩
        intro later hlater
        rcases List.mem_merge.1 hlater with hlater | hlater
        . exact hall.1 later hlater
        . have hafter : next.time ≤ later.time := by
            rcases List.mem_cons.1 hlater with rfl | hlater
            . exact Nat.le_refl _
            . exact (hall'.1 later hlater).time_le
          rcases Nat.lt_or_eq_of_le (Nat.le_trans hle hafter) with hlt | heq
          . exact .inl hlt
          . exact htie _ List.mem_cons_self later hlater heq
      . rw [List.cons_merge_cons_neg _ _ _ hle]
        have hlt : next.time < appointment.time := by
          simpa [Appointment.isInTime] using hle
        refine List.pairwise_cons.2
          ⟨?_, ih' hall'.2 fun a ha b hb => htie a ha b (List.mem_cons_of_mem _ hb)⟩
        intro later hlater
        rcases List.mem_merge.1 hlater with hlater | hlater
        . left
          rcases List.mem_cons.1 hlater with rfl | hlater
          . exact hlt
          . exact Nat.lt_of_lt_of_le hlt (hall.1 later hlater).time_le
        . exact hall'.1 later hlater

end

theorem mem_work {cleanups checkpoints : List Nat} {appointment : Appointment σ ε}
    (h : appointment ∈ work cleanups checkpoints) :
    appointment.step? = none ∧
      (appointment.time ∈ cleanups ∨ appointment.time ∈ checkpoints) := by
  rcases List.mem_merge.1 h with h | h
  . obtain ⟨time, htime, rfl⟩ := List.mem_map.1 h
    exact ⟨rfl, .inl htime⟩
  . obtain ⟨time, htime, rfl⟩ := List.mem_map.1 h
    exact ⟨rfl, .inr htime⟩

theorem steps_work (cleanups checkpoints : List Nat) :
    Timetable.steps (work cleanups checkpoints : Timetable σ ε) = [] :=
  List.filterMap_eq_nil_iff.2 fun _ hmem => (mem_work hmem).1

theorem steps_map_ofStep (steps : List (ScriptStep σ ε)) :
    Timetable.steps (steps.map .ofStep) = steps := by
  rw [Timetable.steps, List.filterMap_map]
  exact List.filterMap_some

section

variable {script : Script σ ε} {cleanup checkpoint time : Nat}

theorem cleanup_mem_timetable_iff (hperiod : 0 < cleanup) :
    ⟨time, .cleanup⟩ ∈ script.timetable cleanup checkpoint ↔
      time < script.cancelAt ∧ cleanup ∣ time := by
  simp [Script.timetable, work, List.mem_merge, mem_ticks_iff hperiod, Appointment.ofStep]

theorem checkpoint_mem_timetable_iff (hperiod : 0 < checkpoint) :
    ⟨time, .checkpoint⟩ ∈ script.timetable cleanup checkpoint ↔
      time < script.cancelAt ∧ checkpoint ∣ time := by
  simp [Script.timetable, work, List.mem_merge, mem_ticks_iff hperiod, Appointment.ofStep]

theorem steps_timetable : Timetable.steps (script.timetable cleanup checkpoint) = script.early := by
  rw [Script.timetable, steps_merge (steps_work _ _), steps_map_ofStep]

/--
All in a timetable stands there once and in its order, as long as the steps do and none of them is
taken when a timer rings.
-/
theorem pairwise_timetable (hcleanup : 0 < cleanup) (hcheckpoint : 0 < checkpoint)
    (hc : script.Avoids cleanup) (hk : script.Avoids checkpoint)
    (h : script.steps.Pairwise (·.time ≤ ·.time)) :
    (script.timetable cleanup checkpoint).Pairwise Appointment.Precedes := by
  apply pairwise_merge
  . apply pairwise_merge
    . exact List.pairwise_map.2 ((pairwise_ticks hcleanup _ _).imp .inl)
    . exact List.pairwise_map.2 ((pairwise_ticks hcheckpoint _ _).imp .inl)
    . intro a ha b hb heq
      obtain ⟨time, -, rfl⟩ := List.mem_map.1 ha
      obtain ⟨time', -, rfl⟩ := List.mem_map.1 hb
      exact .inr ⟨heq, .inl ⟨rfl, rfl⟩⟩
  . apply List.pairwise_map.2
    rw [← script.early_append_late] at h
    apply (List.pairwise_append.1 h).1.imp
    intro a b hle
    rcases Nat.lt_or_eq_of_le hle with hlt | heq
    . exact .inl hlt
    . exact .inr ⟨heq, .inr ⟨rfl, rfl⟩⟩
  . -- No step is taken at the time of any work.
    intro a ha b hb heq
    obtain ⟨step, hstep, rfl⟩ := List.mem_map.1 hb
    have hmem := Script.mem_steps_of_mem_early hstep
    have htime : a.time = step.time := heq
    rcases (mem_work ha).2 with hwork | hwork
    . rw [mem_ticks_iff hcleanup, htime] at hwork
      exact absurd hwork.2 (hc.1 step hmem)
    . rw [mem_ticks_iff hcheckpoint, htime] at hwork
      exact absurd hwork.2 (hk.1 step hmem)

end

namespace Duty

variable {duty : Duty σ ε}

namespace FirstFault

variable {fault? : σ → Option ε} {table front : Timetable σ ε} {s : σ} {e : ε}

theorem head (h : fault? s = some e) (time : Nat) :
    duty.FirstFault fault? (⟨time, .checkpoint⟩ :: table) s [] e where
  scheduled := ⟨time, table, rfl⟩
  shows := h
  first := by
    intro earlier ringing later hsplit
    cases earlier <;> cases hsplit

theorem cons {appointment : Appointment σ ε}
    (hcalm : appointment.operation = .checkpoint → fault? s = none)
    (h : duty.FirstFault fault? table (duty.perform appointment.operation s) front e) :
    duty.FirstFault fault? (appointment :: table) s (appointment :: front) e where
  scheduled := by
    obtain ⟨time, back, rfl⟩ := h.scheduled
    exact ⟨time, back, rfl⟩
  shows := h.shows
  first := by
    intro earlier time later hsplit
    cases earlier with
    | nil =>
      cases hsplit
      exact hcalm rfl
    | cons head earlier =>
      cases hsplit
      exact h.first earlier time later rfl

end FirstFault

theorem exists_firstFault_cons {fault? : σ → Option ε} {time : Nat} {operation : Operation σ ε}
    {table : Timetable σ ε} {s : σ} {e : ε} :
    (∃ front, duty.FirstFault fault? (⟨time, operation⟩ :: table) s front e) ↔
      operation = .checkpoint ∧ fault? s = some e ∨
        (operation = .checkpoint → fault? s = none) ∧
          ∃ front, duty.FirstFault fault? table (duty.perform operation s) front e := by
  constructor
  . rintro ⟨front, ⟨ringing, back, hsplit⟩, hshows, hfirst⟩
    cases front with
    | nil =>
      cases hsplit
      exact .inl ⟨rfl, hshows⟩
    | cons head front =>
      cases hsplit
      refine .inr ⟨?_, front, ⟨ringing, back, rfl⟩, hshows, ?_⟩
      . rintro rfl
        exact hfirst [] time front rfl
      . rintro earlier ringing' later rfl
        exact hfirst (⟨time, operation⟩ :: earlier) ringing' later rfl
  . rintro (⟨rfl, hshows⟩ | ⟨hcalm, front, hfirst⟩)
    . exact ⟨[], .head hshows time⟩
    . exact ⟨_, .cons hcalm hfirst⟩

theorem FirstFault.congr {fault? other? : σ → Option ε} {table front : Timetable σ ε} {s : σ}
    {e : ε} (h : duty.FirstFault fault? table s front e)
    (heq : ∀ front time back, table = front ++ ⟨time, .checkpoint⟩ :: back →
      fault? (duty.after front s) = other? (duty.after front s)) :
    duty.FirstFault other? table s front e := by
  obtain ⟨⟨time, back, rfl⟩, hshows, hfirst⟩ := h
  refine ⟨⟨time, back, rfl⟩, ?_, ?_⟩
  . rw [← heq front time back rfl, hshows]
  . rintro earlier time' later rfl
    rw [← heq earlier time' (later ++ ⟨time, .checkpoint⟩ :: back) (by simp)]
    exact hfirst earlier time' later rfl

theorem not_firstFault_nil {fault? : σ → Option ε} {s : σ} {front : Timetable σ ε} {e : ε} :
    ¬ duty.FirstFault fault? [] s front e := by
  rintro ⟨⟨time, back, hsplit⟩, -, -⟩
  cases front <;> cases hsplit

theorem eq_of_firstFault {fault? : σ → Option ε} {table front front' : Timetable σ ε} {s : σ}
    {e e' : ε} (h : duty.FirstFault fault? table s front e)
    (h' : duty.FirstFault fault? table s front' e') : e = e' := by
  induction table generalizing s front front' with
  | nil => exact absurd h not_firstFault_nil
  | cons appointment table ih =>
    rcases exists_firstFault_cons.1 ⟨front, h⟩ with ⟨hcheckpoint, hshows⟩ | ⟨hcalm, _, hfirst⟩ <;>
      rcases exists_firstFault_cons.1 ⟨front', h'⟩ with ⟨hcheckpoint', hshows'⟩ | ⟨hcalm', _, hfirst'⟩
    . rw [hshows] at hshows'
      exact Option.some.inj hshows'
    . rw [hcalm' hcheckpoint] at hshows
      cases hshows
    . rw [hcalm hcheckpoint'] at hshows'
      cases hshows'
    . exact ih hfirst hfirst'

namespace Outcome

variable {fault? : σ → Option ε} {table : Timetable σ ε} {late : List (ScriptStep σ ε)} {s : σ}
  {result : Option ε × σ}

/--
The work is given up for what is wrong at the first checkpoint that says so, and for nothing else.
-/
theorem fst_eq_some_iff (h : duty.Outcome fault? table late s result) {e : ε} :
    result.1 = some e ↔ ∃ front, duty.FirstFault fault? table s front e := by
  cases h with
  | calledOff hcalm => simp [hcalm]
  | @givenUp front back time fault hsplit hfirst =>
    rw [Option.some.injEq]
    constructor
    . rintro rfl
      exact ⟨front, hfirst⟩
    . rintro ⟨front', hfirst'⟩
      exact eq_of_firstFault hfirst hfirst'

theorem congr {other? : σ → Option ε} (h : duty.Outcome fault? table late s result)
    (heq : ∀ front time back, table = front ++ ⟨time, .checkpoint⟩ :: back →
      fault? (duty.after front s) = other? (duty.after front s)) :
    duty.Outcome other? table late s result := by
  cases h with
  | calledOff hcalm =>
    refine .calledOff fun front e hfirst => hcalm front e (hfirst.congr ?_)
    exact fun front time back hsplit => (heq front time back hsplit).symm
  | givenUp hsplit hfirst => exact .givenUp hsplit (hfirst.congr heq)

theorem cons {appointment : Appointment σ ε}
    (hcalm : appointment.operation = .checkpoint → fault? s = none)
    (h : duty.Outcome fault? table late (duty.perform appointment.operation s) result) :
    duty.Outcome fault? (appointment :: table) late s result := by
  cases h with
  | calledOff hnone =>
    refine .calledOff fun front e hfirst => ?_
    rcases exists_firstFault_cons.1 ⟨front, hfirst⟩ with ⟨hcheckpoint, hshows⟩ | ⟨-, front', hfirst'⟩
    . rw [hcalm hcheckpoint] at hshows
      cases hshows
    . exact hnone front' e hfirst'
  | givenUp hsplit hfirst =>
    exact .givenUp (congrArg (appointment :: ·) hsplit) (.cons hcalm hfirst)

end Outcome

theorem takeAll_eq_after {steps : List (ScriptStep σ ε)} (hquiet : ∀ step ∈ steps, step.IsQuiet)
    (s : σ) : takeAll steps s = (none, duty.after (steps.map .ofStep) s) := by
  induction steps generalizing s with
  | nil => rfl
  | cons step steps ih =>
    rw [List.forall_mem_cons] at hquiet
    have hstep := hquiet.1 s
    have hrest := ih hquiet.2 (step.take s).2
    rw [takeAll]
    change _ = (none, duty.after (steps.map .ofStep) (step.take s).2)
    generalize step.take s = result at hstep hrest ⊢
    rcases result with ⟨_ | e, t⟩
    . exact hrest
    . cases hstep

/--
Keeping to a timetable comes to what is said of it, whatever is wrong at its checkpoints.
-/
theorem outcome_carryOut {table : Timetable σ ε} {late : List (ScriptStep σ ε)}
    (hquiet : ∀ step ∈ table.steps ++ late, step.IsQuiet) (s : σ) :
    duty.Outcome (fun s => (duty.checkpoint s).1) table late s (duty.carryOut late table s) := by
  fun_induction duty.carryOut late table s with
  | case1 s =>
    have hlate : ∀ step ∈ late, step.IsQuiet := hquiet
    rw [takeAll_eq_after hlate]
    exact .calledOff fun _ _ => not_firstFault_nil
  | case2 time rest s ih => exact .cons nofun (ih hquiet)
  | case3 time rest s t hdone ih =>
    have hnext : t = duty.perform .checkpoint s := by rw [perform, hdone]
    refine .cons (fun _ => by rw [hdone]) ?_
    rw [← hnext]
    exact ih hquiet
  | case4 time rest s fault t hfatal =>
    have hleft : ∀ step ∈ Timetable.steps rest ++ late, step.IsQuiet := hquiet
    have hnext : t = duty.after [⟨time, .checkpoint⟩] s := by
      change t = (duty.checkpoint s).2
      rw [hfatal]
    have hfirst : duty.FirstFault (fun s => (duty.checkpoint s).1) (⟨time, .checkpoint⟩ :: rest) s []
        fault := by
      refine .head ?_ time
      rw [hfatal]
    rw [giveUp, takeAll_eq_after hleft, hnext]
    exact .givenUp (List.nil_append _).symm hfirst
  | case5 time step rest s t hdone ih =>
    have hnext : t = duty.perform (.step step) s := by rw [perform, hdone]
    refine .cons nofun ?_
    rw [← hnext]
    exact ih fun step hstep => hquiet step (List.mem_cons_of_mem _ hstep)
  | case6 time step rest s fault t hbroken =>
    have := hquiet step List.mem_cons_self s
    rw [hbroken] at this
    cases this

end Duty

end ReadProgress
