import ReadProgress.Housekeeper.Schedule

/-!
This module contains what holds of all work along a script, whatever the work is. As long as no step
breaks everything off, the work comes to a halt and its end is made afterwards, so that the answer does
not depend on what is done at the end.
-/

namespace ReadProgress

variable {σ ε : Type}

/--
Whether a step never breaks anything off.
-/
def ScriptStep.IsQuiet (step : ScriptStep σ ε) : Prop :=
  ∀ s, (step.take s).1 = none

/--
Where work comes to a halt, before its end is made.
-/
structure Halt (σ ε : Type) where
  /-- Why the work was given up. If it was not, it was called off. -/
  fatal : Option ε
  state : σ
  /-- The steps that have not been taken yet. -/
  left : List (ScriptStep σ ε)

namespace Duty

/--
Why work is given up that goes on until it is a certain time, if it is.
-/
def fatal? : Except ε Clocks → Option ε
  | .ok _ => none
  | .error e => some e

def haltAt (duty : Duty σ ε) (periods : Periods) (cancelAt : Nat) (steps : List (ScriptStep σ ε))
    (clocks : Clocks) (s : σ) : Halt σ ε :=
  let (result, s) := duty.reach periods cancelAt clocks s
  ⟨fatal? result, s, steps⟩

def haltAlong (duty : Duty σ ε) (periods : Periods) (cancelAt : Nat) :
    List (ScriptStep σ ε) → Clocks → σ → Halt σ ε
  | [], clocks, s => duty.haltAt periods cancelAt [] clocks s
  | step :: steps, clocks, s =>
    if cancelAt < step.time then
      duty.haltAt periods cancelAt (step :: steps) clocks s
    else
      match duty.reach periods step.time clocks s with
      | (.ok clocks, s) => duty.haltAlong periods cancelAt steps clocks (step.take s).2
      | (.error e, s) => ⟨some e, s, step :: steps⟩

/--
Where work along a script comes to a halt.
-/
def halt (duty : Duty σ ε) (periods : Periods) (script : Script σ ε) (s : σ) : Halt σ ε :=
  if script.cancelAt = 0 then
    ⟨none, s, script.steps⟩
  else
    duty.haltAlong periods script.cancelAt script.steps .start s

/--
Make the end of work that has come to a halt, and take the steps that are left.
-/
def finish (duty : Duty σ ε) (halt : Halt σ ε) : Option ε × σ :=
  (halt.fatal, (takeAll halt.left (duty.close halt.fatal halt.state)).2)

variable {duty : Duty σ ε} {periods : Periods}

theorem takeAll_of_isQuiet {steps : List (ScriptStep σ ε)} (h : ∀ step ∈ steps, step.IsQuiet)
    (s : σ) : (takeAll steps s).1 = none := by
  induction steps generalizing s with
  | nil => rfl
  | cons step steps ih =>
    rw [List.forall_mem_cons] at h
    have hstep := h.1 s
    unfold takeAll
    generalize step.take s = result at hstep ⊢
    rcases result with ⟨_ | e, t⟩
    . exact ih h.2 t
    . cases hstep

theorem fst_giveUp {steps : List (ScriptStep σ ε)} (h : ∀ step ∈ steps, step.IsQuiet) (e : ε)
    (s : σ) : (duty.giveUp e steps s).1 = some e := by
  change (takeAll steps (duty.close (some e) s)).1.or (some e) = some e
  rw [takeAll_of_isQuiet h, Option.none_or]

theorem giveUp_eq_finish {steps : List (ScriptStep σ ε)} (h : ∀ step ∈ steps, step.IsQuiet) (e : ε)
    (s : σ) : duty.giveUp e steps s = duty.finish ⟨some e, s, steps⟩ :=
  Prod.ext (fst_giveUp h e s) rfl

theorem callOff_eq_finish (cancelAt : Nat) {steps : List (ScriptStep σ ε)}
    (h : ∀ step ∈ steps, step.IsQuiet) (clocks : Clocks) (s : σ) :
    duty.callOff periods cancelAt steps clocks s =
      duty.finish (duty.haltAt periods cancelAt steps clocks s) := by
  rw [callOff, haltAt]
  rcases duty.reach periods cancelAt clocks s with ⟨e | next, t⟩
  . exact giveUp_eq_finish h e t
  . exact Prod.ext (takeAll_of_isQuiet h _) rfl

theorem follow_eq_finish (cancelAt : Nat) {steps : List (ScriptStep σ ε)}
    (h : ∀ step ∈ steps, step.IsQuiet) (clocks : Clocks) (s : σ) :
    duty.follow periods cancelAt steps clocks s =
      duty.finish (duty.haltAlong periods cancelAt steps clocks s) := by
  induction steps generalizing clocks s with
  | nil => exact callOff_eq_finish cancelAt h clocks s
  | cons step steps ih =>
    rw [follow, haltAlong]
    split
    . exact callOff_eq_finish cancelAt h clocks s
    . rcases duty.reach periods step.time clocks s with ⟨e | next, t⟩
      . exact giveUp_eq_finish h e t
      . rw [List.forall_mem_cons] at h
        have hstep := h.1 t
        dsimp only
        generalize step.take t = result at hstep ⊢
        rcases result with ⟨_ | e, u⟩
        . exact ih h.2 next u
        . cases hstep

/--
Where no step breaks everything off, the work comes to a halt, and all else follows from there.
-/
theorem run_eq_finish {script : Script σ ε} (h : ∀ step ∈ script.steps, step.IsQuiet) (s : σ) :
    duty.run periods script s = duty.finish (duty.halt periods script s) := by
  unfold run halt
  split
  . exact Prod.ext (takeAll_of_isQuiet h _) rfl
  . exact follow_eq_finish script.cancelAt h .start s

theorem advance_withClose (close : Option ε → σ → σ) (bound : Nat) (clocks : Clocks) (s : σ) :
    ({ duty with close }).advance periods bound clocks s = duty.advance periods bound clocks s := by
  fun_induction duty.advance periods bound clocks s with
  | case1 clocks s cleanup checkpoint hcleanup ih =>
    rw [advance, if_pos hcleanup]
    exact ih
  | case2 clocks s cleanup checkpoint hcleanup hcheckpoint e t hfatal =>
    rw [advance, if_neg hcleanup, if_pos hcheckpoint]
    simp only [hfatal]
  | case3 clocks s cleanup checkpoint hcleanup hcheckpoint t hdone ih =>
    rw [advance, if_neg hcleanup, if_pos hcheckpoint]
    simp only [hdone]
    exact ih
  | case4 clocks s cleanup checkpoint hcleanup hcheckpoint =>
    rw [advance, if_neg hcleanup, if_neg hcheckpoint]

theorem haltAlong_withClose (close : Option ε → σ → σ) (cancelAt : Nat)
    (steps : List (ScriptStep σ ε)) (clocks : Clocks) (s : σ) :
    ({ duty with close }).haltAlong periods cancelAt steps clocks s =
      duty.haltAlong periods cancelAt steps clocks s := by
  have hreach : ∀ time clocks s,
      ({ duty with close }).reach periods time clocks s = duty.reach periods time clocks s := by
    intro time clocks s
    simp only [reach, advance_withClose]
  induction steps generalizing clocks s with
  | nil => simp only [haltAlong, haltAt, hreach]
  | cons step steps ih => simp only [haltAlong, haltAt, hreach, ih]

theorem halt_withClose (close : Option ε → σ → σ) (script : Script σ ε) (s : σ) :
    ({ duty with close }).halt periods script s = duty.halt periods script s := by
  simp only [halt, haltAlong_withClose]

/--
A course that work may take in which certain steps are taken, from the start to the halt. It is given
up at a checkpoint that says so, and at no other time.
-/
inductive Course (duty : Duty σ ε) : List (ScriptStep σ ε) → σ → Option ε → σ → Prop where
  | refl (s : σ) : Course duty [] s none s
  | cleanup {steps : List (ScriptStep σ ε)} {s t : σ} {fatal : Option ε}
      (h : Course duty steps (duty.cleanup s) fatal t) : Course duty steps s fatal t
  | checkpoint {steps : List (ScriptStep σ ε)} {s next t : σ} {fatal : Option ε}
      (hcheckpoint : duty.checkpoint s = (none, next)) (h : Course duty steps next fatal t) :
      Course duty steps s fatal t
  | giveUp {s t : σ} {e : ε} (hcheckpoint : duty.checkpoint s = (some e, t)) :
      Course duty [] s (some e) t
  | step {steps : List (ScriptStep σ ε)} {step : ScriptStep σ ε} {s t : σ} {fatal : Option ε}
      (h : Course duty steps (step.take s).2 fatal t) : Course duty (step :: steps) s fatal t

theorem Course.trans {front back : List (ScriptStep σ ε)} {s t u : σ} {fatal : Option ε}
    (h : duty.Course front s none t) (hback : duty.Course back t fatal u) :
    duty.Course (front ++ back) s fatal u := by
  generalize hnone : none = calm at h
  induction h with
  | refl s => exact hback
  | cleanup _ ih => exact .cleanup (ih hback hnone)
  | checkpoint hcheckpoint _ ih => exact .checkpoint hcheckpoint (ih hback hnone)
  | giveUp hcheckpoint => cases hnone
  | step _ ih => exact .step (ih hback hnone)

theorem course_advance (duty : Duty σ ε) (periods : Periods) (bound : Nat) (clocks : Clocks) (s : σ) :
    duty.Course [] s (fatal? (duty.advance periods bound clocks s).1)
      (duty.advance periods bound clocks s).2 := by
  fun_induction duty.advance periods bound clocks s with
  | case1 clocks s cleanup checkpoint hcleanup ih => exact .cleanup ih
  | case2 clocks s cleanup checkpoint hcleanup hcheckpoint e t hfatal => exact .giveUp hfatal
  | case3 clocks s cleanup checkpoint hcleanup hcheckpoint t hdone ih => exact .checkpoint hdone ih
  | case4 clocks s cleanup checkpoint hcleanup hcheckpoint => exact .refl s

theorem course_reach (duty : Duty σ ε) (periods : Periods) (time : Nat) (clocks : Clocks) (s : σ) :
    duty.Course [] s (fatal? (duty.reach periods time clocks s).1)
      (duty.reach periods time clocks s).2 := by
  have hfirst := duty.course_advance periods time clocks s
  unfold reach
  generalize duty.advance periods time clocks s = result at hfirst ⊢
  rcases result with ⟨e | next, t⟩
  . exact hfirst
  . dsimp only
    split
    . exact hfirst.trans (duty.course_advance periods _ _ t)
    . exact hfirst

theorem course_haltAlong (cancelAt : Nat) (steps : List (ScriptStep σ ε)) (clocks : Clocks) (s : σ) :
    ∃ taken, steps = taken ++ (duty.haltAlong periods cancelAt steps clocks s).left ∧
      duty.Course taken s (duty.haltAlong periods cancelAt steps clocks s).fatal
        (duty.haltAlong periods cancelAt steps clocks s).state := by
  induction steps generalizing clocks s with
  | nil => exact ⟨[], rfl, duty.course_reach periods cancelAt clocks s⟩
  | cons step steps ih =>
    rw [haltAlong]
    split
    . exact ⟨[], rfl, duty.course_reach periods cancelAt clocks s⟩
    . have hreach := duty.course_reach periods step.time clocks s
      generalize duty.reach periods step.time clocks s = result at hreach ⊢
      rcases result with ⟨e | next, t⟩
      . exact ⟨[], rfl, hreach⟩
      . obtain ⟨taken, hsplit, hcourse⟩ := ih next (step.take t).2
        exact ⟨step :: taken, congrArg (step :: ·) hsplit, hreach.trans (.step hcourse)⟩

/--
Up to its halt, work takes a course in which the steps are taken that are not left.
-/
theorem course_halt (duty : Duty σ ε) (periods : Periods) (script : Script σ ε) (s : σ) :
    ∃ taken, script.steps = taken ++ (duty.halt periods script s).left ∧
      duty.Course taken s (duty.halt periods script s).fatal
        (duty.halt periods script s).state := by
  unfold halt
  split
  . exact ⟨[], rfl, .refl s⟩
  . exact course_haltAlong script.cancelAt script.steps .start s

end Duty

end ReadProgress
