/-!
This module contains the schedule of work that is done at fixed intervals, next to a script of steps
that others take. Time passes from one of them to the next, and the work itself takes none.
-/

namespace ReadProgress

/--
The work that is done in states of type `σ`, and that may have to be given up.
-/
structure Duty (σ ε : Type) where
  cleanup : σ → σ
  checkpoint : σ → Option ε × σ
  /-- What is done at the end, and whether the work was given up. -/
  close : Option ε → σ → σ

/--
A step that others take at a certain time, in nanoseconds. It may break everything off.
-/
structure ScriptStep (σ ε : Type) where
  time : Nat
  take : σ → Option ε × σ

/--
Steps that others take one after the other, and when they have the work called off.
-/
structure Script (σ ε : Type) where
  steps : List (ScriptStep σ ε)
  /-- When the work is called off, which may be before all steps are taken. At zero, it is called off
  before it starts. -/
  cancelAt : Nat

/--
Timers, each of which rings again and again. All times are in nanoseconds.
-/
structure Timers where
  /-- How far ahead a timer is set each time, if it is to ring at the end of an interval. -/
  period : Nat → Nat
  /-- When a timer rings that is set to a certain time. -/
  rings : Nat → Nat
  period_pos : ∀ interval, 0 < interval → 0 < period interval
  le_rings : ∀ time, time ≤ rings time

namespace Timers

/--
When a timer rings that counts in milliseconds: with the first full one that is not before its time.
-/
def ringing (time : Nat) : Nat :=
  (time + 999999) / 1000000 * 1000000

/--
Thirty years of 365 days, in nanoseconds.
-/
def farthest : Nat := 946080000000000000

/--
Timers that count in milliseconds and that can be set thirty years ahead, but no farther.
-/
def coarse : Timers where
  period interval := min interval farthest
  rings := ringing
  period_pos := fun _ h => Nat.lt_min.2 ⟨h, by decide⟩
  le_rings := by
    intro time
    unfold ringing
    omega

end Timers

/--
The times between two cleanups and between two checkpoints, and when the timers ring that tell them.
-/
structure Periods where
  cleanup : Nat
  checkpoint : Nat
  rings : Nat → Nat
  cleanup_pos : 0 < cleanup
  checkpoint_pos : 0 < checkpoint
  le_rings : ∀ time, time ≤ rings time

def Timers.periods (timers : Timers) {cleanup checkpoint : Nat} (hcleanup : 0 < cleanup)
    (hcheckpoint : 0 < checkpoint) : Periods where
  cleanup := timers.period cleanup
  checkpoint := timers.period checkpoint
  rings := timers.rings
  cleanup_pos := timers.period_pos _ hcleanup
  checkpoint_pos := timers.period_pos _ hcheckpoint
  le_rings := timers.le_rings

/--
A turn, in which all that is to be done at some time is done. The work may come first in it, or the
steps of others.
-/
structure Turn where
  time : Nat
  isWorkFirst : Bool
deriving DecidableEq, Repr

/--
The turn for a certain time, which is this one or a new one. The order changes with each new turn.
-/
def Turn.next (turn : Turn) (time : Nat) : Turn :=
  if turn.time = time then turn else ⟨time, !turn.isWorkFirst⟩

/--
The times of the next cleanup and the next checkpoint, and the turn that it is.
-/
structure Clocks where
  cleanup : Nat
  checkpoint : Nat
  turn : Turn
deriving DecidableEq, Repr

namespace Clocks

/--
The clocks at the beginning. The first turn is that of the work.
-/
def start : Clocks where
  cleanup := 0
  checkpoint := 0
  turn := ⟨0, true⟩

/--
The clocks when it is a certain time. No time passes if that time is over.
-/
def moveTo (clocks : Clocks) (time : Nat) : Clocks :=
  { clocks with turn := clocks.turn.next (max time clocks.turn.time) }

end Clocks

namespace Duty

variable {σ ε : Type}

/--
Take the steps of a script, up to one that breaks everything off.
-/
def takeAll : List (ScriptStep σ ε) → σ → Option ε × σ
  | [], s => (none, s)
  | step :: steps, s =>
    match step.take s with
    | (some e, s) => (some e, s)
    | (none, s) => takeAll steps s

/--
Do all work whose timers ring before a certain time. Where those of a cleanup and a checkpoint ring
together, the cleanup goes first. The next time is counted from the last one, and not from when the
timer rang.
-/
def advance (duty : Duty σ ε) (periods : Periods) (bound : Nat) (clocks : Clocks) (s : σ) :
    Except ε Clocks × σ :=
  let cleanup := periods.rings clocks.cleanup
  let checkpoint := periods.rings clocks.checkpoint
  if cleanup < bound ∧ cleanup ≤ checkpoint then
    duty.advance periods bound
      { clocks.moveTo cleanup with cleanup := clocks.cleanup + periods.cleanup } (duty.cleanup s)
  else if checkpoint < bound then
    match duty.checkpoint s with
    | (some e, s) => (.error e, s)
    | (none, s) =>
      duty.advance periods bound
        { clocks.moveTo checkpoint with checkpoint := clocks.checkpoint + periods.checkpoint } s
  else
    (.ok clocks, s)
termination_by (bound - clocks.cleanup) + (bound - clocks.checkpoint)
decreasing_by
  . have := periods.cleanup_pos
    have := periods.le_rings clocks.cleanup
    grind [Clocks.moveTo]
  . have := periods.checkpoint_pos
    have := periods.le_rings clocks.checkpoint
    grind [Clocks.moveTo]

def reach (duty : Duty σ ε) (periods : Periods) (time : Nat) (clocks : Clocks) (s : σ) :
    Except ε Clocks × σ :=
  match duty.advance periods time clocks s with
  | (.error e, s) => (.error e, s)
  | (.ok clocks, s) =>
    let clocks := clocks.moveTo time
    if clocks.turn.isWorkFirst then
      duty.advance periods (clocks.turn.time + 1) clocks s
    else
      (.ok clocks, s)

/--
Give the work up: make the end at once, and let others take the steps that are left.
-/
def giveUp (duty : Duty σ ε) (e : ε) (steps : List (ScriptStep σ ε)) (s : σ) : Option ε × σ :=
  let (broken, s) := takeAll steps (duty.close (some e) s)
  (broken.or (some e), s)

/--
Work until it is time to stop, and make the end. The steps that are left are taken after that.
-/
def callOff (duty : Duty σ ε) (periods : Periods) (cancelAt : Nat) (steps : List (ScriptStep σ ε))
    (clocks : Clocks) (s : σ) : Option ε × σ :=
  match duty.reach periods cancelAt clocks s with
  | (.ok _, s) => takeAll steps (duty.close none s)
  | (.error e, s) => duty.giveUp e steps s

/--
Work along a script. Whichever steps are still to come, the work stops at the time when it is called
off. If a step breaks everything off, the work just stops.
-/
def follow (duty : Duty σ ε) (periods : Periods) (cancelAt : Nat) :
    List (ScriptStep σ ε) → Clocks → σ → Option ε × σ
  | [], clocks, s => duty.callOff periods cancelAt [] clocks s
  | step :: steps, clocks, s =>
    if cancelAt < step.time then
      duty.callOff periods cancelAt (step :: steps) clocks s
    else
      match duty.reach periods step.time clocks s with
      | (.ok clocks, s) =>
        match step.take s with
        | (some e, s) => (some e, s)
        | (none, s) => duty.follow periods cancelAt steps clocks s
      | (.error e, s) => duty.giveUp e (step :: steps) s

def run (duty : Duty σ ε) (periods : Periods) (script : Script σ ε) (s : σ) : Option ε × σ :=
  if script.cancelAt = 0 then
    takeAll script.steps (duty.close none s)
  else
    duty.follow periods script.cancelAt script.steps .start s

end Duty

end ReadProgress
