import ReadProgress.Housekeeper
import ReadProgress.Housekeeper.Schedule

/-!
This module contains the work of a housekeeper from the start until it is called off or given up.
-/

namespace ReadProgress

/--
How a house is seen in states of type `σ`, which may hold more than that.
-/
structure Premises (σ : Type) where
  house : σ → House
  setHouse : House → σ → σ
  /-- Look at the clock. -/
  now : σ → Timestamp × σ
  /-- Look at a clock that is never set, in nanoseconds. -/
  instant : σ → Nat × σ
  report : List Event → σ → σ

namespace Premises

variable {σ : Type}

def cleanup (premises : Premises σ) (s : σ) : σ :=
  let (now, s) := premises.now s
  let (tidying, house) := (premises.house s).cleanup now
  premises.report tidying.events (premises.setHouse house s)

/--
Write a snapshot, as it is done from time to time. It takes two looks at the clock to tell for how long
that has failed: when the failure is noted, and when it is measured how long it has lasted.
-/
def checkpoint (premises : Premises σ) (s : σ) : Option Error × σ :=
  let (noted, s) := premises.instant s
  let (measured, s) := premises.instant s
  let (checkpoint, house) := (premises.house s).periodicCheckpoint noted measured
  (checkpoint.fatal?, premises.report checkpoint.events (premises.setHouse house s))

def close (premises : Premises σ) (fatal : Option Error) (s : σ) : σ :=
  let s := if fatal.isNone then premises.report [.cancelled] s else s
  let s := premises.cleanup s
  let (events, house) := (premises.house s).lastCheckpoint
  premises.report events (premises.setHouse house s)

def duty (premises : Premises σ) : Duty σ Error where
  cleanup := premises.cleanup
  checkpoint := premises.checkpoint
  close := premises.close

/--
Have the housekeeper work along a script. The answer is the error for which the work was given up or
broken off, if it was. Where there is no time in between, nothing is done, and no step of the script
is taken.
-/
def run (premises : Premises σ) (timers : Timers) (script : Script σ Error) (s : σ) :
    Option Error × σ :=
  let s := premises.report [.started] s
  let config := (premises.house s).keeper.config
  if h : 0 < config.cleanupInterval.toNanos ∧ 0 < config.checkpointInterval.toNanos then
    premises.duty.run (timers.periods h.1 h.2) script s
  else
    (some (.crash .zeroPeriod), s)

end Premises

end ReadProgress
