import ReadProgress.Error
import ReadProgress.Path
import ReadProgress.Timespan

/-!
This module contains the configuration of the housekeeping.
-/

namespace ReadProgress

structure Config where
  statesPath : Path
  cleanupInterval : Timespan
  checkpointInterval : Timespan
  /-- How long no snapshot may have been written before the housekeeping gives up. -/
  failureLimit : Timespan
deriving DecidableEq, Repr

namespace Config

def default : Config where
  statesPath := ⟨"/var/lib/filestate/registry.json"⟩
  cleanupInterval := .ofMillis 10000
  checkpointInterval := .ofMillis 1000
  failureLimit := .ofMillis 60000

instance : Inhabited Config := ⟨default⟩

/--
Whether two configurations are the same, where paths count by where they lead.
-/
def agrees (config other : Config) : Bool :=
  config.statesPath.agrees other.statesPath &&
    config.cleanupInterval == other.cleanupInterval &&
    config.checkpointInterval == other.checkpointInterval &&
    config.failureLimit == other.failureLimit

def fault? (config : Config) : Option Misconfiguration :=
  if config.statesPath.isEmpty then some .noPath
  else if config.cleanupInterval.isZero then some .noCleanupInterval
  else if config.checkpointInterval.isZero then some .noCheckpointInterval
  else none

theorem fault?_default : default.fault? = none := by
  decide

theorem isEmpty_of_fault? {config : Config} (h : config.fault? = none) :
    config.statesPath.isEmpty = false := by
  unfold fault? at h
  split at h
  . cases h
  . next hpath => simpa using hpath

end Config

end ReadProgress
