import ReadProgress.Config
import ReadProgress.Json.Decoder

/-!
This module contains the options that a configuration is made from, as they are given on the command
line and in files.
-/

namespace ReadProgress

/--
The options. Times are in milliseconds.
-/
structure Options where
  path : Path
  cleanupMillis : UInt64
  checkpointMillis : UInt64
  failureMillis : UInt64
deriving DecidableEq, Repr

namespace Options

def default : Options where
  path := ⟨"/var/lib/filestate/registry.json"⟩
  cleanupMillis := 10000
  checkpointMillis := 1000
  failureMillis := 60000

instance : Inhabited Options := ⟨default⟩

/--
Whether two choices of options are the same, where paths count by where they lead.
-/
def agrees (options other : Options) : Bool :=
  options.path.agrees other.path && options.cleanupMillis == other.cleanupMillis &&
    options.checkpointMillis == other.checkpointMillis &&
    options.failureMillis == other.failureMillis

def toConfig (options : Options) : Config where
  statesPath := options.path
  cleanupInterval := .ofMillis options.cleanupMillis
  checkpointInterval := .ofMillis options.checkpointMillis
  failureLimit := .ofMillis options.failureMillis

theorem toConfig_default : default.toConfig = .default := by
  decide

structure Parts where
  path : Option Path
  cleanupMillis : Option UInt64
  checkpointMillis : Option UInt64
  failureMillis : Option UInt64

/--
The form of options. Each of them may be missing.
-/
def form : Json.RecordForm Parts Options where
  title := "RegistryArgs"
  fields := [
    ⟨"registry_path",
      (Json.Decoder.parsed "path string" fun text => .ok (Path.mk text)).map fun x parts =>
        { parts with path := some x },
      (·.path.isSome), true⟩,
    ⟨"registry_cleanup_interval_ms",
      Json.Decoder.uint64.map fun x parts => { parts with cleanupMillis := some x },
      (·.cleanupMillis.isSome), true⟩,
    ⟨"registry_checkpoint_interval_ms",
      Json.Decoder.uint64.map fun x parts => { parts with checkpointMillis := some x },
      (·.checkpointMillis.isSome), true⟩,
    ⟨"registry_max_checkpoint_failure_duration_ms",
      Json.Decoder.uint64.map fun x parts => { parts with failureMillis := some x },
      (·.failureMillis.isSome), true⟩]
  blank := ⟨none, none, none, none⟩
  finish parts := .ok {
    path := parts.path.getD default.path
    cleanupMillis := parts.cleanupMillis.getD default.cleanupMillis
    checkpointMillis := parts.checkpointMillis.getD default.checkpointMillis
    failureMillis := parts.failureMillis.getD default.failureMillis
  }

end Options

end ReadProgress
