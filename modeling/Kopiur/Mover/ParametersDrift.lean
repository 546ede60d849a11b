import Kopiur.Api.RepositoryParameters
import Kopiur.Chrono

/-!
# Drift of the repository parameters

At each bootstrap the mover compares what a repository declares with what kopia
reports, in kopia's own units, and sends only the flags that differ. kopia stores
a duration in nanoseconds and a size as its MiB shifted by twenty bits.
-/

namespace Kopiur.Parameters

def mib : Int := 1048576

/-- The epoch knobs as the work spec carries them, durations rendered. -/
structure EpochParametersSpec where
  minDuration : Option String := none
  refreshFrequency : Option String := none
  advanceOnCount : Option Int := none
  advanceOnSizeMb : Option Int := none
  checkpointFrequency : Option Int := none
  deleteParallelism : Option Int := none
deriving DecidableEq

def renderedDuration (raw : Option String) : Option String :=
  (raw.bind parseGoDuration).map renderGoDuration

def EpochParametersSpec.fromApi (e : EpochParameters) : EpochParametersSpec where
  minDuration := renderedDuration e.minDuration
  refreshFrequency := renderedDuration e.refreshFrequency
  advanceOnCount := e.advanceOnCount
  advanceOnSizeMb := e.advanceOnSizeMb
  checkpointFrequency := e.checkpointFrequency
  deleteParallelism := e.deleteParallelism

def EpochParametersSpec.isEmpty (e : EpochParametersSpec) : Bool := e == {}

structure BlobRetentionSpec where
  mode : String
  period : Option String
deriving DecidableEq

def BlobRetentionSpec.fromApi : BlobRetention → Option BlobRetentionSpec
  | .governance w => some ⟨"GOVERNANCE", renderedDuration (some w.period)⟩
  | .compliance w => some ⟨"COMPLIANCE", renderedDuration (some w.period)⟩
  | .disabled true => some ⟨"none", none⟩
  -- nothing to enable without a mode: the repository is left alone
  | .disabled false => none

def epochParametersSpec (p : RepositoryParameters) : EpochParametersSpec :=
  (p.epoch.map .fromApi).getD {}

def blobRetentionSpec (p : RepositoryParameters) : Option BlobRetentionSpec :=
  p.blobRetention.bind BlobRetentionSpec.fromApi

/-- The epoch parameters as kopia reports them. -/
structure KopiaEpoch where
  enabled : Bool := true
  minEpochDurationNs : Int
  epochRefreshFrequencyNs : Int
  cleanupSafetyMarginNs : Int
  advanceOnCount : Int
  advanceOnTotalSizeBytes : Int
  checkpointFrequency : Int
  deleteParallelism : Int
deriving DecidableEq

structure KopiaRetention where
  mode : String := ""
  periodNs : Int := 0
deriving DecidableEq

def KopiaRetention.isEnabled (r : KopiaRetention) : Bool := r.mode != "" && r.periodNs != 0

structure SetParametersArgs where
  epochMinDuration : Option String := none
  epochRefreshFrequency : Option String := none
  epochAdvanceOnCount : Option Int := none
  epochAdvanceOnSizeMb : Option Int := none
  epochCheckpointFrequency : Option Int := none
  epochDeleteParallelism : Option Int := none
  retentionMode : Option String := none
  retentionPeriod : Option String := none
deriving DecidableEq

namespace SetParametersArgs

def flag (name : String) (value : Option String) : List String :=
  (value.map fun v => [name, v]).getD []

def args (a : SetParametersArgs) : List String :=
  flag "--epoch-min-duration" a.epochMinDuration ++
  flag "--epoch-refresh-frequency" a.epochRefreshFrequency ++
  flag "--epoch-advance-on-count" (a.epochAdvanceOnCount.map toString) ++
  flag "--epoch-advance-on-size-mb" (a.epochAdvanceOnSizeMb.map toString) ++
  flag "--epoch-checkpoint-frequency" (a.epochCheckpointFrequency.map toString) ++
  flag "--epoch-delete-parallelism" (a.epochDeleteParallelism.map toString) ++
  flag "--retention-mode" a.retentionMode ++
  flag "--retention-period" a.retentionPeriod

def isEmpty (a : SetParametersArgs) : Bool := a.args.isEmpty

end SetParametersArgs

/-- What `repository status` reads of a repository. -/
structure KopiaParameters where
  epoch : KopiaEpoch
  retention : KopiaRetention := {}
deriving DecidableEq

def durationNanos (text : String) : Option Int :=
  (parseGoDuration text).map fun secs => ((secs * nanosPerSec : Nat) : Int)

def shiftedMib (w : Int) : Int := (w * 2 ^ 20).bmod (2 ^ 64)

/-- `kopia repository set-parameters`: the flags given replace what is there, and
the retention mode `none` clears both of its fields. -/
def setParameters (a : SetParametersArgs) (k : KopiaParameters) : KopiaParameters where
  epoch := { k.epoch with
    minEpochDurationNs :=
      (a.epochMinDuration.bind durationNanos).getD k.epoch.minEpochDurationNs
    epochRefreshFrequencyNs :=
      (a.epochRefreshFrequency.bind durationNanos).getD k.epoch.epochRefreshFrequencyNs
    advanceOnCount := a.epochAdvanceOnCount.getD k.epoch.advanceOnCount
    advanceOnTotalSizeBytes :=
      (a.epochAdvanceOnSizeMb.map shiftedMib).getD k.epoch.advanceOnTotalSizeBytes
    checkpointFrequency := a.epochCheckpointFrequency.getD k.epoch.checkpointFrequency
    deleteParallelism := a.epochDeleteParallelism.getD k.epoch.deleteParallelism }
  retention :=
    match a.retentionMode with
    | none => k.retention
    | some mode =>
      if mode = "none" then {}
      else
        { mode, periodNs := (a.retentionPeriod.bind durationNanos).getD k.retention.periodNs }

def durDrift (want : Option String) (haveNs : Int) : Option String := do
  let text ← want
  let wantNs ← tryI64 ((← parseGoDuration text) * nanosPerSec)
  if wantNs ≠ haveNs then some text else none

def numDrift (want : Option Int) (observed : Int) : Option Int :=
  want.filter fun w => decide (w ≠ observed)

def saturatingMul (a b : Int) : Int := max i64Min (min (2 ^ 63 - 1) (a * b))

/-- The flags that differ, or all of them when nothing was observed. -/
def epochArgs (desired : EpochParametersSpec) : Option KopiaEpoch → SetParametersArgs
  | none =>
    { epochMinDuration := desired.minDuration
      epochRefreshFrequency := desired.refreshFrequency
      epochAdvanceOnCount := desired.advanceOnCount
      epochAdvanceOnSizeMb := desired.advanceOnSizeMb
      epochCheckpointFrequency := desired.checkpointFrequency
      epochDeleteParallelism := desired.deleteParallelism }
  | some o =>
    { epochMinDuration := durDrift desired.minDuration o.minEpochDurationNs
      epochRefreshFrequency := durDrift desired.refreshFrequency o.epochRefreshFrequencyNs
      epochAdvanceOnCount := numDrift desired.advanceOnCount o.advanceOnCount
      epochAdvanceOnSizeMb := desired.advanceOnSizeMb.filter fun w =>
        decide (saturatingMul w mib ≠ o.advanceOnTotalSizeBytes)
      epochCheckpointFrequency := numDrift desired.checkpointFrequency o.checkpointFrequency
      epochDeleteParallelism := numDrift desired.deleteParallelism o.deleteParallelism }

def epochDrift (desired : EpochParametersSpec) (observed : Option KopiaEpoch) :
    Option SetParametersArgs :=
  if desired.isEmpty then none
  else
    match observed with
    | none => some (epochArgs desired none)
    | some o =>
      let args := epochArgs desired (some o)
      if args.isEmpty then none else some args

def blobRetentionDrift (desired : Option BlobRetentionSpec) (observed : Option KopiaRetention) :
    Option SetParametersArgs := do
  let desired ← desired
  if desired.mode = "none" then
    -- only what is on is disabled, and unobserved is not on
    if observed.any KopiaRetention.isEnabled then some { retentionMode := some "none" } else none
  else
    let wantPeriod ← desired.period
    let wantNs ← tryI64 ((← parseGoDuration wantPeriod) * nanosPerSec)
    if observed.any fun o => o.mode == desired.mode && o.periodNs == wantNs then none
    else some { retentionMode := some desired.mode, retentionPeriod := some wantPeriod }

def parametersDrift (epochDesired : EpochParametersSpec) (epochObserved : Option KopiaEpoch)
    (retentionDesired : Option BlobRetentionSpec) (retentionObserved : Option KopiaRetention) :
    Option SetParametersArgs :=
  match epochDrift epochDesired epochObserved,
    blobRetentionDrift retentionDesired retentionObserved with
  | none, none => none
  | some a, none => some a
  | none, some b => some b
  | some a, some b =>
    some { a with retentionMode := b.retentionMode, retentionPeriod := b.retentionPeriod }

end Kopiur.Parameters
