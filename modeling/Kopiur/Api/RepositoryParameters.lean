import Kopiur.Api.Durations
import Kopiur.Api.StorageTarget

/-!
# Repository parameters

The epoch knobs and the blob retention a repository declares, and what admission
asks of them. kopia merges the flags it is given into what the repository has and
refuses all of them when one is out of range.
-/

namespace Kopiur.Parameters

structure EpochParameters where
  minDuration : Option String := none
  refreshFrequency : Option String := none
  advanceOnCount : Option Int := none
  advanceOnSizeMb : Option Int := none
  checkpointFrequency : Option Int := none
  deleteParallelism : Option Int := none
deriving DecidableEq

structure RetentionWindow where
  period : String
deriving DecidableEq

inductive BlobRetention
  | governance (window : RetentionWindow)
  | compliance (window : RetentionWindow)
  | disabled (flag : Bool)
deriving DecidableEq

def BlobRetention.kindPath : BlobRetention → String
  | .governance _ => "governance"
  | .compliance _ => "compliance"
  | .disabled _ => "disabled"

def BlobRetention.window : BlobRetention → Option RetentionWindow
  | .governance w | .compliance w => some w
  | .disabled _ => none

structure RepositoryParameters where
  epoch : Option EpochParameters := none
  blobRetention : Option BlobRetention := none
deriving DecidableEq

inductive RepositoryMode
  | readWrite
  | readOnly
deriving DecidableEq

def RepositoryMode.allowsWrites : RepositoryMode → Bool
  | .readWrite => true
  | .readOnly => false

def nanosPerSec : Nat := 1000000000

def i64MaxNanos : Nat := 2 ^ 63 - 1

def tryI64 (n : Nat) : Option Int := if n ≤ i64MaxNanos then some n else none

def wholeCallRefused : String :=
  "One out-of-range value makes kopia reject every parameter in the same apply."

def zeroIsDropped : String := "kopia would silently ignore 0."

def kopiaMinAdvanceOnCount : Int := 10

def kopiaMinAdvanceOnSizeMib : Int := 1

def kopiaMinCheckpointFrequency : Int := 1

def kopiurMinDeleteParallelism : Int := 1

def kopiaMinEpochDuration : Nat := 600

def kopiaDefaultEpochRefreshFrequency : Nat := 1200

def maxEpochRefreshFrequency : Nat := 4800

def minRetentionPeriod : Nat := 86400

def renderMinutes (secs : Nat) : String :=
  if secs ≠ 0 ∧ secs % 60 = 0 then (secs / 60).repr ++ "m" else renderGoDuration secs

/-- The largest refresh that makes `min` a legal minimum, in whole minutes. -/
def suggestRefresh (min : Nat) : String :=
  let third := Nat.min (min / 3) maxEpochRefreshFrequency
  if 60 ≤ third then (third / 60).repr ++ "m" else renderGoDuration third

def durationError (field : String) (raw : Option String) : List ValidationError :=
  match raw with
  | none => []
  | some raw =>
    match parseGoDuration raw with
    | none =>
      [.invalidFieldValue field
        (debugStr raw ++ " is not a valid duration. Fix: use a Go-style duration with a single " ++
          "unit, like 6h, 90m, or 30s; omit the field to keep kopia's current value")]
    | some d =>
      if (tryI64 (d * nanosPerSec)).isNone then
        [.invalidFieldValue field
          (debugStr raw ++ " is too large (the maximum is about 292 years). Fix: use a " ++
            "realistic epoch duration, e.g. 6h")]
      else []

def floorError (field : String) (value : Option Int) (floor : Int) (why : String)
    (refusesCall : Bool) : List ValidationError :=
  match value with
  | none => []
  | some v =>
    if v < floor then
      [.invalidFieldValue field
        (toString v ++ " is below the minimum of " ++ toString floor ++ ": " ++ why ++ "." ++
          (if refusesCall then " " ++ wholeCallRefused else "") ++
          (if v = 0 then " " ++ zeroIsDropped else "") ++
          " Fix: use " ++ toString floor ++ " or more, or omit the field to keep kopia's " ++
          "current value")]
    else []

/-- The floor that three refreshes put under the minimum, and where it is from. -/
def derivedFloor (refreshDeclared : Bool) (declaredRefresh : Option Nat) :
    Option (Nat × String) :=
  -- a span is at most `u64::MAX` seconds and a fraction
  let triple := fun r => Nat.min (r * 3 * nanosPerSec) (u64Max * nanosPerSec + (nanosPerSec - 1))
  match refreshDeclared, declaredRefresh with
  | true, none => none
  | true, some r => some (triple r, "the declared refreshFrequency")
  | false, _ =>
    some (triple kopiaDefaultEpochRefreshFrequency,
      "kopia's default refreshFrequency of 20m (the live value is in " ++
        "`status.parameters.epoch.refreshFrequency`)")

def minDurationFloorError (min : Nat) (raw : String) (declaredRefresh : Option Nat)
    (refreshDeclared : Bool) (field : String) : List ValidationError :=
  let derived := derivedFloor refreshDeclared declaredRefresh
  let absolute := kopiaMinEpochDuration * nanosPerSec
  let floor := Nat.max ((derived.map Prod.fst).getD 0) absolute
  if floor ≤ min * nanosPerSec then []
  else
    let belowAbsolute := decide (min < kopiaMinEpochDuration)
    let derivedBites := derived.any fun d => decide (min * nanosPerSec < d.1 ∧ absolute < d.1)
    let why := (if belowAbsolute then ["kopia's minimum is 10m"] else []) ++
      (if derivedBites then
        ["kopia requires `minDuration >= 3 x refreshFrequency`, using " ++
          (derived.map Prod.snd).getD ""]
      else [])
    let least := renderMinutes (floor / nanosPerSec)
    let fix := match belowAbsolute, derivedBites with
      | true, true =>
        "Fix: use " ++ least ++ " or more, or raise minDuration to 10m and set " ++
          "`refreshFrequency` to " ++ suggestRefresh kopiaMinEpochDuration ++ " or less"
      | false, true =>
        "Fix: use " ++ least ++ " or more, or set `refreshFrequency` to " ++
          suggestRefresh min ++ " or less"
      | _, false => "Fix: use " ++ least ++ " or more"
    [.invalidFieldValue field
      (debugStr raw ++ " is below the minimum of " ++ least ++ ": " ++ "; and ".intercalate why ++
        ". " ++ wholeCallRefused ++ " " ++ fix)]

def refreshError (field : String) (raw : Option String) : List ValidationError :=
  match raw.bind parseGoDuration with
  | none => []
  | some refresh =>
    if refresh = 0 then
      [.invalidFieldValue field
        (debugStr (raw.getD "") ++ " is zero, which kopia silently ignores, so kopiur would " ++
          "re-apply it forever. Fix: use 1s or more, or omit the field to keep kopia's " ++
          "current value")]
    else if maxEpochRefreshFrequency < refresh then
      [.invalidFieldValue field
        (debugStr (raw.getD "") ++ " exceeds the maximum of 80m: kopia requires a cleanup " ++
          "safety margin (assumed to be the 4h default) of at least 3x refreshFrequency. " ++
          wholeCallRefused ++ " Fix: use 80m or less; if " ++
          "`status.parameters.epoch.cleanupSafetyMargin` is larger, apply the change with " ++
          "kopia directly")]
    else []

def epochFloorErrors (epoch : EpochParameters) (context : String) : List ValidationError :=
  let field := fun name => context ++ " spec.parameters.epoch." ++ name
  floorError (field "advanceOnCount") epoch.advanceOnCount kopiaMinAdvanceOnCount
    "kopia rejects lower values" true ++
  floorError (field "advanceOnSizeMiB") epoch.advanceOnSizeMb kopiaMinAdvanceOnSizeMib
    "kopia rejects lower values" true ++
  floorError (field "checkpointFrequency") epoch.checkpointFrequency kopiaMinCheckpointFrequency
    "kopia rejects lower values" true ++
  floorError (field "deleteParallelism") epoch.deleteParallelism kopiurMinDeleteParallelism
    "epoch cleanup would run with no workers" false ++
  refreshError (field "refreshFrequency") epoch.refreshFrequency ++
  match epoch.minDuration.bind parseGoDuration with
  | some min =>
    minDurationFloorError min (epoch.minDuration.getD "")
      (epoch.refreshFrequency.bind parseGoDuration) epoch.refreshFrequency.isSome
      (field "minDuration")
  | none => []

def objectLockSupported : Storage.Backend → Bool
  | .s3 _ | .azure _ | .gcs _ => true
  | .b2 _ | .filesystem _ | .sftp _ | .webDav _ | .rclone _ | .gdrive _ => false

def periodError (field period : String) : List ValidationError :=
  match parseGoDuration period with
  | none =>
    [.invalidFieldValue field
      (debugStr period ++ " is not a valid duration. Fix: use a Go-style duration with a single " ++
        "unit of h, m, or s — write 30 days as 720h, not 30d")]
  | some d =>
    if (tryI64 (d * nanosPerSec)).isNone then
      [.invalidFieldValue field
        (debugStr period ++ " is too large (the maximum is about 292 years)")]
    else if d < minRetentionPeriod then
      [.invalidFieldValue field
        (debugStr period ++ " is below kopia's minimum of 1 day. Fix: use 24h or more")]
    else []

def validateBlobRetention (retention : Option BlobRetention) (mode : RepositoryMode)
    (backend : Storage.Backend) (context : String) : List ValidationError :=
  match retention with
  | none => []
  | some retention =>
    let field := context ++ " spec.parameters.blobRetention"
    (if mode.allowsWrites then []
    else
      [.invalidFieldValue field
        ("a ReadOnly repository cannot apply blob retention. Fix: set blobRetention on the " ++
          "cluster that owns the repository (mode: ReadWrite)")]) ++
    (if objectLockSupported backend then []
    else
      [.invalidFieldValue field
        ("the " ++ backend.kindStr ++ " backend does not support object lock. Fix: remove " ++
          "spec.parameters.blobRetention, or use an S3, Azure, or GCS bucket created with " ++
          "object lock enabled")]) ++
    match retention.window with
    | some window => periodError (field ++ "." ++ retention.kindPath ++ ".period") window.period
    | none => []

def validateEpoch (epoch : EpochParameters) (mode : RepositoryMode) (context : String) :
    List ValidationError :=
  (if mode.allowsWrites then []
  else
    [.invalidFieldValue (context ++ " spec.parameters.epoch")
      ("a ReadOnly repository cannot apply repository parameters. Fix: remove " ++
        "spec.parameters, or set them on the cluster that owns the repository " ++
        "(mode: ReadWrite)")]) ++
  durationError (context ++ " spec.parameters.epoch.minDuration") epoch.minDuration ++
  durationError (context ++ " spec.parameters.epoch.refreshFrequency") epoch.refreshFrequency ++
  epochFloorErrors epoch context

def validateRepositoryParameters (parameters : Option RepositoryParameters)
    (mode : RepositoryMode) (backend : Storage.Backend) (context : String) : List ValidationError :=
  match parameters with
  | none => []
  | some parameters =>
    validateBlobRetention parameters.blobRetention mode backend context ++
    match parameters.epoch with
    | some epoch => validateEpoch epoch mode context
    | none => []

def StorableDuration (raw : String) : Prop :=
  ∃ secs, parseGoDuration raw = some secs ∧ secs * nanosPerSec ≤ i64MaxNanos

theorem tryI64_eq_some {n : Nat} (h : n ≤ i64MaxNanos) : tryI64 n = some (n : Int) := if_pos h

theorem storable_of_tryI64 {text : String} {secs : Nat} (hparse : parseGoDuration text = some secs)
    (h : tryI64 (secs * nanosPerSec) ≠ none) : StorableDuration text :=
  ⟨secs, hparse, by_contra fun hgt => h (if_neg hgt)⟩

theorem storable_of_durationError {field : String} {raw : Option String}
    (h : durationError field raw = []) : ∀ text, raw = some text → StorableDuration text := by
  rintro text rfl
  unfold durationError at h
  dsimp only at h
  cases hparse : parseGoDuration text with
  | none =>
    rw [hparse] at h
    cases h
  | some secs => exact storable_of_tryI64 hparse fun hnone => by simp [hparse, hnone] at h

theorem storable_of_periodError {field period : String} (h : periodError field period = []) :
    StorableDuration period := by
  unfold periodError at h
  cases hparse : parseGoDuration period with
  | none =>
    rw [hparse] at h
    cases h
  | some secs => exact storable_of_tryI64 hparse fun hnone => by simp [hparse, hnone] at h

end Kopiur.Parameters
