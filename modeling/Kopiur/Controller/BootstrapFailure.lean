import Kopiur.Mover.Bootstrap

/-!
# What a finished bootstrap Job means

The report a Job left behind and the way it ended are classified into one
typed outcome, and a failure into the route by which it is retried or parked.
-/

namespace Kopiur

inductive MoverJobTerminal
  | complete
  | failed (deadlineExceeded : Bool)
deriving DecidableEq

inductive BootstrapFailure
  | backend (cls : KopiaErrorClass)
  | jobFailedWithoutResult
  | jobDeadlineExceeded (deadlineSecs : Int)
  | repositoryNotInitialized
  | repositoryReinitializeBlocked
  | seed (failure : SeedFailure)
  | seedMoverTooOld
  | internalInconsistency
deriving DecidableEq

def KopiaErrorClass.asStr : KopiaErrorClass → String
  | .repositoryUnavailable => "RepositoryUnavailable"
  | .authFailure => "AuthFailure"
  | .accessDenied => "AccessDenied"
  | .permissionDenied => "PermissionDenied"
  | .notFound => "NotFound"
  | .locked => "Locked"
  | .sourceError => "SourceError"
  | .unknown => "Unknown"

def SeedFailure.reason : SeedFailure → String
  | .sourceNotFound => "SeedSourceNotFound"
  | .sourceEmpty => "SeedSourceEmpty"
  | .incomplete => "SeedIncomplete"
  | .leftEmpty => "SeedLeftEmpty"

def bootstrapDeadlineExceededReason : String := "BootstrapDeadlineExceeded"
def repositoryReinitializeBlockedReason : String := "RepositoryReinitializeBlocked"

namespace BootstrapFailure

def reason : BootstrapFailure → String
  | .backend cls => cls.asStr
  | .jobFailedWithoutResult => "BootstrapJobFailed"
  | .jobDeadlineExceeded _ => bootstrapDeadlineExceededReason
  | .repositoryNotInitialized => "RepositoryNotInitialized"
  | .repositoryReinitializeBlocked => repositoryReinitializeBlockedReason
  | .seed failure => failure.reason
  | .seedMoverTooOld => "MoverImageTooOldForSeed"
  | .internalInconsistency => "BootstrapInternalInconsistency"

def recyclesForRetry : BootstrapFailure → Bool
  | .jobFailedWithoutResult | .jobDeadlineExceeded _ | .seed _ => true
  | .backend _ | .repositoryNotInitialized | .repositoryReinitializeBlocked | .seedMoverTooOld
  | .internalInconsistency => false

def retryableOutageForBootstrapped (bootstrapped : Bool) : BootstrapFailure → Bool
  | .backend cls => bootstrapped && cls == .repositoryUnavailable
  | .jobDeadlineExceeded _ => bootstrapped
  | .jobFailedWithoutResult | .repositoryNotInitialized | .repositoryReinitializeBlocked | .seed _
  | .seedMoverTooOld | .internalInconsistency => false

end BootstrapFailure

inductive FailureRoute
  | outageSensor
  | recycle
  | seedRetry
  | terminal
deriving DecidableEq

/-- The outage sensor comes first, so that no other route shadows it. -/
def BootstrapFailure.route (bootstrapped : Bool) (failure : BootstrapFailure) : FailureRoute :=
  if failure.retryableOutageForBootstrapped bootstrapped then .outageSensor
  else
    match failure with
    | .seed _ => .seedRetry
    | f => if f.recyclesForRetry then .recycle else .terminal

inductive BootstrapOutcome
  | resultPending
  | failed (failure : BootstrapFailure)
  | succeeded (result : BootstrapReport)
deriving DecidableEq

/-- A report always outranks the way the Job ended. -/
def bootstrapOutcome (result : Option BootstrapReport) (job : MoverJobTerminal) (seedArmed : Bool)
    (deadlineSecs : Int) : BootstrapOutcome :=
  match result with
  | none =>
    match job with
    | .complete => .resultPending
    | .failed true => .failed (.jobDeadlineExceeded deadlineSecs)
    | .failed false => .failed .jobFailedWithoutResult
  | some r =>
    if r.success then
      -- a seed that was asked for must be acknowledged
      if seedArmed && r.seed.isNone then .failed .seedMoverTooOld else .succeeded r
    else
      match r.failure with
      | some .repositoryNotInitialized => .failed .repositoryNotInitialized
      | some .repositoryReinitializeBlocked => .failed .repositoryReinitializeBlocked
      | some (.seed f) => .failed (.seed f)
      | some .bootstrapInternalInconsistency => .failed .internalInconsistency
      | some (.kopia cls) => .failed (.backend cls)
      | none => .failed (.backend .unknown)

theorem bootstrapOutcome_succeeded {result : Option BootstrapReport} {job : MoverJobTerminal}
    {seedArmed : Bool} {deadlineSecs : Int} {r : BootstrapReport}
    (h : bootstrapOutcome result job seedArmed deadlineSecs = .succeeded r) :
    result = some r ∧ r.success = true := by
  cases result with
  | none =>
    cases job with
    | complete => cases h
    | failed d => cases d <;> cases h
  | some r' =>
    simp only [bootstrapOutcome] at h
    split at h
    · next hs =>
      split at h
      · cases h
      · cases h
        exact ⟨rfl, hs⟩
    · split at h <;> cases h

theorem BootstrapFailure.reason_blocked {f : BootstrapFailure}
    (h : f.reason = repositoryReinitializeBlockedReason) : f = .repositoryReinitializeBlocked := by
  cases f with
  | repositoryReinitializeBlocked => rfl
  | backend cls => cases cls <;> exact absurd h (by decide)
  | seed s => cases s <;> exact absurd h (by decide)
  | jobDeadlineExceeded d => exact absurd h (by decide : bootstrapDeadlineExceededReason ≠ _)
  | jobFailedWithoutResult | repositoryNotInitialized | seedMoverTooOld | internalInconsistency =>
    exact absurd h (by decide)

end Kopiur
