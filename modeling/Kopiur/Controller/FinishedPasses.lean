import Kopiur.Controller.Hooks
import Kopiur.Controller.PinJobs
import Kopiur.Controller.StatusConditions

/-!
# Passes over a Snapshot whose run is over

A pass of a Snapshot that succeeded or failed runs the hooks that are left,
heals the conditions, tidies up and reconciles the pin. Several of these write
the status, and a write that carries conditions replaces all of them.
-/

namespace Kopiur

def hooksSucceededCondition : String := "HooksSucceeded"
def securityContextCompatibleCondition : String := "SecurityContextCompatible"
def snapshotIncompleteReason : String := "SnapshotIncompleteUnreadableEntries"
def postHookFailedReason : String := "PostHookFailed"
def pinJobFailedReason : String := "PinJobFailed"

/-- What a pass reads of the Snapshot. -/
structure FinishedSnapshot where
  name : String
  generation : Option Int
  pin : Bool
  policyRef : Bool
  phase : Option SnapshotPhase
  observedGeneration : Option Int
  conditions : List StatusCondition
  postCompletedAt : Option DateTime
  credsReapedAt : Option DateTime
  /-- The pinned projection: whether it is enabled. -/
  credentialProjection : Option Bool
  repository : Option RepositoryRef
  kopiaSnapshotId : Option String
  pinned : Option Bool
  filesFailed : Int
  staged : Bool
  /-- The text for the failure block. -/
  moverFailedMessage : String
deriving DecidableEq

/-- A status patch: the keys it carries. -/
structure FinishedPatch where
  phase : Option SnapshotPhase := none
  observedGeneration : Option (Option Int) := none
  conditions : Option (List StatusCondition) := none
  postCompletedAt : Option DateTime := none
  credsReapedAt : Option DateTime := none
  credentialProjection : Option Bool := none
  repository : Option RepositoryRef := none
  pinned : Option Bool := none
deriving DecidableEq

def FinishedPatch.apply (p : FinishedPatch) (backup : FinishedSnapshot) : FinishedSnapshot :=
  { backup with
    phase := p.phase <|> backup.phase
    observedGeneration := p.observedGeneration.getD backup.observedGeneration
    conditions := p.conditions.getD backup.conditions
    postCompletedAt := p.postCompletedAt <|> backup.postCompletedAt
    credsReapedAt := p.credsReapedAt <|> backup.credsReapedAt
    credentialProjection := p.credentialProjection <|> backup.credentialProjection
    repository := p.repository <|> backup.repository
    pinned := p.pinned <|> backup.pinned }

inductive PinLaunch
  /-- The recipe or the credentials do not resolve. -/
  | unresolved
  /-- The Job is not accepted. -/
  | rejected
  | admitted
deriving DecidableEq

structure FinishedPolicy where
  /-- What becomes of its `afterSnapshot` hooks, if it has any: an error of the
  cluster, or the message of the hook that failed. -/
  afterSnapshot : Option (Except Unit (Option String))
  credentialProjection : Bool
  /-- The Snapshot's repository, which a row of a multi-repository policy may
  not tell. -/
  repository : Except Unit (Option RepositoryRef)
deriving DecidableEq

/-- What the passes find besides the Snapshot and its pin Jobs. -/
structure FinishedInputs where
  policy : Option FinishedPolicy
  /-- No Job of the capture, or one that is over. -/
  stagedTeardownReady : Bool
  stagedCleanedUp : Bool
  credsReapSettled : Bool
  /-- The conditions can be read again ahead of a pin write. -/
  freshRead : Bool
  pinLaunch : PinLaunch
deriving DecidableEq

namespace FinishedSnapshot

variable (env : FinishedInputs) (now : DateTime) (backup : FinishedSnapshot)

def patched (writes : List FinishedPatch) : FinishedSnapshot :=
  writes.foldl (fun backup p => p.apply backup) backup

def patchStatusIfChanged (p : FinishedPatch) : List FinishedPatch :=
  if p.apply backup = backup then [] else [p]

def ready : Bool :=
  backup.conditions.any fun c => c.type == readyCondition && c.status == .true

def snapshotStalled : Bool :=
  backup.conditions.any fun c => c.type == stalledCondition && c.status == .true

def snapshotReadyOutcome : SnapshotPhase → ReadyOutcome
  | .succeeded | .discovered | .unchanged => .ready
  | .failed => .stalled
  | .pending | .running | .deleting | .unknown _ => .reconciling

def snapshotReadyStatus (phase : SnapshotPhase) (reason message : String) : FinishedPatch where
  phase := some phase
  observedGeneration := some backup.generation
  conditions := some (StatusCondition.setReady now backup.conditions backup.generation
    (snapshotReadyOutcome phase) reason message)

def postHooks : Option (Except Unit (Option String)) :=
  if backup.postCompletedAt.isSome || !backup.policyRef then none
  else env.policy.bind FinishedPolicy.afterSnapshot

def patchHookFailure (message : String) (setFailedPhase : Bool) : List FinishedPatch :=
  backup.patchStatusIfChanged
    { phase := if setFailedPhase then some .failed else none
      conditions := some (StatusCondition.upsert now backup.conditions hooksSucceededCondition false
        postHookFailedReason message backup.generation) }

def healReady : List FinishedPatch :=
  if backup.ready then []
  else if backup.phase = some .unchanged then
    [backup.snapshotReadyStatus now .unchanged "NoChanges"
      ("no files changed, so kopia made no new snapshot; the previous one is the " ++
        "restore point")]
  else [backup.snapshotReadyStatus now .succeeded "SnapshotCreated" "the kopia snapshot was created"]

def healStalled : List FinishedPatch :=
  if backup.snapshotStalled then []
  else
    backup.patchStatusIfChanged
      (backup.snapshotReadyStatus now .failed "SnapshotFailed" backup.moverFailedMessage)

def incompleteMessage (failed : Int) : String :=
  "backup completed but " ++ toString failed ++ " source entr" ++
    (if failed = 1 then "y" else "ies") ++ " could not be read and were skipped, so " ++
    "the snapshot is incomplete (usually a UID/GID mismatch). Fix: match the mover to the " ++
    "workload with mover.inheritSecurityContextFrom.pvcConsumer or runAsUser, or fix the " ++
    "file permissions"

def assessCompletedBackup : List FinishedPatch :=
  if backup.filesFailed ≤ 0 then []
  else
    backup.patchStatusIfChanged
      { conditions := some (StatusCondition.upsert now backup.conditions
          securityContextCompatibleCondition false snapshotIncompleteReason
          (incompleteMessage backup.filesFailed) backup.generation) }

def reapBackupCredsOnce : List FinishedPatch :=
  if backup.credsReapedAt.isSome || !env.stagedTeardownReady || !env.credsReapSettled then []
  else [{ credsReapedAt := some now }]

/-- The backfill of the pins that older runs lack. -/
def backfillProjectionPin : Except Unit (List FinishedPatch) :=
  let needsProjection := backup.credentialProjection.isNone && backup.kopiaSnapshotId.isSome
  let needsRepository := backup.policyRef && backup.repository.isNone
  if (!needsProjection && !needsRepository) || !backup.policyRef then .ok []
  else match env.policy with
    | none => .ok []
    | some policy => policy.repository.map fun repository =>
      let repoBackfill := if needsRepository then repository else none
      if !needsProjection && repoBackfill.isNone then []
      else
        [{ credentialProjection :=
             if needsProjection then some policy.credentialProjection else none
           repository := repoBackfill }]

def pinView : PinnedSnapshot where
  pin := backup.pin
  pinned := backup.pinned
  conditions := backup.conditions.map fun c => ⟨c.type, c.status, c.reason⟩
  kopiaSnapshotId := backup.kopiaSnapshotId

/-- What is done of the calls of the pin pass: a launch may stop ahead of its
mark, or at the Job. -/
def pinCalls (calls : List PinCall) : List PinCall :=
  match calls with
  | .mark :: rest =>
    match env.pinLaunch with
    | .unresolved => []
    | .rejected => [.mark]
    | .admitted => .mark :: rest
  | calls => calls

def pinCondition (base : List StatusCondition) (status : ConditionStatus)
    (reason message : String) : List StatusCondition :=
  StatusCondition.upsertStatus now base pinnedCondition status reason message backup.generation

def pinPatch (base : List StatusCondition) : PinCall → Option FinishedPatch
  | .mark => some { conditions := some (backup.pinCondition now base .unknown "PinJobRunning"
      "a SnapshotPin mover Job is applying spec.pin") }
  | .record pinned => some
      { pinned := some pinned
        conditions := some (backup.pinCondition now base (if pinned then .true else .false)
          "PinReconciled" "the SnapshotPin mover Job ran") }
  | .markFailed observed => some { conditions := some (backup.pinCondition now base
      (if observed then .true else .false) pinJobFailedReason
      "the SnapshotPin mover Job failed; see the Job/pod logs") }
  | .create .. | .delete _ => none

/-- The writes of a pass and the calls of its pin reconcile. -/
abbrev PassOutcome := List FinishedPatch × List PinCall

def withPin (getJob : String → Option PinJob) (writes : List FinishedPatch) : PassOutcome :=
  let calls := pinCalls env (reconcilePin backup.name backup.pinView getJob).1
  let base := if env.freshRead then (backup.patched writes).conditions else backup.conditions
  (writes ++ calls.filterMap (backup.pinPatch now base), calls)

def tidyUp (writes : List FinishedPatch) : Except (List FinishedPatch) (List FinishedPatch) :=
  if backup.staged && !(env.stagedTeardownReady && env.stagedCleanedUp) then .error writes
  else .ok (writes ++ backup.reapBackupCredsOnce env now)

/-- What a successful run's pass does once the conditions are healed. -/
def succeededRest (getJob : String → Option PinJob) (writes : List FinishedPatch) : PassOutcome :=
  match backup.tidyUp env now writes with
  | .error writes => (writes, [])
  | .ok writes =>
    match backup.backfillProjectionPin env with
    | .error _ => (writes, [])
    | .ok pins =>
      if backup.phase = some .unchanged then (writes ++ pins, [])
      else backup.withPin env now getJob (writes ++ pins)

def succeededPass (getJob : String → Option PinJob) : PassOutcome :=
  let stamp : List FinishedPatch := [{ postCompletedAt := some now }]
  match backup.postHooks env with
  | some (.error _) => ([], [])
  | some (.ok (some message)) => (stamp ++ backup.patchHookFailure now message true, [])
  | some (.ok none) =>
    backup.succeededRest env now getJob
      (stamp ++ (backup.healReady now ++ backup.assessCompletedBackup now))
  | none =>
    backup.succeededRest env now getJob
      (backup.healReady now ++ backup.assessCompletedBackup now)

/-- Here the credentials that are not reaped yet end the pass. -/
def failedRest (writes : List FinishedPatch) : PassOutcome :=
  match backup.tidyUp env now writes with
  | .error writes => (writes, [])
  | .ok writes =>
    if backup.credsReapedAt.isNone && !(env.stagedTeardownReady && env.credsReapSettled) then
      (writes, [])
    else match backup.backfillProjectionPin env with
      | .error _ => (writes, [])
      | .ok pins => (writes ++ pins, [])

/-- The hooks run for a failed run too. -/
def failedPass : PassOutcome :=
  let stamp : List FinishedPatch := [{ postCompletedAt := some now }]
  match backup.postHooks env with
  | some (.error _) => ([], [])
  | some (.ok (some message)) =>
    backup.failedRest env now
      (stamp ++ backup.patchHookFailure now message false ++ backup.healStalled now)
  | some (.ok none) => backup.failedRest env now (stamp ++ backup.healStalled now)
  | none => backup.failedRest env now (backup.healStalled now)

def finishedPass (getJob : String → Option PinJob) : PassOutcome :=
  match runDecision backup.phase with
  | .succeededSteadyState => backup.succeededPass env now getJob
  | .terminalFailed => backup.failedPass env now
  | .run | .wait => ([], [])

end FinishedSnapshot

structure FinishedWorld where
  backup : FinishedSnapshot
  jobs : List PinJob
deriving DecidableEq

namespace FinishedWorld

variable (env : FinishedInputs) (now : DateTime) (w : FinishedWorld)

def getJob (name : String) : Option PinJob := w.jobs.find? fun j => j.name == name

def pass : FinishedSnapshot.PassOutcome := w.backup.finishedPass env now w.getJob

def exec (jobs : List PinJob) : PinCall → List PinJob
  | .create name pinTarget op => jobs ++ [⟨name, some pinTarget, op, none, false⟩]
  | .delete name => jobs.filter fun j => j.name ≠ name
  | .mark | .record _ | .markFailed _ => jobs

def next : FinishedWorld where
  backup := w.backup.patched (w.pass env now).1
  jobs := (w.pass env now).2.foldl exec w.jobs

/-- The world after `n` passes. -/
def after (clock : Nat → DateTime) : Nat → FinishedWorld
  | 0 => w
  | n + 1 => (after clock n).next env (clock n)

def ComesToRest (clock : Nat → DateTime) : Prop :=
  ∃ N, ∀ n, N ≤ n → ((w.after env clock n).pass env (clock n)).1 = []

end FinishedWorld

/-- In a sequence of conditions, each replacing the one before, a condition that
one of them brings is not in a later one. -/
def Reverts : List (List StatusCondition) → Prop
  | [] | [_] => False
  | before :: written :: later =>
    (∃ c, StatusCondition.find before c.type ≠ some c ∧
      StatusCondition.find written c.type = some c ∧
      ∃ l ∈ later, StatusCondition.find l c.type ≠ some c) ∨ Reverts (written :: later)

def conditionWrites (backup : FinishedSnapshot) (writes : List FinishedPatch) :
    List (List StatusCondition) :=
  backup.conditions :: writes.filterMap FinishedPatch.conditions

end Kopiur
