import Kopiur.Api.Resources
import Kopiur.Lib.Programs

/-!
# Hooks around a capture

The hooks of the policy run in the controller: `beforeSnapshot` before the mover
Job is created, `afterSnapshot` once it is terminal or the run has failed. Two
stamps in the status keep each list from running again.

The pass is written as the program of its calls. A call that fails ends the
pass, which is the same as a crash before or after it.
-/

namespace Kopiur

open Lib

inductive HookKind
  | workloadExec
  | runJob
  | httpRequest
deriving DecidableEq

structure Hook where
  kind : HookKind
  continueOnFailure : Bool
deriving DecidableEq

structure HookSpec where
  beforeSnapshot : List Hook
  afterSnapshot : List Hook
deriving DecidableEq

inductive HookPhase
  | before
  | after
deriving DecidableEq

structure HookFailure where
  index : Nat
  kind : HookKind
  message : String
deriving DecidableEq

inductive HookOutcome
  | passed
  | failed (message : String)
deriving DecidableEq

/-- What the pass reads of a produced `Snapshot`. -/
structure CaptureRun where
  phase : Option SnapshotPhase
  preCompletedAt : Bool
  postCompletedAt : Bool
  staged : Bool
  /-- The conditions that are true. -/
  ready : Bool
  stalled : Bool
  /-- `HooksSucceeded` is false for this failure. -/
  hooksFailed : Option (HookPhase × HookFailure)
  deleting : Bool
  finalizer : Bool
deriving DecidableEq

inductive RunDecision
  | run
  | succeededSteadyState
  | terminalFailed
  | wait
deriving DecidableEq

def runDecision : Option SnapshotPhase → RunDecision
  | none | some .pending | some .running => .run
  | some .succeeded | some .unchanged => .succeededSteadyState
  | some .failed => .terminalFailed
  | some .deleting | some .discovered | some (.unknown _) => .wait

def firstLaunch : Option SnapshotPhase → Bool
  | none | some .pending => true
  | some .running | some .succeeded | some .failed | some .deleting | some .discovered
  | some .unchanged | some (.unknown _) => false

/-- What the gates ahead of the hooks say, with the recipe they were read from. -/
inductive LaunchGate
  | admitted (hooks : HookSpec)
  | readOnly
  | repositoryNotReady
  | maintenanceNotSynced
  | preflightFailed (expired : Bool)
  | parked
  /-- A missing grant, account, Secret or source of a security context. -/
  | blocked
  | unresolved
deriving DecidableEq

/-- The phase a gate patches, and whether with the conditions of that phase. -/
def LaunchGate.patch : LaunchGate → Option (SnapshotPhase × Bool)
  | .admitted _ | .unresolved => none
  | .readOnly => some (.failed, false)
  | .repositoryNotReady | .maintenanceNotSynced => some (.pending, true)
  | .preflightFailed expired => some (if expired then .failed else .pending, true)
  | .parked | .blocked => some (.pending, false)

def LaunchGate.atFirstLaunch : LaunchGate → Bool
  | .maintenanceNotSynced | .preflightFailed _ | .parked => true
  | .admitted _ | .readOnly | .repositoryNotReady | .blocked | .unresolved => false

inductive StagingOutcome
  | notApplicable
  | ready
  | waiting
  | failed
deriving DecidableEq

inductive SourceOutcome
  | found
  | stagedClaimAbsent
  | sourceAbsent (expired : Bool)
deriving DecidableEq

inductive StagedPvcWatch
  | provisioning
  | expired
  | clear
deriving DecidableEq

inductive DeletionTurn
  | deferred
  | held
  | batched
  | release
deriving DecidableEq

inductive CaptureCall
  | ensureFinalizer
  | removeFinalizer
  | getPolicy
  | getJob
  | deleteJob
  | createJob
  | launchGate (firstLaunch : Bool)
  /-- One hook; `last` if none comes after it in its list. -/
  | hook (phase : HookPhase) (index : Nat) (hook : Hook) (last : Bool)
  | stampHooks (phase : HookPhase)
  | patchHookFailure (phase : HookPhase) (failure : HookFailure) (setFailedPhase : Bool)
  | patchPhase (phase : SnapshotPhase) (conditions : Bool)
  | resolveStaging
  | recordStaged (failed : Bool)
  | cleanupStaged
  | resolveSource
  | watchStagedPvc
  | podWedged
  | planDeletion
deriving DecidableEq

abbrev CaptureCall.Answer : CaptureCall → Type
  | .getPolicy => Option HookSpec
  | .getJob => Option (Option Bool)
  | .launchGate _ => LaunchGate
  | .hook .. => HookOutcome
  | .resolveStaging => StagingOutcome
  | .resolveSource => SourceOutcome
  | .watchStagedPvc => StagedPvcWatch
  | .podWedged => Bool
  | .planDeletion => DeletionTurn
  /- Best effort: the answer says whether it worked. -/
  | .deleteJob => Bool
  | .ensureFinalizer | .removeFinalizer | .createJob | .stampHooks _ | .patchHookFailure ..
  | .patchPhase .. | .recordStaged _ | .cleanupStaged => Unit

abbrev CapturePass := Prog CaptureCall CaptureCall.Answer

abbrev api (op : CaptureCall) : CapturePass op.Answer := Prog.perform op

/-- Run a list in order up to its first aborting failure. -/
def runHooks (phase : HookPhase) : Nat → List Hook → CapturePass (Option HookFailure)
  | _, [] => pure none
  | index, hook :: rest => do
    match ← api (.hook phase index hook rest.isEmpty) with
    | .passed => runHooks phase (index + 1) rest
    | .failed message =>
      if hook.continueOnFailure then runHooks phase (index + 1) rest
      else pure (some { index, kind := hook.kind, message })

def stampedPostHooks (after : List Hook) : CapturePass (Option HookFailure) := do
  let failure ← runHooks .after 0 after
  api (.stampHooks .after)
  pure failure

def runPostHooksOnce (backup : CaptureRun) : CapturePass (Option HookFailure) :=
  if backup.postCompletedAt then pure none
  else do
    match ← api .getPolicy with
    | none => pure none
    | some hooks =>
      if hooks.afterSnapshot = [] then pure none else stampedPostHooks hooks.afterSnapshot

def failForHook (phase : HookPhase) (failure : HookFailure) : CapturePass Unit :=
  api (.patchHookFailure phase failure true)

def launchJob : CapturePass Unit := do
  match ← api .resolveSource with
  | .found =>
    api .createJob
    api (.patchPhase .running false)
  | .stagedClaimAbsent => pure ()
  | .sourceAbsent expired => api (.patchPhase (if expired then .failed else .pending) true)

def stageSource : CapturePass Unit := do
  match ← api .resolveStaging with
  | .notApplicable => launchJob
  | .ready =>
    api (.recordStaged false)
    launchJob
  | .waiting => api (.patchPhase .pending false)
  | .failed =>
    api (.recordStaged true)
    api .cleanupStaged

/-- Stamped before the Job exists. -/
def stampedPreHooks (before : List Hook) : CapturePass Unit := do
  match ← runHooks .before 0 before with
  | some failure => failForHook .before failure
  | none =>
    api (.stampHooks .before)
    stageSource

def patchGate (gate : LaunchGate) : CapturePass Unit :=
  match gate.patch with
  | some (phase, conditions) => api (.patchPhase phase conditions)
  | none => pure ()

def launchCapture (backup : CaptureRun) : CapturePass Unit := do
  match ← api (.launchGate (firstLaunch backup.phase)) with
  | .admitted hooks =>
    if hooks.beforeSnapshot ≠ [] ∧ !backup.preCompletedAt then stampedPreHooks hooks.beforeSnapshot
    else stageSource
  | gate => patchGate gate

def cleanupIfStaged (backup : CaptureRun) : CapturePass Unit :=
  if backup.staged then api .cleanupStaged else pure ()

/-- In the steady states: only once the Job is terminal or gone. -/
def cleanupAfterJob (backup : CaptureRun) : CapturePass Unit :=
  if backup.staged then do
    match ← api .getJob with
    | some none => pure ()
    | some (some _) | none => api .cleanupStaged
  else pure ()

def failInFlight (cleanup : CapturePass Unit) : CapturePass Unit := do
  api (.patchPhase .failed true)
  let _ ← api .deleteJob
  cleanup

def jobInFlight (backup : CaptureRun) : CapturePass Unit := do
  match ← api .watchStagedPvc with
  | .provisioning => pure ()
  | .expired => failInFlight (api .cleanupStaged)
  | .clear =>
    if ← api .podWedged then failInFlight (cleanupIfStaged backup)
    else if backup.phase ≠ some .running then api (.patchPhase .running true)
    else pure ()

def jobSucceeded (backup : CaptureRun) : CapturePass Unit := do
  match ← runPostHooksOnce backup with
  | some failure => failForHook .after failure
  | none =>
    if backup.phase = some .succeeded ∨ backup.phase = some .unchanged then cleanupIfStaged backup
    else
      api (.patchPhase .succeeded true)
      cleanupIfStaged backup

def surfaceHookFailure : Option HookFailure → CapturePass Unit
  | some failure => api (.patchHookFailure .after failure false)
  | none => pure ()

def jobFailed (backup : CaptureRun) : CapturePass Unit := do
  surfaceHookFailure (← runPostHooksOnce backup)
  if backup.phase ≠ some .failed then
    api (.patchPhase .failed true)
    cleanupIfStaged backup
  else cleanupIfStaged backup

def succeededSteadyState (backup : CaptureRun) : CapturePass Unit := do
  match ← runPostHooksOnce backup with
  | some failure => failForHook .after failure
  | none =>
    if !backup.ready then
      api (.patchPhase (if backup.phase = some .unchanged then .unchanged else .succeeded) true)
      cleanupAfterJob backup
    else cleanupAfterJob backup

def terminalFailed (backup : CaptureRun) : CapturePass Unit := do
  surfaceHookFailure (← runPostHooksOnce backup)
  if !backup.stalled then
    api (.patchPhase .failed true)
    cleanupAfterJob backup
  else cleanupAfterJob backup

def handleDeletion (backup : CaptureRun) : CapturePass Unit :=
  if !backup.finalizer then pure ()
  else do
    cleanupIfStaged backup
    match ← api .planDeletion with
    | .deferred => pure ()
    | .held | .batched => api (.patchPhase .deleting false)
    | .release => api .removeFinalizer

def runCapture (backup : CaptureRun) : CapturePass Unit := do
  match ← api .getJob with
  | some (some true) => jobSucceeded backup
  | some (some false) => jobFailed backup
  | some none => jobInFlight backup
  | none => launchCapture backup

def reconcileCapture (backup : CaptureRun) : CapturePass Unit :=
  if backup.deleting then handleDeletion backup
  else if !backup.finalizer then api .ensureFinalizer
  else match runDecision backup.phase with
    | .run => runCapture backup
    | .succeededSteadyState => succeededSteadyState backup
    | .terminalFailed => terminalFailed backup
    | .wait => pure ()

end Kopiur
