import Kopiur.Controller.RunJobs
import Kopiur.Controller.RunRequests
import Kopiur.Controller.StatusConditions
import Kopiur.Controller.ScheduleTiming
import Kopiur.Controller.VerificationRuns

/-!
# The reconcile of a SnapshotReplication

A pass goes through its gates, answers a requested run and then runs the slot
that is due. It writes `Ready` at most once; a stall that a requested run leaves
is carried into that write.
-/

namespace Kopiur

open Lib

-- The object

structure ReplicationManualRunStatus where
  requestedAt : Option String := none
  phase : Option ManualRunPhase := none
  completedAt : Option String := none
deriving DecidableEq

inductive SnapshotReplicationPhase
  | pending
  | replicating
  | succeeded
  | failed
  | suspended
  | unknown (label : String)
deriving DecidableEq

structure SnapshotReplicationStatus where
  phase : Option SnapshotReplicationPhase := none
  lastReplicated : Option String := none
  conditions : List StatusCondition := []
  manualRun : Option ReplicationManualRunStatus := none
deriving DecidableEq

structure SnapshotReplication where
  name : String
  uid : Option String := none
  generation : Option Int := none
  schedule : CronSpec
  suspend : Bool := false
  -- The value of the run-requested annotation.
  requested : Option String := none
  status : SnapshotReplicationStatus := {}
deriving DecidableEq

structure RunRequest where
  raw : String
  at' : DateTime
deriving DecidableEq

inductive ReplicationRun
  | cron (slot : DateTime)
  | manual (requestedAt : String) (requested : DateTime)
deriving DecidableEq

inductive OverlapVerdict
  | none
  | warn (identities : List String)
  | stall (identities : List String)
deriving DecidableEq

inductive ReplicationPatch
  | ready (conditions : List StatusCondition) (phase : Option SnapshotReplicationPhase)
  | conditions (conditions : List StatusCondition)
  | manualRun (manual : ReplicationManualRunStatus)
  -- Computed from the conditions that are there when it is made.
  | slotAcquired (now : DateTime) (message : String)
deriving DecidableEq

abbrev ReplicationCall := RunCall ReplicationPatch ReplicationRun

inductive ReplicationEdit
  | request (requested : Option String)
  | suspend (suspend : Bool)
deriving DecidableEq

def repositorySlotAvailableCondition : String := "RepositorySlotAvailable"

def slotGateIsFalse (conditions : List StatusCondition) : Bool :=
  conditions.any fun c => c.type == repositorySlotAvailableCondition && c.status == .false

namespace SnapshotReplication

def slotAcquired (now : DateTime) (message : String) (generation : Option Int)
    (live : List StatusCondition) : List StatusCondition :=
  if slotGateIsFalse live then
    StatusCondition.upsert now live repositorySlotAvailableCondition true "SlotAcquired" message
      generation
  else live

def patch : ReplicationPatch → SnapshotReplication → SnapshotReplication
  | .ready conditions phase, r =>
    { r with status := { r.status with conditions, phase := phase <|> r.status.phase } }
  | .conditions conditions, r => { r with status := { r.status with conditions } }
  | .manualRun manual, r => { r with status := { r.status with manualRun := some manual } }
  | .slotAcquired now message, r =>
    { r with
      status :=
        { r.status with
          conditions := slotAcquired now message r.generation r.status.conditions } }

/-- An object of three optional keys, as it is serialized. -/
structure ManualRunJson where
  requestedAt : MergeField String
  phase : MergeField String
  completedAt : MergeField String
deriving DecidableEq

def phaseLabel : ManualRunPhase → String
  | .pending => "Pending"
  | .running => "Running"
  | .succeeded => "Succeeded"
  | .failed => "Failed"
  | .unknown label => label

def manualRunJson (manual : ReplicationManualRunStatus) : ManualRunJson where
  requestedAt := match manual.requestedAt with | some raw => .value raw | none => .absent
  phase := match manual.phase with | some p => .value (phaseLabel p) | none => .absent
  completedAt := match manual.completedAt with | some t => .value t | none => .null

def mergeKey {β : Type} (target patch : MergeField β) : MergeField β :=
  match patch with
  | .absent => target
  | .null => .absent
  | .value v => .value v

def mergePatch (target patch : ManualRunJson) : ManualRunJson where
  requestedAt := mergeKey target.requestedAt patch.requestedAt
  phase := mergeKey target.phase patch.phase
  completedAt := mergeKey target.completedAt patch.completedAt

def statusMergePatchIsNoop (current : Option ReplicationManualRunStatus)
    (desired : ReplicationManualRunStatus) : Bool :=
  current.any fun c => mergePatch (manualRunJson c) (manualRunJson desired) == manualRunJson c

def patchManualRun (r : SnapshotReplication) (manual : ReplicationManualRunStatus) :
    List ReplicationCall :=
  if statusMergePatchIsNoop r.status.manualRun manual then [] else [.patch (.manualRun manual)]

def identityOverlapCondition : String := "IdentityOverlap"

def identitySample (identities : List String) : String :=
  let cap := 5
  let out := ", ".intercalate (identities.take cap)
  if identities.length > cap then
    out ++ " (+" ++ toString (identities.length - cap) ++ " more)"
  else out

def overlapConditionFields : OverlapVerdict → ConditionStatus × String × String
  | .none =>
    (.false, "NoOverlap", "no destination SnapshotPolicy writes to the selected identities")
  | .warn identities | .stall identities =>
    (.true, "DestinationPolicyIdentityOverlap",
      "a destination SnapshotPolicy also writes to identities this replication copies (" ++
        identitySample identities ++ "), so the two will mix in one history. Fix: narrow " ++
        "spec.selection or change the destination policy's identity")

/-- `Ready`, with the overlap where a verdict was computed; nothing is written if
both say so already. -/
def patchReadyIfChanged (r : SnapshotReplication) (now : DateTime) (outcome : ReadyOutcome)
    (reason message : String) (phase : Option SnapshotReplicationPhase)
    (overlap : Option OverlapVerdict) : List ReplicationCall :=
  let existing := r.status.conditions
  let target := if outcome == .ready then ConditionStatus.true else .false
  let fields := overlap.map overlapConditionFields
  let overlapUnchanged := fields.all fun (status, reason, message) =>
    (StatusCondition.find existing identityOverlapCondition).any fun c =>
      c.status == status && c.reason == reason && c.message == message
  let readyUnchanged := (StatusCondition.find existing readyCondition).any fun c =>
    c.status == target && c.reason == reason
  if overlapUnchanged && readyUnchanged then []
  else
    let generation := some (r.generation.getD 0)
    let conditions := StatusCondition.setReady now existing generation outcome reason message
    let conditions := match fields with
      | some (status, reason, message) =>
        StatusCondition.upsertStatus now conditions identityOverlapCondition status reason message
          generation
      | none => conditions
    [.patch (.ready conditions phase)]

section Slots

variable (engine : CronEngine) (times : RunTimes)

def lastRunAt (r : SnapshotReplication) : Option DateTime :=
  r.status.lastReplicated.bind times.parse

def slotFor (r : SnapshotReplication) (after : DateTime) (defaults : Option ScheduleDefaults) :
    Except ReconcileError DateTime :=
  Kopiur.slotFor engine (r.uid.getD r.name) r.schedule after defaults

def slotAfter (r : SnapshotReplication) (now : DateTime) : DateTime :=
  (r.lastRunAt times).getD (now - firstLookback)

def dueSlot (r : SnapshotReplication) (now : DateTime) (defaults : Option ScheduleDefaults) :
    Option DateTime :=
  match r.slotFor engine (r.slotAfter times now) defaults with
  | .ok slot => if now ≥ slot then some slot else none
  | .error _ => none

end Slots

def answers (manual : ReplicationManualRunStatus) (raw : String) : Bool :=
  manual.requestedAt == some raw && manual.phase.any ManualRunPhase.answersRequest

def manualRunRequest (times : RunTimes) (r : SnapshotReplication) :
    Except String (Option RunRequest) :=
  match r.requested with
  | none => .ok none
  | some raw =>
    if r.status.manualRun.any fun m => answers m raw then .ok none
    else do
      let parsed ← parseRunRequestedAt times (some raw)
        "kubectl kopiur replication run --kind snapshot"
      .ok (parsed.map fun t => ⟨raw, t⟩)

/-- Terminal phases have the instant they were reached. -/
def manualRunStatus (times : RunTimes) (request : RunRequest) (phase : ManualRunPhase)
    (now : DateTime) : ReplicationManualRunStatus where
  requestedAt := some request.raw
  phase := some phase
  completedAt := match phase with
    | .succeeded | .failed => some (times.render now)
    | .pending | .running | .unknown _ => none

def recordedRunning (manual : Option ReplicationManualRunStatus) (request : RunRequest) : Bool :=
  manual.any fun m =>
    m.requestedAt == some request.raw && m.phase.any ManualRunPhase.impliesJobLaunched

def suspendedManualRun (times : RunTimes) (request : RunRequest)
    (manual : Option ReplicationManualRunStatus) (now : DateTime) :
    Option ReplicationManualRunStatus :=
  if recordedRunning manual request then none
  else some (manualRunStatus times request .pending now)

structure RunStall where
  reason : String
  message : String
deriving DecidableEq

def idleReport : Option RunStall → Bool × String × String
  | some s => (false, s.reason, s.message)
  | none => (true, "Idle", "idle; waiting for the next scheduled run")

def suspendedReport (pendingRequest : Bool) : String × String :=
  if pendingRequest then
    ("SuspendedWithPendingRun",
      "run requested, but replication is suspended (spec.suspend); it runs once resumed")
  else ("Suspended", "replication is suspended (spec.suspend)")

-- A pass

/-- The pool of the source repository: a slot with the text of its condition, or
the text that says what is waited for. -/
inductive PoolVerdict
  | admitted (acquired : String)
  | park (waiting : String)
deriving DecidableEq

structure Env where
  specValid : Bool := true
  -- Both repositories can be read.
  resolved : Bool := true
  defaults : Option ScheduleDefaults := none
  sourceReady : Bool := true
  destReady : Bool := true
  destWritable : Bool := true
  overlap : OverlapVerdict := .none
  pool : PoolVerdict := .admitted ""
  -- The slot condition could be written.
  healed : Bool := true

def Env.slotMessage (env : Env) : String :=
  match env.pool with
  | .admitted message | .park message => message

def healReplicationSlotCondition (env : Env) (now : DateTime) (r : SnapshotReplication) :
    List ReplicationCall :=
  if slotGateIsFalse r.status.conditions && env.healed then
    [.patch (.slotAcquired now env.slotMessage)]
  else []

def parked (now : DateTime) (waiting : String) (r : SnapshotReplication) : List ReplicationCall :=
  let updated := StatusCondition.upsert now r.status.conditions repositorySlotAvailableCondition
    false "WaitingForSlot" waiting r.generation
  if updated = r.status.conditions then [] else [.patch (.conditions updated)]

def suspended (times : RunTimes) (now : DateTime) (r : SnapshotReplication) :
    List ReplicationCall :=
  let pending := (r.manualRunRequest times).toOption.join
  let (reason, message) := suspendedReport pending.isSome
  let record := pending.bind fun request =>
    suspendedManualRun times request r.status.manualRun now
  (record.map r.patchManualRun).getD [] ++
    r.patchReadyIfChanged now .reconciling reason message (some .suspended) none

inductive ManualRunVerdict
  | inFlight
  | continue (stall : Option RunStall)
deriving DecidableEq

def handleManualRun (times : RunTimes) (env : Env) (view : JobsView) (r : SnapshotReplication)
    (request : RunRequest) : List ReplicationCall × ManualRunVerdict :=
  let jobName := manualReplicationJobName r.name request.at'
  let record := fun phase => r.patchManualRun (manualRunStatus times request phase view.now)
  match view.job jobName with
  | some (some true) => (record .succeeded, .continue none)
  | some (some false) =>
    (record .failed, .continue (some ⟨"ReplicationFailed",
      "requested snapshot-replication Job failed; see the Job/pod logs"⟩))
  | some none => (healReplicationSlotCondition env view.now r, .inFlight)
  | none =>
    if recordedRunning r.status.manualRun request then
      (record .failed, .continue (some ⟨"ManualRunOutcomeLost",
        "the requested snapshot-replication Job was gone before its result was read. Fix: " ++
          "re-annotate to run it again"⟩))
    else if view.active then (record .pending, .inFlight)
    else
      match env.pool with
      | .park waiting => (parked view.now waiting r ++ record .pending, .inFlight)
      | .admitted _ =>
        (.create jobName (.manual request.raw request.at') ::
          healReplicationSlotCondition env view.now r ++ record .running, .inFlight)

/-- The schedule after the request; `stall` is what the request left. -/
def runDueSlot (engine : CronEngine) (times : RunTimes) (env : Env) (view : JobsView)
    (r : SnapshotReplication) (stall : Option RunStall) : List ReplicationCall :=
  match r.dueSlot engine times view.now env.defaults with
  | none =>
    let (ready, reason, message) := idleReport stall
    r.patchReadyIfChanged view.now (if ready then .ready else .stalled) reason message
      (if ready then none else some .failed) (some env.overlap)
  | some slot =>
    let jobName := snapshotReplicationJobName r.name slot
    match view.job jobName with
    | some (some true) => []
    | some (some false) =>
      r.patchReadyIfChanged view.now .stalled "ReplicationFailed"
        "snapshot-replication Job failed; see the Job/pod logs" (some .failed) (some env.overlap)
    | some none => healReplicationSlotCondition env view.now r
    | none =>
      if view.active then []
      else
        match env.pool with
        | .park waiting => parked view.now waiting r
        | .admitted _ =>
          .create jobName (.cron slot) :: healReplicationSlotCondition env view.now r

def driveSchedule (engine : CronEngine) (times : RunTimes) (env : Env) (view : JobsView)
    (r : SnapshotReplication) : List ReplicationCall :=
  match r.manualRunRequest times with
  | .ok none => r.runDueSlot engine times env view none
  | .error message => r.runDueSlot engine times env view (some ⟨"InvalidRunRequest", message⟩)
  | .ok (some request) =>
    match r.handleManualRun times env view request with
    | (calls, .inFlight) => calls
    | (calls, .continue stall) => calls ++ r.runDueSlot engine times env view stall

def reconcile (engine : CronEngine) (times : RunTimes) (env : Env) (view : JobsView)
    (r : SnapshotReplication) : List ReplicationCall :=
  if !env.specValid then []
  else if r.suspend then r.suspended times view.now
  else if !env.resolved then []
  else if !env.sourceReady then
    r.patchReadyIfChanged view.now .reconciling "WaitingForSourceRepository"
      "source repository is not Ready; deferring replication" none none
  else if !env.destReady then
    r.patchReadyIfChanged view.now .reconciling "WaitingForDestinationRepository"
      "destination repository is not Ready; deferring replication" none none
  else if !env.destWritable then
    r.patchReadyIfChanged view.now .stalled "DestinationReadOnly"
      ("destination repository is ReadOnly. Fix: set its spec.mode to ReadWrite, or " ++
        "point destinationRef at another repository") none none
  else
    match env.overlap with
    | .stall identities =>
      r.patchReadyIfChanged view.now .stalled "ReplicationIdentityOverlap"
        ("pruning: mirrorSource would delete backups a destination SnapshotPolicy writes to the " ++
          "same identities (" ++ identitySample identities ++ "). Fix: exclude them in " ++
          "spec.selection, change the destination policy's identity, or turn off mirrorSource")
        none (some env.overlap)
    | .none | .warn _ => r.driveSchedule engine times env view

def stamp (times : RunTimes) (_ : ReplicationRun) (now : DateTime) (r : SnapshotReplication) :
    SnapshotReplication :=
  { r with
    status :=
      { r.status with phase := some .succeeded, lastReplicated := some (times.render now) } }

def edit : ReplicationEdit → SnapshotReplication → SnapshotReplication
  | .request requested, r => { r with requested }
  | .suspend suspend, r => { r with suspend }

/-- A replication as a kind of object that runs Jobs. -/
def kind (engine : CronEngine) (times : RunTimes) :
    RunKind SnapshotReplication ReplicationPatch ReplicationRun Env ReplicationEdit where
  reconcile := SnapshotReplication.reconcile engine times
  apply := patch
  edit := SnapshotReplication.edit
  stamp := SnapshotReplication.stamp times

end SnapshotReplication

end Kopiur
