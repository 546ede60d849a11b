import Kopiur.Controller.Health
import Kopiur.Lib.Text

/-!
# A pass of the repository reconciler

One pass reads the stored object and its bootstrap Job and issues calls to the
API server in a fixed order. A failed call ends the pass, so what a pass does
is a prefix of its effects. Requeue intervals, events and metrics are left out,
and so are conditions that no decision reads.

Beside the objects the model records what happened: which ids were pinned,
which verdicts were recorded, which listings were scanned. Nothing in a pass
reads these records.
-/

namespace Kopiur

open Lib

inductive Backend
  | filesystem (volume : Bool)
  | objectStore
deriving DecidableEq

def Backend.barePath : Backend → Bool
  | .filesystem volume => !volume
  | .objectStore => false

structure SeedSpec where
  migrate : Bool := false
  allowEmptySource : Bool := false
  deadlineSecs : Int := 86400
deriving DecidableEq

/-- The spec, with defaults resolved. -/
structure RepositorySpec where
  suspend : Bool := false
  backend : Backend := .objectStore
  createEnabled : Bool := true
  seed : Option SeedSpec := none
  probeEnabled : Bool := true
  probeInterval : Duration := .seconds 1800
  failureThreshold : Int := 3
  onFailure : ProbeOnFailure := .degrade
  activeDeadlineSeconds : Option Int := none
  periodicRefresh : Bool := false
  refreshInterval : Duration := .seconds 3600
deriving DecidableEq

structure SeedStatus where
  startedAt : Option String := none
  seededAt : Option String := none
deriving DecidableEq

structure RepositoryStatus where
  phase : Option RepositoryPhase := none
  uniqueId : Option String := none
  observedGeneration : Option Int := none
  conditions : List Condition := []
  health : HealthStatus := {}
  lastReverifyAt : Option String := none
  lastRefreshAt : Option String := none
  scanRequestHonored : Option String := none
  scanRequestAttemptAt : Option String := none
  seed : SeedStatus := {}
  resolvedCredentialVersion : Option String := none
deriving DecidableEq

/-- A `Repository`, with the annotations the reconciler reads. -/
structure Repository where
  generation : Int
  spec : RepositorySpec
  reinitAck : Option String := none
  scanToken : Option String := none
  reverifyToken : Option String := none
  status : RepositoryStatus := {}
deriving DecidableEq

structure StatusPatch where
  phase : PatchField RepositoryPhase := .keep
  uniqueId : PatchField String := .keep
  observedGeneration : PatchField Int := .keep
  conditions : Option (List Condition) := none
  health : HealthPatch := {}
  lastReverifyAt : PatchField String := .keep
  lastRefreshAt : PatchField String := .keep
  scanRequestHonored : PatchField String := .keep
  scanRequestAttemptAt : PatchField String := .keep
  seedStartedAt : PatchField String := .keep
  seededAt : PatchField String := .keep
  resolvedCredentialVersion : PatchField String := .keep
deriving DecidableEq

/-- A merge patch of the status; lists are replaced whole. -/
def RepositoryStatus.merge (s : RepositoryStatus) (p : StatusPatch) : RepositoryStatus where
  phase := p.phase.merge s.phase
  uniqueId := p.uniqueId.merge s.uniqueId
  observedGeneration := p.observedGeneration.merge s.observedGeneration
  conditions := p.conditions.getD s.conditions
  health := s.health.merge p.health
  lastReverifyAt := p.lastReverifyAt.merge s.lastReverifyAt
  lastRefreshAt := p.lastRefreshAt.merge s.lastRefreshAt
  scanRequestHonored := p.scanRequestHonored.merge s.scanRequestHonored
  scanRequestAttemptAt := p.scanRequestAttemptAt.merge s.scanRequestAttemptAt
  seed :=
    { startedAt := p.seedStartedAt.merge s.seed.startedAt
      seededAt := p.seededAt.merge s.seed.seededAt }
  resolvedCredentialVersion := p.resolvedCredentialVersion.merge s.resolvedCredentialVersion

-- The bootstrap Job

/-- What held when a bootstrap was launched. -/
structure Launch where
  number : Nat
  time : DateTime
  pin : Option String
  ack : Option String
  phase : Option RepositoryPhase
  conditions : List Condition
  -- an id had been pinned before
  pinnedBefore : Bool
  -- a wiped-repository verdict was recorded since the last connect of a Job
  freshVerdict : Bool
  -- acknowledgments that a re-creation has used up
  spentAcks : List String
  probeStyle : Bool
deriving DecidableEq

structure DiscoveryJob where
  -- the two annotations of a launch
  generation : Option String
  reinitAck : Option String
  op : BootstrapRepositoryOp
  deadlineSecs : Int
  terminal : Option MoverJobTerminal := none
  -- set when a Job finishes successfully, and only then
  completionTime : Option DateTime := none
  -- how the last run of the mover ended
  exit : Option Bool := none
  -- the result ConfigMap
  report : Option BootstrapReport := none
  launch : Launch
  -- a listing that is taken and not reported yet, and the step at which it was taken
  listing : Option (Nat × List String) := none
  -- the step at which the reported listing was taken
  listedAt : Option Nat := none
deriving DecidableEq

/-- Whether a finished Job is stale evidence: launched for another generation,
or before an acknowledgment that is valid now. -/
def staleBootstrapJob (stamped : Option String) (liveGeneration : Option Int)
    (stampedAck liveAck : Option String) : Bool :=
  if liveAck.isSome && liveAck != stampedAck then true
  else
    match stamped, liveGeneration with
    | none, _ | _, none => false
    | some s, some live =>
      match parseInt s with
      | some g => g != live
      | none => true

/-- What happened, as later steps of the system leave it on record. -/
inductive Event
  | connected (inProcess : Bool)
  | pinned (id : String)
  | verdict
  | recreated (ack id : String)
  -- a bootstrap reached the create action
  | created (launch : Launch) (grant : CreateGrant) (answer : ConnectError)
  -- the launch stamp of a probe Job was recorded
  | stamped (job : Nat)
  -- the result of a Job was folded into the health, as a probe's or not
  | folded (job : Nat) (probe : Bool)
  -- a pass deleted a Job
  | removed (job : Nat)
  -- a scan retired a token: when the token was stamped and the listing taken,
  -- the snapshots that were there all the time since, and those listed
  | honored (token : String) (stampedAt listedAt : Nat) (held listed : List String)
deriving DecidableEq

def verdictSinceConnect : List Event → Bool
  | [] => false
  | .verdict :: _ => true
  | .connected false :: _ => false
  | _ :: rest => verdictSinceConnect rest

/-- The acknowledgments under which a repository was re-created with another
id, until that id is pinned again. -/
def spentAcks : List Event → List String
  | [] => []
  | .recreated ack id :: rest => if ack = id then spentAcks rest else ack :: spentAcks rest
  | .pinned id :: rest => (spentAcks rest).filter fun a => a != id
  | _ :: rest => spentAcks rest

def everPinned (log : List Event) : Bool :=
  log.any fun e =>
    match e with
    | .pinned id => id != ""
    | _ => false

structure World where
  now : DateTime
  repo : Repository
  job : Option DiscoveryJob := none
  -- the snapshots in the repository at the backend
  contents : List String := []
  -- the steps taken, and the one that stamped the scan token
  tick : Nat := 0
  tokenAt : Nat := 0
  -- the snapshots that were there since the token was stamped
  held : List String := []
  -- newest first
  log : List Event := []
deriving DecidableEq

inductive Effect
  | deleteJob
  | applyJob (job : DiscoveryJob)
  | patchStatus (patch : StatusPatch) (notes : List Event)
  | requestScan (token : String)
  | createRepository (launch : Launch) (grant : CreateGrant) (answer : ConnectError)
deriving DecidableEq

namespace World

def stampToken (w : World) (token : String) : World :=
  { w with repo := { w.repo with scanToken := some token }, tokenAt := w.tick, held := w.contents }

def apply (w : World) : Effect → World
  | .deleteJob =>
    { w with
      job := none
      log := (w.job.map fun j => Event.removed j.launch.number).toList ++ w.log }
  | .applyJob job => { w with job := some job }
  | .patchStatus patch notes =>
    { w with repo := { w.repo with status := w.repo.status.merge patch }, log := notes ++ w.log }
  | .requestScan token => w.stampToken token
  | .createRepository launch grant answer => { w with log := .created launch grant answer :: w.log }

end World

/-- What the world answers a pass: the credential Secret's version, the kopia
calls made in-process, and whether a catalog scan succeeds. -/
structure PassInput where
  credentialVersion : String := ""
  kopia : KopiaAnswers := { status := .error .unknown }
  scanned : Bool := true

def seedArmed (seed : Option SeedSpec) (uniqueId : Option String) : Bool :=
  seed.isSome && (nonEmpty uniqueId).isNone

def seedResume (armed : Bool) (status : SeedStatus) : Bool :=
  armed && (nonEmpty status.startedAt).isSome && (nonEmpty status.seededAt).isNone

structure ReinitSeedPlan where
  armed : Bool
  resume : Bool
  clearStatus : Bool
deriving DecidableEq

def reinitSeedPlan (seed : Option SeedSpec) (uniqueId : Option String) (status : SeedStatus)
    (reinitRequested : Bool) : ReinitSeedPlan :=
  let armed := seedArmed seed (if reinitRequested then none else uniqueId)
  { armed
    resume := !reinitRequested && seedResume armed status
    clearStatus := reinitRequested && (status.startedAt.isSome || status.seededAt.isSome) }

def isTerminalForGeneration (phase : Option RepositoryPhase) (observedGeneration generation : Option Int) :
    Bool :=
  generation.isSome && phase == some .failed && observedGeneration == generation

def terminalGateHolds (phase : Option RepositoryPhase) (observedGeneration generation : Option Int)
    (recordedVersion : Option String) (currentVersion : String) (reinitRequested : Bool) : Bool :=
  !reinitRequested && isTerminalForGeneration phase observedGeneration generation &&
    recordedVersion == some currentVersion

namespace World

variable (rfc : Rfc3339) (w : World)

def status : RepositoryStatus := w.repo.status

def alreadyReady : Bool := w.status.phase == some .ready

def bootstrappedBefore : Bool := w.status.uniqueId.isSome

def launchReinitAck : Option String :=
  validReinitAck (createGate w.repo.spec.createEnabled w.status.uniqueId w.repo.reinitAck)
    w.status.uniqueId

def reinitRequested : Bool :=
  reinitRequestedBy w.repo.spec.createEnabled w.alreadyReady w.status.uniqueId w.repo.reinitAck
    w.status.conditions

def effectiveCreate : EffectiveCreate :=
  createDecision w.repo.spec.createEnabled w.alreadyReady w.status.uniqueId w.repo.reinitAck
    w.status.conditions

def reverify : Bool := reverifyDue w.repo.reverifyToken w.status.lastReverifyAt w.alreadyReady

def seedPlan : ReinitSeedPlan :=
  reinitSeedPlan w.repo.spec.seed w.status.uniqueId w.status.seed w.reinitRequested

def deadlineSecs : Int :=
  escalatedBootstrapDeadline (bootstrapDeadlineSeconds w.repo.spec.activeDeadlineSeconds)
    (timeoutStreak w.status.conditions (w.status.health.consecutiveProbeFailures.getD 0))

def probe : ProbeAction :=
  probeAction rfc w.alreadyReady w.bootstrappedBefore w.repo.spec.probeEnabled
    w.status.health.lastProbeAt w.status.health.probeAttemptAt w.repo.spec.probeInterval
    (probeAttemptTimeout w.deadlineSecs) w.now

def specChanged : Bool := some w.repo.generation != w.status.observedGeneration

def probeRun : Bool := (w.probe rfc).awaitsResult && !w.specChanged && !w.reverify

def probeStyleLaunch : Bool :=
  w.repo.spec.probeEnabled && w.bootstrappedBefore && w.alreadyReady && !w.reverify && !w.specChanged

def catalogTiming : CatalogTiming where
  generation := some w.repo.generation
  observedGeneration := w.status.observedGeneration
  lastRefreshAt := w.status.lastRefreshAt
  interval := w.repo.spec.refreshInterval
  periodicEnabled := w.repo.spec.periodicRefresh
  token := w.repo.scanToken
  honored := w.status.scanRequestHonored
  attemptAt := w.status.scanRequestAttemptAt
  -- `DEFAULT_CATALOG_REFRESH_INTERVAL`
  retryInterval := .seconds 3600

def catalogCreateDue : Bool := w.catalogTiming.bootstrapCreateDue rfc w.now w.alreadyReady

def nowStr : String := rfc.render w.now

def launchRecord (probeStyle : Bool) : Launch where
  number := w.tick
  time := w.now
  pin := w.status.uniqueId
  ack := w.repo.reinitAck
  phase := w.status.phase
  conditions := w.status.conditions
  pinnedBefore := everPinned w.log
  freshVerdict := verdictSinceConnect w.log
  spentAcks := spentAcks w.log
  probeStyle

-- The end of a bootstrap

def bootstrapCondition (status : Bool) (reason : String) : List Condition :=
  upsertCondition w.status.conditions bootstrappedCondition status reason

/-- Scan a listing into the catalog; a scan that fails asks for another. -/
def runCatalogScan (listedAt : Nat) (listing : List String) (scanned : Bool) : List Effect :=
  if scanned then
    [.patchStatus
      { lastRefreshAt := .value (w.nowStr rfc)
        scanRequestHonored := .skipNone w.repo.scanToken }
      (w.repo.scanToken.map fun t => Event.honored t w.tokenAt listedAt w.held listing).toList]
  else
    (rescanTokenAfterFailedScan rfc w.repo.scanToken w.status.scanRequestHonored w.now).toList.map
      .requestScan

/-- A connect that succeeded, as it is put on record. -/
def connectedNotes (inProcess : Bool) (id : Option String) (created : Bool) (grant : CreateGrant)
    (ack : Option String) : List Event :=
  (if created && grant == .reinitAck then
      ((ack.bind fun a => id.map fun i => Event.recreated a i)).toList
    else []) ++
    (id.map Event.pinned).toList ++ [.connected inProcess]

def finalizeBootstrapSuccess (job : DiscoveryJob) (result : BootstrapReport) (scanned : Bool) :
    List Effect :=
  let probeRun := w.probeRun rfc
  let fold := successFold probeRun w.status.health (backendReachableTrue w.status.conditions)
    (w.nowStr rfc)
  let conditions := w.bootstrapCondition true "Bootstrapped"
  let conditions := if fold.isSome then reconcileProbeSuccess conditions else conditions
  -- a probe never rebinds the identity
  let id := if probeRun && w.bootstrappedBefore then w.status.uniqueId else result.uniqueId
  let patch : StatusPatch :=
    { phase := .value .ready
      uniqueId :=
        match id with
        | some i => .value i
        | none => .null
      observedGeneration := .value w.repo.generation
      conditions := some (setReady conditions .ready "Bootstrapped")
      health := fold.getD {}
      seededAt :=
        if result.seed == some true then .value (w.status.seed.seededAt.getD (w.nowStr rfc))
        else .keep }
  let scans := result.snapshotCount.isSome && w.catalogTiming.scanDue rfc w.now
  let scan :=
    if scans then w.runCatalogScan rfc (job.listedAt.getD 0) result.snapshots scanned else []
  [.patchStatus patch
    ((if fold.isSome then [.folded job.launch.number probeRun] else []) ++
      connectedNotes false id result.created job.op.grant job.launch.ack)] ++
  scan ++
  -- a probe consumes its Job, unless the scan of its listing failed
  if probeRun && !(scans && !scanned) then [.deleteJob] else []

def finalizeProbeFailure (job : DiscoveryJob) (failure : BootstrapFailure) : List Effect :=
  let kind := probeFailureKind failure
  let upd := reconcileProbeFailure w.status.conditions w.status.health kind
    w.repo.spec.failureThreshold (w.nowStr rfc)
  let streak := upd.2.consecutiveProbeFailures.getD 0
  let p := probeFailurePhase
    (breakerVerdict streak w.repo.spec.failureThreshold w.repo.spec.onFailure) kind
  [.patchStatus
    { phase := .value p.phase
      health := probeFailureHealthPatch upd.2
      conditions := some (setReady upd.1 (readyOutcomeForPhase p.phase) p.readyReason) }
    (.folded job.launch.number true ::
      if kind = .vanished ∧ max w.repo.spec.failureThreshold 1 ≤ streak then [.verdict] else []),
    .deleteJob]

/-- A failed strict connect is a tick of the sensor, not a change of phase by
itself. -/
def recycleBootstrapOutage (job : DiscoveryJob) (failure : BootstrapFailure) : List Effect :=
  let kind := probeFailureKind failure
  let upd := reconcileProbeFailure w.status.conditions w.status.health kind
    w.repo.spec.failureThreshold (w.nowStr rfc)
  let p := probeFailurePhase
    (breakerVerdict (upd.2.consecutiveProbeFailures.getD 0) w.repo.spec.failureThreshold
      w.repo.spec.onFailure) kind
  let conditions :=
    if p.opened then upsertCondition upd.1 bootstrappedCondition false failure.reason else upd.1
  [.deleteJob,
    .patchStatus
      { phase := .value p.phase
        observedGeneration := .value w.repo.generation
        health := probeFailureHealthPatch upd.2
        conditions := some (setReady conditions (readyOutcomeForPhase p.phase) p.readyReason) }
      [.folded job.launch.number false]]

def recycleFailedBootstrap (job : DiscoveryJob) (failure : BootstrapFailure) (stampStreak : Bool) :
    List Effect :=
  [.deleteJob,
    .patchStatus
      { phase := .value .degraded
        observedGeneration := .value w.repo.generation
        conditions := some
          (setReady (w.bootstrapCondition false failure.reason)
            (readyOutcomeForPhase .degraded) failure.reason)
        health :=
          if stampStreak then
            probeFailureHealthPatch (failureStreakHealth w.status.health (w.nowStr rfc))
          else {} }
      (if stampStreak then [.folded job.launch.number false] else [])]

def parkTerminalBootstrap (failure : BootstrapFailure) : List Effect :=
  [.patchStatus
    { phase := .value .failed
      observedGeneration := .value w.repo.generation
      conditions := some
        (setReady (w.bootstrapCondition false failure.reason)
          (readyOutcomeForPhase .failed) failure.reason) }
    (if failure = .repositoryReinitializeBlocked then [.verdict] else [])]

def finalizeBootstrapFailure (job : DiscoveryJob) (failure : BootstrapFailure) : List Effect :=
  if w.probeRun rfc then w.finalizeProbeFailure rfc job failure
  else
    match failure.route w.bootstrappedBefore with
    | .outageSensor => w.recycleBootstrapOutage rfc job failure
    | .recycle => w.recycleFailedBootstrap rfc job failure true
    | .seedRetry => w.recycleFailedBootstrap rfc job failure false
    | .terminal => w.parkTerminalBootstrap failure

def finalizeBootstrap (job : DiscoveryJob) (terminal : MoverJobTerminal) (scanned : Bool) :
    List Effect :=
  match bootstrapOutcome job.report terminal w.seedPlan.armed job.deadlineSecs with
  | .resultPending => []
  | .failed failure => w.finalizeBootstrapFailure rfc job failure
  | .succeeded result => w.finalizeBootstrapSuccess rfc job result scanned

def bootstrapWorkSpec : BootstrapRepositoryOp where
  autoCreate := w.effectiveCreate.allowed
  createBlock := w.effectiveCreate.block
  pinnedUniqueId := w.status.uniqueId
  createViaReinitAck := w.effectiveCreate.viaReinitAck
  probeOnly := w.probeStyleLaunch && !w.catalogCreateDue rfc
  seed :=
    if w.seedPlan.armed then
      w.repo.spec.seed.map fun s =>
        { resume := w.seedPlan.resume, migrate := s.migrate, allowEmptySource := s.allowEmptySource }
    else none

def bootstrapJob : DiscoveryJob where
  generation := some w.repo.generation.repr
  reinitAck := w.launchReinitAck
  op := w.bootstrapWorkSpec rfc
  deadlineSecs :=
    if w.seedPlan.armed then (w.repo.spec.seed.map SeedSpec.deadlineSecs).getD w.deadlineSecs
    else w.deadlineSecs
  launch := w.launchRecord w.probeStyleLaunch

def seedMarker : List Effect :=
  let existing := if w.seedPlan.clearStatus then {} else w.status.seed
  if !w.seedPlan.armed || (nonEmpty existing.seededAt).isSome ||
      (nonEmpty existing.startedAt).isSome then []
  else [.patchStatus { seedStartedAt := .value (w.nowStr rfc) } []]

def launchPatch : StatusPatch where
  phase := if w.probeStyleLaunch then .keep else .value (launchPhase w.status.phase)
  lastReverifyAt := .skipNone w.repo.reverifyToken
  -- a strict launch clears a stale stamp
  health :=
    if w.repo.spec.probeEnabled || w.status.health.probeAttemptAt.isSome then
      probeAttemptHealthPatch (if w.probeStyleLaunch then some (w.nowStr rfc) else none)
    else {}
  scanRequestAttemptAt :=
    if w.catalogTiming.requestDue rfc w.now then .value (w.nowStr rfc) else .keep

def launchBootstrap : List Effect :=
  (if w.seedPlan.clearStatus then [.patchStatus { seedStartedAt := .null, seededAt := .null } []]
    else []) ++
  w.seedMarker rfc ++
  [.applyJob (w.bootstrapJob rfc),
    .patchStatus (w.launchPatch rfc) (if w.probeStyleLaunch then [.stamped w.tick] else [])]

def recycles (job : DiscoveryJob) : Bool :=
  staleBootstrapJob job.generation (some w.repo.generation) job.reinitAck w.launchReinitAck ||
    w.reverify || (w.probe rfc).launches ||
    w.catalogTiming.bootstrapRecycleDue rfc w.now w.alreadyReady
      (job.completionTime.map rfc.render)

def holdsOff : Bool :=
  !w.specChanged &&
    (strictRetryHoldoff rfc (w.status.phase == some .degraded)
      (w.status.health.consecutiveProbeFailures.getD 0) w.status.health.lastProbeAt w.now).isSome

def bootstrapViaMover (scanned : Bool) : List Effect :=
  match w.job with
  | some job =>
    match job.terminal with
    | none =>
      if w.alreadyReady then []
      else [.patchStatus { phase := .value (launchPhase w.status.phase) } []]
    | some terminal =>
      if w.recycles rfc job then [.deleteJob] else w.finalizeBootstrap rfc job terminal scanned
  | none =>
    if !(w.reverify || (w.probe rfc).launches || w.catalogCreateDue rfc) then []
    else if w.holdsOff rfc then []
    else w.launchBootstrap rfc

/-- The connect failed because a once-`Ready` repository is gone. -/
def inprocessReinitializeBlock (e : ConnectError) : Bool :=
  (match w.effectiveCreate.block with
    | some (.onceReadyPinned _) => true
    | some .specDisabled | none => false) &&
    e.cls == .notFound && e.uninitialized && w.bootstrappedBefore

def inProcessFailed (i : PassInput) (e : ConnectError) : List Effect :=
  let phase : RepositoryPhase := if e.cls.isRetryable then .degraded else .failed
  let blocked := w.inprocessReinitializeBlock e
  let reason := if blocked then BootstrapFailure.repositoryReinitializeBlocked.reason else e.cls.asStr
  [.patchStatus
    { phase := .value phase
      observedGeneration := .value w.repo.generation
      resolvedCredentialVersion := .value i.credentialVersion
      conditions := some
        (setReady (w.bootstrapCondition false reason) (readyOutcomeForPhase phase) reason) }
    (if blocked then [.verdict] else [])]

def inProcessReady (i : PassInput) (created : Bool) : List Effect :=
  match i.kopia.status with
  | .error _ => []
  | .ok id =>
    [.patchStatus
      { phase := .value .ready
        uniqueId := .value id
        observedGeneration := .value w.repo.generation
        resolvedCredentialVersion := .value i.credentialVersion
        lastReverifyAt := .skipNone w.repo.reverifyToken
        conditions := some (setReady w.status.conditions .ready "Connected") }
      (connectedNotes true (some id) created w.effectiveCreate.grant w.repo.reinitAck)] ++
    if w.catalogTiming.scanDue rfc w.now then
      w.runCatalogScan rfc w.tick w.contents (i.scanned && i.kopia.list.isNone)
    else []

def bootstrapInProcess (i : PassInput) : List Effect :=
  if terminalGateHolds w.status.phase w.status.observedGeneration (some w.repo.generation)
      w.status.resolvedCredentialVersion i.credentialVersion w.reinitRequested then []
  else
    match i.kopia.connect with
    -- no throttle is applied in-process
    | none | some (.throttle _) => w.inProcessReady rfc i false
    | some (.connect e) =>
      if shouldAttemptCreate w.effectiveCreate.grant e.cls e.uninitialized then
        .createRepository (w.launchRecord false) w.effectiveCreate.grant e ::
          match i.kopia.create, i.kopia.reconnect with
          | some cls, _ | none, some cls => w.inProcessFailed i ⟨cls, false⟩
          | none, none => w.inProcessReady rfc i true
      else w.inProcessFailed i e

/-- The effects of one pass, in order. -/
def reconcileInner (i : PassInput) : List Effect :=
  -- a seed on a bare path does not validate
  if w.repo.spec.seed.isSome && w.repo.spec.backend.barePath then []
  else if w.repo.spec.suspend then
    [.patchStatus
      { observedGeneration := .value w.repo.generation
        conditions := some (setReady w.status.conditions .reconciling "Suspended") } []]
  else if w.repo.spec.backend.barePath then w.bootstrapInProcess rfc i
  else w.bootstrapViaMover rfc i.scanned

end World

end Kopiur
