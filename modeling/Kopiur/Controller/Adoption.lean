import Kopiur.Api.Identity
import Kopiur.Api.RetentionBuckets
import Kopiur.Controller.Plan

/-!
# Adopting discovered snapshots

A discovered row whose identity matches a policy's is adopted: the policy gets
a row of its own for the kopia snapshot, under a name derived from the
snapshot id, and the discovered row goes. Where a prune would leave the kopia
snapshot behind, only candidates that retention keeps are adopted.
-/

namespace Kopiur

def configLabel : String := "kopiur.home-operations.com/config"

def snapshotIdLabel : String := "kopiur.home-operations.com/snapshot-id"

def repositoryUidLabel : String := "kopiur.home-operations.com/repository-uid"

def policyAdoptionBatch : Nat := 50

def Origin.labelValue : Origin → String
  | .scheduled => "scheduled"
  | .manual => "manual"
  | .discovered => "discovered"
  | .adopted => "adopted"
  | .replicated => "replicated"

/-- A discovered row, distilled to what planning and adopting read. -/
structure AdoptionCandidate where
  ns : String
  name : String
  snapshotId : String
  identity : SnapshotIdentity
  timing : Option SnapshotTiming
  pinned : Bool
deriving DecidableEq

/-- Rows of another origin or repository, terminating rows and rows without a
kopia id are no candidates. -/
def adoptionCandidate (repoUid : String) (s : Snapshot) : Option AdoptionCandidate :=
  if s.metadata.labels.lookup originLabel ≠ some Origin.discovered.labelValue then none
  else if s.metadata.labels.lookup repositoryUidLabel ≠ some repoUid then none
  else if s.metadata.deletionTimestamp.isSome then none
  else do
    let status ← s.status
    let info ← status.snapshot
    if info.kopiaSnapshotId.isEmpty then none
    else
      some
        { ns := s.metadata.ns.getD ""
          name := s.metadata.nameAny
          snapshotId := info.kopiaSnapshotId
          identity := info.identity
          timing := status.timing
          pinned := s.spec.pin }

def adoptionCandidates (repoUid : String) (rows : List Snapshot) : List AdoptionCandidate :=
  rows.filterMap (adoptionCandidate repoUid)

def isForeignCluster (hostname : String) (cluster : Option String) : Bool :=
  match classifyHostname hostname cluster with
  | .foreignCluster _ => true
  | .bare _ | .ownCluster _ => false

def identitiesMatch (policy candidate : SnapshotIdentity) : Bool :=
  decide (policy.username = candidate.username) && decide (policy.hostname = candidate.hostname) &&
    decide (policy.sourcePath = candidate.sourcePath)

def adoptedCrName (policyName snapshotId : String) : String :=
  cappedName (policyName ++ "-adopted-" ++ String.ofList (snapshotId.toList.take 16) ++ "-" ++
    shortHash snapshotId)

structure AdoptionRetentionGate where
  retention : Option Retention
  deletionPolicy : DeletionPolicy
  ownViews : List SnapshotRetentionView
  policyName : String

/-- The retention view the adopted row would have. -/
def candidateView (rfc : Rfc3339) (policyName : String) (candidate : AdoptionCandidate) :
    Option SnapshotRetentionView := do
  let timing ← candidate.timing
  let text ← timing.endTime
  let endTime ← rfc.parse text
  some { name := adoptedCrName policyName candidate.snapshotId, endTime, pinned := candidate.pinned }

/-- The candidates retention would keep, and how many are withheld. A prune
that deletes the kopia snapshot withholds none. -/
def applyRetentionGate (rfc : Rfc3339) (candidates : List AdoptionCandidate)
    (gate : AdoptionRetentionGate) : List AdoptionCandidate × Nat :=
  match gate.deletionPolicy, gate.retention with
  | .delete, _ => (candidates, 0)
  | .retain, none => (candidates, 0)
  | .orphan, none => (candidates, 0)
  | .retain, some retention | .orphan, some retention =>
    let views := gate.ownViews ++ candidates.filterMap (candidateView rfc gate.policyName)
    let kept := (selectKept views retention).keep
    let passing := candidates.filter fun c => adoptedCrName gate.policyName c.snapshotId ∈ kept
    (passing, candidates.length - passing.length)

inductive SnapshotAdoption
  | adopt
  | ignore
deriving DecidableEq

structure AdoptionHistory where
  ownSnapshotIds : List String
  hasHistory : Bool
  scanRequestedIdentity : Option String

structure AdoptionPlan where
  adopt : List AdoptionCandidate := []
  requestScan : Bool := false
  skippedByRetention : Nat := 0
  identityMatched : Nat := 0
  unmatched : Nat := 0
deriving DecidableEq

def u32Max : Nat := 2 ^ 32 - 1

/-- One pass, with the cap on adoptions as a parameter. -/
def planAdoption (rfc : Rfc3339) (batch : Nat) (mode : SnapshotAdoption)
    (policyIdentity : SnapshotIdentity) (repoCluster : Option String)
    (candidates : List AdoptionCandidate) (history : AdoptionHistory)
    (gate : AdoptionRetentionGate) : AdoptionPlan :=
  match mode with
  | .ignore => {}
  | .adopt =>
    let matched := candidates.filter fun c =>
      identitiesMatch policyIdentity c.identity && !isForeignCluster c.identity.hostname repoCluster
    let notOwn := matched.filter fun c => c.snapshotId ∉ history.ownSnapshotIds
    let (passing, skippedByRetention) := applyRetentionGate rfc notOwn gate
    let adopt := (passing.insertionSort fun a b => a.snapshotId ≤ b.snapshotId).take batch
    let alreadyRequested := decide (history.scanRequestedIdentity =
      some (identityString policyIdentity))
    let noMatchFirstTime := matched.isEmpty && !history.hasHistory && !alreadyRequested
    { adopt
      requestScan := !adopt.isEmpty || noMatchFirstTime
      skippedByRetention
      identityMatched := min matched.length u32Max
      unmatched := min (candidates.length - matched.length) u32Max }

/-- The kopia ids a policy's rows carry, and whether it has any history. -/
def ownSnapshotIdsAndHistory (rfc : Rfc3339) (backups : List Snapshot) : List String × Bool :=
  (backups.filterMap fun b => do
      let status ← b.status
      let info ← status.snapshot
      if info.kopiaSnapshotId.isEmpty then none else some info.kopiaSnapshotId,
    backups.any fun b =>
      (retentionView rfc b).isSome ||
        (decide (resolveOrigin b = some .adopted) &&
          (b.status.bind SnapshotStatus.snapshot).isSome))

/-- What an adoption pass reads of a policy over one repository. -/
structure AdoptionPolicy where
  name : String
  ns : String
  identity : SnapshotIdentity
  retention : Option Retention := none
  defaultDeletionPolicy : Option DeletionPolicy := none
  repository : RepositoryRef
  repositoryUid : String
  repositoryCluster : Option String := none
  scanRequestedIdentity : Option String := none
deriving DecidableEq

def AdoptionPolicy.effectiveDeletionPolicy (policy : AdoptionPolicy) : DeletionPolicy :=
  policy.defaultDeletionPolicy.getD .delete

/-- The adopted row and the status that is patched onto it afterwards. -/
def buildAdoptedSnapshot (policy : AdoptionPolicy) (candidate : AdoptionCandidate) :
    Snapshot × SnapshotStatus :=
  ({ metadata :=
      { name := some (adoptedCrName policy.name candidate.snapshotId)
        ns := some policy.ns
        labels := [(originLabel, Origin.adopted.labelValue), (configLabel, policy.name),
          (snapshotIdLabel, candidate.snapshotId), (repositoryUidLabel, policy.repositoryUid)] }
     spec :=
      { policyRef := some { name := policy.name }
        deletionPolicy := some policy.effectiveDeletionPolicy
        pin := candidate.pinned } },
    { phase := some .succeeded
      origin := some .adopted
      snapshot := some { kopiaSnapshotId := candidate.snapshotId, identity := candidate.identity }
      timing := candidate.timing
      resolvedRepository := some (normalizedRepositoryRef policy.repository policy.ns) })

def adoptedRowMatchesCandidate (existing : Snapshot) (snapshotId : String) : Bool :=
  let origin := existing.metadata.labels.lookup originLabel
  decide (existing.metadata.labels.lookup snapshotIdLabel = some snapshotId) &&
    (decide (origin = some Origin.adopted.labelValue) ||
      decide (origin = some Origin.discovered.labelValue))

def patchAdoptedStatus (status : SnapshotStatus) (b : Snapshot) : Snapshot :=
  let conditions := (b.status.map SnapshotStatus.conditions).getD []
  { b with status := some { status with conditions } }

end Kopiur
