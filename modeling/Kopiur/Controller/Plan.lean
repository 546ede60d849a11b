import Kopiur.Api.Resources

/-!
# Deletion planning

What happens to the kopia snapshot when its `Snapshot` object is deleted. The
planner reads the effective policy, the pruning stamp, the owning schedule,
the namespace and the mass-deletion breaker, in a fixed order.
-/

namespace Kopiur

def skipSnapshotCleanupAnnotation : String := "kopiur.home-operations.com/skip-snapshot-cleanup"

def prunedByAnnotation : String := "kopiur.home-operations.com/pruned-by"

def originLabel : String := "kopiur.home-operations.com/origin"

inductive DeletionPlan
  | deleteSnapshot
  | retainSnapshot
  | retainSnapshotOnScheduleDelete
  | retainSnapshotOnPolicyDelete
  | orphanSnapshot
  | holdSnapshotDeletion
deriving DecidableEq

inductive OwnerState
  | alive
  | goneOrReplaced
  | noScheduleOwner
deriving DecidableEq

inductive BreakerState
  | allowed
  | held
deriving DecidableEq

structure DeletionFacts where
  policy : DeletionPolicy
  annotations : List (String × String)
  owner : OwnerState
  cascade : ScheduleDeletePolicy
  nsTerminating : Bool
  -- Absent while the repository cannot be resolved.
  nsPolicy : Option NamespaceDeletePolicy
  breaker : BreakerState
deriving DecidableEq

/-- The operator lifecycle that pruned the snapshot; anything unrecognized is
an external deletion. -/
def prunedBy (annotations : List (String × String)) : Option PrunedBy :=
  (annotations.lookup prunedByAnnotation).bind PrunedBy.parse

/-- External deletions: only a destructive one consults the breaker. -/
def planExternal (policy : DeletionPolicy) (breaker : BreakerState) : DeletionPlan :=
  match policy with
  | .delete =>
    match breaker with
    | .held => .holdSnapshotDeletion
    | .allowed => .deleteSnapshot
  | .retain => .retainSnapshot
  | .orphan => .orphanSnapshot

/-- Operator prunes: never held. -/
def planPrune (pruned : PrunedBy) (policy : DeletionPolicy) : DeletionPlan :=
  match pruned, policy with
  | .retention, .delete => .deleteSnapshot
  | .retention, .retain => .retainSnapshot
  | .retention, .orphan => .orphanSnapshot
  | .failedHistory, .delete => .deleteSnapshot
  | .failedHistory, .retain => .retainSnapshot
  | .failedHistory, .orphan => .orphanSnapshot
  | .policyCascade, .delete => .retainSnapshotOnPolicyDelete
  | .policyCascade, .retain => .retainSnapshot
  | .policyCascade, .orphan => .orphanSnapshot
  | .replicationRetention, .delete => .deleteSnapshot
  | .replicationRetention, .retain => .retainSnapshot
  | .replicationRetention, .orphan => .orphanSnapshot
  -- A replaced run may have committed its manifest meanwhile: never destroy it.
  | .replacedRun, .delete => .retainSnapshot
  | .replacedRun, .retain => .retainSnapshot
  | .replacedRun, .orphan => .orphanSnapshot

def planPruneOrExternal (f : DeletionFacts) : DeletionPlan :=
  match prunedBy f.annotations with
  | some p => planPrune p f.policy
  | none => planExternal f.policy f.breaker

def cascadeGuardApplies : OwnerState → Bool
  | .goneOrReplaced => true
  | .alive | .noScheduleOwner => false

def planCascadeGuard (cascade : ScheduleDeletePolicy) (policy : DeletionPolicy) :
    Option DeletionPlan :=
  match cascade with
  | .retain =>
    match policy with
    | .delete => some .retainSnapshotOnScheduleDelete
    | .retain => some .retainSnapshot
    | .orphan => some .orphanSnapshot
  | .delete => none

def planLiveNamespace (f : DeletionFacts) : DeletionPlan :=
  if !cascadeGuardApplies f.owner || (prunedBy f.annotations).isSome then planPruneOrExternal f
  else
    match planCascadeGuard f.cascade f.policy with
    | some plan => plan
    | none => planPruneOrExternal f

/-- A namespace teardown with the explicit opt-in overrides the implicit
policy-cascade stamp, but not the breaker. -/
def planNsDelete (f : DeletionFacts) : DeletionPlan :=
  match prunedBy f.annotations with
  | none => planExternal f.policy f.breaker
  | some .policyCascade => planExternal f.policy f.breaker
  | some p => planPrune p f.policy

def planNsTerminating (f : DeletionFacts) : DeletionPlan :=
  match f.nsPolicy with
  | none => .orphanSnapshot
  | some .orphan => .orphanSnapshot
  | some .delete => planNsDelete f

def planDeletion (f : DeletionFacts) : DeletionPlan :=
  if (f.annotations.lookup skipSnapshotCleanupAnnotation).isSome then .orphanSnapshot
  else if f.nsTerminating then planNsTerminating f
  else planLiveNamespace f

def effectiveOnScheduleDelete (stamped : Option ScheduleDeletePolicy) : ScheduleDeletePolicy :=
  stamped.getD .retain

/-- Discovered and unclassifiable snapshots are never ours to delete. -/
def effectiveDeletionPolicy (specPolicy : Option DeletionPolicy) (origin : Option Origin) :
    DeletionPolicy :=
  match origin with
  | some .discovered => .retain
  | none => .retain
  | some .scheduled | some .manual | some .adopted | some .replicated => specPolicy.getD .delete

def resolveOrigin (b : Snapshot) : Option Origin :=
  match b.status.bind SnapshotStatus.origin with
  | some o => some o
  | none =>
    match b.metadata.labels.lookup originLabel with
    | none => some .manual
    | some label => Origin.parse label

def scheduleOwnerRef (b : Snapshot) : Option OwnerReference :=
  b.metadata.ownerReferences.find? fun o =>
    decide (o.apiVersion = apiVersion) && decide (o.kind = "SnapshotSchedule")

def ownerStateFrom (fetched : Option ObjectMeta) (owner : OwnerReference) : OwnerState :=
  match fetched with
  | none => .goneOrReplaced
  | some sched =>
    if sched.uid = some owner.uid ∧ sched.deletionTimestamp = none then .alive else .goneOrReplaced

def pinnedRepository (b : Snapshot) : Option RepositoryRef :=
  b.status.bind SnapshotStatus.resolvedRepository

def PrunedBy.annotationValue : PrunedBy → String
  | .retention => "retention"
  | .failedHistory => "failed-history"
  | .policyCascade => "policy-cascade"
  | .replicationRetention => "replication-retention"
  | .replacedRun => "replaced-run"

/-- Merge the stamp into the annotations. -/
def stampPrunedBy (p : PrunedBy) (b : Snapshot) : Snapshot :=
  { b with
    metadata :=
      { b.metadata with
        annotations := ( prunedByAnnotation, p.annotationValue) ::
          b.metadata.annotations.filter fun a => a.1 ≠ prunedByAnnotation } }

def deleteObject (now : DateTime) (b : Snapshot) : Option Snapshot :=
  if b.metadata.deletionTimestamp.isSome then some b
  else if b.metadata.finalizers.isEmpty then none
  else some { b with metadata := { b.metadata with deletionTimestamp := some now } }

def breakerRelevant : Option PrunedBy → Bool
  | some .retention | some .failedHistory | some .replicationRetention | some .replacedRun => false
  | none | some .policyCascade => true

def countsTowardBreaker (f : DeletionFacts) : Bool :=
  if !breakerRelevant (prunedBy f.annotations) then false
  else decide (planDeletion { f with breaker := .allowed } = .deleteSnapshot)

def clampAck (ack : Option DateTime) (now : DateTime) : Option DateTime := ack.map (min · now)

def breakerState (unackedPendingForRepo threshold : Nat) (deletionTimestamp : DateTime)
    (ack : Option DateTime) : BreakerState :=
  if threshold = 0 then .allowed
  else if ack.any fun a => decide (deletionTimestamp ≤ a) then .allowed
  else if unackedPendingForRepo ≥ threshold then .held
  else .allowed

/-- The repository's acknowledgment annotation: the instant it grants up to,
and whether the text was unreadable. -/
def parseMassDeletionAck (rfc : Rfc3339) (raw : Option String) (now : DateTime) :
    Option DateTime × Bool :=
  match raw with
  | none => (none, false)
  | some v =>
    match rfc.parse v with
    | some dt => (clampAck (some dt) now, false)
    | none => (none, true)

def allowMassDeletionAnnotation : String := "kopiur.home-operations.com/allow-mass-deletion"

/-- The command that acknowledges a repository's pending deletions. -/
def massDeletionAckCommand (repo : RepositoryRef) (ackValue : String) : String :=
  match repo.kind with
  | .repository =>
    "kubectl -n " ++ repo.ns.getD "" ++ " annotate repository/" ++ repo.name ++ " " ++
      allowMassDeletionAnnotation ++ "=\"" ++ ackValue ++ "\" --overwrite"
  | .clusterRepository =>
    "kubectl annotate clusterrepository/" ++ repo.name ++ " " ++ allowMassDeletionAnnotation ++
      "=\"" ++ ackValue ++ "\" --overwrite"

structure RepoMassDeletionCondition where
  held : Bool
  reason : String
  message : String
deriving DecidableEq

def repoMassDeletionCondition (repo : RepositoryRef) (unackedPending threshold : Nat)
    (ackValue : Option String) : RepoMassDeletionCondition :=
  if threshold > 0 ∧ unackedPending ≥ threshold then
    { held := true
      reason := "ThresholdExceeded"
      message := toString unackedPending ++ " pending Snapshot deletions reached the threshold of " ++
        toString threshold ++ " and are held. Fix: to approve them, run: " ++
        massDeletionAckCommand repo (ackValue.getD "<newest-pending-deletionTimestamp>") ++ "." }
  else
    { held := false
      reason := "BelowThreshold"
      message := toString unackedPending ++ " pending Snapshot deletions, below the threshold of " ++
        toString threshold }

theorem planDeletion_owner_of_pruned {f : DeletionFacts} (h : (prunedBy f.annotations).isSome)
    (owner : OwnerState) : planDeletion { f with owner } = planDeletion f := by
  simp [planDeletion, planLiveNamespace, planNsTerminating, planNsDelete, planPruneOrExternal, h]

theorem breakerState_of_acked {count threshold : Nat} {t : DateTime} {ack : Option DateTime}
    {a : DateTime} (hack : ack = some a) (h : t ≤ a) :
    breakerState count threshold t ack = .allowed := by
  simp [breakerState, hack, h]

theorem breakerState_held_iff {count threshold : Nat} {t : DateTime} {ack : Option DateTime} :
    breakerState count threshold t ack = .held ↔
      0 < threshold ∧ threshold ≤ count ∧ ∀ a, ack = some a → a < t := by
  unfold breakerState
  by_cases h0 : threshold = 0
  · simp [h0]
  · have hpos : 0 < threshold := Nat.pos_of_ne_zero h0
    by_cases hcount : threshold ≤ count
    · cases ack with
      | none => simp [h0, hpos, hcount]
      | some a =>
        by_cases ha : t ≤ a
        · simp [h0, hpos, hcount, ha, not_lt.mpr ha]
        · simp [h0, hpos, hcount, ha, not_le.mp ha]
    · cases ack with
      | none => simp [h0, hcount]
      | some a => by_cases ha : t ≤ a <;> simp [h0, hcount, ha]

end Kopiur
