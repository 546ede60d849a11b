import Mathlib.Data.Finset.Basic
import Kopiur.Controller.Plan
import Kopiur.Mover.Resolve
import Kopiur.Naming

/-!
# Pending deletions of a repository

The counting set takes in every snapshot that may be deleted from a
repository; the fire set is what one reconcile may put into a batch Job. A
reconcile sees its peers only through caches, so the fire set leaves out every
peer whose own plan the caches cannot settle.
-/

namespace Kopiur

def snapshotCleanupFinalizer : String := "kopiur.home-operations.com/snapshot-cleanup"

structure PendingMember where
  ns : String
  name : String
  uid : String
  snapshotId : String
  anchor : SnapshotAnchor
  -- Counts toward the mass-deletion breaker.
  external : Bool
  deletionTimestamp : DateTime
  pinned : Bool
  scheduleOwned : Bool
deriving DecidableEq

def deletionTimestampUtc (b : Snapshot) : Option DateTime :=
  b.metadata.deletionTimestamp.map wholeSecond

def anchorFor (b : Snapshot) : SnapshotAnchor :=
  let snap := b.status.bind SnapshotStatus.snapshot
  let timing := b.status.bind SnapshotStatus.timing
  { sourcePath := (snap.bind fun s => s.identity.sourcePath).getD ""
    startTime := timing.bind SnapshotTiming.startTime
    username := snap.map fun s => s.identity.username
    hostname := snap.map fun s => s.identity.hostname }

/-- The run-time pin decides, then the mint-time pin; a snapshot with neither
matches every repository. -/
def repoMatches (b : Snapshot) (key : String) : Bool :=
  match pinnedRepository b with
  | some pinned => decide (pinnedRepoKey pinned = key)
  | none =>
    match b.spec.repository with
    | some pinned => decide (pinnedRepoKey pinned = key)
    | none => true

/-- The facts of a deletion, given what was observed around the snapshot. -/
def deletionFacts (b : Snapshot) (owner : OwnerState) (nsTerminating : Bool)
    (nsPolicy : Option NamespaceDeletePolicy) (breaker : BreakerState) : DeletionFacts where
  policy := effectiveDeletionPolicy b.spec.deletionPolicy (resolveOrigin b)
  annotations := b.metadata.annotations
  owner := owner
  cascade := effectiveOnScheduleDelete b.spec.onScheduleDelete
  nsTerminating := nsTerminating
  nsPolicy := nsPolicy
  breaker := breaker

def pendingMemberFor (key : String) (ownerLookup : Snapshot → OwnerState)
    (terminating : Finset String) (nsPolicy : NamespaceDeletePolicy) (b : Snapshot) :
    Option PendingMember := do
  let deletionTimestamp ← deletionTimestampUtc b
  if !(b.metadata.finalizers.any (· == snapshotCleanupFinalizer)) then none
  else if !repoMatches b key then none
  else
    let status ← b.status
    let info ← status.snapshot
    let ns ← b.metadata.ns
    let facts := deletionFacts b (ownerLookup b) (decide (ns ∈ terminating)) (some nsPolicy) .allowed
    if planDeletion facts ≠ .deleteSnapshot then none
    else
      let uid ← b.metadata.uid
      some
        { ns
          name := b.metadata.nameAny
          uid
          snapshotId := info.kopiaSnapshotId
          anchor := anchorFor b
          external := breakerRelevant (prunedBy b.metadata.annotations)
          deletionTimestamp
          pinned := (pinnedRepository b).isSome
          scheduleOwned := (scheduleOwnerRef b).isSome }

def pendingMembers (snapshots : List Snapshot) (key : String) (ownerLookup : Snapshot → OwnerState)
    (terminating : Finset String) (nsPolicy : NamespaceDeletePolicy) : List PendingMember :=
  snapshots.filterMap (pendingMemberFor key ownerLookup terminating nsPolicy)

def unackedBreakerCount (pending : List PendingMember) (ack : Option DateTime) : Nat :=
  (pending.filter fun m => m.external && ack.all fun a => decide (m.deletionTimestamp > a)).length

def newestPendingDeletion (pending : List PendingMember) : Option DateTime :=
  ((pending.filter PendingMember.external).map PendingMember.deletionTimestamp).max?

structure FireEligibility where
  selfUid : String
  threshold : Nat
  ack : Option DateTime
  onNamespaceDelete : NamespaceDeletePolicy
  terminatingNamespaces : Finset String
  unreadableNamespaces : Finset String
  scheduleSynced : Bool

def firePinOk (m : PendingMember) : Bool := m.pinned

def fireScheduleOk (m : PendingMember) (scheduleSynced : Bool) : Bool :=
  scheduleSynced || !m.external || !m.scheduleOwned

def fireNamespaceReadableOk (m : PendingMember) (unreadable : Finset String) : Bool :=
  decide (m.ns ∉ unreadable)

def fireNamespaceOk (m : PendingMember) (terminating : Finset String)
    (policy : NamespaceDeletePolicy) : Bool :=
  if m.ns ∉ terminating then true
  else
    match policy with
    | .delete => true
    | .orphan => false

def fireBreakerOk (m : PendingMember) (breakerTripping : Bool) (ack : Option DateTime) : Bool :=
  if !breakerTripping then true
  else !m.external || ack.any fun a => decide (m.deletionTimestamp ≤ a)

def fireEligible (pending : List PendingMember) (cx : FireEligibility) : List PendingMember :=
  let unacked := unackedBreakerCount pending cx.ack
  let breakerTripping := decide (cx.threshold > 0) && decide (unacked ≥ cx.threshold)
  pending.filter fun m =>
    decide (m.uid = cx.selfUid) ||
      (firePinOk m && fireScheduleOk m cx.scheduleSynced &&
        fireNamespaceReadableOk m cx.unreadableNamespaces &&
        fireNamespaceOk m cx.terminatingNamespaces cx.onNamespaceDelete &&
        fireBreakerOk m breakerTripping cx.ack)

/-- The schedule reflector: its flag is raised only after the store is
published. -/
structure ScheduleCache where
  store : Option (String → String → Option ObjectMeta)
  synced : Bool
  published : synced = true → store.isSome

def ScheduleCache.trusted (cache : ScheduleCache) : Option (String → String → Option ObjectMeta) :=
  if cache.synced then cache.store else none

/-- The owner state a peer is given: an untrusted store reads as alive. -/
def scheduleOwnerLookup (cache : ScheduleCache) (b : Snapshot) : OwnerState :=
  match scheduleOwnerRef b with
  | none => .noScheduleOwner
  | some owner =>
    match cache.trusted with
    | some store => ownerStateFrom (store (b.metadata.ns.getD "") owner.name) owner
    | none => .alive

/-- The owner state of the reconciled snapshot: an untrusted store is replaced
by a live read, and a pruning stamp makes the owner irrelevant. -/
def resolveOwnerState (cache : ScheduleCache) (live : String → String → Option ObjectMeta)
    (b : Snapshot) (ns : String) : OwnerState :=
  if (prunedBy b.metadata.annotations).isSome then .alive
  else
    match scheduleOwnerRef b with
    | none => .noScheduleOwner
    | some owner =>
      match cache.trusted with
      | some store => ownerStateFrom (store ns owner.name) owner
      | none => ownerStateFrom (live ns owner.name) owner

/-- The plan a snapshot's own reconcile reaches: the breaker is consulted only
for deletions it counts. -/
def gatherDeletionPlan (b : Snapshot) (owner : OwnerState) (nsTerminating : Bool)
    (nsPolicy : Option NamespaceDeletePolicy) (unackedPending threshold : Nat)
    (ack : Option DateTime) (now : DateTime) : DeletionPlan :=
  let facts := deletionFacts b owner nsTerminating nsPolicy
  let breaker :=
    if countsTowardBreaker (facts .allowed) then
      breakerState unackedPending threshold ((deletionTimestampUtc b).getD now) ack
    else .allowed
  planDeletion (facts breaker)

theorem pendingMemberFor_spec {key : String} {ownerLookup : Snapshot → OwnerState}
    {terminating : Finset String} {nsPolicy : NamespaceDeletePolicy} {b : Snapshot}
    {m : PendingMember} (h : pendingMemberFor key ownerLookup terminating nsPolicy b = some m) :
    deletionTimestampUtc b = some m.deletionTimestamp ∧ b.metadata.ns = some m.ns ∧
      b.metadata.uid = some m.uid ∧
      snapshotCleanupFinalizer ∈ b.metadata.finalizers ∧ repoMatches b key = true ∧
      m.external = breakerRelevant (prunedBy b.metadata.annotations) ∧
      m.pinned = (pinnedRepository b).isSome ∧ m.scheduleOwned = (scheduleOwnerRef b).isSome ∧
      planDeletion (deletionFacts b (ownerLookup b) (decide (m.ns ∈ terminating)) (some nsPolicy)
        .allowed) = .deleteSnapshot := by
  unfold pendingMemberFor at h
  simp only [Option.bind_eq_bind, Option.bind_eq_some_iff] at h
  obtain ⟨t, ht, h⟩ := h
  split at h
  case isTrue => cases h
  case isFalse hfin =>
    split at h
    case isTrue => cases h
    case isFalse hrepo =>
      simp only [Option.bind_eq_some_iff] at h
      obtain ⟨status, -, info, -, ns, hns, h⟩ := h
      split at h
      case isTrue => cases h
      case isFalse hplan =>
        simp only [Option.bind_eq_some_iff, Option.some.injEq] at h
        obtain ⟨uid, huid, rfl⟩ := h
        refine ⟨ht, hns, huid, ?_, by simpa using hrepo, rfl, rfl, rfl, not_not.mp hplan⟩
        simpa using hfin

theorem fireEligible_sublist (pending : List PendingMember) (cx : FireEligibility) :
    (fireEligible pending cx).Sublist pending := List.filter_sublist

end Kopiur
