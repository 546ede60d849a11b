import Kopiur.Controller.Waves
import Kopiur.Lib.Watch

/-!
# Deleting snapshots in batches

The reconcile of a terminating snapshot on the `DeleteSnapshot` path. It honors
a delete Job of an older operator, finds a namespace for the batch Job, reads
the snapshot store, LISTs the repository's batch Jobs, removes the finished
ones that nobody needs, and then lets its finalizer go, waits, or fires a wave.
The cluster moves on between any two of these.
-/

namespace Kopiur

open Lib

inductive DeleteJobPlacement
  | runIn (ns : String)
  | orphanFallback (reason : String)
deriving DecidableEq

/-- A batch Job runs at the home of its repository, if that survives. -/
def batchJobPlacement (repoNamespace operatorNamespace terminatingNs : Option String) :
    DeleteJobPlacement :=
  match repoNamespace with
  | some rns =>
    if terminatingNs ≠ some rns then .runIn rns
    else
      .orphanFallback ("the Repository is in `" ++ rns ++ "`, which is being deleted, so the " ++
        "kopia snapshots were left in place. Delete them with `kopia snapshot delete` if unwanted")
  | none =>
    match operatorNamespace with
    | some op =>
      if terminatingNs ≠ some op then .runIn op
      else
        .orphanFallback ("the operator namespace `" ++ op ++ "` is being deleted, so the kopia " ++
          "snapshots were left in place")
    | none =>
      .orphanFallback ("KOPIUR_NAMESPACE is unset, so there is nowhere to run the delete Job " ++
        "and the kopia snapshots were left in place. Fix: set KOPIUR_NAMESPACE on the " ++
        "controller Deployment")

structure LegacyDeleteJob where
  job : Job
  crossNamespace : Bool
deriving DecidableEq

def tryLegacyDeleteJob (jobs : List Job) (jobNs jobName : String) (crossNamespace : Bool) :
    Option LegacyDeleteJob :=
  (jobs.find? fun job => decide (job.ns = jobNs) && decide (job.name = jobName)).map fun job =>
    { job, crossNamespace }

/-- The Job in the snapshot's own namespace, then the one at the repository's
home. -/
def adoptLegacyDeleteJob (jobs : List Job) (repoNamespace operatorNamespace : Option String)
    (b : Snapshot) : Option LegacyDeleteJob :=
  let ns := b.metadata.ns.getD ""
  let name := b.metadata.nameAny
  match tryLegacyDeleteJob jobs ns (name ++ "-delete") false with
  | some legacy => some legacy
  | none =>
    match repoNamespace.or operatorNamespace with
    | some home =>
      if home ≠ ns then
        tryLegacyDeleteJob jobs home (cappedName (ns ++ "-" ++ name ++ "-delete")) true
      else none
    | none => none

def holdsFinalizer (b : Snapshot) : Bool :=
  b.metadata.finalizers.any (· == snapshotCleanupFinalizer)

def finalizerHoldingUids (snapshots : List Snapshot) : List String :=
  (snapshots.filter holdsFinalizer).filterMap fun b => b.metadata.uid

def terminatingUids (snapshots : List Snapshot) : List String :=
  (snapshots.filter fun b => b.metadata.deletionTimestamp.isSome).filterMap fun b => b.metadata.uid

/-- The API server's answer to a new finalizer list. A terminating object takes
no new finalizers and goes with its last one. -/
def patchFinalizers (finalizers : List String) (b : Snapshot) : Option Snapshot :=
  let patched : Snapshot := { b with metadata := { b.metadata with finalizers } }
  if b.metadata.deletionTimestamp.isNone then some patched
  else if !finalizers.all fun f => decide (f ∈ b.metadata.finalizers) then some b
  else if finalizers.isEmpty then none
  else some patched

def sameName (b x : Snapshot) : Bool :=
  decide (x.metadata.ns = b.metadata.ns) && decide (x.metadata.name = b.metadata.name)

/-- The patch of a reconcile of `b` goes to whatever has its name. -/
def removeFinalizer (b : Snapshot) (snapshots : List Snapshot) : List Snapshot :=
  if !holdsFinalizer b then snapshots
  else
    let finalizers := b.metadata.finalizers.filter fun f => decide (f ≠ snapshotCleanupFinalizer)
    snapshots.filterMap fun x => if sameName b x then patchFinalizers finalizers x else some x

theorem mem_finalizerHoldingUids {snapshots : List Snapshot} {uid : String} :
    uid ∈ finalizerHoldingUids snapshots ↔
      ∃ b ∈ snapshots, holdsFinalizer b = true ∧ b.metadata.uid = some uid := by
  simp [finalizerHoldingUids, and_assoc]

theorem mem_terminatingUids {snapshots : List Snapshot} {uid : String} :
    uid ∈ terminatingUids snapshots ↔
      ∃ b ∈ snapshots, b.metadata.deletionTimestamp.isSome = true ∧ b.metadata.uid = some uid := by
  simp [terminatingUids, and_assoc]

theorem patchFinalizers_spec {finalizers : List String} {b x : Snapshot}
    (hfin : snapshotCleanupFinalizer ∉ finalizers) (h : patchFinalizers finalizers b = some x) :
    x.metadata.uid = b.metadata.uid ∧
      x.metadata.deletionTimestamp = b.metadata.deletionTimestamp ∧
      (holdsFinalizer x = true → x = b) := by
  have hnot : ∀ y : Snapshot, y.metadata.finalizers = finalizers → ¬ holdsFinalizer y = true := by
    intro y hy hhold
    simp only [holdsFinalizer, hy, List.any_eq_true, beq_iff_eq] at hhold
    obtain ⟨f, hf, rfl⟩ := hhold
    exact hfin hf
  unfold patchFinalizers at h
  simp only at h
  split at h
  case isTrue =>
    cases h
    exact ⟨rfl, rfl, fun hhold => absurd hhold (hnot _ rfl)⟩
  case isFalse =>
    split at h
    case isTrue =>
      cases h
      exact ⟨rfl, rfl, fun _ => rfl⟩
    case isFalse =>
      split at h
      case isTrue => cases h
      case isFalse =>
        cases h
        exact ⟨rfl, rfl, fun hhold => absurd hhold (hnot _ rfl)⟩

/-- What remains after a removal was there before; what still holds the
finalizer is untouched. -/
theorem mem_removeFinalizer {b x : Snapshot} {snapshots : List Snapshot}
    (h : x ∈ removeFinalizer b snapshots) :
    ∃ y ∈ snapshots, x.metadata.uid = y.metadata.uid ∧
      x.metadata.deletionTimestamp = y.metadata.deletionTimestamp ∧
      (holdsFinalizer x = true → x = y) := by
  unfold removeFinalizer at h
  split at h
  case isTrue => exact ⟨x, h, rfl, rfl, fun _ => rfl⟩
  case isFalse =>
    obtain ⟨y, hy, hx⟩ := List.mem_filterMap.mp h
    split at hx
    case isTrue => exact ⟨y, hy, patchFinalizers_spec (by simp) hx⟩
    case isFalse =>
      cases hx
      exact ⟨x, hy, rfl, rfl, fun _ => rfl⟩

theorem mem_removeFinalizer_of_ne {b x : Snapshot} {snapshots : List Snapshot}
    (hx : x ∈ snapshots) (hname : sameName b x = false) : x ∈ removeFinalizer b snapshots := by
  unfold removeFinalizer
  split
  case isTrue => exact hx
  case isFalse => exact List.mem_filterMap.mpr ⟨x, hx, by simp [hname]⟩

-- The cluster

structure SnapshotSet where
  items : List Snapshot
  valid : validUids items = true

namespace SnapshotSet

def Holds (v : SnapshotSet) (uid : String) : Prop := uid ∈ finalizerHoldingUids v.items

def Terminates (v : SnapshotSet) (uid : String) : Prop := uid ∈ terminatingUids v.items

instance (v : SnapshotSet) (uid : String) : Decidable (v.Holds uid) :=
  inferInstanceAs (Decidable (uid ∈ finalizerHoldingUids v.items))

def release (v : SnapshotSet) (b : Snapshot) : SnapshotSet where
  items := removeFinalizer b v.items
  valid := by
    refine List.all_eq_true.mpr fun x hx => ?_
    obtain ⟨y, hy, huid, -⟩ := mem_removeFinalizer hx
    rw [huid]
    exact List.all_eq_true.mp v.valid y hy

theorem validUid_of_mem (v : SnapshotSet) {b : Snapshot} (hb : b ∈ v.items) {uid : String}
    (huid : b.metadata.uid = some uid) : validUid uid = true := by
  simpa [huid] using List.all_eq_true.mp v.valid b hb

theorem Holds.of_release {v : SnapshotSet} {b : Snapshot} {uid : String}
    (h : (v.release b).Holds uid) : v.Holds uid := by
  obtain ⟨x, hx, hhold, huid⟩ := mem_finalizerHoldingUids.mp h
  obtain ⟨y, hy, -, -, heq⟩ := mem_removeFinalizer hx
  obtain rfl := heq hhold
  exact mem_finalizerHoldingUids.mpr ⟨x, hy, hhold, huid⟩

theorem Holds.release {v : SnapshotSet} {b : Snapshot} {uid : String} (h : v.Holds uid)
    (hname : ∀ x ∈ v.items, sameName b x = true → x.metadata.uid = b.metadata.uid)
    (hne : b.metadata.uid ≠ some uid) : (v.release b).Holds uid := by
  obtain ⟨x, hx, hhold, huid⟩ := mem_finalizerHoldingUids.mp h
  refine mem_finalizerHoldingUids.mpr ⟨x, mem_removeFinalizer_of_ne hx ?_, hhold, huid⟩
  cases hsame : sameName b x with
  | false => rfl
  | true => exact absurd ((hname x hx hsame).symm.trans huid) hne

end SnapshotSet

/-- The batch Jobs of a repository. They share a namespace, so their names
differ. -/
structure BatchJobs where
  items : List Job
  unique : (items.map Job.name).Nodup

namespace BatchJobs

def taken (jobs : BatchJobs) (name : String) : Bool :=
  jobs.items.any fun job => decide (job.name = name)

def add (jobs : BatchJobs) (job : Job) (h : jobs.taken job.name = false) : BatchJobs where
  items := jobs.items ++ [job]
  unique := by
    rw [List.map_append, List.nodup_append]
    refine ⟨jobs.unique, by simp, ?_⟩
    intro a ha b hb heq
    obtain ⟨old, hold, rfl⟩ := List.mem_map.mp ha
    rw [List.map_singleton, List.mem_singleton] at hb
    have hfree := List.any_eq_false.mp h old hold
    exact hfree (by simp [heq.trans hb])

def remove (jobs : BatchJobs) (name : String) : BatchJobs where
  items := jobs.items.filter fun job => decide (job.name ≠ name)
  unique := jobs.unique.sublist (List.filter_sublist.map _)

def finish (jobs : BatchJobs) (key : String) (ok : Bool) (t : DateTime) : BatchJobs where
  items := jobs.items.map (finishJob key ok t)
  unique := by
    have hname : Job.name ∘ finishJob key ok t = Job.name := by
      funext job
      simp [Job.name]
    rw [List.map_map, hname]
    exact jobs.unique

theorem eq_of_name (jobs : BatchJobs) {a b : Job} (ha : a ∈ jobs.items) (hb : b ∈ jobs.items)
    (h : a.name = b.name) : a = b := List.inj_on_of_nodup_map jobs.unique ha hb h

end BatchJobs

inductive JobEvent
  | created (job : Job)
  | reaped (job : Job)
deriving DecidableEq

namespace JobEvent

def Creates (name : String) : JobEvent → Prop
  | .created job => job.name = name
  | .reaped _ => False

/-- The event takes a LIST that was read before it by surprise about `uid`. -/
def Disturbs (uid : String) : JobEvent → Prop
  | .created job => uid ∈ batchJobMembers job
  | .reaped job => batchJobState job = .succeeded ∧ uid ∈ batchJobMembers job

instance (name : String) : (e : JobEvent) → Decidable (e.Creates name)
  | .created job => inferInstanceAs (Decidable (job.name = name))
  | .reaped _ => inferInstanceAs (Decidable False)

instance (uid : String) : (e : JobEvent) → Decidable (e.Disturbs uid)
  | .created job => inferInstanceAs (Decidable (uid ∈ batchJobMembers job))
  | .reaped job => inferInstanceAs (Decidable (_ ∧ uid ∈ batchJobMembers job))

end JobEvent

structure DeletionCluster where
  -- Written at the API server, observed by the controller's store.
  snapshots : Watched SnapshotSet
  jobs : BatchJobs
  legacy : List Job
  -- Uids that were ever terminating.
  doomed : List String
  -- What happened to batch Jobs so far, and the members of those that succeeded.
  events : List JobEvent
  succeeded : List String

def succeededMembers (jobs : List Job) : List String :=
  (jobs.filter fun job => decide (batchJobState job = .succeeded)).flatMap batchJobMembers

theorem mem_succeededMembers {jobs : List Job} {uid : String} :
    uid ∈ succeededMembers jobs ↔
      ∃ job ∈ jobs, batchJobState job = .succeeded ∧ uid ∈ batchJobMembers job := by
  simp [succeededMembers, and_assoc]

namespace DeletionCluster

/-- Batch Jobs found at the start were fired for terminating snapshots. -/
def init (snapshots : SnapshotSet) (jobs : BatchJobs) (legacy : List Job) : DeletionCluster where
  snapshots := .synced snapshots
  jobs := jobs
  legacy := legacy
  doomed := terminatingUids snapshots.items ++ jobs.items.flatMap batchJobMembers
  events := []
  succeeded := succeededMembers jobs.items

def put (c : DeletionCluster) (v : SnapshotSet) : DeletionCluster :=
  { c with
    snapshots := c.snapshots.write v
    doomed := c.doomed ++ terminatingUids v.items }

/-- Any change by others the API server accepts: a uid that was terminating
does not take up the finalizer. -/
def edit (c : DeletionCluster) (v : SnapshotSet) : Option DeletionCluster :=
  if ∀ uid ∈ c.doomed, v.Holds uid → c.snapshots.current.Holds uid then some (c.put v) else none

def deliver (c : DeletionCluster) : Option DeletionCluster :=
  c.snapshots.deliver.map fun snapshots => { c with snapshots }

def finish (c : DeletionCluster) (key : String) (ok : Bool) (t : DateTime) : DeletionCluster :=
  let jobs := c.jobs.finish key ok t
  { c with
    jobs
    legacy := c.legacy.map (finishJob key ok t)
    succeeded := c.succeeded ++ succeededMembers jobs.items }

def reap (c : DeletionCluster) (name : String) : DeletionCluster :=
  { c with
    jobs := c.jobs.remove name
    events := c.events ++
      (c.jobs.items.filter fun job => decide (job.name = name)).map JobEvent.reaped }

/-- A Job of that name answers `AlreadyExists`: nothing is created. -/
def create (c : DeletionCluster) (job : Job) : DeletionCluster :=
  if h : c.jobs.taken job.name = false then
    { c with
      jobs := c.jobs.add job h
      events := c.events ++ [.created job] }
  else c

end DeletionCluster

-- One reconcile

structure DeletionConfig where
  repo : RepositoryRef
  repoNamespace : Option String
  operatorNamespace : Option String
  itemBytes : PendingMember → Nat

/-- What a reconcile finds out about its snapshot before it acts. -/
structure Surroundings where
  owner : OwnerState
  nsTerminating : Bool
  nsPolicy : Option NamespaceDeletePolicy
  breaker : BreakerState
  storeReady : Bool

/-- A terminating snapshot of the repository that is to be deleted from kopia
and carries a snapshot id. -/
def onDeletePath (cfg : DeletionConfig) (b : Snapshot) (seen : Surroundings) : Bool :=
  b.metadata.deletionTimestamp.isSome && holdsFinalizer b &&
    (b.status.bind SnapshotStatus.snapshot).isSome &&
    repoMatches b (pinnedRepoKey cfg.repo) &&
    decide (planDeletion
      (deletionFacts b seen.owner seen.nsTerminating seen.nsPolicy seen.breaker) = .deleteSnapshot)

inductive ReleaseCause
  | batchJob
  | legacyJob (legacy : LegacyDeleteJob)
  | orphaned (reason : String)
deriving DecidableEq

/-- A reconcile that reached the dispatcher. -/
structure DispatchPass where
  backup : Snapshot
  jobNs : String
  -- The store as the reconcile read it.
  state : SnapshotSet
  -- How many Job events came before that read.
  mark : Nat

def DispatchPass.uid (p : DispatchPass) : String := p.backup.metadata.uid.getD ""

inductive DeletionPhase
  | idle
  | listing (p : DispatchPass)
  | reaping (p : DispatchPass) (views : List BatchJobView) (targets : List String)
  | launching (p : DispatchPass) (members : List PendingMember)
  | releasing (b : Snapshot) (cause : ReleaseCause)

/-- Up to the read of the store. -/
def driveBatchDeletion (cfg : DeletionConfig) (c : DeletionCluster) (b : Snapshot)
    (seen : Surroundings) : DeletionPhase :=
  match adoptLegacyDeleteJob c.legacy cfg.repoNamespace cfg.operatorNamespace b with
  | some legacy =>
    match jobTerminalState legacy.job with
    | some true => .releasing b (.legacyJob legacy)
    | some false | none => .idle
  | none =>
    match batchJobPlacement cfg.repoNamespace cfg.operatorNamespace
        (if seen.nsTerminating then some (b.metadata.ns.getD "") else none) with
    | .orphanFallback reason => .releasing b (.orphaned reason)
    | .runIn jobNs =>
      if seen.storeReady then
        .listing
          { backup := b
            jobNs
            state := c.snapshots.observed
            mark := c.events.length }
      else .idle

def listRepoBatchJobs (c : DeletionCluster) : List BatchJobView :=
  c.jobs.items.filterMap batchJobView

/-- What the reconcile of `b` knows when it decides about a wave. -/
def memberContext (cfg : DeletionConfig) (b : Snapshot) (state : SnapshotSet)
    (cx : DispatchContext) : DispatchContext :=
  { cx with
    selfUid := b.metadata.uid.getD ""
    repo := cfg.repo
    snapshots := state.items }

/-- What the reconcile does once the finished Jobs are removed; it judges by
the LIST from before. -/
def dispatchBatchForMember (cfg : DeletionConfig) (p : DispatchPass) (views : List BatchJobView)
    (cx : DispatchContext) : DeletionPhase :=
  match memberDisposition p.uid views with
  | .liveMember => .idle
  | .succeededMember => .releasing p.backup .batchJob
  | .failedMember => .idle
  | .notAMember _ =>
    match (memberContext cfg p.backup p.state cx).wave cfg.itemBytes views with
    | some members => .launching p members
    | none => .idle

/-- The finalizer goes, and with it a legacy Job the garbage collector would
not find. -/
def DeletionCluster.release (c : DeletionCluster) (b : Snapshot) (cause : ReleaseCause) :
    DeletionCluster :=
  let c := c.put (c.snapshots.current.release b)
  match cause with
  | .legacyJob legacy =>
    if legacy.crossNamespace then
      { c with legacy := c.legacy.filter fun job => decide (job.key ≠ legacy.job.key) }
    else c
  | .batchJob | .orphaned _ => c

inductive PassAction
  | start (b : Snapshot) (seen : Surroundings)
  | list (now : DateTime)
  | reap
  -- The delete of a finished Job failed.
  | skip
  | dispatch (cx : DispatchContext)
  | create
  | release
  -- The ledger parks the wave, or a request fails.
  | abandon

def passStep (cfg : DeletionConfig) (c : DeletionCluster) :
    DeletionPhase → PassAction → Option (DeletionCluster × DeletionPhase)
  | .idle, .start b seen =>
    if b ∈ c.snapshots.observed.items ∧ onDeletePath cfg b seen = true then
      some (c, driveBatchDeletion cfg c b seen)
    else none
  | .listing p, .list now =>
    let views := listRepoBatchJobs c
    let holding := finalizerHoldingUids p.state.items
    some (c, .reaping p views (reapTargets views holding now failedBatchReapAge))
  | .reaping p views (name :: targets), .reap => some (c.reap name, .reaping p views targets)
  | .reaping p views (_ :: targets), .skip => some (c, .reaping p views targets)
  | .reaping p views [], .dispatch cx => some (c, dispatchBatchForMember cfg p views cx)
  | .launching p members, .create =>
    some (c.create (buildBatchJob p.jobNs cfg.repo members), .idle)
  | .releasing b cause, .release => some (c.release b cause, .idle)
  | _, .abandon => some (c, .idle)
  | _, _ => none

structure DeletionState (ρ : Type) where
  cluster : DeletionCluster
  phase : ρ → DeletionPhase

inductive DeletionAction (ρ : Type)
  | edit (v : SnapshotSet)
  | deliver
  | finish (key : String) (ok : Bool) (t : DateTime)
  | pass (r : ρ) (a : PassAction)

def ReapsAsListed (c : DeletionCluster) : DeletionPhase → Prop
  | .reaping p _ (name :: _) => ∀ e ∈ c.events.drop p.mark, ¬ e.Creates name
  | _ => True

/-- No Job that lists a member of the wave was created, or reaped after it
succeeded. -/
def LaunchesAsListed (c : DeletionCluster) : DeletionPhase → Prop
  | .launching p members => ∀ e ∈ c.events.drop p.mark, ∀ m ∈ members, ¬ e.Disturbs m.uid
  | _ => True

def ReleasesAsRead (c : DeletionCluster) : DeletionPhase → Prop
  | .releasing b _ =>
    ∀ x ∈ c.snapshots.current.items, sameName b x = true → x.metadata.uid = b.metadata.uid
  | _ => True

instance (c : DeletionCluster) : (ph : DeletionPhase) → Decidable (ReapsAsListed c ph)
  | .reaping p _ (name :: _) =>
    inferInstanceAs (Decidable (∀ e ∈ c.events.drop p.mark, ¬ e.Creates name))
  | .idle | .listing _ | .reaping _ _ [] | .launching _ _ | .releasing _ _ =>
    inferInstanceAs (Decidable True)

instance (c : DeletionCluster) : (ph : DeletionPhase) → Decidable (LaunchesAsListed c ph)
  | .launching p members =>
    inferInstanceAs (Decidable (∀ e ∈ c.events.drop p.mark, ∀ m ∈ members, ¬ e.Disturbs m.uid))
  | .idle | .listing _ | .reaping _ _ _ | .releasing _ _ => inferInstanceAs (Decidable True)

instance (c : DeletionCluster) : (ph : DeletionPhase) → Decidable (ReleasesAsRead c ph)
  | .releasing b _ =>
    inferInstanceAs (Decidable (∀ x ∈ c.snapshots.current.items,
      sameName b x = true → x.metadata.uid = b.metadata.uid))
  | .idle | .listing _ | .reaping _ _ _ | .launching _ _ => inferInstanceAs (Decidable True)

namespace DeletionState

variable {ρ : Type} [DecidableEq ρ]

def init (snapshots : SnapshotSet) (jobs : BatchJobs) (legacy : List Job) : DeletionState ρ where
  cluster := .init snapshots jobs legacy
  phase := fun _ => .idle

def step (cfg : DeletionConfig) (s : DeletionState ρ) : DeletionAction ρ → Option (DeletionState ρ)
  | .edit v => (s.cluster.edit v).map fun cluster => { s with cluster }
  | .deliver => s.cluster.deliver.map fun cluster => { s with cluster }
  | .finish key ok t => some { s with cluster := s.cluster.finish key ok t }
  | .pass r a =>
    (passStep cfg s.cluster (s.phase r) a).map fun next =>
      { cluster := next.1, phase := Function.update s.phase r next.2 }

def undisturbed (s : DeletionState ρ) : DeletionAction ρ → Prop
  | .pass r .reap => ReapsAsListed s.cluster (s.phase r)
  | .pass r .create => LaunchesAsListed s.cluster (s.phase r)
  | .pass r .release => ReleasesAsRead s.cluster (s.phase r)
  | _ => True

instance (s : DeletionState ρ) : (a : DeletionAction ρ) → Decidable (s.undisturbed a)
  | .pass r .reap => inferInstanceAs (Decidable (ReapsAsListed s.cluster (s.phase r)))
  | .pass r .create => inferInstanceAs (Decidable (LaunchesAsListed s.cluster (s.phase r)))
  | .pass r .release => inferInstanceAs (Decidable (ReleasesAsRead s.cluster (s.phase r)))
  | .pass _ (.start ..) | .pass _ (.list _) | .pass _ .skip | .pass _ (.dispatch _)
  | .pass _ .abandon | .edit _ | .deliver | .finish .. => inferInstanceAs (Decidable True)

end DeletionState

end Kopiur
