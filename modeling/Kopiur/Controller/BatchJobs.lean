import Mathlib.Data.List.Sort
import Kopiur.Controller.Breaker
import Kopiur.Controller.Jobs

/-!
# Batch-delete Jobs

One Job deletes many snapshots of a repository. This module reads the batch
Jobs a LIST returned, decides which pending members make up the next wave, and
which finished Jobs may be removed.
-/

namespace Kopiur

def deleteMembersAnnotation : String := "kopiur.home-operations.com/delete-members"

inductive BatchJobState
  | live
  | succeeded
  | failed
deriving DecidableEq

structure BatchJobView where
  name : String
  members : List String
  state : BatchJobState
  terminalAt : Option DateTime
deriving DecidableEq

def batchJobMembers (job : Job) : List String :=
  match job.metadata.annotations.lookup deleteMembersAnnotation with
  | some v => ((v.toList.splitOn ',').filter fun l => !l.isEmpty).map String.ofList
  | none => []

def jobTerminalAt (job : Job) : Option DateTime :=
  match job.completionTime with
  | some t => some (wholeSecond t)
  | none =>
    (job.conditions.find? fun c => c.type == "Failed" && c.status == "True").bind fun c =>
      c.lastTransitionTime.map wholeSecond

def batchJobState (job : Job) : BatchJobState :=
  match jobTerminalState job with
  | none => .live
  | some true => .succeeded
  | some false => .failed

/-- A Job without members is not one of ours. -/
def batchJobView (job : Job) : Option BatchJobView :=
  let members := batchJobMembers job
  if members.isEmpty then none
  else
    some
      { name := job.name
        members
        state := batchJobState job
        terminalAt := jobTerminalAt job }

inductive MemberDisposition
  | liveMember
  | succeededMember
  | failedMember
  | notAMember (liveBatchExists : Bool)
deriving DecidableEq

/-- A confirmed success wins over a live retry, which wins over a failure. -/
def memberDisposition (uid : String) (jobs : List BatchJobView) : MemberDisposition :=
  let covered := fun state => jobs.any fun j => decide (j.state = state) && decide (uid ∈ j.members)
  if covered .succeeded then .succeededMember
  else if covered .live then .liveMember
  else if covered .failed then .failedMember
  else .notAMember (jobs.any fun j => decide (j.state = .live))

def covers : BatchJobState → Bool
  | .live | .succeeded => true
  | .failed => false

def coveredUids (jobs : List BatchJobView) : List String :=
  (jobs.filter fun j => covers j.state).flatMap BatchJobView.members

def failedBatchReapAge : Duration := Duration.seconds 60

/-- The names of the finished Jobs to remove: a succeeded one once all its
members let go of the finalizer, a failed one after a minimum age. -/
def reapTargets (jobs : List BatchJobView) (finalizerHolding : List String) (now : DateTime)
    (failedMinAge : Duration) : List String :=
  jobs.filterMap fun j =>
    match j.state with
    | .live => none
    | .succeeded => if j.members.all fun u => decide (u ∉ finalizerHolding) then some j.name else none
    | .failed =>
      -- A terminal instant ahead of the clock has no age yet.
      if j.terminalAt.any fun t => decide (0 ≤ now - t ∧ now - t ≥ failedMinAge) then some j.name
      else none

def maxBatchMembers : Nat := 1000

def batchItemsByteBudget : Nat := 80 * 1024

def batchQuietWindow : Duration := Duration.seconds 10

def fireableMembers (pending : List PendingMember) (coveredUids : List String) :
    List PendingMember :=
  pending.filter fun m => decide (m.uid ∉ coveredUids)

inductive BatchFire
  | fire (members : List PendingMember)
  | accumulate (retryIn : Duration)
deriving DecidableEq

def OldestFirst (a b : PendingMember) : Prop :=
  a.deletionTimestamp < b.deletionTimestamp ∨
    (a.deletionTimestamp = b.deletionTimestamp ∧ a.uid ≤ b.uid)

instance : DecidableRel OldestFirst := fun _ _ => inferInstanceAs (Decidable (_ ∨ _))

section Wave

-- The serialized size of a member, as the Job builder counts it.
variable (itemBytes : PendingMember → Nat)

section Caps

variable (budget : Nat)

def fitCountIn : Nat → List PendingMember → Nat
  | _, [] => 0
  | used, m :: rest =>
    if used + itemBytes m ≤ budget then fitCountIn (used + itemBytes m) rest + 1 else 0

def withinByteBudget (sorted : List PendingMember) : List PendingMember :=
  sorted.take (max (fitCountIn itemBytes budget 0 sorted) 1)

def waveWithin (fireable : List PendingMember) (cap : Nat) : List PendingMember :=
  withinByteBudget itemBytes budget ((fireable.insertionSort OldestFirst).take cap)

def fireDecisionWithin (fireable : List PendingMember) (now : DateTime) (quietWindow : Duration)
    (cap : Nat) : BatchFire :=
  match (fireable.map PendingMember.deletionTimestamp).min? with
  | none => .accumulate quietWindow
  | some oldest =>
    let age : Duration := max (now - oldest) 0
    if fireable.length ≥ cap ∨ age ≥ quietWindow then
      .fire (waveWithin itemBytes budget fireable cap)
    else .accumulate (max (quietWindow - age) 0)

end Caps

def oldestFirstTruncated : List PendingMember → Nat → List PendingMember :=
  waveWithin itemBytes batchItemsByteBudget

def batchFireDecision : List PendingMember → DateTime → Duration → Nat → BatchFire :=
  fireDecisionWithin itemBytes batchItemsByteBudget

/-- What one reconcile knows when it decides about a wave. -/
structure DispatchContext where
  selfUid : String
  repo : RepositoryRef
  snapshots : List Snapshot
  cache : ScheduleCache
  confirmed : Finset String
  unreadable : Finset String
  onNamespaceDelete : NamespaceDeletePolicy
  threshold : Nat
  ack : Option DateTime
  now : DateTime

def DispatchContext.pending (cx : DispatchContext) : List PendingMember :=
  pendingMembers cx.snapshots (pinnedRepoKey cx.repo) (scheduleOwnerLookup cx.cache) cx.confirmed
    cx.onNamespaceDelete

def DispatchContext.eligible (cx : DispatchContext) : List PendingMember :=
  fireEligible cx.pending (peerEligibility cx.selfUid cx.threshold cx.ack cx.onNamespaceDelete
    cx.confirmed cx.unreadable cx.cache)

/-- The wave a reconcile would fire, if it fires one. -/
def DispatchContext.wave (cx : DispatchContext) (views : List BatchJobView) :
    Option (List PendingMember) :=
  let fireable := fireableMembers cx.eligible (coveredUids views)
  if fireable.isEmpty then none
  else
    match batchFireDecision itemBytes fireable cx.now batchQuietWindow maxBatchMembers with
    | .accumulate _ => none
    | .fire members => some members

end Wave

def sortedUids (members : List PendingMember) : List String :=
  (members.map PendingMember.uid).insertionSort (· ≤ ·)

def joinWith (sep : Char) (parts : List String) : String :=
  String.ofList ([sep].intercalate (parts.map String.toList))

def batchJobName (repo : RepositoryRef) (members : List PendingMember) : String :=
  cappedJobName ("snapdel-" ++ repoLabel repo ++ "-" ++ joinWith '-' (sortedUids members))

def buildBatchJob (jobNs : String) (repo : RepositoryRef) (members : List PendingMember) : Job where
  metadata :=
    { name := some (batchJobName repo members)
      ns := some jobNs
      annotations := [( deleteMembersAnnotation, joinWith ',' (sortedUids members))] }

@[simp] theorem buildBatchJob_name (jobNs : String) (repo : RepositoryRef)
    (members : List PendingMember) :
    (buildBatchJob jobNs repo members).name = batchJobName repo members := by
  simp [buildBatchJob, Job.name, ObjectMeta.nameAny]

theorem mem_coveredUids {jobs : List BatchJobView} {uid : String} :
    uid ∈ coveredUids jobs ↔ ∃ j ∈ jobs, covers j.state = true ∧ uid ∈ j.members := by
  simp [coveredUids, and_assoc]

theorem memberDisposition_succeeded_iff {uid : String} {jobs : List BatchJobView} :
    memberDisposition uid jobs = .succeededMember ↔
      ∃ j ∈ jobs, j.state = .succeeded ∧ uid ∈ j.members := by
  simp only [memberDisposition]
  split
  case isTrue h => simpa using h
  case isFalse h =>
    have hnone : ¬ ∃ j ∈ jobs, j.state = .succeeded ∧ uid ∈ j.members := by simpa using h
    simp only [hnone, iff_false]
    split <;> [simp; split] <;> simp

variable {itemBytes : PendingMember → Nat}

section Caps

variable {budget cap : Nat} {fireable : List PendingMember}

theorem waveWithin_front :
    waveWithin itemBytes budget fireable cap <+: fireable.insertionSort OldestFirst :=
  (List.take_prefix _ _).trans (List.take_prefix _ _)

theorem mem_of_mem_waveWithin {m : PendingMember} (h : m ∈ waveWithin itemBytes budget fireable cap) :
    m ∈ fireable :=
  (List.mem_insertionSort OldestFirst).mp (waveWithin_front.subset h)

theorem waveWithin_ne_nil (hne : fireable ≠ []) (hcap : 0 < cap) :
    waveWithin itemBytes budget fireable cap ≠ [] := by
  have hpos := List.length_pos_iff.mpr hne
  rw [← List.length_pos_iff]
  simp only [waveWithin, withinByteBudget, List.length_take, List.length_insertionSort]
  omega

theorem eq_waveWithin_of_fire {now : DateTime} {quietWindow : Duration}
    {members : List PendingMember}
    (h : fireDecisionWithin itemBytes budget fireable now quietWindow cap = .fire members) :
    fireable ≠ [] ∧ members = waveWithin itemBytes budget fireable cap := by
  unfold fireDecisionWithin at h
  split at h
  · cases h
  · next oldest hmin =>
    refine ⟨?_, ?_⟩
    · rintro rfl
      cases hmin
    · dsimp only at h
      split at h
      · cases h
        rfl
      · cases h

end Caps

variable {members : List PendingMember}

theorem DispatchContext.wave_eq_some {cx : DispatchContext} {views : List BatchJobView}
    (h : cx.wave itemBytes views = some members) :
    fireableMembers cx.eligible (coveredUids views) ≠ [] ∧
      members = oldestFirstTruncated itemBytes (fireableMembers cx.eligible (coveredUids views))
        maxBatchMembers := by
  simp only [wave] at h
  split at h
  case isTrue => cases h
  case isFalse =>
    split at h
    case h_1 => cases h
    case h_2 ms hfire =>
      cases h
      exact eq_waveWithin_of_fire hfire

theorem DispatchContext.mem_wave {cx : DispatchContext} {views : List BatchJobView}
    (h : cx.wave itemBytes views = some members) {m : PendingMember} (hm : m ∈ members) :
    m ∈ cx.eligible ∧ m.uid ∉ coveredUids views := by
  obtain ⟨-, rfl⟩ := wave_eq_some h
  simpa [fireableMembers] using mem_of_mem_waveWithin hm

theorem DispatchContext.wave_ne_nil {cx : DispatchContext} {views : List BatchJobView}
    (h : cx.wave itemBytes views = some members) : members ≠ [] := by
  obtain ⟨hne, rfl⟩ := wave_eq_some h
  exact waveWithin_ne_nil hne (by decide)

instance : Std.Total OldestFirst where
  total a b := by
    rcases lt_trichotomy a.deletionTimestamp b.deletionTimestamp with h | h | h
    · exact .inl (.inl h)
    · exact (le_total a.uid b.uid).imp (fun hle => .inr ⟨h, hle⟩) fun hle => .inr ⟨h.symm, hle⟩
    · exact .inr (.inl h)

instance : IsTrans PendingMember OldestFirst where
  trans a b c := by
    rintro (hab | ⟨hab, hab'⟩) (hbc | ⟨hbc, hbc'⟩)
    · exact .inl (hab.trans hbc)
    · exact .inl (hbc ▸ hab)
    · exact .inl (hab.symm ▸ hbc)
    · exact .inr ⟨hab.trans hbc, hab'.trans hbc'⟩

def totalBytes (itemBytes : PendingMember → Nat) : List PendingMember → Nat
  | [] => 0
  | m :: rest => itemBytes m + totalBytes itemBytes rest

theorem DispatchContext.uid_of_eligible {cx : DispatchContext} {m : PendingMember}
    (h : m ∈ cx.eligible) : ∃ b ∈ cx.snapshots, b.metadata.uid = some m.uid := by
  obtain ⟨b, hb, hmember⟩ := List.mem_filterMap.mp ((fireEligible_sublist _ _).subset h)
  exact ⟨b, hb, (pendingMemberFor_spec hmember).2.2.1⟩

theorem mem_sortedUids {uid : String} :
    uid ∈ sortedUids members ↔ ∃ m ∈ members, m.uid = uid := by
  simp [sortedUids]

theorem mem_batchJobMembers_build {jobNs : String} {repo : RepositoryRef} (hne : members ≠ [])
    (hcomma : ∀ m ∈ members, ',' ∉ m.uid.toList) (hempty : ∀ m ∈ members, m.uid ≠ "")
    (uid : String) :
    uid ∈ batchJobMembers (buildBatchJob jobNs repo members) ↔ ∃ m ∈ members, m.uid = uid := by
  have hls : (sortedUids members).map String.toList ≠ [] := by
    intro hnil
    have hlen := congrArg List.length hnil
    simp [sortedUids] at hlen
    exact hne hlen
  have hx : ∀ l ∈ (sortedUids members).map String.toList, ',' ∉ l := by
    intro l hl
    obtain ⟨u, hu, rfl⟩ := List.mem_map.mp hl
    obtain ⟨m, hm, rfl⟩ := mem_sortedUids.mp hu
    exact hcomma m hm
  have hlookup : (buildBatchJob jobNs repo members).metadata.annotations.lookup
      deleteMembersAnnotation = some (joinWith ',' (sortedUids members)) := by
    simp [buildBatchJob]
  simp only [batchJobMembers, hlookup, joinWith, String.toList_ofList,
    List.splitOn_intercalate ',' hx hls, List.mem_map, List.mem_filter]
  constructor
  · rintro ⟨l, ⟨⟨u, hu, rfl⟩, -⟩, rfl⟩
    obtain ⟨m, hm, rfl⟩ := mem_sortedUids.mp hu
    exact ⟨m, hm, by simp⟩
  · rintro ⟨m, hm, rfl⟩
    refine ⟨m.uid.toList, ⟨⟨m.uid, mem_sortedUids.mpr ⟨m, hm, rfl⟩, rfl⟩, ?_⟩, by simp⟩
    have hne' : m.uid.toList ≠ [] := by
      intro hnil
      exact hempty m hm (String.toList_inj.mp (by simpa using hnil))
    simpa using hne'

end Kopiur
