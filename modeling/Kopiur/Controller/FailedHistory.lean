import Mathlib.Order.WithBot
import Kopiur.Api.Resources
import Kopiur.Lib.Groups

/-!
# The history of failed snapshots

A schedule keeps its newest failed Snapshots of each repository, up to a limit,
and prunes the older ones.
-/

namespace Kopiur

open Lib

attribute [local instance] timePreorder

def snapshotTerminalTime (rfc : Rfc3339) (s : Snapshot) : Option DateTime :=
  (((s.status.bind SnapshotStatus.timing).bind SnapshotTiming.endTime).bind rfc.parse) <|>
    s.metadata.creationTimestamp.map wholeSecond

def isFailedHistory : SnapshotPhase → Bool
  | .failed => true
  | .pending | .running | .succeeded | .deleting | .discovered | .unchanged => false
  -- A row whose phase cannot be read is never deleted.
  | .unknown _ => false

def prunableFailure (s : Snapshot) : Bool :=
  (s.status.bind SnapshotStatus.phase).any isFailedHistory &&
    s.metadata.deletionTimestamp.isNone && (s.status.bind SnapshotStatus.snapshot).isNone

/-- Rows are told apart by the repository they are pinned to; rows without a pin
share one bucket. -/
def failedBucketKey (s : Snapshot) : String :=
  (s.spec.repository.map fun r => repoKey r (s.metadata.ns.getD "")).getD ""

def failedBuckets (snapshots : List Snapshot) : List (String × List Snapshot) :=
  groups ((snapshots.filter prunableFailure).map fun s => (failedBucketKey s, s))

def terminalRank (rfc : Rfc3339) (s : Snapshot) : WithBot DateTime := snapshotTerminalTime rfc s

def newestFailures (rfc : Rfc3339) (rows : List Snapshot) : List Snapshot :=
  rows.insertionSort fun a b => terminalRank rfc b ≤ terminalRank rfc a

def failedSnapshotsToPrune (rfc : Rfc3339) (snapshots : List Snapshot) (limit : Nat) :
    List String :=
  (failedBuckets snapshots).flatMap fun bucket =>
    ((newestFailures rfc bucket.2).drop limit).filterMap fun s => s.metadata.name

structure ScheduleChildren where
  rows : List Snapshot
  named : ∀ s ∈ rows, s.metadata.name.isSome = true
  distinct : (rows.map fun s => s.metadata.name).Nodup

def failedBucket (rows : List Snapshot) (key : String) : List Snapshot :=
  rows.filter fun s => prunableFailure s && failedBucketKey s = key

namespace ScheduleChildren

variable (children : ScheduleChildren) (rfc : Rfc3339) (limit : Nat)

def Pruned (s : Snapshot) : Prop :=
  s ∈ children.rows ∧ ∃ name ∈ failedSnapshotsToPrune rfc children.rows limit,
    s.metadata.name = some name

instance : DecidablePred (children.Pruned rfc limit) := fun s =>
  inferInstanceAs (Decidable (s ∈ children.rows ∧
    ∃ name ∈ failedSnapshotsToPrune rfc children.rows limit, s.metadata.name = some name))

def pruned : ScheduleChildren where
  rows := children.rows.filter fun s => ¬ children.Pruned rfc limit s
  named s hs := children.named s (List.mem_of_mem_filter hs)
  distinct := children.distinct.sublist (List.filter_sublist.map _)

end ScheduleChildren

section Selection

variable {rfc : Rfc3339} {limit : Nat} {children : ScheduleChildren} {s r : Snapshot}

theorem mem_failedBuckets {rows : List Snapshot} {key : String} {vs : List Snapshot} :
    (key, vs) ∈ failedBuckets rows ↔ vs = failedBucket rows key ∧ vs ≠ [] := by
  have hbucket : ((rows.filter prunableFailure).filter fun s => failedBucketKey s = key) =
      failedBucket rows key := by
    simp only [List.filter_filter, failedBucket, Bool.and_comm]
  rw [failedBuckets, mem_groups_map, hbucket]

theorem mem_newestFailures {rows : List Snapshot} : s ∈ newestFailures rfc rows ↔ s ∈ rows :=
  List.mem_insertionSort _

theorem newestFailures_sorted (rfc : Rfc3339) (rows : List Snapshot) :
    (newestFailures rfc rows).Pairwise fun a b => terminalRank rfc b ≤ terminalRank rfc a :=
  haveI : Std.Total fun a b => terminalRank rfc b ≤ terminalRank rfc a := ⟨fun _ _ => le_total _ _⟩
  haveI : IsTrans Snapshot fun a b => terminalRank rfc b ≤ terminalRank rfc a :=
    ⟨fun _ _ _ hab hbc => le_trans hbc hab⟩
  List.pairwise_insertionSort _ _

theorem mem_failedBucket {rows : List Snapshot} {key : String} :
    s ∈ failedBucket rows key ↔ s ∈ rows ∧ prunableFailure s = true ∧ failedBucketKey s = key := by
  simp [failedBucket]

theorem eq_of_name (hs : s ∈ children.rows) (hr : r ∈ children.rows)
    (h : s.metadata.name = r.metadata.name) : s = r :=
  List.inj_on_of_nodup_map children.distinct hs hr h

theorem pruned_iff : children.Pruned rfc limit s ↔
    s ∈ (newestFailures rfc (failedBucket children.rows (failedBucketKey s))).drop limit := by
  simp only [ScheduleChildren.Pruned, failedSnapshotsToPrune, List.mem_flatMap, List.mem_filterMap]
  constructor
  · rintro ⟨hs, name, ⟨⟨key, rows⟩, hbucket, r, hr, hname⟩, hsame⟩
    obtain ⟨rfl, -⟩ := mem_failedBuckets.mp hbucket
    obtain ⟨hrow, -, hkey⟩ := mem_failedBucket.mp (mem_newestFailures.mp (List.mem_of_mem_drop hr))
    obtain rfl := eq_of_name hs hrow (hsame.trans hname.symm)
    rw [hkey]
    exact hr
  · intro hs
    have hbucket := mem_newestFailures.mp (List.mem_of_mem_drop hs)
    have hrow := (mem_failedBucket.mp hbucket).1
    obtain ⟨name, hname⟩ := Option.isSome_iff_exists.mp (children.named s hrow)
    exact ⟨hrow, name,
      ⟨⟨_, _⟩, mem_failedBuckets.mpr ⟨rfl, List.ne_nil_of_mem hbucket⟩, s, hs, hname⟩, hname⟩

theorem nodup_rows (children : ScheduleChildren) : children.rows.Nodup :=
  List.Nodup.of_map _ children.distinct

theorem failedBucket_pruned {key : String} :
    s ∈ failedBucket (children.pruned rfc limit).rows key ↔
      s ∈ (newestFailures rfc (failedBucket children.rows key)).take limit := by
  have hsorted : (newestFailures rfc (failedBucket children.rows key)).Nodup :=
    (List.perm_insertionSort _ _).nodup_iff.mpr ((nodup_rows children).filter _)
  rw [← List.take_append_drop limit (newestFailures rfc (failedBucket children.rows key))]
    at hsorted
  have hsplit : s ∈ failedBucket children.rows key ↔
      s ∈ (newestFailures rfc (failedBucket children.rows key)).take limit ∨
        s ∈ (newestFailures rfc (failedBucket children.rows key)).drop limit := by
    rw [← List.mem_append, List.take_append_drop, mem_newestFailures]
  have hleft : s ∈ failedBucket (children.pruned rfc limit).rows key ↔
      s ∈ failedBucket children.rows key ∧
        s ∉ (newestFailures rfc (failedBucket children.rows key)).drop limit := by
    simp only [mem_failedBucket, ScheduleChildren.pruned, List.mem_filter, decide_eq_true_eq,
      pruned_iff]
    constructor
    · rintro ⟨⟨hs, hkept⟩, hfailure, rfl⟩
      exact ⟨⟨hs, hfailure, rfl⟩, hkept⟩
    · rintro ⟨⟨hs, hfailure, rfl⟩, hkept⟩
      exact ⟨⟨hs, hkept⟩, hfailure, rfl⟩
  rw [hleft, hsplit]
  constructor
  · rintro ⟨htake | hdrop, hkept⟩
    · exact htake
    · exact absurd hdrop hkept
  · intro htake
    exact ⟨.inl htake, List.disjoint_of_nodup_append hsorted htake⟩

theorem failedBucket_pruned_length (rfc : Rfc3339) (limit : Nat) (children : ScheduleChildren)
    (key : String) :
    (failedBucket (children.pruned rfc limit).rows key).length ≤ limit := by
  have hsub : failedBucket (children.pruned rfc limit).rows key ⊆
      (newestFailures rfc (failedBucket children.rows key)).take limit :=
    fun s hs => failedBucket_pruned.mp hs
  have hnodup : (failedBucket (children.pruned rfc limit).rows key).Nodup :=
    (nodup_rows (children.pruned rfc limit)).filter _
  exact (List.subperm_of_subset hnodup hsub).length_le.trans (List.length_take_le _ _)

theorem prunableFailure_spec (h : prunableFailure s = true) : s.metadata.deletionTimestamp = none ∧
    ∃ status, s.status = some status ∧ status.phase = some .failed ∧ status.snapshot = none := by
  simp only [prunableFailure, Bool.and_eq_true, Option.isNone_iff_eq_none] at h
  obtain ⟨⟨hphase, hlive⟩, hsnapshot⟩ := h
  refine ⟨hlive, ?_⟩
  cases hstatus : s.status with
  | none => simp [hstatus] at hphase
  | some status =>
    simp only [hstatus, Option.bind_some] at hphase hsnapshot
    refine ⟨status, rfl, ?_, hsnapshot⟩
    cases hp : status.phase with
    | none => simp [hp] at hphase
    | some p => cases p <;> simp_all [isFailedHistory]

/-- Pruning bounds the failed rows of each repository, keeps the newest ones,
takes only failures without a kopia snapshot, settles at once, and looks at no
other repository's rows. -/
theorem failed_history_pruned (rfc : Rfc3339) (limit : Nat) (children : ScheduleChildren) :
    (∀ key, (failedBucket (children.pruned rfc limit).rows key).length ≤ limit) ∧
      (∀ s, children.Pruned rfc limit s →
        ∀ r ∈ failedBucket (children.pruned rfc limit).rows (failedBucketKey s),
          terminalRank rfc s ≤ terminalRank rfc r) ∧
      (∀ s, children.Pruned rfc limit s → s.metadata.deletionTimestamp = none ∧
        ∃ status, s.status = some status ∧ status.phase = some .failed ∧
          status.snapshot = none) ∧
      failedSnapshotsToPrune rfc (children.pruned rfc limit).rows limit = [] ∧
      ∀ (others : ScheduleChildren) (key : String),
        (children.rows.filter fun s => failedBucketKey s = key) =
          (others.rows.filter fun s => failedBucketKey s = key) →
        ∀ s, failedBucketKey s = key →
          (children.Pruned rfc limit s ↔ others.Pruned rfc limit s) := by
  refine ⟨failedBucket_pruned_length rfc limit children, ?_, ?_, ?_, ?_⟩
  · intro s hs r hr
    have hsorted := newestFailures_sorted rfc
      (failedBucket children.rows (failedBucketKey s))
    rw [← List.take_append_drop limit (newestFailures rfc _)] at hsorted
    exact (List.pairwise_append.mp hsorted).2.2 r (failedBucket_pruned.mp hr) s (pruned_iff.mp hs)
  · intro s hs
    have hbucket := mem_newestFailures.mp (List.mem_of_mem_drop (pruned_iff.mp hs))
    exact prunableFailure_spec (mem_failedBucket.mp hbucket).2.1
  · rw [failedSnapshotsToPrune, List.flatMap_eq_nil_iff]
    rintro ⟨key, rows⟩ hbucket
    obtain ⟨rfl, -⟩ := mem_failedBuckets.mp hbucket
    have hshort := failedBucket_pruned_length rfc limit children key
    have hdrop :
        (newestFailures rfc (failedBucket (children.pruned rfc limit).rows key)).drop limit =
          [] := by
      rw [List.drop_eq_nil_iff, newestFailures, List.length_insertionSort]
      exact hshort
    rw [hdrop, List.filterMap_nil]
  · rintro others key hsame s rfl
    have hbucket : failedBucket children.rows (failedBucketKey s) =
        failedBucket others.rows (failedBucketKey s) := by
      have hfilter := congrArg (List.filter prunableFailure) hsame
      rw [failedBucket, failedBucket]
      simpa only [List.filter_filter] using hfilter
    rw [pruned_iff, pruned_iff, hbucket]

end Selection

end Kopiur
