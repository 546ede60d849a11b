import Kopiur.Api.SnapshotReplication
import Kopiur.Mover.Replicate

/-!
# What an admitted retention leaves

A retention with one positive count keeps the newest row of every bucket; one
without drops every row that is not pinned. The policy validator tells the two
apart, the replication validator only asks whether a count is set.
-/

namespace Kopiur

open Lib

section Newest

variable {τ : Type} [SnapshotLike τ] {κ : Type}

def IsNewest (rows : List τ) (b : τ) : Prop := b ∈ rows ∧ ∀ c ∈ rows, rank b ≤ rank c

theorem exists_newest {rows : List τ} (h : rows ≠ []) : ∃ b, IsNewest rows b := by
  classical
  obtain ⟨b, hb, hmin⟩ := rows.toFinset.exists_min_image rank (by simpa using h)
  exact ⟨b, by simpa using hb, fun c hc => hmin c (by simpa using hc)⟩

theorem newest_mem_tierOf {s : Finset τ} {b : τ} (hb : b ∈ s) (hleast : ∀ c ∈ s, rank b ≤ rank c)
    (n : Nat) (key : DateTime → κ) : b ∈ (tierOf (some (n + 1)) key).pick s :=
  Choice.least_mem_firstPerKey hb hleast (Nat.succ_pos n)

theorem newest_mem_latestOf {s : Finset τ} {b : τ} (hb : b ∈ s)
    (hleast : ∀ c ∈ s, rank b ≤ rank c) (n : Nat) : b ∈ (latestOf (some (n + 1))).pick s :=
  Choice.least_mem_firstPerKey hb hleast (Nat.succ_pos n)

theorem tierOf_pick_eq_empty {count : Option Nat} (h : count.getD 0 = 0) (key : DateTime → κ)
    (s : Finset τ) : (tierOf count key).pick s = ∅ := by
  cases count with
  | none => rfl
  | some n =>
    obtain rfl : n = 0 := h
    exact Choice.firstPerKey_zero s

theorem latestOf_pick_eq_empty {count : Option Nat} (h : count.getD 0 = 0) (s : Finset τ) :
    (latestOf count).pick s = ∅ := by
  cases count with
  | none => rfl
  | some n =>
    obtain rfl : n = 0 := h
    exact Choice.firstPerKey_zero s

theorem newest_mem_gfs {policy : Retention} (h : retentionKeepsNothing policy = false)
    {s : Finset τ} {b : τ} (hb : b ∈ s) (hleast : ∀ c ∈ s, rank b ≤ rank c) :
    b ∈ (gfs policy).pick s := by
  obtain ⟨count, hcount, n, rfl⟩ := retentionKeepsNothing_eq_false.mp h
  simp only [gfs, Choice.mem_union_pick]
  simp only [Retention.counts, List.mem_cons, List.not_mem_nil, or_false] at hcount
  rcases hcount with h | h | h | h | h | h <;> simp only [← h]
  · simp [newest_mem_latestOf hb hleast n]
  all_goals simp [newest_mem_tierOf hb hleast n]

theorem mem_gfs_of_keepsNothing {policy : Retention} (h : retentionKeepsNothing policy = true)
    {s : Finset τ} {b : τ} :
    b ∈ (gfs policy).pick s ↔ b ∈ s ∧ SnapshotLike.pinned b = true := by
  have hcounts := retentionKeepsNothing_eq_true.mp h
  simp only [Retention.counts, List.mem_cons, List.not_mem_nil, or_false, forall_eq_or_imp,
    forall_eq] at hcounts
  obtain ⟨hl, hh, hd, hw, hm, ha⟩ := hcounts
  simp [gfs, Choice.mem_union_pick, Choice.mem_always, latestOf_pick_eq_empty hl,
    tierOf_pick_eq_empty hh, tierOf_pick_eq_empty hd, tierOf_pick_eq_empty hw,
    tierOf_pick_eq_empty hm, tierOf_pick_eq_empty ha]

end Newest

/-- In no population does the prune of a policy select the newest snapshot of
a bucket, or all snapshots of one. -/
def BackupsKeepNewest (rfc : Rfc3339) (keep : Retention) : Prop :=
  ∀ (policyIsMulti : Bool) (backups : List Snapshot),
    (backups.map fun b => b.metadata.nameAny).Nodup → ∀ key : String,
      (∀ v, IsNewest (bucketOf rfc policyIsMulti backups key) v →
        v.name ∉ backupsToDelete rfc backups keep policyIsMulti) ∧
      (bucketOf rfc policyIsMulti backups key ≠ [] →
        ∃ v ∈ bucketOf rfc policyIsMulti backups key,
          v.name ∉ backupsToDelete rfc backups keep policyIsMulti)

/-- In no population does the prune of a replication select the newest copy of
an identity. -/
def CopiesKeepNewest (keep : Retention) : Prop :=
  ∀ rows : List CopyRow, (rows.map CopyRow.name).Nodup → ∀ t v,
    IsNewest (copyBucket rows t) v → v.name ∉ retentionPruneNames rows keep

theorem backupsKeepNewest (rfc : Rfc3339) {keep : Retention}
    (h : retentionKeepsNothing keep = false) : BackupsKeepNewest rfc keep := by
  intro policyIsMulti backups hnames key
  have hkept : ∀ v, IsNewest (bucketOf rfc policyIsMulti backups key) v →
      v.name ∉ backupsToDelete rfc backups keep policyIsMulti := by
    intro v hnewest hdel
    obtain ⟨b, hb, hkey, hrow⟩ := mem_bucketOf.mp hnewest.1
    have hname : v.name = b.metadata.nameAny := (retentionView_spec (retentionRow_spec hrow).2).1
    rw [hname, name_mem_backupsToDelete hnames hb] at hdel
    obtain ⟨v', hrow', hdrop⟩ := hdel
    obtain rfl := Option.some.inj (hrow.symm.trans hrow')
    subst hkey
    apply hdrop
    exact newest_mem_gfs h ((Population.mem_set _).mpr hnewest.1) fun c hc =>
      hnewest.2 c ((Population.mem_set _).mp hc)
  refine ⟨hkept, fun hne => ?_⟩
  obtain ⟨v, hnewest⟩ := exists_newest hne
  exact ⟨v, hnewest.1, hkept v hnewest⟩

theorem copiesKeepNewest {keep : Retention} (h : retentionKeepsNothing keep = false) :
    CopiesKeepNewest keep := by
  intro rows hnames t v hnewest hdel
  obtain ⟨row, hrow, ht, hview⟩ := mem_copyBucket.mp hnewest.1
  rw [CopyRow.name_of_view hview, name_mem_retentionPruneNames hnames hrow] at hdel
  obtain ⟨v', hview', hdrop⟩ := hdel
  obtain rfl := Option.some.inj (hview.symm.trans hview')
  subst ht
  apply hdrop
  exact newest_mem_gfs h ((Population.mem_set _).mpr hnewest.1) fun c hc =>
    hnewest.2 c ((Population.mem_set _).mp hc)

/-- The only copy of an identity. -/
def loneCopy : CopyRow where
  name := "copy"
  identity := identityTriple "pg" "billing" "/pvc/data"
  startTime := some 0
  endTime := some 0
  pinned := false

theorem loneCopy_pruned {keep : Retention} (h : retentionKeepsNothing keep = true) :
    loneCopy.name ∈ retentionPruneNames [loneCopy] keep := by
  rw [name_mem_retentionPruneNames (by simp) List.mem_cons_self]
  refine ⟨_, rfl, fun hkept => ?_⟩
  cases ((mem_gfs_of_keepsNothing h).mp hkept).2

theorem copiesKeepNewest_iff {keep : Retention} :
    CopiesKeepNewest keep ↔ retentionKeepsNothing keep = false := by
  refine ⟨fun h => ?_, copiesKeepNewest⟩
  by_contra hnothing
  rw [Bool.not_eq_false] at hnothing
  have hbucket : copyBucket [loneCopy] loneCopy.identity =
      [⟨loneCopy.name, 0, false⟩] := by simp [copyBucket, CopyRow.view, loneCopy]
  refine h [loneCopy] (by simp) loneCopy.identity ⟨loneCopy.name, 0, false⟩ ?_
    (loneCopy_pruned hnothing)
  rw [hbucket]
  exact ⟨List.mem_cons_self, by simp⟩

/-- An accepted policy retention never takes the newest snapshot of a bucket. An
accepted replication retention never takes the newest copy of an identity just
when one of its counts is positive. -/
theorem admitted_retention_keeps_newest (rfc : Rfc3339) :
    (∀ earlier later retention, validateBackupConfig earlier later retention = [] →
      ∀ r, retention = some r → BackupsKeepNewest rfc r) ∧
    ∀ schedule mover migrate spec, validateSnapshotReplication schedule mover migrate spec = [] →
      ∀ keep, spec.pruning = some (.retention keep) →
        (CopiesKeepNewest keep ↔ ∃ count ∈ keep.counts, ∃ n, count = some (n + 1)) := by
  refine ⟨fun earlier later retention hpolicy r hr => ?_, ?_⟩
  · exact backupsKeepNewest rfc (keeps_something_of_accepted hpolicy hr)
  · intro schedule mover migrate spec _ keep _
    rw [copiesKeepNewest_iff, retentionKeepsNothing_eq_false]

def offsiteReplication (pruning : CopyPruning) : SnapshotReplicationSpec where
  sourceRef := { name := "nas-primary" }
  destinationRef := { kind := .clusterRepository, name := "offsite" }
  pruning := some pruning

def keepNewestZero : Retention := ⟨some 0, none, none, none, none, none⟩

/-- A count that is set to zero passes for a count: the replication is accepted
and prunes the only copy of an identity. -/
theorem zero_count_takes_the_newest_copy :
    validateSnapshotReplication [] [] [] (offsiteReplication (.retention keepNewestZero)) = [] ∧
      loneCopy.name ∈ retentionPruneNames [loneCopy] keepNewestZero ∧
      ¬ CopiesKeepNewest keepNewestZero :=
  ⟨by decide, loneCopy_pruned rfl, fun h => Bool.noConfusion (copiesKeepNewest_iff.mp h)⟩

end Kopiur
