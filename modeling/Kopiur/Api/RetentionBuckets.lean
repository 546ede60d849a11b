import Kopiur.Api.Retention
import Kopiur.Lib.Groups
import Kopiur.Naming

/-!
# The retention population and its buckets

Which snapshots a prune looks at, how they are split by source and repository,
and that the buckets do not interfere: the fate of a snapshot is decided by
the snapshots of its own bucket.
-/

namespace Kopiur

open Lib

def participatesInGfs : SnapshotPhase → Bool
  | .succeeded => true
  | .unchanged | .discovered | .pending | .running | .failed | .deleting => false
  | .unknown _ => false

/-- The retention view of a snapshot; its end time falls back to the creation
timestamp. -/
def retentionView (rfc : Rfc3339) (b : Snapshot) : Option SnapshotRetentionView := do
  let status ← b.status
  if !(status.phase.any participatesInGfs) then none
  else
    let _ ← status.snapshot
    let endTime ← (((status.timing.bind SnapshotTiming.endTime).bind rfc.parse) <|>
      b.metadata.creationTimestamp.map wholeSecond)
    some { name := b.metadata.nameAny, endTime, pinned := b.spec.pin }

def sourceKey (source : Option PvcTargetRef) : String :=
  match source with
  | some t => "pvc/" ++ t.ns ++ "/" ++ t.name
  | none => ""

/-- The bucket of a snapshot: its source and, while the policy names several
repositories, its repository pin. -/
def retentionGroupKey (b : Snapshot) (policyIsMulti : Bool) : String :=
  if !policyIsMulti then sourceKey b.spec.source
  else
    let repo := (b.spec.repository.map fun r => repoKey r (b.metadata.ns.getD "")).getD ""
    sourceKey b.spec.source ++ "\n" ++ repo

def retentionRow (rfc : Rfc3339) (b : Snapshot) : Option SnapshotRetentionView :=
  if b.metadata.deletionTimestamp.isSome then none else retentionView rfc b

def retentionBuckets (rfc : Rfc3339) (backups : List Snapshot) (policyIsMulti : Bool) :
    List (String × List SnapshotRetentionView) :=
  groups (backups.filterMap fun b =>
    (retentionRow rfc b).map fun v => (retentionGroupKey b policyIsMulti, v))

def backupsToDelete (rfc : Rfc3339) (backups : List Snapshot) (policy : Retention)
    (policyIsMulti : Bool) : List String :=
  (retentionBuckets rfc backups policyIsMulti).flatMap fun e => (selectKept e.2 policy).delete

theorem retentionView_spec {rfc : Rfc3339} {b : Snapshot} {v : SnapshotRetentionView}
    (h : retentionView rfc b = some v) :
    v.name = b.metadata.nameAny ∧ v.pinned = b.spec.pin ∧
      ∃ status, b.status = some status ∧ status.phase = some .succeeded ∧
        status.snapshot.isSome := by
  unfold retentionView at h
  cases hstatus : b.status with
  | none => simp [hstatus] at h
  | some status =>
    simp only [hstatus, Option.bind_eq_bind, Option.bind_some] at h
    split at h
    case isTrue => simp at h
    case isFalse hphase =>
      simp only [Option.bind_eq_some_iff, Option.some.injEq] at h
      obtain ⟨info, hinfo, t, -, rfl⟩ := h
      refine ⟨rfl, rfl, status, rfl, ?_, by simp [hinfo]⟩
      cases hp : status.phase with
      | none => simp [hp] at hphase
      | some p => cases p <;> simp_all [participatesInGfs]

theorem retentionRow_spec {rfc : Rfc3339} {b : Snapshot} {v : SnapshotRetentionView}
    (h : retentionRow rfc b = some v) :
    b.metadata.deletionTimestamp = none ∧ retentionView rfc b = some v := by
  unfold retentionRow at h
  split at h
  case isTrue => cases h
  case isFalse hlive => exact ⟨by simpa using hlive, h⟩

-- Noninterference

section Buckets

variable (rfc : Rfc3339) (policyIsMulti : Bool)

def bucketOf (backups : List Snapshot) (key : String) : List SnapshotRetentionView :=
  (backups.filter fun b => retentionGroupKey b policyIsMulti = key).filterMap (retentionRow rfc)

theorem mem_retentionBuckets (backups : List Snapshot) (key : String)
    (vs : List SnapshotRetentionView) :
    (key, vs) ∈ retentionBuckets rfc backups policyIsMulti ↔
      vs = bucketOf rfc policyIsMulti backups key ∧ vs ≠ [] := by
  rw [retentionBuckets, mem_groups]
  suffices h : ((backups.filterMap fun b =>
      (retentionRow rfc b).map fun v => (retentionGroupKey b policyIsMulti, v)).filter
        fun e => e.1 = key).map Prod.snd = bucketOf rfc policyIsMulti backups key by rw [h]
  unfold bucketOf
  induction backups with
  | nil => rfl
  | cons b rest ih =>
    cases hrow : retentionRow rfc b with
    | none => by_cases hk : retentionGroupKey b policyIsMulti = key <;> simp [hrow, hk, ih]
    | some v => by_cases hk : retentionGroupKey b policyIsMulti = key <;> simp [hrow, hk, ih]

theorem mem_backupsToDelete (backups : List Snapshot) (policy : Retention) (name : String) :
    name ∈ backupsToDelete rfc backups policy policyIsMulti ↔
      ∃ key, name ∈ (selectKept (bucketOf rfc policyIsMulti backups key) policy).delete := by
  simp only [backupsToDelete, List.mem_flatMap, Prod.exists]
  constructor
  · rintro ⟨key, vs, hmem, hdel⟩
    obtain ⟨rfl, -⟩ := (mem_retentionBuckets rfc policyIsMulti backups key vs).mp hmem
    exact ⟨key, hdel⟩
  · rintro ⟨key, hdel⟩
    refine ⟨key, _, (mem_retentionBuckets rfc policyIsMulti backups key _).mpr ⟨rfl, ?_⟩, hdel⟩
    intro hnil
    simp [hnil, selectKept] at hdel

variable {rfc policyIsMulti}

theorem mem_bucketOf {backups : List Snapshot} {key : String} {v : SnapshotRetentionView} :
    v ∈ bucketOf rfc policyIsMulti backups key ↔
      ∃ b ∈ backups, retentionGroupKey b policyIsMulti = key ∧ retentionRow rfc b = some v := by
  simp [bucketOf, and_assoc]

theorem bucketOf_names (backups : List Snapshot) (key : String) :
    ((bucketOf rfc policyIsMulti backups key).map SnapshotRetentionView.name).Sublist
      (backups.map fun b => b.metadata.nameAny) :=
  (map_filterMap_sublist _ fun _ _ _ h => (retentionView_spec (retentionRow_spec h).2).1).trans
    (List.filter_sublist.map _)

def bucketPopulation (rfc : Rfc3339) (policyIsMulti : Bool) (backups : List Snapshot)
    (hnames : (backups.map fun b => b.metadata.nameAny).Nodup) (key : String) :
    Population SnapshotRetentionView where
  rows := bucketOf rfc policyIsMulti backups key
  distinct := hnames.sublist (bucketOf_names backups key)

/-- Of a list with distinct names, the delete list holds a snapshot's name just
when its own bucket drops its row. -/
theorem name_mem_backupsToDelete {backups : List Snapshot}
    (hnames : (backups.map fun b => b.metadata.nameAny).Nodup) {policy : Retention}
    {c : Snapshot} (hc : c ∈ backups) :
    c.metadata.nameAny ∈ backupsToDelete rfc backups policy policyIsMulti ↔
      ∃ v, retentionRow rfc c = some v ∧ v ∉ (gfs policy).pick (bucketPopulation rfc
        policyIsMulti backups hnames (retentionGroupKey c policyIsMulti)).set := by
  rw [mem_backupsToDelete]
  constructor
  · rintro ⟨key, hdel⟩
    obtain ⟨v, hv, hid, hdrop⟩ :=
      ((bucketPopulation rfc policyIsMulti backups hnames key).mem_delete policy _).mp hdel
    obtain ⟨b, hb, hkey, hrow⟩ := mem_bucketOf.mp hv
    have hname : v.name = b.metadata.nameAny := (retentionView_spec (retentionRow_spec hrow).2).1
    obtain rfl := List.inj_on_of_nodup_map hnames hb hc (hname.symm.trans hid)
    exact ⟨v, hrow, hkey ▸ hdrop⟩
  · rintro ⟨v, hrow, hdrop⟩
    have hname : v.name = c.metadata.nameAny := (retentionView_spec (retentionRow_spec hrow).2).1
    refine ⟨retentionGroupKey c policyIsMulti,
      ((bucketPopulation rfc policyIsMulti backups hnames _).mem_delete policy _).mpr ?_⟩
    exact ⟨v, mem_bucketOf.mpr ⟨c, hc, rfl, hrow⟩, hname, hdrop⟩

/-- The bucket a snapshot falls in decides its fate, whatever the other
buckets hold. -/
theorem backupsToDelete_congr {l l' : List Snapshot}
    (hl : (l.map fun b => b.metadata.nameAny).Nodup)
    (hl' : (l'.map fun b => b.metadata.nameAny).Nodup) {policy : Retention} {c : Snapshot}
    (hc : c ∈ l) (hc' : c ∈ l')
    (hsame : (l.filter fun b => retentionGroupKey b policyIsMulti =
        retentionGroupKey c policyIsMulti).Perm
      (l'.filter fun b => retentionGroupKey b policyIsMulti = retentionGroupKey c policyIsMulti)) :
    c.metadata.nameAny ∈ backupsToDelete rfc l policy policyIsMulti ↔
      c.metadata.nameAny ∈ backupsToDelete rfc l' policy policyIsMulti := by
  rw [name_mem_backupsToDelete hl hc, name_mem_backupsToDelete hl' hc']
  have hset : (bucketPopulation rfc policyIsMulti l hl (retentionGroupKey c policyIsMulti)).set =
      (bucketPopulation rfc policyIsMulti l' hl' (retentionGroupKey c policyIsMulti)).set := by
    ext v
    rw [Population.mem_set, Population.mem_set]
    exact (hsame.filterMap (retentionRow rfc)).mem_iff
  rw [hset]

theorem backupsToDelete_only {l : List Snapshot}
    (hl : (l.map fun b => b.metadata.nameAny).Nodup) {policy : Retention} {c : Snapshot}
    (hc : c ∈ l) (hdel : c.metadata.nameAny ∈ backupsToDelete rfc l policy policyIsMulti) :
    c.metadata.deletionTimestamp = none ∧ c.spec.pin = false ∧
      ∃ status, c.status = some status ∧ status.phase = some .succeeded ∧
        status.snapshot.isSome := by
  obtain ⟨v, hrow, hdrop⟩ := (name_mem_backupsToDelete hl hc).mp hdel
  obtain ⟨hlive, hview⟩ := retentionRow_spec hrow
  obtain ⟨-, hpin, hstatus⟩ := retentionView_spec hview
  refine ⟨hlive, ?_, hstatus⟩
  by_contra hpinned
  have hvp : v.pinned = true := by simpa [hpin] using hpinned
  apply hdrop
  rw [gfs, Choice.mem_union_pick]
  refine Or.inr (Choice.mem_always.mpr ⟨?_, hvp⟩)
  exact (Population.mem_set _).mpr (mem_bucketOf.mpr ⟨c, hc, rfl, hrow⟩)

end Buckets

-- The bucket key

def repositoryPin (b : Snapshot) : Option RepositoryRef :=
  b.spec.repository.map fun r => normalizedRepositoryRef r (b.metadata.ns.getD "")

structure KeyNames (b : Snapshot) : Prop where
  ns : ∀ n ∈ b.metadata.ns, ValidName n
  source : ∀ t ∈ b.spec.source, ValidName t.ns ∧ ValidName t.name
  repository : ∀ r ∈ b.spec.repository, ValidName r.name ∧ ∀ n ∈ r.ns, ValidName n

theorem sourceKey_inj {s s' : Option PvcTargetRef}
    (hs : ∀ t ∈ s, ValidName t.ns ∧ ValidName t.name)
    (hs' : ∀ t ∈ s', ValidName t.ns ∧ ValidName t.name) (h : sourceKey s = sourceKey s') :
    s = s' := by
  cases s with
  | none =>
    cases s' with
    | none => rfl
    | some t' => simp [sourceKey, ← String.toList_inj] at h
  | some t =>
    cases s' with
    | none => simp [sourceKey, ← String.toList_inj] at h
    | some t' =>
      simp only [sourceKey, String.append_assoc] at h
      have hrest := (String.append_right_inj _).mp h
      rw [← String.append_assoc, ← String.append_assoc] at hrest
      obtain ⟨hns, hname⟩ := cut_first (c := '/') (by simp) ((hs t rfl).1.not_mem (by decide))
        ((hs' t' rfl).1.not_mem (by decide)) hrest
      cases t
      cases t'
      simp_all

theorem sourceKey_no_newline {s : Option PvcTargetRef}
    (hs : ∀ t ∈ s, ValidName t.ns ∧ ValidName t.name) : '\n' ∉ (sourceKey s).toList := by
  cases s with
  | none => simp [sourceKey]
  | some t =>
    obtain ⟨hns, hname⟩ := hs t rfl
    have h1 := hns.not_mem (c := '\n') (by decide)
    have h2 := hname.not_mem (c := '\n') (by decide)
    simp [sourceKey, h1, h2]

theorem repoKey_ne_empty (r : RepositoryRef) (ns : String) : repoKey r ns ≠ "" := by
  unfold repoKey
  cases r.kind <;> simp [← String.toList_inj]

theorem repositoryPin_inj {b b' : Snapshot} (hb : KeyNames b) (hb' : KeyNames b')
    (h : (b.spec.repository.map fun r => repoKey r (b.metadata.ns.getD "")).getD "" =
      (b'.spec.repository.map fun r => repoKey r (b'.metadata.ns.getD "")).getD "") :
    repositoryPin b = repositoryPin b' := by
  have hslash : ∀ {b : Snapshot}, KeyNames b → ∀ r ∈ b.spec.repository,
      '/' ∉ (r.ns.getD (b.metadata.ns.getD "")).toList := by
    intro b hb r hr
    cases hns : r.ns with
    | some n => exact ((hb.repository r hr).2 n hns).not_mem (by decide)
    | none =>
      cases hown : b.metadata.ns with
      | some n => exact (hb.ns n hown).not_mem (by decide)
      | none => simp
  unfold repositoryPin
  cases hr : b.spec.repository with
  | none =>
    cases hr' : b'.spec.repository with
    | none => rfl
    | some r' => exact absurd (by simpa [hr, hr'] using h.symm) (repoKey_ne_empty r' _)
  | some r =>
    cases hr' : b'.spec.repository with
    | none => exact absurd (by simpa [hr, hr'] using h) (repoKey_ne_empty r _)
    | some r' =>
      simp only [hr, hr', Option.map_some, Option.getD_some] at h ⊢
      rw [repoKey_inj (hslash hb r hr) (hslash hb' r' hr') h]

theorem repoKey_of_pin_eq {b b' : Snapshot} (h : repositoryPin b = repositoryPin b') :
    (b.spec.repository.map fun r => repoKey r (b.metadata.ns.getD "")).getD "" =
      (b'.spec.repository.map fun r => repoKey r (b'.metadata.ns.getD "")).getD "" := by
  unfold repositoryPin at h
  cases hr : b.spec.repository <;> cases hr' : b'.spec.repository <;>
    simp only [hr, hr', Option.map_none, Option.map_some, Option.getD_none, Option.getD_some,
      reduceCtorEq, Option.some.injEq] at h ⊢
  rw [← repoKey_normalized _ _ "", h, repoKey_normalized]

/-- The key tells sources apart and, for a policy over several repositories,
pins as well. -/
theorem retentionGroupKey_eq_iff {b b' : Snapshot} (policyIsMulti : Bool) (hb : KeyNames b)
    (hb' : KeyNames b') :
    retentionGroupKey b policyIsMulti = retentionGroupKey b' policyIsMulti ↔
      b.spec.source = b'.spec.source ∧
        (policyIsMulti = true → repositoryPin b = repositoryPin b') := by
  unfold retentionGroupKey
  cases policyIsMulti with
  | false =>
    simp only [Bool.not_false, if_true, Bool.false_eq_true, false_implies, and_true]
    exact ⟨sourceKey_inj hb.source hb'.source, fun h => by rw [h]⟩
  | true =>
    simp only [Bool.not_true, Bool.false_eq_true, if_false, true_implies]
    constructor
    · intro h
      obtain ⟨hsource, hrepo⟩ := cut_first (c := '\n') (by simp) (sourceKey_no_newline hb.source)
        (sourceKey_no_newline hb'.source) h
      exact ⟨sourceKey_inj hb.source hb'.source hsource, repositoryPin_inj hb hb' hrepo⟩
    · rintro ⟨hsource, hpin⟩
      rw [hsource, repoKey_of_pin_eq hpin]

/-- Retention buckets do not interfere, a prune selects only live, successful,
recorded and unpinned snapshots, and buckets are told apart by source and, for
a policy over several repositories, by repository pin. -/
theorem retention_buckets_independent (rfc : Rfc3339) (policy : Retention) (policyIsMulti : Bool) :
    (∀ (l l' : List Snapshot) (c : Snapshot),
      (l.map fun b => b.metadata.nameAny).Nodup → (l'.map fun b => b.metadata.nameAny).Nodup →
      c ∈ l → c ∈ l' →
      (l.filter fun b => retentionGroupKey b policyIsMulti =
          retentionGroupKey c policyIsMulti).Perm
        (l'.filter fun b => retentionGroupKey b policyIsMulti =
          retentionGroupKey c policyIsMulti) →
      (c.metadata.nameAny ∈ backupsToDelete rfc l policy policyIsMulti ↔
        c.metadata.nameAny ∈ backupsToDelete rfc l' policy policyIsMulti)) ∧
    (∀ (l : List Snapshot) (c : Snapshot), (l.map fun b => b.metadata.nameAny).Nodup → c ∈ l →
      c.metadata.nameAny ∈ backupsToDelete rfc l policy policyIsMulti →
      c.metadata.deletionTimestamp = none ∧ c.spec.pin = false ∧
        ∃ status, c.status = some status ∧ status.phase = some .succeeded ∧
          status.snapshot.isSome) ∧
    (∀ b b' : Snapshot, KeyNames b → KeyNames b' →
      (retentionGroupKey b policyIsMulti = retentionGroupKey b' policyIsMulti ↔
        b.spec.source = b'.spec.source ∧
          (policyIsMulti = true → repositoryPin b = repositoryPin b'))) := by
  refine ⟨?_, ?_, ?_⟩
  · intro l l' c hl hl' hc hc' hsame
    exact backupsToDelete_congr hl hl' hc hc' hsame
  · intro l c hl hc hdel
    exact backupsToDelete_only hl hc hdel
  · intro b b' hb hb'
    exact retentionGroupKey_eq_iff policyIsMulti hb hb'

/-- A successful snapshot of the unfanned source, pinned to a repository. -/
def pinnedBackup (name repository : String) (created : Int) : Snapshot where
  metadata :=
    { name := some name
      ns := some "apps"
      creationTimestamp := some (DateTime.fromTimestamp created) }
  spec := { repository := some { name := repository, ns := some "apps" } }
  status := some
    { phase := some .succeeded
      snapshot := some
        { kopiaSnapshotId := name
          identity := { username := "u", hostname := "h" } } }

/-- Dropping the older of two backups of one bucket, beside another bucket. -/
theorem retention_buckets_independent_two :
    let rfc : Rfc3339 := ⟨fun _ => none, fun _ => ""⟩
    let policy : Retention := ⟨some 1, none, none, none, none, none⟩
    let l := [pinnedBackup "old" "a" 0, pinnedBackup "new" "a" 9]
    "old" ∈ backupsToDelete rfc l policy true ∧
      "old" ∈ backupsToDelete rfc (pinnedBackup "other" "b" 5 :: l) policy true := by
  intro rfc policy l
  have hdel : "old" ∈ backupsToDelete rfc l policy true := by decide
  refine ⟨hdel, ?_⟩
  exact ((retention_buckets_independent rfc policy true).1 l (pinnedBackup "other" "b" 5 :: l)
    (pinnedBackup "old" "a" 0) (by decide) (by decide) (by decide) (by decide)
    (by decide)).mp hdel

/-- A policy over one repository ignores the pins: two valid snapshots of one
source with different pins share a bucket, and one evicts the other. -/
theorem single_repository_buckets_mix_pins :
    let rfc : Rfc3339 := ⟨fun _ => none, fun _ => ""⟩
    let policy : Retention := ⟨some 1, none, none, none, none, none⟩
    let old := pinnedBackup "old" "a" 0
    let new := pinnedBackup "new" "b" 9
    KeyNames old ∧ KeyNames new ∧ repositoryPin old ≠ repositoryPin new ∧
      retentionGroupKey old false = retentionGroupKey new false ∧
      "old" ∉ backupsToDelete rfc [old] policy false ∧
      "old" ∈ backupsToDelete rfc [old, new] policy false := by
  intro rfc policy old new
  refine ⟨⟨?_, ?_, ?_⟩, ⟨?_, ?_, ?_⟩, by decide, by decide, by decide, by decide⟩ <;> decide

end Kopiur
