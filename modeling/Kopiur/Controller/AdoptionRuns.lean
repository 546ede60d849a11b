import Kopiur.Controller.Adoption
import Kopiur.Lib.Runs

/-!
# Adoption and retention together

A policy's reconcile prunes first and adopts afterwards, both from one listing
of its rows. Under `Retain` and `Orphan` a pruned row leaves its kopia
snapshot behind, which is discovered again: an adoption that retention takes
back would go round for ever.
-/

namespace Kopiur

open Lib

-- Reconciles and what happens between them

structure AdoptionState where
  -- The rows of the policy.
  children : List Snapshot := []
  -- The catalog's rows, in all namespaces.
  discovered : List Snapshot := []
  -- The kopia ids adopted so far, in order.
  adopted : List String := []
deriving DecidableEq

inductive AdoptCut
  | created
  | patched
  | complete
deriving DecidableEq

def AdoptionState.patchStatus (s : AdoptionState) (name : String) (snapshotId : String)
    (status : SnapshotStatus) : AdoptionState :=
  { s with
    children := s.children.map fun b =>
      if b.metadata.nameAny = name then patchAdoptedStatus status b else b
    adopted := s.adopted ++ [snapshotId] }

def AdoptionState.dropDiscovered (s : AdoptionState) (c : AdoptionCandidate) : AdoptionState :=
  { s with
    discovered := s.discovered.filter fun b =>
      !(decide (b.metadata.nameAny = c.name) && decide (b.metadata.ns.getD "" = c.ns)) }

/-- The status patch and the deletion of the discovered row, after the adopted
row is there. -/
def ensureAdopted (policy : AdoptionPolicy) (cut : AdoptCut) (s : AdoptionState)
    (c : AdoptionCandidate) : AdoptionState :=
  let (row, status) := buildAdoptedSnapshot policy c
  match cut with
  | .created => s
  | .patched => s.patchStatus row.metadata.nameAny c.snapshotId status
  | .complete => (s.patchStatus row.metadata.nameAny c.snapshotId status).dropDiscovered c

def adoptOne (policy : AdoptionPolicy) (now : DateTime) (cut : AdoptCut) (s : AdoptionState)
    (c : AdoptionCandidate) : AdoptionState :=
  let (row, _) := buildAdoptedSnapshot policy c
  match s.children.find? fun b => b.metadata.nameAny = row.metadata.nameAny with
  | none =>
    let created :=
      { row with metadata := { row.metadata with creationTimestamp := some now } }
    ensureAdopted policy cut { s with children := s.children ++ [created] } c
  | some existing =>
    -- Somebody else's row under that name is left alone.
    if adoptedRowMatchesCandidate existing c.snapshotId then ensureAdopted policy cut s c else s

def retentionPrunes (rfc : Rfc3339) (policy : AdoptionPolicy) (backups : List Snapshot) :
    List String :=
  match policy.retention with
  | none => []
  | some retention => backupsToDelete rfc backups retention false

/-- The adoption plan, from the rows as listed before the prune. -/
def adoptionPlan (rfc : Rfc3339) (policy : AdoptionPolicy) (batch : Nat)
    (backups discovered : List Snapshot) : AdoptionPlan :=
  let (ownSnapshotIds, hasHistory) := ownSnapshotIdsAndHistory rfc backups
  planAdoption rfc batch .adopt policy.identity policy.repositoryCluster
    (adoptionCandidates policy.repositoryUid discovered)
    { ownSnapshotIds, hasHistory, scanRequestedIdentity := policy.scanRequestedIdentity }
    { retention := policy.retention
      deletionPolicy := policy.effectiveDeletionPolicy
      ownViews := backups.filterMap (retentionView rfc)
      policyName := policy.name }

/-- How much of a reconcile is carried out: the prunes that are executed, and
for each adoption (by kopia id) how far it gets. -/
structure Progress where
  batch : Nat
  now : DateTime
  prunes : List String
  adoptions : List (String × AdoptCut)
deriving DecidableEq

def pruneRows (now : DateTime) (names : List String) (backups : List Snapshot) : List Snapshot :=
  backups.filterMap fun b =>
    if b.metadata.nameAny ∈ names then deleteObject now (stampPrunedBy .retention b) else some b

def executeAdoptions (policy : AdoptionPolicy) (p : Progress) (s : AdoptionState)
    (adopt : List AdoptionCandidate) : AdoptionState :=
  adopt.foldl (fun s c =>
    match p.adoptions.lookup c.snapshotId with
    | none => s
    | some cut => adoptOne policy p.now cut s c) s

def reconcilePolicy (rfc : Rfc3339) (policy : AdoptionPolicy) (p : Progress) (s : AdoptionState) :
    AdoptionState :=
  let backups := s.children
  let toDelete := (retentionPrunes rfc policy backups).filter (· ∈ p.prunes)
  executeAdoptions policy p { s with children := pruneRows p.now toDelete backups }
    (adoptionPlan rfc policy p.batch backups s.discovered).adopt

inductive AdoptionAction
  | reconcile (p : Progress)
  -- A row's own reconcile puts its finalizer on.
  | guard (name finalizer : String)
  -- A terminating row's finalizer is done.
  | settle (name : String)
  | discover (row : Snapshot)
  | expire (ns name : String)
  | arrive (row : Snapshot)
deriving DecidableEq

def AdoptionState.step (rfc : Rfc3339) (policy : AdoptionPolicy) (s : AdoptionState) :
    AdoptionAction → Option AdoptionState
  | .reconcile p => some (reconcilePolicy rfc policy p s)
  | .guard name finalizer =>
    some { s with
      children := s.children.map fun b =>
        if b.metadata.nameAny = name then
          { b with metadata := { b.metadata with finalizers := finalizer :: b.metadata.finalizers } }
        else b }
  | .settle name =>
    some { s with
      children := s.children.filter fun b =>
        !(decide (b.metadata.nameAny = name) && b.metadata.deletionTimestamp.isSome) }
  -- The catalog may list a snapshot whenever the repository holds it.
  | .discover row => some { s with discovered := s.discovered ++ [row] }
  | .expire ns name =>
    some { s with
      discovered := s.discovered.filter fun b =>
        !(decide (b.metadata.nameAny = name) && decide (b.metadata.ns.getD "" = ns)) }
  | .arrive row => some { s with children := s.children ++ [row] }

structure CatalogData where
  timing : Option SnapshotTiming
  pinned : Bool
deriving DecidableEq

section Runs

variable (rfc : Rfc3339) (policy : AdoptionPolicy) (catalog : String → CatalogData)
  (ids : List String)

structure Catalogued (c : AdoptionCandidate) : Prop where
  known : c.snapshotId ∈ ids
  timing : c.timing = (catalog c.snapshotId).timing
  pinned : c.pinned = (catalog c.snapshotId).pinned

/-- The catalog lists each of the kopia snapshots `ids` in one row at most, and
a new row of the policy takes a fresh name that adopts none of them. -/
def AdoptionAction.Meets (s : AdoptionState) : AdoptionAction → Prop
  | .discover row =>
    ∀ c ∈ adoptionCandidate policy.repositoryUid row, Catalogued catalog ids c ∧
      c.snapshotId ∉ (adoptionCandidates policy.repositoryUid s.discovered).map
        AdoptionCandidate.snapshotId
  | .arrive row =>
    row.metadata.nameAny ∉ s.children.map (fun b => b.metadata.nameAny) ∧
      ∀ id ∈ ids, row.metadata.nameAny ≠ adoptedCrName policy.name id
  | .reconcile _ | .guard _ _ | .settle _ | .expire _ _ => True

instance (c : AdoptionCandidate) : Decidable (Catalogued catalog ids c) :=
  decidable_of_iff (c.snapshotId ∈ ids ∧ c.timing = (catalog c.snapshotId).timing ∧
      c.pinned = (catalog c.snapshotId).pinned)
    ⟨fun h => ⟨h.1, h.2.1, h.2.2⟩, fun h => ⟨h.known, h.timing, h.pinned⟩⟩

instance (s : AdoptionState) (a : AdoptionAction) : Decidable (a.Meets policy catalog ids s) :=
  match a with
  | .discover row => inferInstanceAs (Decidable (∀ c ∈ adoptionCandidate policy.repositoryUid row,
      Catalogued catalog ids c ∧ _))
  | .arrive _ => inferInstanceAs (Decidable (_ ∧ _))
  | .reconcile _ | .guard _ _ | .settle _ | .expire _ _ => inferInstanceAs (Decidable True)

def adoptedView (id : String) : Option SnapshotRetentionView := do
  let timing ← (catalog id).timing
  let text ← timing.endTime
  let endTime ← rfc.parse text
  some { name := adoptedCrName policy.name id, endTime, pinned := (catalog id).pinned }

variable {rfc policy catalog ids}

theorem Catalogued.candidateView_eq {c : AdoptionCandidate} (h : Catalogued catalog ids c) :
    candidateView rfc policy.name c = adoptedView rfc policy catalog c.snapshotId := by
  simp only [candidateView, adoptedView, h.timing, h.pinned]

variable {id : String}

theorem adoptedView_name {v : SnapshotRetentionView}
    (h : adoptedView rfc policy catalog id = some v) : v.name = adoptedCrName policy.name id := by
  simp only [adoptedView, Option.bind_eq_bind, Option.bind_eq_some_iff, Option.some.injEq] at h
  obtain ⟨timing, -, text, -, t, -, rfl⟩ := h
  rfl

/-- The row that adopts a kopia snapshot: bare at first, then with the status
the candidate had. -/
structure AdoptedRow (catalog : String → CatalogData) (id : String) (b : Snapshot) : Prop where
  source : b.spec.source = none
  pin : b.spec.pin = (catalog id).pinned
  bare : b.status = none → b.metadata.deletionTimestamp = none
  status : ∀ status ∈ b.status, status.phase = some .succeeded ∧
    status.snapshot.map SnapshotInfo.kopiaSnapshotId = some id ∧
    status.timing = (catalog id).timing

theorem AdoptedRow.retentionView_eq {b : Snapshot} {v v' : SnapshotRetentionView}
    (h : AdoptedRow catalog id b) (hname : b.metadata.nameAny = adoptedCrName policy.name id)
    (hv : adoptedView rfc policy catalog id = some v) (hb : retentionView rfc b = some v') :
    v' = v := by
  simp only [adoptedView, Option.bind_eq_bind, Option.bind_eq_some_iff, Option.some.injEq] at hv
  obtain ⟨timing, htiming, text, htext, t, hparse, rfl⟩ := hv
  unfold retentionView at hb
  cases hstatus : b.status with
  | none => simp [hstatus] at hb
  | some status =>
    obtain ⟨hphase, hinfo, hsame⟩ := h.status status hstatus
    obtain ⟨info, hinfo, -⟩ := Option.map_eq_some_iff.mp hinfo
    simp [hstatus, hphase, participatesInGfs, hinfo, hsame, htiming, htext, hparse] at hb
    rw [← hb, hname, h.pin]

theorem AdoptedRow.own {b : Snapshot} {backups : List Snapshot} (h : AdoptedRow catalog id b)
    (hne : id ≠ "") (hb : b ∈ backups) (hstatus : b.status.isSome) :
    id ∈ (ownSnapshotIdsAndHistory rfc backups).1 := by
  obtain ⟨status, hstatus⟩ := Option.isSome_iff_exists.mp hstatus
  obtain ⟨-, hinfo, -⟩ := h.status status hstatus
  obtain ⟨info, hsnapshot, rfl⟩ := Option.map_eq_some_iff.mp hinfo
  refine List.mem_filterMap.mpr ⟨b, hb, ?_⟩
  simp [hstatus, hsnapshot, hne]

/-- What retention keeps; without one, everything. -/
noncomputable def keeping (policy : AdoptionPolicy) : Choice SnapshotRetentionView :=
  match policy.retention with
  | none => Choice.always fun _ => True
  | some retention => gfs retention

theorem stable_keeping (policy : AdoptionPolicy) : (keeping policy).Stable := by
  unfold keeping
  split
  case h_1 => exact Choice.stable_always _
  case h_2 => exact stable_gfs _

open Classical in
/-- The live rows without a source of their own. -/
noncomputable def liveViews (rfc : Rfc3339) (children : List Snapshot) :
    Finset SnapshotRetentionView :=
  (bucketOf rfc false children "").toFinset

variable {children : List Snapshot}

theorem mem_liveViews {v : SnapshotRetentionView} :
    v ∈ liveViews rfc children ↔
      ∃ b ∈ children, retentionGroupKey b false = "" ∧ retentionRow rfc b = some v := by
  rw [liveViews, List.mem_toFinset, mem_bucketOf]

theorem retentionPrunes_spec (hnames : (children.map fun b => b.metadata.nameAny).Nodup)
    {b : Snapshot} (hb : b ∈ children)
    (hdel : b.metadata.nameAny ∈ retentionPrunes rfc policy children) :
    ∃ v, retentionRow rfc b = some v ∧
      (retentionGroupKey b false = "" → v ∉ (keeping policy).pick (liveViews rfc children)) := by
  unfold retentionPrunes at hdel
  unfold keeping
  split at hdel
  case h_1 => cases hdel
  case h_2 retention hretention =>
    obtain ⟨v, hrow, hdrop⟩ := (name_mem_backupsToDelete hnames hb).mp hdel
    refine ⟨v, hrow, fun hkey => ?_⟩
    have hset : (bucketPopulation rfc false children hnames (retentionGroupKey b false)).set =
        liveViews rfc children := by
      ext w
      rw [Population.mem_set, hkey, mem_liveViews]
      exact mem_bucketOf
    simpa [hretention, hset] using hdrop

theorem retention_of_prune {name : String} (h : name ∈ retentionPrunes rfc policy children) :
    policy.retention.isSome := by
  unfold retentionPrunes at h
  split at h
  case h_1 => cases h
  case h_2 hretention => simp [hretention]

theorem AdoptedRow.key {b : Snapshot} (h : AdoptedRow catalog id b) :
    retentionGroupKey b false = "" := by
  simp [retentionGroupKey, h.source, sourceKey]

/-- Retention has dropped the row of a kopia snapshot for good, given all the
views that ever were in its bucket. -/
def Dropped (rfc : Rfc3339) (policy : AdoptionPolicy) (catalog : String → CatalogData)
    (arrived : Finset SnapshotRetentionView) (id : String) : Prop :=
  ∃ v, adoptedView rfc policy catalog id = some v ∧ v ∈ arrived ∧
    v ∉ (keeping policy).pick arrived

def Accounted (rfc : Rfc3339) (policy : AdoptionPolicy) (catalog : String → CatalogData)
    (children : List Snapshot) (arrived : Finset SnapshotRetentionView) (id : String) : Prop :=
  (∃ b ∈ children, b.metadata.nameAny = adoptedCrName policy.name id ∧ b.status.isSome ∧
    b.metadata.deletionTimestamp = none) ∨ Dropped rfc policy catalog arrived id

variable {arrived : Finset SnapshotRetentionView}

theorem Dropped.retention (h : Dropped rfc policy catalog arrived id) :
    policy.retention.isSome := by
  obtain ⟨v, -, hmem, hdrop⟩ := h
  cases hretention : policy.retention with
  | some retention => rfl
  | none =>
    refine absurd ?_ hdrop
    simp only [keeping, hretention]
    exact Choice.mem_always.mpr ⟨hmem, trivial⟩

theorem Dropped.not_kept {live gate : Finset SnapshotRetentionView} {v : SnapshotRetentionView}
    (h : Dropped rfc policy catalog arrived id)
    (hfaithful : (⟨live, arrived⟩ : Choice.Stage _).Faithful (keeping policy)) (hsub : live ⊆ gate)
    (hview : adoptedView rfc policy catalog id = some v) :
    v ∉ (keeping policy).pick gate := by
  obtain ⟨v', hview', hmem, hdrop⟩ := h
  obtain rfl : v' = v := Option.some.inj (hview'.symm.trans hview)
  refine (stable_keeping policy).not_mem_pick hmem hdrop ?_
  rw [← hfaithful.2]
  exact ((keeping policy).subset _).trans hsub

/-- The policy's rows, with the views that ever were in the bucket of the
adopted ones. -/
structure RowsInv (rfc : Rfc3339) (policy : AdoptionPolicy) (catalog : String → CatalogData)
    (ids : List String) (s : AdoptionState) (arrived : Finset SnapshotRetentionView) : Prop where
  distinct : (s.children.map fun b => b.metadata.nameAny).Nodup
  rows : ∀ b ∈ s.children, ∀ id ∈ ids, b.metadata.nameAny = adoptedCrName policy.name id →
    AdoptedRow catalog id b
  faithful : (⟨liveViews rfc s.children, arrived⟩ : Choice.Stage _).Faithful (keeping policy)
  once : s.adopted.Nodup
  known : ∀ id ∈ s.adopted, id ∈ ids ∧ id ≠ "" ∧ Accounted rfc policy catalog s.children arrived id
  viewed : policy.retention.isSome → ∀ id ∈ s.adopted,
    (adoptedView rfc policy catalog id).isSome

/-- The catalog's rows. -/
structure CatalogInv (policy : AdoptionPolicy) (catalog : String → CatalogData)
    (ids : List String) (s : AdoptionState) : Prop where
  catalogued : ∀ c ∈ adoptionCandidates policy.repositoryUid s.discovered, Catalogued catalog ids c
  distinct : ((adoptionCandidates policy.repositoryUid s.discovered).map
    AdoptionCandidate.snapshotId).Nodup

theorem Dropped.mono {arrived' : Finset SnapshotRetentionView}
    (h : Dropped rfc policy catalog arrived id) (hsub : arrived ⊆ arrived') :
    Dropped rfc policy catalog arrived' id := by
  obtain ⟨v, hv, hmem, hdrop⟩ := h
  refine ⟨v, hv, hsub hmem, fun hpick => hdrop ?_⟩
  exact (stable_keeping policy).heritage hsub hmem hpick

-- What the gate lets through

theorem snapshotId_ne_empty {repoUid : String} {rows : List Snapshot} {c : AdoptionCandidate}
    (h : c ∈ adoptionCandidates repoUid rows) : c.snapshotId ≠ "" := by
  obtain ⟨b, -, hb⟩ := List.mem_filterMap.mp h
  unfold adoptionCandidate at hb
  split at hb
  case isTrue => cases hb
  case isFalse =>
    split at hb
    case isTrue => cases hb
    case isFalse =>
      split at hb
      case isTrue => cases hb
      case isFalse =>
        simp only [Option.bind_eq_bind, Option.bind_eq_some_iff] at hb
        obtain ⟨status, -, info, -, hb⟩ := hb
        split at hb
        case isTrue => cases hb
        case isFalse hne =>
          cases hb
          simpa using hne

/-- The candidates of the policy's identity that it has no row for. -/
def gateCandidates (rfc : Rfc3339) (policy : AdoptionPolicy) (children discovered : List Snapshot) :
    List AdoptionCandidate :=
  ((adoptionCandidates policy.repositoryUid discovered).filter fun c =>
    identitiesMatch policy.identity c.identity &&
      !isForeignCluster c.identity.hostname policy.repositoryCluster).filter
    fun c => c.snapshotId ∉ (ownSnapshotIdsAndHistory rfc children).1

def gateViews (rfc : Rfc3339) (policy : AdoptionPolicy) (children discovered : List Snapshot) :
    List SnapshotRetentionView :=
  children.filterMap (retentionView rfc) ++
    (gateCandidates rfc policy children discovered).filterMap (candidateView rfc policy.name)

variable (rfc policy) in
theorem gateCandidates_sublist (children discovered : List Snapshot) :
    (gateCandidates rfc policy children discovered).Sublist
      (adoptionCandidates policy.repositoryUid discovered) :=
  List.filter_sublist.trans List.filter_sublist

variable (rfc policy) in
theorem adoptionPlan_adopt (batch : Nat) (children discovered : List Snapshot) :
    ∃ passing : List AdoptionCandidate,
      passing.Sublist (gateCandidates rfc policy children discovered) ∧
      (∀ c ∈ (adoptionPlan rfc policy batch children discovered).adopt, c ∈ passing) ∧
      ((adoptionPlan rfc policy batch children discovered).adopt.map
        AdoptionCandidate.snapshotId).Sublist
        ((passing.insertionSort fun a b => a.snapshotId ≤ b.snapshotId).map
          AdoptionCandidate.snapshotId) ∧
      (policy.effectiveDeletionPolicy ≠ .delete → ∀ retention ∈ policy.retention, ∀ c ∈ passing,
        adoptedCrName policy.name c.snapshotId ∈
          (selectKept (gateViews rfc policy children discovered) retention).keep) := by
  refine ⟨_, ?_, ?_, (List.take_sublist _ _).map _, ?_⟩
  · show List.Sublist (applyRetentionGate _ _ _).1 _
    unfold applyRetentionGate
    split
    case h_1 => exact List.Sublist.refl _
    case h_2 => exact List.Sublist.refl _
    case h_3 => exact List.Sublist.refl _
    case h_4 => exact List.filter_sublist
    case h_5 => exact List.filter_sublist
  · intro c hc
    exact (List.mem_insertionSort _).mp (List.mem_of_mem_take hc)
  · intro hpolicy retention hretention c hc
    rw [Option.mem_def] at hretention
    simp only [hretention] at hc
    split at hc
    case h_1 h => exact absurd h hpolicy
    case h_2 => simp_all
    case h_3 => simp_all
    case h_4 heq =>
      cases heq
      exact of_decide_eq_true (List.mem_filter.mp hc).2
    case h_5 heq =>
      cases heq
      exact of_decide_eq_true (List.mem_filter.mp hc).2

theorem retentionViews_names (children : List Snapshot) :
    ((children.filterMap (retentionView rfc)).map SnapshotRetentionView.name).Sublist
      (children.map fun b => b.metadata.nameAny) :=
  map_filterMap_sublist children fun _ _ _ h => (retentionView_spec h).1

section Gate

variable {s : AdoptionState} {arrived : Finset SnapshotRetentionView}

/-- A candidate without a row of the policy shares its adopted name with none
of the policy's views. -/
theorem own_name_ne (hrows : RowsInv rfc policy catalog ids s arrived)
    (hcat : CatalogInv policy catalog ids s) {c : AdoptionCandidate}
    (hc : c ∈ gateCandidates rfc policy s.children s.discovered) {b : Snapshot}
    (hb : b ∈ s.children) {v : SnapshotRetentionView} (hv : retentionView rfc b = some v) :
    v.name ≠ adoptedCrName policy.name c.snapshotId := by
  intro hname
  have hcand := (gateCandidates_sublist rfc policy s.children s.discovered).subset hc
  obtain ⟨hvname, -, status, hstatus, -⟩ := retentionView_spec hv
  have hrow := hrows.rows b hb c.snapshotId (hcat.catalogued c hcand).known (hvname ▸ hname)
  have hown : c.snapshotId ∈ (ownSnapshotIdsAndHistory rfc s.children).1 :=
    hrow.own (snapshotId_ne_empty hcand) hb (by simp [hstatus])
  have hnot := of_decide_eq_true (List.mem_filter.mp hc).2
  exact hnot hown

def NamesDistinct (policy : AdoptionPolicy) (ids : List String) : Prop :=
  ∀ i ∈ ids, ∀ j ∈ ids, adoptedCrName policy.name i = adoptedCrName policy.name j → i = j

theorem candidateView_name {c : AdoptionCandidate} {v : SnapshotRetentionView}
    (h : candidateView rfc policy.name c = some v) :
    v.name = adoptedCrName policy.name c.snapshotId := by
  simp only [candidateView, Option.bind_eq_bind, Option.bind_eq_some_iff, Option.some.injEq] at h
  obtain ⟨timing, -, text, -, t, -, rfl⟩ := h
  rfl

theorem candidateView_names (cands : List AdoptionCandidate) :
    ((cands.filterMap (candidateView rfc policy.name)).map SnapshotRetentionView.name).Sublist
      (cands.map fun c => adoptedCrName policy.name c.snapshotId) :=
  map_filterMap_sublist cands fun _ _ _ => candidateView_name

/-- The population the gate selects from. -/
def gatePopulation (hnames : NamesDistinct policy ids)
    (hrows : RowsInv rfc policy catalog ids s arrived) (hcat : CatalogInv policy catalog ids s) :
    Population SnapshotRetentionView where
  rows := gateViews rfc policy s.children s.discovered
  distinct := by
    show ((gateViews rfc policy s.children s.discovered).map SnapshotRetentionView.name).Nodup
    have hsub := gateCandidates_sublist rfc policy s.children s.discovered
    have hids := hcat.distinct.sublist (hsub.map AdoptionCandidate.snapshotId)
    have hcands : ((gateCandidates rfc policy s.children s.discovered).map fun c =>
        adoptedCrName policy.name c.snapshotId).Nodup := by
      have hmap := List.Nodup.map_on (f := adoptedCrName policy.name) (fun i hi j hj h => by
        obtain ⟨c, hc, rfl⟩ := List.mem_map.mp hi
        obtain ⟨c', hc', rfl⟩ := List.mem_map.mp hj
        exact hnames _ (hcat.catalogued c (hsub.subset hc)).known _
          (hcat.catalogued c' (hsub.subset hc')).known h) hids
      rwa [List.map_map] at hmap
    rw [gateViews, List.map_append, List.nodup_append]
    refine ⟨(retentionViews_names s.children).nodup hrows.distinct,
      (candidateView_names _).nodup hcands, ?_⟩
    rintro name hname _ hname' rfl
    obtain ⟨v, hv, rfl⟩ := List.mem_map.mp hname
    obtain ⟨b, hb, hview⟩ := List.mem_filterMap.mp hv
    obtain ⟨c, hc, heq⟩ := List.mem_map.mp ((candidateView_names _).subset hname')
    exact own_name_ne hrows hcat hc hb hview heq.symm

/-- Under retention, an adopted candidate has a view, and the gate's population
keeps it. -/
theorem adopt_kept (hnames : NamesDistinct policy ids)
    (hrows : RowsInv rfc policy catalog ids s arrived) (hcat : CatalogInv policy catalog ids s)
    (hpolicy : policy.effectiveDeletionPolicy ≠ .delete) (hretention : policy.retention.isSome)
    {batch : Nat} {c : AdoptionCandidate}
    (hc : c ∈ (adoptionPlan rfc policy batch s.children s.discovered).adopt) :
    ∃ v, adoptedView rfc policy catalog c.snapshotId = some v ∧
      v ∈ (keeping policy).pick (gatePopulation hnames hrows hcat).set := by
  obtain ⟨retention, hretention⟩ := Option.isSome_iff_exists.mp hretention
  obtain ⟨passing, hsub, hpass, -, hkept⟩ :=
    adoptionPlan_adopt rfc policy batch s.children s.discovered
  have hgate := hsub.subset (hpass c hc)
  have hcatalogued := hcat.catalogued c ((gateCandidates_sublist rfc policy _ _).subset hgate)
  have hkeep := hkept hpolicy retention hretention c (hpass c hc)
  obtain ⟨v, hv, hname, hpick⟩ :=
    ((gatePopulation hnames hrows hcat).mem_keep retention _).mp hkeep
  refine ⟨v, ?_, by simpa [keeping, hretention] using hpick⟩
  rcases List.mem_append.mp hv with hv | hv
  · obtain ⟨b, hb, hview⟩ := List.mem_filterMap.mp hv
    exact absurd hname (own_name_ne hrows hcat hgate hb hview)
  · -- The view is that of some candidate under the same name, hence of this one.
    obtain ⟨c', hc', hview⟩ := List.mem_filterMap.mp hv
    have hcatalogued' := hcat.catalogued c' ((gateCandidates_sublist rfc policy _ _).subset hc')
    rw [hcatalogued'.candidateView_eq] at hview
    have hsame := hnames _ hcatalogued'.known _ hcatalogued.known
      ((adoptedView_name hview).symm.trans hname)
    rw [← hsame]
    exact hview

theorem liveViews_subset_gate (hnames : NamesDistinct policy ids)
    (hrows : RowsInv rfc policy catalog ids s arrived) (hcat : CatalogInv policy catalog ids s) :
    liveViews rfc s.children ⊆ (gatePopulation hnames hrows hcat).set := by
  intro v hv
  obtain ⟨b, hb, -, hrow⟩ := mem_liveViews.mp hv
  rw [Population.mem_set]
  exact List.mem_append_left _ (List.mem_filterMap.mpr ⟨b, hb, (retentionRow_spec hrow).2⟩)

theorem adopt_fresh (hnames : NamesDistinct policy ids)
    (hrows : RowsInv rfc policy catalog ids s arrived) (hcat : CatalogInv policy catalog ids s)
    (hpolicy : policy.effectiveDeletionPolicy ≠ .delete) {batch : Nat} {c : AdoptionCandidate}
    (hc : c ∈ (adoptionPlan rfc policy batch s.children s.discovered).adopt) :
    c.snapshotId ∉ s.adopted := by
  intro hbefore
  obtain ⟨hknown, hne, haccounted⟩ := hrows.known _ hbefore
  rcases haccounted with ⟨b, hb, hname, hstatus, -⟩ | hdropped
  · -- The row is still there, so the id is the policy's own.
    obtain ⟨passing, hsub, hpass, -, -⟩ := adoptionPlan_adopt rfc policy batch s.children s.discovered
    have hnot := of_decide_eq_true (List.mem_filter.mp (hsub.subset (hpass c hc))).2
    exact hnot ((hrows.rows b hb _ hknown hname).own hne hb hstatus)
  · obtain ⟨v, hview, hkept⟩ := adopt_kept hnames hrows hcat hpolicy hdropped.retention hc
    exact hdropped.not_kept hrows.faithful (liveViews_subset_gate hnames hrows hcat) hview hkept

end Gate

theorem mem_pruneRows {now : DateTime} {names : List String} {b' : Snapshot}
    (h : b' ∈ pruneRows now names children) :
    ∃ b ∈ children, b'.metadata.nameAny = b.metadata.nameAny ∧ b'.spec = b.spec ∧
      b'.status = b.status ∧ (b' = b ∨
        (b.metadata.nameAny ∈ names ∧ b'.metadata.deletionTimestamp.isSome)) := by
  obtain ⟨b, hb, heq⟩ := List.mem_filterMap.mp h
  refine ⟨b, hb, ?_⟩
  split at heq
  case isFalse =>
    cases heq
    exact ⟨rfl, rfl, rfl, .inl rfl⟩
  case isTrue hname =>
    unfold deleteObject at heq
    split at heq
    case isTrue hterm =>
      cases heq
      exact ⟨rfl, rfl, rfl, .inr ⟨hname, hterm⟩⟩
    case isFalse =>
      split at heq
      case isTrue => cases heq
      case isFalse =>
        cases heq
        exact ⟨rfl, rfl, rfl, .inr ⟨hname, rfl⟩⟩

theorem mem_pruneRows_of_not_mem {now : DateTime} {names : List String} {b : Snapshot}
    (hb : b ∈ children) (hname : b.metadata.nameAny ∉ names) :
    b ∈ pruneRows now names children :=
  List.mem_filterMap.mpr ⟨b, hb, if_neg hname⟩

theorem pruneRows_names (now : DateTime) (names : List String) (children : List Snapshot) :
    ((pruneRows now names children).map fun b => b.metadata.nameAny).Sublist
      (children.map fun b => b.metadata.nameAny) := by
  refine map_filterMap_sublist children fun b _ b' heq => ?_
  have hleft : b' ∈ pruneRows now names [b] :=
    List.mem_filterMap.mpr ⟨b, List.mem_singleton_self b, heq⟩
  obtain ⟨_, hmem, hname, -⟩ := mem_pruneRows hleft
  rw [hname, List.mem_singleton.mp hmem]

theorem AdoptedRow.of_same {b b' : Snapshot} (h : AdoptedRow catalog id b)
    (hspec : b'.spec = b.spec) (hstatus : b'.status = b.status)
    (hlive : b.status = none → b'.metadata.deletionTimestamp = none) :
    AdoptedRow catalog id b' where
  source := hspec ▸ h.source
  pin := hspec ▸ h.pin
  bare hnone := hlive (hstatus ▸ hnone)
  status := hstatus ▸ h.status

variable {s : AdoptionState}

theorem RowsInv.prune (h : RowsInv rfc policy catalog ids s arrived) (now : DateTime)
    {names : List String} (hsel : ∀ n ∈ names, n ∈ retentionPrunes rfc policy s.children) :
    RowsInv rfc policy catalog ids { s with children := pruneRows now names s.children } arrived ∧
      liveViews rfc (pruneRows now names s.children) ⊆ liveViews rfc s.children := by
  have hshrinks : liveViews rfc (pruneRows now names s.children) ⊆ liveViews rfc s.children := by
    intro v hv
    obtain ⟨b', hb', hkey, hrow⟩ := mem_liveViews.mp hv
    obtain ⟨b, hb, -, -, -, rfl | ⟨-, hterm⟩⟩ := mem_pruneRows hb'
    · exact mem_liveViews.mpr ⟨b', hb, hkey, hrow⟩
    · simp [(retentionRow_spec hrow).1] at hterm
  have hkeeps : (keeping policy).pick (liveViews rfc s.children) ⊆
      liveViews rfc (pruneRows now names s.children) := by
    intro v hv
    obtain ⟨b, hb, hkey, hrow⟩ := mem_liveViews.mp ((keeping policy).subset _ hv)
    refine mem_liveViews.mpr ⟨b, mem_pruneRows_of_not_mem hb fun hname => ?_, hkey, hrow⟩
    obtain ⟨v', hrow', hdrop⟩ := retentionPrunes_spec h.distinct hb (hsel _ hname)
    rw [hrow] at hrow'
    cases hrow'
    exact hdrop hkey hv
  refine ⟨⟨(pruneRows_names now names s.children).nodup h.distinct, ?_, ?_, h.once, ?_, h.viewed⟩,
    hshrinks⟩
  · intro b' hb' id hid hname
    obtain ⟨b, hb, hsame, hspec, hstatus, hcase⟩ := mem_pruneRows hb'
    refine (h.rows b hb id hid (hsame ▸ hname)).of_same hspec hstatus fun hnone => ?_
    rcases hcase with rfl | ⟨hsel', -⟩
    · exact (h.rows b' hb id hid hname).bare hnone
    · -- A bare row has no view, so no prune selects it.
      obtain ⟨v, hrow, -⟩ := retentionPrunes_spec h.distinct hb (hsel _ hsel')
      obtain ⟨-, -, status, hsome, -⟩ := retentionView_spec (retentionRow_spec hrow).2
      simp [hnone] at hsome
  · exact (Choice.StageStep.prune _ hkeeps hshrinks).faithful (stable_keeping policy) h.faithful
  · intro id hid
    obtain ⟨hknown, hne, haccounted⟩ := h.known id hid
    refine ⟨hknown, hne, ?_⟩
    rcases haccounted with ⟨b, hb, hname, hstatus, hlive⟩ | hdropped
    · by_cases hsel' : b.metadata.nameAny ∈ names
      · obtain ⟨v, hrow, hdrop⟩ := retentionPrunes_spec h.distinct hb (hsel _ hsel')
        have hadopted := h.rows b hb id hknown hname
        obtain ⟨v', hview⟩ := Option.isSome_iff_exists.mp
          (h.viewed (retention_of_prune (hsel _ hsel')) id hid)
        obtain rfl : v = v' := hadopted.retentionView_eq hname hview (retentionRow_spec hrow).2
        refine .inr ⟨v, hview, h.faithful.1 (mem_liveViews.mpr ⟨b, hb, hadopted.key, hrow⟩), ?_⟩
        rw [← h.faithful.2]
        exact hdrop hadopted.key
      · exact .inl ⟨b, mem_pruneRows_of_not_mem hb hsel', hname, hstatus, hlive⟩
    · exact .inr hdropped

-- Adopting

variable {t : AdoptionState}

theorem RowsInv.grow (h : RowsInv rfc policy catalog ids s arrived)
    (hdistinct : (t.children.map fun b => b.metadata.nameAny).Nodup)
    (hrows : ∀ b ∈ t.children, ∀ id ∈ ids, b.metadata.nameAny = adoptedCrName policy.name id →
      AdoptedRow catalog id b)
    (hkept : ∀ b ∈ s.children, b.status.isSome → b ∈ t.children)
    (honce : t.adopted.Nodup)
    (hknown : ∀ id ∈ t.adopted, id ∈ s.adopted ∨ (id ∈ ids ∧ id ≠ "" ∧
      (∃ b ∈ t.children, b.metadata.nameAny = adoptedCrName policy.name id ∧ b.status.isSome ∧
        b.metadata.deletionTimestamp = none) ∧
      (policy.retention.isSome → (adoptedView rfc policy catalog id).isSome))) :
    ∃ arrived', arrived ⊆ arrived' ∧ RowsInv rfc policy catalog ids t arrived' := by
  have hlive : liveViews rfc s.children ⊆ liveViews rfc t.children := by
    intro v hv
    obtain ⟨b, hb, hkey, hrow⟩ := mem_liveViews.mp hv
    obtain ⟨-, -, status, hstatus, -⟩ := retentionView_spec (retentionRow_spec hrow).2
    exact mem_liveViews.mpr ⟨b, hkept b hb (by simp [hstatus]), hkey, hrow⟩
  obtain ⟨arrived', hsub, hfaithful⟩ := h.faithful.grow (stable_keeping policy) hlive
  refine ⟨arrived', hsub, hdistinct, hrows, hfaithful, honce, ?_, ?_⟩
  · intro id hid
    rcases hknown id hid with hbefore | ⟨hid', hne, hrow, -⟩
    · obtain ⟨hid', hne, haccounted⟩ := h.known id hbefore
      refine ⟨hid', hne, ?_⟩
      rcases haccounted with ⟨b, hb, hname, hstatus, hlive⟩ | hdropped
      · exact .inl ⟨b, hkept b hb hstatus, hname, hstatus, hlive⟩
      · exact .inr (hdropped.mono hsub)
    · exact ⟨hid', hne, .inl hrow⟩
  · intro hretention id hid
    rcases hknown id hid with hbefore | ⟨-, -, -, hview⟩
    · exact h.viewed hretention id hbefore
    · exact hview hretention

section AdoptOne

variable {s : AdoptionState} {arrived : Finset SnapshotRetentionView} {c : AdoptionCandidate}

def bareRow (policy : AdoptionPolicy) (now : DateTime) (c : AdoptionCandidate) : Snapshot :=
  let row := (buildAdoptedSnapshot policy c).1
  { row with metadata := { row.metadata with creationTimestamp := some now } }

theorem bareRow_adopted (hc : Catalogued catalog ids c) (now : DateTime) :
    AdoptedRow catalog c.snapshotId (bareRow policy now c) where
  source := rfl
  pin := hc.pinned
  bare _ := rfl
  status := by simp [bareRow, buildAdoptedSnapshot]

theorem RowsInv.create (h : RowsInv rfc policy catalog ids s arrived)
    (hnames : NamesDistinct policy ids) (hc : Catalogued catalog ids c) (now : DateTime)
    (hfree : ∀ b ∈ s.children, b.metadata.nameAny ≠ adoptedCrName policy.name c.snapshotId) :
    ∃ arrived', arrived ⊆ arrived' ∧ RowsInv rfc policy catalog ids
      { s with children := s.children ++ [bareRow policy now c] } arrived' := by
  refine h.grow ?_ ?_ (fun b hb _ => List.mem_append_left _ hb) h.once fun id hid => .inl hid
  · rw [List.map_append, List.nodup_append]
    refine ⟨h.distinct, List.nodup_singleton _, ?_⟩
    rintro name hname _ hlast rfl
    obtain ⟨b, hb, rfl⟩ := List.mem_map.mp hname
    exact hfree b hb (List.mem_singleton.mp hlast)
  · intro b hb id hid hname
    rcases List.mem_append.mp hb with hb | hb
    · exact h.rows b hb id hid hname
    · obtain rfl := List.mem_singleton.mp hb
      rw [hnames id hid c.snapshotId hc.known hname.symm]
      exact bareRow_adopted hc now

/-- What one adoption, however far it gets, does to the rest. -/
structure Adopts (policy : AdoptionPolicy) (s t : AdoptionState) (c : AdoptionCandidate) : Prop where
  children : ∀ b ∈ t.children, b ∈ s.children ∨
    b.metadata.nameAny = adoptedCrName policy.name c.snapshotId
  discovered : t.discovered.Sublist s.discovered
  adopted : t.adopted = s.adopted ∨ t.adopted = s.adopted ++ [c.snapshotId]

theorem patchStatus_adopts (status : SnapshotStatus) :
    Adopts policy s (s.patchStatus (adoptedCrName policy.name c.snapshotId) c.snapshotId status)
      c where
  children b' hb' := by
    obtain ⟨b, hb, rfl⟩ := List.mem_map.mp hb'
    split
    case isTrue hn => exact .inr hn
    case isFalse => exact .inl hb
  discovered := .refl _
  adopted := .inr rfl

variable (h : RowsInv rfc policy catalog ids s arrived)
  (hnames : NamesDistinct policy ids) (hc : Catalogued catalog ids c) (hne : c.snapshotId ≠ "")
  (hfresh : c.snapshotId ∉ s.adopted)
  (hview : policy.retention.isSome → (adoptedView rfc policy catalog c.snapshotId).isSome)
  (hbare : ∀ b ∈ s.children, b.metadata.nameAny = adoptedCrName policy.name c.snapshotId →
    b.status = none)

include h hnames hc hne hfresh hview hbare

theorem RowsInv.patch
    (hrow : ∃ b ∈ s.children, b.metadata.nameAny = adoptedCrName policy.name c.snapshotId) :
    ∃ arrived', arrived ⊆ arrived' ∧ RowsInv rfc policy catalog ids
      (s.patchStatus (adoptedCrName policy.name c.snapshotId) c.snapshotId
        (buildAdoptedSnapshot policy c).2) arrived' := by
  have hpatched : ∀ b ∈ s.children, b.metadata.nameAny = adoptedCrName policy.name c.snapshotId →
      AdoptedRow catalog c.snapshotId (patchAdoptedStatus (buildAdoptedSnapshot policy c).2 b) := by
    intro b hb hname
    have hb' := h.rows b hb _ hc.known hname
    refine ⟨hb'.source, hb'.pin, fun hnone => by simp [patchAdoptedStatus] at hnone, ?_⟩
    intro status hstatus
    cases hstatus
    exact ⟨rfl, rfl, hc.timing⟩
  refine h.grow ?_ ?_ ?_ ?_ ?_
  · have hsame : ((s.patchStatus (adoptedCrName policy.name c.snapshotId) c.snapshotId
        (buildAdoptedSnapshot policy c).2).children.map fun b => b.metadata.nameAny) =
        s.children.map fun b => b.metadata.nameAny := by
      rw [AdoptionState.patchStatus, List.map_map]
      refine List.map_congr_left fun b _ => ?_
      simp only [Function.comp_apply]
      split <;> rfl
    rw [hsame]
    exact h.distinct
  · intro b' hb' id hid hname
    obtain ⟨b, hb, rfl⟩ := List.mem_map.mp hb'
    split at hname
    case isTrue hn =>
      rw [if_pos hn]
      obtain rfl := hnames id hid c.snapshotId hc.known (hname.symm.trans hn)
      exact hpatched b hb hn
    case isFalse hn =>
      rw [if_neg hn]
      exact h.rows b hb id hid hname
  · intro b hb hstatus
    refine List.mem_map.mpr ⟨b, hb, if_neg fun hn => ?_⟩
    simp [hbare b hb hn] at hstatus
  · exact List.nodup_append.mpr ⟨h.once, List.nodup_singleton _,
      fun id hid _ hlast heq => hfresh (List.mem_singleton.mp hlast ▸ heq ▸ hid)⟩
  · intro id hid
    rcases List.mem_append.mp hid with hid | hid
    · exact .inl hid
    · obtain rfl := List.mem_singleton.mp hid
      obtain ⟨b, hb, hn⟩ := hrow
      have hlive := (h.rows b hb _ hc.known hn).bare (hbare b hb hn)
      refine .inr ⟨hc.known, hne, ⟨_, List.mem_map.mpr ⟨b, hb, if_pos hn⟩, hn, rfl, hlive⟩, hview⟩

theorem ensureAdopted_spec
    (hrow : ∃ b ∈ s.children, b.metadata.nameAny = adoptedCrName policy.name c.snapshotId)
    (cut : AdoptCut) :
    (∃ arrived', arrived ⊆ arrived' ∧
      RowsInv rfc policy catalog ids (ensureAdopted policy cut s c) arrived') ∧
    Adopts policy s (ensureAdopted policy cut s c) c := by
  have hadopts : Adopts policy s (s.patchStatus (adoptedCrName policy.name c.snapshotId)
      c.snapshotId (buildAdoptedSnapshot policy c).2) c := patchStatus_adopts _
  obtain ⟨arrived', hsub, hinv⟩ := h.patch hnames hc hne hfresh hview hbare hrow
  cases cut with
  | created => exact ⟨⟨arrived, Finset.Subset.refl _, h⟩, fun b hb => .inl hb, .refl _, .inl rfl⟩
  | patched => exact ⟨⟨arrived', hsub, hinv⟩, hadopts⟩
  | complete =>
    refine ⟨⟨arrived', hsub, ⟨hinv.distinct, hinv.rows, hinv.faithful, hinv.once, hinv.known,
      hinv.viewed⟩⟩, hadopts.children, ?_, hadopts.adopted⟩
    exact List.filter_sublist.trans hadopts.discovered

theorem adoptOne_spec (now : DateTime) (cut : AdoptCut) :
    (∃ arrived', arrived ⊆ arrived' ∧
      RowsInv rfc policy catalog ids (adoptOne policy now cut s c) arrived') ∧
    Adopts policy s (adoptOne policy now cut s c) c := by
  unfold adoptOne
  simp only
  split
  case h_1 hnone =>
    have hfree : ∀ b ∈ s.children,
        b.metadata.nameAny ≠ adoptedCrName policy.name c.snapshotId := by
      intro b hb hname
      exact List.find?_eq_none.mp hnone b hb (decide_eq_true hname)
    obtain ⟨arrived', hsub, hinv⟩ := h.create hnames hc now hfree
    have hlast : bareRow policy now c ∈ s.children ++ [bareRow policy now c] := by simp
    obtain ⟨⟨arrived'', hsub', hinv'⟩, hadopts⟩ :=
      ensureAdopted_spec hinv hnames hc hne hfresh hview (fun b hb hname => by
        rcases List.mem_append.mp hb with hb | hb
        · exact absurd hname (hfree b hb)
        · rw [List.mem_singleton.mp hb]
          rfl) ⟨_, hlast, rfl⟩ cut
    refine ⟨⟨arrived'', hsub.trans hsub', hinv'⟩, ?_, hadopts.discovered, hadopts.adopted⟩
    intro b hb
    rcases hadopts.children b hb with hb | hname
    · rcases List.mem_append.mp hb with hb | hb
      · exact .inl hb
      · rw [List.mem_singleton.mp hb]
        exact .inr rfl
    · exact .inr hname
  case h_2 existing hsome =>
    split
    case isTrue =>
      have hname := List.find?_some hsome
      exact ensureAdopted_spec h hnames hc hne hfresh hview hbare
        ⟨existing, List.mem_of_find?_eq_some hsome, of_decide_eq_true hname⟩ cut
    case isFalse => exact ⟨⟨arrived, Finset.Subset.refl _, h⟩, fun b hb => .inl hb, .refl _, .inl rfl⟩

end AdoptOne

/-- The adoptions of a pass: candidates with distinct ids, none adopted before,
each with at most a bare row so far. -/
structure Adoptable (rfc : Rfc3339) (policy : AdoptionPolicy) (catalog : String → CatalogData)
    (ids : List String) (s : AdoptionState) (cs : List AdoptionCandidate) : Prop where
  catalogued : ∀ c ∈ cs, Catalogued catalog ids c ∧ c.snapshotId ≠ "" ∧
    (policy.retention.isSome → (adoptedView rfc policy catalog c.snapshotId).isSome)
  distinct : (cs.map AdoptionCandidate.snapshotId).Nodup
  fresh : ∀ c ∈ cs, c.snapshotId ∉ s.adopted
  bare : ∀ c ∈ cs, ∀ b ∈ s.children,
    b.metadata.nameAny = adoptedCrName policy.name c.snapshotId → b.status = none

theorem Adoptable.rest {c : AdoptionCandidate} {cs : List AdoptionCandidate}
    (h : Adoptable rfc policy catalog ids s (c :: cs)) (hnames : NamesDistinct policy ids)
    (hadopts : Adopts policy s t c) : Adoptable rfc policy catalog ids t cs := by
  have hne : ∀ c' ∈ cs, c.snapshotId ≠ c'.snapshotId := fun c' hc' heq =>
    (List.nodup_cons.mp h.distinct).1 (List.mem_map.mpr ⟨c', hc', heq.symm⟩)
  refine ⟨fun c' hc' => h.catalogued c' (List.mem_cons_of_mem _ hc'),
    (List.nodup_cons.mp h.distinct).2, fun c' hc' hmem => ?_, fun c' hc' b hb hname => ?_⟩
  · have hfresh := h.fresh c' (List.mem_cons_of_mem _ hc')
    rcases hadopts.adopted with heq | heq
    · exact hfresh (heq ▸ hmem)
    · rw [heq] at hmem
      rcases List.mem_append.mp hmem with hmem | hmem
      · exact hfresh hmem
      · exact hne c' hc' (List.mem_singleton.mp hmem).symm
  · rcases hadopts.children b hb with hb | hn
    · exact h.bare c' (List.mem_cons_of_mem _ hc') b hb hname
    · refine absurd (hnames _ (h.catalogued c List.mem_cons_self).1.known _
        (h.catalogued c' (List.mem_cons_of_mem _ hc')).1.known (hn.symm.trans hname)) (hne c' hc')

theorem executeAdoptions_spec {p : Progress} {cs : List AdoptionCandidate}
    (hnames : NamesDistinct policy ids) (h : RowsInv rfc policy catalog ids s arrived)
    (hcs : Adoptable rfc policy catalog ids s cs) :
    (∃ arrived', arrived ⊆ arrived' ∧
      RowsInv rfc policy catalog ids (executeAdoptions policy p s cs) arrived') ∧
    (∀ b ∈ (executeAdoptions policy p s cs).children, b ∈ s.children ∨
      ∃ c ∈ cs, b.metadata.nameAny = adoptedCrName policy.name c.snapshotId) ∧
    (executeAdoptions policy p s cs).discovered.Sublist s.discovered ∧
    ∀ id ∈ (executeAdoptions policy p s cs).adopted, id ∈ s.adopted ∨
      ∃ c ∈ cs, id = c.snapshotId := by
  induction cs generalizing s arrived with
  | nil => exact ⟨⟨arrived, Finset.Subset.refl _, h⟩, fun b hb => .inl hb, .refl _, fun id hid => .inl hid⟩
  | cons c cs ih =>
    have hone : ∃ t, executeAdoptions policy p s (c :: cs) = executeAdoptions policy p t cs ∧
        (∃ arrived', arrived ⊆ arrived' ∧ RowsInv rfc policy catalog ids t arrived') ∧
        Adopts policy s t c := by
      obtain ⟨hcat, hne, hview⟩ := hcs.catalogued c List.mem_cons_self
      cases hcut : p.adoptions.lookup c.snapshotId with
      | none =>
        exact ⟨s, by simp [executeAdoptions, hcut], ⟨arrived, Finset.Subset.refl _, h⟩,
          fun b hb => .inl hb, .refl _, .inl rfl⟩
      | some cut =>
        exact ⟨adoptOne policy p.now cut s c, by simp [executeAdoptions, hcut],
          adoptOne_spec h hnames hcat hne (hcs.fresh c List.mem_cons_self) hview
            (hcs.bare c List.mem_cons_self) p.now cut⟩
    obtain ⟨t, heq, ⟨arrived', hsub, hinv⟩, hadopts⟩ := hone
    obtain ⟨⟨arrived'', hsub', hinv'⟩, hchildren, hdiscovered, hids⟩ :=
      ih hinv (hcs.rest hnames hadopts)
    rw [heq]
    refine ⟨⟨arrived'', hsub.trans hsub', hinv'⟩, fun b hb => ?_,
      hdiscovered.trans hadopts.discovered, fun id hid => ?_⟩
    · rcases hchildren b hb with hb | ⟨c', hc', hname⟩
      · exact (hadopts.children b hb).imp_right fun hname => ⟨c, List.mem_cons_self, hname⟩
      · exact .inr ⟨c', List.mem_cons_of_mem _ hc', hname⟩
    · rcases hids id hid with hid | ⟨c', hc', hid⟩
      · rcases hadopts.adopted with heq | heq
        · exact .inl (heq ▸ hid)
        · rw [heq] at hid
          rcases List.mem_append.mp hid with hid | hid
          · exact .inl hid
          · exact .inr ⟨c, List.mem_cons_self, List.mem_singleton.mp hid⟩
      · exact .inr ⟨c', List.mem_cons_of_mem _ hc', hid⟩

theorem CatalogInv.of_sublist (h : CatalogInv policy catalog ids s)
    (hsub : t.discovered.Sublist s.discovered) :
    CatalogInv policy catalog ids t := by
  have hcands := hsub.filterMap (adoptionCandidate policy.repositoryUid)
  exact ⟨fun c hc => h.catalogued c (hcands.subset hc), h.distinct.sublist (hcands.map _)⟩

section Reconcile

variable {s : AdoptionState} {arrived : Finset SnapshotRetentionView}

theorem adopt_adoptable (hnames : NamesDistinct policy ids)
    (hrows : RowsInv rfc policy catalog ids s arrived) (hcat : CatalogInv policy catalog ids s)
    (hpolicy : policy.effectiveDeletionPolicy ≠ .delete) (batch : Nat) (now : DateTime)
    (names : List String) :
    Adoptable rfc policy catalog ids { s with children := pruneRows now names s.children }
      (adoptionPlan rfc policy batch s.children s.discovered).adopt := by
  obtain ⟨passing, hsub, hpass, hids, -⟩ :=
    adoptionPlan_adopt rfc policy batch s.children s.discovered
  have hcands := hsub.trans (gateCandidates_sublist rfc policy s.children s.discovered)
  refine ⟨fun c hc => ?_, ?_, fun c hc => adopt_fresh hnames hrows hcat hpolicy hc, ?_⟩
  · have hmem := hcands.subset (hpass c hc)
    refine ⟨hcat.catalogued c hmem, snapshotId_ne_empty hmem, fun hretention => ?_⟩
    obtain ⟨v, hv, -⟩ := adopt_kept hnames hrows hcat hpolicy hretention hc
    exact Option.isSome_iff_exists.mpr ⟨v, hv⟩
  · have hperm := (List.perm_insertionSort (fun a b : AdoptionCandidate =>
      a.snapshotId ≤ b.snapshotId) passing).map AdoptionCandidate.snapshotId
    exact (hperm.nodup_iff.mpr (hcat.distinct.sublist (hcands.map _))).sublist hids
  · intro c hc b' hb' hname
    obtain ⟨b, hb, hsame, -, hstatus, -⟩ := mem_pruneRows hb'
    have hgate := hsub.subset (hpass c hc)
    have hmem := hcands.subset (hpass c hc)
    rw [hstatus]
    cases hb'' : b.status with
    | none => rfl
    | some status =>
      -- With its status the row would make the id the policy's own.
      have hrow := hrows.rows b hb _ (hcat.catalogued c hmem).known (hsame ▸ hname)
      have hnot := of_decide_eq_true (List.mem_filter.mp hgate).2
      exact absurd (hrow.own (snapshotId_ne_empty hmem) hb (by simp [hb''])) hnot

/-- A reconcile keeps the invariant, and the views it leaves all took part in
the gate. -/
theorem reconcile_spec (hnames : NamesDistinct policy ids)
    (hrows : RowsInv rfc policy catalog ids s arrived) (hcat : CatalogInv policy catalog ids s)
    (hpolicy : policy.effectiveDeletionPolicy ≠ .delete) (p : Progress) :
    (∃ arrived', RowsInv rfc policy catalog ids (reconcilePolicy rfc policy p s) arrived') ∧
    CatalogInv policy catalog ids (reconcilePolicy rfc policy p s) ∧
    (∀ id ∈ (reconcilePolicy rfc policy p s).adopted, id ∈ s.adopted ∨
      ∃ c ∈ (adoptionPlan rfc policy p.batch s.children s.discovered).adopt, id = c.snapshotId) ∧
    (policy.retention.isSome → liveViews rfc (reconcilePolicy rfc policy p s).children ⊆
      (gatePopulation hnames hrows hcat).set) := by
  have hsel : ∀ n ∈ (retentionPrunes rfc policy s.children).filter (· ∈ p.prunes),
      n ∈ retentionPrunes rfc policy s.children := fun n hn => (List.mem_filter.mp hn).1
  obtain ⟨hpruned, hshrinks⟩ := hrows.prune p.now hsel
  have hadoptable := adopt_adoptable hnames hrows hcat hpolicy p.batch p.now
    ((retentionPrunes rfc policy s.children).filter (· ∈ p.prunes))
  obtain ⟨⟨arrived', -, hinv⟩, hchildren, hdiscovered, hids⟩ :=
    executeAdoptions_spec (p := p) hnames hpruned hadoptable
  refine ⟨⟨arrived', hinv⟩, hcat.of_sublist hdiscovered, hids, fun hretention v hv => ?_⟩
  obtain ⟨b, hb, hkey, hrow⟩ := mem_liveViews.mp hv
  rcases hchildren b hb with hold | ⟨c, hc, hname⟩
  · exact liveViews_subset_gate hnames hrows hcat
      (hshrinks (mem_liveViews.mpr ⟨b, hold, hkey, hrow⟩))
  · obtain ⟨v', hview, hkept⟩ := adopt_kept hnames hrows hcat hpolicy hretention hc
    have hknown := (hadoptable.catalogued c hc).1.known
    have hadopted := hinv.rows b hb _ hknown hname
    rw [hadopted.retentionView_eq hname hview (retentionRow_spec hrow).2]
    exact (keeping policy).subset _ hkept

end Reconcile

/-- Two rows retention does not tell apart. -/
structure SameRow (b b' : Snapshot) : Prop where
  name : b'.metadata.nameAny = b.metadata.nameAny
  spec : b'.spec = b.spec
  status : b'.status = b.status
  deletion : b'.metadata.deletionTimestamp = b.metadata.deletionTimestamp
  creation : b'.metadata.creationTimestamp = b.metadata.creationTimestamp

theorem SameRow.refl (b : Snapshot) : SameRow b b := ⟨rfl, rfl, rfl, rfl, rfl⟩

theorem SameRow.retentionRow_eq {b b' : Snapshot} (h : SameRow b b') :
    retentionRow rfc b' = retentionRow rfc b := by
  simp only [retentionRow, retentionView, h.deletion, h.status, h.creation, h.name, h.spec]

/-- Terminating rows may go; the others stay as retention sees them. -/
structure Settles (s t : AdoptionState) : Prop where
  names : (t.children.map fun b => b.metadata.nameAny).Sublist
    (s.children.map fun b => b.metadata.nameAny)
  from_ : ∀ b' ∈ t.children, ∃ b ∈ s.children, SameRow b b'
  live : ∀ b ∈ s.children, b.metadata.deletionTimestamp = none → ∃ b' ∈ t.children, SameRow b b'
  adopted : t.adopted = s.adopted

theorem Settles.of_children (hchildren : t.children = s.children)
    (hadopted : t.adopted = s.adopted) : Settles s t where
  names := hchildren ▸ .refl _
  from_ b' hb' := ⟨b', hchildren ▸ hb', .refl b'⟩
  live b hb _ := ⟨b, hchildren ▸ hb, .refl b⟩
  adopted := hadopted

theorem Settles.liveViews_eq (h : Settles s t) :
    liveViews rfc t.children = liveViews rfc s.children := by
  have hkey : ∀ {b b' : Snapshot}, SameRow b b' →
      retentionGroupKey b' false = retentionGroupKey b false := fun hsame => by
    simp [retentionGroupKey, hsame.spec]
  ext v
  simp only [mem_liveViews]
  constructor
  · rintro ⟨b', hb', hk, hrow⟩
    obtain ⟨b, hb, hsame⟩ := h.from_ b' hb'
    exact ⟨b, hb, hkey hsame ▸ hk, hsame.retentionRow_eq ▸ hrow⟩
  · rintro ⟨b, hb, hk, hrow⟩
    obtain ⟨b', hb', hsame⟩ := h.live b hb (retentionRow_spec hrow).1
    exact ⟨b', hb', (hkey hsame).trans hk, hsame.retentionRow_eq.trans hrow⟩

theorem RowsInv.settles (h : RowsInv rfc policy catalog ids s arrived) (hsettles : Settles s t) :
    RowsInv rfc policy catalog ids t arrived where
  distinct := hsettles.names.nodup h.distinct
  rows b' hb' id hid hname := by
    obtain ⟨b, hb, hsame⟩ := hsettles.from_ b' hb'
    have hrow := h.rows b hb id hid (hsame.name ▸ hname)
    exact hrow.of_same hsame.spec hsame.status fun hnone => hsame.deletion.trans (hrow.bare hnone)
  faithful := hsettles.liveViews_eq ▸ h.faithful
  once := hsettles.adopted ▸ h.once
  known id hid := by
    obtain ⟨hknown, hne, haccounted⟩ := h.known id (hsettles.adopted ▸ hid)
    refine ⟨hknown, hne, haccounted.imp_left ?_⟩
    rintro ⟨b, hb, hname, hstatus, hlive⟩
    obtain ⟨b', hb', hsame⟩ := hsettles.live b hb hlive
    exact ⟨b', hb', hsame.name.trans hname, hsame.status ▸ hstatus, hsame.deletion.trans hlive⟩
  viewed hretention id hid := h.viewed hretention id (hsettles.adopted ▸ hid)

def AdoptionAction.Quiet : AdoptionAction → Prop
  | .guard _ _ | .settle _ | .discover _ | .expire _ _ => True
  | .reconcile _ | .arrive _ => False

theorem quiet_settles {a : AdoptionAction} (hquiet : a.Quiet)
    (hstep : s.step rfc policy a = some t) : Settles s t := by
  cases a with
  | reconcile => exact hquiet.elim
  | arrive => exact hquiet.elim
  | discover row =>
    cases hstep
    exact .of_children rfl rfl
  | expire ns name =>
    cases hstep
    exact .of_children rfl rfl
  | settle name =>
    cases hstep
    refine ⟨List.filter_sublist.map _, fun b' hb' => ⟨b', List.mem_of_mem_filter hb', .refl b'⟩,
      fun b hb hlive => ⟨b, List.mem_filter.mpr ⟨hb, by simp [hlive]⟩, .refl b⟩, rfl⟩
  | guard name finalizer =>
    cases hstep
    have hsame : ∀ b : Snapshot, SameRow b (if b.metadata.nameAny = name then
        { b with metadata := { b.metadata with finalizers := finalizer :: b.metadata.finalizers } }
        else b) := by
      intro b
      split
      case isTrue => exact ⟨rfl, rfl, rfl, rfl, rfl⟩
      case isFalse => exact .refl b
    refine ⟨?_, fun b' hb' => ?_, fun b hb _ => ⟨_, List.mem_map.mpr ⟨b, hb, rfl⟩, hsame b⟩, rfl⟩
    · rw [List.map_map]
      exact (List.map_congr_left fun b _ => (hsame b).name) ▸ .refl _
    · obtain ⟨b, hb, rfl⟩ := List.mem_map.mp hb'
      exact ⟨b, hb, hsame b⟩

-- Runs

def AdoptionInv (rfc : Rfc3339) (policy : AdoptionPolicy) (catalog : String → CatalogData)
    (ids : List String) (s : AdoptionState) : Prop :=
  (∃ arrived, RowsInv rfc policy catalog ids s arrived) ∧ CatalogInv policy catalog ids s

theorem AdoptionInv.init : AdoptionInv rfc policy catalog ids {} := by
  refine ⟨⟨liveViews rfc [], ?_⟩, ⟨by simp [adoptionCandidates], by simp [adoptionCandidates]⟩⟩
  refine ⟨by simp, by simp, ⟨Finset.Subset.refl _, rfl⟩, by simp, by simp, by simp⟩

theorem CatalogInv.discover (h : CatalogInv policy catalog ids s) {row : Snapshot}
    (hmeets : AdoptionAction.Meets policy catalog ids s (.discover row)) :
    CatalogInv policy catalog ids { s with discovered := s.discovered ++ [row] } := by
  cases hc : adoptionCandidate policy.repositoryUid row with
  | none =>
    have hsame : adoptionCandidates policy.repositoryUid (s.discovered ++ [row]) =
        adoptionCandidates policy.repositoryUid s.discovered := by
      simp [adoptionCandidates, List.filterMap_append, hc]
    exact ⟨hsame ▸ h.catalogued, hsame ▸ h.distinct⟩
  | some c =>
    obtain ⟨hcatalogued, hnew⟩ := hmeets c hc
    have hsame : adoptionCandidates policy.repositoryUid (s.discovered ++ [row]) =
        adoptionCandidates policy.repositoryUid s.discovered ++ [c] := by
      simp [adoptionCandidates, List.filterMap_append, hc]
    constructor
    · intro c' hc'
      rw [hsame] at hc'
      rcases List.mem_append.mp hc' with hc' | hc'
      · exact h.catalogued c' hc'
      · exact List.mem_singleton.mp hc' ▸ hcatalogued
    · rw [hsame, List.map_append, List.nodup_append]
      exact ⟨h.distinct, List.nodup_singleton _,
        fun id hid _ hlast heq => hnew (List.mem_singleton.mp hlast ▸ heq ▸ hid)⟩

theorem RowsInv.arrive (h : RowsInv rfc policy catalog ids s arrived) {row : Snapshot}
    (hmeets : AdoptionAction.Meets policy catalog ids s (.arrive row)) :
    ∃ arrived', arrived ⊆ arrived' ∧
      RowsInv rfc policy catalog ids { s with children := s.children ++ [row] } arrived' := by
  refine h.grow ?_ ?_ (fun b hb _ => List.mem_append_left _ hb) h.once fun id hid => .inl hid
  · rw [List.map_append, List.nodup_append]
    refine ⟨h.distinct, List.nodup_singleton _, ?_⟩
    rintro name hname _ hlast rfl
    obtain rfl := List.mem_singleton.mp hlast
    exact hmeets.1 hname
  · intro b hb id hid hname
    rcases List.mem_append.mp hb with hb | hb
    · exact h.rows b hb id hid hname
    · exact absurd (List.mem_singleton.mp hb ▸ hname) (hmeets.2 id hid)

theorem AdoptionInv.step (hnames : NamesDistinct policy ids)
    (hpolicy : policy.effectiveDeletionPolicy ≠ .delete) {a : AdoptionAction}
    (h : AdoptionInv rfc policy catalog ids s) (hmeets : a.Meets policy catalog ids s)
    (hstep : s.step rfc policy a = some t) :
    AdoptionInv rfc policy catalog ids t := by
  obtain ⟨⟨arrived, hrows⟩, hcat⟩ := h
  cases a with
  | reconcile p =>
    cases hstep
    obtain ⟨hrows', hcat', -, -⟩ := reconcile_spec hnames hrows hcat hpolicy p
    exact ⟨hrows', hcat'⟩
  | guard name finalizer =>
    have hsettles := quiet_settles (a := .guard name finalizer) trivial hstep
    cases hstep
    exact ⟨⟨arrived, hrows.settles hsettles⟩, hcat.of_sublist (.refl _)⟩
  | settle name =>
    have hsettles := quiet_settles (a := .settle name) trivial hstep
    cases hstep
    exact ⟨⟨arrived, hrows.settles hsettles⟩, hcat.of_sublist (.refl _)⟩
  | discover row =>
    have hsettles := quiet_settles (a := .discover row) trivial hstep
    cases hstep
    exact ⟨⟨arrived, hrows.settles hsettles⟩, hcat.discover hmeets⟩
  | expire ns name =>
    have hsettles := quiet_settles (a := .expire ns name) trivial hstep
    cases hstep
    exact ⟨⟨arrived, hrows.settles hsettles⟩, hcat.of_sublist List.filter_sublist⟩
  | arrive row =>
    cases hstep
    obtain ⟨arrived', -, hrows'⟩ := hrows.arrive hmeets
    exact ⟨⟨arrived', hrows'⟩, hcat.of_sublist (.refl _)⟩

/-- A kopia snapshot's live row, among views that all took part in a gate that
kept it. -/
structure KeptBy (rfc : Rfc3339) (policy : AdoptionPolicy) (catalog : String → CatalogData)
    (ids : List String) (gate : Finset SnapshotRetentionView) (id : String)
    (s : AdoptionState) : Prop where
  inv : ∃ arrived, RowsInv rfc policy catalog ids s arrived
  row : ∃ b ∈ s.children, b.metadata.nameAny = adoptedCrName policy.name id ∧
    AdoptedRow catalog id b ∧ b.metadata.deletionTimestamp = none
  view : policy.retention.isSome → liveViews rfc s.children ⊆ gate ∧
    ∃ v, adoptedView rfc policy catalog id = some v ∧ v ∈ (keeping policy).pick gate

theorem KeptBy.not_pruned {gate : Finset SnapshotRetentionView}
    (h : KeptBy rfc policy catalog ids gate id s) :
    adoptedCrName policy.name id ∉ retentionPrunes rfc policy s.children := by
  intro hdel
  obtain ⟨arrived, hrows⟩ := h.inv
  obtain ⟨b, hb, hname, hadopted, -⟩ := h.row
  obtain ⟨hsub, v, hview, hpick⟩ := h.view (retention_of_prune hdel)
  obtain ⟨v', hrow, hdrop⟩ := retentionPrunes_spec hrows.distinct hb (hname ▸ hdel)
  obtain rfl : v' = v := hadopted.retentionView_eq hname hview (retentionRow_spec hrow).2
  refine hdrop hadopted.key ((stable_keeping policy).heritage hsub ?_ hpick)
  exact mem_liveViews.mpr ⟨b, hb, hadopted.key, hrow⟩

theorem KeptBy.settles {gate : Finset SnapshotRetentionView}
    (h : KeptBy rfc policy catalog ids gate id s) (hsettles : Settles s t) :
    KeptBy rfc policy catalog ids gate id t := by
  obtain ⟨⟨arrived, hrows⟩, ⟨b, hb, hname, hadopted, hlive⟩, hview⟩ := h
  obtain ⟨b', hb', hsame⟩ := hsettles.live b hb hlive
  refine ⟨⟨arrived, hrows.settles hsettles⟩, ⟨b', hb', hsame.name.trans hname, ?_,
    hsame.deletion.trans hlive⟩, hsettles.liveViews_eq ▸ hview⟩
  exact hadopted.of_same hsame.spec hsame.status fun _ => hsame.deletion.trans hlive

/-- Adoption and retention do not go round: over every run whose snapshots are
adopted under names of their own, no kopia snapshot is adopted twice, and the
retention pass after an adoption keeps the adopted row unless a new row of the
policy came in between. -/
theorem adoption_never_loops (rfc : Rfc3339) (policy : AdoptionPolicy)
    (catalog : String → CatalogData) (ids : List String)
    (hpolicy : policy.effectiveDeletionPolicy = .retain ∨
      policy.effectiveDeletionPolicy = .orphan)
    (hnames : NamesDistinct policy ids) {s : AdoptionState}
    (run : Reaches (AdoptionState.step rfc policy) (AdoptionAction.Meets policy catalog ids) {} s) :
    s.adopted.Nodup ∧
    ∀ p : Progress, ∀ id ∈ (reconcilePolicy rfc policy p s).adopted, id ∉ s.adopted →
      ∀ t, Reaches (AdoptionState.step rfc policy)
        (fun u a => AdoptionAction.Meets policy catalog ids u a ∧ a.Quiet)
        (reconcilePolicy rfc policy p s) t →
        adoptedCrName policy.name id ∉ retentionPrunes rfc policy t.children := by
  have hdelete : policy.effectiveDeletionPolicy ≠ .delete := by
    rcases hpolicy with h | h <;> simp [h]
  have hinv : AdoptionInv rfc policy catalog ids s := run.invariant _ .init
    fun u a u' hu hmeets hstep => hu.step hnames hdelete hmeets hstep
  obtain ⟨⟨arrived, hrows⟩, hcat⟩ := hinv
  refine ⟨hrows.once, fun p id hid hnew t quiet => ?_⟩
  obtain ⟨⟨arrived', hrows'⟩, -, hids, hgate⟩ := reconcile_spec hnames hrows hcat hdelete p
  obtain ⟨c, hc, rfl⟩ : ∃ c ∈ (adoptionPlan rfc policy p.batch s.children s.discovered).adopt,
      id = c.snapshotId := (hids id hid).resolve_left hnew
  have hstart : KeptBy rfc policy catalog ids (gatePopulation hnames hrows hcat).set c.snapshotId
      (reconcilePolicy rfc policy p s) := by
    refine ⟨⟨arrived', hrows'⟩, ?_, fun hretention =>
      ⟨hgate hretention, adopt_kept hnames hrows hcat hdelete hretention hc⟩⟩
    obtain ⟨hknown, -, ⟨b, hb, hname, -, hlive⟩ | hdropped⟩ := hrows'.known _ hid
    · exact ⟨b, hb, hname, hrows'.rows b hb _ hknown hname, hlive⟩
    · obtain ⟨v, hview, hkept⟩ := adopt_kept hnames hrows hcat hdelete hdropped.retention hc
      exact absurd hkept
        (hdropped.not_kept hrows'.faithful (hgate hdropped.retention) hview)
  refine (quiet.invariant (KeptBy rfc policy catalog ids _ c.snapshotId) hstart ?_).not_pruned
  rintro u a u' hu ⟨-, hquiet⟩ hstep
  exact hu.settles (quiet_settles hquiet hstep)

end Runs

/-- A policy that keeps the latest snapshot only. -/
def latestOnly : AdoptionPolicy where
  name := "app"
  ns := "apps"
  identity := { username := "u", hostname := "apps", sourcePath := some "/data" }
  retention := some ⟨some 1, none, none, none, none, none⟩
  defaultDeletionPolicy := some .retain
  repository := { kind := .clusterRepository, name := "store" }
  repositoryUid := "repo-1"

def letterTimes : Rfc3339 where
  parse text := text.toList.head?.map fun c => DateTime.fromTimestamp c.toNat
  render _ := ""

/-- The catalog's row of a kopia snapshot. -/
def discoveredRow (ns id endTime : String) : Snapshot where
  metadata :=
    { name := some ("store-disc-" ++ String.ofList (id.toList.take 16))
      ns := some ns
      labels := [(originLabel, "discovered"), (repositoryUidLabel, "repo-1"), (snapshotIdLabel, id)] }
  status := some
    { phase := some .discovered
      origin := some .discovered
      snapshot := some { kopiaSnapshotId := id, identity := latestOnly.identity }
      timing := some { endTime := some endTime } }

/-- A snapshot the policy made itself. -/
def ownRow (name id endTime : String) : Snapshot where
  metadata := { name := some name, ns := some "apps" }
  status := some
    { phase := some .succeeded
      snapshot := some { kopiaSnapshotId := id, identity := latestOnly.identity }
      timing := some { endTime := some endTime } }

def adoptAll (ids : List String) : Progress where
  batch := policyAdoptionBatch
  now := 0
  prunes := []
  adoptions := ids.map fun id => (id, .complete)

def newer : String := "4f1c9a7be2d05836aeef7c52d162ade7"

def older : String := "4f1c9a7be2d058363838ff7409104f83"

def pairCatalog (id : String) : CatalogData where
  timing := some { endTime := some (if id = newer then "t" else "b") }
  pinned := false

def adoptionStart : List AdoptionAction :=
  [.arrive (ownRow "app-1" "0a" "m"), .discover (discoveredRow "apps" newer "t")]

theorem adoption_never_loops_newer :
    adoptedCrName "app" newer ∉ retentionPrunes letterTimes latestOnly
      (reconcilePolicy letterTimes latestOnly (adoptAll [newer])
        { children := [ownRow "app-1" "0a" "m"]
          discovered := [discoveredRow "apps" newer "t"] }).children := by
  have hrun : runSteps (AdoptionState.step letterTimes latestOnly)
      (AdoptionAction.Meets latestOnly pairCatalog [newer]) {} adoptionStart =
      some { children := [ownRow "app-1" "0a" "m"]
             discovered := [discoveredRow "apps" newer "t"] } := by decide +kernel
  exact (adoption_never_loops letterTimes latestOnly pairCatalog [newer] (.inl rfl)
    (by simp [NamesDistinct]) (reaches_of_runSteps hrun)).2 (adoptAll [newer]) newer
    (by decide +kernel) (by decide) _ .refl

def collision : List AdoptionAction :=
  adoptionStart ++ [.discover (discoveredRow "spare" older "b")]

def collisionRound : List AdoptionAction :=
  [.reconcile (adoptAll [older]),
    .reconcile { adoptAll [] with prunes := [adoptedCrName "app" older] },
    .discover (discoveredRow "spare" older "b"), .reconcile (adoptAll [older])]

/-- The older snapshot passes the gate under the newer one's name, is pruned at
once, discovered again and adopted again. -/
theorem adoption_loops_when_names_collide :
    (∃ s, Reaches (AdoptionState.step letterTimes latestOnly)
        (AdoptionAction.Meets latestOnly pairCatalog [newer, older]) {} s ∧
      older ∉ s.adopted ∧
      older ∈ (reconcilePolicy letterTimes latestOnly (adoptAll [older]) s).adopted ∧
      adoptedCrName "app" older ∈ retentionPrunes letterTimes latestOnly
        (reconcilePolicy letterTimes latestOnly (adoptAll [older]) s).children) ∧
    ∃ s, Reaches (AdoptionState.step letterTimes latestOnly)
        (AdoptionAction.Meets latestOnly pairCatalog [newer, older]) {} s ∧
      s.adopted = [older, older] := by
  exact ⟨exists_reaches collision (by decide +kernel),
    exists_reaches (collision ++ collisionRound) (by decide +kernel)⟩

end Kopiur
