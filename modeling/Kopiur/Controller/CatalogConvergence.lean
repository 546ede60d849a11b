import Kopiur.Controller.DiscoveredRows

/-!
# A scan settles

Once a plan is carried out, the next plan over the same listing has nothing to
create and nothing to expire: the window does not depend on the rows, and the
rows outside it that stay are those that took a slot, which they take again.
What is left is within the bound of every identity, as long as the rows record
the identity their snapshot has.
-/

namespace Kopiur

open Lib

attribute [local instance] timePreorder

def CatalogRow.key (r : CatalogRow) : String × String := (r.namespace_, r.name)

-- Planning again

section Planning

variable {s : ScanInputs} {rows rows' : List CatalogRow} {listing : List SnapshotListEntry}
variable {coverage : ListingCoverage}

def windowIds (s : ScanInputs) (listing : List SnapshotListEntry) : List String :=
  ((s.window listing).flatMap Prod.snd).map SnapshotListEntry.id

def keptIds (s : ScanInputs) (rows : List CatalogRow) (listing : List SnapshotListEntry)
    (coverage : ListingCoverage) : List String :=
  windowIds s listing ++ keptRows s rows listing coverage

theorem eligible_of_window {e : SnapshotListEntry} (he : e ∈ (s.window listing).flatMap Prod.snd) :
    e ∈ listing ∧ s.eligible e = true := by
  have hslot := (List.mem_insertionSort _).mp (List.mem_of_mem_take (mem_window_entries.mp he))
  exact List.mem_filter.mp (List.mem_filter.mp hslot).1

theorem listed_of_windowIds {id : String} (hid : id ∈ windowIds s listing) :
    id ∈ listing.map SnapshotListEntry.id := by
  obtain ⟨e, he, rfl⟩ := List.mem_map.mp hid
  exact List.mem_map_of_mem (eligible_of_window he).1

theorem mem_keptRows {id : String} :
    id ∈ keptRows s rows listing coverage ↔
      ∃ c, c.snapshotId = id ∧ c ∈ (rankedRows (outOfWindowCandidates rows
          (listing.map SnapshotListEntry.id) (s.rowFilter coverage)) c.identity).take
        ((freeSlots (s.window listing) (rowRankCap coverage s.bounds) c.identity).getD
          (rankedRows (outOfWindowCandidates rows (listing.map SnapshotListEntry.id)
            (s.rowFilter coverage)) c.identity).length) :=
  mem_fillRowSlots

theorem mem_rankedRows {candidates : List CatalogRow} {identity : Option String} {c : CatalogRow} :
    c ∈ rankedRows candidates identity ↔ c ∈ candidates ∧ c.identity = identity := by
  rw [rankedRows, List.mem_insertionSort, List.mem_filter, decide_eq_true_eq]

theorem unlisted_of_keptRows {id : String} (hid : id ∈ keptRows s rows listing coverage) :
    id ∉ listing.map SnapshotListEntry.id := by
  obtain ⟨c, rfl, hc⟩ := mem_keptRows.mp hid
  exact (candidate_sound (mem_rankedRows.mp (List.mem_of_mem_take hc)).1).2.1

theorem mem_create (hids : (listing.map SnapshotListEntry.id).Nodup) {e : SnapshotListEntry} :
    e ∈ (planCatalog s rows listing coverage).create ↔
      e ∈ (s.window listing).flatMap Prod.snd ∧ e.id ∉ rows.map CatalogRow.snapshotId := by
  rw [planCatalog, List.mem_insertionSort, List.mem_filter, List.mem_filterMap]
  simp only [Prod.exists, mem_groups_map, Bool.and_eq_true, decide_eq_true_eq]
  constructor
  · rintro ⟨⟨id, group, ⟨rfl, -⟩, hlast⟩, -, hrow⟩
    exact ⟨(List.mem_filter.mp (List.mem_of_getLast? hlast)).1, hrow⟩
  · rintro ⟨he, hrow⟩
    have hmem : e ∈ ((s.window listing).flatMap Prod.snd).filter fun e' => decide (e'.id = e.id) :=
      List.mem_filter.mpr ⟨he, by simp⟩
    obtain ⟨last, hlast⟩ := Option.isSome_iff_exists.mp
      (List.getLast?_isSome.mpr (List.ne_nil_of_mem hmem))
    obtain ⟨hwindow, hid⟩ := List.mem_filter.mp (List.mem_of_getLast? hlast)
    -- The listing has the id once.
    obtain rfl : last = e := List.inj_on_of_nodup_map hids (eligible_of_window hwindow).1
      (eligible_of_window he).1 (by simpa using hid)
    refine ⟨⟨last.id, _, ⟨rfl, List.ne_nil_of_mem hmem⟩, hlast⟩, fun hkept => ?_, hrow⟩
    exact unlisted_of_keptRows hkept (List.mem_map_of_mem (eligible_of_window he).1)

theorem create_ids_nodup :
    ((planCatalog s rows listing coverage).create.map SnapshotListEntry.id).Nodup := by
  refine ((List.perm_insertionSort _ _).map _).nodup_iff.mpr ?_
  refine List.Nodup.sublist (List.filter_sublist.map SnapshotListEntry.id) ?_
  refine (map_filterMap_sublist _ fun g hg e he => ?_).nodup
    (List.pairwise_map.mpr ((represents_groups _).sorted.imp fun h => h.ne))
  obtain ⟨hvs, -⟩ := (mem_groups_map _ _ _ _).mp hg
  rw [hvs] at he
  exact of_decide_eq_true (List.mem_filter.mp (List.mem_of_getLast? he)).2

theorem kept_iff_not_expired (hkeys : (rows.map CatalogRow.key).Nodup) {r : CatalogRow}
    (hr : r ∈ rows) : r.key ∈ (planCatalog s rows listing coverage).expire ↔
      r.snapshotId ∉ keptIds s rows listing coverage := by
  rw [keptIds, List.mem_append, not_or]
  exact mem_expire hkeys hr

theorem keptRows_again (rows : List CatalogRow)
    (hcandidates : ∀ c ∈ outOfWindowCandidates rows' (listing.map SnapshotListEntry.id)
      (s.rowFilter coverage), c ∈ outOfWindowCandidates rows (listing.map SnapshotListEntry.id)
        (s.rowFilter coverage) ∧ c.snapshotId ∈ keptRows s rows listing coverage)
    {c : CatalogRow} (hc : c ∈ outOfWindowCandidates rows' (listing.map SnapshotListEntry.id)
      (s.rowFilter coverage)) : c.snapshotId ∈ keptRows s rows' listing coverage := by
  refine mem_keptRows.mpr ⟨c, rfl, ?_⟩
  rw [List.take_of_length_le]
  · exact mem_rankedRows.mpr ⟨hc, rfl⟩
  · cases hfree : freeSlots (s.window listing) (rowRankCap coverage s.bounds) c.identity with
    | none => rfl
    | some free =>
      have hsub : ∀ d ∈ rankedRows (outOfWindowCandidates rows' (listing.map SnapshotListEntry.id)
          (s.rowFilter coverage)) c.identity, d ∈ (rankedRows (outOfWindowCandidates rows
            (listing.map SnapshotListEntry.id) (s.rowFilter coverage)) c.identity).take free := by
        intro d hd
        obtain ⟨hd, hidentity⟩ := mem_rankedRows.mp hd
        obtain ⟨hold, hkept⟩ := hcandidates d hd
        obtain ⟨d', hid, hd'⟩ := mem_keptRows.mp hkept
        obtain rfl : d' = d := List.inj_on_of_nodup_map candidates_nodup
          (mem_rankedRows.mp (List.mem_of_mem_take hd')).1 hold hid
        simpa [hidentity, hfree] using hd'
      have hnodup : (rankedRows (outOfWindowCandidates rows' (listing.map SnapshotListEntry.id)
          (s.rowFilter coverage)) c.identity).Nodup :=
        (List.perm_insertionSort _ _).nodup_iff.mpr
          ((List.Nodup.of_map _ candidates_nodup).filter _)
      calc _ ≤ ((rankedRows (outOfWindowCandidates rows (listing.map SnapshotListEntry.id)
            (s.rowFilter coverage)) c.identity).take free).length :=
          (hnodup.subperm hsub).length_le
        _ ≤ free := List.length_take_le _ _

/-- Rows that a plan would leave as they are: those of the window are there,
and the others are the rows it kept. -/
structure PlanSettled (s : ScanInputs) (rows : List CatalogRow) (listing : List SnapshotListEntry)
    (coverage : ListingCoverage) (rows' : List CatalogRow) : Prop where
  created : ∀ id ∈ windowIds s listing, id ∈ rows'.map CatalogRow.snapshotId
  kept : ∀ r ∈ rows', r.snapshotId ∈ keptIds s rows listing coverage
  unlisted : ∀ id ∈ keptRows s rows listing coverage,
    unlistedRows rows' (listing.map SnapshotListEntry.id) id =
      unlistedRows rows (listing.map SnapshotListEntry.id) id

theorem PlanSettled.kept_again (h : PlanSettled s rows listing coverage rows') {r : CatalogRow}
    (hr : r ∈ rows') : r.snapshotId ∈ keptIds s rows' listing coverage := by
  rw [keptIds, List.mem_append]
  refine (List.mem_append.mp (h.kept r hr)).imp_right fun hkept => ?_
  obtain ⟨c, hid, hc⟩ := mem_keptRows.mp hkept
  have hc := (mem_rankedRows.mp (List.mem_of_mem_take hc)).1
  obtain ⟨hnewest, hadmits⟩ := mem_outOfWindowCandidates.mp hc
  rw [← hid] at hkept ⊢
  refine keptRows_again rows (fun d hd => ?_) (mem_outOfWindowCandidates.mpr
    ⟨(h.unlisted _ hkept).symm ▸ hnewest, hadmits⟩)
  obtain ⟨hnewest', hadmits'⟩ := mem_outOfWindowCandidates.mp hd
  obtain ⟨hrow, hunlisted, -⟩ := candidate_sound hd
  have hkept' : d.snapshotId ∈ keptRows s rows listing coverage :=
    (List.mem_append.mp (h.kept d hrow)).resolve_left fun hw => hunlisted (listed_of_windowIds hw)
  exact ⟨mem_outOfWindowCandidates.mpr ⟨h.unlisted _ hkept' ▸ hnewest', hadmits'⟩, hkept'⟩

theorem PlanSettled.plan_again (hids : (listing.map SnapshotListEntry.id).Nodup)
    (h : PlanSettled s rows listing coverage rows') (hkeys : (rows'.map CatalogRow.key).Nodup) :
    planCatalog s rows' listing coverage = ⟨[], []⟩ := by
  have hcreate : (planCatalog s rows' listing coverage).create = [] := by
    refine List.eq_nil_iff_forall_not_mem.mpr fun e he => ?_
    obtain ⟨hwindow, hrow⟩ := (mem_create hids).mp he
    exact hrow (h.created _ (List.mem_map_of_mem hwindow))
  have hexpire : (planCatalog s rows' listing coverage).expire = [] := by
    refine List.eq_nil_iff_forall_not_mem.mpr fun key hkey => ?_
    obtain ⟨r, hr, rfl⟩ := List.mem_map.mp hkey
    have hr := (List.mem_filter.mp hr).1
    exact (kept_iff_not_expired hkeys hr).mp hkey (h.kept_again hr)
  cases hplan : planCatalog s rows' listing coverage
  rw [hplan] at hcreate hexpire
  simp only at hcreate hexpire
  rw [hcreate, hexpire]

end Planning

section Bounds

variable {s : ScanInputs} {rows rows' : List CatalogRow} {listing : List SnapshotListEntry}
variable {coverage : ListingCoverage} {key : String} {n : Nat}

def recordedIds (rows : List CatalogRow) (key : String) : Finset String :=
  ((rows.filter fun r => decide (r.identity = some key)).map CatalogRow.snapshotId).toFinset

theorem mem_recordedIds {id : String} :
    id ∈ recordedIds rows key ↔ ∃ r ∈ rows, r.identity = some key ∧ r.snapshotId = id := by
  simp [recordedIds, and_assoc]

/-- Rows record the identity of their snapshot: the listed one or none, and for
a snapshot that is not listed the same in each of its rows. -/
structure IdentitiesAgree (rows : List CatalogRow) (listing : List SnapshotListEntry) : Prop where
  listed : ∀ r ∈ rows, ∀ e ∈ listing, r.snapshotId = e.id →
    ∀ key ∈ r.identity, key = identityKey e.source
  unlisted : ∀ r ∈ rows, ∀ r' ∈ rows, r.snapshotId ∉ listing.map SnapshotListEntry.id →
    r.snapshotId = r'.snapshotId → r.identity = r'.identity

def windowSlots (s : ScanInputs) (listing : List SnapshotListEntry) (key : String) (n : Nat) :
    Finset String :=
  ((((slotEntries s listing key).insertionSort EndsNoEarlier).take n).map
    SnapshotListEntry.id).toFinset

def rowSlots (s : ScanInputs) (rows : List CatalogRow) (listing : List SnapshotListEntry)
    (coverage : ListingCoverage) (key : String) (free : Nat) : Finset String :=
  (((rankedRows (outOfWindowCandidates rows (listing.map SnapshotListEntry.id)
    (s.rowFilter coverage)) (some key)).take free).map CatalogRow.snapshotId).toFinset

theorem card_windowSlots_le :
    (windowSlots s listing key n).card ≤ min n (slotEntries s listing key).length := by
  refine (List.toFinset_card_le _).trans ?_
  rw [List.length_map, List.length_take, List.length_insertionSort]

theorem card_rowSlots_le {free : Nat} :
    (rowSlots s rows listing coverage key free).card ≤ free := by
  refine (List.toFinset_card_le _).trans ?_
  rw [List.length_map, List.length_take]
  exact Nat.min_le_left _ _

theorem recordedIds_subset_slots (hn : rowRankCap coverage s.bounds = some n)
    (hids : s.bounds.perIdentity = some n)
    (hkept : ∀ r ∈ rows', r.snapshotId ∈ keptIds s rows listing coverage)
    (hagree : IdentitiesAgree (rows ++ rows') listing) :
    recordedIds rows' key ⊆ windowSlots s listing key n ∪ rowSlots s rows listing coverage key
      (n - min n (slotEntries s listing key).length) := by
  intro id hid
  obtain ⟨r, hr, hidentity, rfl⟩ := mem_recordedIds.mp hid
  have hr' : r ∈ rows ++ rows' := List.mem_append_right _ hr
  rw [Finset.mem_union, windowSlots, rowSlots, List.mem_toFinset, List.mem_toFinset]
  rcases List.mem_append.mp (hkept r hr) with hwindow | hrow
  case inl =>
    left
    obtain ⟨e, he, heid⟩ := List.mem_map.mp hwindow
    obtain rfl := hagree.listed r hr' e (eligible_of_window he).1 heid.symm key hidentity
    refine List.mem_map.mpr ⟨e, ?_, heid⟩
    simpa [hids] using mem_window_entries.mp he
  case inr =>
    right
    obtain ⟨c, hid, hc⟩ := mem_keptRows.mp hrow
    obtain ⟨hmem, hunlisted, -⟩ :=
      candidate_sound (mem_rankedRows.mp (List.mem_of_mem_take hc)).1
    have hc' := hagree.unlisted c (List.mem_append_left _ hmem) r hr' hunlisted hid
    refine List.mem_map.mpr ⟨c, ?_, hid⟩
    simpa [hc', hidentity, freeSlots, hn, used_window hids] using hc

theorem card_recordedIds_le (hcoverage : ∀ reason, coverage ≠ .incomplete reason)
    (hn : s.bounds.perIdentity = some n)
    (hkept : ∀ r ∈ rows', r.snapshotId ∈ keptIds s rows listing coverage)
    (hagree : IdentitiesAgree (rows ++ rows') listing) : (recordedIds rows' key).card ≤ n := by
  have hcap : rowRankCap coverage s.bounds = some n := by
    cases coverage with
    | complete => exact hn
    | capped present => exact hn
    | incomplete reason => exact absurd rfl (hcoverage reason)
  calc (recordedIds rows' key).card
    _ ≤ (windowSlots s listing key n).card + (rowSlots s rows listing coverage key
          (n - min n (slotEntries s listing key).length)).card :=
        (Finset.card_le_card (recordedIds_subset_slots hcap hn hkept hagree)).trans
          (Finset.card_union_le _ _)
    _ ≤ min n (slotEntries s listing key).length +
          (n - min n (slotEntries s listing key).length) :=
        Nat.add_le_add card_windowSlots_le card_rowSlots_le
    _ = n := Nat.add_sub_cancel' (Nat.min_le_left _ _)

end Bounds

-- Carrying a plan out

/-- The repository a scan is for, and where it puts the rows of a host. -/
structure CatalogTarget where
  rfc : Rfc3339
  owner : OwnerReference
  repoName : String
  repoUid : String
  place : String → String

namespace CatalogTarget

def snapshot (t : CatalogTarget) (e : SnapshotListEntry) : Snapshot :=
  discoveredSnapshot t.rfc t.owner (t.place e.source.host) t.repoName t.repoUid e

def row (t : CatalogTarget) (e : SnapshotListEntry) : CatalogRow :=
  entryRow (t.place e.source.host) t.repoName e

def rows (t : CatalogTarget) (store : List Snapshot) : List CatalogRow :=
  rowsFor t.rfc t.repoUid store

section

theorem lawfulBEq_key : LawfulBEq (String × String) := inferInstance

attribute [local instance] lawfulBEq_key

def applyPlan (t : CatalogTarget) (store : List Snapshot) (plan : CatalogPlan) : List Snapshot :=
  ((plan.create.map t.snapshot).foldl applySnapshot store).filter
    fun s => decide (s.key ∉ plan.expire)

end

def plan (t : CatalogTarget) (s : ScanInputs) (store : List Snapshot)
    (listing : List SnapshotListEntry) (coverage : ListingCoverage) : CatalogPlan :=
  planCatalog s (t.rows store) listing coverage

/-- No two listed snapshots share the name of their row, and where an object
has the name, it is the row of that snapshot. -/
structure NamesFree (t : CatalogTarget) (store : List Snapshot)
    (listing : List SnapshotListEntry) : Prop where
  distinct : (listing.map fun e => (t.snapshot e).key).Nodup
  taken : ∀ e ∈ listing, ∀ s ∈ store, s.key = (t.snapshot e).key →
    ∃ r, rowFor t.rfc t.repoUid s = some r ∧ r.snapshotId = e.id

end CatalogTarget

section Applied

variable {t : CatalogTarget} {s : ScanInputs} {store : List Snapshot}
variable {listing : List SnapshotListEntry} {coverage : ListingCoverage}

theorem key_of_rowFor {rfc : Rfc3339} {uid : String} {o : Snapshot} {r : CatalogRow}
    (h : rowFor rfc uid o = some r) : r.key = o.key := by
  rw [rowFor] at h
  split at h
  · cases h
  · split at h
    · cases h
    · obtain ⟨id, -, rfl⟩ := Option.map_eq_some_iff.mp h
      rfl

theorem rows_keys_sublist (t : CatalogTarget) (store : List Snapshot) :
    ((t.rows store).map CatalogRow.key).Sublist (store.map Snapshot.key) :=
  map_filterMap_sublist _ fun _ _ _ h => key_of_rowFor h

theorem rows_append (t : CatalogTarget) (store store' : List Snapshot) :
    t.rows (store ++ store') = t.rows store ++ t.rows store' :=
  List.filterMap_append

theorem rows_filter_key (t : CatalogTarget) (store : List Snapshot)
    (p : String × String → Bool) :
    t.rows (store.filter fun o => p o.key) = (t.rows store).filter fun r => p r.key := by
  rw [CatalogTarget.rows, CatalogTarget.rows, rowsFor, rowsFor, List.filterMap_filter,
    List.filter_filterMap]
  refine List.filterMap_congr fun o _ => ?_
  cases hrow : rowFor t.rfc t.repoUid o with
  | none => simp
  | some r => simp [key_of_rowFor hrow, Option.filter]

theorem rows_snapshots {entries : List SnapshotListEntry}
    (hrfc : ∀ e ∈ entries, t.rfc.parse (t.rfc.render e.endTime) = some e.endTime) :
    t.rows (entries.map t.snapshot) = entries.map t.row := by
  rw [CatalogTarget.rows, rowsFor, List.filterMap_map, ← List.filterMap_eq_map]
  exact List.filterMap_congr fun e he => rowFor_discoveredSnapshot (hrfc e he)

theorem foldl_applySnapshot_of_fresh {store new : List Snapshot}
    (hnew : (new.map Snapshot.key).Nodup) (hfresh : ∀ o ∈ store, o.key ∉ new.map Snapshot.key) :
    new.foldl applySnapshot store = store ++ new := by
  induction new generalizing store with
  | nil => simp
  | cons o rest ih =>
    obtain ⟨ho, hrest⟩ := List.nodup_cons.mp hnew
    rw [List.foldl_cons, applySnapshot_of_fresh fun o' ho' heq =>
      hfresh o' ho' (by simp [heq]), ih hrest, List.append_assoc, List.singleton_append]
    intro o' ho' hmem
    rcases List.mem_append.mp ho' with hold | hself
    · exact hfresh o' hold (List.mem_cons_of_mem _ hmem)
    · rw [List.mem_singleton.mp hself] at hmem
      exact ho hmem

theorem applyPlan_eq (hids : (listing.map SnapshotListEntry.id).Nodup)
    (hnames : t.NamesFree store listing) :
    t.applyPlan store (t.plan s store listing coverage) =
      (store.filter fun o => decide (o.key ∉ (t.plan s store listing coverage).expire)) ++
        (t.plan s store listing coverage).create.map t.snapshot := by
  have hlisted : ∀ e ∈ (t.plan s store listing coverage).create, e ∈ listing := fun e he =>
    (eligible_of_window ((mem_create hids).mp he).1).1
  have hfresh : ∀ o ∈ store, o.key ∉
      ((t.plan s store listing coverage).create.map t.snapshot).map Snapshot.key := by
    rw [List.map_map]
    intro o ho hmem
    obtain ⟨e, he, hkey⟩ := List.mem_map.mp hmem
    obtain ⟨r, hrow, hid⟩ := hnames.taken e (hlisted e he) o ho hkey.symm
    exact ((mem_create hids).mp he).2
      (List.mem_map.mpr ⟨r, List.mem_filterMap.mpr ⟨o, ho, hrow⟩, hid⟩)
  have hnew : (((t.plan s store listing coverage).create.map t.snapshot).map
      Snapshot.key).Nodup := by
    rw [List.map_map]
    refine List.Nodup.map_on (fun e he e' he' hkey => ?_) (List.Nodup.of_map _ create_ids_nodup)
    exact List.inj_on_of_nodup_map hnames.distinct (hlisted e he) (hlisted e' he') hkey
  rw [CatalogTarget.applyPlan, foldl_applySnapshot_of_fresh hnew hfresh, List.filter_append]
  refine congrArg _ (List.filter_eq_self.mpr fun o ho => decide_eq_true fun hexpired => ?_)
  obtain ⟨r, hr, hkey⟩ := List.mem_map.mp hexpired
  obtain ⟨o', ho', hrow⟩ := List.mem_filterMap.mp (List.mem_filter.mp hr).1
  refine hfresh o' ho' ?_
  rw [← key_of_rowFor hrow, CatalogRow.key, hkey]
  exact List.mem_map_of_mem ho

theorem rows_applyPlan (hrfc : ∀ e ∈ listing, t.rfc.parse (t.rfc.render e.endTime) = some e.endTime)
    (hids : (listing.map SnapshotListEntry.id).Nodup) (hnames : t.NamesFree store listing) :
    t.rows (t.applyPlan store (t.plan s store listing coverage)) =
      ((t.rows store).filter fun r => decide (r.key ∉ (t.plan s store listing coverage).expire)) ++
        (t.plan s store listing coverage).create.map t.row := by
  rw [applyPlan_eq hids hnames, rows_append, rows_snapshots, rows_filter_key t store
    fun key => decide (key ∉ (t.plan s store listing coverage).expire)]
  exact fun e he => hrfc e (eligible_of_window ((mem_create hids).mp he).1).1

theorem nodup_keys_applyPlan (hkeys : (store.map Snapshot.key).Nodup) (plan : CatalogPlan) :
    ((t.rows (t.applyPlan store plan)).map CatalogRow.key).Nodup :=
  (rows_keys_sublist t _).nodup
    ((nodup_keys_foldl_applySnapshot hkeys).sublist (List.filter_sublist.map _))

theorem settled_applyPlan
    (hrfc : ∀ e ∈ listing, t.rfc.parse (t.rfc.render e.endTime) = some e.endTime)
    (hkeys : (store.map Snapshot.key).Nodup) (hids : (listing.map SnapshotListEntry.id).Nodup)
    (hnames : t.NamesFree store listing) :
    PlanSettled s (t.rows store) listing coverage
      (t.rows (t.applyPlan store (t.plan s store listing coverage))) := by
  have hkeys' : ((t.rows store).map CatalogRow.key).Nodup := (rows_keys_sublist t store).nodup hkeys
  have hstays : ∀ r ∈ t.rows store, r.key ∉ (t.plan s store listing coverage).expire ↔
      r.snapshotId ∈ keptIds s (t.rows store) listing coverage := fun r hr => by
    rw [CatalogTarget.plan, kept_iff_not_expired hkeys' hr, not_not]
  rw [rows_applyPlan hrfc hids hnames]
  constructor
  case created =>
    intro id hid
    rw [List.map_append, List.mem_append]
    by_cases hrow : id ∈ (t.rows store).map CatalogRow.snapshotId
    · obtain ⟨r, hr, rfl⟩ := List.mem_map.mp hrow
      refine .inl (List.mem_map_of_mem (List.mem_filter.mpr ⟨hr, decide_eq_true ?_⟩))
      exact (hstays r hr).mpr (List.mem_append_left _ hid)
    · obtain ⟨e, he, rfl⟩ := List.mem_map.mp hid
      refine .inr ?_
      rw [List.map_map]
      exact List.mem_map_of_mem (f := CatalogRow.snapshotId ∘ t.row)
        ((mem_create hids).mpr ⟨he, hrow⟩)
  case kept =>
    intro r hr
    rcases List.mem_append.mp hr with hold | hnew
    · obtain ⟨hr, hstay⟩ := List.mem_filter.mp hold
      exact (hstays r hr).mp (of_decide_eq_true hstay)
    · obtain ⟨e, he, rfl⟩ := List.mem_map.mp hnew
      exact List.mem_append_left _ (List.mem_map_of_mem ((mem_create hids).mp he).1)
  case unlisted =>
    intro id hid
    have hnone : unlistedRows ((t.plan s store listing coverage).create.map t.row)
        (listing.map SnapshotListEntry.id) id = [] := by
      refine List.eq_nil_iff_forall_not_mem.mpr fun r hr => ?_
      obtain ⟨hmem, hunlisted, -⟩ := mem_unlistedRows.mp hr
      obtain ⟨e, he, rfl⟩ := List.mem_map.mp hmem
      exact hunlisted (List.mem_map_of_mem (eligible_of_window ((mem_create hids).mp he).1).1)
    rw [unlistedRows, List.filter_append, List.filter_append, ← unlistedRows, ← unlistedRows,
      hnone, List.append_nil, unlistedRows, unlistedRows, List.filter_filter, List.filter_filter,
      List.filter_filter]
    refine List.filter_congr fun r hr => ?_
    by_cases hrid : r.snapshotId = id
    · have hstay := (hstays r hr).mpr (List.mem_append_right _ (hrid ▸ hid))
      simp [hstay]
    · simp [hrid]

theorem identitiesAgree_rows_applyPlan
    (hrfc : ∀ e ∈ listing, t.rfc.parse (t.rfc.render e.endTime) = some e.endTime)
    (hids : (listing.map SnapshotListEntry.id).Nodup) (hnames : t.NamesFree store listing)
    (hagree : IdentitiesAgree (t.rows store) listing) :
    IdentitiesAgree (t.rows store ++
      t.rows (t.applyPlan store (t.plan s store listing coverage))) listing := by
  rw [rows_applyPlan hrfc hids hnames]
  have hcases : ∀ r ∈ t.rows store ++ (((t.rows store).filter fun r =>
      decide (r.key ∉ (t.plan s store listing coverage).expire)) ++
        (t.plan s store listing coverage).create.map t.row),
      r ∈ t.rows store ∨ ∃ e ∈ listing, t.row e = r := by
    intro r hr
    rcases List.mem_append.mp hr with hold | hr
    · exact .inl hold
    · rcases List.mem_append.mp hr with hold | hnew
      · exact .inl (List.mem_filter.mp hold).1
      · obtain ⟨e, he, rfl⟩ := List.mem_map.mp hnew
        exact .inr ⟨e, (eligible_of_window ((mem_create hids).mp he).1).1, rfl⟩
  constructor
  case listed =>
    intro r hr e he hid key hkey
    rcases hcases r hr with hold | ⟨e', he', rfl⟩
    · exact hagree.listed r hold e he hid key hkey
    · obtain rfl := List.inj_on_of_nodup_map hids he' he hid
      exact (Option.some_inj.mp hkey).symm
  case unlisted =>
    intro r hr r' hr' hunlisted hid
    have hold : ∀ {o}, o ∈ t.rows store ∨ (∃ e ∈ listing, t.row e = o) →
        o.snapshotId ∉ listing.map SnapshotListEntry.id → o ∈ t.rows store := by
      rintro o (hold | ⟨e, he, rfl⟩) hunlisted
      · exact hold
      · exact absurd (List.mem_map_of_mem he) hunlisted
    exact hagree.unlisted r (hold (hcases r hr) hunlisted) r'
      (hold (hcases r' hr') (hid ▸ hunlisted)) hunlisted hid

end Applied

/-- A scan settles: planned again, nothing is created or expired. What it
creates is neither produced, ignored nor there, what it expires is not kept,
and the rows that are left respect the bound of every identity. -/
theorem catalog_scan_settles (t : CatalogTarget) (s : ScanInputs) (store : List Snapshot)
    (listing : List SnapshotListEntry) (coverage : ListingCoverage)
    (hrfc : ∀ e ∈ listing, t.rfc.parse (t.rfc.render e.endTime) = some e.endTime)
    (hkeys : (store.map Snapshot.key).Nodup) (hids : (listing.map SnapshotListEntry.id).Nodup)
    (hnames : t.NamesFree store listing) :
    t.plan s (t.applyPlan store (t.plan s store listing coverage)) listing coverage = ⟨[], []⟩ ∧
      (∀ e ∈ (t.plan s store listing coverage).create, e.id ∉ s.producedIds ∧
        e.id ∉ s.foreignIgnoredIds ∧ e.id ∉ (t.rows store).map CatalogRow.snapshotId) ∧
      (∀ r ∈ t.rows store, r.key ∈ (t.plan s store listing coverage).expire →
        r.snapshotId ∉ keptIds s (t.rows store) listing coverage) ∧
      ((∀ reason, coverage ≠ .incomplete reason) → IdentitiesAgree (t.rows store) listing →
        ∀ n, s.bounds.perIdentity = some n → ∀ key, (recordedIds
          (t.rows (t.applyPlan store (t.plan s store listing coverage))) key).card ≤ n) := by
  have hsettled : PlanSettled s (t.rows store) listing coverage
      (t.rows (t.applyPlan store (t.plan s store listing coverage))) :=
    settled_applyPlan hrfc hkeys hids hnames
  refine ⟨hsettled.plan_again hids (nodup_keys_applyPlan hkeys _), fun e he => ?_,
    fun r hr => ?_, fun hcoverage hagree n hn key => ?_⟩
  · obtain ⟨hwindow, hrow⟩ := (mem_create hids).mp he
    have heligible := (eligible_of_window hwindow).2
    simp only [ScanInputs.eligible, eligibleEntry, Bool.and_eq_true, decide_eq_true_eq] at heligible
    exact ⟨heligible.1.1, heligible.1.2, hrow⟩
  · exact (kept_iff_not_expired ((rows_keys_sublist t store).nodup hkeys) hr).mp
  · exact card_recordedIds_le hcoverage hn hsettled.kept
      (identitiesAgree_rows_applyPlan hrfc hids hnames hagree)

def letterClock : Rfc3339 where
  parse text := text.toList.head?.map fun c => (c.toNat : Int)
  render time := String.singleton (Char.ofNat time.toNat)

def nasTarget : CatalogTarget where
  rfc := letterClock
  owner := nasOwner "Repository" "u1"
  repoName := "nas"
  repoUid := "u1"
  place := id

def oneEach : ScanInputs where
  retain := some { perIdentity := some 1 }
  now := 100

def hostEntry (id host : String) (endTime : DateTime) : SnapshotListEntry where
  id
  source := { userName := "u", host, path := "/data" }
  startTime := endTime
  endTime

/-- A row of `stale` and the listing of two newer snapshots, one a host. -/
theorem catalog_scan_settles_two :
    nasTarget.plan oneEach (nasTarget.applyPlan [nasTarget.snapshot (hostEntry "stale" "apps" 1)]
        (nasTarget.plan oneEach [nasTarget.snapshot (hostEntry "stale" "apps" 1)]
          [hostEntry "new" "apps" 3, hostEntry "other" "media" 2] .complete))
      [hostEntry "new" "apps" 3, hostEntry "other" "media" 2] .complete = ⟨[], []⟩ :=
  (catalog_scan_settles nasTarget oneEach [nasTarget.snapshot (hostEntry "stale" "apps" 1)]
    [hostEntry "new" "apps" 3, hostEntry "other" "media" 2] .complete
    (by decide) (by decide) (by decide)
    ⟨by decide, fun e he o ho hkey => by
      obtain rfl := List.mem_singleton.mp ho
      revert e
      decide⟩).1

/-- Two ids that begin alike share one row, so every scan creates one of them
again. A row that records another identity than its snapshot counts there. -/
theorem catalog_scan_unsettled :
    (([hostEntry "4f1c9a7be2d05836-a" "apps" 3, hostEntry "4f1c9a7be2d05836-b" "apps" 2].map
        SnapshotListEntry.id).Nodup ∧
      (nasTarget.plan { now := 100 } (nasTarget.applyPlan [] (nasTarget.plan { now := 100 } []
        [hostEntry "4f1c9a7be2d05836-a" "apps" 3, hostEntry "4f1c9a7be2d05836-b" "apps" 2]
        .complete))
        [hostEntry "4f1c9a7be2d05836-a" "apps" 3, hostEntry "4f1c9a7be2d05836-b" "apps" 2]
        .complete).create ≠ []) ∧
    (([hostEntry "new" "apps" 3, hostEntry "other" "media" 2].map SnapshotListEntry.id).Nodup ∧
      oneEach.bounds.perIdentity = some 1 ∧
      1 < (recordedIds (nasTarget.rows (nasTarget.applyPlan
          [nasTarget.snapshot (hostEntry "other" "apps" 1)]
          (nasTarget.plan oneEach [nasTarget.snapshot (hostEntry "other" "apps" 1)]
            [hostEntry "new" "apps" 3, hostEntry "other" "media" 2] .complete)))
        "u@apps:/data").card) := by
  decide

end Kopiur
