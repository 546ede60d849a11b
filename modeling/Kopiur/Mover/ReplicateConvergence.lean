import Kopiur.Mover.ReplicateRuns
import Mathlib.Data.Finset.Sort

/-!
# Repeated replication runs

Copying and pruning decide from different rules: a run copies what the
destination lacks of the selected source snapshots and then deletes copies by
the pruning mode, whose manifests go with them. Between two runs the deletions
take their course.
-/

namespace Kopiur

open Lib

inductive MigrateSources
  | all
  | list (specs : List String)
deriving DecidableEq

/-- `kopia snapshot migrate` into a destination. It keeps what is there and
copies only complete snapshots whose identity and start the destination lacks,
of the given sources, the latest of each if told so. -/
structure KopiaMigrate where
  run : List SnapshotListEntry → MigrateSources → Bool → List SnapshotListEntry →
    List SnapshotListEntry
  keeps : ∀ source sources latestOnly dest, ∀ e ∈ dest, e ∈ run source sources latestOnly dest
  copies : ∀ source sources latestOnly dest, ∀ e ∈ run source sources latestOnly dest,
    e ∉ dest → e.complete = true → entryKey e ∉ allKeys dest ∧
      entryKey e ∈ allKeys source ∧
      (latestOnly = true → ∀ k ∈ allKeys source, k.1 = entryTriple e → k.2 ≤ e.startTime)

structure ReplicateOp where
  repl : Replication
  incl : List IdentityMatcherSpec := []
  excl : List IdentityMatcherSpec := []
  latestOnly : Bool := false
  pruning : PruningSpec := .none
deriving DecidableEq

structure Destination where
  manifests : List SnapshotListEntry
  rows : List CopySnapshot
deriving DecidableEq

def CopySnapshot.isCopyOf (r : Replication) (row : CopySnapshot) : Bool :=
  row.metadata.labels.lookup snapshotReplicationLabel == some r.replName &&
    row.metadata.labels.lookup originLabel == some Origin.replicated.labelValue &&
    row.metadata.labels.lookup repositoryUidLabel == some r.destRepo.uid

def listCopyRows (rfc : Rfc3339) (r : Replication) (rows : List CopySnapshot) : List CopyRow :=
  (rows.filter (CopySnapshot.isCopyOf r)).filterMap (copyRowFromSnapshot rfc)

def reconciledRows (rfc : Rfc3339) (r : Replication) (existing : List CopySnapshot)
    (items : List CopyCorrespondence) : List CopySnapshot :=
  ((reconcileCopyCrs rfc r existing items).tasks.flatMap Prod.snd).foldl CopyCall.exec existing

def prunedIds (rows : List CopySnapshot) (names : List String) : List String :=
  (rows.filter fun row => row.metadata.nameAny ∈ names).filterMap fun row =>
    (row.status.bind SnapshotStatus.snapshot).map SnapshotInfo.kopiaSnapshotId

structure RunResult where
  copied : Finset SnapKey := ∅
  pruned : List String := []
  after : Destination

def migrateSources (op : ReplicateOp) (selected : Finset IdentityTriple) : MigrateSources :=
  if op.incl.isEmpty && op.excl.isEmpty then .all
  else .list ((selected.sort (· ≤ ·)).map tripleSpec)

section Run

variable (rfc : Rfc3339) (k : KopiaMigrate) (op : ReplicateOp) (source : List SnapshotListEntry)

def migrated (d : Destination) : List SnapshotListEntry :=
  k.run source (migrateSources op (selectIdentities op.incl op.excl source)) op.latestOnly d.manifests

/-- A run that ends well, and the deletions that follow it; none if the check
after the migrate finds a snapshot missing. -/
def completeRun (d : Destination) : Option RunResult :=
  let selected := selectIdentities op.incl op.excl source
  if selected = ∅ then some { after := d }
  else
    let destAfter := migrated k op source d
    let missing := missingAfterMigrate source selected destAfter op.latestOnly
    let rows := reconciledRows rfc op.repl d.rows (correspondenceSet source selected destAfter)
    if missing ≠ ∅ then none
    else
      let pruned := pruneNames op.pruning (listCopyRows rfc op.repl rows) (allKeys source)
      some
        { copied := destKeys destAfter selected \ destKeys d.manifests selected
          pruned
          after :=
            { manifests := without destAfter (prunedIds rows pruned)
              rows := rows.filter fun row => row.metadata.nameAny ∉ pruned } }

end Run

-- The objects after the tasks

section Reconciled

variable (rfc : Rfc3339) (r : Replication)

def taken (existing : List CopySnapshot) (item : CopyCorrespondence) : Bool :=
  (existing.filter (CopySnapshot.listedAs r item.destEntry.id)).any fun row => !row.discovered

def dupNames (existing : List CopySnapshot) (item : CopyCorrespondence) : List String :=
  ((existing.filter (CopySnapshot.listedAs r item.destEntry.id)).filter
    CopySnapshot.discovered).map fun row => row.metadata.nameAny

def copyObject (item : CopyCorrespondence) : CopySnapshot :=
  mergeStatus (buildCopySnapshot rfc r item).2 (buildCopySnapshot rfc r item).1

variable {rfc r} {rows existing : List CopySnapshot} {item : CopyCorrespondence}
  {items : List CopyCorrespondence} {row : CopySnapshot}

theorem exec_deletes (names : List String) :
    (names.map CopyCall.delete).foldl CopyCall.exec rows =
      rows.filter fun row => row.metadata.nameAny ∉ names := by
  induction names generalizing rows with
  | nil => simp
  | cons n names ih =>
    rw [List.map_cons, List.foldl_cons, ih, CopyCall.exec, List.filter_filter]
    refine List.filter_congr fun row _ => ?_
    by_cases hn : row.metadata.nameAny = n <;> simp [CopySnapshot.named, hn]

theorem exec_create (hfree : ∀ row ∈ rows, row.named (copyName r item) = false) :
    [CopyCall.apply (buildCopySnapshot rfc r item).1, .patchStatus (copyName r item)
      (buildCopySnapshot rfc r item).2].foldl CopyCall.exec rows =
        rows ++ [copyObject rfc r item] := by
  have hkeep : rows.map (fun row => if row.named (copyName r item) then
      mergeStatus (buildCopySnapshot rfc r item).2 row else row) = rows := by
    conv_rhs => rw [← List.map_id rows]
    refine List.map_congr_left fun row hrow => ?_
    simp [hfree row hrow]
  have hnamed : (buildCopySnapshot rfc r item).1.named (copyName r item) = true :=
    named_iff.mpr rfl
  rw [List.foldl_cons, exec_apply hfree, List.foldl_cons, List.foldl_nil, CopyCall.exec,
    List.map_append, hkeep, List.map_singleton, if_pos hnamed]
  rfl

theorem exec_syncOne
    (hfree : taken r existing item = false → ∀ row ∈ rows, row.named (copyName r item) = false) :
    (syncOne rfc r existing item).foldl CopyCall.exec rows =
      (if taken r existing item then rows else rows ++ [copyObject rfc r item]).filter fun row =>
        row.metadata.nameAny ∉ dupNames r existing item := by
  have hsync : syncOne rfc r existing item =
      (if taken r existing item then [] else [.apply (buildCopySnapshot rfc r item).1,
        .patchStatus (copyName r item) (buildCopySnapshot rfc r item).2]) ++
        (dupNames r existing item).map .delete := rfl
  rw [hsync, List.foldl_append, exec_deletes]
  cases htaken : taken r existing item with
  | true => rfl
  | false => simp only [Bool.false_eq_true, if_false, exec_create (hfree htaken)]

/-- No object but its own carries the name of a copy, and copies have distinct
names. -/
structure NamesOwn (r : Replication) (existing : List CopySnapshot)
    (items : List CopyCorrespondence) : Prop where
  distinct : Distinct existing
  apart : (items.map (copyName r)).Nodup
  own : ∀ item ∈ items, ∀ row ∈ existing, row.named (copyName r item) = true →
    row.listedAs r item.destEntry.id = true ∧ row.discovered = false

theorem NamesOwn.free (h : NamesOwn r existing items) (hitem : item ∈ items)
    (hnot : taken r existing item = false) (hrow : row ∈ existing) :
    row.named (copyName r item) = false := by
  rw [Bool.eq_false_iff]
  intro hnamed
  obtain ⟨hlisted, hdisc⟩ := h.own item hitem row hrow hnamed
  have : taken r existing item = true :=
    List.any_eq_true.mpr ⟨row, List.mem_filter.mpr ⟨hrow, hlisted⟩, by simp [hdisc]⟩
  rw [hnot] at this
  cases this

theorem mem_dupNames {n : String} : n ∈ dupNames r existing item ↔
    ∃ row ∈ existing, row.listedAs r item.destEntry.id = true ∧ row.discovered = true ∧
      row.metadata.nameAny = n := by
  simp [dupNames, and_assoc, and_left_comm]

theorem NamesOwn.copyName_not_dup (h : NamesOwn r existing items) (hitem : item ∈ items)
    (item' : CopyCorrespondence) : copyName r item ∉ dupNames r existing item' := by
  intro hmem
  obtain ⟨row, hrow, -, hdisc, hname⟩ := mem_dupNames.mp hmem
  rw [(h.own item hitem row hrow (named_iff.mpr hname)).2] at hdisc
  cases hdisc

theorem NamesOwn.not_dup (h : NamesOwn r existing items) (hrow : row ∈ existing)
    (hdisc : row.discovered = false) (item : CopyCorrespondence) :
    row.metadata.nameAny ∉ dupNames r existing item := by
  intro hmem
  obtain ⟨dup, hdup, -, hd, hname⟩ := mem_dupNames.mp hmem
  rw [List.inj_on_of_nodup_map h.distinct hdup hrow hname, hdisc] at hd
  cases hd

/-- The tasks that are left work on rows of which none has the name of a copy they
are going to make. -/
theorem exec_tasks (h : NamesOwn r existing items) {left : List CopyCorrespondence}
    (hleft : left.Sublist items)
    (hfree : ∀ p ∈ left, taken r existing p = false → ∀ row ∈ rows,
      row.named (copyName r p) = false) (hdistinct : Distinct rows) :
    Distinct ((left.flatMap (syncOne rfc r existing)).foldl CopyCall.exec rows) ∧
    ∀ row, row ∈ (left.flatMap (syncOne rfc r existing)).foldl CopyCall.exec rows ↔
      (row ∈ rows ∧ ∀ p ∈ left, row.metadata.nameAny ∉ dupNames r existing p) ∨
        ∃ p ∈ left, taken r existing p = false ∧ row = copyObject rfc r p := by
  induction left generalizing rows with
  | nil => simpa using hdistinct
  | cons p rest ih =>
    have hp : p ∈ items := hleft.subset List.mem_cons_self
    have hapart := h.apart.sublist (hleft.map _)
    rw [List.map_cons, List.nodup_cons] at hapart
    have hname : (copyObject rfc r p).metadata.nameAny = copyName r p := rfl
    obtain ⟨next, hnext⟩ : ∃ next, next = (if taken r existing p then rows
        else rows ++ [copyObject rfc r p]).filter fun row =>
          row.metadata.nameAny ∉ dupNames r existing p := ⟨_, rfl⟩
    have hmem : ∀ row, row ∈ next ↔ (row ∈ rows ∧ row.metadata.nameAny ∉ dupNames r existing p) ∨
        (taken r existing p = false ∧ row = copyObject rfc r p) := by
      intro row
      rw [hnext]
      have hown := h.copyName_not_dup hp p
      cases taken r existing p with
      | true => simp
      | false =>
        simp only [Bool.false_eq_true, if_false, List.mem_filter, List.mem_append,
          List.mem_singleton, decide_eq_true_eq, true_and]
        constructor
        · rintro ⟨hrow | rfl, hdup⟩
          · exact .inl ⟨hrow, hdup⟩
          · exact .inr rfl
        · rintro (⟨hrow, hdup⟩ | rfl)
          · exact ⟨.inl hrow, hdup⟩
          · exact ⟨.inr rfl, hname ▸ hown⟩
    have hnextFree : ∀ q ∈ rest, taken r existing q = false → ∀ row ∈ next,
        row.named (copyName r q) = false := by
      intro q hq hnot row hrow
      rcases (hmem row).mp hrow with ⟨hrow, -⟩ | ⟨-, rfl⟩
      · exact hfree q (List.mem_cons_of_mem _ hq) hnot row hrow
      · rw [Bool.eq_false_iff]
        intro hnamed
        have heq : copyName r p = copyName r q := named_iff.mp hnamed
        exact hapart.1 (heq ▸ List.mem_map_of_mem hq)
    have hnextDistinct : Distinct next := by
      rw [hnext]
      cases hnot : taken r existing p with
      | true => exact hdistinct.sublist (List.filter_sublist.map _)
      | false =>
        have happend := hdistinct.exec (c := .apply (copyObject rfc r p)) (by
          rintro snap ⟨⟩
          exact hfree p List.mem_cons_self hnot)
        rw [exec_apply (hfree p List.mem_cons_self hnot)] at happend
        exact happend.sublist (List.filter_sublist.map _)
    rw [List.flatMap_cons, List.foldl_append, exec_syncOne (hfree p List.mem_cons_self), ← hnext]
    obtain ⟨hd, hm⟩ := ih ((List.sublist_cons_self _ _).trans hleft) hnextFree hnextDistinct
    refine ⟨hd, fun row => ?_⟩
    rw [hm row, hmem row]
    constructor
    · rintro (⟨⟨hrow, hdup⟩ | ⟨hnot, rfl⟩, hrest⟩ | ⟨q, hq, hnot, rfl⟩)
      · exact .inl ⟨hrow, List.forall_mem_cons.mpr ⟨hdup, hrest⟩⟩
      · exact .inr ⟨p, List.mem_cons_self, hnot, rfl⟩
      · exact .inr ⟨q, List.mem_cons_of_mem _ hq, hnot, rfl⟩
    · rintro (⟨hrow, hdup⟩ | ⟨q, hq, hnot, rfl⟩)
      · obtain ⟨hdup, hrest⟩ := List.forall_mem_cons.mp hdup
        exact .inl ⟨.inl ⟨hrow, hdup⟩, hrest⟩
      · rcases List.mem_cons.mp hq with rfl | hq
        · exact .inl ⟨.inr ⟨hnot, rfl⟩, fun q _ => h.copyName_not_dup hp q⟩
        · exact .inr ⟨q, hq, hnot, rfl⟩

theorem reconciledRows_eq : reconciledRows rfc r existing items =
    (items.flatMap (syncOne rfc r existing)).foldl CopyCall.exec existing := by
  rw [reconciledRows, reconcileCopyCrs, List.flatMap_map]

theorem NamesOwn.mem_reconciledRows (h : NamesOwn r existing items) :
    row ∈ reconciledRows rfc r existing items ↔
      (row ∈ existing ∧ ∀ p ∈ items, row.metadata.nameAny ∉ dupNames r existing p) ∨
        ∃ p ∈ items, taken r existing p = false ∧ row = copyObject rfc r p := by
  rw [reconciledRows_eq]
  exact (exec_tasks h (.refl _) (fun p hp hnot row hrow => h.free hp hnot hrow) h.distinct).2 row

theorem NamesOwn.distinct_reconciledRows (h : NamesOwn r existing items) :
    Distinct (reconciledRows rfc r existing items) := by
  rw [reconciledRows_eq]
  exact (exec_tasks h (.refl _) (fun p hp hnot row hrow => h.free hp hnot hrow) h.distinct).1

theorem NamesOwn.standing (h : NamesOwn r existing items) (hitem : item ∈ items) :
    ∃ row ∈ reconciledRows rfc r existing items, row.listedAs r item.destEntry.id = true ∧
      row.discovered = false := by
  cases htaken : taken r existing item with
  | true =>
    obtain ⟨row, hrow, hnot⟩ := List.any_eq_true.mp htaken
    obtain ⟨hrow, hlisted⟩ := List.mem_filter.mp hrow
    have hdisc : row.discovered = false := by simpa using hnot
    exact ⟨row, h.mem_reconciledRows.mpr (.inl ⟨hrow, fun p _ => h.not_dup hrow hdisc p⟩), hlisted,
      hdisc⟩
  | false =>
    exact ⟨copyObject rfc r item, h.mem_reconciledRows.mpr (.inr ⟨item, hitem, htaken, rfl⟩),
      @built_listedAs rfc r item, replicated_not_discovered (@built_replicated rfc r item)⟩

theorem reconciledRows_taken (h : ∀ p ∈ items, taken r existing p = true) :
    reconciledRows rfc r existing items = existing.filter fun row =>
      ∀ p ∈ items, row.metadata.nameAny ∉ dupNames r existing p := by
  have hexec : ∀ (left : List CopyCorrespondence) (rows : List CopySnapshot),
      (∀ p ∈ left, taken r existing p = true) →
      (left.flatMap (syncOne rfc r existing)).foldl CopyCall.exec rows =
        rows.filter fun row => ∀ p ∈ left, row.metadata.nameAny ∉ dupNames r existing p := by
    intro left
    induction left with
    | nil => intro rows _; simp
    | cons p rest ih =>
      intro rows hleft
      obtain ⟨hp, hrest⟩ := List.forall_mem_cons.mp hleft
      have hfree : taken r existing p = false → ∀ row ∈ rows,
          row.named (copyName r p) = false := by
        intro hnot
        rw [hp] at hnot
        cases hnot
      rw [List.flatMap_cons, List.foldl_append, exec_syncOne hfree, if_pos hp, ih _ hrest,
        List.filter_filter]
      refine List.filter_congr fun row _ => ?_
      rw [Bool.eq_iff_iff]
      simp [and_comm]
  rw [reconciledRows_eq, hexec items existing h]

end Reconciled

section Again

variable {rows : List CopyRow} {sourceKeys : Finset SnapKey}

theorem retentionPruneNames_again (keep : Retention) (hnames : (rows.map CopyRow.name).Nodup) :
    retentionPruneNames (rows.filter fun row => row.name ∉ retentionPruneNames rows keep) keep =
      [] := by
  obtain ⟨left, hleft⟩ : ∃ left, left = rows.filter fun row =>
      row.name ∉ retentionPruneNames rows keep := ⟨_, rfl⟩
  rw [← hleft, List.eq_nil_iff_forall_not_mem]
  have hsub : left.Sublist rows := hleft ▸ List.filter_sublist
  have hnames' := hnames.sublist (hsub.map _)
  intro name hname
  obtain ⟨t, hdel⟩ := mem_retentionPruneNames.mp hname
  obtain ⟨v, hv, -, hdrop⟩ := ((copyPopulation left hnames' t).mem_delete keep _).mp hdel
  obtain ⟨row, hrow, rfl, hview⟩ := mem_copyBucket.mp hv
  have hkept : row.name ∉ retentionPruneNames rows keep := by
    have := (List.mem_filter.mp (hleft ▸ hrow)).2
    simpa using this
  -- What the whole bucket keeps, the smaller bucket keeps.
  rw [name_mem_retentionPruneNames hnames (hsub.subset hrow)] at hkept
  have hpick : v ∈ (gfs keep).pick (copyPopulation rows hnames row.identity).set := by
    by_contra hnot
    exact hkept ⟨v, hview, hnot⟩
  refine hdrop ((stable_gfs keep).heritage ?_ ((Population.mem_set _).mpr hv) hpick)
  intro w hw
  obtain ⟨row', hrow', hid, hview'⟩ := mem_copyBucket.mp ((Population.mem_set _).mp hw)
  exact (Population.mem_set _).mpr (mem_copyBucket.mpr ⟨row', hsub.subset hrow', hid, hview'⟩)

theorem mirrorPruneNames_again :
    mirrorPruneNames (rows.filter fun row => row.name ∉ mirrorPruneNames rows sourceKeys)
      sourceKeys = [] := by
  rw [List.eq_nil_iff_forall_not_mem]
  intro name hname
  obtain ⟨row, hrow, hpin, rfl, hstart⟩ := mem_mirrorPruneNames.mp hname
  obtain ⟨hrow, hleft⟩ := List.mem_filter.mp hrow
  rw [decide_eq_true_eq] at hleft
  exact hleft (mem_mirrorPruneNames.mpr ⟨row, hrow, hpin, rfl, hstart⟩)

theorem pruneNames_again (pruning : PruningSpec) (hnames : (rows.map CopyRow.name).Nodup) :
    pruneNames pruning (rows.filter fun row => row.name ∉ pruneNames pruning rows sourceKeys)
      sourceKeys = [] := by
  cases pruning with
  | none => rfl
  | mirrorSource => exact mirrorPruneNames_again
  | retention keep => exact retentionPruneNames_again keep hnames

theorem exists_of_mem_pruneNames {pruning : PruningSpec} {name : String}
    (hnames : (rows.map CopyRow.name).Nodup)
    (h : name ∈ pruneNames pruning rows sourceKeys) : ∃ row ∈ rows, row.name = name := by
  cases pruning with
  | none => cases h
  | mirrorSource =>
    obtain ⟨row, hrow, -, hname, -⟩ := mem_mirrorPruneNames.mp h
    exact ⟨row, hrow, hname⟩
  | retention keep =>
    obtain ⟨t, hdel⟩ := mem_retentionPruneNames.mp h
    obtain ⟨v, hv, hid, -⟩ := ((copyPopulation rows hnames t).mem_delete keep _).mp hdel
    obtain ⟨row, hrow, -, hview⟩ := mem_copyBucket.mp hv
    exact ⟨row, hrow, (CopyRow.name_of_view hview).symm.trans hid⟩

end Again

-- Two runs

/-- The objects of copies say of the manifests they name what the listing says. -/
structure Described (rfc : Rfc3339) (r : Replication) (manifests : List SnapshotListEntry)
    (rows : List CopySnapshot) : Prop where
  ids : (manifests.map SnapshotListEntry.id).Nodup
  written : ∀ e ∈ manifests, rfc.parse (rfc.render e.startTime) = some e.startTime
  labelled : ∀ row ∈ rows, row.isCopyOf r = true → ∀ id, row.listedAs r id = true →
    ∀ c, copyRowFromSnapshot rfc row = some c →
      (row.status.bind SnapshotStatus.snapshot).map SnapshotInfo.kopiaSnapshotId = some id
  keyed : ∀ row ∈ rows, row.isCopyOf r = true → ∀ c, copyRowFromSnapshot rfc row = some c →
    ∀ start, c.startTime = some start → ∀ e ∈ manifests,
      (row.status.bind SnapshotStatus.snapshot).map SnapshotInfo.kopiaSnapshotId = some e.id →
        entryKey e = (c.identity, start)

section TwoRuns

variable {rfc : Rfc3339} {r : Replication} {manifests source : List SnapshotListEntry}
  {existing rows : List CopySnapshot} {items : List CopyCorrespondence}
  {selected : Finset IdentityTriple}

theorem mem_correspondenceSet {p : CopyCorrespondence} :
    p ∈ correspondenceSet source selected manifests ↔ p.destEntry ∈ manifests ∧
      p.destEntry.complete = true ∧ entryTriple p.destEntry ∈ selected ∧
      sourceManifest source (entryKey p.destEntry) = some p.sourceManifestId := by
  simp only [correspondenceSet, completeOnly, List.mem_filterMap, List.mem_filter,
    decide_eq_true_eq, Option.map_eq_some_iff]
  constructor
  · rintro ⟨e, ⟨⟨he, hcomplete⟩, hsel⟩, id, hid, rfl⟩
    exact ⟨he, hcomplete, hsel, hid⟩
  · rintro ⟨he, hcomplete, hsel, hid⟩
    exact ⟨p.destEntry, ⟨⟨he, hcomplete⟩, hsel⟩, p.sourceManifestId, hid, rfl⟩

theorem copyRow_copyObject {item : CopyCorrespondence} {c : CopyRow}
    (h : copyRowFromSnapshot rfc (copyObject rfc r item) = some c) :
    c.identity = entryTriple item.destEntry ∧
      c.startTime = rfc.parse (rfc.render item.destEntry.startTime) := by
  cases h
  exact ⟨rfl, rfl⟩

theorem Described.reconciled (h : Described rfc r manifests existing)
    (hown : NamesOwn r existing items) (hitems : ∀ p ∈ items, p.destEntry ∈ manifests) :
    Described rfc r manifests (reconciledRows rfc r existing items) where
  ids := h.ids
  written := h.written
  labelled row hrow hcopy id hlisted c hc := by
    rcases hown.mem_reconciledRows.mp hrow with ⟨hrow, -⟩ | ⟨p, hp, -, rfl⟩
    · exact h.labelled row hrow hcopy id hlisted c hc
    · rw [listedAs_inj hlisted (@built_listedAs rfc r p)]
      rfl
  keyed row hrow hcopy c hc start hstart e he hid := by
    rcases hown.mem_reconciledRows.mp hrow with ⟨hrow, -⟩ | ⟨p, hp, -, rfl⟩
    · exact h.keyed row hrow hcopy c hc start hstart e he hid
    · have hentry : p.destEntry = e :=
        List.inj_on_of_nodup_map h.ids (hitems p hp) he (Option.some.inj hid)
      obtain ⟨hidentity, hparsed⟩ := copyRow_copyObject hc
      rw [hstart, hentry, h.written e he] at hparsed
      rw [hidentity, hentry, Option.some.inj hparsed]
      rfl

theorem name_of_copyRow {row : CopySnapshot} {c : CopyRow}
    (h : copyRowFromSnapshot rfc row = some c) : c.name = row.metadata.nameAny := by
  simp only [copyRowFromSnapshot, Option.bind_eq_bind, Option.bind_eq_some_iff] at h
  obtain ⟨status, -, info, -, path, -, h⟩ := h
  cases h
  rfl

theorem mem_listCopyRows {c : CopyRow} : c ∈ listCopyRows rfc r rows ↔
    ∃ row ∈ rows, row.isCopyOf r = true ∧ copyRowFromSnapshot rfc row = some c := by
  simp [listCopyRows, and_assoc]

theorem names_listCopyRows (h : Distinct rows) :
    ((listCopyRows rfc r rows).map CopyRow.name).Nodup := by
  refine h.sublist ((map_filterMap_sublist _ fun _ _ _ hc => name_of_copyRow hc).trans ?_)
  exact List.filter_sublist.map _

theorem listCopyRows_filter (names : List String) :
    listCopyRows rfc r (rows.filter fun row => row.metadata.nameAny ∉ names) =
      (listCopyRows rfc r rows).filter fun c => c.name ∉ names := by
  have hswap : (rows.filter fun row => row.metadata.nameAny ∉ names).filter
      (CopySnapshot.isCopyOf r) =
        (rows.filter (CopySnapshot.isCopyOf r)).filter fun row => row.metadata.nameAny ∉ names := by
    simp only [List.filter_filter, Bool.and_comm]
  rw [listCopyRows, listCopyRows, hswap]
  generalize rows.filter (CopySnapshot.isCopyOf r) = copies
  induction copies with
  | nil => rfl
  | cons row rest ih =>
    cases hc : copyRowFromSnapshot rfc row with
    | none => by_cases hn : row.metadata.nameAny ∈ names <;> simpa [hc, hn] using ih
    | some c =>
      have hname := name_of_copyRow hc
      by_cases hn : row.metadata.nameAny ∈ names <;> simpa [hc, hn, hname] using ih

theorem not_discovered_of_isCopyOf {row : CopySnapshot} (h : row.isCopyOf r = true) :
    row.discovered = false := by
  simp only [CopySnapshot.isCopyOf, Bool.and_eq_true, beq_iff_eq] at h
  simp only [CopySnapshot.discovered, h.1.2]
  rfl

variable {k : KopiaMigrate} {op : ReplicateOp} {d : Destination} {result : RunResult}

def runItems (k : KopiaMigrate) (op : ReplicateOp) (source : List SnapshotListEntry)
    (d : Destination) : List CopyCorrespondence :=
  correspondenceSet source (selectIdentities op.incl op.excl source) (migrated k op source d)

def runRows (rfc : Rfc3339) (k : KopiaMigrate) (op : ReplicateOp) (source : List SnapshotListEntry)
    (d : Destination) : List CopySnapshot :=
  reconciledRows rfc op.repl d.rows (runItems k op source d)

def runPruned (rfc : Rfc3339) (k : KopiaMigrate) (op : ReplicateOp)
    (source : List SnapshotListEntry) (d : Destination) : List String :=
  pruneNames op.pruning (listCopyRows rfc op.repl (runRows rfc k op source d)) (allKeys source)

def runCopied (k : KopiaMigrate) (op : ReplicateOp) (source : List SnapshotListEntry)
    (d : Destination) : Finset SnapKey :=
  destKeys (migrated k op source d) (selectIdentities op.incl op.excl source) \
    destKeys d.manifests (selectIdentities op.incl op.excl source)

/-- What the deletions of a run leave. -/
def runAfter (rfc : Rfc3339) (k : KopiaMigrate) (op : ReplicateOp)
    (source : List SnapshotListEntry) (d : Destination) : Destination where
  manifests := without (migrated k op source d)
    (prunedIds (runRows rfc k op source d) (runPruned rfc k op source d))
  rows := (runRows rfc k op source d).filter fun row =>
    row.metadata.nameAny ∉ runPruned rfc k op source d

theorem completeRun_of_empty (hsel : selectIdentities op.incl op.excl source = ∅) :
    completeRun rfc k op source d = some { after := d } :=
  if_pos hsel

theorem completeRun_of_selected (hsel : selectIdentities op.incl op.excl source ≠ ∅) :
    completeRun rfc k op source d = if missingAfterMigrate source
        (selectIdentities op.incl op.excl source) (migrated k op source d) op.latestOnly ≠ ∅
      then none
      else some
        { copied := runCopied k op source d
          pruned := runPruned rfc k op source d
          after := runAfter rfc k op source d } :=
  if_neg hsel

theorem runCopied_eq_empty
    (h : ∀ key ∈ expectedKeys source (selectIdentities op.incl op.excl source) op.latestOnly,
      key ∈ destKeys d.manifests (selectIdentities op.incl op.excl source)) :
    runCopied k op source d = ∅ := by
  refine Finset.sdiff_eq_empty_iff_subset.mpr fun key hkey => ?_
  obtain ⟨e, he, hcomplete, hsel, rfl⟩ := mem_destKeys.mp hkey
  by_cases hold : e ∈ d.manifests
  · exact mem_destKeys.mpr ⟨e, hold, hcomplete, hsel, rfl⟩
  · obtain ⟨-, hsource, hlatest⟩ := k.copies _ _ _ _ e he hold hcomplete
    refine h _ (mem_expectedKeys.mpr ⟨?_, fun hl key' hkey' hid => ?_⟩)
    · obtain ⟨e', he', hcomplete', heq⟩ := mem_allKeys.mp hsource
      refine mem_destKeys.mpr ⟨e', he', hcomplete', ?_, heq⟩
      rwa [show entryTriple e' = entryTriple e from congrArg Prod.fst heq]
    · obtain ⟨e', he', hcomplete', -, rfl⟩ := mem_destKeys.mp hkey'
      exact hlatest hl _ (mem_allKeys.mpr ⟨e', he', hcomplete', rfl⟩) hid

theorem missing_eq_empty
    (h : ∀ key ∈ expectedKeys source (selectIdentities op.incl op.excl source) op.latestOnly,
      key ∈ destKeys d.manifests (selectIdentities op.incl op.excl source)) :
    missingAfterMigrate source (selectIdentities op.incl op.excl source) (migrated k op source d)
      op.latestOnly = ∅ := by
  refine missingAfterMigrate_eq_empty.mpr fun key hkey => ?_
  obtain ⟨e, he, hcomplete, hsel, rfl⟩ := mem_destKeys.mp (h key hkey)
  exact mem_destKeys.mpr ⟨e, k.keeps _ _ _ _ e he, hcomplete, hsel, rfl⟩

section Settled

variable (hown : NamesOwn op.repl d.rows (runItems k op source d))
  (hdesc : Described rfc op.repl (migrated k op source d) d.rows)
include hown hdesc

theorem described_runRows :
    Described rfc op.repl (migrated k op source d) (runRows rfc k op source d) :=
  hdesc.reconciled hown fun _ hp => (mem_correspondenceSet.mp hp).1

theorem mem_prunedIds {row : CopySnapshot} {id : String}
    (hrow : row ∈ runRows rfc k op source d)
    (hname : row.metadata.nameAny ∈ runPruned rfc k op source d)
    (hlisted : row.listedAs op.repl id = true) :
    id ∈ prunedIds (runRows rfc k op source d) (runPruned rfc k op source d) := by
  have hdistinct : Distinct (runRows rfc k op source d) := hown.distinct_reconciledRows
  obtain ⟨c, hc, hcname⟩ := exists_of_mem_pruneNames (names_listCopyRows hdistinct) hname
  obtain ⟨row', hrow', hcopy, hc⟩ := mem_listCopyRows.mp hc
  obtain rfl : row' = row := List.inj_on_of_nodup_map hdistinct hrow' hrow
    ((name_of_copyRow hc).symm.trans hcname)
  refine List.mem_filterMap.mpr ⟨row', List.mem_filter.mpr ⟨hrow', by simpa using hname⟩, ?_⟩
  exact (described_runRows hown hdesc).labelled row' hrow' hcopy id hlisted c hc

theorem taken_after (hnone : runCopied k op source (runAfter rfc k op source d) = ∅)
    {p : CopyCorrespondence} (hp : p ∈ runItems k op source (runAfter rfc k op source d)) :
    taken op.repl (runAfter rfc k op source d).rows p = true := by
  obtain ⟨he, hcomplete, hsel, hsource⟩ := mem_correspondenceSet.mp hp
  have hold : p.destEntry ∈ (runAfter rfc k op source d).manifests := by
    by_contra hnew
    obtain ⟨habsent, -, -⟩ := k.copies _ _ _ _ p.destEntry he hnew hcomplete
    have hkey := Finset.sdiff_eq_empty_iff_subset.mp hnone
      (mem_destKeys.mpr ⟨p.destEntry, he, hcomplete, hsel, rfl⟩)
    obtain ⟨e, he, hcomplete, -, heq⟩ := mem_destKeys.mp hkey
    exact habsent (mem_allKeys.mpr ⟨e, he, hcomplete, heq⟩)
  obtain ⟨he, hkept⟩ := mem_without.mp hold
  obtain ⟨row, hrow, hlisted, hdisc⟩ : ∃ row ∈ runRows rfc k op source d,
      row.listedAs op.repl p.destEntry.id = true ∧ row.discovered = false :=
    hown.standing (mem_correspondenceSet.mpr ⟨he, hcomplete, hsel, hsource⟩)
  have hname : row.metadata.nameAny ∉ runPruned rfc k op source d := fun hname =>
    hkept (mem_prunedIds hown hdesc hrow hname hlisted)
  refine List.any_eq_true.mpr ⟨row, List.mem_filter.mpr ⟨?_, hlisted⟩, by simp [hdisc]⟩
  exact List.mem_filter.mpr ⟨hrow, by simpa using hname⟩

theorem runPruned_after (hnone : runCopied k op source (runAfter rfc k op source d) = ∅) :
    runPruned rfc k op source (runAfter rfc k op source d) = [] := by
  have hdistinct : Distinct (runRows rfc k op source d) := hown.distinct_reconciledRows
  have hdistinct' : Distinct (runAfter rfc k op source d).rows :=
    hdistinct.sublist (List.filter_sublist.map _)
  have hrows : runRows rfc k op source (runAfter rfc k op source d) =
      (runAfter rfc k op source d).rows.filter fun row =>
        ∀ p ∈ runItems k op source (runAfter rfc k op source d),
          row.metadata.nameAny ∉ dupNames op.repl (runAfter rfc k op source d).rows p :=
    reconciledRows_taken fun p hp => taken_after hown hdesc hnone hp
  have hcopies : listCopyRows rfc op.repl (runRows rfc k op source (runAfter rfc k op source d)) =
      listCopyRows rfc op.repl (runAfter rfc k op source d).rows := by
    rw [hrows, listCopyRows, listCopyRows, List.filter_filter]
    congr 1
    refine List.filter_congr fun row hrow => ?_
    -- A copy's object is never among the discovered duplicates.
    have hkept : row.isCopyOf op.repl = true →
        ∀ p ∈ runItems k op source (runAfter rfc k op source d),
          row.metadata.nameAny ∉ dupNames op.repl (runAfter rfc k op source d).rows p := by
      intro hcopy p _ hdup
      obtain ⟨row', hrow', -, hdisc, hname⟩ := mem_dupNames.mp hdup
      obtain rfl : row' = row := List.inj_on_of_nodup_map hdistinct' hrow' hrow hname
      rw [not_discovered_of_isCopyOf hcopy] at hdisc
      cases hdisc
    cases hcopy : row.isCopyOf op.repl with
    | false => rfl
    | true => simpa using hkept hcopy
  have hleft : listCopyRows rfc op.repl (runAfter rfc k op source d).rows =
      (listCopyRows rfc op.repl (runRows rfc k op source d)).filter fun c =>
        c.name ∉ runPruned rfc k op source d := listCopyRows_filter _
  rw [runPruned, hcopies, hleft]
  exact pruneNames_again op.pruning (names_listCopyRows hdistinct)

theorem expected_after (hmode : ∀ keep, op.pruning ≠ .retention keep)
    (hmissing : missingAfterMigrate source (selectIdentities op.incl op.excl source)
      (migrated k op source d) op.latestOnly = ∅) :
    ∀ key ∈ expectedKeys source (selectIdentities op.incl op.excl source) op.latestOnly,
      key ∈ destKeys (runAfter rfc k op source d).manifests
        (selectIdentities op.incl op.excl source) := by
  intro key hkey
  obtain ⟨e, he, hcomplete, hsel, rfl⟩ :=
    mem_destKeys.mp (missingAfterMigrate_eq_empty.mp hmissing key hkey)
  refine mem_destKeys.mpr ⟨e, mem_without.mpr ⟨he, fun hid => ?_⟩, hcomplete, hsel, rfl⟩
  obtain ⟨row, hrow, hkopia⟩ := List.mem_filterMap.mp hid
  obtain ⟨hrow, hname⟩ := List.mem_filter.mp hrow
  rw [decide_eq_true_eq] at hname
  have hdistinct : Distinct (runRows rfc k op source d) := hown.distinct_reconciledRows
  cases hpruning : op.pruning with
  | none =>
    rw [runPruned, hpruning] at hname
    cases hname
  | retention keep => exact hmode keep hpruning
  | mirrorSource =>
    rw [runPruned, hpruning, pruneNames, mem_mirrorPruneNames] at hname
    obtain ⟨c, hc, -, hcname, start, hstart, habsent⟩ := hname
    obtain ⟨row', hrow', hcopy, hc⟩ := mem_listCopyRows.mp hc
    obtain rfl : row' = row := List.inj_on_of_nodup_map hdistinct hrow' hrow
      ((name_of_copyRow hc).symm.trans hcname)
    refine absurd ?_ habsent
    rw [← (described_runRows hown hdesc).keyed row' hrow' hcopy c hc start hstart e he hkopia]
    obtain ⟨e', he', hcomplete', -, heq⟩ := mem_destKeys.mp (mem_expectedKeys.mp hkey).1
    exact mem_allKeys.mpr ⟨e', he', hcomplete', heq⟩

end Settled

theorem completeRun_idle
    (hexpected : ∀ key ∈ expectedKeys source (selectIdentities op.incl op.excl source)
      op.latestOnly, key ∈ destKeys d.manifests (selectIdentities op.incl op.excl source))
    (hpruned : runCopied k op source d = ∅ → runPruned rfc k op source d = []) :
    ∃ next, completeRun rfc k op source d = some next ∧ next.copied = ∅ ∧ next.pruned = [] := by
  by_cases hsel : selectIdentities op.incl op.excl source = ∅
  · exact ⟨_, completeRun_of_empty hsel, rfl, rfl⟩
  · have hcopied : runCopied k op source d = ∅ := runCopied_eq_empty hexpected
    rw [completeRun_of_selected hsel, if_neg (not_not.mpr (missing_eq_empty hexpected))]
    exact ⟨_, rfl, hcopied, hpruned hcopied⟩

theorem expected_of_copied_empty {next : RunResult}
    (hrun : completeRun rfc k op source d = some next) (hcopied : next.copied = ∅) :
    ∀ key ∈ expectedKeys source (selectIdentities op.incl op.excl source) op.latestOnly,
      key ∈ destKeys d.manifests (selectIdentities op.incl op.excl source) := by
  intro key hkey
  by_cases hsel : selectIdentities op.incl op.excl source = ∅
  · obtain ⟨e, -, -, htriple, -⟩ := mem_destKeys.mp (mem_expectedKeys.mp hkey).1
    rw [hsel] at htriple
    cases htriple
  · rw [completeRun_of_selected hsel] at hrun
    split at hrun
    · cases hrun
    · next hmissing =>
      cases hrun
      have harrived := missingAfterMigrate_eq_empty.mp (not_not.mp hmissing) key hkey
      exact Finset.sdiff_eq_empty_iff_subset.mp hcopied harrived

end TwoRuns

/-- After one complete run the next one copies and prunes nothing if pruning
mirrors the source or is off, and under retention exactly if no snapshot that is
to be copied has left the destination. Mirroring spares what the source has,
pinned rows are never selected, and the check after the migrate finds nothing
missing exactly if every expected snapshot is there. -/
theorem replication_runs_settle (rfc : Rfc3339) (k : KopiaMigrate) (op : ReplicateOp)
    (source : List SnapshotListEntry) (d : Destination)
    (hown : NamesOwn op.repl d.rows (runItems k op source d))
    (hdesc : Described rfc op.repl (migrated k op source d) d.rows) (first : RunResult)
    (hrun : completeRun rfc k op source d = some first) :
    ((∀ keep, op.pruning ≠ .retention keep) →
      ∃ next, completeRun rfc k op source first.after = some next ∧ next.copied = ∅ ∧
        next.pruned = []) ∧
    ((∃ next, completeRun rfc k op source first.after = some next ∧ next.copied = ∅ ∧
        next.pruned = []) ↔
      ∀ key ∈ expectedKeys source (selectIdentities op.incl op.excl source) op.latestOnly,
        key ∈ destKeys first.after.manifests (selectIdentities op.incl op.excl source)) ∧
    (∀ rows : List CopyRow, (rows.map CopyRow.name).Nodup → ∀ row ∈ rows,
      (∀ start, row.startTime = some start →
        (row.identity, start) ∈ destKeys source (selectIdentities op.incl op.excl source) →
          row.name ∉ mirrorPruneNames rows (allKeys source)) ∧
      (row.pinned = true → ∀ pruning sourceKeys, row.name ∉ pruneNames pruning rows sourceKeys)) ∧
    (∀ destAfter, missingAfterMigrate source (selectIdentities op.incl op.excl source) destAfter
        op.latestOnly = ∅ ↔
      ∀ e ∈ source, e.complete = true → entryTriple e ∈ selectIdentities op.incl op.excl source →
        (op.latestOnly = true → ∀ e' ∈ source, e'.complete = true →
          entryTriple e' = entryTriple e → e'.startTime ≤ e.startTime) →
        ∃ copy ∈ destAfter, copy.complete = true ∧ entryKey copy = entryKey e) := by
  refine ⟨?_, ⟨?_, ?_⟩, ?_, ?_⟩
  · intro hmode
    by_cases hsel : selectIdentities op.incl op.excl source = ∅
    · exact ⟨_, completeRun_of_empty hsel, rfl, rfl⟩
    · rw [completeRun_of_selected hsel] at hrun
      split at hrun
      · cases hrun
      · next hmissing =>
        cases hrun
        exact completeRun_idle (expected_after hown hdesc hmode (not_not.mp hmissing))
          (runPruned_after hown hdesc)
  · rintro ⟨next, hnext, hcopied, -⟩
    exact expected_of_copied_empty hnext hcopied
  · intro hexpected
    by_cases hsel : selectIdentities op.incl op.excl source = ∅
    · exact ⟨_, completeRun_of_empty hsel, rfl, rfl⟩
    · rw [completeRun_of_selected hsel] at hrun
      split at hrun
      · cases hrun
      · cases hrun
        exact completeRun_idle hexpected (runPruned_after hown hdesc)
  · intro rows hnames row hrow
    refine ⟨fun start hstart hkey hname => ?_, fun hpin pruning sourceKeys =>
      pinned_not_mem_pruneNames hnames hrow hpin⟩
    obtain ⟨row', hrow', -, hname, start', hstart', habsent⟩ := mem_mirrorPruneNames.mp hname
    obtain rfl : row' = row := List.inj_on_of_nodup_map hnames hrow' hrow hname
    obtain ⟨e, he, hcomplete, -, heq⟩ := mem_destKeys.mp hkey
    rw [hstart, Option.some.injEq] at hstart'
    subst hstart'
    exact habsent (mem_allKeys.mpr ⟨e, he, hcomplete, heq⟩)
  · intro destAfter
    rw [missingAfterMigrate_eq_empty]
    constructor
    · intro h e he hcomplete hsel hnewest
      have hexpected := h (entryKey e) (mem_expectedKeys.mpr
        ⟨mem_destKeys.mpr ⟨e, he, hcomplete, hsel, rfl⟩, fun hl key hkey hid => by
          obtain ⟨e', he', hcomplete', -, rfl⟩ := mem_destKeys.mp hkey
          exact hnewest hl e' he' hcomplete' hid⟩)
      obtain ⟨copy, hcopy, hdone, -, heq⟩ := mem_destKeys.mp hexpected
      exact ⟨copy, hcopy, hdone, heq⟩
    · intro h key hkey
      obtain ⟨hsource, hnewest⟩ := mem_expectedKeys.mp hkey
      obtain ⟨e, he, hcomplete, hsel, rfl⟩ := mem_destKeys.mp hsource
      obtain ⟨copy, hcopy, hdone, heq⟩ := h e he hcomplete hsel fun hl e' he' hcomplete' hid =>
        hnewest hl (entryKey e') (mem_destKeys.mpr
          ⟨e', he', hcomplete', (congrArg (· ∈ _) hid).mpr hsel, rfl⟩) hid
      refine mem_destKeys.mpr ⟨copy, hcopy, hdone, ?_, heq⟩
      rwa [show entryTriple copy = entryTriple e from congrArg Prod.fst heq]

/-- The writer of the two days the examples use. -/
def twoDays : Rfc3339 where
  parse text :=
    if text = "1970-01-01T00:00:00+00:00" then some 0
    else if text = "1970-01-02T00:00:00+00:00" then some 86400
    else none
  render t := if t = 0 then "1970-01-01T00:00:00+00:00" else "1970-01-02T00:00:00+00:00"

def MigrateSources.covers : MigrateSources → IdentityTriple → Bool
  | .all, _ => true
  | .list specs, t => specs.contains (tripleSpec t)

/-- A migrate that appends the copies in the order of the source. -/
def copyLacking : KopiaMigrate where
  run source sources latestOnly dest := dest ++ ((completeOnly source).filter fun e =>
    entryKey e ∉ allKeys dest ∧ sources.covers (entryTriple e) = true ∧
      (latestOnly = true → ∀ key ∈ allKeys source, key.1 = entryTriple e → key.2 ≤ e.startTime)).map
        fun e => { e with id := "copy-" ++ e.id }
  keeps source sources latestOnly dest e he := List.mem_append_left _ he
  copies source sources latestOnly dest e he hnew hcomplete := by
    rcases List.mem_append.mp he with he | he
    · exact absurd he hnew
    · obtain ⟨original, horiginal, rfl⟩ := List.mem_map.mp he
      obtain ⟨hmem, hlacking⟩ := List.mem_filter.mp horiginal
      rw [decide_eq_true_eq] at hlacking
      refine ⟨hlacking.1, mem_allKeys.mpr ⟨original, ?_, ?_, rfl⟩, hlacking.2.2⟩
      · exact (List.mem_filter.mp hmem).1
      · exact (List.mem_filter.mp hmem).2

def keepOne : Retention where
  keepLatest := some 1
  keepHourly := none
  keepDaily := none
  keepWeekly := none
  keepMonthly := none
  keepAnnual := none

def dayManifest (id : String) (day : DateTime) : SnapshotListEntry :=
  { epochManifest id with startTime := day, endTime := day }

/-- Mirror pruning keeps both days and the second run is idle. -/
theorem replication_runs_settle_mirrored :
    ∃ first, completeRun twoDays copyLacking { repl := offsiteCopy, pruning := .mirrorSource }
        [dayManifest "s1" 0, dayManifest "s2" 86400] ⟨[], []⟩ = some first ∧
      first.copied ≠ ∅ ∧
      ∃ next, completeRun twoDays copyLacking { repl := offsiteCopy, pruning := .mirrorSource }
        [dayManifest "s1" 0, dayManifest "s2" 86400] first.after = some next ∧
          next.copied = ∅ ∧ next.pruned = [] := by
  have hfirst : (completeRun twoDays copyLacking { repl := offsiteCopy, pruning := .mirrorSource }
      [dayManifest "s1" 0, dayManifest "s2" 86400] ⟨[], []⟩).any fun first =>
        first.copied ≠ ∅ := by
    decide
  simp only [Option.any_eq_true, decide_eq_true_eq] at hfirst
  obtain ⟨first, hrun, hcopied⟩ := hfirst
  refine ⟨first, hrun, hcopied, (replication_runs_settle twoDays copyLacking _ _ _
    ⟨by simp [Distinct], by decide, by simp⟩
    ⟨by decide, by decide, by simp, by simp⟩ first hrun).1 (by simp)⟩

/-- Retention with room for one of two days: every run copies the older one and
deletes it again. -/
theorem replication_recopies_what_retention_drops :
    (completeRun twoDays copyLacking
      { repl := offsiteCopy, pruning := .retention keepOne }
      [dayManifest "s1" 0, dayManifest "s2" 86400] ⟨[], []⟩).any fun first =>
        (completeRun twoDays copyLacking
          { repl := offsiteCopy, pruning := .retention keepOne }
          [dayManifest "s1" 0, dayManifest "s2" 86400] first.after).any fun next =>
            next.copied ≠ ∅ ∧ next.pruned ≠ [] ∧ next.after = first.after := by
  decide +kernel

end Kopiur
