import Kopiur.Controller.Catalog
import Mathlib.Data.List.Perm.Subperm

/-!
# Capped scans and the rows they leave

A scan whose listing was cut short must not expire the row of a snapshot that
is still in the repository and within `retain`. The window holds the newest
entries of every identity, so the rows outside it come after; they share the
slots that are left, together with any row that the digest mistakes for a
listed one.
-/

namespace Kopiur

open Lib

attribute [local instance] timePreorder

-- Rows worth keeping

def ScanInputs.counts (s : ScanInputs) (e : SnapshotListEntry) : Bool :=
  s.eligible e && decide (e.id ∉ s.rowForeignIgnoredIds)

theorem counts_iff {s : ScanInputs} {e : SnapshotListEntry} :
    s.counts e = true ↔ e.id ∉ s.producedIds ∧ e.id ∉ s.foreignIgnoredIds ∧
      e.id ∉ s.rowForeignIgnoredIds ∧ s.bounds.withinAge e.endTime = true := by
  simp only [ScanInputs.counts, ScanInputs.eligible, eligibleEntry, Bool.and_eq_true,
    decide_eq_true_eq]
  tauto

theorem admits_iff {s : ScanInputs} {coverage : ListingCoverage} {r : CatalogRow} :
    (s.rowFilter coverage).admits r = true ↔
      r.snapshotId ∉ s.producedIds ∧ r.snapshotId ∉ s.foreignIgnoredIds ∧
        r.snapshotId ∉ s.rowForeignIgnoredIds ∧ r.endTime.all s.bounds.withinAge = true ∧
        presenceUnrefuted coverage r.snapshotId = true := by
  change (decide (r.snapshotId ∉ s.producedIds) && decide (r.snapshotId ∉ s.foreignIgnoredIds) &&
    decide (r.snapshotId ∉ s.rowForeignIgnoredIds) && r.endTime.all s.bounds.withinAge &&
    presenceUnrefuted coverage r.snapshotId) = true ↔ _
  simp only [Bool.and_eq_true, decide_eq_true_eq, and_assoc]

theorem newer_asymm {a b : SnapshotListEntry} (h : Newer a b) : ¬ Newer b a := by
  rintro (hlt | ⟨heq, hlt⟩)
  · rcases h with h | ⟨h, -⟩
    · exact lt_asymm h hlt
    · exact hlt.ne h
  · rcases h with h | ⟨-, h⟩
    · exact h.ne heq
    · exact lt_asymm h hlt

def rankedBefore (s : ScanInputs) (listing : List SnapshotListEntry) (e : SnapshotListEntry) :
    List SnapshotListEntry :=
  listing.filter fun e' => s.counts e' && decide (e'.source = e.source) && decide (Newer e' e)

/-- Among the `perIdentity` newest of its identity. -/
structure WithinRetain (s : ScanInputs) (listing : List SnapshotListEntry) (e : SnapshotListEntry) :
    Prop where
  mem : e ∈ listing
  counts : s.counts e = true
  ranked : ∀ n, s.bounds.perIdentity = some n → (rankedBefore s listing e).length < n

/-- A listing cut in two: what is shipped, and what comes after. -/
structure Split (shipped rest : List SnapshotListEntry) : Prop where
  newest : (shipped ++ rest).Pairwise fun a b => a.source = b.source → Newer a b
  ids : ((shipped ++ rest).map SnapshotListEntry.id).Nodup
  keys : ∀ a ∈ shipped ++ rest, ∀ b ∈ shipped ++ rest,
    identityKey a.source = identityKey b.source → a.source = b.source

section Split

variable {s : ScanInputs} {shipped rest : List SnapshotListEntry} {e : SnapshotListEntry}
  (split : Split shipped rest)
  (foreign : ∀ id ∈ s.rowForeignIgnoredIds, id ∉ shipped.map SnapshotListEntry.id)

include split foreign

theorem slotEntries_shipped (he : e ∈ shipped ++ rest) :
    slotEntries s shipped (identityKey e.source) =
      shipped.filter fun e' => s.counts e' && decide (e'.source = e.source) := by
  rw [slotEntries, List.filter_filter]
  refine List.filter_congr fun e' he' => ?_
  have hkey : identityKey e'.source = identityKey e.source ↔ e'.source = e.source :=
    ⟨split.keys e' (List.mem_append_left _ he') e he, congrArg identityKey⟩
  have hforeign : e'.id ∉ s.rowForeignIgnoredIds :=
    fun h => foreign _ h (List.mem_map_of_mem he')
  simp [ScanInputs.counts, hkey, hforeign, Bool.and_comm]

theorem window_keeps (he : e ∈ shipped) (hretain : WithinRetain s (shipped ++ rest) e) :
    e ∈ (s.window shipped).flatMap Prod.snd := by
  have hslot := slotEntries_shipped split foreign (List.mem_append_left rest he)
  have hmem : e ∈ slotEntries s shipped (identityKey e.source) := by
    rw [hslot]
    exact List.mem_filter.mpr ⟨he, by simp [hretain.counts]⟩
  have hnewer : (slotEntries s shipped (identityKey e.source)).Pairwise Newer := by
    have hshipped := (List.pairwise_append.mp split.newest).1
    rw [hslot]
    refine (hshipped.sublist List.filter_sublist).imp_of_mem fun ha hb h => h ?_
    have ha := (List.mem_filter.mp ha).2
    have hb := (List.mem_filter.mp hb).2
    simp only [Bool.and_eq_true, decide_eq_true_eq] at ha hb
    exact ha.2.trans hb.2.symm
  have hsorted : (slotEntries s shipped (identityKey e.source)).Pairwise EndsNoEarlier :=
    hnewer.imp fun h => h.elim le_of_lt fun h => h.1.ge
  rw [mem_window_entries, hsorted.insertionSort_eq]
  cases hn : s.bounds.perIdentity with
  | none => simpa using hmem
  | some n =>
    refine mem_take_of_few_before hnewer hmem (p := fun e' => decide (Newer e' e)) (by simp) ?_
    refine lt_of_le_of_lt (List.Sublist.length_le ?_) (hretain.ranked n hn)
    rw [hslot, List.filter_filter, rankedBefore, List.filter_append]
    refine List.Sublist.trans ?_ (List.sublist_append_left _ _)
    rw [List.filter_congr fun e' _ => Bool.and_comm _ _]

theorem rankedBefore_rest (he : e ∈ rest) :
    (rankedBefore s (shipped ++ rest) e).length =
      (slotEntries s shipped (identityKey e.source)).length + (rankedBefore s rest e).length := by
  rw [slotEntries_shipped split foreign (List.mem_append_right _ he), rankedBefore,
    List.filter_append, List.length_append, rankedBefore]
  congr 2
  refine List.filter_congr fun e' he' => ?_
  have hnewer := (List.pairwise_append.mp split.newest).2.2 e' he' e he
  by_cases hsource : e'.source = e.source
  · simp [hsource, hnewer hsource]
  · simp [hsource]

omit foreign

def Recorded (listing : List SnapshotListEntry) (rows : List CatalogRow) : Prop :=
  ∀ r ∈ rows, ∀ e ∈ listing, e.id = r.snapshotId →
    r.endTime = some e.endTime ∧ r.identity = some (identityKey e.source)

variable {rows : List CatalogRow} {coverage : ListingCoverage}
  (recorded : Recorded (shipped ++ rest) rows)

include recorded

/-- The row of a snapshot that was not shipped is a candidate, unless the
coverage proves it gone. -/
theorem candidate_of_unshipped {r : CatalogRow} (hr : r ∈ rows) (he : e ∈ rest)
    (hid : e.id = r.snapshotId) (hcounts : s.counts e = true)
    (hpresent : presenceUnrefuted coverage e.id = true) :
    ∃ c ∈ outOfWindowCandidates rows (shipped.map SnapshotListEntry.id) (s.rowFilter coverage),
      c.snapshotId = e.id ∧ c.endTime = some e.endTime ∧
        c.identity = some (identityKey e.source) := by
  have hunlisted : r.snapshotId ∉ shipped.map SnapshotListEntry.id := by
    intro hmem
    have hdisjoint := (List.pairwise_append.mp (List.map_append ▸ split.ids)).2.2
    exact hdisjoint _ hmem _ (List.mem_map_of_mem he) hid.symm
  obtain ⟨c, hc, hcid⟩ := candidate_of_row (f := s.rowFilter coverage) hr hunlisted (by
    intro r' hr' hid'
    have hend := (recorded r' hr' e (List.mem_append_right _ he) (hid.trans hid'.symm)).1
    obtain ⟨hproduced, hforeign, hrowForeign, hage⟩ := counts_iff.mp hcounts
    rw [admits_iff, hid', ← hid, hend]
    exact ⟨hproduced, hforeign, hrowForeign, hage, hpresent⟩)
  have hcid : c.snapshotId = e.id := hcid.trans hid.symm
  exact ⟨c, hc, hcid, recorded c (candidate_sound hc).1 e (List.mem_append_right _ he) hcid.symm⟩

omit split in
theorem candidate_unshipped {present : DecodedDigest}
    (hexact : ∀ r ∈ rows, r.snapshotId ∉ (shipped ++ rest).map SnapshotListEntry.id →
      present.contains r.snapshotId = false) {c : CatalogRow}
    (hc : c ∈ outOfWindowCandidates rows (shipped.map SnapshotListEntry.id)
      (s.rowFilter (.capped present))) :
    ∃ e' ∈ rest, e'.id = c.snapshotId ∧ s.counts e' = true ∧ c.endTime = some e'.endTime ∧
      c.identity = some (identityKey e'.source) := by
  obtain ⟨hrow, hunlisted, hadmits⟩ := candidate_sound hc
  obtain ⟨hproduced, hforeign, hrowForeign, hage, hpresent⟩ := admits_iff.mp hadmits
  have hmem : c.snapshotId ∈ (shipped ++ rest).map SnapshotListEntry.id := by
    by_contra hgone
    exact Bool.false_ne_true ((hexact c hrow hgone).symm.trans hpresent)
  obtain ⟨e', he', hid⟩ := List.mem_map.mp hmem
  have hrest : e' ∈ rest := (List.mem_append.mp he').resolve_left
    fun h => hunlisted (hid ▸ List.mem_map_of_mem h)
  obtain ⟨hend, hidentity⟩ := recorded c hrow e' he' hid
  refine ⟨e', hrest, hid, counts_iff.mpr ?_, hend, hidentity⟩
  rw [hid]
  exact ⟨hproduced, hforeign, hrowForeign, by simpa [hend] using hage⟩

omit split recorded in
theorem rankedRows_pairwise {listed : List String} {f : RowFilter} (identity : Option String) :
    (rankedRows (outOfWindowCandidates rows listed f) identity).Pairwise
      fun a b => RowBefore a b ∧ a.snapshotId ≠ b.snapshotId := by
  have hperm := (List.perm_insertionSort RowBefore ((outOfWindowCandidates rows listed f).filter
    fun r => r.identity = identity)).map CatalogRow.snapshotId
  have hnodup := hperm.nodup_iff.mpr (candidates_nodup.sublist (List.filter_sublist.map _))
  exact (List.pairwise_insertionSort _ _).and (List.pairwise_map.mp hnodup)

theorem rankedRows_before {present : DecodedDigest}
    (hexact : ∀ r ∈ rows, r.snapshotId ∉ (shipped ++ rest).map SnapshotListEntry.id →
      present.contains r.snapshotId = false) (he : e ∈ rest) :
    ((rankedRows (outOfWindowCandidates rows (shipped.map SnapshotListEntry.id)
      (s.rowFilter (.capped present))) (some (identityKey e.source))).filter fun b =>
        decide (endRank e.endTime < endRank b.endTime ∨
          (endRank b.endTime = endRank e.endTime ∧ b.snapshotId < e.id))).length ≤
      (rankedBefore s rest e).length := by
  have hids : ((rankedBefore s rest e).map SnapshotListEntry.id).length =
      (rankedBefore s rest e).length := List.length_map _
  rw [← List.length_map CatalogRow.snapshotId, ← hids]
  refine (List.Nodup.subperm ?_ fun id hid => ?_).length_le
  · refine List.Nodup.sublist (List.filter_sublist.map _) ?_
    exact List.pairwise_map.mpr ((rankedRows_pairwise _).imp And.right)
  · obtain ⟨b, hb, rfl⟩ := List.mem_map.mp hid
    obtain ⟨hb, hbefore⟩ := List.mem_filter.mp hb
    obtain ⟨hb, hidentity⟩ := List.mem_filter.mp ((List.mem_insertionSort _).mp hb)
    obtain ⟨e', he', hid, hcounts, hend, hkey⟩ := candidate_unshipped recorded hexact hb
    simp only [decide_eq_true_eq, hkey, Option.some.injEq] at hidentity
    have hsource := split.keys e' (List.mem_append_right _ he') e (List.mem_append_right _ he)
      hidentity
    refine List.mem_map.mpr ⟨e', List.mem_filter.mpr ⟨he', ?_⟩, hid⟩
    have hnewer : Newer e' e := by
      rw [decide_eq_true_eq, hend, endRank_lt, endRank_inj, ← hid] at hbefore
      exact hbefore
    simp [hcounts, hsource, hnewer]

include foreign

theorem rows_keep {r : CatalogRow} (hr : r ∈ rows) (he : e ∈ rest) (hid : e.id = r.snapshotId)
    (hretain : WithinRetain s (shipped ++ rest) e)
    (hpresent : presenceUnrefuted coverage e.id = true)
    (hexact : ∀ present, coverage = .capped present → ∀ r ∈ rows,
      r.snapshotId ∉ (shipped ++ rest).map SnapshotListEntry.id →
        present.contains r.snapshotId = false) :
    r.snapshotId ∈ keptRows s rows shipped coverage := by
  obtain ⟨c, hc, hcid, hend, hidentity⟩ :=
    candidate_of_unshipped split recorded hr he hid hretain.counts hpresent
  rw [keptRows, mem_fillRowSlots]
  refine ⟨c, hcid.trans hid, ?_⟩
  have hmem : c ∈ rankedRows (outOfWindowCandidates rows (shipped.map SnapshotListEntry.id)
      (s.rowFilter coverage)) c.identity :=
    (List.mem_insertionSort _).mpr (List.mem_filter.mpr ⟨hc, by simp⟩)
  cases hfree : freeSlots (s.window shipped) (rowRankCap coverage s.bounds) c.identity with
  | none => simpa using hmem
  | some free =>
    cases coverage with
    | complete => cases hpresent
    | incomplete reason => simp [hidentity, freeSlots, rowRankCap] at hfree
    | capped present =>
      rw [hidentity, freeSlots, rowRankCap] at hfree
      obtain ⟨n, hn, rfl⟩ := Option.map_eq_some_iff.mp hfree
      have hranked := hretain.ranked n hn
      have hbefore := rankedRows_before (s := s) split recorded (hexact present rfl) he
      rw [rankedBefore_rest split foreign he] at hranked
      rw [hidentity] at hmem ⊢
      rw [Option.getD_some, used_window hn]
      refine mem_take_of_few_before (rankedRows_pairwise _) hmem
        (fun b _ hb => decide_eq_true ?_) (lt_of_le_of_lt hbefore (by omega))
      rw [← hend, ← hcid]
      exact hb.1.imp_right fun h => ⟨h.1, lt_of_le_of_ne h.2 hb.2⟩

end Split

-- A false positive takes a slot

section Displaced

def crowdedInputs (shipped : List SnapshotListEntry) (x : SnapshotListEntry) : ScanInputs where
  retain := some
    { perIdentity := some ((shipped.filter fun e => e.source = x.source).length + 1) }
  now := 0

def rowOf (name id : String) (e : SnapshotListEntry) : CatalogRow where
  namespace_ := "backups"
  name
  snapshotId := id
  endTime := some e.endTime
  identity := some (identityKey e.source)

/-- A row of `x`, and a newer row of the same identity. -/
def crowdedRows (x : SnapshotListEntry) (g : String) : List CatalogRow :=
  [rowOf "live" x.id x, rowOf "gone" g { x with endTime := x.endTime + 1 }]

variable {shipped rest : List SnapshotListEntry} {x : SnapshotListEntry} {g : String}
  {present : DecodedDigest}

theorem crowdedInputs_counts (e : SnapshotListEntry) :
    (crowdedInputs shipped x).counts e = true := by
  rw [counts_iff]
  simp [crowdedInputs, ScanInputs.bounds, RetainBounds.new, RetainBounds.withinAge]

theorem crowdedInputs_perIdentity : (crowdedInputs shipped x).bounds.perIdentity =
    some ((shipped.filter fun e => e.source = x.source).length + 1) := by
  have hpos : (0 : Int) ≤ ((shipped.filter fun e => e.source = x.source).length : Int) + 1 := by
    omega
  simp only [crowdedInputs, ScanInputs.bounds, RetainBounds.new, Option.bind_some, Option.filter,
    decide_eq_true hpos, if_true, Option.map_some]
  rfl

variable (split : Split shipped (x :: rest))

include split

theorem crowded_slotEntries :
    (slotEntries (crowdedInputs shipped x) shipped (identityKey x.source)).length =
      (shipped.filter fun e => e.source = x.source).length := by
  rw [slotEntries_shipped split (by simp [crowdedInputs])
    (List.mem_append_right _ List.mem_cons_self)]
  simp [crowdedInputs_counts]

theorem crowded_withinRetain :
    WithinRetain (crowdedInputs shipped x) (shipped ++ x :: rest) x := by
  refine ⟨List.mem_append_right _ List.mem_cons_self, crowdedInputs_counts x, fun n hn => ?_⟩
  rw [crowdedInputs_perIdentity, Option.some.injEq] at hn
  have hrest : rankedBefore (crowdedInputs shipped x) (x :: rest) x = [] := by
    rw [rankedBefore, List.filter_eq_nil_iff]
    intro e he
    simp only [crowdedInputs_counts, Bool.true_and, Bool.and_eq_true, decide_eq_true_eq, not_and]
    intro hsource hnewer
    rcases List.mem_cons.mp he with rfl | he
    · exact newer_asymm hnewer hnewer
    · have hpairs := (List.pairwise_append.mp split.newest).2.1
      exact newer_asymm hnewer ((List.pairwise_cons.mp hpairs).1 e he hsource.symm)
  rw [rankedBefore_rest split (by simp [crowdedInputs]) List.mem_cons_self, hrest,
    crowded_slotEntries split, ← hn]
  exact Nat.lt_succ_self _

theorem crowded_not_window : x.id ∉
    (((crowdedInputs shipped x).window shipped).flatMap Prod.snd).map SnapshotListEntry.id := by
  intro hmem
  obtain ⟨e, he, hid⟩ := List.mem_map.mp hmem
  rw [mem_window_entries] at he
  have hslot := (List.mem_insertionSort _).mp (List.mem_of_mem_take he)
  have hshipped := (List.mem_filter.mp (List.mem_filter.mp hslot).1).1
  have hdisjoint := (List.pairwise_append.mp (List.map_append ▸ split.ids)).2.2
  exact hdisjoint _ (List.mem_map_of_mem hshipped) _ (List.mem_map_of_mem List.mem_cons_self) hid

theorem crowded_displaced (hg : present.contains g = true)
    (hgone : g ∉ (shipped ++ x :: rest).map SnapshotListEntry.id) :
    x.id ∉ keptRows (crowdedInputs shipped x) (crowdedRows x g) shipped (.capped present) := by
  have hne : x.id ≠ g := fun h => hgone (List.mem_map.mpr ⟨x, by simp, h⟩)
  intro hkept
  rw [keptRows, mem_fillRowSlots] at hkept
  obtain ⟨c, hid, hc⟩ := hkept
  have hslot := (List.mem_filter.mp ((List.mem_insertionSort _).mp (List.mem_of_mem_take hc))).1
  obtain rfl : c = rowOf "live" x.id x := by
    have hrow := (candidate_sound hslot).1
    simp only [crowdedRows, List.mem_cons, List.not_mem_nil, or_false] at hrow
    rcases hrow with rfl | rfl
    · rfl
    · exact absurd hid.symm hne
  -- The row that is gone is a candidate as well, and newer.
  have hfalse : ∃ c' ∈ outOfWindowCandidates (crowdedRows x g) (shipped.map SnapshotListEntry.id)
      ((crowdedInputs shipped x).rowFilter (.capped present)), c'.snapshotId = g := by
    refine candidate_of_row (List.mem_cons_of_mem _ List.mem_cons_self) (fun h => hgone ?_) ?_
    · rw [List.map_append]
      exact List.mem_append_left _ h
    · intro r' _ hid'
      have hwithin : r'.endTime.all (crowdedInputs shipped x).bounds.withinAge = true := by
        cases r'.endTime <;>
          simp [crowdedInputs, ScanInputs.bounds, RetainBounds.new, RetainBounds.withinAge]
      rw [admits_iff, hid']
      exact ⟨List.not_mem_nil, List.not_mem_nil, List.not_mem_nil, hwithin, hg⟩
  obtain ⟨c', hc', hid'⟩ := hfalse
  obtain rfl : c' = rowOf "gone" g { x with endTime := x.endTime + 1 } := by
    have hrow := (candidate_sound hc').1
    simp only [crowdedRows, List.mem_cons, List.not_mem_nil, or_false] at hrow
    rcases hrow with rfl | rfl
    · exact absurd hid' hne
    · rfl
  have hfree : freeSlots ((crowdedInputs shipped x).window shipped)
      (rowRankCap (.capped present) (crowdedInputs shipped x).bounds)
      (rowOf "live" x.id x).identity = some 1 := by
    simp only [rowOf, freeSlots, rowRankCap, crowdedInputs_perIdentity, Option.map_some,
      used_window crowdedInputs_perIdentity, crowded_slotEntries split]
    simp
  rw [hfree, Option.getD_some] at hc
  have hmem : rowOf "gone" g { x with endTime := x.endTime + 1 } ∈
      rankedRows (outOfWindowCandidates (crowdedRows x g) (shipped.map SnapshotListEntry.id)
        ((crowdedInputs shipped x).rowFilter (.capped present))) (rowOf "live" x.id x).identity :=
    (List.mem_insertionSort _).mpr (List.mem_filter.mpr ⟨hc', by simp [rowOf]⟩)
  rcases rel_of_mem_take_one (rankedRows_pairwise _) hc hmem with heq | ⟨hbefore, -⟩
  · exact hne (congrArg CatalogRow.snapshotId heq)
  · simp only [RowBefore, rowOf, endRank_lt, endRank_inj] at hbefore
    rcases hbefore with hlt | ⟨heq, -⟩
    · exact lt_asymm hlt (Int.lt_succ _)
    · exact (Int.lt_succ x.endTime).ne heq

end Displaced

section Coverage

variable (serializedLen : BootstrapResult → Nat) (digestBudget budgetBytes : Nat)
  (listing : List SnapshotListEntry) (cluster : Option String) (cap salt : Nat)

def listedIdsOf : List String := (applyForeignPrefilter listing cluster).1.map SnapshotListEntry.id

/-- The digest as the controller reads it, cut to `width` bytes an id. -/
def digestOf (width : Nat) : DecodedDigest :=
  ⟨salt, width, (cutHashes (listedIdsOf listing cluster) salt width).flatten⟩

theorem mem_windowEntries_ids {id : String} :
    id ∈ (windowEntries listing cluster).map SnapshotListEntry.id ↔
      id ∈ listedIdsOf listing cluster := by
  rw [windowEntries, List.map_map, listedIdsOf]
  exact ((orderForWindow_perm _).map _).mem_iff

theorem digestOf_len {width : Nat} (hwidth : width ∈ digestWidths) :
    (digestOf listing cluster salt width).len = (applyForeignPrefilter listing cluster).1.length := by
  obtain ⟨hpos, hle⟩ := width_bounds hwidth
  rw [DecodedDigest.len, digestOf, length_flatten_of_width fun _ => cutHashes_width hle,
    Nat.mul_div_cancel _ hpos, cutHashes_length, listedIdsOf, List.length_map]

theorem contains_digestOf {width : Nat} (hwidth : width ∈ digestWidths) {id : String}
    (hid : id ∈ listedIdsOf listing cluster) :
    (digestOf listing cluster salt width).contains id = true :=
  (contains_cutHashes hwidth).mpr ⟨id, hid, rfl⟩

theorem verifiedDigest_catalogResult {d : SnapshotIdDigest} (hwidth : d.width ∈ digestWidths)
    (hdecode : d.decode = .ok (digestOf listing cluster salt d.width)) :
    verifiedDigest (.digest d)
        (catalogResult serializedLen digestBudget budgetBytes listing cluster cap salt) =
      .ok (digestOf listing cluster salt d.width) := by
  obtain ⟨k, -, hresult, -⟩ :=
    catalogResult_spec serializedLen digestBudget budgetBytes listing cluster cap salt
  have hcount : ((digestOf listing cluster salt d.width).len : Int) =
      ((untrimmedResult digestBudget listing cluster cap salt).snapshotCount.getD (-1) -
        (untrimmedResult digestBudget listing cluster cap salt).foreignSuffixDropped : Int) := by
    rw [digestOf_len listing cluster salt hwidth]
    have hlen := applyForeignPrefilter_length listing cluster
    simp only [untrimmedResult, bootstrapResult, prepareCatalogEntries, Option.getD_some]
    omega
  have hfind : ((windowEntries listing cluster).take k).find? (fun e =>
      !(digestOf listing cluster salt d.width).contains e.id) = none := by
    rw [List.find?_eq_none]
    intro e he
    have hid := (mem_windowEntries_ids listing cluster).mp
      (List.mem_map_of_mem (List.mem_of_mem_take he))
    simp [contains_digestOf listing cluster salt hwidth hid]
  rw [hresult, verifiedDigest, ListedIds.decode, hdecode]
  simp [hcount, hfind]

/-- A prefix of the window order is shipped, and the coverage says what of the
rest is known: all, a digest that holds every listed id, or nothing. -/
theorem catalogResult_coverage :
    ∃ k ≤ (windowEntries listing cluster).length,
      (catalogResult serializedLen digestBudget budgetBytes listing cluster cap salt).snapshots =
        (windowEntries listing cluster).take k ∧
      (k < (windowEntries listing cluster).length ↔
        Truncates serializedLen digestBudget budgetBytes listing cluster cap salt) ∧
      coverageFor (catalogResult serializedLen digestBudget budgetBytes listing cluster cap salt) =
        if k < (windowEntries listing cluster).length then
          match digestWidth (applyForeignPrefilter listing cluster).1.length digestBudget with
          | none => .incomplete .overDigestBudget
          | some width => .capped (digestOf listing cluster salt width)
        else .complete := by
  obtain ⟨k, hk, hresult, hcut⟩ :=
    catalogResult_spec serializedLen digestBudget budgetBytes listing cluster cap salt
  refine ⟨k, hk, congrArg BootstrapResult.snapshots hresult, hcut, ?_⟩
  have htruncated : (catalogResult serializedLen digestBudget budgetBytes listing cluster cap
      salt).snapshotsTruncated = decide (k < (windowEntries listing cluster).length) :=
    congrArg BootstrapResult.snapshotsTruncated hresult
  by_cases hlt : k < (windowEntries listing cluster).length
  · have hlisted : (catalogResult serializedLen digestBudget budgetBytes listing cluster cap
        salt).listedIds = (SnapshotIdDigest.build (listedIdsOf listing cluster) salt
        digestBudget).map ListedIds.digest := congrArg BootstrapResult.listedIds hresult
    have hbytes : (catalogResult serializedLen digestBudget budgetBytes listing cluster cap
        salt).logicalBytes = some _ := congrArg BootstrapResult.logicalBytes hresult
    cases hbuild : SnapshotIdDigest.build (listedIdsOf listing cluster) salt digestBudget with
    | none =>
      have hwidth : digestWidth (applyForeignPrefilter listing cluster).1.length digestBudget =
          none := by
        rw [SnapshotIdDigest.build, Option.map_eq_none_iff] at hbuild
        simpa [listedIdsOf] using hbuild
      simp [coverageFor, htruncated, hlt, hlisted, hbuild, hbytes, hwidth]
    | some d =>
      obtain ⟨hwidth, hdecode⟩ := decode_build hbuild
      rw [listedIdsOf, List.length_map] at hwidth
      have hverified := verifiedDigest_catalogResult serializedLen digestBudget budgetBytes listing
        cluster cap salt (digestWidth_mem hwidth) hdecode
      simp [coverageFor, htruncated, hlt, hlisted, hbuild, hverified, hwidth]
  · simp [coverageFor, htruncated, hlt]

end Coverage

-- When no live row expires

/-- Rows of listed snapshots and of ids in `gone`, each with what `record` says
of its snapshot. -/
structure Materialized (listing : List SnapshotListEntry) (record : String → SnapshotListEntry)
    (gone : Set String) (rows : List CatalogRow) : Prop where
  names : (rows.map fun r => (r.namespace_, r.name)).Nodup
  listed : ∀ e ∈ listing, record e.id = e
  recorded : ∀ r ∈ rows, r.endTime = some (record r.snapshotId).endTime ∧
    r.identity = some (identityKey (record r.snapshotId).source)
  unlisted : ∀ r ∈ rows, r.snapshotId ∉ listing.map SnapshotListEntry.id → r.snapshotId ∈ gone

section Scan

variable (serializedLen : BootstrapResult → Nat) (digestBudget budgetBytes : Nat)
  (listing : List SnapshotListEntry) (cluster : Option String) (cap salt : Nat)
  (gone : Set String)

/-- No scan of the result expires a row within `retain`. -/
def KeepsLiveRows : Prop :=
  let result := catalogResult serializedLen digestBudget budgetBytes listing cluster cap salt
  let kept := (applyForeignPrefilter listing cluster).1
  ∀ (record : String → SnapshotListEntry) (s : ScanInputs) (rows : List CatalogRow),
    Materialized kept record gone rows →
    -- The placement pass puts only rows outside the window there.
    (∀ id ∈ s.rowForeignIgnoredIds, id ∉ result.snapshots.map SnapshotListEntry.id) →
    ∀ r ∈ rows, ∀ e ∈ kept, e.id = r.snapshotId → WithinRetain s kept e →
      (r.namespace_, r.name) ∉ (planCatalog s rows result.snapshots (coverageFor result)).expire

/-- A truncated listing whose digest holds an id that is gone. -/
def DigestCollision : Prop :=
  Truncates serializedLen digestBudget budgetBytes listing cluster cap salt ∧
    ∃ width, digestWidth (applyForeignPrefilter listing cluster).1.length digestBudget =
      some width ∧ ∃ id ∈ gone, id ∉ listedIdsOf listing cluster ∧
        ∃ id' ∈ listedIdsOf listing cluster,
          (saltedHash salt id').take width = (saltedHash salt id).take width

variable {serializedLen digestBudget budgetBytes listing cluster cap salt gone}

theorem withinRetain_slim {s : ScanInputs} {e : SnapshotListEntry}
    (he : e ∈ (applyForeignPrefilter listing cluster).1) :
    WithinRetain s (windowEntries listing cluster) (slimCatalogEntry e) ↔
      WithinRetain s (applyForeignPrefilter listing cluster).1 e := by
  have hperm := ((orderForWindow_perm (applyForeignPrefilter listing cluster).1).map
    slimCatalogEntry)
  have hlen : (rankedBefore s (windowEntries listing cluster) (slimCatalogEntry e)).length =
      (rankedBefore s (applyForeignPrefilter listing cluster).1 e).length := by
    rw [rankedBefore, windowEntries, (hperm.filter _).length_eq, List.filter_map, List.length_map]
    rfl
  constructor
  · rintro ⟨-, hcounts, hranked⟩
    exact ⟨he, hcounts, fun n hn => hlen ▸ hranked n hn⟩
  · rintro ⟨-, hcounts, hranked⟩
    exact ⟨hperm.mem_iff.mpr (List.mem_map_of_mem he), hcounts, fun n hn => hlen ▸ hranked n hn⟩

theorem mem_windowEntries {e : SnapshotListEntry} : e ∈ windowEntries listing cluster ↔
    ∃ e' ∈ (applyForeignPrefilter listing cluster).1, slimCatalogEntry e' = e := by
  rw [windowEntries, List.mem_map]
  simp only [(orderForWindow_perm _).mem_iff]

theorem Materialized.recorded_window {record : String → SnapshotListEntry}
    {rows : List CatalogRow}
    (h : Materialized (applyForeignPrefilter listing cluster).1 record gone rows) :
    Recorded (windowEntries listing cluster) rows := by
  intro r hr e he hid
  obtain ⟨e', he', rfl⟩ := mem_windowEntries.mp he
  have hrecord : record r.snapshotId = e' := hid ▸ h.listed e' he'
  exact hrecord ▸ h.recorded r hr

section Distinct

variable (hids : (listing.map SnapshotListEntry.id).Nodup)
  (hkeys : ∀ a ∈ listing, ∀ b ∈ listing,
    identityKey a.source = identityKey b.source → a.source = b.source)

include hids hkeys

theorem split_windowEntries (k : Nat) :
    Split ((windowEntries listing cluster).take k) ((windowEntries listing cluster).drop k) := by
  have hsub := applyForeignPrefilter_sublist listing cluster
  have hkept := hids.sublist (hsub.map SnapshotListEntry.id)
  constructor
  · rw [List.take_append_drop, windowEntries, List.pairwise_map]
    exact orderForWindow_newest hkept
  · rw [List.take_append_drop, windowEntries, List.map_map]
    exact ((orderForWindow_perm _).map _).nodup_iff.mpr hkept
  · rw [List.take_append_drop]
    intro a ha b hb
    obtain ⟨a', ha', rfl⟩ := List.mem_map.mp ha
    obtain ⟨b', hb', rfl⟩ := List.mem_map.mp hb
    exact hkeys a' (hsub.mem ((orderForWindow_perm _).mem_iff.mp ha')) b'
      (hsub.mem ((orderForWindow_perm _).mem_iff.mp hb'))

theorem keepsLiveRows_of_no_collision (h : ¬ DigestCollision serializedLen digestBudget budgetBytes
    listing cluster cap salt gone) :
    KeepsLiveRows serializedLen digestBudget budgetBytes listing cluster cap salt gone := by
  obtain ⟨k, hk, hshipped, hcut, hcoverage⟩ :=
    catalogResult_coverage serializedLen digestBudget budgetBytes listing cluster cap salt
  have split : Split ((windowEntries listing cluster).take k)
    ((windowEntries listing cluster).drop k) := split_windowEntries hids hkeys k
  rw [KeepsLiveRows]
  intro record s rows hrows hforeign r hr e he hid hretain hexpire
  rw [hshipped] at hforeign hexpire
  obtain ⟨hwindow, hkept⟩ := (mem_expire hrows.names hr).mp hexpire
  have hretain := (withinRetain_slim he).mpr hretain
  have hsplit := List.take_append_drop k (windowEntries listing cluster)
  rw [← hsplit] at hretain
  rcases List.mem_append.mp hretain.mem with hmem | hmem
  · refine hwindow (hid ▸ List.mem_map.mpr ⟨slimCatalogEntry e, ?_, rfl⟩)
    exact window_keeps split hforeign hmem hretain
  · have hlt : k < (windowEntries listing cluster).length := by
      have hpos := List.length_pos_of_mem hmem
      rw [List.length_drop] at hpos
      omega
    rw [if_pos hlt] at hcoverage
    have hrecorded := hrows.recorded_window
    rw [← hsplit] at hrecorded
    refine hkept (rows_keep split hforeign hrecorded hr hmem hid hretain ?_ ?_)
    · rw [hcoverage]
      cases hwidth : digestWidth (applyForeignPrefilter listing cluster).1.length digestBudget with
      | none => rfl
      | some width =>
        exact contains_digestOf listing cluster salt (digestWidth_mem hwidth)
          (List.mem_map.mpr ⟨e, he, rfl⟩)
    · intro present hcapped r' hr' hunlisted
      rw [hsplit, mem_windowEntries_ids] at hunlisted
      cases hwidth : digestWidth (applyForeignPrefilter listing cluster).1.length digestBudget with
      | none => simp [hcoverage, hwidth] at hcapped
      | some width =>
        simp only [hcoverage, hwidth, ListingCoverage.capped.injEq] at hcapped
        subst hcapped
        by_contra hcontains
        obtain ⟨id', hid', hcut'⟩ := (contains_cutHashes (digestWidth_mem hwidth)).mp
          (Bool.eq_true_of_not_eq_false hcontains)
        exact h ⟨hcut.mp hlt, width, hwidth, r'.snapshotId, hrows.unlisted r' hr' hunlisted,
          hunlisted, id', hid', hcut'⟩

def recordOf (kept : List SnapshotListEntry) (x : SnapshotListEntry) (g id : String) :
    SnapshotListEntry :=
  if id = g then { x with endTime := x.endTime + 1 } else (kept.find? fun e => e.id = id).getD x

omit hkeys in
theorem recordOf_listed {x : SnapshotListEntry} {g : String}
    (hunlisted : g ∉ listedIdsOf listing cluster) :
    ∀ e ∈ (applyForeignPrefilter listing cluster).1,
      recordOf (applyForeignPrefilter listing cluster).1 x g e.id = e := by
  intro e he
  have hne : e.id ≠ g := fun h => hunlisted (h ▸ List.mem_map_of_mem he)
  have hkept := hids.sublist
    ((applyForeignPrefilter_sublist listing cluster).map SnapshotListEntry.id)
  rw [recordOf, if_neg hne]
  cases hfind : (applyForeignPrefilter listing cluster).1.find? fun e' => e'.id = e.id with
  | none => simpa using (List.find?_eq_none.mp hfind) e he
  | some e' =>
    have hid : e'.id = e.id := by simpa using List.find?_some hfind
    exact List.inj_on_of_nodup_map hkept (List.mem_of_find?_eq_some hfind) he hid

omit hkeys in
theorem materialized_crowdedRows {e : SnapshotListEntry} {g : String}
    (he : e ∈ (applyForeignPrefilter listing cluster).1)
    (hunlisted : g ∉ listedIdsOf listing cluster) (hgone : g ∈ gone) :
    Materialized (applyForeignPrefilter listing cluster).1
      (recordOf (applyForeignPrefilter listing cluster).1 e g) gone
      (crowdedRows (slimCatalogEntry e) g) where
  names := by simp [crowdedRows, rowOf]
  listed := recordOf_listed hids hunlisted
  recorded := by
    have hlive := recordOf_listed hids hunlisted (x := e) e he
    intro r hr
    simp only [crowdedRows, List.mem_cons, List.not_mem_nil, or_false] at hr
    rcases hr with rfl | rfl
    · simp [rowOf, slimCatalogEntry, hlive]
    · simp [rowOf, slimCatalogEntry, recordOf]
  unlisted := by
    intro r hr hnot
    simp only [crowdedRows, List.mem_cons, List.not_mem_nil, or_false] at hr
    rcases hr with rfl | rfl
    · exact absurd (List.mem_map_of_mem he) hnot
    · exact hgone

/-- A row that is gone but in the digest takes the slot of the first entry
that was cut off. -/
theorem expires_of_collision (h : DigestCollision serializedLen digestBudget budgetBytes
    listing cluster cap salt gone) :
    ¬ KeepsLiveRows serializedLen digestBudget budgetBytes listing cluster cap salt gone := by
  obtain ⟨htruncates, width, hwidth, g, hgone, hunlisted, hcollides⟩ := h
  obtain ⟨k, hk, hshipped, hcut, hcoverage⟩ :=
    catalogResult_coverage serializedLen digestBudget budgetBytes listing cluster cap salt
  have hlt := hcut.mpr htruncates
  rw [if_pos hlt, hwidth] at hcoverage
  have split : Split ((windowEntries listing cluster).take k)
    ((windowEntries listing cluster).drop k) := split_windowEntries hids hkeys k
  obtain ⟨x, rest, hdrop⟩ : ∃ x rest, (windowEntries listing cluster).drop k = x :: rest :=
    ⟨_, _, List.drop_eq_getElem_cons hlt⟩
  rw [hdrop] at split
  have hwindow : (windowEntries listing cluster).take k ++ x :: rest =
      windowEntries listing cluster := hdrop ▸ List.take_append_drop k _
  have hgone' : g ∉ ((windowEntries listing cluster).take k ++ x :: rest).map
      SnapshotListEntry.id := by
    rwa [hwindow, mem_windowEntries_ids]
  obtain ⟨e, he, rfl⟩ := mem_windowEntries.mp (hwindow ▸ List.mem_append_right _ List.mem_cons_self)
  have hretain := crowded_withinRetain split
  rw [hwindow] at hretain
  intro hkeeps
  refine hkeeps (recordOf (applyForeignPrefilter listing cluster).1 e g)
    (crowdedInputs ((windowEntries listing cluster).take k) (slimCatalogEntry e))
    (crowdedRows (slimCatalogEntry e) g) ?_ (by simp [crowdedInputs]) _ List.mem_cons_self e he rfl
    ((withinRetain_slim he).mp hretain) ?_
  · exact materialized_crowdedRows hids he hunlisted hgone
  · rw [hshipped, hcoverage]
    refine (mem_expire (materialized_crowdedRows hids he hunlisted hgone).names
      List.mem_cons_self).mpr ⟨crowded_not_window split, crowded_displaced split ?_ hgone'⟩
    exact (contains_cutHashes (digestWidth_mem hwidth)).mpr hcollides

/-- A capped scan keeps every live row, just when no row is mistaken for a
listed one. -/
theorem capped_scan_keeps_live_rows (gone : Set String) :
    ((coverageFor (catalogResult serializedLen digestBudget budgetBytes listing cluster cap salt) =
        .complete →
      (catalogResult serializedLen digestBudget budgetBytes listing cluster cap
        salt).snapshots.Perm ((applyForeignPrefilter listing cluster).1.map slimCatalogEntry)) ∧
      KeepsLiveRows serializedLen digestBudget budgetBytes listing cluster cap salt gone) ↔
    ¬ DigestCollision serializedLen digestBudget budgetBytes listing cluster cap salt gone := by
  constructor
  · rintro ⟨-, hkeeps⟩ hcollision
    exact expires_of_collision hids hkeys hcollision hkeeps
  · intro hnone
    refine ⟨fun hcomplete => ?_, keepsLiveRows_of_no_collision hids hkeys hnone⟩
    obtain ⟨k, hk, hshipped, -, hcoverage⟩ :=
      catalogResult_coverage serializedLen digestBudget budgetBytes listing cluster cap salt
    by_cases hlt : k < (windowEntries listing cluster).length
    · rw [if_pos hlt, hcomplete] at hcoverage
      split at hcoverage <;> cases hcoverage
    · rw [hshipped, List.take_of_length_le (not_lt.mp hlt), windowEntries]
      exact (orderForWindow_perm _).map slimCatalogEntry

end Distinct

end Scan

def olderSnapshot : SnapshotListEntry where
  id := "5e1c93a07d42b86f0013cc5b83e39432"
  source := ⟨"nas", "root", "/data"⟩
  startTime := 2
  endTime := 3

def twoSnapshots : List SnapshotListEntry :=
  [{ id := "0a8be2417c9d5f36e1b4027a88d3c95f", source := ⟨"nas", "root", "/data"⟩,
     startTime := 8, endTime := 9 }, olderSnapshot]

def roughLen (r : BootstrapResult) : Nat := 512 * (r.snapshots.length + 1)

theorem capped_scan_keeps_live_rows_two :
    (twoSnapshots.map SnapshotListEntry.id).Nodup ∧
      (∀ a ∈ twoSnapshots, ∀ b ∈ twoSnapshots,
        identityKey a.source = identityKey b.source → a.source = b.source) ∧
      Truncates roughLen digestBudgetBytes resultSizeBudgetBytes twoSnapshots none 1 0 ∧
      KeepsLiveRows roughLen digestBudgetBytes resultSizeBudgetBytes twoSnapshots none 1 0
        {"c2b90f6d1e7348a55d08f3c6b7e91a24"} := by
  refine ⟨by decide, by decide, .inl (by decide), ?_⟩
  refine ((capped_scan_keeps_live_rows (by decide) (by decide) _).mpr ?_).2
  rintro ⟨-, width, hwidth, id, rfl, -, hcollides⟩
  obtain rfl : width = 8 := by
    have h : digestWidth (applyForeignPrefilter twoSnapshots none).1.length digestBudgetBytes =
      some 8 := by decide
    exact Option.some.inj (hwidth.symm.trans h)
  exact absurd hcollides (by decide)

def staleId : String := "5e1c93a07d42b86fe5ae0ecdc4fa0d91"

def roomForTwo : ScanInputs where
  retain := some { perIdentity := some 2 }
  now := 100

/-- The stale row takes the second slot, and the row of the listed snapshot expires. -/
theorem false_positive_expires_live_row :
    (twoSnapshots.map SnapshotListEntry.id).Nodup ∧
    (∀ a ∈ twoSnapshots, ∀ b ∈ twoSnapshots,
      identityKey a.source = identityKey b.source → a.source = b.source) ∧
    Materialized twoSnapshots (recordOf twoSnapshots olderSnapshot staleId) {staleId}
      (crowdedRows olderSnapshot staleId) ∧
    WithinRetain roomForTwo twoSnapshots olderSnapshot ∧
    ("backups", "live") ∈ (planCatalog roomForTwo (crowdedRows olderSnapshot staleId)
      (catalogResult roughLen digestBudgetBytes resultSizeBudgetBytes twoSnapshots none 1
        0).snapshots
      (coverageFor (catalogResult roughLen digestBudgetBytes resultSizeBudgetBytes twoSnapshots
        none 1 0))).expire := by
  refine ⟨by decide, by decide, ⟨by decide, by decide, by decide, ?_⟩, ⟨by decide, by decide, ?_⟩,
    by decide +kernel⟩
  · intro r hr hnot
    simp only [crowdedRows, List.mem_cons, List.not_mem_nil, or_false] at hr
    rcases hr with rfl | rfl
    · exact absurd (by decide) hnot
    · rfl
  · intro n hn
    obtain rfl : (2 : Nat) = n := Option.some.inj hn
    decide

end Kopiur
