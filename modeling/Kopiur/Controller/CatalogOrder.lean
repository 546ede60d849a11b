import Kopiur.Controller.CatalogConvergence
import Kopiur.Lib.Ties

/-!
# What a plan owes to the order of its inputs

The window sorts the entries of an identity by end time alone and cuts them
off, so entries that ended together and lie across the cut are told apart by
their order in the listing. Rows outside the window are ranked by end time and
id, but of several rows of one snapshot the first of the newest speaks for it,
and the identity it records decides whose slots it competes for.
-/

namespace Kopiur

open Lib

attribute [local instance] timePreorder

instance : Std.Total EndsNoEarlier := ⟨fun a b => le_total b.endTime a.endTime⟩

instance : IsTrans SnapshotListEntry EndsNoEarlier := ⟨fun _ _ _ hab hbc => le_trans hbc hab⟩

/-- The same entries are created and the same rows expire, however the listing
and the rows are ordered. -/
def OrderIndependent (s : ScanInputs) (rows : List CatalogRow) (listing : List SnapshotListEntry)
    (coverage : ListingCoverage) : Prop :=
  ∀ rows' listing', rows'.Perm rows → listing'.Perm listing →
    (∀ e, e ∈ (planCatalog s rows' listing' coverage).create ↔
      e ∈ (planCatalog s rows listing coverage).create) ∧
    (∀ key, key ∈ (planCatalog s rows' listing' coverage).expire ↔
      key ∈ (planCatalog s rows listing coverage).expire)

-- The window

section Window

variable {s : ScanInputs} {rows : List CatalogRow} {listing listing' : List SnapshotListEntry}
variable {coverage : ListingCoverage} {e : SnapshotListEntry} {n : Nat}

def WindowClear (s : ScanInputs) (listing : List SnapshotListEntry) : Prop :=
  ∀ n, s.bounds.perIdentity = some n → ∀ e ∈ listing, s.eligible e = true →
    CutClear EndsNoEarlier n (slotEntries s listing (identityKey e.source)) e

theorem slotEntries_perm (h : listing'.Perm listing) (key : String) :
    (slotEntries s listing' key).Perm (slotEntries s listing key) :=
  (h.filter _).filter _

theorem mem_slotEntries {key : String} :
    e ∈ slotEntries s listing key ↔
      e ∈ listing ∧ s.eligible e = true ∧ identityKey e.source = key := by
  simp only [slotEntries, List.mem_filter, decide_eq_true_eq, and_assoc]

theorem nodup_slotEntries (hids : (listing.map SnapshotListEntry.id).Nodup) (key : String) :
    (slotEntries s listing key).Nodup :=
  ((List.Nodup.of_map _ hids).filter _).filter _

theorem mem_window_unbounded (hn : s.bounds.perIdentity = none) :
    e ∈ (s.window listing).flatMap Prod.snd ↔ e ∈ listing ∧ s.eligible e = true := by
  rw [mem_window_entries, hn, Option.getD_none, List.take_of_length_le
    (List.length_insertionSort _ _).le, List.mem_insertionSort, mem_slotEntries]
  simp

theorem mem_window_bounded (hn : s.bounds.perIdentity = some n) :
    e ∈ (s.window listing).flatMap Prod.snd ↔
      e ∈ ((slotEntries s listing (identityKey e.source)).insertionSort EndsNoEarlier).take n := by
  rw [mem_window_entries, hn, Option.getD_some]

theorem WindowClear.mem_window_iff (hclear : WindowClear s listing)
    (hids : (listing.map SnapshotListEntry.id).Nodup) (hperm : listing'.Perm listing) :
    e ∈ (s.window listing').flatMap Prod.snd ↔ e ∈ (s.window listing).flatMap Prod.snd := by
  cases hn : s.bounds.perIdentity with
  | none => rw [mem_window_unbounded hn, mem_window_unbounded hn, hperm.mem_iff]
  | some n =>
    by_cases he : e ∈ slotEntries s listing (identityKey e.source)
    · obtain ⟨hmem, heligible, -⟩ := mem_slotEntries.mp he
      rw [mem_window_bounded hn, mem_window_bounded hn]
      exact (hclear n hn e hmem heligible).mem_iff (nodup_slotEntries hids _) he
        (slotEntries_perm hperm _)
    · rw [mem_window_bounded hn, mem_window_bounded hn]
      refine iff_of_false (fun h => he ?_) fun h => he ?_
      · exact (slotEntries_perm hperm _).mem_iff.mp
          ((List.mem_insertionSort _).mp (List.mem_of_mem_take h))
      · exact (List.mem_insertionSort _).mp (List.mem_of_mem_take h)

/-- A plan shows which listed entries are in the window: by what it creates, or
by the row it leaves. -/
theorem window_visible (hids : (listing.map SnapshotListEntry.id).Nodup)
    (hkeys : (rows.map CatalogRow.key).Nodup) (hperm : listing'.Perm listing) (he : e ∈ listing)
    (hcreate : e ∈ (planCatalog s rows listing' coverage).create ↔
      e ∈ (planCatalog s rows listing coverage).create)
    (hexpire : ∀ key, key ∈ (planCatalog s rows listing' coverage).expire ↔
      key ∈ (planCatalog s rows listing coverage).expire) :
    e ∈ (s.window listing').flatMap Prod.snd ↔ e ∈ (s.window listing).flatMap Prod.snd := by
  have hids' : (listing'.map SnapshotListEntry.id).Nodup := (hperm.map _).nodup_iff.mpr hids
  by_cases hrow : e.id ∈ rows.map CatalogRow.snapshotId
  · obtain ⟨r, hr, hid⟩ := List.mem_map.mp hrow
    have hkept : ∀ {l : List SnapshotListEntry}, (l.map SnapshotListEntry.id).Nodup → e ∈ l →
        (r.snapshotId ∈ keptIds s rows l coverage ↔ e ∈ (s.window l).flatMap Prod.snd) := by
      intro l hl hel
      rw [keptIds, List.mem_append, hid]
      constructor
      · rintro (hwindow | hkept)
        · obtain ⟨e', he', heid⟩ := List.mem_map.mp hwindow
          obtain rfl := List.inj_on_of_nodup_map hl (eligible_of_window he').1 hel heid
          exact he'
        · exact absurd (List.mem_map_of_mem hel) (unlisted_of_keptRows hkept)
      · exact fun hwindow => .inl (List.mem_map_of_mem hwindow)
    rw [← hkept hids' (hperm.mem_iff.mpr he), ← hkept hids he, ← not_iff_not,
      ← kept_iff_not_expired hkeys hr, ← kept_iff_not_expired hkeys hr]
    exact hexpire r.key
  · rw [mem_create hids', mem_create hids] at hcreate
    simpa [hrow] using hcreate

theorem mem_expire_key (hkeys : (rows.map CatalogRow.key).Nodup) {key : String × String} :
    key ∈ (planCatalog s rows listing coverage).expire ↔
      ∃ r ∈ rows, r.key = key ∧ r.snapshotId ∉ keptIds s rows listing coverage := by
  constructor
  · intro hkey
    obtain ⟨r, hr, rfl⟩ := List.mem_map.mp hkey
    have hr := (List.mem_filter.mp hr).1
    exact ⟨r, hr, rfl, (kept_iff_not_expired hkeys hr).mp hkey⟩
  · rintro ⟨r, hr, rfl, hgone⟩
    exact (kept_iff_not_expired hkeys hr).mpr hgone

theorem OrderIndependent.windowClear (h : OrderIndependent s rows listing coverage)
    (hids : (listing.map SnapshotListEntry.id).Nodup) (hkeys : (rows.map CatalogRow.key).Nodup) :
    WindowClear s listing := by
  intro n hn e he heligible
  have hslot : e ∈ slotEntries s listing (identityKey e.source) :=
    mem_slotEntries.mpr ⟨he, heligible, rfl⟩
  -- The entry comes first in one listing, and last in another.
  have hfirst : (e :: listing.erase e).Perm listing := (List.perm_cons_erase he).symm
  have hlast : (listing.erase e ++ [e]).Perm listing :=
    (List.perm_append_singleton _ _).trans hfirst
  have hends : e ∈ (s.window (e :: listing.erase e)).flatMap Prod.snd ↔
      e ∈ (s.window (listing.erase e ++ [e])).flatMap Prod.snd := by
    rw [window_visible hids hkeys hfirst he ((h rows _ (.refl _) hfirst).1 e)
        (h rows _ (.refl _) hfirst).2,
      window_visible hids hkeys hlast he ((h rows _ (.refl _) hlast).1 e)
        (h rows _ (.refl _) hlast).2]
  have hcons : slotEntries s (e :: listing.erase e) (identityKey e.source) =
      e :: slotEntries s (listing.erase e) (identityKey e.source) := by
    rw [slotEntries, List.filter_cons_of_pos heligible, List.filter_cons_of_pos (by simp)]
    rfl
  have hconcat : slotEntries s (listing.erase e ++ [e]) (identityKey e.source) =
      slotEntries s (listing.erase e) (identityKey e.source) ++ [e] := by
    rw [slotEntries, List.filter_append, List.filter_append, List.filter_cons_of_pos heligible]
    simp [slotEntries]
  rw [mem_window_bounded hn, mem_window_bounded hn, hcons, hconcat] at hends
  exact cutClear_of_ends (nodup_slotEntries hids _) (hcons ▸ slotEntries_perm hfirst _) hends

end Window

-- The rows outside the window

def IsNewestRow (rows : List CatalogRow) (r : CatalogRow) : Prop :=
  ∀ r' ∈ rows, r'.snapshotId = r.snapshotId → endRank r'.endTime ≤ endRank r.endTime

instance (rows : List CatalogRow) (r : CatalogRow) : Decidable (IsNewestRow rows r) :=
  inferInstanceAs (Decidable (∀ r' ∈ rows, _ → _))

def contenders (s : ScanInputs) (rows : List CatalogRow) (listing : List SnapshotListEntry)
    (coverage : ListingCoverage) : Finset CatalogRow :=
  (rows.filter fun r => decide (r.snapshotId ∉ listing.map SnapshotListEntry.id) &&
    decide (IsNewestRow rows r) && (s.rowFilter coverage).admits r).toFinset

def roomFor (s : ScanInputs) (listing : List SnapshotListEntry) (coverage : ListingCoverage)
    (identity : Option String) : Option Nat :=
  match identity, rowRankCap coverage s.bounds with
  | some key, some n => some (n - (slotEntries s listing key).length)
  | _, _ => none

def possibleRivals (rows : Finset CatalogRow) (a : CatalogRow) : Finset String :=
  (rows.filter fun r => r.identity = a.identity ∧ rowRank r < rowRank a).image
    CatalogRow.snapshotId

def certainRivals (rows : Finset CatalogRow) (a : CatalogRow) : Finset String :=
  (possibleRivals rows a).filter fun id => ∀ r ∈ rows, r.snapshotId = id → r.identity = a.identity

def HasRoom (rows : Finset CatalogRow) (room : Option String → Option Nat)
    (a : CatalogRow) : Prop :=
  ∀ n ∈ room a.identity, (possibleRivals rows a).card < n

def Crowded (rows : Finset CatalogRow) (room : Option String → Option Nat)
    (a : CatalogRow) : Prop :=
  ∃ n ∈ room a.identity, n ≤ (certainRivals rows a).card

def RowsClear (rows : Finset CatalogRow) (room : Option String → Option Nat) : Prop :=
  ∀ a ∈ rows, (∀ a' ∈ rows, a'.snapshotId = a.snapshotId → HasRoom rows room a') ∨
    ∀ a' ∈ rows, a'.snapshotId = a.snapshotId → Crowded rows room a'

section Newest

variable {rows l l' : List CatalogRow} {c r : CatalogRow}

theorem newestRow_append (hl : l ≠ []) : newestRow (l ++ l') =
    (newestRow l).map fun first => l'.foldl
      (fun slot r => if endRank slot.endTime < endRank r.endTime then r else slot) first := by
  cases l with
  | nil => exact absurd rfl hl
  | cons first rest => simp [newestRow, List.foldl_append]

theorem foldl_newest_eq (h : ∀ r ∈ l, endRank r.endTime ≤ endRank c.endTime) :
    l.foldl (fun slot r => if endRank slot.endTime < endRank r.endTime then r else slot) c = c := by
  induction l with
  | nil => rfl
  | cons r rest ih =>
    rw [List.foldl_cons, if_neg (not_lt.mpr (h r List.mem_cons_self))]
    exact ih fun r' hr' => h r' (List.mem_cons_of_mem _ hr')

theorem le_foldl_newest (l : List CatalogRow) (c : CatalogRow) :
    ∀ r ∈ c :: l, endRank r.endTime ≤ endRank (l.foldl
      (fun slot r => if endRank slot.endTime < endRank r.endTime then r else slot) c).endTime := by
  induction l generalizing c with
  | nil => simp
  | cons d rest ih =>
    intro r hr
    rw [List.foldl_cons]
    split
    case isTrue hlt =>
      rcases List.mem_cons.mp hr with rfl | hr
      · exact hlt.le.trans (ih d d List.mem_cons_self)
      · exact ih d r hr
    case isFalse hle =>
      rcases List.mem_cons.mp hr with rfl | hr
      · exact ih r r List.mem_cons_self
      · rcases List.mem_cons.mp hr with rfl | hr
        · exact (not_lt.mp hle).trans (ih c c List.mem_cons_self)
        · exact ih c r (List.mem_cons_of_mem _ hr)

theorem le_newestRow (h : newestRow l = some c) (hr : r ∈ l) :
    endRank r.endTime ≤ endRank c.endTime := by
  cases l with
  | nil => cases hr
  | cons first rest =>
    obtain rfl := Option.some.inj h
    exact le_foldl_newest (first :: rest) first r (List.mem_cons_of_mem _ hr)

theorem newestRow_of_first {p : CatalogRow → Bool}
    (h : newestRow (rows.filter p ++ rows.filter fun r => !p r) = some c) (hr : r ∈ rows)
    (hp : p r = true) (hnewest : ∀ r' ∈ rows, endRank r'.endTime ≤ endRank r.endTime) :
    p c = true := by
  have hmem : r ∈ rows.filter p := List.mem_filter.mpr ⟨hr, hp⟩
  obtain ⟨first, hfirst⟩ := newestRow_isSome (List.ne_nil_of_mem hmem)
  rw [newestRow_append (List.ne_nil_of_mem hmem), hfirst, Option.map_some, Option.some.injEq,
    foldl_newest_eq fun r' hr' => (hnewest r' (List.mem_filter.mp hr').1).trans
      (le_newestRow hfirst hmem)] at h
  rw [← h]
  exact (List.mem_filter.mp (newestRow_mem hfirst)).2

end Newest

section Rows

variable {s : ScanInputs} {rows rows' : List CatalogRow} {listing listing' : List SnapshotListEntry}
variable {coverage : ListingCoverage} {a c : CatalogRow}

theorem mem_contenders : c ∈ contenders s rows listing coverage ↔ c ∈ rows ∧
    c.snapshotId ∉ listing.map SnapshotListEntry.id ∧ IsNewestRow rows c ∧
      (s.rowFilter coverage).admits c = true := by
  simp only [contenders, List.mem_toFinset, List.mem_filter, Bool.and_eq_true, decide_eq_true_eq,
    and_assoc]

theorem contenders_perm (s : ScanInputs) (coverage : ListingCoverage) (hrows : rows'.Perm rows)
    (hlisting : listing'.Perm listing) :
    contenders s rows' listing' coverage = contenders s rows listing coverage := by
  ext c
  simp only [mem_contenders, IsNewestRow, hrows.mem_iff, (hlisting.map _).mem_iff]

theorem roomFor_perm (hlisting : listing'.Perm listing) :
    roomFor s listing' coverage = roomFor s listing coverage := by
  have hlength : ∀ key, (slotEntries s listing' key).length = (slotEntries s listing key).length :=
    fun key => (slotEntries_perm hlisting key).length_eq
  funext identity
  simp only [roomFor, hlength]

theorem freeSlots_eq_roomFor (identity : Option String) :
    freeSlots (s.window listing) (rowRankCap coverage s.bounds) identity =
      roomFor s listing coverage identity := by
  cases identity with
  | none => rfl
  | some key =>
    cases hcap : rowRankCap coverage s.bounds with
    | none => simp [freeSlots, roomFor, hcap]
    | some n =>
      have hn : s.bounds.perIdentity = some n := by
        cases coverage with
        | complete => exact hcap
        | capped present => exact hcap
        | incomplete reason => cases hcap
      simp only [freeSlots, roomFor, hcap, Option.map_some, used_window hn]
      congr 1
      omega

theorem contender_of_candidate (hc : c ∈ outOfWindowCandidates rows
    (listing.map SnapshotListEntry.id) (s.rowFilter coverage)) :
    c ∈ contenders s rows listing coverage := by
  obtain ⟨hrow, hunlisted, hadmits⟩ := candidate_sound hc
  refine mem_contenders.mpr ⟨hrow, hunlisted, fun r hr hid => ?_, hadmits⟩
  exact le_newestRow (mem_outOfWindowCandidates.mp hc).1 (mem_unlistedRows.mpr
    ⟨hr, hid ▸ hunlisted, hid⟩)

theorem rowRank_eq_of_contenders (ha : a ∈ contenders s rows listing coverage)
    (hc : c ∈ contenders s rows listing coverage) (hid : c.snapshotId = a.snapshotId) :
    rowRank c = rowRank a := by
  obtain ⟨harow, -, hanewest, -⟩ := mem_contenders.mp ha
  obtain ⟨hcrow, -, hcnewest, -⟩ := mem_contenders.mp hc
  rw [rowRank, rowRank, hid, (hanewest c hcrow hid).antisymm (hcnewest a harow hid.symm)]

theorem admits_of_contender (ha : a ∈ contenders s rows listing coverage)
    (hid : c.snapshotId = a.snapshotId) (hend : c.endTime = a.endTime) :
    (s.rowFilter coverage).admits c = true := by
  have hadmits := (mem_contenders.mp ha).2.2.2
  rwa [RowFilter.admits, ← hid, ← hend] at hadmits

theorem candidate_of_contender (ha : a ∈ contenders s rows listing coverage) :
    ∃ c ∈ outOfWindowCandidates rows (listing.map SnapshotListEntry.id) (s.rowFilter coverage),
      c.snapshotId = a.snapshotId := by
  obtain ⟨hrow, hunlisted, hnewest, -⟩ := mem_contenders.mp ha
  have hmem : a ∈ unlistedRows rows (listing.map SnapshotListEntry.id) a.snapshotId :=
    mem_unlistedRows.mpr ⟨hrow, hunlisted, rfl⟩
  obtain ⟨c, hc⟩ := newestRow_isSome (List.ne_nil_of_mem hmem)
  obtain ⟨hcrow, -, hid⟩ := mem_unlistedRows.mp (newestRow_mem hc)
  have hend : endRank c.endTime = endRank a.endTime :=
    (hnewest c hcrow hid).antisymm (le_newestRow hc hmem)
  exact ⟨c, mem_outOfWindowCandidates.mpr ⟨hid ▸ hc, admits_of_contender ha hid hend⟩, hid⟩

def rivals (candidates : List CatalogRow) (a : CatalogRow) : Finset String :=
  (((candidates.filter fun r => decide (r.identity = a.identity)).filter fun r =>
    decide (rowRank r < rowRank a)).map CatalogRow.snapshotId).toFinset

theorem mem_rivals {candidates : List CatalogRow} {id : String} : id ∈ rivals candidates a ↔
    ∃ r ∈ candidates, r.identity = a.identity ∧ rowRank r < rowRank a ∧ r.snapshotId = id := by
  simp only [rivals, List.mem_toFinset, List.mem_map, List.mem_filter, decide_eq_true_eq, and_assoc]

theorem mem_take_rankedRows_iff {candidates : List CatalogRow} {n : Nat}
    (hids : (candidates.map CatalogRow.snapshotId).Nodup) (hc : c ∈ candidates) :
    c ∈ (rankedRows candidates c.identity).take n ↔ (rivals candidates c).card < n := by
  have hsub : ((candidates.filter fun r => decide (r.identity = c.identity)).map
      CatalogRow.snapshotId).Nodup := hids.sublist (List.filter_sublist.map _)
  have hmem : c ∈ candidates.filter fun r => decide (r.identity = c.identity) :=
    List.mem_filter.mpr ⟨hc, by simp⟩
  have hcard : (rivals candidates c).card =
      ((candidates.filter fun r => decide (r.identity = c.identity)).filter fun r =>
        decide (rowRank r < rowRank c)).length := by
    rw [rivals, List.toFinset_card_of_nodup (hsub.sublist (List.filter_sublist.map _)),
      List.length_map]
  have hstrict : strictlyBefore RowBefore c (candidates.filter fun r =>
      decide (r.identity = c.identity)) = (candidates.filter fun r =>
        decide (r.identity = c.identity)).filter fun r => decide (rowRank r < rowRank c) :=
    List.filter_congr fun r _ => by simp [rowBefore_iff]
  have hpossible : possiblyBefore RowBefore c (candidates.filter fun r =>
      decide (r.identity = c.identity)) = (candidates.filter fun r =>
        decide (r.identity = c.identity)).filter fun r => decide (rowRank r < rowRank c) := by
    refine List.filter_congr fun r hr => ?_
    rw [decide_eq_decide, rowBefore_iff]
    constructor
    · rintro ⟨hle, hne⟩
      refine lt_of_le_of_ne hle fun heq => hne (List.inj_on_of_nodup_map hsub hr hmem ?_)
      exact (Prod.mk.inj (toLex_inj.mp heq)).2
    · exact fun hlt => ⟨hlt.le, fun heq => lt_irrefl _ (heq ▸ hlt)⟩
  rw [hcard, rankedRows]
  constructor
  · exact fun h => hstrict ▸ length_strictlyBefore_lt_of_mem_take h
  · exact fun h => mem_take_of_possiblyBefore_lt (List.Nodup.of_map _ hsub) hmem (hpossible ▸ h)

theorem kept_iff_rivals (hc : c ∈ outOfWindowCandidates rows (listing.map SnapshotListEntry.id)
    (s.rowFilter coverage)) :
    c.snapshotId ∈ keptRows s rows listing coverage ↔
      ∀ n ∈ roomFor s listing coverage c.identity, (rivals (outOfWindowCandidates rows
        (listing.map SnapshotListEntry.id) (s.rowFilter coverage)) c).card < n := by
  have hself : c.snapshotId ∈ keptRows s rows listing coverage ↔
      c ∈ (rankedRows (outOfWindowCandidates rows (listing.map SnapshotListEntry.id)
        (s.rowFilter coverage)) c.identity).take ((roomFor s listing coverage c.identity).getD
          (rankedRows (outOfWindowCandidates rows (listing.map SnapshotListEntry.id)
            (s.rowFilter coverage)) c.identity).length) := by
    rw [mem_keptRows, ← freeSlots_eq_roomFor]
    constructor
    · rintro ⟨c', hid, hc'⟩
      obtain rfl : c' = c := List.inj_on_of_nodup_map candidates_nodup
        (mem_rankedRows.mp (List.mem_of_mem_take hc')).1 hc hid
      exact hc'
    · exact fun h => ⟨c, rfl, h⟩
  rw [hself]
  cases roomFor s listing coverage c.identity with
  | none => simp [mem_rankedRows, hc]
  | some n => simpa using mem_take_rankedRows_iff candidates_nodup hc

theorem rivals_subset_possible : rivals (outOfWindowCandidates rows
      (listing.map SnapshotListEntry.id) (s.rowFilter coverage)) c ⊆
    possibleRivals (contenders s rows listing coverage) c := by
  intro id hid
  obtain ⟨r, hr, hidentity, hlt, rfl⟩ := mem_rivals.mp hid
  exact Finset.mem_image_of_mem _
    (Finset.mem_filter.mpr ⟨contender_of_candidate hr, hidentity, hlt⟩)

theorem mem_possibleRivals {contending : Finset CatalogRow} {id : String} :
    id ∈ possibleRivals contending a ↔
      ∃ r ∈ contending, r.identity = a.identity ∧ rowRank r < rowRank a ∧ r.snapshotId = id := by
  simp only [possibleRivals, Finset.mem_image, Finset.mem_filter, and_assoc]

theorem certain_subset_rivals : certainRivals (contenders s rows listing coverage) c ⊆
    rivals (outOfWindowCandidates rows (listing.map SnapshotListEntry.id)
      (s.rowFilter coverage)) c := by
  intro id hid
  obtain ⟨hpossible, hcertain⟩ := Finset.mem_filter.mp hid
  obtain ⟨r, hr, -, hlt, rfl⟩ := mem_possibleRivals.mp hpossible
  obtain ⟨d, hd, hdid⟩ := candidate_of_contender hr
  have hdc := contender_of_candidate hd
  exact mem_rivals.mpr ⟨d, hd, hcertain d hdc hdid,
    (rowRank_eq_of_contenders hr hdc hdid).trans_lt hlt, hdid⟩

theorem RowsClear.kept_iff
    (hclear : RowsClear (contenders s rows listing coverage) (roomFor s listing coverage))
    {id : String} : id ∈ keptRows s rows listing coverage ↔
      ∃ a ∈ contenders s rows listing coverage, a.snapshotId = id ∧
        ∀ a' ∈ contenders s rows listing coverage, a'.snapshotId = id →
          HasRoom (contenders s rows listing coverage) (roomFor s listing coverage) a' := by
  constructor
  · intro hkept
    obtain ⟨c, rfl, hc⟩ := mem_keptRows.mp hkept
    have hc := (mem_rankedRows.mp (List.mem_of_mem_take hc)).1
    have hcontender := contender_of_candidate hc
    refine ⟨c, hcontender, rfl, (hclear c hcontender).resolve_right fun hcrowded => ?_⟩
    obtain ⟨n, hn, hfull⟩ := hcrowded c hcontender rfl
    have hfew := (kept_iff_rivals hc).mp hkept n hn
    exact absurd (hfull.trans (Finset.card_le_card certain_subset_rivals)) (not_le.mpr hfew)
  · rintro ⟨a, ha, rfl, hroom⟩
    obtain ⟨c, hc, hid⟩ := candidate_of_contender ha
    rw [← hid]
    refine (kept_iff_rivals hc).mpr fun n hn => ?_
    exact (Finset.card_le_card rivals_subset_possible).trans_lt
      (hroom c (contender_of_candidate hc) hid n hn)

theorem exists_arrangement (s : ScanInputs) (rows : List CatalogRow)
    (listing : List SnapshotListEntry) (coverage : ListingCoverage) (p : CatalogRow → Bool) :
    ∃ rows' : List CatalogRow, rows'.Perm rows ∧
      ∀ c ∈ outOfWindowCandidates rows' (listing.map SnapshotListEntry.id) (s.rowFilter coverage),
        ∀ r ∈ contenders s rows listing coverage, r.snapshotId = c.snapshotId → p r = true →
          p c = true := by
  have hperm : (rows.filter p ++ rows.filter fun r => !p r).Perm rows :=
    List.filter_append_perm p rows
  refine ⟨_, hperm, fun c hc r hr hid hp => ?_⟩
  obtain ⟨hrow, hunlisted, hnewest, -⟩ := mem_contenders.mp hr
  have hcnewest := (mem_outOfWindowCandidates.mp hc).1
  have hsplit : unlistedRows (rows.filter p ++ rows.filter fun r => !p r)
      (listing.map SnapshotListEntry.id) c.snapshotId =
      (unlistedRows rows (listing.map SnapshotListEntry.id) c.snapshotId).filter p ++
        (unlistedRows rows (listing.map SnapshotListEntry.id) c.snapshotId).filter
          fun r => !p r := by
    simp only [unlistedRows, List.filter_append, List.filter_filter]
    congr 1 <;> exact List.filter_congr fun r _ => by rw [← Bool.and_assoc, Bool.and_comm]
  rw [hsplit] at hcnewest
  refine newestRow_of_first hcnewest (mem_unlistedRows.mpr ⟨hrow, hunlisted, hid⟩) hp
    fun r' hr' => ?_
  obtain ⟨hrow', -, hid'⟩ := mem_unlistedRows.mp hr'
  exact hnewest r' hrow' (hid'.trans hid.symm)

theorem arranged_contenders {rows' : List CatalogRow} (hperm : rows'.Perm rows)
    (ha : a ∈ contenders s rows listing coverage) :
    ∃ c ∈ outOfWindowCandidates rows' (listing.map SnapshotListEntry.id) (s.rowFilter coverage),
      c.snapshotId = a.snapshotId ∧ rowRank c = rowRank a ∧
        c ∈ contenders s rows listing coverage := by
  have hsame := contenders_perm s coverage hperm (.refl listing)
  obtain ⟨c, hc, hid⟩ := candidate_of_contender (hsame.symm ▸ ha)
  have hcontender := hsame ▸ contender_of_candidate hc
  exact ⟨c, hc, hid, rowRank_eq_of_contenders ha hcontender hid, hcontender⟩

theorem exists_dropped (ha : a ∈ contenders s rows listing coverage)
    (hroom : ¬HasRoom (contenders s rows listing coverage) (roomFor s listing coverage) a) :
    ∃ rows' : List CatalogRow, rows'.Perm rows ∧
      a.snapshotId ∉ keptRows s rows' listing coverage := by
  simp only [HasRoom, not_forall, not_lt] at hroom
  obtain ⟨n, hn, hfull⟩ := hroom
  obtain ⟨rows', hperm, hpick⟩ := exists_arrangement s rows listing coverage
    fun r => decide (r.identity = a.identity)
  refine ⟨rows', hperm, ?_⟩
  obtain ⟨c, hc, hid, hrank, -⟩ := arranged_contenders hperm ha
  have hidentity : c.identity = a.identity := by simpa using hpick c hc a ha hid.symm (by simp)
  -- Every possible rival competes.
  have hsub : possibleRivals (contenders s rows listing coverage) a ⊆
      rivals (outOfWindowCandidates rows' (listing.map SnapshotListEntry.id)
        (s.rowFilter coverage)) c := by
    intro id hmem
    obtain ⟨r, hr, hrival, hlt, rfl⟩ := mem_possibleRivals.mp hmem
    obtain ⟨d, hd, hdid, hdrank, -⟩ := arranged_contenders hperm hr
    refine mem_rivals.mpr ⟨d, hd, ?_, by rw [hdrank, hrank]; exact hlt, hdid⟩
    rw [hidentity]
    simpa using hpick d hd r hr hdid.symm (by simpa using hrival)
  rw [← hid, kept_iff_rivals hc, hidentity]
  exact fun hfew => absurd (hfull.trans (Finset.card_le_card hsub)) (not_le.mpr (hfew n hn))

theorem exists_kept (ha : a ∈ contenders s rows listing coverage)
    (hcrowded : ¬Crowded (contenders s rows listing coverage) (roomFor s listing coverage) a) :
    ∃ rows' : List CatalogRow, rows'.Perm rows ∧
      a.snapshotId ∈ keptRows s rows' listing coverage := by
  simp only [Crowded, not_exists, not_and, not_le] at hcrowded
  -- The row speaks for its snapshot, and rows of its identity for no other that has a choice.
  obtain ⟨rows', hperm, hpick⟩ := exists_arrangement s rows listing coverage fun r =>
    decide (r.snapshotId = a.snapshotId ↔ r.identity = a.identity)
  refine ⟨rows', hperm, ?_⟩
  obtain ⟨c, hc, hid, hrank, -⟩ := arranged_contenders hperm ha
  have hidentity : c.identity = a.identity := by
    have hpicked := hpick c hc a ha hid.symm (by simp)
    simpa [hid] using hpicked
  have hsub : rivals (outOfWindowCandidates rows' (listing.map SnapshotListEntry.id)
      (s.rowFilter coverage)) c ⊆ certainRivals (contenders s rows listing coverage) a := by
    intro id hmem
    obtain ⟨d, hd, hdidentity, hlt, rfl⟩ := mem_rivals.mp hmem
    have hsame := contenders_perm s coverage hperm (.refl listing)
    have hdc := hsame ▸ contender_of_candidate hd
    rw [hidentity] at hdidentity
    rw [hrank] at hlt
    have hne : d.snapshotId ≠ a.snapshotId := fun heq =>
      lt_irrefl _ (rowRank_eq_of_contenders ha hdc heq ▸ hlt)
    refine Finset.mem_filter.mpr ⟨mem_possibleRivals.mpr ⟨d, hdc, hdidentity, hlt, rfl⟩,
      fun r hr hrid => ?_⟩
    by_contra hother
    have hpicked := hpick d hd r hr hrid (by simp [hrid, hne, hother])
    simp [hne, hdidentity] at hpicked
  rw [← hid, kept_iff_rivals hc, hidentity]
  exact fun n hn => (Finset.card_le_card hsub).trans_lt (hcrowded n hn)

theorem OrderIndependent.rowsClear (h : OrderIndependent s rows listing coverage)
    (hkeys : (rows.map CatalogRow.key).Nodup) :
    RowsClear (contenders s rows listing coverage) (roomFor s listing coverage) := by
  intro a ha
  by_contra hnot
  simp only [not_or, not_forall] at hnot
  obtain ⟨⟨a₁, ha₁, hid₁, hroom⟩, a₂, ha₂, hid₂, hcrowded⟩ := hnot
  obtain ⟨rows₁, hperm₁, hdropped⟩ := exists_dropped ha₁ hroom
  obtain ⟨rows₂, hperm₂, hkept⟩ := exists_kept ha₂ hcrowded
  rw [hid₁] at hdropped
  rw [hid₂] at hkept
  obtain ⟨hrow, hunlisted, -⟩ := mem_contenders.mp ha
  have hexpired : ∀ {rows' : List CatalogRow}, rows'.Perm rows →
      (a.key ∈ (planCatalog s rows listing coverage).expire ↔
        a.snapshotId ∉ keptRows s rows' listing coverage) := by
    intro rows' hperm
    rw [← (h rows' listing hperm (.refl _)).2 a.key, kept_iff_not_expired
      ((hperm.map _).nodup_iff.mpr hkeys) (hperm.mem_iff.mpr hrow), keptIds, List.mem_append,
      not_or]
    exact and_iff_right fun hwindow => hunlisted (listed_of_windowIds hwindow)
  exact (hexpired hperm₂).mp ((hexpired hperm₁).mpr hdropped) hkept

end Rows

/-- Plans agree over all orders of the listing and of the rows exactly when no
tie lies across the cut of an identity, and no snapshot outside the listing has
newest rows that decide differently whether it keeps a slot. -/
theorem order_independent_iff (s : ScanInputs) (rows : List CatalogRow)
    (listing : List SnapshotListEntry) (coverage : ListingCoverage)
    (hids : (listing.map SnapshotListEntry.id).Nodup) (hkeys : (rows.map CatalogRow.key).Nodup) :
    OrderIndependent s rows listing coverage ↔ WindowClear s listing ∧
      RowsClear (contenders s rows listing coverage) (roomFor s listing coverage) := by
  refine ⟨fun h => ⟨h.windowClear hids hkeys, h.rowsClear hkeys⟩, ?_⟩
  rintro ⟨hwindow, hrows⟩ rows' listing' hperm hperm'
  have hids' : (listing'.map SnapshotListEntry.id).Nodup := (hperm'.map _).nodup_iff.mpr hids
  have hkept : ∀ id, id ∈ keptRows s rows' listing' coverage ↔
      id ∈ keptRows s rows listing coverage := by
    intro id
    have hrows' := hrows
    rw [← contenders_perm s coverage hperm hperm', ← roomFor_perm hperm'] at hrows'
    rw [hrows'.kept_iff, hrows.kept_iff, contenders_perm s coverage hperm hperm', roomFor_perm hperm']
  have hwindow' : ∀ e, e ∈ (s.window listing').flatMap Prod.snd ↔
      e ∈ (s.window listing).flatMap Prod.snd := fun e => hwindow.mem_window_iff hids hperm'
  constructor
  · intro e
    rw [mem_create hids', mem_create hids, hwindow' e, (hperm.map _).mem_iff]
  · have hkept' : ∀ id, id ∈ keptIds s rows' listing' coverage ↔
        id ∈ keptIds s rows listing coverage := by
      intro id
      simp only [keptIds, windowIds, List.mem_append, List.mem_map, hwindow', hkept]
    intro key
    rw [mem_expire_key ((hperm.map _).nodup_iff.mpr hkeys), mem_expire_key hkeys]
    simp only [hperm.mem_iff, hkept']

/-- Two entries of an identity that ended one after the other, and the row of a
third that no scan has listed since. -/
theorem order_independent_two :
    OrderIndependent oneEach [nasTarget.row (hostEntry "gone" "apps" 1)]
      [hostEntry "new" "apps" 3, hostEntry "old" "apps" 2] (.incomplete .moverTooOld) := by
  refine (order_independent_iff _ _ _ _ (by decide) (by decide)).mpr ⟨fun n hn => ?_, fun a _ => ?_⟩
  · obtain rfl : (1 : Nat) = n := Option.some.inj hn
    have hclear : ∀ e ∈ [hostEntry "new" "apps" 3, hostEntry "old" "apps" 2],
        (possiblyBefore EndsNoEarlier e (slotEntries oneEach
          [hostEntry "new" "apps" 3, hostEntry "old" "apps" 2] (identityKey e.source))).length < 1 ∨
        1 ≤ (strictlyBefore EndsNoEarlier e (slotEntries oneEach
          [hostEntry "new" "apps" 3, hostEntry "old" "apps" 2] (identityKey e.source))).length := by
      decide
    exact fun e he _ => hclear e he
  · refine .inl fun a' _ _ n hn => ?_
    simp [roomFor, rowRankCap] at hn

/-- Two entries of one identity that ended together: the first listed is created. -/
theorem tie_depends_on_order :
    ¬OrderIndependent oneEach [] [hostEntry "a" "apps" 3, hostEntry "b" "apps" 3] .complete := by
  intro h
  have hcreate := (h [] [hostEntry "b" "apps" 3, hostEntry "a" "apps" 3] (.refl _)
    (.swap _ _ [])).1 (hostEntry "a" "apps" 3)
  exact absurd (hcreate.mpr (by decide)) (by decide)

end Kopiur
