import Kopiur.Mover.CatalogEntries
import Mathlib.Order.WithBot

/-!
# Planning a catalog scan

A scan compares the entries the mover shipped with the rows materialized
before: entries in the window get a row, rows whose snapshot is gone or beyond
`retain` expire. What a row outside the window is worth depends on how much of
the repository the listing speaks for.
-/

namespace Kopiur

open Lib

attribute [local instance] timePreorder

def identityKeyParts (user host path : String) : String := user ++ "@" ++ host ++ ":" ++ path

def identityKey (source : SnapshotSource) : String :=
  identityKeyParts source.userName source.host source.path

inductive InvalidDigest
  | undecodable (e : DigestError)
  | count (held expected : Int) (snapshotCount : Option Int) (foreignSuffixDropped : Int)
  | missing (id : String)
deriving DecidableEq

inductive PartialReason
  | moverTooOld
  | overDigestBudget
  | invalid (why : InvalidDigest)
deriving DecidableEq

inductive ListingCoverage
  | complete
  | capped (present : DecodedDigest)
  | incomplete (reason : PartialReason)
deriving DecidableEq

/-- Decode a digest and compare it with the rest of the result. -/
def verifiedDigest (listed : ListedIds) (result : BootstrapResult) :
    Except InvalidDigest DecodedDigest :=
  match listed.decode with
  | .error e => .error (.undecodable e)
  | .ok decoded =>
    let expected := result.snapshotCount.getD (-1) - result.foreignSuffixDropped
    -- No vector is longer than an `i64` can say.
    let held : Int := decoded.len
    if held ≠ expected then
      .error (.count held expected result.snapshotCount result.foreignSuffixDropped)
    else
      match result.snapshots.find? fun e => !decoded.contains e.id with
      | some e => .error (.missing e.id)
      | none => .ok decoded

def coverageFor (result : BootstrapResult) : ListingCoverage :=
  if !result.snapshotsTruncated then .complete
  else
    match result.listedIds with
    | none =>
      .incomplete (match result.logicalBytes with
        | some _ => .overDigestBudget
        | none => .moverTooOld)
    | some listed =>
      match verifiedDigest listed result with
      | .ok present => .capped present
      | .error why => .incomplete (.invalid why)

structure CatalogRetain where
  perIdentity : Option Int := none
  maxAgeDays : Option Int := none
deriving DecidableEq

structure RetainBounds where
  maxAge : Option Duration
  perIdentity : Option Nat
  now : DateTime
deriving DecidableEq

def RetainBounds.new (retain : Option CatalogRetain) (now : DateTime) : RetainBounds where
  maxAge := ((retain.bind CatalogRetain.maxAgeDays).filter fun d => decide (1 ≤ d)).map
    fun d => Duration.seconds (d * 86400)
  perIdentity := ((retain.bind CatalogRetain.perIdentity).filter fun n => decide (0 ≤ n)).map
    Int.toNat
  now

def RetainBounds.withinAge (b : RetainBounds) (endTime : DateTime) : Bool :=
  b.maxAge.all fun a => decide (b.now < endTime + a)

-- The plan

/-- A discovered row as the planner sees it. -/
structure CatalogRow where
  namespace_ : String
  name : String
  snapshotId : String
  endTime : Option DateTime := none
  identity : Option String := none
deriving DecidableEq

def EndsNoEarlier (a b : SnapshotListEntry) : Prop := b.endTime ≤ a.endTime

instance : DecidableRel EndsNoEarlier := fun _ _ => inferInstanceAs (Decidable (_ ≤ _))

def eligibleEntry (producedIds foreignIgnoredIds : List String) (bounds : RetainBounds)
    (e : SnapshotListEntry) : Bool :=
  decide (e.id ∉ producedIds) && decide (e.id ∉ foreignIgnoredIds) && bounds.withinAge e.endTime

/-- The most recent eligible entries of each identity. -/
def windowKeep (listing : List SnapshotListEntry) (producedIds foreignIgnoredIds : List String)
    (bounds : RetainBounds) : List (String × List SnapshotListEntry) :=
  let eligible := listing.filter (eligibleEntry producedIds foreignIgnoredIds bounds)
  (groups (eligible.map fun e => (identityKey e.source, e))).map fun g =>
    let entries := g.2.insertionSort EndsNoEarlier
    (g.1, entries.take (bounds.perIdentity.getD entries.length))

def presenceUnrefuted (coverage : ListingCoverage) (id : String) : Bool :=
  match coverage with
  | .complete => false
  | .capped present => present.contains id
  | .incomplete _ => true

structure RowFilter where
  producedIds : List String
  foreignIgnoredIds : List String
  rowForeignIgnoredIds : List String
  coverage : ListingCoverage
  bounds : RetainBounds

def RowFilter.admits (f : RowFilter) (row : CatalogRow) : Bool :=
  decide (row.snapshotId ∉ f.producedIds) && decide (row.snapshotId ∉ f.foreignIgnoredIds) &&
    decide (row.snapshotId ∉ f.rowForeignIgnoredIds) && row.endTime.all f.bounds.withinAge &&
    presenceUnrefuted f.coverage row.snapshotId

def endRank (t : Option DateTime) : WithBot DateTime := t

@[simp] theorem endRank_lt {a b : DateTime} : endRank (some a) < endRank (some b) ↔ a < b :=
  WithBot.coe_lt_coe

@[simp] theorem endRank_inj {a b : DateTime} : endRank (some a) = endRank (some b) ↔ a = b :=
  WithBot.coe_inj

def newestRow (rows : List CatalogRow) : Option CatalogRow :=
  rows.head?.map fun first =>
    rows.foldl (fun slot r => if endRank slot.endTime < endRank r.endTime then r else slot) first

def outOfWindowCandidates (rows : List CatalogRow) (listed : List String) (f : RowFilter) :
    List CatalogRow :=
  let unlisted := rows.filter fun r => decide (r.snapshotId ∉ listed)
  ((groups (unlisted.map fun r => (r.snapshotId, r))).filterMap fun g => newestRow g.2).filter
    f.admits

def rowRankCap (coverage : ListingCoverage) (bounds : RetainBounds) : Option Nat :=
  match coverage with
  | .complete | .capped _ => bounds.perIdentity
  | .incomplete _ => none

def RowBefore (a b : CatalogRow) : Prop :=
  endRank b.endTime < endRank a.endTime ∨
    (endRank a.endTime = endRank b.endTime ∧ a.snapshotId ≤ b.snapshotId)

instance : DecidableRel RowBefore := fun _ _ => inferInstanceAs (Decidable (_ ∨ _))

def freeSlots (window : List (String × List SnapshotListEntry)) (perIdentity : Option Nat)
    (identity : Option String) : Option Nat :=
  match identity with
  | none => none
  | some key => perIdentity.map fun n => n - ((window.lookup key).map List.length).getD 0

def fillRowSlots (candidates : List CatalogRow) (window : List (String × List SnapshotListEntry))
    (perIdentity : Option Nat) : List String :=
  (groups (candidates.map fun r => ((r.identity : WithBot String), r))).flatMap fun g =>
    let rows := g.2.insertionSort RowBefore
    (rows.take ((freeSlots window perIdentity g.1).getD rows.length)).map CatalogRow.snapshotId

structure CatalogPlan where
  create : List SnapshotListEntry
  expire : List (String × String)
deriving DecidableEq

/-- What `planCatalog` reads beside the rows and the listing. -/
structure ScanInputs where
  producedIds : List String := []
  foreignIgnoredIds : List String := []
  rowForeignIgnoredIds : List String := []
  retain : Option CatalogRetain := none
  now : DateTime

namespace ScanInputs

def bounds (s : ScanInputs) : RetainBounds := RetainBounds.new s.retain s.now

def window (s : ScanInputs) (listing : List SnapshotListEntry) :
    List (String × List SnapshotListEntry) :=
  windowKeep listing s.producedIds s.foreignIgnoredIds s.bounds

def eligible (s : ScanInputs) : SnapshotListEntry → Bool :=
  eligibleEntry s.producedIds s.foreignIgnoredIds s.bounds

def rowFilter (s : ScanInputs) (coverage : ListingCoverage) : RowFilter where
  producedIds := s.producedIds
  foreignIgnoredIds := s.foreignIgnoredIds
  rowForeignIgnoredIds := s.rowForeignIgnoredIds
  coverage
  bounds := s.bounds

end ScanInputs

def keptRows (s : ScanInputs) (rows : List CatalogRow) (listing : List SnapshotListEntry)
    (coverage : ListingCoverage) : List String :=
  let candidates := outOfWindowCandidates rows (listing.map SnapshotListEntry.id)
    (s.rowFilter coverage)
  fillRowSlots candidates (s.window listing) (rowRankCap coverage s.bounds)

def planCatalog (s : ScanInputs) (rows : List CatalogRow) (listing : List SnapshotListEntry)
    (coverage : ListingCoverage) : CatalogPlan :=
  let entries := (s.window listing).flatMap Prod.snd
  let kept := keptRows s rows listing coverage
  let keptEntries := (groups (entries.map fun e => (e.id, e))).filterMap fun g => g.2.getLast?
  let have_ := rows.map CatalogRow.snapshotId
  { create := (keptEntries.filter fun e => decide (e.id ∉ kept) && decide (e.id ∉ have_)
      ).insertionSort EndsNoEarlier
    expire := (rows.filter fun r => decide (r.snapshotId ∉ entries.map SnapshotListEntry.id) &&
      decide (r.snapshotId ∉ kept)).map fun r => (r.namespace_, r.name) }

section Window

variable {s : ScanInputs} {listing : List SnapshotListEntry}

def slotEntries (s : ScanInputs) (listing : List SnapshotListEntry) (key : String) :
    List SnapshotListEntry :=
  (listing.filter s.eligible).filter fun e => identityKey e.source = key

theorem mem_window {key : String} {entries : List SnapshotListEntry} :
    (key, entries) ∈ s.window listing ↔ slotEntries s listing key ≠ [] ∧
      entries = ((slotEntries s listing key).insertionSort EndsNoEarlier).take
        (s.bounds.perIdentity.getD (slotEntries s listing key).length) := by
  simp only [ScanInputs.window, windowKeep, List.mem_map, Prod.mk.injEq, Prod.exists]
  constructor
  · rintro ⟨key', vs, hmem, rfl, rfl⟩
    obtain ⟨rfl, hne⟩ := (mem_groups_map _ _ _ _).mp hmem
    rw [List.length_insertionSort]
    exact ⟨hne, rfl⟩
  · rintro ⟨hne, rfl⟩
    refine ⟨key, _, (mem_groups_map _ _ _ _).mpr ⟨rfl, hne⟩, rfl, ?_⟩
    rw [List.length_insertionSort]
    rfl

theorem sorted_window : (s.window listing).Pairwise fun a b => a.1 < b.1 := by
  rw [ScanInputs.window, windowKeep, List.pairwise_map]
  exact (represents_groups _).sorted

theorem used_window {n : Nat} (hn : s.bounds.perIdentity = some n) (key : String) :
    (((s.window listing).lookup key).map List.length).getD 0 =
      min n (slotEntries s listing key).length := by
  by_cases hnil : slotEntries s listing key = []
  · cases hlookup : (s.window listing).lookup key with
    | none => simp [hnil]
    | some entries =>
      rw [lookup_of_sorted sorted_window, mem_window] at hlookup
      exact absurd hnil hlookup.1
  · rw [(lookup_of_sorted sorted_window key _).mpr (mem_window.mpr ⟨hnil, rfl⟩)]
    simp [hn]

theorem mem_window_entries {e : SnapshotListEntry} :
    e ∈ (s.window listing).flatMap Prod.snd ↔
      e ∈ ((slotEntries s listing (identityKey e.source)).insertionSort EndsNoEarlier).take
        (s.bounds.perIdentity.getD (slotEntries s listing (identityKey e.source)).length) := by
  rw [List.mem_flatMap]
  constructor
  · rintro ⟨⟨key, entries⟩, hmem, he⟩
    obtain ⟨-, rfl⟩ := mem_window.mp hmem
    have hslot := (List.mem_insertionSort _).mp (List.mem_of_mem_take he)
    have hkey : identityKey e.source = key := by simpa using (List.mem_filter.mp hslot).2
    exact hkey ▸ he
  · intro he
    refine ⟨(identityKey e.source, _), mem_window.mpr ⟨?_, rfl⟩, he⟩
    exact List.ne_nil_of_mem ((List.mem_insertionSort _).mp (List.mem_of_mem_take he))

end Window

-- Which rows outside the window stay

theorem newestRow_mem {rows : List CatalogRow} {r : CatalogRow} (h : newestRow rows = some r) :
    r ∈ rows := by
  obtain ⟨first, hfirst, rfl⟩ := Option.map_eq_some_iff.mp h
  refine List.foldlRecOn rows _ (List.mem_of_mem_head? hfirst) fun slot hslot r hr => ?_
  split
  · exact hr
  · exact hslot

section Rows

variable {rows : List CatalogRow} {listed : List String} {f : RowFilter}

def unlistedRows (rows : List CatalogRow) (listed : List String) (id : String) : List CatalogRow :=
  (rows.filter fun r => decide (r.snapshotId ∉ listed)).filter fun r => decide (r.snapshotId = id)

theorem mem_unlistedRows {id : String} {r : CatalogRow} :
    r ∈ unlistedRows rows listed id ↔ r ∈ rows ∧ r.snapshotId ∉ listed ∧ r.snapshotId = id := by
  simp only [unlistedRows, List.mem_filter, decide_eq_true_eq, and_assoc]

theorem mem_unlisted_groups {id : String} {group : List CatalogRow} :
    (id, group) ∈ groups ((rows.filter fun r => decide (r.snapshotId ∉ listed)).map
      fun r => (r.snapshotId, r)) ↔ group = unlistedRows rows listed id ∧ group ≠ [] :=
  mem_groups_map _ _ _ _

theorem newestRow_isSome {rows : List CatalogRow} (h : rows ≠ []) :
    ∃ r, newestRow rows = some r := by
  cases rows with
  | nil => exact absurd rfl h
  | cons first rest => exact ⟨_, rfl⟩

theorem mem_outOfWindowCandidates {c : CatalogRow} :
    c ∈ outOfWindowCandidates rows listed f ↔
      newestRow (unlistedRows rows listed c.snapshotId) = some c ∧ f.admits c = true := by
  simp only [outOfWindowCandidates, List.mem_filter, List.mem_filterMap, Prod.exists,
    mem_unlisted_groups]
  refine and_congr_left fun _ => ⟨?_, fun h => ?_⟩
  · rintro ⟨id, group, ⟨rfl, -⟩, hnewest⟩
    obtain rfl := (mem_unlistedRows.mp (newestRow_mem hnewest)).2.2
    exact hnewest
  · exact ⟨c.snapshotId, _, ⟨rfl, List.ne_nil_of_mem (newestRow_mem h)⟩, h⟩

theorem candidate_sound {c : CatalogRow} (h : c ∈ outOfWindowCandidates rows listed f) :
    c ∈ rows ∧ c.snapshotId ∉ listed ∧ f.admits c = true := by
  obtain ⟨hnewest, hadmits⟩ := mem_outOfWindowCandidates.mp h
  obtain ⟨hrow, hlisted, -⟩ := mem_unlistedRows.mp (newestRow_mem hnewest)
  exact ⟨hrow, hlisted, hadmits⟩

theorem candidate_of_row {r : CatalogRow} (hr : r ∈ rows) (hlisted : r.snapshotId ∉ listed)
    (hadmits : ∀ r' ∈ rows, r'.snapshotId = r.snapshotId → f.admits r' = true) :
    ∃ c ∈ outOfWindowCandidates rows listed f, c.snapshotId = r.snapshotId := by
  have hmem : r ∈ unlistedRows rows listed r.snapshotId := mem_unlistedRows.mpr ⟨hr, hlisted, rfl⟩
  obtain ⟨c, hc⟩ := newestRow_isSome (List.ne_nil_of_mem hmem)
  obtain ⟨hrow, -, hid⟩ := mem_unlistedRows.mp (newestRow_mem hc)
  exact ⟨c, mem_outOfWindowCandidates.mpr ⟨hid ▸ hc, hadmits c hrow hid⟩, hid⟩

theorem candidates_nodup :
    ((outOfWindowCandidates rows listed f).map CatalogRow.snapshotId).Nodup := by
  refine List.Nodup.sublist (List.filter_sublist.map CatalogRow.snapshotId) ?_
  refine (map_filterMap_sublist _ fun g hg c hc =>
    (mem_unlistedRows.mp (newestRow_mem ((mem_unlisted_groups.mp hg).1 ▸ hc))).2.2).nodup ?_
  rw [List.nodup_iff_pairwise_ne, List.pairwise_map]
  exact (represents_groups _).sorted.imp fun h => h.ne

end Rows

def rowRank (r : CatalogRow) : (WithBot DateTime)ᵒᵈ ×ₗ String :=
  toLex (OrderDual.toDual (endRank r.endTime), r.snapshotId)

theorem rowBefore_iff {a b : CatalogRow} : RowBefore a b ↔ rowRank a ≤ rowRank b := by
  rw [rowRank, rowRank, Prod.Lex.toLex_le_toLex]
  simp [RowBefore]

instance : Std.Total RowBefore where
  total a b := by
    simp only [rowBefore_iff]
    exact le_total _ _

instance : IsTrans CatalogRow RowBefore where
  trans a b c := by
    simp only [rowBefore_iff]
    exact le_trans

def rankedRows (candidates : List CatalogRow) (identity : Option String) : List CatalogRow :=
  (candidates.filter fun r => r.identity = identity).insertionSort RowBefore

theorem mem_fillRowSlots {candidates : List CatalogRow}
    {window : List (String × List SnapshotListEntry)} {cap : Option Nat} {id : String} :
    id ∈ fillRowSlots candidates window cap ↔
      ∃ c, c.snapshotId = id ∧ c ∈ (rankedRows candidates c.identity).take
        ((freeSlots window cap c.identity).getD (rankedRows candidates c.identity).length) := by
  simp only [fillRowSlots, List.mem_flatMap, List.mem_map, Prod.exists]
  constructor
  · rintro ⟨identity, rows, hmem, c, hc, rfl⟩
    obtain ⟨rfl, -⟩ := (mem_groups_map _ _ _ _).mp hmem
    have hslot := (List.mem_insertionSort _).mp (List.mem_of_mem_take hc)
    have hidentity : @Eq (WithBot String) c.identity identity := by
      simpa using (List.mem_filter.mp hslot).2
    subst hidentity
    exact ⟨c, rfl, hc⟩
  · rintro ⟨c, rfl, hc⟩
    have hslot := (List.mem_insertionSort _).mp (List.mem_of_mem_take hc)
    refine ⟨c.identity, _, (mem_groups_map _ _ _ _).mpr ⟨rfl, ?_⟩, c, hc, rfl⟩
    exact List.ne_nil_of_mem hslot

theorem mem_expire {s : ScanInputs} {rows : List CatalogRow} {listing : List SnapshotListEntry}
    {coverage : ListingCoverage} (hnames : (rows.map fun r => (r.namespace_, r.name)).Nodup)
    {r : CatalogRow} (hr : r ∈ rows) :
    (r.namespace_, r.name) ∈ (planCatalog s rows listing coverage).expire ↔
      r.snapshotId ∉ ((s.window listing).flatMap Prod.snd).map SnapshotListEntry.id ∧
        r.snapshotId ∉ keptRows s rows listing coverage := by
  rw [planCatalog, List.mem_map]
  constructor
  · rintro ⟨r', hr', heq⟩
    obtain ⟨hmem, hgone⟩ := List.mem_filter.mp hr'
    obtain rfl := List.inj_on_of_nodup_map hnames hmem hr heq
    simpa using hgone
  · intro hgone
    exact ⟨r, List.mem_filter.mpr ⟨hr, by simpa using hgone⟩, rfl⟩

end Kopiur
