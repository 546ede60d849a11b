import Kopiur.Api.Recorded
import Kopiur.Kopia.Listing
import Kopiur.Lib.Lists
import Mathlib.Data.List.Sort

/-!
# Which snapshot a restore takes

A restore that names an identity picks a snapshot by a cutoff and an offset from
the newest. The mover picks it from kopia's listing. The controller picks it
from the Snapshot objects when the restore also takes the recorded identity of
the mover that made the backup.
-/

namespace Kopiur

open Lib

def filterAsOf (snapshots : List SnapshotListEntry) (cutoff : Option DateTime) :
    List SnapshotListEntry :=
  match cutoff with
  | some cutoff => snapshots.filter fun e => e.endTime ≤ cutoff
  | none => snapshots

/-- The snapshot at a zero-based offset from the newest; a negative offset is the
newest. -/
def pickOffset (snapshots : List SnapshotListEntry) (offset : Int) : Option SnapshotListEntry :=
  snapshots[(max offset 0).toNat]?

def listedFor (triple : SnapshotIdentity) (e : SnapshotListEntry) : Bool :=
  e.source.userName == triple.username && e.source.host == triple.hostname &&
    match triple.sourcePath with
    | some p => e.source.path == p
    | none => true

def resolveFromListing (triple : SnapshotIdentity) (asOf : Option DateTime) (offset : Int)
    (manifests : List SnapshotListEntry) : Option SnapshotListEntry :=
  let list := completeOnly (manifests.filter (listedFor triple))
  let list := list.insertionSort fun a b => b.endTime ≤ a.endTime
  pickOffset (filterAsOf list asOf) offset

/-- A Snapshot with its `status.recorded`. -/
structure CataloguedSnapshot extends Snapshot where
  recorded : Option RecordedSnapshotMeta := none
deriving DecidableEq

structure RecordedRow where
  name : String
  kopiaSnapshotId : String
  identity : SnapshotIdentity
  recordedMeta : RecordedSnapshotMeta
deriving DecidableEq

section Select

variable (rfc : Rfc3339) (triple : SnapshotIdentity)

def identityMatches (row : SnapshotInfo) : Bool :=
  row.identity.username == triple.username && row.identity.hostname == triple.hostname &&
    match triple.sourcePath with
    | some p => row.identity.sourcePath == some p
    | none => true

def rowTime (snap : CataloguedSnapshot) : Option DateTime := do
  let timing ← (← snap.status).timing
  let raw ← timing.endTime <|> timing.startTime
  rfc.parse raw

def isCandidate (snap : CataloguedSnapshot) : Bool :=
  match snap.status with
  | none => false
  | some status => snap.recorded.isSome && status.snapshot.any (identityMatches triple)

def pickRow (snap : CataloguedSnapshot) : Option RecordedRow := do
  let status ← snap.status
  let info ← status.snapshot
  let recordedMeta ← snap.recorded
  some
    { name := snap.metadata.nameAny
      kopiaSnapshotId := info.kopiaSnapshotId
      identity := info.identity
      recordedMeta }

/-- Newest first, undated rows last, equal times by name. -/
def rowBefore (a b : CataloguedSnapshot × Option DateTime) : Bool :=
  match a.2, b.2 with
  | some ta, some tb =>
    decide (tb < ta) || (ta == tb && decide (a.1.metadata.nameAny ≤ b.1.metadata.nameAny))
  | some _, none => true
  | none, some _ => false
  | none, none => decide (a.1.metadata.nameAny ≤ b.1.metadata.nameAny)

def selectRecordedSource (asOf : Option DateTime) (offset : Int) (snapshotId : Option String)
    (rows : List CataloguedSnapshot) : Option RecordedRow :=
  let candidates := (rows.filter (isCandidate triple)).map fun snap => (snap, rowTime rfc snap)
  match snapshotId with
  | some id =>
    (candidates.find? fun c => ((c.1.status.bind SnapshotStatus.snapshot).any fun s =>
      s.kopiaSnapshotId == id)).bind fun c => pickRow c.1
  | none =>
    let candidates : List (CataloguedSnapshot × Option DateTime) :=
      match asOf with
      | some cutoff => candidates.filter fun c => c.2.any fun t => t ≤ cutoff
      | none => candidates
    ((candidates.insertionSort fun a b => rowBefore a b)[(max offset 0).toNat]?).bind fun c =>
      pickRow c.1

end Select

section Agreement

variable (rfc : Rfc3339)

structure Describes (e : SnapshotListEntry) (row : CataloguedSnapshot) : Prop where
  info : row.status.bind SnapshotStatus.snapshot =
    some ⟨e.id, ⟨e.source.userName, e.source.host, some e.source.path⟩⟩
  time : ∀ t, rowTime rfc row = some t → t = e.endTime

def replayable (catalog : List (SnapshotListEntry × CataloguedSnapshot)) :
    List SnapshotListEntry :=
  (catalog.filter fun p => p.2.recorded.isSome && (rowTime rfc p.2).isSome).map Prod.fst

variable {rfc} {triple : SnapshotIdentity} {e : SnapshotListEntry} {row : CataloguedSnapshot}

theorem Describes.isCandidate_eq (h : Describes rfc e row) :
    isCandidate triple row = (row.recorded.isSome && listedFor triple e) := by
  obtain ⟨status, hstatus, hsnapshot⟩ := Option.bind_eq_some_iff.mp h.info
  simp only [isCandidate, hstatus, hsnapshot, Option.any_some, identityMatches, listedFor]
  cases triple.sourcePath <;> simp

theorem Describes.pickRow_id (h : Describes rfc e row) (hrecorded : row.recorded.isSome) :
    ∃ r, pickRow row = some r ∧ r.kopiaSnapshotId = e.id := by
  obtain ⟨status, hstatus, hsnapshot⟩ := Option.bind_eq_some_iff.mp h.info
  obtain ⟨recordedMeta, hmeta⟩ := Option.isSome_iff_exists.mp hrecorded
  refine ⟨⟨row.metadata.nameAny, e.id, ⟨e.source.userName, e.source.host, some e.source.path⟩,
    recordedMeta⟩, ?_, rfl⟩
  simp [pickRow, hstatus, hsnapshot, hmeta]

theorem rowBefore_total (a b : CataloguedSnapshot × Option DateTime) :
    rowBefore a b = true ∨ rowBefore b a = true := by
  obtain ⟨a, ta⟩ := a
  obtain ⟨b, tb⟩ := b
  have hname := le_total a.metadata.nameAny b.metadata.nameAny
  cases ta <;> cases tb <;> simp only [rowBefore] <;> grind

theorem rowBefore_trans {a b c : CataloguedSnapshot × Option DateTime}
    (hab : rowBefore a b = true) (hbc : rowBefore b c = true) : rowBefore a c = true := by
  obtain ⟨a, ta⟩ := a
  obtain ⟨b, tb⟩ := b
  obtain ⟨c, tc⟩ := c
  have hname : a.metadata.nameAny ≤ b.metadata.nameAny → b.metadata.nameAny ≤ c.metadata.nameAny →
      a.metadata.nameAny ≤ c.metadata.nameAny := le_trans
  cases ta <;> cases tb <;> cases tc <;> simp only [rowBefore] at hab hbc ⊢ <;> grind

instance : Std.Total fun a b => rowBefore a b = true := ⟨rowBefore_total⟩

instance : IsTrans (CataloguedSnapshot × Option DateTime) fun a b => rowBefore a b = true :=
  ⟨fun _ _ _ => rowBefore_trans⟩

def asOfRows (rfc : Rfc3339) (triple : SnapshotIdentity) (asOf : Option DateTime)
    (rows : List CataloguedSnapshot) : List (CataloguedSnapshot × Option DateTime) :=
  ((rows.filter (isCandidate triple)).map fun snap => (snap, rowTime rfc snap)).filter fun c =>
    asOf.all fun cutoff => c.2.any fun t => t ≤ cutoff

theorem selectRecordedSource_eq {asOf : Option DateTime} {offset : Int}
    {rows : List CataloguedSnapshot} :
    selectRecordedSource rfc triple asOf offset none rows =
      (((asOfRows rfc triple asOf rows).insertionSort fun a b => rowBefore a b)[(max offset
        0).toNat]?).bind fun c => pickRow c.1 := by
  cases asOf <;> simp [selectRecordedSource, asOfRows]

theorem filterAsOf_eq {asOf : Option DateTime} {l : List SnapshotListEntry} :
    filterAsOf l asOf = l.filter fun e => asOf.all fun cutoff => e.endTime ≤ cutoff := by
  cases asOf <;> simp [filterAsOf]

theorem dated_first {l : List (CataloguedSnapshot × Option DateTime)}
    (h : l.Pairwise fun a b => rowBefore a b = true) :
    l = l.filter (fun c => c.2.isSome) ++ l.filter fun c => !c.2.isSome := by
  refine eq_filter_append_filter_not (h.imp fun {a b} hab hb => ?_)
  obtain ⟨tb, hb⟩ := Option.isSome_iff_exists.mp hb
  cases ha : a.2 with
  | none => simp [rowBefore, ha, hb] at hab
  | some ta => rfl

theorem dated_descending {l : List (CataloguedSnapshot × Option DateTime)}
    (h : l.Pairwise fun a b => rowBefore a b = true) :
    ((l.filter fun c => c.2.isSome).map fun c => c.2.getD 0).Pairwise (· ≥ ·) := by
  rw [List.pairwise_map, List.pairwise_filter]
  refine h.imp fun {a b} hab ha hb => ?_
  obtain ⟨ta, ha⟩ := Option.isSome_iff_exists.mp ha
  obtain ⟨tb, hb⟩ := Option.isSome_iff_exists.mp hb
  simp only [rowBefore, ha, hb, Bool.or_eq_true, decide_eq_true_eq, Bool.and_eq_true,
    beq_iff_eq] at hab
  simp only [ha, hb, Option.getD_some, ge_iff_le]
  rcases hab with hlt | ⟨heq, -⟩
  · exact le_of_lt hlt
  · exact le_of_eq heq.symm

section Catalog

variable {asOf : Option DateTime} {offset : Int} {rows others : List CataloguedSnapshot}
  {manifests : List SnapshotListEntry} {catalog : List (SnapshotListEntry × CataloguedSnapshot)}

def inReach (rfc : Rfc3339) (triple : SnapshotIdentity) (asOf : Option DateTime)
    (p : SnapshotListEntry × CataloguedSnapshot) : Bool :=
  p.2.recorded.isSome && (rowTime rfc p.2).isSome && listedFor triple p.1 &&
    asOf.all fun cutoff => p.1.endTime ≤ cutoff

theorem dated_inReach {p : SnapshotListEntry × CataloguedSnapshot}
    (hdescribes : Describes rfc p.1 p.2) :
    ((rowTime rfc p.2).isSome && ((asOf.all fun cutoff => (rowTime rfc p.2).any fun t =>
      t ≤ cutoff) && isCandidate triple p.2)) = inReach rfc triple asOf p := by
  rw [hdescribes.isCandidate_eq, inReach]
  cases htime : rowTime rfc p.2 with
  | none => simp
  | some t =>
    rw [hdescribes.time t htime]
    simp only [Option.isSome_some, Bool.true_and, Option.any_some, Bool.and_true]
    cases p.2.recorded.isSome <;> cases listedFor triple p.1 <;> simp

theorem dated_asOfRows_perm (hrows : rows.Perm (catalog.map Prod.snd ++ others))
    (hdescribes : ∀ p ∈ catalog, Describes rfc p.1 p.2)
    (hothers : ∀ row ∈ others, isCandidate triple row = false) :
    ((asOfRows rfc triple asOf rows).filter fun c => c.2.isSome).Perm
      ((catalog.filter (inReach rfc triple asOf)).map fun p => (p.2, rowTime rfc p.2)) := by
  have hnone : others.filter (isCandidate triple) = [] :=
    List.filter_eq_nil_iff.mpr fun row hrow => by simp [hothers row hrow]
  have hcatalog : ((catalog.map Prod.snd ++ others).filter (isCandidate triple)) =
      (catalog.filter fun p => isCandidate triple p.2).map Prod.snd := by
    rw [List.filter_append, hnone, List.append_nil, List.filter_map]
    rfl
  unfold asOfRows
  refine ((((hrows.filter _).map _).filter _).filter _).trans (.of_eq ?_)
  rw [hcatalog]
  simp only [List.filter_map, List.map_map, List.filter_filter]
  refine congrArg₂ List.map rfl (List.filter_congr fun p hp => ?_)
  rw [← dated_inReach (hdescribes p hp)]
  rfl

theorem mem_replayable_iff (rfc : Rfc3339) (hnodup : (catalog.map fun p => p.1.id).Nodup)
    {p : SnapshotListEntry × CataloguedSnapshot} (hp : p ∈ catalog) :
    p.1 ∈ replayable rfc catalog ↔ (p.2.recorded.isSome && (rowTime rfc p.2).isSome) = true := by
  simp only [replayable, List.mem_map, List.mem_filter]
  constructor
  · rintro ⟨q, ⟨hq, hgood⟩, heq⟩
    obtain rfl := List.inj_on_of_nodup_map hnodup hq hp (congrArg SnapshotListEntry.id heq)
    exact hgood
  · intro hgood
    exact ⟨p, ⟨hp, hgood⟩, rfl⟩

theorem listing_perm (rfc : Rfc3339) (triple : SnapshotIdentity) (asOf : Option DateTime)
    (hnodup : (catalog.map fun p => p.1.id).Nodup)
    (hmanifests : (completeOnly manifests).Perm (catalog.map Prod.fst)) :
    (filterAsOf ((completeOnly ((manifests.filter (· ∈ replayable rfc catalog)).filter
      (listedFor triple))).insertionSort fun a b => b.endTime ≤ a.endTime) asOf).Perm
      ((catalog.filter (inReach rfc triple asOf)).map Prod.fst) := by
  have hcomplete : completeOnly ((manifests.filter (· ∈ replayable rfc catalog)).filter
      (listedFor triple)) = ((completeOnly manifests).filter (· ∈ replayable rfc catalog)).filter
        (listedFor triple) := by
    simp only [completeOnly, List.filter_filter]
    exact List.filter_congr fun e _ => by grind
  rw [filterAsOf_eq, hcomplete]
  refine ((List.perm_insertionSort _ _).filter _).trans ?_
  refine ((((hmanifests).filter _).filter _).filter _).trans (.of_eq ?_)
  simp only [List.filter_map, List.filter_filter]
  refine congrArg₂ List.map rfl (List.filter_congr fun p hp => ?_)
  have hmem := mem_replayable_iff rfc hnodup hp
  simp only [Function.comp_apply, inReach]
  rw [Bool.eq_iff_iff]
  simp only [Bool.and_eq_true, decide_eq_true_eq, hmem]
  tauto

theorem resolveFromListing_eq : resolveFromListing triple asOf offset manifests =
    (filterAsOf ((completeOnly (manifests.filter (listedFor triple))).insertionSort fun a b =>
      b.endTime ≤ a.endTime) asOf)[(max offset 0).toNat]? := rfl

theorem inReach_time (hdescribes : ∀ p ∈ catalog, Describes rfc p.1 p.2)
    {p : SnapshotListEntry × CataloguedSnapshot}
    (hp : p ∈ catalog.filter (inReach rfc triple asOf)) :
    rowTime rfc p.2 = some p.1.endTime := by
  obtain ⟨hp, hreach⟩ := List.mem_filter.mp hp
  simp only [inReach, Bool.and_eq_true] at hreach
  obtain ⟨t, ht⟩ := Option.isSome_iff_exists.mp hreach.1.1.2
  rw [ht, (hdescribes p hp).time t ht]

theorem times_eq (asOf : Option DateTime) (hnodup : (catalog.map fun p => p.1.id).Nodup)
    (hmanifests : (completeOnly manifests).Perm (catalog.map Prod.fst))
    (hrows : rows.Perm (catalog.map Prod.snd ++ others))
    (hdescribes : ∀ p ∈ catalog, Describes rfc p.1 p.2)
    (hothers : ∀ row ∈ others, isCandidate triple row = false) :
    ((((asOfRows rfc triple asOf rows).insertionSort fun a b => rowBefore a b).filter fun c =>
      c.2.isSome).map fun c => c.2.getD 0) =
      (filterAsOf ((completeOnly ((manifests.filter (· ∈ replayable rfc catalog)).filter
        (listedFor triple))).insertionSort fun a b => b.endTime ≤ a.endTime) asOf).map
          SnapshotListEntry.endTime := by
  have hsorted := List.pairwise_insertionSort (fun a b => rowBefore a b = true)
    (asOfRows rfc triple asOf rows)
  have hrowTimes : ((((asOfRows rfc triple asOf rows).insertionSort fun a b => rowBefore a
      b).filter fun c => c.2.isSome).map fun c => c.2.getD 0).Perm
        ((catalog.filter (inReach rfc triple asOf)).map fun p => p.1.endTime) := by
    refine (((List.perm_insertionSort _ _).filter _).map _).trans ?_
    refine ((dated_asOfRows_perm hrows hdescribes hothers).map _).trans (.of_eq ?_)
    rw [List.map_map]
    refine List.map_congr_left fun p hp => ?_
    simp [inReach_time hdescribes hp]
  have hlistTimes := (listing_perm rfc triple asOf hnodup hmanifests).map SnapshotListEntry.endTime
  rw [List.map_map] at hlistTimes
  refine (hrowTimes.trans hlistTimes.symm).eq_of_pairwise ?_ (dated_descending hsorted) ?_
  · intro a b _ _ hab hba
    exact le_antisymm hba hab
  · rw [filterAsOf_eq, List.pairwise_map]
    exact (List.pairwise_insertionSort _ _).filter _

theorem dated_row (hrows : rows.Perm (catalog.map Prod.snd ++ others))
    (hdescribes : ∀ p ∈ catalog, Describes rfc p.1 p.2)
    (hothers : ∀ row ∈ others, isCandidate triple row = false)
    {c : CataloguedSnapshot × Option DateTime}
    (hc : c ∈ ((asOfRows rfc triple asOf rows).insertionSort fun a b => rowBefore a b).filter
      fun c => c.2.isSome) :
    ∃ p ∈ catalog.filter (inReach rfc triple asOf), c = (p.2, rowTime rfc p.2) := by
  have hmem := (((List.perm_insertionSort _ _).filter _).trans
    (dated_asOfRows_perm hrows hdescribes hothers)).subset hc
  obtain ⟨p, hp, rfl⟩ := List.mem_map.mp hmem
  exact ⟨p, hp, rfl⟩

theorem undated_row (hrows : rows.Perm (catalog.map Prod.snd ++ others))
    (hdescribes : ∀ p ∈ catalog, Describes rfc p.1 p.2)
    (hothers : ∀ row ∈ others, isCandidate triple row = false)
    {c : CataloguedSnapshot × Option DateTime}
    (hc : c ∈ ((asOfRows rfc triple asOf rows).insertionSort fun a b => rowBefore a b).filter
      fun c => !c.2.isSome) :
    asOf = none ∧ ∃ p ∈ catalog, c.1 = p.2 ∧ rowTime rfc p.2 = none ∧
      p.2.recorded.isSome = true ∧ listedFor triple p.1 = true := by
  obtain ⟨hc, hundated⟩ := List.mem_filter.mp hc
  obtain ⟨hc, hasOf⟩ := List.mem_filter.mp ((List.mem_insertionSort _).mp hc)
  obtain ⟨row, hrow, rfl⟩ := List.mem_map.mp hc
  obtain ⟨hrow, hcandidate⟩ := List.mem_filter.mp hrow
  have htime : rowTime rfc row = none := by simpa using hundated
  constructor
  · cases asOf with
    | none => rfl
    | some cutoff => simp [htime] at hasOf
  · rcases List.mem_append.mp (hrows.subset hrow) with hrow | hrow
    · obtain ⟨p, hp, rfl⟩ := List.mem_map.mp hrow
      rw [(hdescribes p hp).isCandidate_eq, Bool.and_eq_true] at hcandidate
      exact ⟨p, hp, rfl, htime, hcandidate⟩
    · simp [hothers row hrow] at hcandidate

end Catalog

end Agreement

/-- The catalog and the listing, cut down to the snapshots whose row carries the
recorded identity and a date, agree on the time of the snapshot they pick, hence
on the snapshot unless two ended at one instant. Where the listing has none left,
only a row without a date can be picked, and only without a cutoff. -/
theorem select_recorded_source_agrees (rfc : Rfc3339) (triple : SnapshotIdentity)
    (asOf : Option DateTime) (offset : Int) (manifests : List SnapshotListEntry)
    (catalog : List (SnapshotListEntry × CataloguedSnapshot))
    (rows others : List CataloguedSnapshot)
    (hnodup : (catalog.map fun p => p.1.id).Nodup)
    (hmanifests : (completeOnly manifests).Perm (catalog.map Prod.fst))
    (hrows : rows.Perm (catalog.map Prod.snd ++ others))
    (hdescribes : ∀ p ∈ catalog, Describes rfc p.1 p.2)
    (hothers : ∀ row ∈ others, isCandidate triple row = false) :
    (∀ e, resolveFromListing triple asOf offset (manifests.filter (· ∈ replayable rfc catalog)) =
        some e →
      ∃ row, selectRecordedSource rfc triple asOf offset none rows = some row ∧
        ∃ e' ∈ replayable rfc catalog, row.kopiaSnapshotId = e'.id ∧
          listedFor triple e' = true ∧ e'.endTime = e.endTime ∧
          ((∀ x ∈ replayable rfc catalog, listedFor triple x = true → x.endTime = e.endTime →
            x = e) → row.kopiaSnapshotId = e.id)) ∧
    (resolveFromListing triple asOf offset (manifests.filter (· ∈ replayable rfc catalog)) =
        none →
      ∀ row, selectRecordedSource rfc triple asOf offset none rows = some row →
        asOf = none ∧ ∃ p ∈ catalog, row.kopiaSnapshotId = p.1.id ∧ listedFor triple p.1 = true ∧
          rowTime rfc p.2 = none) := by
  have htimes := times_eq asOf hnodup hmanifests hrows hdescribes hothers
  have hsplit := dated_first (List.pairwise_insertionSort (fun a b => rowBefore a b = true)
    (asOfRows rfc triple asOf rows))
  have hlen := congrArg List.length htimes
  simp only [List.length_map] at hlen
  rw [selectRecordedSource_eq, resolveFromListing_eq, hsplit]
  constructor
  · intro e he
    obtain ⟨hi, -⟩ := List.getElem?_eq_some_iff.mp he
    rw [← hlen] at hi
    rw [List.getElem?_append_left hi, List.getElem?_eq_getElem hi]
    obtain ⟨p, hp, hc⟩ := dated_row hrows hdescribes hothers (List.getElem_mem hi)
    have htime : p.1.endTime = e.endTime := by
      have hget := congrArg (fun l => l[(max offset 0).toNat]?) htimes
      simp only [List.getElem?_map, he, List.getElem?_eq_getElem hi, hc, Option.map_some,
        inReach_time hdescribes hp, Option.getD_some, Option.some.injEq] at hget
      exact hget
    obtain ⟨hpc, hreach⟩ := List.mem_filter.mp hp
    simp only [inReach, Bool.and_eq_true] at hreach
    obtain ⟨row, hrow, hid⟩ := (hdescribes p hpc).pickRow_id hreach.1.1.1
    have hmem : p.1 ∈ replayable rfc catalog :=
      (mem_replayable_iff rfc hnodup hpc).mpr (by simp [hreach.1.1])
    refine ⟨row, ?_, p.1, hmem, hid, hreach.1.2, htime, ?_⟩
    · rw [hc]
      exact hrow
    · intro hunique
      rw [hid, hunique p.1 hmem hreach.1.2 htime]
  · intro hnone row hrow
    rw [List.getElem?_eq_none_iff, ← hlen] at hnone
    rw [List.getElem?_append_right hnone] at hrow
    obtain ⟨c, hc, hpick⟩ := Option.bind_eq_some_iff.mp hrow
    obtain ⟨hasOf, p, hp, hcp, htime, hrecorded, hlisted⟩ :=
      undated_row hrows hdescribes hothers (List.mem_of_getElem? hc)
    obtain ⟨row', hrow', hid⟩ := (hdescribes p hp).pickRow_id hrecorded
    rw [hcp, hrow'] at hpick
    cases hpick
    exact ⟨hasOf, p, hp, hid, hlisted, htime⟩

def juneTimes : Rfc3339 where
  parse text := [("2026-06-01T00:00:00Z", DateTime.fromTimestamp 1780272000),
    ("2026-06-02T00:00:00Z", DateTime.fromTimestamp 1780358400),
    ("2026-06-03T00:00:00Z", DateTime.fromTimestamp 1780444800)].lookup text
  render _ := "2026-06-01T00:00:00Z"

def juneSnapshot (id text : String) : SnapshotListEntry where
  id
  source := { host := "media", userName := "db", path := "/data" }
  startTime := (juneTimes.parse text).getD 0
  endTime := (juneTimes.parse text).getD 0

def juneRow (name id text : String) (recorded : Option RecordedSnapshotMeta) : CataloguedSnapshot where
  metadata := { name := some name, ns := some "media" }
  status := some
    { snapshot := some ⟨id, ⟨"db", "media", some "/data"⟩⟩
      timing := some { startTime := some text, endTime := some text } }
  recorded

/-- The newest row was written by a kopiur that recorded nothing. -/
theorem select_recorded_source_agrees_unrecorded :
    ∃ row, selectRecordedSource juneTimes ⟨"db", "media", some "/data"⟩ none 0 none
      [juneRow "a" "k1" "2026-06-01T00:00:00Z" (some ⟨1, .inherited, some 1000, none, none⟩),
        juneRow "b" "k2" "2026-06-02T00:00:00Z" none] = some row ∧ row.kopiaSnapshotId = "k1" := by
  obtain ⟨row, hrow, -, -, -, -, -, hid⟩ := (select_recorded_source_agrees juneTimes
    ⟨"db", "media", some "/data"⟩ none 0
    [juneSnapshot "k2" "2026-06-02T00:00:00Z", juneSnapshot "k1" "2026-06-01T00:00:00Z"]
    [(juneSnapshot "k1" "2026-06-01T00:00:00Z",
      juneRow "a" "k1" "2026-06-01T00:00:00Z" (some ⟨1, .inherited, some 1000, none, none⟩)),
      (juneSnapshot "k2" "2026-06-02T00:00:00Z", juneRow "b" "k2" "2026-06-02T00:00:00Z" none)]
    [juneRow "a" "k1" "2026-06-01T00:00:00Z" (some ⟨1, .inherited, some 1000, none, none⟩),
      juneRow "b" "k2" "2026-06-02T00:00:00Z" none] []
    (by decide) (List.Perm.swap _ _ _) (.refl _)
    (by
      intro p hp
      simp only [List.mem_cons, List.not_mem_nil, or_false] at hp
      rcases hp with rfl | rfl <;> exact ⟨by decide, by decide⟩)
    (by simp)).1 (juneSnapshot "k1" "2026-06-01T00:00:00Z") (by decide)
  exact ⟨row, hrow, hid (by decide)⟩

/-- The row without a recorded identity is passed over, equal times go by the
name of the row, and a row of another repository is taken. -/
theorem recorded_source_differs_from_listing :
    (let rows := [juneRow "a" "k1" "2026-06-01T00:00:00Z" (some ⟨1, .inherited, none, none, none⟩),
        juneRow "b" "k2" "2026-06-02T00:00:00Z" none]
      let listing := [juneSnapshot "k1" "2026-06-01T00:00:00Z",
        juneSnapshot "k2" "2026-06-02T00:00:00Z"]
      (selectRecordedSource juneTimes ⟨"db", "media", some "/data"⟩ none 0 none rows).map
          RecordedRow.kopiaSnapshotId = some "k1" ∧
        (resolveFromListing ⟨"db", "media", some "/data"⟩ none 0 listing).map
          SnapshotListEntry.id = some "k2") ∧
    (let rows := [juneRow "b" "k1" "2026-06-01T00:00:00Z" (some ⟨1, .inherited, none, none, none⟩),
        juneRow "a" "k2" "2026-06-01T00:00:00Z" (some ⟨1, .inherited, none, none, none⟩)]
      let listing := [juneSnapshot "k1" "2026-06-01T00:00:00Z",
        juneSnapshot "k2" "2026-06-01T00:00:00Z"]
      (selectRecordedSource juneTimes ⟨"db", "media", some "/data"⟩ none 0 none rows).map
          RecordedRow.kopiaSnapshotId = some "k2" ∧
        (resolveFromListing ⟨"db", "media", some "/data"⟩ none 0 listing).map
          SnapshotListEntry.id = some "k1") ∧
    (let rows := [juneRow "a" "k1" "2026-06-01T00:00:00Z" (some ⟨1, .inherited, none, none, none⟩),
        { juneRow "b" "foreign" "2026-06-02T00:00:00Z" (some ⟨1, .inherited, none, none, none⟩) with
          spec := { repository := some { name := "offsite" } } }]
      let listing := [juneSnapshot "k1" "2026-06-01T00:00:00Z"]
      (selectRecordedSource juneTimes ⟨"db", "media", some "/data"⟩ none 0 none rows).map
          RecordedRow.kopiaSnapshotId = some "foreign" ∧
        (resolveFromListing ⟨"db", "media", some "/data"⟩ none 0 listing).map
          SnapshotListEntry.id = some "k1") := by
  decide

end Kopiur
