import Kopiur.Api.Identity
import Kopiur.Kopia.Listing
import Kopiur.Lib.Groups
import Kopiur.Mover.Digest
import Mathlib.Data.Prod.Lex

/-!
# The catalog window of a bootstrap result

The mover lists the whole repository but ships a capped window of entries,
beside a digest of all listed ids. The window takes turns between identities,
newest first, so that whatever is cut off its end is the oldest history of the
busiest ones.
-/

namespace Kopiur

open Lib

/-- Drop what another cluster wrote; also how many entries that were. -/
def applyForeignPrefilter (listing : List SnapshotListEntry) (prefilterCluster : Option String) :
    List SnapshotListEntry × Nat :=
  match prefilterCluster with
  | none => (listing, 0)
  | some cluster =>
    let foreign := fun e : SnapshotListEntry =>
      match classifyHostname e.source.host (some cluster) with
      | .foreignCluster _ => true
      | .bare _ | .ownCluster _ => false
    (listing.filter fun e => !foreign e, (listing.filter foreign).length)

def Newer (a b : SnapshotListEntry) : Prop :=
  b.endTime < a.endTime ∨ (a.endTime = b.endTime ∧ a.id < b.id)

instance : DecidableRel Newer := fun _ _ => inferInstanceAs (Decidable (_ ∨ _))

def NewestFirstEntry (a b : SnapshotListEntry) : Prop :=
  b.endTime < a.endTime ∨ (a.endTime = b.endTime ∧ a.id ≤ b.id)

instance : DecidableRel NewestFirstEntry := fun _ _ => inferInstanceAs (Decidable (_ ∨ _))

def SourceBefore (a b : SnapshotSource) : Prop :=
  a.userName < b.userName ∨ (a.userName = b.userName ∧
    (a.host < b.host ∨ (a.host = b.host ∧ a.path < b.path)))

instance : DecidableRel SourceBefore := fun _ _ => inferInstanceAs (Decidable (_ ∨ _))

def ByIdentity (a b : SnapshotListEntry × Nat) : Prop :=
  SourceBefore a.1.source b.1.source ∨ (a.1.source = b.1.source ∧ NewestFirstEntry a.1 b.1)

instance : DecidableRel ByIdentity := fun _ _ => inferInstanceAs (Decidable (_ ∨ _))

/-- Read the ranks off the sorted entries: one more than the entry before when
that has the same identity. -/
def ranksFrom : Option (SnapshotSource × Nat) → List (SnapshotListEntry × Nat) → List (Nat × Nat)
  | _, [] => []
  | prev, (e, i) :: rest =>
    let rank := match prev with
      | some (source, r) => if source = e.source then r + 1 else 0
      | none => 0
    (i, rank) :: ranksFrom (some (e.source, rank)) rest

def RankedBefore (a b : Nat × SnapshotListEntry) : Prop :=
  a.1 < b.1 ∨ (a.1 = b.1 ∧ NewestFirstEntry a.2 b.2)

instance : DecidableRel RankedBefore := fun _ _ => inferInstanceAs (Decidable (_ ∨ _))

def rankedEntries (listing : List SnapshotListEntry) : List (Nat × SnapshotListEntry) :=
  let ranks := ranksFrom none (listing.zipIdx.insertionSort ByIdentity)
  listing.zipIdx.map fun p => ((ranks.lookup p.2).getD 0, p.1)

def orderForWindow (listing : List SnapshotListEntry) : List SnapshotListEntry :=
  ((rankedEntries listing).insertionSort RankedBefore).map Prod.snd

-- The window is newest first within every identity

def ageKey (e : SnapshotListEntry) : DateTimeᵒᵈ ×ₗ String := toLex (OrderDual.toDual e.endTime, e.id)

theorem newestFirstEntry_iff {a b : SnapshotListEntry} :
    NewestFirstEntry a b ↔ ageKey a ≤ ageKey b := by
  rw [ageKey, ageKey, Prod.Lex.toLex_le_toLex]
  simp [NewestFirstEntry]

theorem newer_of_newestFirstEntry {a b : SnapshotListEntry} (h : NewestFirstEntry a b)
    (hid : a.id ≠ b.id) : Newer a b :=
  h.imp_right fun ⟨hend, hle⟩ => ⟨hend, lt_of_le_of_ne hle hid⟩

def sourceRank (s : SnapshotSource) : String ×ₗ String ×ₗ String :=
  toLex (s.userName, toLex (s.host, s.path))

theorem sourceRank_inj {a b : SnapshotSource} (h : sourceRank a = sourceRank b) : a = b := by
  cases a
  cases b
  simp_all [sourceRank]

theorem sourceBefore_iff {a b : SnapshotSource} :
    SourceBefore a b ↔ sourceRank a < sourceRank b := by
  rw [sourceRank, sourceRank, Prod.Lex.toLex_lt_toLex]
  simp only [Prod.Lex.toLex_lt_toLex, SourceBefore]

theorem byIdentity_iff {a b : SnapshotListEntry × Nat} :
    ByIdentity a b ↔
      toLex (sourceRank a.1.source, ageKey a.1) ≤ toLex (sourceRank b.1.source, ageKey b.1) := by
  rw [Prod.Lex.toLex_le_toLex, ByIdentity, sourceBefore_iff, newestFirstEntry_iff]
  exact or_congr_right (and_congr_left' ⟨congrArg sourceRank, sourceRank_inj⟩)

theorem sourceRank_le_of_byIdentity {a b : SnapshotListEntry × Nat} (h : ByIdentity a b) :
    sourceRank a.1.source ≤ sourceRank b.1.source := by
  have hle := byIdentity_iff.mp h
  rw [Prod.Lex.toLex_le_toLex] at hle
  exact hle.elim le_of_lt fun h => h.1.le

theorem rankedBefore_iff {a b : Nat × SnapshotListEntry} :
    RankedBefore a b ↔ toLex (a.1, ageKey a.2) ≤ toLex (b.1, ageKey b.2) := by
  rw [Prod.Lex.toLex_le_toLex, RankedBefore, newestFirstEntry_iff]

instance : Std.Total ByIdentity where
  total a b := by
    simp only [byIdentity_iff]
    exact le_total _ _

instance : IsTrans (SnapshotListEntry × Nat) ByIdentity where
  trans a b c := by
    simp only [byIdentity_iff]
    exact le_trans

instance : Std.Total RankedBefore where
  total a b := by
    simp only [rankedBefore_iff]
    exact le_total _ _

instance : IsTrans (Nat × SnapshotListEntry) RankedBefore where
  trans a b c := by
    simp only [rankedBefore_iff]
    exact le_trans

def rankIn (ranks : List (Nat × Nat)) (i : Nat) : Nat := (ranks.lookup i).getD 0

theorem rankIn_cons_of_ne {i j r : Nat} {ranks : List (Nat × Nat)} (h : j ≠ i) :
    rankIn ((i, r) :: ranks) j = rankIn ranks j := by
  rw [rankIn, List.lookup_cons, beq_false_of_ne h]
  rfl

theorem lt_rankIn_ranksFrom {l : List (SnapshotListEntry × Nat)} (hsorted : l.Pairwise ByIdentity)
    (hnodup : (l.map Prod.snd).Nodup) {source : SnapshotSource} {r : Nat}
    (hfrom : ∀ p ∈ l, sourceRank source ≤ sourceRank p.1.source) :
    ∀ p ∈ l, p.1.source = source → r < rankIn (ranksFrom (some (source, r)) l) p.2 := by
  induction l generalizing r with
  | nil => simp
  | cons q rest ih =>
    obtain ⟨e, i⟩ := q
    obtain ⟨hq, hrest⟩ := List.pairwise_cons.mp hsorted
    obtain ⟨hi, hnd⟩ := List.nodup_cons.mp hnodup
    rintro p hp rfl
    by_cases heq : p.1.source = e.source
    · rcases List.mem_cons.mp hp with rfl | hp'
      · simp [ranksFrom, rankIn]
      · have hne : p.2 ≠ i := fun h => hi (List.mem_map.mpr ⟨p, hp', h⟩)
        rw [ranksFrom, rankIn_cons_of_ne hne, if_pos heq, ← heq]
        exact lt_trans (Nat.lt_succ_self r)
          (ih hrest hnd (fun p' hp' => hfrom p' (List.mem_cons_of_mem _ hp')) p hp' rfl)
    · -- The identity is over: everything from here on has a larger one.
      exfalso
      have hlt : sourceRank p.1.source < sourceRank e.source :=
        lt_of_le_of_ne (hfrom _ List.mem_cons_self) fun h => heq (sourceRank_inj h)
      rcases List.mem_cons.mp hp with rfl | hp'
      · exact heq rfl
      · exact (sourceRank_le_of_byIdentity (hq p hp')).not_gt hlt

theorem ranksFrom_pairwise {l : List (SnapshotListEntry × Nat)} (hsorted : l.Pairwise ByIdentity)
    (hnodup : (l.map Prod.snd).Nodup) (prev : Option (SnapshotSource × Nat)) :
    l.Pairwise fun p q => p.1.source = q.1.source →
      rankIn (ranksFrom prev l) p.2 < rankIn (ranksFrom prev l) q.2 := by
  induction l generalizing prev with
  | nil => exact .nil
  | cons q rest ih =>
    obtain ⟨e, i⟩ := q
    obtain ⟨hq, hrest⟩ := List.pairwise_cons.mp hsorted
    obtain ⟨hi, hnd⟩ := List.nodup_cons.mp hnodup
    have hne : ∀ p ∈ rest, p.2 ≠ i := fun p hp h => hi (List.mem_map.mpr ⟨p, hp, h⟩)
    obtain ⟨rank, hranks⟩ : ∃ rank, ranksFrom prev ((e, i) :: rest) =
        (i, rank) :: ranksFrom (some (e.source, rank)) rest := ⟨_, ranksFrom.eq_def _ _⟩
    simp only [hranks]
    have hranked := ih hrest hnd (some (e.source, rank))
    refine .cons (fun p hp hsource => ?_) (hranked.imp_of_mem fun hp hp' h => ?_)
    · rw [rankIn_cons_of_ne (hne p hp)]
      have hfrom : ∀ p ∈ rest, sourceRank e.source ≤ sourceRank p.1.source :=
        fun p hp => sourceRank_le_of_byIdentity (hq p hp)
      simpa [rankIn] using lt_rankIn_ranksFrom hrest hnd hfrom p hp hsource.symm
    · rw [rankIn_cons_of_ne (hne _ hp), rankIn_cons_of_ne (hne _ hp')]
      exact h

theorem sortedEntries_nodup (listing : List SnapshotListEntry) :
    ((listing.zipIdx.insertionSort ByIdentity).map Prod.snd).Nodup := by
  rw [((List.perm_insertionSort ByIdentity listing.zipIdx).map Prod.snd).nodup_iff,
    List.zipIdx_map_snd]
  exact List.nodup_range'

theorem newestFirstEntry_of_rank_lt {listing : List SnapshotListEntry}
    {p q : SnapshotListEntry × Nat} (hp : p ∈ listing.zipIdx) (hq : q ∈ listing.zipIdx)
    (hsource : p.1.source = q.1.source)
    (hlt : rankIn (ranksFrom none (listing.zipIdx.insertionSort ByIdentity)) p.2 <
      rankIn (ranksFrom none (listing.zipIdx.insertionSort ByIdentity)) q.2) :
    NewestFirstEntry p.1 q.1 := by
  have hperm := List.perm_insertionSort ByIdentity listing.zipIdx
  have hsorted := List.pairwise_insertionSort ByIdentity listing.zipIdx
  have hnodup := sortedEntries_nodup listing
  rw [← hperm.mem_iff] at hp hq
  have hne : p ≠ q := fun h => (h ▸ hlt).false
  rcases rel_of_pairwise (hsorted.and (ranksFrom_pairwise hsorted hnodup none)) hp hq hne with
    h | h
  · rcases h.1 with hbefore | ⟨-, hnewest⟩
    · exact absurd (hsource ▸ sourceBefore_iff.mp hbefore) (lt_irrefl _)
    · exact hnewest
  · exact absurd (h.2 hsource.symm) (lt_asymm hlt)

theorem orderForWindow_perm (listing : List SnapshotListEntry) :
    (orderForWindow listing).Perm listing := by
  have h := (List.perm_insertionSort RankedBefore (rankedEntries listing)).map Prod.snd
  rwa [rankedEntries, List.map_map, show Prod.snd ∘ _ = Prod.fst from rfl,
    List.zipIdx_map_fst] at h

theorem orderForWindow_newest {listing : List SnapshotListEntry}
    (hids : (listing.map SnapshotListEntry.id).Nodup) :
    (orderForWindow listing).Pairwise fun a b => a.source = b.source → Newer a b := by
  have hnodup := ((orderForWindow_perm listing).map SnapshotListEntry.id).nodup_iff.mpr hids
  rw [orderForWindow, List.map_map, List.nodup_iff_pairwise_ne, List.pairwise_map] at hnodup
  rw [orderForWindow, List.pairwise_map]
  have hsorted := List.pairwise_insertionSort RankedBefore (rankedEntries listing)
  refine (hsorted.and hnodup).imp_of_mem fun {a b} ha hb h hsource => ?_
  refine newer_of_newestFirstEntry ?_ h.2
  rcases h.1 with hlt | ⟨-, hnewest⟩
  · obtain ⟨p, hp, rfl⟩ := List.mem_map.mp ((List.mem_insertionSort _).mp ha)
    obtain ⟨q, hq, rfl⟩ := List.mem_map.mp ((List.mem_insertionSort _).mp hb)
    exact newestFirstEntry_of_rank_lt hp hq hsource hlt
  · exact hnewest

def i64Max : Nat := 2 ^ 63 - 1

/-- The newest entry of each path counts; of equally new ones the first. -/
def logicalBytesUnderManagement (listing : List SnapshotListEntry) : Nat :=
  let newest := fun entries : List SnapshotListEntry =>
    entries.tail.foldl (fun (kept : Option SnapshotListEntry) e =>
      match kept with
      | some prev => if prev.endTime ≥ e.endTime then some prev else some e
      | none => some e) entries.head?
  ((groups (listing.map fun e => (e.source.path, e))).filterMap fun g => newest g.2).foldl
    (fun sum e => min (sum + min e.totalSize i64Max) i64Max) 0

def slimCatalogEntry (e : SnapshotListEntry) : SnapshotListEntry := { e with rootEntry := none }

structure PreparedCatalog where
  entries : List SnapshotListEntry
  truncated : Bool
  foreignSuffixDropped : Nat
  listedIds : Option ListedIds
  logicalBytes : Nat
deriving DecidableEq

/-- With the digest's budget as a parameter. -/
def prepareCatalogEntries (digestBudget : Nat) (listing : List SnapshotListEntry)
    (prefilterCluster : Option String) (cap salt : Nat) : PreparedCatalog :=
  let (kept, dropped) := applyForeignPrefilter listing prefilterCluster
  { entries := ((orderForWindow kept).take cap).map slimCatalogEntry
    truncated := decide (kept.length > cap)
    foreignSuffixDropped := dropped
    listedIds := (SnapshotIdDigest.build (kept.map SnapshotListEntry.id) salt digestBudget).map
      ListedIds.digest
    logicalBytes := logicalBytesUnderManagement kept }

/-- What a bootstrap result says about the catalog. -/
structure BootstrapResult where
  snapshotCount : Option Int := none
  snapshots : List SnapshotListEntry := []
  snapshotsTruncated : Bool := false
  foreignSuffixDropped : Int := 0
  listedIds : Option ListedIds := none
  logicalBytes : Option Int := none
deriving DecidableEq

def bootstrapResult (listing : List SnapshotListEntry) (p : PreparedCatalog) : BootstrapResult where
  snapshotCount := some listing.length
  snapshots := p.entries
  snapshotsTruncated := p.truncated
  foreignSuffixDropped := p.foreignSuffixDropped
  listedIds := p.listedIds
  logicalBytes := some p.logicalBytes

def resultSizeBudgetBytes : Nat := 900 * 1024

def trimRounds (serializedLen : BootstrapResult → Nat) (budgetBytes : Nat) :
    Nat → BootstrapResult → BootstrapResult
  | 0, result => result
  | rounds + 1, result =>
    if !result.snapshots.isEmpty && decide (budgetBytes < serializedLen result) then
      let len := result.snapshots.length
      let drop := max (len / 8) 1
      trimRounds serializedLen budgetBytes rounds
        { result with snapshots := result.snapshots.take (len - drop), snapshotsTruncated := true }
    else result

/-- Drop entries off the end until the serialized result fits. Every round
drops one at least, so there are no more rounds than entries. -/
def enforceResultSizeBudget (serializedLen : BootstrapResult → Nat) (result : BootstrapResult)
    (budgetBytes : Nat) : BootstrapResult :=
  trimRounds serializedLen budgetBytes result.snapshots.length result

-- What is shipped

theorem trimRounds_spec (serializedLen : BootstrapResult → Nat) (budget : Nat) {rounds : Nat}
    {result : BootstrapResult} (hrounds : result.snapshots.length ≤ rounds) :
    ∃ k ≤ result.snapshots.length,
      trimRounds serializedLen budget rounds result =
        { result with
          snapshots := result.snapshots.take k
          snapshotsTruncated := result.snapshotsTruncated || decide (k < result.snapshots.length) } ∧
      (k < result.snapshots.length ↔ budget < serializedLen result ∧ result.snapshots ≠ []) ∧
      ((trimRounds serializedLen budget rounds result).snapshots = [] ∨
        serializedLen (trimRounds serializedLen budget rounds result) ≤ budget) := by
  induction rounds generalizing result with
  | zero =>
    have hnil : result.snapshots = [] := List.length_eq_zero_iff.mp (Nat.le_zero.mp hrounds)
    refine ⟨0, Nat.zero_le _, ?_, by simp [hnil], .inl hnil⟩
    cases result
    simp_all [trimRounds]
  | succ rounds ih =>
    rw [trimRounds]
    split
    case isFalse h =>
      refine ⟨result.snapshots.length, le_refl _, by simp, ?_, ?_⟩
      · simp only [Bool.and_eq_true, Bool.not_eq_true', decide_eq_true_eq, not_and,
          List.isEmpty_eq_false_iff] at h
        simp only [lt_self_iff_false, false_iff, not_and]
        exact fun hlt hne => h hne hlt
      · by_cases hnil : result.snapshots = []
        · exact .inl hnil
        · simp [hnil] at h
          exact .inr h
    case isTrue h =>
      simp only [Bool.and_eq_true, Bool.not_eq_true', decide_eq_true_eq,
        List.isEmpty_eq_false_iff] at h
      have hpos : 0 < result.snapshots.length := List.length_pos_iff.mpr h.1
      have hdrop : result.snapshots.length - max (result.snapshots.length / 8) 1 <
          result.snapshots.length := by omega
      have htrimmed : (result.snapshots.take
          (result.snapshots.length - max (result.snapshots.length / 8) 1)).length ≤ rounds := by
        rw [List.length_take]
        omega
      obtain ⟨k, hk, heq, -, hfits⟩ := @ih { result with
        snapshots := result.snapshots.take
          (result.snapshots.length - max (result.snapshots.length / 8) 1)
        snapshotsTruncated := true } htrimmed
      simp only [List.length_take] at hk
      refine ⟨k, by omega, ?_, ?_, hfits⟩
      · rw [heq]
        simp only [List.take_take, Bool.true_or, BootstrapResult.mk.injEq, true_and, and_true]
        refine ⟨by congr 1; omega, ?_⟩
        symm
        rw [Bool.or_eq_true, decide_eq_true_eq]
        exact .inr (by omega)
      · exact ⟨fun _ => ⟨h.2, h.1⟩, fun _ => by omega⟩

theorem applyForeignPrefilter_sublist (listing : List SnapshotListEntry) (cluster : Option String) :
    (applyForeignPrefilter listing cluster).1.Sublist listing := by
  cases cluster with
  | none => exact List.Sublist.refl _
  | some cluster => exact List.filter_sublist

theorem applyForeignPrefilter_length (listing : List SnapshotListEntry)
    (cluster : Option String) :
    (applyForeignPrefilter listing cluster).1.length +
      (applyForeignPrefilter listing cluster).2 = listing.length := by
  cases cluster with
  | none => rfl
  | some cluster =>
    rw [Nat.add_comm]
    simpa [applyForeignPrefilter] using
      (List.length_eq_length_filter_add (l := listing) fun e =>
        match classifyHostname e.source.host (some cluster) with
        | .foreignCluster _ => true
        | .bare _ | .ownCluster _ => false).symm

section Result

variable (serializedLen : BootstrapResult → Nat) (digestBudget budgetBytes : Nat)
  (listing : List SnapshotListEntry) (cluster : Option String) (cap salt : Nat)

def untrimmedResult : BootstrapResult :=
  bootstrapResult listing (prepareCatalogEntries digestBudget listing cluster cap salt)

def catalogResult : BootstrapResult :=
  enforceResultSizeBudget serializedLen (untrimmedResult digestBudget listing cluster cap salt)
    budgetBytes

def windowEntries : List SnapshotListEntry :=
  (orderForWindow (applyForeignPrefilter listing cluster).1).map slimCatalogEntry

def Truncates : Prop :=
  cap < (applyForeignPrefilter listing cluster).1.length ∨
    (budgetBytes < serializedLen (untrimmedResult digestBudget listing cluster cap salt) ∧
      (untrimmedResult digestBudget listing cluster cap salt).snapshots ≠ [])

theorem windowEntries_length : (windowEntries listing cluster).length =
    (applyForeignPrefilter listing cluster).1.length := by
  rw [windowEntries, List.length_map, (orderForWindow_perm _).length_eq]

/-- A prefix of the window order is shipped, and the rest of the result speaks
of the whole listing. -/
theorem catalogResult_spec :
    ∃ k ≤ (windowEntries listing cluster).length,
      catalogResult serializedLen digestBudget budgetBytes listing cluster cap salt =
        { untrimmedResult digestBudget listing cluster cap salt with
          snapshots := (windowEntries listing cluster).take k
          snapshotsTruncated := decide (k < (windowEntries listing cluster).length) } ∧
      (k < (windowEntries listing cluster).length ↔
        Truncates serializedLen digestBudget budgetBytes listing cluster cap salt) := by
  have hentries : (untrimmedResult digestBudget listing cluster cap salt).snapshots =
      (windowEntries listing cluster).take cap := List.map_take
  have htruncated : (untrimmedResult digestBudget listing cluster cap salt).snapshotsTruncated =
      decide (cap < (windowEntries listing cluster).length) := by
    rw [windowEntries_length]
    rfl
  obtain ⟨k, hk, heq, hcut, -⟩ := trimRounds_spec serializedLen budgetBytes
    (le_refl (untrimmedResult digestBudget listing cluster cap salt).snapshots.length)
  rw [hentries, List.length_take] at hk hcut
  refine ⟨k, by omega, ?_, ?_⟩
  · rw [catalogResult, enforceResultSizeBudget, heq, htruncated, hentries, List.take_take,
      List.length_take, min_eq_left (by omega), ← Bool.decide_or]
    congr 2
    simp only [eq_iff_iff]
    omega
  · rw [Truncates, hentries, ← windowEntries_length, ← hcut]
    omega

end Result

end Kopiur
