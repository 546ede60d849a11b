import Kopiur.Mover.CatalogEntries

/-!
# Every identity's share of the window

The window order deals the entries out in rounds: the newest entry of every
identity, then the second newest of every identity, and so on. What any prefix
of it holds of an identity is the newest part of that identity's history, and
no identity is ahead of another by more than a round.
-/

namespace Kopiur

open Lib

-- Ranks

def nextRank (prev : Option (SnapshotSource × Nat)) (source : SnapshotSource) : Nat :=
  match prev with
  | some (s, r) => if s = source then r + 1 else 0
  | none => 0

theorem ranksFrom_cons (prev : Option (SnapshotSource × Nat)) (e : SnapshotListEntry) (i : Nat)
    (rest : List (SnapshotListEntry × Nat)) :
    ranksFrom prev ((e, i) :: rest) =
      (i, nextRank prev e.source) :: ranksFrom (some (e.source, nextRank prev e.source)) rest :=
  ranksFrom.eq_def _ _

/-- Sorted by identity, the entries of one identity are ranked one after the
other. -/
theorem ranks_of_source {l : List (SnapshotListEntry × Nat)} (hsorted : l.Pairwise ByIdentity)
    (hnodup : (l.map Prod.snd).Nodup) (prev : Option (SnapshotSource × Nat))
    (hprev : ∀ s r, prev = some (s, r) → ∀ p ∈ l, sourceRank s ≤ sourceRank p.1.source)
    (source : SnapshotSource) :
    (l.filter fun p => p.1.source = source).map (fun p => rankIn (ranksFrom prev l) p.2) =
      List.range' (nextRank prev source) (l.filter fun p => p.1.source = source).length := by
  induction l generalizing prev with
  | nil => rfl
  | cons q rest ih =>
    obtain ⟨e, i⟩ := q
    obtain ⟨hq, hrest⟩ := List.pairwise_cons.mp hsorted
    obtain ⟨hi, hnd⟩ := List.nodup_cons.mp hnodup
    have hne : ∀ p ∈ rest, p.2 ≠ i := fun p hp h => hi (List.mem_map.mpr ⟨p, hp, h⟩)
    have hfrom : ∀ p ∈ rest, sourceRank e.source ≤ sourceRank p.1.source :=
      fun p hp => sourceRank_le_of_byIdentity (hq p hp)
    have htail := ih hrest hnd (some (e.source, nextRank prev e.source)) <| by
      rintro s r h
      obtain ⟨rfl, -⟩ := Prod.mk.inj (Option.some.inj h)
      exact hfrom
    have hmap : (rest.filter fun p => p.1.source = source).map
        (fun p => rankIn (ranksFrom prev ((e, i) :: rest)) p.2) =
        (rest.filter fun p => p.1.source = source).map
          (fun p => rankIn (ranksFrom (some (e.source, nextRank prev e.source)) rest) p.2) := by
      refine List.map_congr_left fun p hp => ?_
      rw [ranksFrom_cons, rankIn_cons_of_ne (hne p (List.mem_of_mem_filter hp))]
    by_cases heq : e.source = source
    · have hhead : rankIn (ranksFrom prev ((e, i) :: rest)) i = nextRank prev source := by
        simp [ranksFrom_cons, rankIn, heq]
      simp only [List.filter_cons, heq, decide_true, if_true, List.map_cons, List.length_cons,
        List.range'_succ, hhead]
      rw [hmap, htail, nextRank, if_pos heq, heq]
    · simp only [List.filter_cons, heq, decide_false, Bool.false_eq_true, if_false]
      rw [hmap, htail, nextRank, if_neg heq]
      cases hnil : rest.filter fun p => p.1.source = source with
      | nil => rfl
      | cons p tail =>
        -- An identity that comes back after another one would be out of order.
        have hp : p ∈ rest.filter fun p => p.1.source = source := by simp [hnil]
        obtain ⟨hp, hsource⟩ := List.mem_filter.mp hp
        have hzero : nextRank prev source = 0 := by
          cases prev with
          | none => rfl
          | some sr =>
            obtain ⟨s, r⟩ := sr
            refine if_neg fun hs => heq ?_
            have hle := hprev s r rfl (e, i) List.mem_cons_self
            have hge := hfrom p hp
            rw [of_decide_eq_true hsource, ← hs] at hge
            rw [← hs]
            exact sourceRank_inj (le_antisymm hge hle)
        rw [hzero]

def rankedWindow (listing : List SnapshotListEntry) : List (Nat × SnapshotListEntry) :=
  (rankedEntries listing).insertionSort RankedBefore

def identityHistory (listing : List SnapshotListEntry) (source : SnapshotSource) :
    List SnapshotListEntry :=
  ((listing.zipIdx.insertionSort ByIdentity).filter fun p => p.1.source = source).map Prod.fst

section Shares

variable (listing : List SnapshotListEntry)

theorem identityHistory_perm (source : SnapshotSource) :
    (identityHistory listing source).Perm (listing.filter fun e => e.source = source) := by
  have h := ((List.perm_insertionSort ByIdentity listing.zipIdx).filter
    fun p => p.1.source = source).map Prod.fst
  have hfst : (listing.zipIdx.filter fun p => p.1.source = source).map Prod.fst =
      listing.filter fun e => e.source = source := by
    conv_rhs => rw [← List.zipIdx_map_fst 0 listing, List.filter_map]
    rfl
  rwa [hfst] at h

theorem identityHistory_newest (source : SnapshotSource) :
    (identityHistory listing source).Pairwise NewestFirstEntry := by
  rw [identityHistory, List.pairwise_map]
  have hsorted := List.pairwise_insertionSort ByIdentity listing.zipIdx
  refine (hsorted.sublist List.filter_sublist).imp_of_mem fun ha hb h => ?_
  have ha := of_decide_eq_true (List.mem_filter.mp ha).2
  have hb := of_decide_eq_true (List.mem_filter.mp hb).2
  rcases h with hbefore | ⟨-, hnewest⟩
  · exact absurd ((ha.trans hb.symm) ▸ sourceBefore_iff.mp hbefore) (lt_irrefl _)
  · exact hnewest

theorem rankedWindow_source (source : SnapshotSource) :
    (rankedWindow listing).filter (fun p => p.2.source = source) =
      (List.range (identityHistory listing source).length).zip
        (identityHistory listing source) := by
  have hperm := List.perm_insertionSort ByIdentity listing.zipIdx
  have hsorted := List.pairwise_insertionSort ByIdentity listing.zipIdx
  have hnodup := sortedEntries_nodup listing
  have hranks := ranks_of_source hsorted hnodup none (by simp) source
  rw [show nextRank none source = 0 from rfl, ← List.range_eq_range'] at hranks
  -- The same pairs, listed by identity.
  have hzip : ((listing.zipIdx.insertionSort ByIdentity).filter fun p => p.1.source = source).map
      (fun p => (rankIn (ranksFrom none (listing.zipIdx.insertionSort ByIdentity)) p.2, p.1)) =
        (List.range (identityHistory listing source).length).zip
          (identityHistory listing source) := by
    have hlength : (identityHistory listing source).length =
        ((listing.zipIdx.insertionSort ByIdentity).filter fun p => p.1.source = source).length :=
      List.length_map _
    rw [hlength, ← hranks, identityHistory, List.zip_map']
  have hsame : ((rankedWindow listing).filter fun p => p.2.source = source).Perm
      ((List.range (identityHistory listing source).length).zip
        (identityHistory listing source)) := by
    rw [← hzip, ← show (fun q : Nat × SnapshotListEntry => decide (q.2.source = source)) ∘
      (fun p : SnapshotListEntry × Nat =>
        (rankIn (ranksFrom none (listing.zipIdx.insertionSort ByIdentity)) p.2, p.1)) =
          fun p => decide (p.1.source = source) from rfl, ← List.filter_map]
    exact ((List.perm_insertionSort RankedBefore _).trans (hperm.map _).symm).filter _
  have hfst : ((List.range (identityHistory listing source).length).zip
      (identityHistory listing source)).map Prod.fst =
        List.range (identityHistory listing source).length := List.map_fst_zip (by simp)
  have hlt : ((List.range (identityHistory listing source).length).zip
      (identityHistory listing source)).Pairwise fun a b => a.1 < b.1 := by
    rw [← List.pairwise_map, hfst]
    exact List.pairwise_lt_range
  -- Both sides rise in rank, and no two ranks are the same.
  have hle : ((rankedWindow listing).filter fun p => p.2.source = source).Pairwise
      fun a b => a.1 ≤ b.1 :=
    ((List.pairwise_insertionSort RankedBefore (rankedEntries listing)).sublist
      List.filter_sublist).imp fun h => h.elim le_of_lt fun h => h.1.le
  have hrise : ((rankedWindow listing).filter fun p => p.2.source = source).Pairwise
      fun a b => a.1 < b.1 := by
    have hnd : (((rankedWindow listing).filter fun p => p.2.source = source).map
        Prod.fst).Nodup := by
      rw [(hsame.map Prod.fst).nodup_iff, hfst]
      exact List.nodup_range
    rw [List.nodup_iff_pairwise_ne, List.pairwise_map] at hnd
    exact (hle.and hnd).imp fun h => lt_of_le_of_ne h.1 h.2
  exact List.Perm.eq_of_pairwise (fun a b _ _ h h' => absurd h (lt_asymm h')) hrise hlt hsame

theorem rankedWindow_snd : (rankedWindow listing).map Prod.snd = orderForWindow listing := rfl

theorem orderForWindow_source (source : SnapshotSource) :
    (orderForWindow listing).filter (fun e => e.source = source) =
      identityHistory listing source := by
  rw [← rankedWindow_snd, List.filter_map]
  change ((rankedWindow listing).filter fun p => p.2.source = source).map Prod.snd = _
  rw [rankedWindow_source, List.map_snd_zip (by simp)]

-- Shares

/-- What the first `k` entries of the window order hold of an identity. -/
def windowShare (listing : List SnapshotListEntry) (k : Nat) (source : SnapshotSource) :
    List SnapshotListEntry :=
  ((orderForWindow listing).take k).filter fun e => e.source = source

theorem windowShare_initial (k : Nat) (source : SnapshotSource) :
    windowShare listing k source <+: identityHistory listing source := by
  rw [← orderForWindow_source]
  exact (List.take_prefix k _).filter _

theorem ranks_take_drop (k : Nat) (source : SnapshotSource) :
    ((((rankedWindow listing).take k).filter fun p => p.2.source = source).map Prod.fst =
      List.range (windowShare listing k source).length) ∧
    ((((rankedWindow listing).drop k).filter fun p => p.2.source = source).map Prod.fst =
      List.range' (windowShare listing k source).length
        ((identityHistory listing source).length - (windowShare listing k source).length)) := by
  have hlength : (((rankedWindow listing).take k).filter fun p => p.2.source = source).length =
      (windowShare listing k source).length := by
    rw [windowShare, ← rankedWindow_snd, ← List.map_take, List.filter_map, List.length_map]
    rfl
  have hle := (windowShare_initial listing k source).length_le
  have hwhole := congrArg (List.map Prod.fst) (rankedWindow_source listing source)
  rw [List.map_fst_zip (by simp), ← List.take_append_drop k (rankedWindow listing),
    List.filter_append, List.map_append] at hwhole
  have hcut : (((rankedWindow listing).take k).filter fun p => p.2.source = source).map Prod.fst =
      (List.range (identityHistory listing source).length).take
        (windowShare listing k source).length := by
    rw [← hwhole, List.take_left' (by rw [List.length_map, hlength])]
  have hrest : (((rankedWindow listing).drop k).filter fun p => p.2.source = source).map Prod.fst =
      (List.range (identityHistory listing source).length).drop
        (windowShare listing k source).length := by
    rw [← hwhole, List.drop_left' (by rw [List.length_map, hlength])]
  constructor
  · rw [hcut, List.take_range, Nat.min_eq_left hle]
  · rw [hrest, List.range_eq_range', List.drop_range']
    simp

variable {listing}

/-- Where one identity has two entries more than another, the other has no
more to give. -/
theorem windowShare_complete {k : Nat} {source other : SnapshotSource}
    (h : (windowShare listing k source).length + 1 < (windowShare listing k other).length) :
    (windowShare listing k source).length = (identityHistory listing source).length := by
  have hle := (windowShare_initial listing k source).length_le
  refine le_antisymm hle (Nat.le_of_not_lt fun hlt => ?_)
  obtain ⟨a, ha, hrank⟩ := List.mem_map.mp
    ((ranks_take_drop listing k other).1 ▸ List.mem_range.mpr h)
  obtain ⟨b, hb, hrank'⟩ : ∃ b ∈ ((rankedWindow listing).drop k).filter
      (fun p => p.2.source = source), b.1 = (windowShare listing k source).length := by
    refine List.mem_map.mp ?_
    rw [(ranks_take_drop listing k source).2, List.mem_range'_1]
    omega
  have hsorted := List.pairwise_insertionSort RankedBefore (rankedEntries listing)
  change (rankedWindow listing).Pairwise RankedBefore at hsorted
  rw [← List.take_append_drop k (rankedWindow listing), List.pairwise_append] at hsorted
  have hbefore := hsorted.2.2 a (List.mem_of_mem_filter ha) b (List.mem_of_mem_filter hb)
  rcases hbefore with hlt | ⟨heq, -⟩ <;> omega

theorem identityHistory_congr (hids : (listing.map SnapshotListEntry.id).Nodup)
    {listing' : List SnapshotListEntry} (hperm : listing'.Perm listing) (source : SnapshotSource) :
    identityHistory listing' source = identityHistory listing source := by
  have hsame := (identityHistory_perm listing' source).trans
    ((hperm.filter _).trans (identityHistory_perm listing source).symm)
  refine List.Perm.eq_of_pairwise (fun a b ha hb h h' => ?_)
    (identityHistory_newest listing' source) (identityHistory_newest listing source) hsame
  have hmem : ∀ e ∈ identityHistory listing source, e ∈ listing := fun e he =>
    List.mem_of_mem_filter ((identityHistory_perm listing source).mem_iff.mp he)
  have hkey := le_antisymm (newestFirstEntry_iff.mp h) (newestFirstEntry_iff.mp h')
  exact List.inj_on_of_nodup_map hids (hmem a (hsame.mem_iff.mp ha)) (hmem b hb)
    (congrArg (fun k => (ofLex k).2) hkey)

theorem orderForWindow_congr (hids : (listing.map SnapshotListEntry.id).Nodup)
    {listing' : List SnapshotListEntry} (hperm : listing'.Perm listing) :
    orderForWindow listing' = orderForWindow listing := by
  have hmem : ∀ p, p ∈ rankedWindow listing' ↔ p ∈ rankedWindow listing := by
    intro p
    have hfilter : ∀ l, p ∈ rankedWindow l ↔
        p ∈ (rankedWindow l).filter fun q => q.2.source = p.2.source := by simp
    rw [hfilter, hfilter listing, rankedWindow_source, rankedWindow_source,
      identityHistory_congr hids hperm]
  have hnodup : ∀ l : List SnapshotListEntry, l.Perm listing →
      ((rankedWindow l).map fun p => p.2.id).Nodup := by
    intro l hl
    change ((rankedWindow l).map (SnapshotListEntry.id ∘ Prod.snd)).Nodup
    rw [← List.map_map, rankedWindow_snd,
      ((orderForWindow_perm l).map SnapshotListEntry.id).nodup_iff,
      (hl.map SnapshotListEntry.id).nodup_iff]
    exact hids
  have hsame : (rankedWindow listing').Perm (rankedWindow listing) :=
    (List.perm_ext_iff_of_nodup (hnodup listing' hperm).of_map
      (hnodup listing (.refl _)).of_map).mpr hmem
  rw [← rankedWindow_snd, ← rankedWindow_snd]
  refine congrArg (List.map Prod.snd) (List.Perm.eq_of_pairwise (fun a b ha hb h h' => ?_)
    (List.pairwise_insertionSort RankedBefore _) (List.pairwise_insertionSort RankedBefore _) hsame)
  have hkey := le_antisymm (rankedBefore_iff.mp h) (rankedBefore_iff.mp h')
  exact List.inj_on_of_nodup_map (hnodup listing (.refl _)) (hsame.mem_iff.mp ha) hb
    (congrArg (fun k => (ofLex (ofLex k).2).2) hkey)

end Shares

/-- The window order is a permutation that the order of the listing does not
show in; whatever it is cut to, every identity keeps the newest of its entries,
and one that is two entries behind another has lost none. -/
theorem window_order_fair (listing : List SnapshotListEntry) :
    (orderForWindow listing).Perm listing ∧
      ((listing.map SnapshotListEntry.id).Nodup → ∀ listing' : List SnapshotListEntry,
        listing'.Perm listing → orderForWindow listing' = orderForWindow listing) ∧
      ∀ source : SnapshotSource, ∃ history : List SnapshotListEntry,
        history.Perm (listing.filter fun e => e.source = source) ∧
        history.Pairwise NewestFirstEntry ∧
        ∀ k, windowShare listing k source <+: history ∧
          ∀ other, (windowShare listing k source).length + 1 <
            (windowShare listing k other).length → windowShare listing k source = history := by
  refine ⟨orderForWindow_perm listing, fun hids listing' hperm => orderForWindow_congr hids hperm,
    fun source => ⟨identityHistory listing source, identityHistory_perm listing source,
      identityHistory_newest listing source, fun k => ⟨windowShare_initial listing k source,
        fun other h => ?_⟩⟩⟩
  exact (windowShare_initial listing k source).eq_of_length (windowShare_complete h)

def unevenEntries : List SnapshotListEntry :=
  let dense : SnapshotSource := ⟨"db", "kopiur", "/data"⟩
  let sparse : SnapshotSource := ⟨"web", "kopiur", "/data"⟩
  [⟨"k1", dense, 0, 10, none, none, 0⟩, ⟨"k2", dense, 0, 20, none, none, 0⟩,
    ⟨"k3", dense, 0, 30, none, none, 0⟩, ⟨"k4", sparse, 0, 5, none, none, 0⟩]

theorem window_order_fair_uneven :
    orderForWindow unevenEntries.reverse = orderForWindow unevenEntries ∧
      (windowShare unevenEntries 4 ⟨"web", "kopiur", "/data"⟩).map SnapshotListEntry.id =
        ["k4"] := by
  obtain ⟨-, hcongr, hshares⟩ := window_order_fair unevenEntries
  refine ⟨hcongr (by decide) _ (List.reverse_perm _), ?_⟩
  obtain ⟨history, hperm, -, hshare⟩ := hshares ⟨"web", "kopiur", "/data"⟩
  have hwhole := (hshare 4).2 ⟨"db", "kopiur", "/data"⟩ (by decide)
  rw [hwhole]
  have hids := hperm.map SnapshotListEntry.id
  exact List.perm_singleton.mp (hids.trans (by decide))

end Kopiur
