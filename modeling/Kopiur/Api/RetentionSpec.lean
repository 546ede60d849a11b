import Kopiur.Api.Retention

/-!
# What grandfather-father-son selection keeps

The selection stated without a walk: by counting, for each snapshot, the newer
snapshots and the periods whose newest snapshot is newer. `selectKept` is shown
to keep exactly what this says.
-/

namespace Kopiur

open Lib
open SnapshotLike (endTime pinned)

variable {τ κ : Type} [SnapshotLike τ]

def Younger (a b : τ) : Prop :=
  endTime b < endTime a ∨ (endTime a = endTime b ∧ SnapshotLike.id a < SnapshotLike.id b)

instance : DecidableRel (Younger (τ := τ)) := fun _ _ => inferInstanceAs (Decidable (_ ∨ _))

def NewestOfPeriod (key : DateTime → κ) (rows : List τ) (b : τ) : Prop :=
  ∀ c ∈ rows, key (endTime c) = key (endTime b) → ¬ Younger c b

instance [DecidableEq κ] (key : DateTime → κ) (rows : List τ) :
    DecidablePred (NewestOfPeriod key rows) := fun _ => List.decidableBAll _ _

def newerPeriods [DecidableEq κ] (key : DateTime → κ) (rows : List τ) (b : τ) : Finset κ :=
  ((rows.filter fun c => NewestOfPeriod key rows c ∧ Younger c b).map
    fun c => key (endTime c)).toFinset

def AmongLatest (count : Option Nat) (rows : List τ) (b : τ) : Prop :=
  ∃ n ∈ count, (rows.filter fun c => Younger c b).length < n

def KeptByTier [DecidableEq κ] (count : Option Nat) (key : DateTime → κ) (rows : List τ) (b : τ) :
    Prop :=
  ∃ n ∈ count, NewestOfPeriod key rows b ∧ (newerPeriods key rows b).card < n

def KeptByGfs (policy : Retention) (rows : List τ) (b : τ) : Prop :=
  pinned b = true ∨ AmongLatest policy.keepLatest rows b ∨
    KeptByTier policy.keepHourly hourKey rows b ∨ KeptByTier policy.keepDaily dayKey rows b ∨
    KeptByTier policy.keepWeekly weekKey rows b ∨ KeptByTier policy.keepMonthly monthKey rows b ∨
    KeptByTier policy.keepAnnual yearKey rows b

def CountLe (a b : Option Nat) : Prop := ∀ n ∈ a, ∃ m ∈ b, n ≤ m

/-- Every tier of the one policy keeps at least as much as the other's. -/
structure Retention.Le (a b : Retention) : Prop where
  latest : CountLe a.keepLatest b.keepLatest
  hourly : CountLe a.keepHourly b.keepHourly
  daily : CountLe a.keepDaily b.keepDaily
  weekly : CountLe a.keepWeekly b.keepWeekly
  monthly : CountLe a.keepMonthly b.keepMonthly
  annual : CountLe a.keepAnnual b.keepAnnual

theorem younger_iff {a b : τ} : Younger a b ↔ rank a < rank b := by
  simp only [Younger, rank, Prod.Lex.toLex_lt_toLex, OrderDual.toDual_lt_toDual,
    OrderDual.toDual_inj]

variable {p : Population τ} {b : τ}

theorem newestOfPeriod_iff {key : DateTime → κ} : NewestOfPeriod key p.rows b ↔
    key (endTime b) ∉ Choice.keysBefore rank (fun b => key (endTime b)) p.set b := by
  simp only [NewestOfPeriod, younger_iff, Choice.mem_keysBefore, Population.mem_set]
  constructor
  · rintro h ⟨c, hc, hlt, hkey⟩
    exact h c hc hkey hlt
  · rintro h c hc hkey hlt
    exact h ⟨c, hc, hlt, hkey⟩

theorem newerPeriods_eq [DecidableEq κ] (key : DateTime → κ) : newerPeriods key p.rows b =
    Choice.keysBefore rank (fun b => key (endTime b)) p.set b := by
  ext k
  simp only [newerPeriods, List.mem_toFinset, List.mem_map, List.mem_filter, decide_eq_true_eq,
    Choice.mem_keysBefore, Population.mem_set, younger_iff]
  constructor
  · rintro ⟨c, ⟨hc, -, hlt⟩, hkey⟩
    exact ⟨c, hc, hlt, hkey⟩
  · rintro ⟨c, hc, hlt, rfl⟩
    -- The representative is the member of the period that ranks first.
    obtain ⟨r, hr, hfirst⟩ := (p.set.filter fun d => key (endTime d) = key (endTime c)).exists_min_image
      rank ⟨c, Finset.mem_filter.mpr ⟨p.mem_set.mpr hc, rfl⟩⟩
    obtain ⟨hrow, hkey⟩ := Finset.mem_filter.mp hr
    refine ⟨r, ⟨p.mem_set.mp hrow, ?_, ?_⟩, hkey⟩
    · intro d hd hsame hnewer
      have hle := hfirst d (Finset.mem_filter.mpr ⟨p.mem_set.mpr hd, hsame.trans hkey⟩)
      exact absurd (younger_iff.mp hnewer) (not_lt.mpr hle)
    · exact (hfirst c (Finset.mem_filter.mpr ⟨p.mem_set.mpr hc, rfl⟩)).trans_lt hlt

theorem mem_tierOf_iff [DecidableEq κ] {count : Option Nat} {key : DateTime → κ}
    (hb : b ∈ p.rows) : b ∈ (tierOf count key).pick p.set ↔ KeptByTier count key p.rows b := by
  cases count with
  | none => simp [tierOf, Choice.nothing, KeptByTier]
  | some n =>
    simp only [tierOf, tier, Choice.mem_firstPerKey, KeptByTier, Option.mem_some_iff,
      exists_eq_left', newestOfPeriod_iff, newerPeriods_eq, p.mem_set, hb, true_and]

theorem mem_latestOf_iff {count : Option Nat} (hb : b ∈ p.rows) :
    b ∈ (latestOf count).pick p.set ↔ AmongLatest count p.rows b := by
  cases count with
  | none => simp [latestOf, Choice.nothing, AmongLatest]
  | some n =>
    have hcard : (Choice.keysBefore rank (fun b => b) p.set b).card =
        (p.rows.filter fun c => Younger c b).length := by
      classical
      have hnodup : (p.rows.filter fun c => Younger c b).Nodup :=
        (List.Nodup.of_map _ p.distinct).filter _
      rw [← List.toFinset_card_of_nodup hnodup]
      congr 1
      ext c
      simp [Choice.mem_keysBefore, p.mem_set, younger_iff]
    simp only [latestOf, Choice.mem_firstPerKey, AmongLatest, Option.mem_some_iff,
      exists_eq_left', hcard, p.mem_set, hb, true_and, and_iff_right_iff_imp]
    rintro - hself
    obtain ⟨c, -, hlt, rfl⟩ := Choice.mem_keysBefore.mp hself
    exact lt_irrefl _ hlt

theorem mem_gfs_iff {policy : Retention} (hb : b ∈ p.rows) :
    b ∈ (gfs policy).pick p.set ↔ KeptByGfs policy p.rows b := by
  simp only [gfs, Choice.mem_union_pick, mem_tierOf_iff hb, mem_latestOf_iff hb, Choice.mem_always,
    p.mem_set, hb, true_and, KeptByGfs]
  tauto

theorem map_fst_walkOrder_perm (l : List τ) : ((walkOrder l).map Prod.fst).Perm l := by
  have h := (walkOrder_perm l).map Prod.fst
  rwa [List.zipIdx_map_fst] at h

theorem selectKept_perm (rows : List τ) (policy : Retention) :
    ((selectKept rows policy).keep ++ (selectKept rows policy).delete).Perm
      (rows.map SnapshotLike.id) := by
  unfold selectKept
  split
  · next hempty => simp [List.isEmpty_iff.mp hempty]
  · have hsplit := (List.filter_append_perm (fun q : τ × Nat =>
      decide (q.2 ∈ keepIdx (walkOrder rows) policy) || pinned q.1) (walkOrder rows)).map
        fun q => SnapshotLike.id q.1
    have hrows := (map_fst_walkOrder_perm rows).map SnapshotLike.id
    rw [List.map_map] at hrows
    rw [List.map_append] at hsplit
    exact hsplit.trans hrows

theorem Population.set_perm {p q : Population τ} (h : q.rows.Perm p.rows) : q.set = p.set := by
  ext b
  rw [Population.mem_set, Population.mem_set, h.mem_iff]

theorem CountLe.amongLatest {a c : Option Nat} (h : CountLe a c) {rows : List τ} {b : τ}
    (hb : AmongLatest a rows b) : AmongLatest c rows b := by
  obtain ⟨n, hn, hfew⟩ := hb
  obtain ⟨m, hm, hle⟩ := h n hn
  exact ⟨m, hm, hfew.trans_le hle⟩

theorem CountLe.keptByTier [DecidableEq κ] {a c : Option Nat} (h : CountLe a c)
    {key : DateTime → κ} {rows : List τ} {b : τ} (hb : KeptByTier a key rows b) :
    KeptByTier c key rows b := by
  obtain ⟨n, hn, hnewest, hfew⟩ := hb
  obtain ⟨m, hm, hle⟩ := h n hn
  exact ⟨m, hm, hnewest, hfew.trans_le hle⟩

theorem Retention.Le.keptByGfs {a c : Retention} (h : a.Le c) {rows : List τ} {b : τ}
    (hb : KeptByGfs a rows b) : KeptByGfs c rows b := by
  rcases hb with hb | hb | hb | hb | hb | hb | hb
  · exact .inl hb
  · exact .inr (.inl (h.latest.amongLatest hb))
  · exact .inr (.inr (.inl (h.hourly.keptByTier hb)))
  · exact .inr (.inr (.inr (.inl (h.daily.keptByTier hb))))
  · exact .inr (.inr (.inr (.inr (.inl (h.weekly.keptByTier hb)))))
  · exact .inr (.inr (.inr (.inr (.inr (.inl (h.monthly.keptByTier hb))))))
  · exact .inr (.inr (.inr (.inr (.inr (.inr (h.annual.keptByTier hb))))))

/-- Selection splits the snapshots, whatever their order, into those the
counting keeps and the others, and a larger count keeps more. -/
theorem selectKept_gfs (p : Population τ) (policy : Retention) :
    ((selectKept p.rows policy).keep ++ (selectKept p.rows policy).delete).Perm
        (p.rows.map SnapshotLike.id) ∧
      (∀ q : Population τ, q.rows.Perm p.rows → ∀ i,
        (i ∈ (selectKept q.rows policy).keep ↔ i ∈ (selectKept p.rows policy).keep) ∧
          (i ∈ (selectKept q.rows policy).delete ↔ i ∈ (selectKept p.rows policy).delete)) ∧
      (∀ b ∈ p.rows,
        SnapshotLike.id b ∈ (selectKept p.rows policy).keep ↔ KeptByGfs policy p.rows b) ∧
      ∀ larger : Retention, policy.Le larger → ∀ i ∈ (selectKept p.rows policy).keep,
        i ∈ (selectKept p.rows larger).keep := by
  refine ⟨selectKept_perm p.rows policy, ?_, ?_, ?_⟩
  · intro q hperm i
    simp only [q.mem_keep, p.mem_keep, q.mem_delete, p.mem_delete, Population.set_perm hperm,
      hperm.mem_iff, and_self]
  · intro b hb
    rw [p.id_mem_keep policy hb, mem_gfs_iff hb]
  · intro larger hle i hi
    obtain ⟨b, hb, rfl, hpick⟩ := (p.mem_keep policy i).mp hi
    rw [p.id_mem_keep larger hb, mem_gfs_iff hb]
    exact hle.keptByGfs ((mem_gfs_iff hb).mp hpick)

end Kopiur
