import Mathlib.Data.List.Sort
import Mathlib.Data.Prod.Lex
import Mathlib.Data.String.Basic
import Kopiur.Lib.Choice
import Kopiur.Time

/-!
# Grandfather-father-son selection

`selectKept` walks the candidates newest first and keeps what any tier keeps.
The last part relates it to a choice function on finite sets, from which
pruning in stages is shown to lose nothing that pruning at once would keep.
-/

namespace Kopiur

open Lib

/-- Anything that can stand in for a `Snapshot` during retention selection. -/
class SnapshotLike (τ : Type) where
  endTime : τ → DateTime
  id : τ → String
  pinned : τ → Bool := fun _ => false

open SnapshotLike (endTime pinned)

/-- The counts of `spec.retention`; an absent tier selects nothing. -/
structure Retention where
  keepLatest : Option Nat
  keepHourly : Option Nat
  keepDaily : Option Nat
  keepWeekly : Option Nat
  keepMonthly : Option Nat
  keepAnnual : Option Nat
deriving DecidableEq

structure KeptSet where
  keep : List String := []
  delete : List String := []
deriving DecidableEq

/-- A minimal view of a `Snapshot` for retention: its name, its end time and
whether it is pinned. -/
structure SnapshotRetentionView where
  name : String
  endTime : DateTime
  pinned : Bool
deriving DecidableEq

instance : SnapshotLike SnapshotRetentionView where
  endTime := SnapshotRetentionView.endTime
  id := SnapshotRetentionView.name
  pinned := SnapshotRetentionView.pinned

def hourKey (t : DateTime) : Int × Int × Int := (t.year, t.ordinal, t.hour)

def dayKey (t : DateTime) : Int × Int := (t.year, t.ordinal)

def weekKey (t : DateTime) : Int × Int := t.isoWeek

def monthKey (t : DateTime) : Int × Int := (t.year, t.month)

def yearKey (t : DateTime) : Int := t.year

variable {τ κ : Type} [SnapshotLike τ]

def NewestFirst (a b : τ × Nat) : Prop :=
  endTime b.1 < endTime a.1 ∨
    (endTime a.1 = endTime b.1 ∧ SnapshotLike.id a.1 ≤ SnapshotLike.id b.1)

instance : DecidableRel (NewestFirst (τ := τ)) := fun _ _ => inferInstanceAs (Decidable (_ ∨ _))

def walkOrder (backups : List τ) : List (τ × Nat) := backups.zipIdx.insertionSort NewestFirst

/-- The loop of `keepPerPeriod`, with the periods seen and the indices kept. -/
def keepPerPeriodFrom [DecidableEq κ] (count : Nat) (key : DateTime → κ) :
    List (τ × Nat) → List κ → List Nat → List Nat
  | [], _, kept => kept
  | (b, idx) :: rest, seen, kept =>
    if kept.length ≥ count then kept
    else if key (endTime b) ∈ seen then keepPerPeriodFrom count key rest seen kept
    else keepPerPeriodFrom count key rest (key (endTime b) :: seen) (kept ++ [idx])

/-- The index of the newest entry of each period, until `count` are kept. -/
def keepPerPeriod [DecidableEq κ] (sorted : List (τ × Nat)) (count : Nat) (key : DateTime → κ) :
    List Nat := keepPerPeriodFrom count key sorted [] []

def keepTier [DecidableEq κ] (sorted : List (τ × Nat)) (count : Option Nat) (key : DateTime → κ) :
    List Nat :=
  match count with
  | none => []
  | some n => keepPerPeriod sorted n key

def keepLatestTier (sorted : List (τ × Nat)) (count : Option Nat) : List Nat :=
  match count with
  | none => []
  | some n => (sorted.take n).map Prod.snd

/-- The indices some tier keeps. -/
def keepIdx (order : List (τ × Nat)) (policy : Retention) : List Nat :=
  keepLatestTier order policy.keepLatest ++
  keepTier order policy.keepHourly hourKey ++
  keepTier order policy.keepDaily dayKey ++
  keepTier order policy.keepWeekly weekKey ++
  keepTier order policy.keepMonthly monthKey ++
  keepTier order policy.keepAnnual yearKey

def selectKept (backups : List τ) (policy : Retention) : KeptSet :=
  if backups.isEmpty then {}
  else
    let order := walkOrder backups
    let kept := keepIdx order policy
    -- A pinned snapshot survives even when no tier selected it.
    let survives := fun p : τ × Nat => decide (p.2 ∈ kept) || pinned p.1
    { keep := (order.filter survives).map fun p => SnapshotLike.id p.1
      delete := (order.filter fun p => !survives p).map fun p => SnapshotLike.id p.1 }

def rank (b : τ) : DateTimeᵒᵈ ×ₗ String := toLex (OrderDual.toDual (endTime b), SnapshotLike.id b)

theorem newestFirst_iff {a b : τ × Nat} : NewestFirst a b ↔ rank a.1 ≤ rank b.1 := by
  simp only [NewestFirst, rank, Prod.Lex.toLex_le_toLex, OrderDual.toDual_lt_toDual,
    OrderDual.toDual_inj]

instance : Std.Total (NewestFirst (τ := τ)) where
  total a b := by
    rw [newestFirst_iff, newestFirst_iff]
    exact le_total _ _

instance : IsTrans (τ × Nat) NewestFirst where
  trans a b c := by
    simp only [newestFirst_iff]
    exact le_trans

theorem rank_inj_id {a b : τ} (h : rank a = rank b) : SnapshotLike.id a = SnapshotLike.id b :=
  congrArg (fun r => (ofLex r).2) h

structure Population (τ : Type) [SnapshotLike τ] where
  rows : List τ
  distinct : (rows.map SnapshotLike.id).Nodup

structure Walk (order : List (τ × Nat)) : Prop where
  increasing : order.Pairwise fun a b => rank a.1 < rank b.1
  indexed : ∀ ⦃a b : τ × Nat⦄, a ∈ order → b ∈ order → a.2 = b.2 → a = b

theorem walkOrder_perm (l : List τ) : (walkOrder l).Perm l.zipIdx :=
  List.perm_insertionSort _ _

theorem mem_walkOrder {l : List τ} {b : τ} : (∃ i, (b, i) ∈ walkOrder l) ↔ b ∈ l := by
  simp only [(walkOrder_perm l).mem_iff]
  constructor
  · rintro ⟨i, hi⟩
    exact List.fst_mem_of_mem_zipIdx hi
  · intro hb
    obtain ⟨i, hi, rfl⟩ := List.mem_iff_getElem.mp hb
    exact ⟨i, List.mem_zipIdx_iff_getElem?.mpr (List.getElem?_eq_getElem hi)⟩

theorem walk_walkOrder (p : Population τ) : Walk (walkOrder p.rows) where
  increasing := by
    have hsorted : (walkOrder p.rows).Pairwise NewestFirst := List.pairwise_insertionSort _ _
    have hids : ((walkOrder p.rows).map fun q => SnapshotLike.id q.1).Nodup := by
      have hperm := (walkOrder_perm p.rows).map fun q : τ × Nat => SnapshotLike.id q.1
      refine hperm.nodup_iff.mpr ?_
      have hrows : p.rows.map SnapshotLike.id =
          p.rows.zipIdx.map fun q => SnapshotLike.id q.1 := by
        conv_lhs => rw [← List.zipIdx_map_fst 0 p.rows, List.map_map]
        rfl
      exact hrows ▸ p.distinct
    refine hsorted.imp₂ (fun a b hle hne => ?_) (List.pairwise_map.mp hids)
    exact lt_of_le_of_ne (newestFirst_iff.mp hle) fun he => hne (rank_inj_id he)
  indexed := by
    intro a b ha hb hidx
    have ha' := List.mem_zipIdx_iff_getElem?.mp ((walkOrder_perm p.rows).mem_iff.mp ha)
    have hb' := List.mem_zipIdx_iff_getElem?.mp ((walkOrder_perm p.rows).mem_iff.mp hb)
    rw [hidx, hb'] at ha'
    exact Prod.ext (Option.some.inj ha').symm hidx

-- Each tier is a choice function

open Classical in
/-- The candidates of a walk, without their order. -/
noncomputable def members (order : List (τ × Nat)) : Finset τ := (order.map Prod.fst).toFinset

variable {order : List (τ × Nat)}

omit [SnapshotLike τ] in
theorem mem_members {b : τ} :
    b ∈ members order ↔ ∃ i, (b, i) ∈ order := by
  simp [members]

/-- The classes met before an entry are those of the entries the walk has
passed. -/
theorem keysBefore_split {key : τ → κ} {pre rest : List (τ × Nat)} {p : τ × Nat} (hw : Walk order)
    (hsplit : order = pre ++ p :: rest) (k : κ) :
    k ∈ Choice.keysBefore rank key (members order) p.1 ↔ ∃ q ∈ pre, key q.1 = k := by
  have hinc := hw.increasing
  rw [hsplit, List.pairwise_append] at hinc
  obtain ⟨-, hpost, hcross⟩ := hinc
  rw [Choice.mem_keysBefore]
  constructor
  · rintro ⟨y, hy, hlt, rfl⟩
    obtain ⟨i, hi⟩ := mem_members.mp hy
    rw [hsplit, List.mem_append, List.mem_cons] at hi
    rcases hi with hpre | rfl | hrest
    · exact ⟨(y, i), hpre, rfl⟩
    · exact absurd hlt (lt_irrefl _)
    · exact absurd (List.rel_of_pairwise_cons hpost hrest) (lt_asymm hlt)
  · rintro ⟨q, hq, rfl⟩
    refine ⟨q.1, mem_members.mpr ⟨q.2, ?_⟩, hcross q hq p List.mem_cons_self, rfl⟩
    rw [hsplit]
    exact List.mem_append_left _ hq

/-- What the loop of `keepPerPeriod` knows after passing `pre`: the periods
seen are those of `pre`, and one index was kept for each. -/
structure Passed (key : DateTime → κ) (pre : List (τ × Nat)) (seen : List κ) (kept : List Nat) :
    Prop where
  distinct : seen.Nodup
  sized : kept.length = seen.length
  covers : ∀ k, k ∈ seen ↔ ∃ q ∈ pre, key (endTime q.1) = k

namespace Passed

variable {key : DateTime → κ} {pre : List (τ × Nat)} {seen : List κ} {kept : List Nat}

theorem start : Passed key ([] : List (τ × Nat)) [] [] where
  distinct := List.nodup_nil
  sized := rfl
  covers := by simp

theorem skip (h : Passed key pre seen kept) {p : τ × Nat} (hdup : key (endTime p.1) ∈ seen) :
    Passed key (pre ++ [p]) seen kept where
  distinct := h.distinct
  sized := h.sized
  covers k := by
    rw [h.covers]
    simp only [List.mem_append, List.mem_singleton]
    refine ⟨fun ⟨q, hq, hk⟩ => ⟨q, Or.inl hq, hk⟩, ?_⟩
    rintro ⟨q, hq | rfl, rfl⟩
    · exact ⟨q, hq, rfl⟩
    · exact (h.covers _).mp hdup

theorem keep (h : Passed key pre seen kept) {p : τ × Nat} (hfresh : key (endTime p.1) ∉ seen) :
    Passed key (pre ++ [p]) (key (endTime p.1) :: seen) (kept ++ [p.2]) where
  distinct := List.nodup_cons.mpr ⟨hfresh, h.distinct⟩
  sized := by simp [h.sized]
  covers k := by
    rw [List.mem_cons, h.covers]
    simp only [List.mem_append, List.mem_singleton]
    constructor
    · rintro (rfl | ⟨q, hq, rfl⟩)
      · exact ⟨p, Or.inr rfl, rfl⟩
      · exact ⟨q, Or.inl hq, rfl⟩
    · rintro ⟨q, hq | rfl, rfl⟩
      · exact Or.inr ⟨q, hq, rfl⟩
      · exact Or.inl rfl

theorem keysBefore_eq [DecidableEq κ] (h : Passed key pre seen kept) {order rest : List (τ × Nat)}
    {p : τ × Nat} (hw : Walk order) (hsplit : order = pre ++ p :: rest) :
    Choice.keysBefore rank (fun b => key (endTime b)) (members order) p.1 = seen.toFinset := by
  ext k
  rw [keysBefore_split hw hsplit, List.mem_toFinset, h.covers]

end Passed

/-- The choice a tier makes from a set of candidates. -/
noncomputable def tier (count : Nat) (key : DateTime → κ) : Choice τ :=
  Choice.firstPerKey rank (fun b => key (endTime b)) count

/-- The loop of `keepPerPeriod`, entered after `pre`, adds exactly the
representatives among the remaining entries. -/
theorem mem_keepPerPeriodFrom [DecidableEq κ] {count : Nat} {key : DateTime → κ} (hw : Walk order)
    (i : Nat) (rest : List (τ × Nat)) :
    ∀ (pre : List (τ × Nat)) (seen : List κ) (kept : List Nat),
      order = pre ++ rest → Passed key pre seen kept →
      (i ∈ keepPerPeriodFrom count key rest seen kept ↔
        i ∈ kept ∨ ∃ b, (b, i) ∈ rest ∧ b ∈ (tier count key).pick (members order)) := by
  induction rest with
  | nil => intro pre seen kept _ _; simp [keepPerPeriodFrom]
  | cons p rest ih =>
    intro pre seen kept hsplit hpassed
    have hbefore := hpassed.keysBefore_eq hw hsplit
    have hcard : seen.toFinset.card = kept.length := by
      rw [hpassed.sized, List.toFinset_card_of_nodup hpassed.distinct]
    have hsplit' : order = (pre ++ [p]) ++ rest := by simpa using hsplit
    rw [keepPerPeriodFrom]
    split
    case isTrue hfull =>
      -- Every later entry has at least as many periods before it.
      refine ⟨Or.inl, fun h => h.resolve_right ?_⟩
      rintro ⟨c, hc, hpick⟩
      have hfew := (Choice.mem_firstPerKey.mp hpick).2.2
      have hsub : Choice.keysBefore rank (fun b => key (endTime b)) (members order) p.1 ⊆
          Choice.keysBefore rank (fun b => key (endTime b)) (members order) c := by
        rcases List.mem_cons.mp hc with heq | hrest
        · rw [← heq]
        · have hinc := hw.increasing
          rw [hsplit, List.pairwise_append] at hinc
          exact Choice.keysBefore_subset_of_lt (List.rel_of_pairwise_cons hinc.2.1 hrest)
      have hle := Finset.card_le_card hsub
      rw [hbefore, hcard] at hle
      omega
    case isFalse hroom =>
      split
      case isTrue hdup =>
        have hnot : p.1 ∉ (tier count key).pick (members order) := by
          intro hpick
          apply (Choice.mem_firstPerKey.mp hpick).2.1
          rw [hbefore]
          exact List.mem_toFinset.mpr hdup
        rw [ih _ seen kept hsplit' (hpassed.skip hdup)]
        refine or_congr_right ⟨fun ⟨c, hc, h⟩ => ⟨c, List.mem_cons_of_mem _ hc, h⟩, ?_⟩
        rintro ⟨c, hc, h⟩
        rcases List.mem_cons.mp hc with rfl | hrest
        · exact absurd h hnot
        · exact ⟨c, hrest, h⟩
      case isFalse hfresh =>
        have hpick : p.1 ∈ (tier count key).pick (members order) := by
          refine Choice.mem_firstPerKey.mpr ⟨mem_members.mpr ⟨p.2, by simp [hsplit]⟩, ?_, ?_⟩
          · rw [hbefore]
            exact fun hm => hfresh (List.mem_toFinset.mp hm)
          · rw [hbefore, hcard]
            omega
        rw [ih _ _ _ hsplit' (hpassed.keep hfresh), List.mem_append, List.mem_singleton, or_assoc]
        refine or_congr_right ⟨?_, ?_⟩
        · rintro (rfl | ⟨c, hc, h⟩)
          · exact ⟨p.1, List.mem_cons_self, hpick⟩
          · exact ⟨c, List.mem_cons_of_mem _ hc, h⟩
        · rintro ⟨c, hc, h⟩
          rcases List.mem_cons.mp hc with rfl | hrest
          · exact Or.inl rfl
          · exact Or.inr ⟨c, hrest, h⟩

theorem mem_keepPerPeriod [DecidableEq κ] {count : Nat} {key : DateTime → κ} (hw : Walk order)
    {p : τ × Nat} (hp : p ∈ order) :
    p.2 ∈ keepPerPeriod order count key ↔ p.1 ∈ (tier count key).pick (members order) := by
  rw [keepPerPeriod, mem_keepPerPeriodFrom hw p.2 order [] [] [] rfl Passed.start]
  constructor
  · rintro (hnil | ⟨b, hb, hpick⟩)
    · simp at hnil
    · exact hw.indexed hb hp rfl ▸ hpick
  · exact fun hpick => Or.inr ⟨p.1, hp, hpick⟩

/-- `keepLatest` is the tier in which every candidate is a class of its own. -/
theorem mem_keepLatest {count : Nat} (hw : Walk order) {p : τ × Nat} (hp : p ∈ order) :
    p.2 ∈ (order.take count).map Prod.snd ↔
      p.1 ∈ (Choice.firstPerKey rank (fun b : τ => b) count).pick (members order) := by
  obtain ⟨pre, rest, hsplit⟩ := List.append_of_mem hp
  have hnd : order.Nodup := hw.increasing.imp fun h he => (he ▸ h).false
  have hpre : (pre.map Prod.fst).Nodup := by
    have hinc := hw.increasing
    rw [hsplit, List.pairwise_append] at hinc
    exact List.pairwise_map.mpr (hinc.1.imp fun h he => (he ▸ h).false)
  have hcard : (Choice.keysBefore rank (fun b : τ => b) (members order) p.1).card = pre.length := by
    classical
    have hset : Choice.keysBefore rank (fun b : τ => b) (members order) p.1 =
        (pre.map Prod.fst).toFinset := by
      ext b
      rw [keysBefore_split hw hsplit, List.mem_toFinset, List.mem_map]
    rw [hset, List.toFinset_card_of_nodup hpre, List.length_map]
  have hself : p.1 ∉ Choice.keysBefore rank (fun b : τ => b) (members order) p.1 := by
    rw [Choice.mem_keysBefore]
    rintro ⟨y, -, hlt, rfl⟩
    exact hlt.false
  have htake : p.2 ∈ (order.take count).map Prod.snd ↔ pre.length < count := by
    rw [List.mem_map]
    constructor
    · rintro ⟨q, hq, hidx⟩
      obtain rfl := hw.indexed (List.mem_of_mem_take hq) hp hidx
      by_contra hge
      rw [hsplit, List.take_append_of_le_length (by omega)] at hq
      rw [hsplit] at hnd
      exact (List.disjoint_of_nodup_append hnd) (List.mem_of_mem_take hq) List.mem_cons_self
    · intro hlt
      refine ⟨p, ?_, rfl⟩
      rw [hsplit, List.take_append]
      obtain ⟨m, hm⟩ : ∃ m, count - pre.length = m + 1 := ⟨count - pre.length - 1, by omega⟩
      rw [hm]
      simp
  rw [htake, Choice.mem_firstPerKey, hcard]
  exact ⟨fun h => ⟨mem_members.mpr ⟨p.2, hp⟩, hself, h⟩, fun h => h.2.2⟩

-- Selection is a stable choice

noncomputable def tierOf (count : Option Nat) (key : DateTime → κ) : Choice τ :=
  match count with
  | none => Choice.nothing
  | some n => tier n key

noncomputable def latestOf (count : Option Nat) : Choice τ :=
  match count with
  | none => Choice.nothing
  | some n => Choice.firstPerKey rank (fun b => b) n

/-- What a retention policy is for: the union of its tiers, and the pins. -/
noncomputable def gfs (policy : Retention) : Choice τ :=
  (((((latestOf policy.keepLatest).union (tierOf policy.keepHourly hourKey)).union
    (tierOf policy.keepDaily dayKey)).union
    (tierOf policy.keepWeekly weekKey)).union
    (tierOf policy.keepMonthly monthKey)).union
    (tierOf policy.keepAnnual yearKey) |>.union (Choice.always fun b => pinned b)

theorem stable_tierOf (count : Option Nat) (key : DateTime → κ) :
    (tierOf count key : Choice τ).Stable := by
  cases count with
  | none => exact Choice.stable_nothing
  | some n => exact Choice.stable_firstPerKey

theorem stable_latestOf (count : Option Nat) : (latestOf count : Choice τ).Stable := by
  cases count with
  | none => exact Choice.stable_nothing
  | some n => exact Choice.stable_firstPerKey

theorem stable_gfs (policy : Retention) : (gfs policy : Choice τ).Stable :=
  ((((((stable_latestOf _).union (stable_tierOf _ _)).union (stable_tierOf _ _)).union
    (stable_tierOf _ _)).union (stable_tierOf _ _)).union (stable_tierOf _ _)).union
    (Choice.stable_always _)

theorem mem_keepTier [DecidableEq κ] {count : Option Nat} {key : DateTime → κ} (hw : Walk order)
    {p : τ × Nat} (hp : p ∈ order) :
    p.2 ∈ keepTier order count key ↔ p.1 ∈ (tierOf count key).pick (members order) := by
  cases count with
  | none => simp [keepTier, tierOf, Choice.nothing]
  | some n => exact mem_keepPerPeriod hw hp

theorem mem_keepLatestTier {count : Option Nat} (hw : Walk order) {p : τ × Nat} (hp : p ∈ order) :
    p.2 ∈ keepLatestTier order count ↔ p.1 ∈ (latestOf count).pick (members order) := by
  cases count with
  | none => simp [keepLatestTier, latestOf, Choice.nothing]
  | some n => exact mem_keepLatest hw hp

theorem mem_always_pinned {p : τ × Nat} (hp : p ∈ order) :
    pinned p.1 = true ↔ p.1 ∈ (Choice.always fun b : τ => pinned b).pick (members order) := by
  rw [Choice.mem_always]
  exact ⟨fun h => ⟨mem_members.mpr ⟨p.2, hp⟩, h⟩, And.right⟩

theorem survives_iff {policy : Retention} (hw : Walk order) {p : τ × Nat} (hp : p ∈ order) :
    (p.2 ∈ keepIdx order policy ∨ pinned p.1 = true) ↔ p.1 ∈ (gfs policy).pick (members order) := by
  simp only [keepIdx, gfs, List.mem_append, Choice.mem_union_pick, mem_keepTier hw hp,
    mem_keepLatestTier hw hp, mem_always_pinned hp]

namespace Population

variable (p : Population τ) (policy : Retention)

open Classical in
noncomputable def set : Finset τ := p.rows.toFinset

theorem mem_set {b : τ} : b ∈ p.set ↔ b ∈ p.rows := by simp [set]

theorem members_walkOrder : members (walkOrder p.rows) = p.set := by
  ext b
  rw [mem_members, mem_walkOrder, mem_set]

theorem eq_of_id {a b : τ} (ha : a ∈ p.rows) (hb : b ∈ p.rows)
    (h : SnapshotLike.id a = SnapshotLike.id b) : a = b :=
  List.inj_on_of_nodup_map p.distinct ha hb h

/-- Both result lists of `selectKept` in one statement, `side` telling which. -/
theorem mem_side (side : Bool) (i : String) :
    (i ∈ if side then (selectKept p.rows policy).keep else (selectKept p.rows policy).delete) ↔
      ∃ b ∈ p.rows, SnapshotLike.id b = i ∧ (b ∈ (gfs policy).pick p.set ↔ side = true) := by
  by_cases hempty : p.rows.isEmpty
  · have hnil : p.rows = [] := List.isEmpty_iff.mp hempty
    cases side <;> simp [selectKept, hnil]
  have hw := walk_walkOrder p
  have key : ∀ q : τ × Nat, q ∈ walkOrder p.rows →
      ((decide (q.2 ∈ keepIdx (walkOrder p.rows) policy) || pinned q.1) = side ↔
        (q.1 ∈ (gfs policy).pick p.set ↔ side = true)) := by
    intro q hq
    rw [← p.members_walkOrder, ← survives_iff hw hq]
    cases side <;> simp
  have hside : (i ∈ if side then (selectKept p.rows policy).keep
      else (selectKept p.rows policy).delete) ↔
      ∃ q ∈ walkOrder p.rows, (decide (q.2 ∈ keepIdx (walkOrder p.rows) policy) || pinned q.1) = side
        ∧ SnapshotLike.id q.1 = i := by
    cases side <;> simp [selectKept, hempty, and_assoc]
  rw [hside]
  constructor
  · rintro ⟨q, hq, hs, hid⟩
    exact ⟨q.1, mem_walkOrder.mp ⟨q.2, hq⟩, hid, (key q hq).mp hs⟩
  · rintro ⟨b, hb, hid, hs⟩
    obtain ⟨n, hn⟩ := mem_walkOrder.mpr hb
    exact ⟨(b, n), hn, (key _ hn).mpr hs, hid⟩

theorem mem_keep (i : String) :
    i ∈ (selectKept p.rows policy).keep ↔
      ∃ b ∈ p.rows, SnapshotLike.id b = i ∧ b ∈ (gfs policy).pick p.set := by
  simpa using p.mem_side policy true i

theorem mem_delete (i : String) :
    i ∈ (selectKept p.rows policy).delete ↔
      ∃ b ∈ p.rows, SnapshotLike.id b = i ∧ b ∉ (gfs policy).pick p.set := by
  simpa using p.mem_side policy false i

theorem id_mem_keep {b : τ} (hb : b ∈ p.rows) :
    SnapshotLike.id b ∈ (selectKept p.rows policy).keep ↔ b ∈ (gfs policy).pick p.set := by
  rw [mem_keep]
  refine ⟨?_, fun h => ⟨b, hb, rfl, h⟩⟩
  rintro ⟨c, hc, hid, h⟩
  exact p.eq_of_id hc hb hid ▸ h

theorem id_mem_delete {b : τ} (hb : b ∈ p.rows) :
    SnapshotLike.id b ∈ (selectKept p.rows policy).delete ↔ b ∉ (gfs policy).pick p.set := by
  rw [mem_delete]
  refine ⟨?_, fun h => ⟨b, hb, rfl, h⟩⟩
  rintro ⟨c, hc, hid, h⟩
  exact p.eq_of_id hc hb hid ▸ h

/-- The rows a prune under `policy` leaves. -/
def kept : Population τ where
  rows := p.rows.filter fun b => decide (SnapshotLike.id b ∈ (selectKept p.rows policy).keep)
  distinct := p.distinct.sublist (List.filter_sublist.map _)

theorem set_kept : (p.kept policy).set = (gfs policy).pick p.set := by
  ext b
  rw [mem_set, kept, List.mem_filter, decide_eq_true_eq]
  constructor
  · exact fun ⟨hb, h⟩ => (p.id_mem_keep policy hb).mp h
  · intro h
    have hb := p.mem_set.mp ((gfs policy).subset _ h)
    exact ⟨hb, (p.id_mem_keep policy hb).mpr h⟩

/-- `u` lists exactly the rows of `p` and `q`. -/
def IsUnion (p q u : Population τ) : Prop := ∀ b, b ∈ u.rows ↔ b ∈ p.rows ∨ b ∈ q.rows

theorem IsUnion.set_eq {p q u : Population τ} (h : IsUnion p q u) :
    u.set = open Classical in p.set ∪ q.set := by
  ext b
  simp only [mem_set, h b, Finset.mem_union]

end Population

-- Pruning in stages

structure Pruning (τ : Type) [SnapshotLike τ] where
  live : Population τ
  arrived : Population τ

/-- One pass deletes any part of the delete list; new snapshots may arrive
between passes. -/
inductive PruneStep (policy : Retention) : Pruning τ → Pruning τ → Prop
  | prune {g : Pruning τ} (live : Population τ) (shrinks : ∀ b ∈ live.rows, b ∈ g.live.rows)
      (batch : ∀ b ∈ g.live.rows, b ∉ live.rows →
        SnapshotLike.id b ∈ (selectKept g.live.rows policy).delete) :
      PruneStep policy g { g with live }
  | arrive {g : Pruning τ} (fresh live arrived : Population τ)
      (grows : g.live.IsUnion fresh live) (records : g.arrived.IsUnion fresh arrived) :
      PruneStep policy g { live, arrived }

abbrev PruneRun (policy : Retention) : Pruning τ → Pruning τ → Prop :=
  Relation.ReflTransGen (PruneStep policy)

namespace Pruning

noncomputable def stage (g : Pruning τ) : Choice.Stage τ where
  live := g.live.set
  arrived := g.arrived.set

theorem stageStep {policy : Retention} {g g' : Pruning τ} (h : PruneStep policy g g') :
    Choice.StageStep (gfs policy) g.stage g'.stage := by
  cases h with
  | prune live shrinks batch =>
    refine Choice.StageStep.prune live.set (fun b hb => ?_) (fun b hb => ?_)
    · have hrow := g.live.mem_set.mp ((gfs policy).subset _ hb)
      rw [live.mem_set]
      by_contra hgone
      exact (g.live.id_mem_delete policy hrow).mp (batch b hrow hgone) hb
    · exact g.live.mem_set.mpr (shrinks b (live.mem_set.mp hb))
  | arrive fresh live arrived grows records =>
    have h := Choice.StageStep.arrive (c := gfs policy) (g := g.stage) fresh.set
    simp only [stage, grows.set_eq, records.set_eq]
    exact h

theorem stageRun {policy : Retention} {g g' : Pruning τ} (h : PruneRun policy g g') :
    Choice.StageRun (gfs policy) g.stage g'.stage := by
  induction h with
  | refl => exact .refl
  | tail _ hstep ih => exact ih.tail (stageStep hstep)

theorem start_faithful (policy : Retention) (s : Population τ) :
    Choice.Stage.Faithful (gfs policy) (stage ⟨s, s⟩) := ⟨Finset.Subset.refl _, rfl⟩

end Pruning

theorem keep_iff_of_pick_eq {policy : Retention} {p q : Population τ}
    (h : (gfs policy).pick p.set = (gfs policy).pick q.set) (i : String) :
    i ∈ (selectKept p.rows policy).keep ↔ i ∈ (selectKept q.rows policy).keep := by
  rw [p.mem_keep, q.mem_keep]
  constructor
  · rintro ⟨b, -, hid, hb⟩
    have hq : b ∈ (gfs policy).pick q.set := h ▸ hb
    exact ⟨b, q.mem_set.mp ((gfs policy).subset _ hq), hid, hq⟩
  · rintro ⟨b, -, hid, hb⟩
    have hp : b ∈ (gfs policy).pick p.set := h ▸ hb
    exact ⟨b, p.mem_set.mp ((gfs policy).subset _ hp), hid, hp⟩

theorem delete_eq_nil_iff {policy : Retention} {p : Population τ} :
    (selectKept p.rows policy).delete = [] ↔ (gfs policy).pick p.set = p.set := by
  rw [List.eq_nil_iff_forall_not_mem]
  constructor
  · intro h
    refine Finset.Subset.antisymm ((gfs policy).subset _) fun b hb => ?_
    by_contra hdrop
    exact h _ ((p.id_mem_delete policy (p.mem_set.mp hb)).mpr hdrop)
  · intro h i hi
    obtain ⟨b, hb, -, hdrop⟩ := (p.mem_delete policy i).mp hi
    exact hdrop (h.symm ▸ p.mem_set.mpr hb)

theorem delete_kept (policy : Retention) (p : Population τ) :
    (selectKept (p.kept policy).rows policy).delete = [] := by
  rw [delete_eq_nil_iff, p.set_kept]
  exact (stable_gfs policy).outcast (Finset.Subset.refl _) ((gfs policy).subset _)

theorem kept_step (policy : Retention) (g : Pruning τ) :
    PruneStep policy g { g with live := g.live.kept policy } := by
  refine PruneStep.prune _ (fun b hb => List.mem_of_mem_filter hb) (fun b hb hgone => ?_)
  rw [g.live.id_mem_delete policy hb, ← g.live.set_kept policy, Population.mem_set]
  exact hgone

/-- Retention is path independent: selecting from what an earlier selection
left gives what selecting from everything gives. Hence a pruned population is
a fixpoint, partial batches over any passes end where one full prune ends, and
what is once to be deleted is never kept again. -/
theorem selectKept_path_independent (policy : Retention) :
    (∀ s y a b : Population τ, (s.kept policy).IsUnion y a → s.IsUnion y b →
      ∀ i, i ∈ (selectKept a.rows policy).keep ↔ i ∈ (selectKept b.rows policy).keep) ∧
    (∀ s : Population τ, (selectKept (s.kept policy).rows policy).delete = []) ∧
    (∀ (s : Population τ) (g : Pruning τ), PruneRun policy ⟨s, s⟩ g →
      (∀ i, i ∈ (selectKept g.live.rows policy).keep ↔
        i ∈ (selectKept g.arrived.rows policy).keep) ∧
      ((selectKept g.live.rows policy).delete = [] →
        ∀ b, b ∈ g.live.rows ↔ b ∈ (g.arrived.kept policy).rows) ∧
      ∃ live, PruneStep policy g { g with live } ∧ (selectKept live.rows policy).delete = []) ∧
    (∀ (s : Population τ) (g g' : Pruning τ), PruneRun policy ⟨s, s⟩ g → PruneRun policy g g' →
      ∀ i ∈ (selectKept g.live.rows policy).delete, i ∉ (selectKept g'.live.rows policy).keep) := by
  have hstable := stable_gfs (τ := τ) policy
  have hfaithful : ∀ (s : Population τ) (g : Pruning τ), PruneRun policy ⟨s, s⟩ g →
      g.stage.Faithful (gfs policy) := fun s g h =>
    (Pruning.stageRun h).faithful hstable (Pruning.start_faithful policy s)
  refine ⟨?_, delete_kept policy, ?_, ?_⟩
  · intro s y a b ha hb i
    refine keep_iff_of_pick_eq ?_ i
    rw [ha.set_eq, hb.set_eq, s.set_kept]
    exact hstable.pick_union _ _
  · intro s g h
    obtain ⟨-, hpick⟩ := hfaithful s g h
    refine ⟨keep_iff_of_pick_eq hpick, fun hnil b => ?_, _, kept_step policy g, delete_kept _ _⟩
    rw [← g.live.mem_set, ← (g.arrived.kept policy).mem_set, g.arrived.set_kept,
      ← delete_eq_nil_iff.mp hnil]
    exact (Finset.ext_iff.mp hpick) b
  · intro s g g' h h' i hi hkeep
    obtain ⟨b, hb, hid, hdrop⟩ := (g.live.mem_delete policy i).mp hi
    obtain ⟨c, hc, hcid, hck⟩ := (g'.live.mem_keep policy i).mp hkeep
    have hg := hfaithful s g h
    have hg' := hfaithful s g' (h.trans h')
    have hbarr : b ∈ g'.arrived.rows := g'.arrived.mem_set.mp
      ((Pruning.stageRun h').arrived_mono (hg.1 (g.live.mem_set.mpr hb)))
    have hcarr : c ∈ g'.arrived.rows := g'.arrived.mem_set.mp (hg'.1 (g'.live.mem_set.mpr hc))
    obtain rfl := g'.arrived.eq_of_id hbarr hcarr (hid.trans hcid.symm)
    exact (Pruning.stageRun h').dropped_stays hstable hg (g.live.mem_set.mpr hb) hdrop hck

/-- Two days of backups under `keepDaily: 1`, then a third day arrives. -/
theorem selectKept_path_independent_daily :
    let policy : Retention := ⟨none, none, some 1, none, none, none⟩
    let day := fun (n : Int) (name : String) =>
      (⟨name, DateTime.fromTimestamp (n * 86400), false⟩ : SnapshotRetentionView)
    (selectKept [day 0 "a", day 1 "b"] policy).keep = ["b"] ∧
      ∀ i, i ∈ (selectKept [day 1 "b", day 2 "c"] policy).keep ↔
        i ∈ (selectKept [day 0 "a", day 1 "b", day 2 "c"] policy).keep := by
  intro policy day
  have hkept : (selectKept [day 0 "a", day 1 "b"] policy).keep = ["b"] := by decide
  refine ⟨hkept, fun i => ?_⟩
  refine (selectKept_path_independent policy).1 ⟨[day 0 "a", day 1 "b"], by decide⟩
    ⟨[day 2 "c"], by decide⟩ ⟨[day 1 "b", day 2 "c"], by decide⟩
    ⟨[day 0 "a", day 1 "b", day 2 "c"], by decide⟩ (fun b => ?_) (fun b => ?_) i
  · have hrows : ([day 0 "a", day 1 "b"].filter fun b =>
        decide (SnapshotLike.id b ∈ (selectKept [day 0 "a", day 1 "b"] policy).keep)) =
        [day 1 "b"] := by decide
    simp only [Population.kept, hrows, List.mem_cons, List.not_mem_nil, or_false]
  · simp only [List.mem_cons, List.not_mem_nil, or_false, or_assoc]

end Kopiur
