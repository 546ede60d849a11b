import Mathlib.Data.Finset.Card
import Mathlib.Data.Finset.Max
import Mathlib.Data.Finset.Union
import Mathlib.Logic.Relation

/-!
# Choice functions on finite sets

A choice function keeps part of every finite population. The two classical
conditions here are *heritage* (what is kept from a large set is kept from
every smaller set it belongs to) and *outcast* (dropping what is not kept
changes nothing). Together they give path independence: choosing in stages,
in any order and over any batches, ends where choosing once does.
-/

namespace Kopiur.Lib

open Classical

variable {α κ : Type}

/-- A choice function that never keeps what it was not given. -/
structure Choice (α : Type) where
  pick : Finset α → Finset α
  subset : ∀ s, pick s ⊆ s

namespace Choice

def Heritage (c : Choice α) : Prop :=
  ∀ ⦃s t : Finset α⦄ ⦃x : α⦄, s ⊆ t → x ∈ s → x ∈ c.pick t → x ∈ c.pick s

def Outcast (c : Choice α) : Prop :=
  ∀ ⦃s t : Finset α⦄, c.pick t ⊆ s → s ⊆ t → c.pick s = c.pick t

/-- Path independent in Plott's sense, split into its two halves. -/
structure Stable (c : Choice α) : Prop where
  heritage : c.Heritage
  outcast : c.Outcast

variable {c : Choice α}

theorem Stable.pick_union (h : c.Stable) (s t : Finset α) :
    c.pick (c.pick s ∪ t) = c.pick (s ∪ t) := by
  apply h.outcast
  · intro x hx
    rcases Finset.mem_union.mp (c.subset _ hx) with hs | ht
    · exact Finset.mem_union_left _ (h.heritage Finset.subset_union_left hs hx)
    · exact Finset.mem_union_right _ ht
  · exact Finset.union_subset_union_left (c.subset s)

theorem Stable.not_mem_pick (h : c.Stable) {s t : Finset α} {x : α} (hx : x ∈ s)
    (hdrop : x ∉ c.pick s) (hsub : c.pick s ⊆ t) : x ∉ c.pick t := by
  intro hpick
  have hmid : insert x (c.pick s) ⊆ s := Finset.insert_subset hx (c.subset s)
  have hup : insert x (c.pick s) ⊆ t := Finset.insert_subset (c.subset t hpick) hsub
  have hkept := h.heritage hup (Finset.mem_insert_self x _) hpick
  rw [h.outcast (Finset.subset_insert x _) hmid] at hkept
  exact hdrop hkept

/-- Keep what either choice keeps. -/
noncomputable def union (c d : Choice α) : Choice α where
  pick s := c.pick s ∪ d.pick s
  subset s := Finset.union_subset (c.subset s) (d.subset s)

theorem mem_union_pick {d : Choice α} {s : Finset α} {x : α} :
    x ∈ (c.union d).pick s ↔ x ∈ c.pick s ∨ x ∈ d.pick s := Finset.mem_union

theorem Stable.union {d : Choice α} (hc : c.Stable) (hd : d.Stable) : (c.union d).Stable where
  heritage := by
    intro s t x hst hx hp
    rw [mem_union_pick] at hp ⊢
    exact hp.imp (hc.heritage hst hx) (hd.heritage hst hx)
  outcast := by
    intro s t hps hst
    have h1 := hc.outcast (Finset.union_subset_left hps) hst
    have h2 := hd.outcast (Finset.union_subset_right hps) hst
    show c.pick s ∪ d.pick s = c.pick t ∪ d.pick t
    rw [h1, h2]

/-- Keep everything with a fixed property. -/
noncomputable def always (p : α → Prop) : Choice α where
  pick s := s.filter p
  subset s := Finset.filter_subset p s

theorem mem_always {p : α → Prop} {s : Finset α} {x : α} :
    x ∈ (always p).pick s ↔ x ∈ s ∧ p x := Finset.mem_filter

theorem stable_always (p : α → Prop) : (always p).Stable where
  heritage := by
    intro s t x _ hx hp
    exact mem_always.mpr ⟨hx, (mem_always.mp hp).2⟩
  outcast := by
    intro s t hps hst
    ext x
    rw [mem_always, mem_always]
    exact ⟨fun h => ⟨hst h.1, h.2⟩, fun h => ⟨hps (mem_always.mpr h), h.2⟩⟩

def nothing : Choice α where
  pick _ := ∅
  subset s := Finset.empty_subset s

theorem stable_nothing : (nothing : Choice α).Stable where
  heritage := by intro s t x _ _ hp; simp [nothing] at hp
  outcast := by intro s t _ _; rfl

section Newest

variable {β : Type} [LinearOrder β] (rank : α → β) (key : α → κ) (count : ℕ)

/-- The classes met strictly before `x`. -/
noncomputable def keysBefore (s : Finset α) (x : α) : Finset κ :=
  (s.filter fun y => rank y < rank x).image key

/-- Walking `s` by increasing `rank`, keep the first member of each class
until `count` classes have been kept. -/
noncomputable def firstPerKey : Choice α where
  pick s := s.filter fun x =>
    key x ∉ keysBefore rank key s x ∧ (keysBefore rank key s x).card < count
  subset s := Finset.filter_subset _ s

variable {rank key count}

variable {s : Finset α}

theorem mem_firstPerKey {x : α} :
    x ∈ (firstPerKey rank key count).pick s ↔
      x ∈ s ∧ key x ∉ keysBefore rank key s x ∧ (keysBefore rank key s x).card < count := by
  simp [firstPerKey]

theorem mem_keysBefore {x : α} {k : κ} :
    k ∈ keysBefore rank key s x ↔ ∃ y ∈ s, rank y < rank x ∧ key y = k := by
  simp [keysBefore, and_assoc]

theorem keysBefore_mono {t : Finset α} {x : α} (h : s ⊆ t) :
    keysBefore rank key s x ⊆ keysBefore rank key t x :=
  Finset.image_subset_image (Finset.filter_subset_filter _ h)

theorem keysBefore_subset_of_lt {x y : α} (h : rank y < rank x) :
    keysBefore rank key s y ⊆ keysBefore rank key s x := by
  intro k hk
  obtain ⟨z, hz, hzy, rfl⟩ := mem_keysBefore.mp hk
  exact mem_keysBefore.mpr ⟨z, hz, hzy.trans h, rfl⟩

theorem exists_first {x : α} {k : κ} (hk : k ∈ keysBefore rank key s x) :
    ∃ y ∈ s, rank y < rank x ∧ key y = k ∧ key y ∉ keysBefore rank key s y := by
  obtain ⟨z, hz, hzx, hzk⟩ := mem_keysBefore.mp hk
  obtain ⟨y, hy, hmin⟩ := (s.filter fun y => key y = k).exists_min_image rank
    ⟨z, Finset.mem_filter.mpr ⟨hz, hzk⟩⟩
  obtain ⟨hys, hyk⟩ := Finset.mem_filter.mp hy
  have hyz : rank y ≤ rank z := hmin z (Finset.mem_filter.mpr ⟨hz, hzk⟩)
  refine ⟨y, hys, hyz.trans_lt hzx, hyk, fun hm => ?_⟩
  obtain ⟨w, hw, hwy, hwk⟩ := mem_keysBefore.mp hm
  exact absurd (hmin w (Finset.mem_filter.mpr ⟨hw, hwk.trans hyk⟩)) (not_le.mpr hwy)

private theorem kept_of_few {y : α} (hy : y ∈ s) (hfirst : key y ∉ keysBefore rank key s y)
    (hfew : (keysBefore rank key s y).card < count) :
    y ∈ (firstPerKey rank key count).pick s := mem_firstPerKey.mpr ⟨hy, hfirst, hfew⟩

/-- When at least `count` classes are met before `x`, at least `count` of
them have their first member kept: the walk only stops once it has kept that
many. -/
theorem count_le_kept_before {x : α} (h : count ≤ (keysBefore rank key s x).card) :
    count ≤ (keysBefore rank key ((firstPerKey rank key count).pick s) x).card := by
  by_contra hlt
  rw [not_le] at hlt
  set kept := (firstPerKey rank key count).pick s with hkept
  have hsub : keysBefore rank key kept x ⊆ keysBefore rank key s x :=
    keysBefore_mono ((firstPerKey rank key count).subset s)
  -- Among the classes with no kept member before `x`, take the earliest one.
  have hne : (s.filter fun y => rank y < rank x ∧ key y ∉ keysBefore rank key kept x).Nonempty := by
    have hssub : keysBefore rank key kept x ⊂ keysBefore rank key s x :=
      Finset.ssubset_iff_subset_ne.mpr ⟨hsub, fun he => absurd (he ▸ h) (not_le.mpr hlt)⟩
    obtain ⟨k, hks, hkk⟩ := Finset.exists_of_ssubset hssub
    obtain ⟨y, hy, hyx, rfl⟩ := mem_keysBefore.mp hks
    exact ⟨y, Finset.mem_filter.mpr ⟨hy, hyx, hkk⟩⟩
  obtain ⟨y, hy, hmin⟩ := Finset.exists_min_image _ rank hne
  obtain ⟨hys, hyx, hyk⟩ := Finset.mem_filter.mp hy
  have hbefore : keysBefore rank key s y ⊆ keysBefore rank key kept x := by
    intro k hk
    obtain ⟨z, hz, hzy, rfl⟩ := mem_keysBefore.mp hk
    by_contra hzk
    exact absurd (hmin z (Finset.mem_filter.mpr ⟨hz, hzy.trans hyx, hzk⟩)) (not_le.mpr hzy)
  have hyfirst : key y ∉ keysBefore rank key s y := fun hm => hyk (hbefore hm)
  have hfew : (keysBefore rank key s y).card < count := (Finset.card_le_card hbefore).trans_lt hlt
  exact hyk (mem_keysBefore.mpr ⟨y, kept_of_few hys hyfirst hfew, hyx, rfl⟩)

theorem stable_firstPerKey : (firstPerKey rank key count).Stable where
  heritage := by
    intro s t x hst hx hp
    obtain ⟨-, hfirst, hfew⟩ := mem_firstPerKey.mp hp
    refine mem_firstPerKey.mpr ⟨hx, fun hm => hfirst (keysBefore_mono hst hm), ?_⟩
    exact (Finset.card_le_card (keysBefore_mono hst)).trans_lt hfew
  outcast := by
    intro s t hps hst
    refine Finset.Subset.antisymm (fun x hp => ?_) (fun x hp => ?_)
    · obtain ⟨hxs, hfirst, hfew⟩ := mem_firstPerKey.mp hp
      have hkept : keysBefore rank key ((firstPerKey rank key count).pick t) x ⊆
          keysBefore rank key s x := keysBefore_mono hps
      have hfewt : (keysBefore rank key t x).card < count := by
        by_contra hge
        have h1 := count_le_kept_before (not_lt.mp hge)
        exact absurd (h1.trans (Finset.card_le_card hkept)) (not_le.mpr hfew)
      refine mem_firstPerKey.mpr ⟨hst hxs, fun hm => hfirst ?_, hfewt⟩
      -- The first member of `x`'s class in `t` is kept, hence already in `s`.
      obtain ⟨y, hy, hyx, hyk, hyfirst⟩ := exists_first hm
      have hfewy := (Finset.card_le_card (keysBefore_subset_of_lt hyx)).trans_lt hfewt
      exact hkept (mem_keysBefore.mpr ⟨y, kept_of_few hy hyfirst hfewy, hyx, hyk⟩)
    · obtain ⟨-, hfirst, hfew⟩ := mem_firstPerKey.mp hp
      refine mem_firstPerKey.mpr ⟨hps hp, fun hm => hfirst (keysBefore_mono hst hm), ?_⟩
      exact (Finset.card_le_card (keysBefore_mono hst)).trans_lt hfew

theorem least_mem_firstPerKey {x : α} (hx : x ∈ s) (hleast : ∀ y ∈ s, rank x ≤ rank y)
    (hcount : 0 < count) :
    x ∈ (firstPerKey rank key count).pick s := by
  have hnone : keysBefore rank key s x = ∅ := by
    ext k
    simp only [mem_keysBefore, Finset.notMem_empty, iff_false, not_exists, not_and]
    exact fun y hy hlt _ => absurd hlt (not_lt.mpr (hleast y hy))
  simp [mem_firstPerKey, hx, hnone, hcount]

theorem firstPerKey_zero (s : Finset α) : (firstPerKey rank key 0).pick s = ∅ := by
  ext x
  simp [mem_firstPerKey]

end Newest

/-- A population being pruned, beside everything that ever arrived. -/
structure Stage (α : Type) where
  live : Finset α
  arrived : Finset α

/-- One stage: drop some of what is not kept, or let new members arrive. -/
inductive StageStep (c : Choice α) : Stage α → Stage α → Prop
  | prune {g : Stage α} (live : Finset α) (keeps : c.pick g.live ⊆ live) (shrinks : live ⊆ g.live) :
      StageStep c g { g with live }
  | arrive {g : Stage α} (fresh : Finset α) :
      StageStep c g { live := g.live ∪ fresh, arrived := g.arrived ∪ fresh }

def Stage.Faithful (c : Choice α) (g : Stage α) : Prop :=
  g.live ⊆ g.arrived ∧ c.pick g.live = c.pick g.arrived

theorem StageStep.faithful (hc : c.Stable) {g g' : Stage α} (h : StageStep c g g')
    (hg : g.Faithful c) : g'.Faithful c := by
  cases h with
  | prune live keeps shrinks =>
    exact ⟨shrinks.trans hg.1, (hc.outcast keeps shrinks).trans hg.2⟩
  | arrive fresh =>
    refine ⟨Finset.union_subset_union_left hg.1, ?_⟩
    calc c.pick (g.live ∪ fresh) = c.pick (c.pick g.live ∪ fresh) := (hc.pick_union _ _).symm
      _ = c.pick (c.pick g.arrived ∪ fresh) := by rw [hg.2]
      _ = c.pick (g.arrived ∪ fresh) := hc.pick_union _ _

theorem Stage.Faithful.grow (hc : c.Stable) {live arrived : Finset α}
    (h : (⟨live, arrived⟩ : Stage α).Faithful c) {live' : Finset α} (hsub : live ⊆ live') :
    ∃ arrived', arrived ⊆ arrived' ∧ (⟨live', arrived'⟩ : Stage α).Faithful c := by
  have hstep := (StageStep.arrive (c := c) (g := ⟨live, arrived⟩) live').faithful hc h
  rw [Finset.union_eq_right.mpr hsub] at hstep
  exact ⟨arrived ∪ live', Finset.subset_union_left, hstep⟩

theorem StageStep.arrived_mono {g g' : Stage α} (h : StageStep c g g') :
    g.arrived ⊆ g'.arrived := by
  cases h with
  | prune => exact Finset.Subset.refl _
  | arrive fresh => exact Finset.subset_union_left

abbrev StageRun (c : Choice α) : Stage α → Stage α → Prop := Relation.ReflTransGen (StageStep c)

theorem StageRun.faithful (hc : c.Stable) {g g' : Stage α} (h : StageRun c g g')
    (hg : g.Faithful c) : g'.Faithful c := by
  induction h with
  | refl => exact hg
  | tail _ hstep ih => exact hstep.faithful hc ih

theorem StageRun.arrived_mono {g g' : Stage α} (h : StageRun c g g') :
    g.arrived ⊆ g'.arrived := by
  induction h with
  | refl => exact Finset.Subset.refl _
  | tail _ hstep ih => exact ih.trans hstep.arrived_mono

theorem StageRun.dropped_stays (hc : c.Stable) {g g' : Stage α} (h : StageRun c g g')
    (hg : g.Faithful c) {x : α} (hx : x ∈ g.live) (hdrop : x ∉ c.pick g.live) :
    x ∉ c.pick g'.live := by
  intro hk
  rw [(h.faithful hc hg).2] at hk
  exact hdrop (hg.2 ▸ hc.heritage h.arrived_mono (hg.1 hx) hk)

end Choice

end Kopiur.Lib
