import Mathlib.Data.Finset.Union
import Mathlib.Data.Finset.Lattice.Fold

/-!
# Settings written over settings

A write mentions some scalars and adds some patterns to lists; what it does
not mention stays. So a write can be given as the settings it mentions, and
writing is an idempotent monoid action. A history leaves what its last write
alone leaves exactly if the last write mentions all that was ever mentioned.
-/

namespace Kopiur.Lib

structure Settings (κ ν ι π : Type) where
  scalar : κ → Option ν
  patterns : ι → Finset π

namespace Settings

variable {κ ν ι π : Type}

@[ext]
theorem ext {s t : Settings κ ν ι π} (hs : ∀ k, s.scalar k = t.scalar k)
    (hp : ∀ i, s.patterns i = t.patterns i) : s = t := by
  cases s
  cases t
  cases funext hs
  cases funext hp
  rfl

def blank : Settings κ ν ι π := ⟨fun _ => none, fun _ => ∅⟩

/-- Everything `s` mentions is mentioned by `t`. -/
structure Within (s t : Settings κ ν ι π) : Prop where
  scalar : ∀ k, (s.scalar k).isSome → (t.scalar k).isSome
  patterns : ∀ i, s.patterns i ⊆ t.patterns i

theorem blank_within (t : Settings κ ν ι π) : blank.Within t where
  scalar _ h := by cases h
  patterns _ := Finset.empty_subset _

section atop

variable [DecidableEq π]

def atop (s t : Settings κ ν ι π) : Settings κ ν ι π where
  scalar k := (t.scalar k).or (s.scalar k)
  patterns i := s.patterns i ∪ t.patterns i

@[simp]
theorem blank_over (t : Settings κ ν ι π) : blank.atop t = t := by
  ext <;> simp [atop, blank]

@[simp]
theorem over_blank (s : Settings κ ν ι π) : s.atop blank = s := by
  ext <;> simp [atop, blank]

theorem over_assoc (s t u : Settings κ ν ι π) : (s.atop t).atop u = s.atop (t.atop u) := by
  ext <;> simp [atop, Option.or_assoc, Finset.union_assoc]

theorem over_eq_right {s t : Settings κ ν ι π} : s.atop t = t ↔ s.Within t := by
  constructor
  · intro h
    constructor
    · intro k hk
      have hk' := congrFun (congrArg scalar h) k
      cases ht : t.scalar k with
      | none =>
        simp only [atop, ht, Option.none_or] at hk'
        rw [hk'] at hk
        cases hk
      | some v => rfl
    · intro i
      rw [← congrFun (congrArg patterns h) i]
      exact Finset.subset_union_left
  · intro h
    apply ext
    · intro k
      cases ht : t.scalar k with
      | none =>
        have hs : s.scalar k = none := by
          have := h.scalar k
          simp_all
        simp [atop, ht, hs]
      | some v => simp [atop, ht]
    · intro i
      exact Finset.union_eq_right.mpr (h.patterns i)

theorem over_within {s t u : Settings κ ν ι π} : (s.atop t).Within u ↔ s.Within u ∧ t.Within u := by
  constructor
  · intro h
    refine ⟨⟨fun k hk => h.scalar k ?_, fun i => ?_⟩, ⟨fun k hk => h.scalar k ?_, fun i => ?_⟩⟩
    · simp [atop, hk]
    · exact Finset.subset_union_left.trans (h.patterns i)
    · simp [atop, hk]
    · exact Finset.subset_union_right.trans (h.patterns i)
  · rintro ⟨hs, ht⟩
    constructor
    · intro k hk
      simp only [atop, Option.isSome_or, Bool.or_eq_true] at hk
      exact hk.elim (ht.scalar k) (hs.scalar k)
    · intro i
      exact Finset.union_subset (hs.patterns i) (ht.patterns i)

theorem foldl_over (ts : List (Settings κ ν ι π)) (s : Settings κ ν ι π) :
    ts.foldl atop s = s.atop (ts.foldl atop blank) := by
  induction ts generalizing s with
  | nil => simp
  | cons t ts ih => rw [List.foldl_cons, ih, List.foldl_cons, blank_over, ih t, over_assoc]

theorem foldl_over_within (ts : List (Settings κ ν ι π)) (s u : Settings κ ν ι π) :
    (ts.foldl atop s).Within u ↔ s.Within u ∧ ∀ t ∈ ts, t.Within u := by
  induction ts generalizing s with
  | nil => simp
  | cons t ts ih => simp [ih, over_within, and_assoc]

theorem foldl_over_eq_last (ts : List (Settings κ ν ι π)) (u : Settings κ ν ι π) :
    (ts ++ [u]).foldl atop blank = u ↔ ∀ t ∈ ts, t.Within u := by
  rw [List.foldl_append, List.foldl_cons, List.foldl_nil, over_eq_right, foldl_over_within]
  exact and_iff_right (blank_within u)

end atop

end Settings

end Kopiur.Lib
