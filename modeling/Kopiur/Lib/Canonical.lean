import Mathlib.Data.List.Sort
import Mathlib.Data.List.Dedup

/-!
# Sorted lists without repeats

The list that stands for a set: two lists have the same one exactly if they
have the same members.
-/

namespace Kopiur.Lib

variable {α : Type} [LinearOrder α]

def canonical (l : List α) : List α := (l.insertionSort (· ≤ ·)).dedup

@[simp]
theorem mem_canonical {a : α} {l : List α} : a ∈ canonical l ↔ a ∈ l := by
  simp [canonical]

theorem canonical_nodup (l : List α) : (canonical l).Nodup :=
  List.nodup_dedup _

theorem canonical_pairwise (l : List α) : (canonical l).Pairwise (· ≤ ·) :=
  (List.pairwise_insertionSort (· ≤ ·) l).sublist (List.dedup_sublist _)

theorem eq_of_sorted_nodup {l l' : List α} (hs : l.Pairwise (· ≤ ·)) (hs' : l'.Pairwise (· ≤ ·))
    (hn : l.Nodup) (hn' : l'.Nodup) (h : ∀ a, a ∈ l ↔ a ∈ l') : l = l' :=
  ((List.perm_ext_iff_of_nodup hn hn').mpr h).eq_of_pairwise (fun _ _ _ _ => le_antisymm) hs hs'

theorem canonical_eq_iff {l l' : List α} : canonical l = canonical l' ↔ ∀ a, a ∈ l ↔ a ∈ l' := by
  constructor
  · intro h a
    rw [← mem_canonical, h, mem_canonical]
  · intro h
    apply eq_of_sorted_nodup (canonical_pairwise l) (canonical_pairwise l') (canonical_nodup l)
      (canonical_nodup l')
    simpa using h

theorem canonical_canonical (l : List α) : canonical (canonical l) = canonical l :=
  canonical_eq_iff.mpr fun _ => mem_canonical

end Kopiur.Lib
