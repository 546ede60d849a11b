import Kopiur.Lib.Lists
import Mathlib.Data.List.Sort
import Mathlib.Data.List.TakeWhile

/-!
# Ties at the end of a sorted list's beginning

A stable sort leaves equals in the order they came in. Cutting the sorted list
off after `n` members may therefore depend on that order, and does so exactly
when the equals of a member lie on both sides of the cut.
-/

namespace Kopiur.Lib

variable {α : Type} (r : α → α → Prop) [DecidableRel r]

/-- The members that come before `a` wherever they stood. -/
def strictlyBefore (a : α) (l : List α) : List α := l.filter fun b => decide (¬r a b)

/-- The members that can come before `a`. -/
def possiblyBefore [DecidableEq α] (a : α) (l : List α) : List α :=
  l.filter fun b => decide (r b a ∧ b ≠ a)

variable {r}

theorem strictlyBefore_perm {a : α} {l l' : List α} (h : l.Perm l') :
    (strictlyBefore r a l).length = (strictlyBefore r a l').length :=
  (h.filter _).length_eq

theorem insertionSort_cons_first {a : α} {l : List α} (ha : a ∉ l) :
    ((a :: l).insertionSort r).Pairwise fun x y => y = a → ¬r a x := by
  have hnot : ∀ {x}, x ∈ l.insertionSort r → x ≠ a := fun hx heq =>
    ha (heq ▸ (List.mem_insertionSort r).mp hx)
  rw [List.insertionSort_cons_eq_take_drop, List.pairwise_append, List.pairwise_cons]
  have hsub := List.takeWhile_sublist (fun b => decide ¬r a b) (l := l.insertionSort r)
  have hsub' := List.dropWhile_sublist (fun b => decide ¬r a b) (l := l.insertionSort r)
  refine ⟨?_, ⟨fun y hy heq => absurd heq (hnot (hsub'.subset hy)), ?_⟩, fun x hx y hy heq => ?_⟩
  · exact List.pairwise_of_forall_mem_list fun x hx y hy heq => absurd heq (hnot (hsub.subset hy))
  · exact List.pairwise_of_forall_mem_list fun x hx y hy heq => absurd heq (hnot (hsub'.subset hy))
  · simpa using List.mem_takeWhile_imp hx

theorem insertionSort_concat_last {a : α} {l : List α} (ha : a ∉ l) :
    ((l ++ [a]).insertionSort r).Pairwise fun x y => x = a → ¬r y a := by
  induction l with
  | nil => simp
  | cons b l ih =>
    have hb : b ≠ a := fun heq => ha (heq ▸ List.mem_cons_self)
    have ih := ih fun hmem => ha (List.mem_cons_of_mem _ hmem)
    rw [List.cons_append, List.insertionSort_cons_eq_take_drop, List.pairwise_append,
      List.pairwise_cons]
    have hsplit := List.takeWhile_append_dropWhile (p := fun c => decide ¬r b c)
      (l := (l ++ [a]).insertionSort r)
    have hcross := (List.pairwise_append.mp (hsplit.symm ▸ ih)).2.2
    refine ⟨ih.sublist (List.takeWhile_sublist _), ⟨fun y _ heq => absurd heq hb,
      ih.sublist (List.dropWhile_sublist _)⟩, fun x hx y hy heq => ?_⟩
    rcases List.mem_cons.mp hy with rfl | hy
    · subst heq
      simpa using List.mem_takeWhile_imp hx
    · exact hcross x hx y hy heq

section Cut

variable [Std.Total r] [IsTrans α r] {a : α} {l l' : List α} {n : Nat}

theorem length_strictlyBefore_lt_of_mem_take (ha : a ∈ (l.insertionSort r).take n) :
    (strictlyBefore r a l).length < n := by
  rw [← strictlyBefore_perm (List.perm_insertionSort r l)]
  refine few_before_of_mem_take (List.pairwise_insertionSort r l) ha fun b _ hb => ?_
  have hb : ¬r a b := of_decide_eq_true hb
  refine ⟨?_, hb⟩
  rintro rfl
  exact hb (or_self_iff.mp (Std.Total.total b b))

theorem mem_take_first_iff (ha : a ∉ l) :
    a ∈ ((a :: l).insertionSort r).take n ↔ (strictlyBefore r a (a :: l)).length < n := by
  refine ⟨length_strictlyBefore_lt_of_mem_take, fun hfew => ?_⟩
  have hperm := List.perm_insertionSort r (a :: l)
  refine mem_take_of_few_before (insertionSort_cons_first ha) (hperm.mem_iff.mpr List.mem_cons_self)
    (p := fun b => decide (¬r a b)) (fun b _ hb => by simpa using hb) ?_
  rwa [(hperm.filter _).length_eq]

variable [DecidableEq α]

theorem mem_take_of_possiblyBefore_lt (hnodup : l.Nodup) (ha : a ∈ l)
    (hfew : (possiblyBefore r a l).length < n) : a ∈ (l.insertionSort r).take n := by
  have hperm := List.perm_insertionSort r l
  have hrel : (l.insertionSort r).Pairwise fun x y => r x y ∧ x ≠ y :=
    List.pairwise_and_iff.mpr ⟨List.pairwise_insertionSort r l, hperm.nodup_iff.mpr hnodup⟩
  refine mem_take_of_few_before hrel (hperm.mem_iff.mpr ha)
    (p := fun b => decide (r b a ∧ b ≠ a)) (fun b _ hb => by simpa using hb) ?_
  rwa [(hperm.filter _).length_eq]

theorem mem_take_last_iff (hnodup : (l ++ [a]).Nodup) :
    a ∈ ((l ++ [a]).insertionSort r).take n ↔ (possiblyBefore r a (l ++ [a])).length < n := by
  refine ⟨fun hmem => ?_, mem_take_of_possiblyBefore_lt hnodup (by simp)⟩
  have ha : a ∉ l := fun h => (List.nodup_append.mp hnodup).2.2 a h a (by simp) rfl
  have hperm := List.perm_insertionSort r (l ++ [a])
  have hfew := few_before_of_mem_take (insertionSort_concat_last (r := r) ha) hmem
    (p := fun b => decide (r b a ∧ b ≠ a)) fun b _ hb => by
      have hb := of_decide_eq_true hb
      exact ⟨hb.2, fun hnot => hnot rfl hb.1⟩
  rwa [(hperm.filter _).length_eq] at hfew

/-- No equals of `a` on both sides of the cut. -/
def CutClear (r : α → α → Prop) [DecidableRel r] (n : Nat) (l : List α) (a : α) : Prop :=
  (possiblyBefore r a l).length < n ∨ n ≤ (strictlyBefore r a l).length

theorem CutClear.mem_iff (h : CutClear r n l a) (hnodup : l.Nodup) (ha : a ∈ l)
    (hperm : l'.Perm l) : a ∈ (l'.insertionSort r).take n ↔ a ∈ (l.insertionSort r).take n := by
  rcases h with hin | hout
  · have hin' : (possiblyBefore r a l').length < n := by
      rwa [possiblyBefore, (hperm.filter _).length_eq]
    exact iff_of_true
      (mem_take_of_possiblyBefore_lt (hperm.nodup_iff.mpr hnodup) (hperm.mem_iff.mpr ha) hin')
      (mem_take_of_possiblyBefore_lt hnodup ha hin)
  · refine iff_of_false (fun hmem => ?_) fun hmem => ?_
    · have := length_strictlyBefore_lt_of_mem_take hmem
      rw [strictlyBefore_perm hperm] at this
      omega
    · have := length_strictlyBefore_lt_of_mem_take hmem
      omega

theorem cutClear_of_ends (hnodup : l.Nodup) (hfirst : (a :: l').Perm l)
    (h : a ∈ ((a :: l').insertionSort r).take n ↔ a ∈ ((l' ++ [a]).insertionSort r).take n) :
    CutClear r n l a := by
  have hlast : (l' ++ [a]).Perm l := (List.perm_append_singleton a l').trans hfirst
  have ha : a ∉ l' := (List.nodup_cons.mp (hfirst.nodup_iff.mpr hnodup)).1
  rw [mem_take_first_iff ha, mem_take_last_iff (hlast.nodup_iff.mpr hnodup),
    strictlyBefore_perm hfirst, possiblyBefore, (hlast.filter _).length_eq] at h
  by_cases hout : n ≤ (strictlyBefore r a l).length
  · exact .inr hout
  · exact .inl (h.mp (not_le.mp hout))

end Cut

end Kopiur.Lib
