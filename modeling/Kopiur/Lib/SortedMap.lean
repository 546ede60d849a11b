import Mathlib.Data.List.Sort
import Mathlib.Order.Lattice
import Kopiur.Lib.Lists

/-!
# Sorted maps

A map kept as an association list in the order of its keys. Two of them are equal
when they answer every lookup alike.
-/

namespace Kopiur.Lib

variable {κ β : Type} [LinearOrder κ]

def SortedKeys (m : List (κ × β)) : Prop := m.Pairwise fun a b => a.1 < b.1

def putKey (key : κ) (b : β) : List (κ × β) → List (κ × β)
  | [] => [(key, b)]
  | e :: rest =>
    if key < e.1 then (key, b) :: e :: rest
    else if key = e.1 then (key, b) :: rest
    else e :: putKey key b rest

def eraseKey (key : κ) (m : List (κ × β)) : List (κ × β) := m.filter fun e => decide (e.1 ≠ key)

theorem lookup_of_sorted {m : List (κ × β)} (h : m.Pairwise fun a b => a.1 < b.1) (k : κ)
    (v : β) : m.lookup k = some v ↔ (k, v) ∈ m := by
  induction m with
  | nil => simp
  | cons e rest ih =>
    obtain ⟨hhead, hrest⟩ := List.pairwise_cons.mp h
    rw [List.lookup_cons]
    by_cases hk : k = e.1
    · subst hk
      have hnot : (e.1, v) ∉ rest := fun hm => lt_irrefl e.1 (hhead (e.1, v) hm)
      simp only [beq_self_eq_true, List.mem_cons, hnot, or_false, Option.some.injEq]
      exact ⟨fun h => by rw [← h], fun h => (congrArg Prod.snd h).symm⟩
    · have hne : (k, v) ≠ e := fun h => hk (congrArg Prod.fst h)
      rw [beq_eq_false_iff_ne.mpr hk]
      simp [hne, ih hrest]

theorem SortedKeys.ext {m m' : List (κ × β)} (h : SortedKeys m) (h' : SortedKeys m')
    (hmem : ∀ e, e ∈ m ↔ e ∈ m') : m = m' := by
  have hirrefl : Std.Irrefl fun a b : κ × β => a.1 < b.1 := ⟨fun a => lt_irrefl a.1⟩
  have hantisymm : Std.Antisymm fun a b : κ × β => a.1 < b.1 :=
    ⟨fun a b hab hba => absurd (hab.trans hba) (lt_irrefl a.1)⟩
  exact List.Pairwise.eq_of_mem_iff h h' hmem

theorem ext_of_lookup {m m' : List (κ × β)} (h : SortedKeys m) (h' : SortedKeys m')
    (hlookup : ∀ k, m.lookup k = m'.lookup k) : m = m' := by
  refine h.ext h' fun e => ?_
  rw [← lookup_of_sorted h e.1 e.2, ← lookup_of_sorted h' e.1 e.2, hlookup]

theorem lookup_putKey (key : κ) (b : β) (m : List (κ × β)) (k : κ) :
    (putKey key b m).lookup k = if k = key then some b else m.lookup k := by
  induction m with
  | nil =>
    by_cases hk : k = key
    · subst hk
      simp [putKey]
    · simp [putKey, List.lookup_cons, beq_false_of_ne hk, hk]
  | cons e rest ih =>
    rw [putKey]
    by_cases hk : k = key
    · subst hk
      rw [if_pos rfl]
      split
      · rw [List.lookup_cons_self]
      · split
        · rw [List.lookup_cons_self]
        · next hne => rw [List.lookup_cons, beq_false_of_ne hne, ih, if_pos rfl]
    · rw [if_neg hk]
      split
      · rw [List.lookup_cons, beq_false_of_ne hk]
      · split
        · next heq =>
          rw [List.lookup_cons, List.lookup_cons, ← heq, beq_false_of_ne hk]
        · rw [List.lookup_cons, List.lookup_cons, ih, if_neg hk]

def putAll (l m : List (κ × β)) : List (κ × β) := l.foldl (fun m e => putKey e.1 e.2 m) m

theorem lookup_putAll (l m : List (κ × β)) (k : κ) :
    (putAll l m).lookup k = (l.reverse.lookup k).or (m.lookup k) := by
  induction l generalizing m with
  | nil => rfl
  | cons e rest ih =>
    have hrest : (putAll rest (putKey e.1 e.2 m)).lookup k = _ := ih (putKey e.1 e.2 m)
    rw [putAll, List.foldl_cons, ← putAll, hrest, lookup_putKey, List.reverse_cons,
      List.lookup_append, Option.or_assoc, List.lookup_cons, List.lookup_nil]
    by_cases hk : k = e.1
    · simp [hk]
    · simp [hk, beq_false_of_ne hk]

theorem mem_of_lookup_putAll {l : List (κ × β)} {k : κ} {b : β}
    (h : (putAll l []).lookup k = some b) : (k, b) ∈ l := by
  rw [lookup_putAll, List.lookup_nil, Option.or_none] at h
  obtain ⟨l₁, l₂, hsplit, -⟩ := List.lookup_eq_some_iff.mp h
  apply List.mem_reverse.mp
  rw [hsplit]
  exact List.mem_append_right _ List.mem_cons_self

theorem exists_lookup_putAll {l : List (κ × β)} {k : κ} {b : β} (h : (k, b) ∈ l) :
    ∃ b', (putAll l []).lookup k = some b' := by
  rw [lookup_putAll, List.lookup_nil, Option.or_none]
  cases hl : l.reverse.lookup k with
  | some b' => exact ⟨b', rfl⟩
  | none =>
    have hne := List.lookup_eq_none_iff.mp hl (k, b) (List.mem_reverse.mpr h)
    simp at hne

theorem lookup_putAll_concat (l : List (κ × β)) (k : κ) (b : β) :
    (putAll (l ++ [(k, b)]) []).lookup k = some b := by
  simp [lookup_putAll]

theorem lookup_putAll_sorted {l : List (κ × β)} (h : SortedKeys l) (m : List (κ × β)) (k : κ) :
    (putAll l m).lookup k = (l.lookup k).or (m.lookup k) := by
  have hsame : l.reverse.lookup k = l.lookup k := by
    cases hl : l.lookup k with
    | none =>
      refine List.lookup_eq_none_iff.mpr fun e he => ?_
      exact List.lookup_eq_none_iff.mp hl e (List.mem_reverse.mp he)
    | some b =>
      have hmem := (lookup_of_sorted h k b).mp hl
      obtain ⟨b', hb'⟩ := exists_lookup_putAll hmem
      have hmem' := mem_of_lookup_putAll hb'
      rw [lookup_putAll, List.lookup_nil, Option.or_none] at hb'
      rw [hb', ← hl, (lookup_of_sorted h k b').mpr hmem']
  rw [lookup_putAll, hsame]

theorem lookup_eraseKey (key : κ) (m : List (κ × β)) (k : κ) :
    (eraseKey key m).lookup k = if k = key then none else m.lookup k := by
  rw [eraseKey, lookup_filter_key (fun a => decide (a ≠ key))]
  by_cases hk : k = key <;> simp [hk]

theorem lookup_map_values {β' : Type} (f : κ → β → β') (m : List (κ × β)) (k : κ) :
    (m.map fun e => (e.1, f e.1 e.2)).lookup k = (m.lookup k).map (f k) := by
  induction m with
  | nil => rfl
  | cons e rest ih =>
    rw [List.map_cons, List.lookup_cons, List.lookup_cons, ih]
    by_cases hk : k = e.1
    · subst hk
      simp
    · simp [beq_false_of_ne hk]

theorem sorted_map_values {β' : Type} {f : κ → β → β'} {m : List (κ × β)} (h : SortedKeys m) :
    SortedKeys (m.map fun e => (e.1, f e.1 e.2)) :=
  List.pairwise_map.mpr h

theorem fst_mem_putKey {key : κ} {b : β} {m : List (κ × β)} {e : κ × β} (h : e ∈ putKey key b m) :
    e = (key, b) ∨ e ∈ m := by
  induction m with
  | nil => exact Or.inl (List.mem_singleton.mp h)
  | cons hd rest ih =>
    rw [putKey] at h
    split at h
    · exact (List.mem_cons.mp h)
    · split at h
      · exact (List.mem_cons.mp h).imp_right (List.mem_cons_of_mem _)
      · rcases List.mem_cons.mp h with rfl | h
        · exact Or.inr List.mem_cons_self
        · exact (ih h).imp_right (List.mem_cons_of_mem _)

theorem sorted_putKey {key : κ} {b : β} {m : List (κ × β)} (h : SortedKeys m) :
    SortedKeys (putKey key b m) := by
  induction m with
  | nil => exact List.pairwise_singleton _ _
  | cons hd rest ih =>
    obtain ⟨hhead, hrest⟩ := List.pairwise_cons.mp h
    rw [putKey]
    split
    · next hlt =>
      refine List.pairwise_cons.mpr ⟨fun e he => ?_, h⟩
      rcases List.mem_cons.mp he with rfl | he
      · exact hlt
      · exact hlt.trans (hhead e he)
    · next hge =>
      split
      · next heq => exact List.pairwise_cons.mpr ⟨fun e he => heq ▸ hhead e he, hrest⟩
      · next hne =>
        refine List.pairwise_cons.mpr ⟨fun e he => ?_, ih hrest⟩
        rcases fst_mem_putKey he with rfl | he
        · exact lt_of_le_of_ne (not_lt.mp hge) (Ne.symm hne)
        · exact hhead e he

theorem sorted_putAll (l : List (κ × β)) {m : List (κ × β)} (h : SortedKeys m) :
    SortedKeys (putAll l m) :=
  List.foldlRecOn l _ h fun _ hm _ _ => sorted_putKey hm

theorem mem_putAll_iff {l : List (κ × β)} {k : κ} {b : β} :
    (k, b) ∈ putAll l [] ↔ (putAll l []).lookup k = some b :=
  (lookup_of_sorted (sorted_putAll l List.Pairwise.nil) k b).symm

theorem SortedKeys.unique {m : List (κ × β)} (h : SortedKeys m) {k : κ} {b b' : β}
    (hb : (k, b) ∈ m) (hb' : (k, b') ∈ m) : b = b' := by
  rw [← lookup_of_sorted h] at hb hb'
  exact Option.some.inj (hb.symm.trans hb')

theorem sorted_eraseKey {key : κ} {m : List (κ × β)} (h : SortedKeys m) :
    SortedKeys (eraseKey key m) := h.filter _

end Kopiur.Lib
