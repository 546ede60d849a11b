import Kopiur.Lib.SortedMap

/-!
# Grouping into a sorted map

A map from keys to lists, kept as an association list sorted by key. Pushing
into the entry of a key and reading the values back gives each key exactly the
values pushed under it, in order.
-/

namespace Kopiur.Lib

variable {κ α : Type} [LinearOrder κ]

/-- Append a value to the entry of a key, creating the entry when absent. -/
def pushGroup (key : κ) (a : α) : List (κ × List α) → List (κ × List α)
  | [] => [(key, [a])]
  | (k, vs) :: rest =>
    if key < k then (key, [a]) :: (k, vs) :: rest
    else if key = k then (k, vs ++ [a]) :: rest
    else (k, vs) :: pushGroup key a rest

def groups (entries : List (κ × α)) : List (κ × List α) :=
  entries.foldl (fun m e => pushGroup e.1 e.2 m) []

/-- `m` is sorted and holds exactly the non-empty lists `f k`. -/
structure Represents (m : List (κ × List α)) (f : κ → List α) : Prop where
  sorted : m.Pairwise fun a b => a.1 < b.1
  mem_iff : ∀ k vs, (k, vs) ∈ m ↔ vs = f k ∧ vs ≠ []

/-- What pushing under `key` does to the list of every key. -/
def pushed (f : κ → List α) (key : κ) (a : α) (k : κ) : List α :=
  if k = key then f k ++ [a] else f k

theorem fst_mem_pushGroup {key : κ} {a : α} {m : List (κ × List α)} {e : κ × List α}
    (h : e ∈ pushGroup key a m) : e.1 = key ∨ e ∈ m := by
  induction m with
  | nil => simp_all [pushGroup]
  | cons hd rest ih =>
    obtain ⟨k, vs⟩ := hd
    rw [pushGroup] at h
    split at h
    · rcases List.mem_cons.mp h with rfl | h
      · exact Or.inl rfl
      · exact Or.inr h
    · split at h
      · rcases List.mem_cons.mp h with rfl | h
        · exact Or.inl (by simp_all)
        · exact Or.inr (List.mem_cons_of_mem _ h)
      · rcases List.mem_cons.mp h with rfl | h
        · exact Or.inr List.mem_cons_self
        · exact (ih h).imp_right (List.mem_cons_of_mem _)

theorem sorted_pushGroup {key : κ} {a : α} {m : List (κ × List α)}
    (h : m.Pairwise fun a b => a.1 < b.1) : (pushGroup key a m).Pairwise fun a b => a.1 < b.1 := by
  induction m with
  | nil => simp [pushGroup]
  | cons hd rest ih =>
    obtain ⟨k, vs⟩ := hd
    obtain ⟨hhd, hrest⟩ := List.pairwise_cons.mp h
    rw [pushGroup]
    split
    case isTrue hlt =>
      refine List.pairwise_cons.mpr ⟨fun e he => ?_, h⟩
      rcases List.mem_cons.mp he with rfl | he
      · exact hlt
      · exact hlt.trans (hhd e he)
    case isFalse hge =>
      split
      case isTrue heq => exact List.pairwise_cons.mpr ⟨hhd, hrest⟩
      case isFalse hne =>
        refine List.pairwise_cons.mpr ⟨fun e he => ?_, ih hrest⟩
        rcases fst_mem_pushGroup he with hk | he
        · exact hk ▸ lt_of_le_of_ne (not_lt.mp hge) (Ne.symm hne)
        · exact hhd e he

theorem mem_pushGroup {key : κ} {a : α} {m : List (κ × List α)} {f : κ → List α}
    (hs : m.Pairwise fun a b => a.1 < b.1) (k : κ) (vs : List α)
    (hf : ∀ vs, (key, vs) ∈ m ↔ vs = f key ∧ vs ≠ []) :
    (k, vs) ∈ pushGroup key a m ↔ (k = key ∧ vs = f key ++ [a]) ∨ (k ≠ key ∧ (k, vs) ∈ m) := by
  induction m with
  | nil =>
    have hnil : f key = [] := by
      by_contra hne
      simpa using (hf (f key)).mpr ⟨rfl, hne⟩
    simp [pushGroup, hnil]
  | cons hd rest ih =>
    obtain ⟨k', vs'⟩ := hd
    obtain ⟨hhd, hrest⟩ := List.pairwise_cons.mp hs
    rw [pushGroup]
    split
    case isTrue hlt =>
      -- No entry of `key` is left: all keys from here on are larger.
      have hnot : ∀ ws, (key, ws) ∉ (k', vs') :: rest := by
        intro ws hw
        rcases List.mem_cons.mp hw with heq | hw
        · exact hlt.ne (Prod.mk.inj heq).1
        · exact (hlt.trans (hhd _ hw)).false
      have hnil : f key = [] := by
        by_contra hne
        exact hnot _ ((hf (f key)).mpr ⟨rfl, hne⟩)
      rw [List.mem_cons, Prod.mk.injEq, hnil, List.nil_append]
      refine or_congr_right ⟨fun h => ⟨?_, h⟩, And.right⟩
      rintro rfl
      exact hnot _ h
    case isFalse hge =>
      split
      case isTrue heq =>
        subst heq
        have hvs : vs' = f key := ((hf vs').mp List.mem_cons_self).1
        rw [List.mem_cons, Prod.mk.injEq, hvs, List.mem_cons, Prod.mk.injEq]
        refine or_congr_right ⟨fun h => ⟨?_, Or.inr h⟩, ?_⟩
        · rintro rfl
          exact (hhd _ h).false
        · rintro ⟨hne, ⟨rfl, -⟩ | h⟩
          · exact absurd rfl hne
          · exact h
      case isFalse hne =>
        have hf' : ∀ ws, (key, ws) ∈ rest ↔ ws = f key ∧ ws ≠ [] := by
          intro ws
          rw [← hf ws, List.mem_cons, Prod.mk.injEq]
          exact ⟨Or.inr, fun h => h.resolve_left fun h => hne h.1⟩
        rw [List.mem_cons, ih hrest hf', List.mem_cons, Prod.mk.injEq]
        constructor
        · rintro (⟨rfl, rfl⟩ | h | ⟨hk, h⟩)
          · exact Or.inr ⟨Ne.symm hne, Or.inl ⟨rfl, rfl⟩⟩
          · exact Or.inl h
          · exact Or.inr ⟨hk, Or.inr h⟩
        · rintro (h | ⟨hk, h | h⟩)
          · exact Or.inr (Or.inl h)
          · exact Or.inl h
          · exact Or.inr (Or.inr ⟨hk, h⟩)

theorem Represents.push {m : List (κ × List α)} {f : κ → List α} (h : Represents m f) (key : κ)
    (a : α) : Represents (pushGroup key a m) (pushed f key a) where
  sorted := sorted_pushGroup h.sorted
  mem_iff k vs := by
    rw [mem_pushGroup h.sorted k vs (h.mem_iff key), pushed]
    by_cases hk : k = key
    · subst hk
      simp only [true_and, ne_eq, not_true, false_and, or_false, if_true]
      exact ⟨fun h => ⟨h, by simp [h]⟩, And.left⟩
    · simp [hk, h.mem_iff k vs]

theorem represents_groups (entries : List (κ × α)) :
    Represents (groups entries) fun k => (entries.filter fun e => e.1 = k).map Prod.snd := by
  suffices hgen : ∀ (es : List (κ × α)) (m : List (κ × List α)) (f : κ → List α), Represents m f →
      Represents (es.foldl (fun m e => pushGroup e.1 e.2 m) m)
        fun k => f k ++ (es.filter fun e => e.1 = k).map Prod.snd by
    have h := hgen entries [] (fun _ => []) ⟨List.Pairwise.nil, by simp⟩
    simpa [groups] using h
  intro es
  induction es with
  | nil => intro m f h; simpa using h
  | cons e es ih =>
    intro m f h
    have hstep := ih _ _ (h.push e.1 e.2)
    refine ⟨hstep.sorted, fun k vs => ?_⟩
    rw [List.foldl_cons, hstep.mem_iff, pushed]
    by_cases hk : e.1 = k
    · subst hk
      simp
    · simp [hk, Ne.symm hk]

theorem mem_groups (entries : List (κ × α)) (k : κ) (vs : List α) :
    (k, vs) ∈ groups entries ↔ vs = (entries.filter fun e => e.1 = k).map Prod.snd ∧ vs ≠ [] :=
  (represents_groups entries).mem_iff k vs

theorem mem_groups_map (f : α → κ) (l : List α) (k : κ) (vs : List α) :
    (k, vs) ∈ groups (l.map fun a => (f a, a)) ↔
      vs = (l.filter fun a => f a = k) ∧ vs ≠ [] := by
  have hvalues : ((l.map fun a => (f a, a)).filter fun e => e.1 = k).map Prod.snd =
      l.filter fun a => f a = k := by
    rw [List.filter_map, List.map_map]
    exact List.map_id _
  rw [mem_groups, hvalues]

theorem lookup_groups (entries : List (κ × α)) (k : κ) (vs : List α) :
    (groups entries).lookup k = some vs ↔
      vs = (entries.filter fun e => e.1 = k).map Prod.snd ∧ vs ≠ [] := by
  rw [lookup_of_sorted (represents_groups entries).sorted, mem_groups]

end Kopiur.Lib
