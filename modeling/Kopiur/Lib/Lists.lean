import Mathlib.Data.List.Basic

/-!
# Lists with labels and in order

What becomes of the labels of a list when members are dropped, of a list that
is sorted into two, and of two members of a list that is in order.
-/

namespace Kopiur.Lib

variable {α β γ : Type}

theorem map_filterMap_sublist {f : α → Option β} {label : α → γ} {label' : β → γ}
    (l : List α) (hf : ∀ a ∈ l, ∀ b, f a = some b → label' b = label a) :
    ((l.filterMap f).map label').Sublist (l.map label) := by
  induction l with
  | nil => exact .slnil
  | cons a rest ih =>
    have ih := ih fun x hx => hf x (List.mem_cons_of_mem _ hx)
    cases ha : f a with
    | none => simpa [ha] using ih.cons _
    | some b => simpa [ha, hf a List.mem_cons_self b ha] using ih.cons_cons (label a)

theorem filter_or_perm {p q : α → Bool} {l : List α} (h : ∀ a ∈ l, p a = true → q a = false) :
    (l.filter p ++ l.filter q).Perm (l.filter fun a => p a || q a) := by
  induction l with
  | nil => exact .refl _
  | cons a rest ih =>
    have ih := ih fun x hx => h x (List.mem_cons_of_mem _ hx)
    have ha := h a List.mem_cons_self
    cases hp : p a with
    | true => simpa [hp, ha hp] using ih
    | false =>
      cases hq : q a with
      | true => simpa [hp, hq] using List.perm_middle.trans (ih.cons a)
      | false => simpa [hp, hq] using ih

theorem eq_filter_append_filter_not {p : α → Bool} {l : List α}
    (h : l.Pairwise fun a b => p b = true → p a = true) :
    l = l.filter p ++ l.filter fun a => !p a := by
  induction h with
  | nil => rfl
  | @cons a l hhd _ ih =>
    cases ha : p a with
    | true => simpa [ha] using ih
    | false =>
      have hrest : ∀ b ∈ l, p b = false := by
        intro b hb
        cases hpb : p b with
        | true => exact absurd (hhd b hb hpb) (by simp [ha])
        | false => rfl
      have hnone : l.filter p = [] := List.filter_eq_nil_iff.mpr fun b hb => by simp [hrest b hb]
      rw [hnone, List.nil_append] at ih
      simp [ha, hnone, ← ih]

theorem rel_of_pairwise {R : α → α → Prop} {l : List α} (h : l.Pairwise R) {a b : α}
    (ha : a ∈ l) (hb : b ∈ l) (hne : a ≠ b) : R a b ∨ R b a := by
  induction h with
  | nil => cases ha
  | cons hhd _ ih =>
    rcases List.mem_cons.mp ha with rfl | ha' <;> rcases List.mem_cons.mp hb with rfl | hb'
    · exact absurd rfl hne
    · exact .inl (hhd b hb')
    · exact .inr (hhd a ha')
    · exact ih ha' hb'

theorem rel_of_mem_take_one {R : α → α → Prop} {l : List α} (h : l.Pairwise R) {a b : α}
    (ha : a ∈ l.take 1) (hb : b ∈ l) : a = b ∨ R a b := by
  cases h with
  | nil => cases hb
  | cons hhd _ =>
    obtain rfl := List.mem_singleton.mp ha
    exact (List.mem_cons.mp hb).imp Eq.symm (hhd b)

theorem mem_take_of_few_before {R : α → α → Prop} {p : α → Bool} {l : List α} (h : l.Pairwise R)
    {a : α} (ha : a ∈ l) (hp : ∀ b ∈ l, R b a → p b = true) {n : Nat}
    (hfew : (l.filter p).length < n) : a ∈ l.take n := by
  by_contra hnot
  have hdrop : a ∈ l.drop n := by
    rw [← List.take_append_drop n l] at ha
    exact (List.mem_append.mp ha).resolve_left hnot
  have hfirst : ∀ b ∈ l.take n, p b = true := fun b hb =>
    hp b (List.mem_of_mem_take hb) (h.rel_of_mem_take_of_mem_drop hb hdrop)
  have hlen : n ≤ l.length := by
    have hpos := List.length_pos_of_mem hdrop
    rw [List.length_drop] at hpos
    omega
  have hmany : n ≤ (l.filter p).length := calc
    n = ((l.take n).filter p).length := by
      rw [List.filter_eq_self.mpr hfirst, List.length_take, Nat.min_eq_left hlen]
    _ ≤ (l.filter p).length := ((List.take_sublist n l).filter p).length_le
  exact absurd hfew (Nat.not_lt.mpr hmany)

theorem few_before_of_mem_take {R : α → α → Prop} {p : α → Bool} {l : List α} (h : l.Pairwise R)
    {a : α} {n : Nat} (ha : a ∈ l.take n) (hp : ∀ b ∈ l, p b = true → b ≠ a ∧ ¬R a b) :
    (l.filter p).length < n := by
  obtain ⟨u, v, htake⟩ := List.append_of_mem ha
  have hl : l = u ++ (a :: (v ++ l.drop n)) := by
    rw [← List.cons_append, ← List.append_assoc, ← htake, List.take_append_drop]
  have hafter : ∀ b ∈ a :: (v ++ l.drop n), p b = false := by
    intro b hb
    by_contra hpb
    have hmem : b ∈ l := hl ▸ List.mem_append_right u hb
    obtain ⟨hne, hrel⟩ := hp b hmem (by simpa using hpb)
    rw [hl] at h
    exact hrel (List.rel_of_pairwise_cons (List.pairwise_append.mp h).2.1
      ((List.mem_cons.mp hb).resolve_left hne))
  have hlen : u.length < (l.take n).length := by
    rw [htake, List.length_append, List.length_cons]
    omega
  have hnone : (a :: (v ++ l.drop n)).filter p = [] :=
    List.filter_eq_nil_iff.mpr fun b hb => by simp [hafter b hb]
  calc (l.filter p).length
    _ = (u.filter p).length := by rw [hl, List.filter_append, hnone, List.append_nil]
    _ ≤ u.length := List.length_filter_le _ _
    _ < (l.take n).length := hlen
    _ ≤ n := List.length_take_le _ _

def collect : List (Option α) → Option (List α)
  | [] => some []
  | none :: _ => none
  | some a :: rest => (collect rest).map (a :: ·)

theorem collect_eq_some_iff {l : List (Option α)} {xs : List α} :
    collect l = some xs ↔ l = xs.map some := by
  induction l generalizing xs with
  | nil => cases xs <;> simp [collect]
  | cons o rest ih =>
    cases o with
    | none => cases xs <;> simp [collect]
    | some a =>
      cases xs with
      | nil => simp [collect]
      | cons x xs =>
        simp only [collect, Option.map_eq_some_iff, List.cons.injEq, List.map_cons, ih,
          Option.some.injEq]
        constructor
        · rintro ⟨ys, rfl, rfl, rfl⟩
          exact ⟨rfl, rfl⟩
        · rintro ⟨rfl, rfl⟩
          exact ⟨xs, rfl, rfl, rfl⟩

theorem map_of_collect {β : Type} {f : α → Option β} {g : β → α}
    (hg : ∀ a b, f a = some b → g b = a) {l : List α} {ys : List β}
    (h : collect (l.map f) = some ys) : ys.map g = l := by
  rw [collect_eq_some_iff] at h
  induction l generalizing ys with
  | nil =>
    cases ys with
    | nil => rfl
    | cons y ys => cases h
  | cons a l ih =>
    cases ys with
    | nil => cases h
    | cons y ys =>
      simp only [List.map_cons, List.cons.injEq] at h
      rw [List.map_cons, hg a y h.1, ih h.2]

theorem isSome_collect {l : List (Option α)} : (collect l).isSome ↔ ∀ o ∈ l, o.isSome := by
  induction l with
  | nil => simp [collect]
  | cons o rest ih => cases o <;> simp [collect, ih]

theorem lookup_filter_key {κ : Type} [BEq κ] [LawfulBEq κ] (p : κ → Bool) (l : List (κ × α))
    (k : κ) : (l.filter fun e => p e.1).lookup k = if p k then l.lookup k else none := by
  induction l with
  | nil => simp
  | cons e rest ih =>
    obtain ⟨a, b⟩ := e
    by_cases hk : k = a
    · subst hk
      cases hp : p k <;> simp [hp, ih]
    · cases hp : p a <;> simp [hp, ih, List.lookup_cons, beq_false_of_ne hk]

end Kopiur.Lib
