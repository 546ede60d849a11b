import Mathlib.Data.List.Infix

/-!
# Marked fields

A text that writes a mark before each of its fields. The fields can be read back
unless one of them imitates the mark that follows it, and two lists of fields
with one text are found at the first field in which they differ.
-/

namespace Kopiur.Lib

variable {α : Type*}

def marked : List (List α) → List (List α) → List α
  | m :: ms, x :: xs => m ++ x ++ marked ms xs
  | _, _ => []

def Sharp (m : List α) : Prop := ∃ c rest, m = c :: rest ∧ c ∉ rest

/-- `y` is `x` and, after the next mark, a part of what follows `x`. -/
def Borrows (m x y r s : List α) : Prop := ∃ z, y = x ++ m ++ z ∧ r = z ++ m ++ s

/-- The first field in which the lists differ borrows from the fields after it. -/
def Imitates : List (List α) → List (List α) → List (List α) → Prop
  | m :: ms, x :: x' :: xs, y :: y' :: ys =>
    (x = y ∧ Imitates ms (x' :: xs) (y' :: ys)) ∨
      Borrows m x y (x' ++ marked ms xs) (y' ++ marked ms ys) ∨
      Borrows m y x (y' ++ marked ms ys) (x' ++ marked ms xs)
  | _, _, _ => False

theorem Borrows.ne {m x y r s : List α} (hm : Sharp m) (h : Borrows m x y r s) : x ≠ y := by
  obtain ⟨z, rfl, -⟩ := h
  obtain ⟨c, rest, rfl, -⟩ := hm
  intro heq
  have hlen := congrArg List.length heq
  simp only [List.length_append, List.length_cons] at hlen
  omega

theorem Sharp.borrows {m x y r s : List α} (hm : Sharp m) (hne : x ≠ y)
    (hlen : x.length ≤ y.length) (h : x ++ m ++ r = y ++ m ++ s) : Borrows m x y r s := by
  rw [List.append_assoc, List.append_assoc] at h
  obtain ⟨d, rfl⟩ : x <+: y :=
    List.prefix_of_prefix_length_le (List.prefix_append x _) (h ▸ List.prefix_append y _) hlen
  rw [List.append_assoc, List.append_cancel_left_eq] at h
  have hd : d ≠ [] := fun hd => hne (by simp [hd])
  obtain ⟨c, rest, rfl, hc⟩ := hm
  have hmark : c :: rest <+: d := by
    refine List.prefix_of_prefix_length_le (List.prefix_append _ r) (h ▸ List.prefix_append d _) ?_
    by_contra hshort
    obtain ⟨e, he⟩ : d <+: c :: rest :=
      List.prefix_of_prefix_length_le (List.prefix_append d _) (h ▸ List.prefix_append _ r)
        (by omega)
    rw [← he, List.append_assoc, List.append_cancel_left_eq] at h
    cases e with
    | nil =>
      rw [List.append_nil] at he
      exact hshort (le_of_eq (congrArg List.length he.symm))
    | cons a e =>
      obtain ⟨b, d, rfl⟩ := List.exists_cons_of_ne_nil hd
      have ha : a = c := (List.cons.inj h).1.trans (List.cons.inj he).1
      have hrest : rest = d ++ a :: e := (List.cons.inj he).2.symm
      exact hc (by simp [hrest, ha])
  obtain ⟨z, rfl⟩ := hmark
  rw [List.append_assoc, List.append_cancel_left_eq] at h
  exact ⟨z, by simp, by simpa using h⟩

theorem append_mark_inj {m x y r s : List α} (hm : Sharp m) :
    x ++ m ++ r = y ++ m ++ s ↔ (x = y ∧ r = s) ∨ Borrows m x y r s ∨ Borrows m y x s r := by
  constructor
  · intro h
    by_cases hxy : x = y
    · subst hxy
      exact .inl ⟨rfl, by simpa using h⟩
    · rcases Nat.le_total x.length y.length with hlen | hlen
      · exact .inr (.inl (hm.borrows hxy hlen h))
      · exact .inr (.inr (hm.borrows (Ne.symm hxy) hlen h.symm))
  · rintro (⟨rfl, rfl⟩ | ⟨z, rfl, rfl⟩ | ⟨z, rfl, rfl⟩)
    · rfl
    · simp
    · simp

theorem Imitates.ne : ∀ {ms xs ys : List (List α)}, (∀ m ∈ ms, Sharp m) → Imitates ms xs ys →
    xs ≠ ys
  | m :: ms, x :: x' :: xs, y :: y' :: ys, hms, h => by
    intro heq
    obtain ⟨rfl, htail⟩ := List.cons.inj heq
    rcases h with ⟨-, h⟩ | h | h
    · exact h.ne (fun m hm => hms m (.tail _ hm)) htail
    · exact h.ne (hms m (.head _)) rfl
    · exact h.ne (hms m (.head _)) rfl

theorem marked_inj (first : List α) : ∀ {ms xs ys : List (List α)}, (∀ m ∈ ms, Sharp m) →
    xs.length = ms.length + 1 → ys.length = ms.length + 1 →
      (marked (first :: ms) xs = marked (first :: ms) ys ↔ xs = ys ∨ Imitates ms xs ys)
  | [], [x], [y], _, _, _ => by simp [marked, Imitates]
  | m :: ms, x :: x' :: xs, y :: y' :: ys, hms, hx, hy => by
    have ih := marked_inj m (fun m hm => hms m (.tail _ hm)) (Nat.succ.inj hx) (Nat.succ.inj hy)
    have hsplit := append_mark_inj (x := x) (y := y) (r := x' ++ marked ms xs)
      (s := y' ++ marked ms ys) (hms m (.head _))
    have htail : x' ++ marked ms xs = y' ++ marked ms ys ↔
        marked (m :: ms) (x' :: xs) = marked (m :: ms) (y' :: ys) := by
      simp [marked]
    have htext : marked (first :: m :: ms) (x :: x' :: xs) =
          marked (first :: m :: ms) (y :: y' :: ys) ↔
        x ++ m ++ (x' ++ marked ms xs) = y ++ m ++ (y' ++ marked ms ys) := by
      simp [marked]
    rw [htext, hsplit, htail, ih, and_or_left, or_assoc]
    exact or_congr List.cons_eq_cons.symm Iff.rfl

end Kopiur.Lib
