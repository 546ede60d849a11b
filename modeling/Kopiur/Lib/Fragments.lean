import Mathlib.Data.List.Basic

/-!
# Fragments of a text

A fragment is a pattern and what has to follow it. A scan looks for the pattern
from the left and goes on behind each occurrence, so it passes over a fragment
that starts inside an occurrence it has looked at. A separator is a character that
no fragment has.
-/

namespace Kopiur.Lib

section FirstIndex

variable {α : Type}

def firstIndex (p : List α → Bool) : List α → Option Nat
  | [] => none
  | c :: l => if p (c :: l) then some 0 else (firstIndex p l).map (· + 1)

def Shuns (p : List α → Bool) (l : List α) : Prop := ∀ b, b <:+ l → b ≠ [] → p b = false

variable {p : List α → Bool} {l : List α}

theorem firstIndex_eq_none_iff : firstIndex p l = none ↔ Shuns p l := by
  induction l with
  | nil =>
    refine iff_of_true rfl fun b hb hne => ?_
    exact absurd (List.suffix_nil.mp hb) hne
  | cons c l ih =>
    unfold firstIndex
    by_cases hp : p (c :: l)
    · refine iff_of_false (by simp [hp]) fun h => ?_
      simp [h _ List.suffix_rfl (List.cons_ne_nil c l)] at hp
    · rw [if_neg hp, Option.map_eq_none_iff, ih]
      refine ⟨fun h b hb hne => ?_, fun h b hb => h b (hb.trans (List.suffix_cons c l))⟩
      rcases List.suffix_cons_iff.mp hb with rfl | hb
      · exact Bool.eq_false_iff.mpr hp
      · exact h b hb hne

theorem holds_of_firstIndex {m : Nat} (h : firstIndex p l = some m) :
    ∃ c r, l.drop m = c :: r ∧ p (c :: r) = true := by
  induction l generalizing m with
  | nil => cases h
  | cons c l ih =>
    unfold firstIndex at h
    by_cases hp : p (c :: l)
    · rw [if_pos hp] at h
      obtain rfl := Option.some.inj h
      exact ⟨c, l, rfl, hp⟩
    · rw [if_neg hp] at h
      obtain ⟨m', hm', rfl⟩ := Option.map_eq_some_iff.mp h
      exact ih hm'

theorem Shuns.take {m : Nat} (hmono : ∀ x y, p x = true → p (x ++ y) = true)
    (h : firstIndex p l = some m) : Shuns p (l.take m) := by
  induction l generalizing m with
  | nil => cases h
  | cons c l ih =>
    unfold firstIndex at h
    by_cases hp : p (c :: l)
    · rw [if_pos hp] at h
      obtain rfl := Option.some.inj h
      exact fun b hb hne => absurd (List.suffix_nil.mp hb) hne
    · rw [if_neg hp] at h
      obtain ⟨m, hm, rfl⟩ := Option.map_eq_some_iff.mp h
      intro b hb hne
      rcases List.suffix_cons_iff.mp hb with rfl | hb
      · refine Bool.eq_false_iff.mpr fun hb => hp ?_
        have hwhole := hmono _ (l.drop m) hb
        rwa [List.cons_append, List.take_append_drop] at hwhole
      · exact ih hm b hb hne

def earlier : Option Nat → Option Nat → Option Nat
  | some a, some b => some (min a b)
  | some a, none => some a
  | none, some b => some b
  | none, none => none

theorem earlier_succ (a b : Option Nat) :
    earlier (a.map (· + 1)) (b.map (· + 1)) = (earlier a b).map (· + 1) := by
  cases a <;> cases b <;> simp [earlier]

theorem zero_earlier (b : Option Nat) : earlier (some 0) b = some 0 := by
  cases b <;> simp [earlier]

theorem earlier_zero (a : Option Nat) : earlier a (some 0) = some 0 := by
  cases a <;> simp [earlier]

end FirstIndex

/-- A pattern and a test of what follows it, which looks at nothing behind a
separator. -/
structure Fragment (α : Type) [DecidableEq α] (sep : α → Bool) where
  pat : List α
  after : List α → Bool
  pat_ne : pat ≠ []
  pat_sep : ∀ c ∈ pat, sep c = false
  after_mono : ∀ x y, after x = true → after (x ++ y) = true
  after_sep : ∀ x c y, sep c = true → after (x ++ c :: y) = after x

namespace Fragment

variable {α : Type} [DecidableEq α] {sep : α → Bool} (f : Fragment α sep)

def starts (l : List α) : Bool := f.pat.isPrefixOf l && f.after (l.drop f.pat.length)

/-- The position of a fragment, looked for behind the characters to skip. -/
def scan : Nat → List α → Option Nat
  | _, [] => none
  | k + 1, _ :: l => (scan k l).map (· + 1)
  | 0, c :: l =>
    if f.pat.isPrefixOf (c :: l) then
      if f.after ((c :: l).drop f.pat.length) then some 0
      else (scan (f.pat.length - 1) l).map (· + 1)
    else (scan 0 l).map (· + 1)

/-- What is left to skip behind the first character. -/
def behind : Nat → List α → Nat
  | k + 1, _ => k
  | 0, l => if f.pat.isPrefixOf l then f.pat.length - 1 else 0

variable {f}

theorem starts_of_scan {k m : Nat} {l : List α} (h : f.scan k l = some m) :
    ∃ c r, l.drop m = c :: r ∧ f.starts (c :: r) = true := by
  induction l generalizing k m with
  | nil => cases k <;> cases h
  | cons c l ih =>
    have hrest {k' : Nat} (hk : (f.scan k' l).map (· + 1) = some m) :
        ∃ d r, (c :: l).drop m = d :: r ∧ f.starts (d :: r) = true := by
      obtain ⟨m', hm', rfl⟩ := Option.map_eq_some_iff.mp hk
      exact ih hm'
    cases k with
    | succ k => exact hrest h
    | zero =>
      unfold scan at h
      by_cases hpat : f.pat.isPrefixOf (c :: l)
      · by_cases hafter : f.after ((c :: l).drop f.pat.length)
        · rw [if_pos hpat, if_pos hafter] at h
          obtain rfl := Option.some.inj h
          exact ⟨c, l, rfl, Bool.and_eq_true_iff.mpr ⟨hpat, hafter⟩⟩
        · rw [if_pos hpat, if_neg hafter] at h
          exact hrest h
      · rw [if_neg hpat] at h
        exact hrest h

theorem scan_cons {k : Nat} {c : α} {l : List α} (h : f.starts (c :: l) = false) :
    f.scan k (c :: l) = (f.scan (f.behind k (c :: l)) l).map (· + 1) := by
  cases k with
  | succ k => rfl
  | zero =>
    rw [behind, scan]
    by_cases hpat : f.pat.isPrefixOf (c :: l)
    · have hafter : ¬ f.after ((c :: l).drop f.pat.length) = true := by
        rw [starts, hpat, Bool.true_and] at h
        exact Bool.eq_false_iff.mp h
      rw [if_pos hpat, if_pos hpat, if_neg hafter]
    · rw [if_neg hpat, if_neg hpat]

theorem isPrefixOf_append_cons {pat x y : List α} {c : α} (hc : c ∉ pat) :
    pat.isPrefixOf (x ++ c :: y) = pat.isPrefixOf x := by
  induction pat generalizing x with
  | nil => simp
  | cons d pat ih =>
    obtain ⟨hne, hmem⟩ := List.ne_and_not_mem_of_not_mem_cons hc
    cases x with
    | nil => simp [List.isPrefixOf_cons_cons, Ne.symm hne]
    | cons e x => simp [List.isPrefixOf_cons_cons, ih hmem]

theorem isPrefixOf_mono {pat x : List α} (y : List α) (h : pat.isPrefixOf x = true) :
    pat.isPrefixOf (x ++ y) = true :=
  List.isPrefixOf_iff_prefix.mpr ((List.isPrefixOf_iff_prefix.mp h).trans (List.prefix_append x y))

theorem pat_isPrefixOf_append {x y : List α} (hy : ∀ c ∈ y.head?, sep c = true) :
    f.pat.isPrefixOf (x ++ y) = f.pat.isPrefixOf x := by
  cases y with
  | nil => rw [List.append_nil]
  | cons c y =>
    refine isPrefixOf_append_cons fun hmem => ?_
    exact absurd (hy c rfl) (by simp [f.pat_sep c hmem])

theorem length_le_of_isPrefixOf {pat x : List α} (h : pat.isPrefixOf x = true) :
    pat.length ≤ x.length := (List.isPrefixOf_iff_prefix.mp h).length_le

theorem starts_mono {x : List α} (y : List α) (h : f.starts x = true) :
    f.starts (x ++ y) = true := by
  obtain ⟨hpat, hafter⟩ := Bool.and_eq_true_iff.mp h
  refine Bool.and_eq_true_iff.mpr ⟨isPrefixOf_mono y hpat, ?_⟩
  rw [List.drop_append_of_le_length (length_le_of_isPrefixOf hpat)]
  exact f.after_mono _ y hafter

theorem starts_append {x y : List α} (hy : ∀ c ∈ y.head?, sep c = true) :
    f.starts (x ++ y) = f.starts x := by
  unfold starts
  rw [pat_isPrefixOf_append hy]
  by_cases hpat : f.pat.isPrefixOf x
  · rw [List.drop_append_of_le_length (length_le_of_isPrefixOf hpat)]
    cases y with
    | nil => rw [List.append_nil]
    | cons c y => rw [f.after_sep _ _ _ (hy c rfl)]
  · simp [hpat]

theorem sep_of_starts {c : α} {l : List α} (h : f.starts (c :: l) = true) : sep c = false := by
  obtain ⟨d, pat, hpat⟩ := List.exists_cons_of_ne_nil f.pat_ne
  have hprefix := (Bool.and_eq_true_iff.mp h).1
  rw [hpat, List.isPrefixOf_cons_cons] at hprefix
  have heq : d = c := by simpa using (Bool.and_eq_true_iff.mp hprefix).1
  exact heq ▸ f.pat_sep d (hpat ▸ List.mem_cons_self)

end Fragment

theorem Shuns.infix {α : Type} {p : List α → Bool} (hp : ∀ x y, p x = true → p (x ++ y) = true)
    {a b c : List α} (h : Shuns p (a ++ b ++ c)) : Shuns p b := by
  intro b' hb' hne
  refine Bool.eq_false_iff.mpr fun hpb => ?_
  have hsuffix : b' ++ c <:+ a ++ b ++ c := by
    obtain ⟨b0, rfl⟩ := hb'
    exact ⟨a ++ b0, by simp⟩
  simpa [hp _ c hpb] using h (b' ++ c) hsuffix (by simp [hne])

theorem Shuns.append {α : Type} {sep : α → Bool} {p : List α → Bool}
    (hp : ∀ x y, (∀ c ∈ y.head?, sep c = true) → p (x ++ y) = p x) {a b : List α}
    (ha : Shuns p a) (hb : Shuns p b) (hsep : ∀ c ∈ b.head?, sep c = true) :
    Shuns p (a ++ b) := by
  intro b' hb' hne
  rcases List.suffix_or_suffix_of_suffix hb' (List.suffix_append a b) with h | ⟨a', rfl⟩
  · exact hb b' h hne
  · rw [hp a' b hsep]
    cases a' with
    | nil => exact (hp [] b hsep).symm.trans (hb b List.suffix_rfl hne)
    | cons c a' => exact ha (c :: a') (List.suffix_append_self_iff.mp hb') (List.cons_ne_nil c a')

end Kopiur.Lib
