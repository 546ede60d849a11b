import Mathlib.Algebra.GroupWithZero.Nat
import Mathlib.Data.List.Basic
import Mathlib.Data.String.Basic

/-!
# Reading joined text back

Two texts joined around a separator are determined by the joined text as soon
as the separator cannot occur on one of the two sides. Zero-padded decimals
determine their number. Replacing two adjacent characters by one, over and over,
leaves every run of the character single.
-/

namespace Kopiur.Lib

theorem append_cons_inj_left {α : Type} {c : α} {a a' b b' : List α} (ha : c ∉ a) (ha' : c ∉ a')
    (h : a ++ c :: b = a' ++ c :: b') : a = a' ∧ b = b' := by
  induction a generalizing a' with
  | nil =>
    cases a' with
    | nil => exact ⟨rfl, (List.cons.inj h).2⟩
    | cons d a' => exact absurd ((List.cons.inj h).1 ▸ List.mem_cons_self) ha'
  | cons d a ih =>
    cases a' with
    | nil => exact absurd ((List.cons.inj h).1 ▸ List.mem_cons_self) ha
    | cons e a' =>
      obtain ⟨rfl, htl⟩ := List.cons.inj h
      obtain ⟨rfl, rfl⟩ := ih (fun hm => ha (List.mem_cons_of_mem _ hm))
        (fun hm => ha' (List.mem_cons_of_mem _ hm)) htl
      exact ⟨rfl, rfl⟩

theorem append_cons_inj_right {α : Type} {c : α} {a a' b b' : List α} (hb : c ∉ b) (hb' : c ∉ b')
    (h : a ++ c :: b = a' ++ c :: b') : a = a' ∧ b = b' := by
  have hrev : b.reverse ++ c :: a.reverse = b'.reverse ++ c :: a'.reverse := by
    simpa using congrArg List.reverse h
  obtain ⟨h1, h2⟩ := append_cons_inj_left (by simpa using hb) (by simpa using hb') hrev
  exact ⟨List.reverse_injective h2, List.reverse_injective h1⟩

theorem append_cons_inj_of_forall {α : Type} {p : α → Bool} {c c' : α} {a a' b b' : List α}
    (hc : p c = false) (hc' : p c' = false) (hb : ∀ x ∈ b, p x = true) (hb' : ∀ x ∈ b', p x = true)
    (h : a ++ c :: b = a' ++ c' :: b') : a = a' ∧ c = c' ∧ b = b' := by
  have hrev : b.reverse ++ c :: a.reverse = b'.reverse ++ c' :: a'.reverse := by
    simpa using congrArg List.reverse h
  have hdrop := congrArg (List.dropWhile p) hrev
  rw [List.dropWhile_append_of_pos (by simpa using hb),
    List.dropWhile_append_of_pos (by simpa using hb')] at hdrop
  simp only [List.dropWhile_cons, hc, hc', Bool.false_eq_true, if_false, List.cons.injEq] at hdrop
  obtain ⟨rfl, harev⟩ := hdrop
  obtain rfl := List.reverse_injective harev
  simpa using h

theorem append_inj_of_forall {α : Type} {p : α → Bool} {a a' b b' : List α}
    (ha : ∃ init c, a = init ++ [c] ∧ p c = false) (ha' : ∃ init c, a' = init ++ [c] ∧ p c = false)
    (hb : ∀ x ∈ b, p x = true) (hb' : ∀ x ∈ b', p x = true) (h : a ++ b = a' ++ b') :
    a = a' ∧ b = b' := by
  obtain ⟨init, c, rfl, hc⟩ := ha
  obtain ⟨init', c', rfl, hc'⟩ := ha'
  obtain ⟨rfl, rfl, rfl⟩ := append_cons_inj_of_forall hc hc' hb hb' (by simpa using h)
  exact ⟨rfl, rfl⟩

theorem append_cons_ne_of_forall {α : Type} {p : α → Bool} {c : α} {a b x d : List α}
    (hc : p c = false) (hd : ∀ y ∈ d, p y = true) (hlen : b.length < d.length) :
    a ++ c :: b ≠ x ++ d := by
  intro h
  have hsuf : c :: b <:+ d :=
    List.suffix_of_suffix_length_le ⟨a, h⟩ ⟨x, rfl⟩ (by simpa [Nat.succ_le_iff] using hlen)
  have := hd c (hsuf.subset List.mem_cons_self)
  simp [hc] at this

theorem dropWhile_append_cons {α : Type} {p : α → Bool} {c : α} (hc : p c = false) (a b : List α) :
    (a ++ c :: b).dropWhile p = a.dropWhile p ++ c :: b := by
  rw [List.dropWhile_append]
  split
  case isTrue h => simp [List.isEmpty_iff.mp h, hc]
  case isFalse => rfl

section Cut

variable {α : Type} [DecidableEq α]

def rsplitOnce (c : α) (l : List α) : Option (List α × List α) :=
  if c ∈ l then
    some ((l.reverse.dropWhile (· ≠ c)).tail.reverse, (l.reverse.takeWhile (· ≠ c)).reverse)
  else none

theorem rsplitOnce_append_cons {c : α} {b : List α} (hb : c ∉ b) (a : List α) :
    rsplitOnce c (a ++ c :: b) = some (a, b) := by
  have hrest : ∀ x ∈ b.reverse, decide (x ≠ c) = true := by
    intro x hx
    simpa using fun heq : x = c => hb (heq ▸ List.mem_reverse.mp hx)
  have hrev : (a ++ c :: b).reverse = b.reverse ++ c :: a.reverse := by simp
  have hmem : c ∈ a ++ c :: b := by simp
  rw [rsplitOnce, if_pos hmem, hrev, List.dropWhile_append_of_pos hrest,
    List.takeWhile_append_of_pos hrest]
  simp

theorem rsplitOnce_eq_none {c : α} {l : List α} (h : c ∉ l) : rsplitOnce c l = none :=
  if_neg h

theorem of_rsplitOnce_eq_some {c : α} {l a b : List α} (h : rsplitOnce c l = some (a, b)) :
    l = a ++ c :: b ∧ c ∉ b := by
  by_cases hmem : c ∈ l
  · obtain ⟨x, y, hl, hy⟩ : ∃ x y, l = x ++ c :: y ∧ c ∉ y := by
      obtain ⟨y, x, hrev, hy⟩ := List.eq_append_cons_of_mem (List.mem_reverse.mpr hmem)
      refine ⟨x.reverse, y.reverse, ?_, by simpa using hy⟩
      rw [← List.reverse_reverse l, hrev]
      simp
    rw [hl, rsplitOnce_append_cons hy] at h
    cases h
    exact ⟨hl, hy⟩
  · rw [rsplitOnce_eq_none hmem] at h
    cases h

end Cut

section Decimals

def zeroPadded (width n : Nat) : List Char :=
  List.replicate (width - (Nat.toDigits 10 n).length) '0' ++ Nat.toDigits 10 n

variable {width n : Nat}

theorem zeroPadded_injective : Function.Injective (zeroPadded width) := by
  refine Function.LeftInverse.injective (g := fun l => Nat.ofDigitChars 10 l 0) fun n => ?_
  simp [zeroPadded, Nat.ofDigitChars_append]

theorem width_le_length_zeroPadded : width ≤ (zeroPadded width n).length := by
  simp only [zeroPadded, List.length_append, List.length_replicate]
  omega

theorem length_zeroPadded (hw : 0 < width) (hn : n < 10 ^ width) :
    (zeroPadded width n).length = width := by
  have hle := (Nat.length_toDigits_le_iff (by decide) hw).mpr hn
  simp only [zeroPadded, List.length_append, List.length_replicate]
  omega

theorem isDigit_of_mem_zeroPadded {c : Char} (h : c ∈ zeroPadded width n) : c.isDigit = true := by
  rcases List.mem_append.mp h with h | h
  · rw [List.eq_of_mem_replicate h]
    rfl
  · exact Nat.isDigit_of_mem_toDigits (by decide) (by decide) h

end Decimals

section Integers

def parseDigits (digits : List Char) : Option Nat :=
  if digits.isEmpty || !digits.all Char.isDigit then none else some (Nat.ofDigitChars 10 digits 0)

def parseInt (s : String) : Option Int :=
  match s.toList with
  | '+' :: digits => (parseDigits digits).map fun n => (n : Int)
  | '-' :: digits => (parseDigits digits).map fun n => -(n : Int)
  | digits => (parseDigits digits).map fun n => (n : Int)

theorem parseDigits_toDigits (n : Nat) : parseDigits (Nat.toDigits 10 n) = some n := by
  have hne : Nat.toDigits 10 n ≠ [] := Nat.toDigits_ne_nil
  have hdigits : (Nat.toDigits 10 n).all Char.isDigit = true :=
    List.all_eq_true.mpr fun c hc => Nat.isDigit_of_mem_toDigits (by decide) (by decide) hc
  simp [parseDigits, hne, hdigits, Nat.ofDigitChars_ten_toDigits]

theorem parseInt_repr (a : Int) : parseInt a.repr = some a := by
  cases a with
  | ofNat n =>
    have hdigits : ∀ c ∈ Nat.toDigits 10 n, c.isDigit := fun c hc =>
      Nat.isDigit_of_mem_toDigits (by decide) (by decide) hc
    simp only [Int.repr, Nat.repr, parseInt, String.toList_ofList]
    split
    · next digits h => exact absurd (hdigits '+' (by rw [h]; exact List.mem_cons_self)) (by decide)
    · next digits h => exact absurd (hdigits '-' (by rw [h]; exact List.mem_cons_self)) (by decide)
    · rw [parseDigits_toDigits]
      rfl
  | negSucc n =>
    have hneg : Int.negSucc n = -((n : Int) + 1) := Int.negSucc_eq n
    simp only [Int.repr, Nat.repr, parseInt]
    simp [parseDigits_toDigits, hneg]

theorem toList_int_repr (a : Int) : ∃ sign digits, a.repr.toList = sign ++ digits ∧
    '-' ∉ digits ∧ sign = (if a < 0 then ['-'] else []) := by
  have hdigits : ∀ n, '-' ∉ Nat.toDigits 10 n := fun n h =>
    absurd (Nat.isDigit_of_mem_toDigits (by decide) (by decide) h) (by decide)
  cases a with
  | ofNat n =>
    refine ⟨[], Nat.toDigits 10 n, ?_, hdigits n, ?_⟩
    · simp [Int.repr, Nat.repr]
    · simp
  | negSucc n =>
    refine ⟨['-'], Nat.toDigits 10 (n + 1), ?_, hdigits _, ?_⟩
    · simp [Int.repr, Nat.repr]
    · simp [Int.negSucc_lt_zero]

theorem int_repr_inj {a b : Int} (h : a.repr = b.repr) : a = b := by
  have heq : some a = some b := by rw [← parseInt_repr a, h, parseInt_repr]
  exact Option.some.inj heq

theorem append_dash_repr_inj {l l' : List Char} {a b : Int} (hl : l.getLast? ≠ some '-')
    (hl' : l'.getLast? ≠ some '-') (h : l ++ '-' :: a.repr.toList = l' ++ '-' :: b.repr.toList) :
    l = l' ∧ a = b := by
  have hsame : a.repr.toList = b.repr.toList → a = b := fun h => int_repr_inj (String.toList_inj.mp h)
  obtain ⟨s, d, ha, hd, hs⟩ := toList_int_repr a
  obtain ⟨s', d', hb, hd', hs'⟩ := toList_int_repr b
  rw [ha, hb] at h hsame
  by_cases hneg : a < 0 <;> by_cases hneg' : b < 0 <;> simp only [hneg, hneg', if_true, if_false] at hs hs'
  · subst hs hs'
    have hcut : (l ++ ['-']) ++ '-' :: d = (l' ++ ['-']) ++ '-' :: d' := by simpa using h
    obtain ⟨hleft, rfl⟩ := append_cons_inj_right hd hd' hcut
    exact ⟨List.append_cancel_right hleft, hsame rfl⟩
  · subst hs hs'
    have hcut : (l ++ ['-']) ++ '-' :: d = l' ++ '-' :: d' := by simpa using h
    obtain ⟨rfl, -⟩ := append_cons_inj_right hd hd' hcut
    simp at hl'
  · subst hs hs'
    have hcut : l ++ '-' :: d = (l' ++ ['-']) ++ '-' :: d' := by simpa using h
    obtain ⟨rfl, -⟩ := append_cons_inj_right hd hd' hcut
    simp at hl
  · subst hs hs'
    obtain ⟨rfl, rfl⟩ := append_cons_inj_right hd hd' h
    exact ⟨rfl, hsame rfl⟩

end Integers

section Strings

variable {c : Char} {sep a a' b b' : String}

theorem cut_first (hsep : sep.toList = [c]) (ha : c ∉ a.toList) (ha' : c ∉ a'.toList)
    (h : a ++ sep ++ b = a' ++ sep ++ b') : a = a' ∧ b = b' := by
  have hl := congrArg String.toList h
  simp only [String.toList_append, hsep, List.append_assoc, List.singleton_append] at hl
  obtain ⟨h1, h2⟩ := append_cons_inj_left ha ha' hl
  exact ⟨String.toList_inj.mp h1, String.toList_inj.mp h2⟩

theorem utf8ByteSize_ofList (l : List Char) :
    (String.ofList l).utf8ByteSize = (l.map Char.utf8Size).sum := by
  induction l with
  | nil => rfl
  | cons c l ih =>
    have hcons : String.ofList (c :: l) = String.singleton c ++ String.ofList l := by
      simp
    rw [hcons, String.utf8ByteSize_append, String.utf8ByteSize_singleton, ih, List.map_cons,
      List.sum_cons]

theorem utf8ByteSize_of_narrow {l : List Char} (h : ∀ c ∈ l, c.utf8Size = 1) :
    (String.ofList l).utf8ByteSize = l.length := by
  rw [utf8ByteSize_ofList]
  induction l with
  | nil => rfl
  | cons c rest ih =>
    have hc := h c (by simp)
    have hrest := ih fun d hd => h d (by simp [hd])
    rw [List.map_cons, List.sum_cons, hc, hrest, List.length_cons, Nat.add_comm]

theorem length_le_utf8ByteSize (s : String) : s.length ≤ s.utf8ByteSize := by
  have hlist : ∀ l : List Char, l.length ≤ (String.ofList l).utf8ByteSize := by
    intro l
    rw [utf8ByteSize_ofList]
    induction l with
    | nil => exact Nat.zero_le _
    | cons c l ih =>
      have := c.utf8Size_pos
      simp only [List.length_cons, List.map_cons, List.sum_cons]
      omega
  have := hlist s.toList
  rwa [String.ofList_toList, String.length_toList] at this

end Strings

section Squeezing

variable {α : Type} [DecidableEq α] {c : α}

/-- Every run of `c` read as a single one. -/
@[simp] def squeeze (c : α) : List α → List α
  | [] => []
  | a :: l => if a = c ∧ l.head? = some c then squeeze c l else a :: squeeze c l

/-- One replacement of every two `c` by one, from the left and without overlap. -/
@[simp] def halve (c : α) : List α → List α
  | [] => []
  | [a] => [a]
  | a :: b :: l => if a = c ∧ b = c then c :: halve c l else a :: halve c (b :: l)

@[simp] def doubled (c : α) : List α → Bool
  | [] => false
  | [_] => false
  | a :: b :: l => (a = c ∧ b = c) || doubled c (b :: l)

/-- Replace while two `c` stand together. -/
@[simp] def collapse (c : α) : Nat → List α → List α
  | 0, l => l
  | n + 1, l => if doubled c l then collapse c n (halve c l) else l

theorem head?_halve (l : List α) : (halve c l).head? = l.head? := by
  fun_cases halve c l with
  | case1 => rfl
  | case2 => rfl
  | case3 a b l h => simp [h.1]
  | case4 a b l h => rfl

theorem squeeze_halve (l : List α) : squeeze c (halve c l) = squeeze c l := by
  fun_induction halve c l with
  | case1 => rfl
  | case2 => rfl
  | case3 a b l h ih =>
    obtain ⟨rfl, rfl⟩ := h
    simp [squeeze, head?_halve, ih]
  | case4 a b l h ih => simp [squeeze, head?_halve, ih]

theorem length_halve_le (l : List α) : (halve c l).length ≤ l.length := by
  fun_induction halve c l with
  | case1 => exact Nat.le_refl _
  | case2 => exact Nat.le_refl _
  | case3 a b l hab ih =>
    simp only [List.length_cons]
    omega
  | case4 a b l hab ih =>
    simp only [List.length_cons] at ih ⊢
    omega

theorem length_halve_lt {l : List α} (h : doubled c l = true) :
    (halve c l).length < l.length := by
  fun_induction halve c l with
  | case1 => cases h
  | case2 => cases h
  | case3 a b l hab ih =>
    have := length_halve_le (c := c) l
    simp only [List.length_cons]
    omega
  | case4 a b l hab ih =>
    have hrest : doubled c (b :: l) = true := by simpa [doubled, hab] using h
    have := ih hrest
    simp only [List.length_cons] at this ⊢
    omega

theorem squeeze_eq_self {l : List α} (h : doubled c l = false) : squeeze c l = l := by
  induction l with
  | nil => rfl
  | cons a l ih =>
    cases l with
    | nil => simp [squeeze]
    | cons b l =>
      simp only [doubled, Bool.or_eq_false_iff, decide_eq_false_iff_not] at h
      rw [squeeze, if_neg (by simpa using h.1), ih h.2]

theorem collapse_eq_squeeze {n : Nat} {l : List α} (h : l.length ≤ n) :
    collapse c n l = squeeze c l := by
  induction n generalizing l with
  | zero =>
    obtain rfl := List.length_eq_zero_iff.mp (Nat.le_zero.mp h)
    rfl
  | succ n ih =>
    rw [collapse]
    split
    case isTrue hd =>
      have hlt := length_halve_lt hd
      rw [ih (by omega), squeeze_halve]
    case isFalse hd => rw [squeeze_eq_self (by simpa using hd)]

theorem mem_of_mem_squeeze {a : α} {l : List α} (h : a ∈ squeeze c l) : a ∈ l := by
  induction l with
  | nil => exact h
  | cons b l ih =>
    rw [squeeze] at h
    split at h
    · exact List.mem_cons_of_mem _ (ih h)
    · rcases List.mem_cons.mp h with rfl | h
      · exact List.mem_cons_self
      · exact List.mem_cons_of_mem _ (ih h)

theorem length_squeeze_le (l : List α) : (squeeze c l).length ≤ l.length := by
  induction l with
  | nil => exact Nat.le_refl _
  | cons b l ih =>
    rw [squeeze]
    split
    · exact Nat.le_succ_of_le ih
    · exact Nat.succ_le_succ ih

theorem squeeze_cons {a : α} (ha : a ≠ c) (l : List α) :
    squeeze c (a :: l) = a :: squeeze c l := by
  rw [squeeze, if_neg fun h => ha h.1]

theorem squeeze_concat {a : α} (ha : a ≠ c) (l : List α) :
    squeeze c (l ++ [a]) = squeeze c l ++ [a] := by
  induction l with
  | nil => simp [squeeze]
  | cons b l ih =>
    have hhead : (b = c ∧ (l ++ [a]).head? = some c) ↔ (b = c ∧ l.head? = some c) := by
      cases l with
      | nil => simp [ha]
      | cons d l => simp
    rw [List.cons_append, squeeze, squeeze, if_congr hhead rfl rfl, ih]
    split <;> rfl

end Squeezing

end Kopiur.Lib
