import Mathlib.Data.List.Lex
import Mathlib.Order.Lattice

/-!
# Searching sorted fixed-width records

Records of one width packed end to end. When they are sorted, bisection finds
a record just when it is there; cutting sorted records short keeps them
sorted.
-/

namespace Kopiur.Lib

variable {α : Type} [LinearOrder α]

/-- Bisect the half-open window from `lo` to `hi`. -/
def bisect (get : Nat → α) (needle : α) : Nat → Nat → Nat → Bool
  | 0, _, _ => false
  | fuel + 1, lo, hi =>
    if lo < hi then
      let mid := lo + (hi - lo) / 2
      if get mid < needle then bisect get needle fuel (mid + 1) hi
      else if needle < get mid then bisect get needle fuel lo mid
      else true
    else false

theorem bisect_iff {get : Nat → α} {n : Nat} (sorted : ∀ i j, i ≤ j → j < n → get i ≤ get j)
    {needle : α} {fuel lo hi : Nat} (hfuel : hi - lo ≤ fuel) (hhi : hi ≤ n) :
    bisect get needle fuel lo hi = true ↔ ∃ i, lo ≤ i ∧ i < hi ∧ get i = needle := by
  induction fuel generalizing lo hi with
  | zero =>
    simp only [bisect, Bool.false_eq_true, false_iff]
    rintro ⟨i, hlo, hi', -⟩
    omega
  | succ fuel ih =>
    rw [bisect]
    split
    case isFalse h =>
      simp only [Bool.false_eq_true, false_iff]
      rintro ⟨i, hlo, hi', -⟩
      omega
    case isTrue h =>
      simp only
      split
      case isTrue hless =>
        -- Everything up to the middle is too small.
        rw [ih (by omega) hhi]
        refine exists_congr fun i => ⟨fun ⟨hlo, hi', heq⟩ => ⟨by omega, hi', heq⟩, ?_⟩
        rintro ⟨hlo, hi', rfl⟩
        refine ⟨Nat.lt_of_not_le fun hle => ?_, hi', rfl⟩
        exact absurd (sorted i _ hle (by omega)) (not_le.mpr hless)
      case isFalse hge =>
        split
        case isTrue hgreater =>
          rw [ih (by omega) (by omega)]
          refine exists_congr fun i => ⟨fun ⟨hlo, hi', heq⟩ => ⟨hlo, by omega, heq⟩, ?_⟩
          rintro ⟨hlo, hi', rfl⟩
          refine ⟨hlo, Nat.lt_of_not_le fun hle => ?_, rfl⟩
          exact absurd (sorted _ i hle (by omega)) (not_le.mpr hgreater)
        case isFalse hle =>
          simp only [true_iff]
          exact ⟨_, by omega, by omega, le_antisymm (not_lt.mp hle) (not_lt.mp hge)⟩

theorem lt_of_take_lt {l l' : List α} {n : Nat} (h : l.take n < l'.take n) : l < l' := by
  induction n generalizing l l' with
  | zero => simp at h
  | succ n ih =>
    cases l' with
    | nil => simp at h
    | cons b l' =>
      cases l with
      | nil => exact List.nil_lt_cons b l'
      | cons a l =>
        rw [List.take_succ_cons, List.take_succ_cons, List.cons_lt_cons_iff] at h
        rw [List.cons_lt_cons_iff]
        exact h.imp_right fun ⟨heq, hlt⟩ => ⟨heq, ih hlt⟩

theorem take_le_take {l l' : List α} (h : l ≤ l') (n : Nat) : l.take n ≤ l'.take n :=
  not_lt.mp fun hlt => absurd (lt_of_take_lt hlt) (not_lt.mpr h)

variable {β : Type}

def recordAt (width : Nat) (packed : List β) (i : Nat) : List β :=
  (packed.drop (i * width)).take width

def records (width : Nat) (packed : List β) : List (List β) :=
  (List.range (packed.length / width)).map (recordAt width packed)

theorem length_flatten_of_width {width : Nat} {l : List (List β)}
    (h : ∀ r ∈ l, r.length = width) : l.flatten.length = l.length * width := by
  induction l with
  | nil => simp
  | cons r rest ih =>
    rw [List.flatten_cons, List.length_append, List.length_cons, h r (by simp),
      ih fun r hr => h r (by simp [hr]), Nat.succ_mul, Nat.add_comm]

theorem recordAt_flatten {width : Nat} {l : List (List β)} (h : ∀ r ∈ l, r.length = width)
    {i : Nat} {r : List β} (hr : l[i]? = some r) : recordAt width l.flatten i = r := by
  induction l generalizing i with
  | nil => simp at hr
  | cons first rest ih =>
    have hfirst : first.length = width := h first (by simp)
    cases i with
    | zero =>
      obtain rfl : first = r := by simpa using hr
      simp [recordAt, ← hfirst]
    | succ i =>
      have hrest := ih (fun r hr => h r (by simp [hr])) (by simpa using hr)
      rw [recordAt] at hrest ⊢
      rw [List.flatten_cons, Nat.succ_mul, Nat.add_comm, ← List.drop_drop]
      rw [← hfirst, List.drop_left, hfirst]
      exact hrest

theorem records_flatten {width : Nat} (hwidth : 0 < width) {l : List (List β)}
    (h : ∀ r ∈ l, r.length = width) : records width l.flatten = l := by
  rw [records, length_flatten_of_width h, Nat.mul_div_cancel _ hwidth]
  refine List.ext_getElem? fun i => ?_
  simp only [List.getElem?_map]
  by_cases hi : i < l.length
  · rw [List.getElem?_range hi, Option.map_some]
    rw [recordAt_flatten h (List.getElem?_eq_getElem hi), List.getElem?_eq_getElem hi]
  · rw [List.getElem?_eq_none (by simpa using hi), List.getElem?_eq_none (by simpa using hi)]
    rfl

end Kopiur.Lib
