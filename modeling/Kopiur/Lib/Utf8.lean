import Mathlib.Algebra.GroupWithZero.Nat
import Mathlib.Data.List.Basic
import Mathlib.Tactic.Common

/-!
# Text as bytes

A text is scanned by the index of a byte and cut between bytes. A cut inside a
character is none. Bytes below 128 are characters of their own, and no other
character has one.
-/

namespace Kopiur.Lib

def utf8 (l : List Char) : List UInt8 := l.flatMap String.utf8EncodeChar

def utf8Length (l : List Char) : Nat := (l.map Char.utf8Size).sum

def dropBytes : Nat → List Char → Option (List Char)
  | 0, l => some l
  | _ + 1, [] => none
  | n + 1, c :: l => if c.utf8Size ≤ n + 1 then dropBytes (n + 1 - c.utf8Size) l else none

def takeBytes : Nat → List Char → Option (List Char)
  | 0, _ => some []
  | _ + 1, [] => none
  | n + 1, c :: l =>
    if c.utf8Size ≤ n + 1 then (takeBytes (n + 1 - c.utf8Size) l).map (c :: ·) else none

def sliceBytes (l : List Char) (i j : Nat) : Option (List Char) :=
  if i ≤ j then (dropBytes i l).bind (takeBytes (j - i)) else none

section Lengths

variable {a b : List Char} {c : Char}

@[simp] theorem utf8_nil : utf8 [] = [] := rfl

@[simp] theorem utf8_append : utf8 (a ++ b) = utf8 a ++ utf8 b := List.flatMap_append

theorem utf8_cons : utf8 (c :: a) = String.utf8EncodeChar c ++ utf8 a := rfl

@[simp] theorem utf8Length_nil : utf8Length [] = 0 := rfl

@[simp] theorem utf8Length_cons : utf8Length (c :: a) = c.utf8Size + utf8Length a := by
  rw [utf8Length, List.map_cons, List.sum_cons, utf8Length]

@[simp] theorem utf8Length_append : utf8Length (a ++ b) = utf8Length a + utf8Length b := by
  rw [utf8Length, List.map_append, List.sum_append, utf8Length, utf8Length]

theorem length_utf8 (l : List Char) : (utf8 l).length = utf8Length l := by
  induction l with
  | nil => rfl
  | cons c l ih =>
    rw [utf8_cons, List.length_append, String.length_utf8EncodeChar, ih, utf8Length_cons]

end Lengths

section Cuts

variable {a b t : List Char}

theorem size_cons (c : Char) (a : List Char) :
    ∃ n, c.utf8Size + utf8Length a = n + 1 ∧ c.utf8Size ≤ n + 1 ∧
      n + 1 - c.utf8Size = utf8Length a := by
  have hpos := c.utf8Size_pos
  exact ⟨c.utf8Size + utf8Length a - 1, by omega, by omega, by omega⟩

theorem dropBytes_append (a b : List Char) : dropBytes (utf8Length a) (a ++ b) = some b := by
  induction a with
  | nil => simp [dropBytes]
  | cons c a ih =>
    obtain ⟨n, hn, hle, hrest⟩ := size_cons c a
    rw [utf8Length_cons, List.cons_append, hn, dropBytes, if_pos hle, hrest, ih]

theorem takeBytes_append (a b : List Char) : takeBytes (utf8Length a) (a ++ b) = some a := by
  induction a with
  | nil => simp [takeBytes]
  | cons c a ih =>
    obtain ⟨n, hn, hle, hrest⟩ := size_cons c a
    rw [utf8Length_cons, List.cons_append, hn, takeBytes, if_pos hle, hrest, ih]
    rfl

theorem sliceBytes_append (a t b : List Char) :
    sliceBytes (a ++ (t ++ b)) (utf8Length a) (utf8Length a + utf8Length t) = some t := by
  rw [sliceBytes, if_pos (Nat.le_add_right _ _), dropBytes_append, Option.bind_some,
    Nat.add_sub_cancel_left, takeBytes_append]

theorem drop_utf8_append (a b : List Char) : (utf8 (a ++ b)).drop (utf8Length a) = utf8 b := by
  rw [utf8_append, ← length_utf8, List.drop_left]

theorem getElem?_utf8_append (a b : List Char) (k : Nat) :
    (utf8 (a ++ b))[utf8Length a + k]? = (utf8 b)[k]? := by
  rw [← List.getElem?_drop, drop_utf8_append]

end Cuts

section Narrow

variable {c : Char} {l : List Char} {x : UInt8}

theorem utf8Size_of_lt (h : c.toNat < 128) : c.utf8Size = 1 := by
  rw [Char.utf8Size_eq_one_iff, UInt32.le_iff_toNat_le]
  exact Nat.le_of_lt_succ h

theorem utf8_cons_narrow (h : c.toNat < 128) : utf8 (c :: l) = c.toUInt8 :: utf8 l := by
  rw [utf8_cons, String.utf8EncodeChar_eq_singleton (utf8Size_of_lt h)]
  rfl

theorem le_of_mem_wide (h : 128 ≤ c.toNat) (hx : x ∈ String.utf8EncodeChar c) : 128 ≤ x.toNat := by
  have hv : ¬ c.val.toNat ≤ 0x7f := Nat.not_le.mpr h
  simp only [String.utf8EncodeChar, if_neg hv] at hx
  split at hx
  · simp only [List.mem_cons, List.not_mem_nil, or_false] at hx
    rcases hx with rfl | rfl <;> simp only [UInt8.toNat_ofNat'] <;> omega
  · split at hx
    · simp only [List.mem_cons, List.not_mem_nil, or_false] at hx
      rcases hx with rfl | rfl | rfl <;> simp only [UInt8.toNat_ofNat'] <;> omega
    · simp only [List.mem_cons, List.not_mem_nil, or_false] at hx
      rcases hx with rfl | rfl | rfl | rfl <;> simp only [UInt8.toNat_ofNat'] <;> omega

theorem exists_utf8EncodeChar (c : Char) : ∃ x xs, String.utf8EncodeChar c = x :: xs := by
  have hlen := String.length_utf8EncodeChar c
  have hpos := c.utf8Size_pos
  exact List.exists_cons_of_length_pos (by omega)

theorem toUInt8_toNat (h : c.toNat < 128) : c.toUInt8.toNat = c.toNat := by
  have hval : c.toUInt8.toNat = c.val.toNat % 256 := rfl
  rw [hval, Nat.mod_eq_of_lt (by simpa using Nat.lt_trans h (by decide))]
  rfl

theorem head?_utf8 (h : c.toNat < 128) : (utf8 l).head? = some c.toUInt8 ↔ l.head? = some c := by
  cases l with
  | nil => simp
  | cons d l =>
    by_cases hd : d.toNat < 128
    · rw [utf8_cons_narrow hd, List.head?_cons, List.head?_cons, Option.some.injEq,
        Option.some.injEq]
      constructor
      · intro heq
        have hnat := congrArg UInt8.toNat heq
        rw [toUInt8_toNat hd, toUInt8_toNat h] at hnat
        exact Char.toNat_inj.mp hnat
      · rintro rfl
        rfl
    · obtain ⟨x, xs, hxs⟩ := exists_utf8EncodeChar d
      have hx : 128 ≤ x.toNat := le_of_mem_wide (Nat.not_lt.mp hd) (by rw [hxs]; simp)
      rw [utf8_cons, hxs, List.cons_append, List.head?_cons, List.head?_cons, Option.some.injEq,
        Option.some.injEq]
      constructor
      · rintro rfl
        rw [toUInt8_toNat h] at hx
        omega
      · rintro rfl
        exact absurd h hd

end Narrow

end Kopiur.Lib
