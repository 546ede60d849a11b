import Kopiur.Api.Jitter

/-!
# Rendered durations

A duration is rendered with the largest unit that divides it, and the parser
reads the same duration back.
-/

namespace Kopiur

def renderGoDuration (secs : Nat) : String :=
  if secs ≠ 0 ∧ secs % 3600 = 0 then (secs / 3600).repr ++ "h"
  else if secs ≠ 0 ∧ secs % 60 = 0 then (secs / 60).repr ++ "m"
  else secs.repr ++ "s"

theorem isWhitespace_of_isDigit {c : Char} (h : c.isDigit = true) : isWhitespace c = false := by
  have hrange : 48 ≤ c.toNat ∧ c.toNat ≤ 57 := by
    simpa [Char.isDigit, UInt32.le_iff_toNat_le] using h
  simp only [isWhitespace, Bool.or_eq_false_iff, decide_eq_false_iff_not, beq_eq_false_iff_ne]
  omega

theorem trim_eq_self {l : List Char} (hhead : ∀ c ∈ l.head?, isWhitespace c = false)
    (hlast : ∀ c ∈ l.getLast?, isWhitespace c = false) : trim (String.ofList l) = l := by
  have hstart : l.dropWhile isWhitespace = l := by
    cases l with
    | nil => rfl
    | cons c l => simp [hhead c (by simp)]
  have hend : l.reverse.dropWhile isWhitespace = l.reverse := by
    rw [← List.head?_reverse] at hlast
    cases hl : l.reverse with
    | nil => rfl
    | cons c r => simp [hlast c (by simp [hl])]
  rw [trim, trimEndMatches, String.toList_ofList, hstart, hend, List.reverse_reverse]

theorem toDigits_spec (n : Nat) :
    Nat.toDigits 10 n ≠ [] ∧ ∀ c ∈ Nat.toDigits 10 n, c.isDigit = true :=
  ⟨Nat.toDigits_ne_nil, fun _ hc => Nat.isDigit_of_mem_toDigits (by decide) (by decide) hc⟩

theorem parseU64_toDigits {n : Nat} (h : n ≤ u64Max) : parseU64 (Nat.toDigits 10 n) = some n := by
  obtain ⟨hne, hdigits⟩ := toDigits_spec n
  have hall : (Nat.toDigits 10 n).all Char.isDigit = true := List.all_eq_true.mpr hdigits
  unfold parseU64
  split
  · next rest hrest => exact absurd (hdigits '+' (by rw [hrest]; exact .head _)) (by decide)
  · simp [hne, hall, Nat.ofDigitChars_ten_toDigits, h]

theorem parseGoDuration_unit {n mult : Nat} {unit : Char}
    (hunit : (unit = 'h' ∧ mult = 3600) ∨ (unit = 'm' ∧ mult = 60) ∨ (unit = 's' ∧ mult = 1))
    (h : n * mult ≤ u64Max) (hn : n ≤ u64Max) :
    parseGoDuration (n.repr ++ String.singleton unit) = some (n * mult) := by
  obtain ⟨hne, hdigits⟩ := toDigits_spec n
  have hspace : ∀ c ∈ Nat.toDigits 10 n, isWhitespace c = false := fun c hc =>
    isWhitespace_of_isDigit (hdigits c hc)
  have hdigitsTrim : trim (String.ofList (Nat.toDigits 10 n)) = Nat.toDigits 10 n :=
    trim_eq_self (fun c hc => hspace c (List.mem_of_mem_head? hc))
      (fun c hc => hspace c (List.mem_of_mem_getLast? hc))
  have hunitSpace : isWhitespace unit = false := by
    rcases hunit with ⟨rfl, -⟩ | ⟨rfl, -⟩ | ⟨rfl, -⟩ <;> decide
  have htext : n.repr ++ String.singleton unit = String.ofList (Nat.toDigits 10 n ++ [unit]) := by
    rw [← String.toList_inj]
    simp [Nat.repr]
  have htrim : trim (n.repr ++ String.singleton unit) = Nat.toDigits 10 n ++ [unit] := by
    rw [htext]
    refine trim_eq_self (fun c hc => ?_) (fun c hc => ?_)
    · refine hspace c (List.mem_of_mem_head? ?_)
      rwa [List.head?_append_of_ne_nil _ hne] at hc
    · simp only [List.getLast?_concat, Option.mem_def, Option.some.injEq] at hc
      exact hc ▸ hunitSpace
  unfold parseGoDuration
  rw [htrim]
  rcases hunit with ⟨rfl, rfl⟩ | ⟨rfl, rfl⟩ | ⟨rfl, rfl⟩
  · simp [hdigitsTrim, parseU64_toDigits hn, h]
  · simp [hdigitsTrim, parseU64_toDigits hn, h]
  · simp [hdigitsTrim, parseU64_toDigits hn, hn]

theorem parseGoDuration_render {secs : Nat} (h : secs ≤ u64Max) :
    parseGoDuration (renderGoDuration secs) = some secs := by
  unfold renderGoDuration
  split
  · next hh =>
    have heq : secs / 3600 * 3600 = secs := Nat.div_mul_cancel (Nat.dvd_of_mod_eq_zero hh.2)
    have hparse := parseGoDuration_unit (.inl ⟨rfl, rfl⟩) (heq ▸ h)
      (Nat.le_trans (Nat.div_le_self _ _) h)
    rwa [heq] at hparse
  · split
    · next hm =>
      have heq : secs / 60 * 60 = secs := Nat.div_mul_cancel (Nat.dvd_of_mod_eq_zero hm.2)
      have hparse := parseGoDuration_unit (.inr (.inl ⟨rfl, rfl⟩)) (heq ▸ h)
        (Nat.le_trans (Nat.div_le_self _ _) h)
      rwa [heq] at hparse
    · have hparse := parseGoDuration_unit (.inr (.inr ⟨rfl, rfl⟩)) (by rwa [Nat.mul_one]) h
      rwa [Nat.mul_one] at hparse

theorem le_u64Max_of_parseGoDuration {s : String} {secs : Nat}
    (h : parseGoDuration s = some secs) : secs ≤ u64Max := by
  unfold parseGoDuration at h
  dsimp only at h
  by_cases hempty : (trim s).isEmpty
  · simp [hempty] at h
  · rw [if_neg hempty] at h
    obtain ⟨n, -, hn⟩ := Option.bind_eq_some_iff.mp h
    obtain ⟨hle, heq⟩ := Option.ite_none_right_eq_some.mp hn
    rwa [Option.some.inj heq] at hle

end Kopiur
