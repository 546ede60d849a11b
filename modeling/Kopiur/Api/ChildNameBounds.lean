import Mathlib.Algebra.Order.BigOperators.Group.List
import Kopiur.Api.ChildNames

/-!
# Lengths of generated names

Every name with a marker and a tag fits in 63 bytes, whatever its parts are.
-/

namespace Kopiur

open Lib

theorem utf8ByteSize_le_of_sublist {l l' : List Char} (h : l.Sublist l') :
    (String.ofList l).utf8ByteSize ≤ (String.ofList l').utf8ByteSize := by
  rw [utf8ByteSize_ofList, utf8ByteSize_ofList]
  exact (h.map Char.utf8Size).sum_le_sum fun _ _ => Nat.zero_le _

theorem clipChars_start (k : Nat) (l : List Char) : clipChars k l <+: l := by
  induction l generalizing k with
  | nil => exact List.prefix_rfl
  | cons c l ih =>
    rw [clipChars]
    split
    · exact List.prefix_cons_inj c |>.mpr (ih _)
    · exact List.nil_prefix

theorem clip_start (s : String) (k : Nat) : (clip s k).toList <+: s.toList := by
  unfold clip
  split
  · exact List.prefix_rfl
  · rw [String.toList_ofList]
    exact clipChars_start k s.toList

theorem sum_clipChars (k : Nat) (l : List Char) : ((clipChars k l).map Char.utf8Size).sum ≤ k := by
  induction l generalizing k with
  | nil => exact Nat.zero_le k
  | cons c l ih =>
    rw [clipChars]
    split
    · next hfits =>
      have hrest := ih (k - c.utf8Size)
      rw [List.map_cons, List.sum_cons]
      omega
    · exact Nat.zero_le k

theorem utf8ByteSize_clip (s : String) (k : Nat) : (clip s k).utf8ByteSize ≤ k := by
  unfold clip
  split
  · assumption
  · rw [utf8ByteSize_ofList]
    exact sum_clipChars k s.toList

theorem trimEndMatches_sublist (p : Char → Bool) (l : List Char) :
    (trimEndMatches p l).Sublist l := by
  have h := (List.dropWhile_suffix (l := l.reverse) p).sublist.reverse
  rwa [List.reverse_reverse] at h

theorem utf8ByteSize_trimMatches (c : Char) (s : String) :
    (trimMatches c s).utf8ByteSize ≤ s.utf8ByteSize := by
  have h := (trimEndMatches_sublist (· == c) (s.toList.dropWhile (· == c))).trans
    (List.dropWhile_suffix _).sublist
  simpa [trimMatches] using utf8ByteSize_le_of_sublist h

theorem dropWhile_eq_self {c : Char} {l : List Char} (h : l.head? ≠ some c) :
    l.dropWhile (· == c) = l := by
  cases l with
  | nil => rfl
  | cons a rest =>
    have hne : (a == c) = false := by simpa using h
    rw [List.dropWhile_cons, hne]
    rfl

theorem trimMatches_eq_self {c : Char} {s : String} (hhead : s.toList.head? ≠ some c)
    (hlast : s.toList.getLast? ≠ some c) : trimMatches c s = s := by
  rw [trimMatches, dropWhile_eq_self hhead, trimEndMatches, dropWhile_eq_self, List.reverse_reverse,
    String.ofList_toList]
  rwa [List.head?_reverse]

theorem hexDigit_utf8Size {n : Nat} (h : n < 16) : (hexDigit n).utf8Size = 1 := by
  revert n
  decide

theorem utf8ByteSize_hex (width n : Nat) : (hex width n).utf8ByteSize = width := by
  rw [hex, utf8ByteSize_ofList, List.map_map]
  have hone : ∀ i ∈ (List.range width).reverse,
      (Char.utf8Size ∘ fun i => hexDigit (n / 16 ^ i % 16)) i = 1 :=
    fun i _ => hexDigit_utf8Size (Nat.mod_lt _ (by decide))
  rw [List.map_congr_left hone]
  simp

theorem utf8ByteSize_fnv8 (input : String) : (fnv8 input).utf8ByteSize = 8 := utf8ByteSize_hex 8 _

theorem slug_budget {fixed base slug : Nat} (hfixed : fixed ≤ 63) :
    fixed + (if fixed + base + slug > 63 then
        min base (63 - fixed - if fixed + base + slug > 63 then min slug ((63 - fixed) / 3) else slug)
      else base) + (if fixed + base + slug > 63 then min slug ((63 - fixed) / 3) else slug) ≤ 63 := by
  split <;> omega

theorem tagged_size (base slug marker input : String) (bk sk : Nat) :
    (trimMatches '-' (clip base bk ++ marker ++ clip slug sk ++ "-" ++ fnv8 input)).utf8ByteSize ≤
      marker.utf8ByteSize + 1 + (fnv8 input).utf8ByteSize + bk + sk := by
  refine (utf8ByteSize_trimMatches _ _).trans ?_
  have hbase := utf8ByteSize_clip base bk
  have hslug := utf8ByteSize_clip slug sk
  have hdash : "-".utf8ByteSize = 1 := rfl
  simp only [String.utf8ByteSize_append, hdash]
  omega

theorem memberChildName_size (base policyNs : String) (pvc : PvcTargetRef)
    (repo : Option (String × String)) :
    (memberChildName base policyNs pvc repo).utf8ByteSize ≤ maxChildName := by
  have hmarker : fanoutMarker.utf8ByteSize = 5 := rfl
  cases repo with
  | none =>
    simp only [memberChildName]
    refine (tagged_size _ _ _ _ _ _).trans ?_
    simp only [utf8ByteSize_fnv8, hmarker, maxChildName]
    exact slug_budget (by decide)
  | some repo =>
    obtain ⟨rkey, repoName⟩ := repo
    have hrepo : repoMarker.utf8ByteSize = 6 := rfl
    have hdash : "-".utf8ByteSize = 1 := rfl
    simp only [memberChildName]
    refine (utf8ByteSize_trimMatches _ _).trans ?_
    simp only [String.utf8ByteSize_append, hdash, utf8ByteSize_fnv8, hmarker, hrepo, maxChildName]
    generalize sanitizeDns1123 (if pvc.ns = policyNs then pvc.name else pvc.ns ++ "-" ++ pvc.name) =
      slug
    generalize sanitizeDns1123 repoName = rslug
    have hclip : ∀ b p r : Nat, b + p + r ≤ 43 → (clip base b).utf8ByteSize + 5 +
        (clip slug p).utf8ByteSize + 6 + (clip rslug r).utf8ByteSize + 1 + 8 ≤ 63 := by
      intro b p r h
      have hbase := utf8ByteSize_clip base b
      have hslug := utf8ByteSize_clip slug p
      have hrslug := utf8ByteSize_clip rslug r
      omega
    refine hclip _ _ _ ?_
    split <;> omega

theorem fanoutChildNameFor_size (base policyNs : String) (member : Option PvcTargetRef)
    (repo : Option RepositoryRef) :
    (fanoutChildNameFor base policyNs member repo).utf8ByteSize ≤ maxChildName := by
  have hmarker : repoMarker.utf8ByteSize = 6 := rfl
  cases member with
  | some pvc =>
    simp only [fanoutChildNameFor]
    exact memberChildName_size _ _ _ _
  | none =>
    cases repo with
    | none =>
      simp only [fanoutChildNameFor, Option.map_none]
      exact (utf8ByteSize_trimMatches _ _).trans (utf8ByteSize_clip _ _)
    | some r =>
      simp only [fanoutChildNameFor, Option.map_some]
      refine (tagged_size _ _ _ _ _ _).trans ?_
      simp only [utf8ByteSize_fnv8, hmarker, maxChildName]
      exact slug_budget (by decide)

theorem groupName_size (base ns : String) (sourceIndex : Nat) (repoKey : Option String) :
    (groupName base ns sourceIndex repoKey).utf8ByteSize ≤ maxChildName := by
  have hdash : "-".utf8ByteSize = 1 := rfl
  have hsuffix : "-grp".utf8ByteSize = 4 := rfl
  simp only [groupName]
  refine (utf8ByteSize_trimMatches _ _).trans ?_
  simp only [String.utf8ByteSize_append, utf8ByteSize_fnv8, hdash, hsuffix, maxChildName]
  have hbase := utf8ByteSize_clip base (63 - 4 - 8 - 1)
  omega

end Kopiur
