import Kopiur.Api.Resources
import Kopiur.Lib.Text
import Mathlib.Data.List.TakeWhile

/-!
# Generated names

Hashes and length caps of the names the controller derives.
-/

namespace Kopiur

open Lib

def utf8Bytes (s : String) : List UInt8 := s.toList.flatMap String.utf8EncodeChar

def fnv1a (s : String) : Nat :=
  (utf8Bytes s).foldl (fun h b => (h ^^^ b.toNat) * 0x100000001b3 % 2 ^ 64) 0xcbf29ce484222325

def hexDigit (n : Nat) : Char :=
  if n < 10 then Char.ofNat ('0'.toNat + n) else Char.ofNat ('a'.toNat + (n - 10))

/-- The low `width` hexadecimal digits, zero-padded. -/
def hex (width n : Nat) : String :=
  String.ofList ((List.range width).reverse.map fun i => hexDigit (n / 16 ^ i % 16))

def shortHash (s : String) : String := hex 8 (fnv1a s % 2 ^ 32)

/-- A text as an error quotes it. -/
def debugStr (s : String) : String :=
  let char := fun c : Char =>
    if c = '"' then "\\\""
    else if c = '\\' then "\\\\"
    else if c = '\t' then "\\t"
    else if c = '\n' then "\\n"
    else if c = '\r' then "\\r"
    else if c.toNat = 0 then "\\0"
    else if c.toNat < 0x20 || c.toNat = 0x7F then
      "\\u\x7b" ++ String.ofList (Nat.toDigits 16 c.toNat) ++ "\x7d"
    else String.singleton c
  "\"" ++ String.join (s.toList.map char) ++ "\""

def trimEndMatches (p : Char → Bool) (l : List Char) : List Char :=
  (l.reverse.dropWhile p).reverse

theorem trimEndMatches_append_of_forall {p : Char → Bool} {l w : List Char}
    (hw : ∀ c ∈ w, p c = true) : trimEndMatches p (l ++ w) = trimEndMatches p l := by
  rw [trimEndMatches, List.reverse_append, List.dropWhile_append_of_pos (by simpa using hw)]
  rfl

theorem exists_append_trimEndMatches (p : Char → Bool) (l : List Char) :
    ∃ w, (∀ c ∈ w, p c = true) ∧ l = trimEndMatches p l ++ w := by
  refine ⟨(l.reverse.takeWhile p).reverse, fun c hc => ?_, ?_⟩
  · exact List.mem_takeWhile_imp (List.mem_reverse.mp hc)
  · rw [trimEndMatches, ← List.reverse_append, List.takeWhile_append_dropWhile,
      List.reverse_reverse]

theorem trimEndMatches_eq_self {p : Char → Bool} {l : List Char}
    (h : ∃ c ∈ l.getLast?, p c = false) : trimEndMatches p l = l := by
  obtain ⟨c, hc, hp⟩ := h
  rw [← List.head?_reverse] at hc
  rw [trimEndMatches]
  cases hr : l.reverse with
  | nil => rw [List.reverse_eq_nil_iff.mp hr]; rfl
  | cons d rest =>
    rw [hr, List.head?_cons, Option.mem_some_iff] at hc
    rw [List.dropWhile_cons_of_neg (by rw [hc, hp]; decide), ← hr, List.reverse_reverse]

def jobNameMax : Nat := 57

def cappedJobName (full : String) : String :=
  if full.utf8ByteSize ≤ jobNameMax then full
  else
    -- Sixteen digits and the joining dash.
    let prefixChars := full.toList.take (jobNameMax - 17)
    String.ofList (trimEndMatches (fun c => c == '-' || c == '.') prefixChars) ++ "-" ++
      hex 16 (fnv1a full)

def legacyJobName (legacy current : String) : Option String :=
  if legacy ≠ current ∧ legacy.utf8ByteSize ≤ 63 then some legacy else none

def cappedName (full : String) : String :=
  if full.utf8ByteSize ≤ 63 then full
  else
    String.ofList (trimEndMatches (fun c => c == '-') (full.toList.take 46)) ++ "-" ++
      hex 16 (fnv1a full)

def pinnedRepoKey (r : RepositoryRef) : String :=
  match r.kind with
  | .repository => "repository:" ++ r.ns.getD "" ++ "/" ++ r.name
  | .clusterRepository => "clusterrepository:" ++ r.name

/-- The label form of `pinnedRepoKey`. -/
def repoLabel (r : RepositoryRef) : String :=
  String.ofList (r.name.toList.take 40) ++ "-" ++ shortHash (pinnedRepoKey r)

def jobKey (ns name : String) : String := ns ++ "/" ++ name

theorem repoKey_normalized (r : RepositoryRef) (ns ns' : String) :
    repoKey (normalizedRepositoryRef r ns) ns' = repoKey r ns := by
  unfold repoKey normalizedRepositoryRef
  cases r.kind <;> rfl

theorem repoKey_inj {r r' : RepositoryRef} {ns ns' : String}
    (hr : '/' ∉ (r.ns.getD ns).toList) (hr' : '/' ∉ (r'.ns.getD ns').toList)
    (h : repoKey r ns = repoKey r' ns') :
    normalizedRepositoryRef r ns = normalizedRepositoryRef r' ns' := by
  unfold repoKey at h
  unfold normalizedRepositoryRef
  cases hk : r.kind <;> cases hk' : r'.kind <;> simp only [hk, hk'] at h ⊢
  · simp only [String.append_assoc] at h
    have hrest := (String.append_right_inj _).mp h
    rw [← String.append_assoc, ← String.append_assoc] at hrest
    obtain ⟨hns, hname⟩ := cut_first (c := '/') (by simp) hr hr' hrest
    rw [hns, hname]
  · simp [← String.toList_inj] at h
  · simp [← String.toList_inj] at h
  · rw [(String.append_right_inj _).mp h]

end Kopiur
