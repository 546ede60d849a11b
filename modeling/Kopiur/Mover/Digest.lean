import Kopiur.Lib.Base64
import Kopiur.Lib.Search
import Kopiur.Naming
import Mathlib.Data.List.Sort

/-!
# The digest of listed snapshot ids

A salted hash of every listed id, cut to a few bytes, sorted and packed. Asked
about an id, the digest answers whether the cut hash is among them: always
yes for a listed id, and yes for another one whose cut hash is the same.
-/

namespace Kopiur

open Lib

def digestBudgetBytes : Nat := 448 * 1024

def digestWidths : List Nat := [8, 6, 4]

def wordBytes (n : Nat) : List Nat := (List.range 8).map fun i => n / 256 ^ i % 256

def wordBytesBe (n : Nat) : List Nat := (wordBytes n).reverse

def saltedHash (salt : Nat) (id : String) : List Nat :=
  wordBytesBe ((wordBytes salt ++ (utf8Bytes id).map UInt8.toNat).foldl
    (fun h b => (h ^^^ b) * 0x100000001b3 % 2 ^ 64) 0xcbf29ce484222325)

def encodedLen (count width : Nat) : Nat := (count * width + 2) / 3 * 4

def digestWidth (count budgetBytes : Nat) : Option Nat :=
  digestWidths.find? fun w => encodedLen count w ≤ budgetBytes

inductive DigestAlgo
  | fnv1a64V1
  | unknown (raw : String)
deriving DecidableEq

structure SnapshotIdDigest where
  algo : DigestAlgo
  salt : Nat
  width : Nat
  count : Nat
  hashes : String
deriving DecidableEq

inductive DigestError
  | unknownAlgo (raw : String)
  | badWidth (width : Nat)
  | base64
  | lengthMismatch (bytes count width : Nat)
  | unsorted
  | malformed (reason : String)
deriving DecidableEq

structure DecodedDigest where
  salt : Nat
  width : Nat
  bytes : List Nat
deriving DecidableEq

def SnapshotIdDigest.build (ids : List String) (salt budgetBytes : Nat) :
    Option SnapshotIdDigest :=
  let full := ids.map (saltedHash salt)
  (digestWidth full.length budgetBytes).map fun width =>
    let packed := ((full.insertionSort (· ≤ ·)).map (List.take width)).flatten
    { algo := .fnv1a64V1
      salt
      width
      count := full.length
      hashes := String.ofList (Base64.encode packed) }

def sortedRecords (width : Nat) (bytes : List Nat) : Bool :=
  let rs := records width bytes
  (rs.zip rs.tail).all fun p => p.1 ≤ p.2

def SnapshotIdDigest.decode (d : SnapshotIdDigest) : Except DigestError DecodedDigest :=
  match d.algo with
  | .unknown raw => .error (.unknownAlgo raw)
  | .fnv1a64V1 =>
    if d.width ∉ digestWidths then .error (.badWidth d.width)
    else
      match Base64.decode d.hashes.toList with
      | none => .error .base64
      | some bytes =>
        if d.count * d.width ≠ bytes.length then
          .error (.lengthMismatch bytes.length d.count d.width)
        else if !sortedRecords d.width bytes then .error .unsorted
        else .ok { salt := d.salt, width := d.width, bytes }

namespace DecodedDigest

def len (d : DecodedDigest) : Nat := d.bytes.length / d.width

def contains (d : DecodedDigest) (id : String) : Bool :=
  bisect (recordAt d.width d.bytes) ((saltedHash d.salt id).take d.width) d.len 0 d.len

end DecodedDigest

inductive ListedIds
  | digest (d : SnapshotIdDigest)
  | invalid (reason : String)
deriving DecidableEq

def ListedIds.decode : ListedIds → Except DigestError DecodedDigest
  | .digest d => d.decode
  | .invalid reason => .error (.malformed reason)

theorem saltedHash_length (salt : Nat) (id : String) : (saltedHash salt id).length = 8 := by
  simp [saltedHash, wordBytesBe, wordBytes]

theorem saltedHash_lt {salt : Nat} {id : String} {b : Nat} (h : b ∈ saltedHash salt id) :
    b < 256 := by
  simp only [saltedHash, wordBytesBe, wordBytes, List.mem_reverse, List.mem_map] at h
  obtain ⟨i, -, rfl⟩ := h
  exact Nat.mod_lt _ (by decide)

theorem digestWidth_mem {count budget width : Nat} (h : digestWidth count budget = some width) :
    width ∈ digestWidths := List.mem_of_find?_eq_some h

theorem width_bounds {width : Nat} (h : width ∈ digestWidths) : 0 < width ∧ width ≤ 8 := by
  simp only [digestWidths, List.mem_cons, List.not_mem_nil, or_false] at h
  rcases h with rfl | rfl | rfl <;> decide

theorem zip_tail_of_pairwise {α : Type} {r : α → α → Prop} {l : List α} (h : l.Pairwise r) :
    ∀ p ∈ l.zip l.tail, r p.1 p.2 := by
  induction l with
  | nil => simp
  | cons a rest ih =>
    cases rest with
    | nil => simp
    | cons b rest =>
      intro p hp
      rw [List.tail_cons, List.zip_cons_cons] at hp
      rcases List.mem_cons.mp hp with rfl | hp
      · exact (List.pairwise_cons.mp h).1 b List.mem_cons_self
      · exact ih (List.pairwise_cons.mp h).2 p hp

theorem pairwise_of_zip_tail {α : Type} [Preorder α] {l : List α}
    (h : ∀ p ∈ l.zip l.tail, p.1 ≤ p.2) : l.Pairwise (· ≤ ·) := by
  induction l with
  | nil => exact .nil
  | cons a rest ih =>
    cases rest with
    | nil => exact List.pairwise_singleton _ _
    | cons b rest =>
      rw [List.tail_cons, List.zip_cons_cons] at h
      have htail := ih fun p hp => h p (List.mem_cons_of_mem _ hp)
      have hab : a ≤ b := h (a, b) List.mem_cons_self
      refine List.pairwise_cons.mpr ⟨fun c hc => ?_, htail⟩
      rcases List.mem_cons.mp hc with rfl | hc
      · exact hab
      · exact le_trans hab ((List.pairwise_cons.mp htail).1 c hc)

theorem sortedRecords_iff {width : Nat} {bytes : List Nat} :
    sortedRecords width bytes = true ↔ (records width bytes).Pairwise (· ≤ ·) := by
  rw [sortedRecords, List.all_eq_true]
  simp only [decide_eq_true_eq]
  exact ⟨pairwise_of_zip_tail, zip_tail_of_pairwise⟩

theorem contains_iff_mem_records {d : DecodedDigest}
    (hsorted : sortedRecords d.width d.bytes = true) (id : String) :
    d.contains id = true ↔ (saltedHash d.salt id).take d.width ∈ records d.width d.bytes := by
  have hpairwise := sortedRecords_iff.mp hsorted
  rw [records, List.pairwise_map] at hpairwise
  have hrecords : ∀ i j, i ≤ j → j < d.len →
      recordAt d.width d.bytes i ≤ recordAt d.width d.bytes j := by
    intro i j hij hj
    rcases hij.eq_or_lt with rfl | hlt
    · exact le_refl _
    · have hrange : ∀ k, k < d.len → k < (List.range (d.bytes.length / d.width)).length := by
        simp [DecodedDigest.len]
      have h := List.pairwise_iff_getElem.mp hpairwise i j (hrange i (hlt.trans hj)) (hrange j hj)
        hlt
      simp only [List.getElem_range] at h
      exact h
  rw [DecodedDigest.contains, bisect_iff hrecords (Nat.le_of_eq (Nat.sub_zero _)) (le_refl _)]
  simp [records, DecodedDigest.len]

def cutHashes (ids : List String) (salt width : Nat) : List (List Nat) :=
  ((ids.map (saltedHash salt)).insertionSort (· ≤ ·)).map (List.take width)

section Cut

variable {ids : List String} {salt width : Nat}

theorem mem_cutHashes {r : List Nat} :
    r ∈ cutHashes ids salt width ↔ ∃ id ∈ ids, (saltedHash salt id).take width = r := by
  simp [cutHashes, List.mem_insertionSort]

theorem cutHashes_length : (cutHashes ids salt width).length = ids.length := by
  simp [cutHashes]

theorem cutHashes_width (hwidth : width ≤ 8) {r : List Nat} (h : r ∈ cutHashes ids salt width) :
    r.length = width := by
  obtain ⟨id, -, rfl⟩ := mem_cutHashes.mp h
  rw [List.length_take, saltedHash_length]
  omega

theorem cutHashes_bytes : ∀ b ∈ (cutHashes ids salt width).flatten, b < 256 := by
  intro b hb
  obtain ⟨r, hr, hb⟩ := List.mem_flatten.mp hb
  obtain ⟨id, -, rfl⟩ := mem_cutHashes.mp hr
  exact saltedHash_lt (List.mem_of_mem_take hb)

theorem cutHashes_sorted : (cutHashes ids salt width).Pairwise (· ≤ ·) := by
  rw [cutHashes, List.pairwise_map]
  exact (List.pairwise_insertionSort _ _).imp fun h => take_le_take h width

theorem sortedRecords_cutHashes (hwidth : width ∈ digestWidths) :
    sortedRecords width (cutHashes ids salt width).flatten = true := by
  obtain ⟨hpos, hle⟩ := width_bounds hwidth
  rw [sortedRecords_iff, records_flatten hpos fun r hr => cutHashes_width hle hr]
  exact cutHashes_sorted

end Cut

theorem decode_build {ids : List String} {salt budget : Nat} {d : SnapshotIdDigest}
    (h : SnapshotIdDigest.build ids salt budget = some d) :
    digestWidth ids.length budget = some d.width ∧
      d.decode = .ok ⟨salt, d.width, (cutHashes ids salt d.width).flatten⟩ := by
  obtain ⟨width, hwidth, rfl⟩ := Option.map_eq_some_iff.mp h
  rw [List.length_map] at hwidth
  have hmem := digestWidth_mem hwidth
  obtain ⟨hpos, hle⟩ := width_bounds hmem
  have hrecords : ∀ r ∈ cutHashes ids salt width, r.length = width := fun _ => cutHashes_width hle
  refine ⟨hwidth, ?_⟩
  have hdecode := Base64.decode_encode (@cutHashes_bytes ids salt width)
  rw [cutHashes] at hdecode
  have hlen : ids.length * width = (cutHashes ids salt width).flatten.length := by
    rw [length_flatten_of_width hrecords, cutHashes_length]
  have hsorted := @sortedRecords_cutHashes ids salt width hmem
  rw [cutHashes] at hlen hsorted
  simp [SnapshotIdDigest.decode, hmem, hdecode, hlen, hsorted, cutHashes]

theorem contains_cutHashes {ids : List String} {salt width : Nat} (hwidth : width ∈ digestWidths)
    {id : String} :
    DecodedDigest.contains ⟨salt, width, (cutHashes ids salt width).flatten⟩ id = true ↔
      ∃ id' ∈ ids, (saltedHash salt id').take width = (saltedHash salt id).take width := by
  obtain ⟨hpos, hle⟩ := width_bounds hwidth
  rw [contains_iff_mem_records (sortedRecords_cutHashes hwidth),
    records_flatten hpos fun r hr => cutHashes_width hle hr, mem_cutHashes]

end Kopiur
