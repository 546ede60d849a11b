import Kopiur.Mover.Digest

/-!
# What any digest answers

A digest that was built takes the widest hashes its budget allows and knows
every id it was built from. Whatever stands in a digest that decodes, asking it
about an id is looking for the id's cut hash among the stored ones.
-/

namespace Kopiur

open Lib

theorem decode_eq_ok {d : SnapshotIdDigest} {decoded : DecodedDigest}
    (h : d.decode = .ok decoded) : sortedRecords decoded.width decoded.bytes = true := by
  unfold SnapshotIdDigest.decode at h
  cases halgo : d.algo with
  | unknown raw => simp [halgo] at h
  | fnv1a64V1 =>
    simp only [halgo] at h
    split at h
    · cases h
    · split at h
      · cases h
      · split at h
        · cases h
        · split at h
          · cases h
          · next hsorted =>
            obtain rfl := Except.ok.inj h
            simpa using hsorted

theorem digestWidth_widest {count budget width : Nat} (h : digestWidth count budget = some width) :
    encodedLen count width ≤ budget ∧
      ∀ w ∈ digestWidths, width < w → budget < encodedLen count w := by
  obtain ⟨hfits, before, after, hwidths, hbefore⟩ := List.find?_eq_some_iff_append.mp h
  refine ⟨of_decide_eq_true hfits, fun w hw hlt => ?_⟩
  have hsorted : digestWidths.Pairwise (· > ·) := by decide
  rw [hwidths] at hw hsorted
  rcases List.mem_append.mp hw with hw | hw
  · simpa using hbefore w hw
  · rw [List.pairwise_append, List.pairwise_cons] at hsorted
    rcases List.mem_cons.mp hw with rfl | hw
    · exact absurd hlt (lt_irrefl _)
    · exact absurd hlt (lt_asymm (hsorted.2.1.1 w hw))

theorem utf8ByteSize_build {ids : List String} {salt budget : Nat} {d : SnapshotIdDigest}
    (h : SnapshotIdDigest.build ids salt budget = some d) :
    d.hashes.utf8ByteSize = encodedLen ids.length d.width := by
  obtain ⟨width, hwidth, rfl⟩ := Option.map_eq_some_iff.mp h
  rw [List.length_map] at hwidth
  obtain ⟨-, hle⟩ := width_bounds (digestWidth_mem hwidth)
  have hrecords : ∀ r ∈ cutHashes ids salt width, r.length = width := fun _ => cutHashes_width hle
  have hsize := utf8ByteSize_of_narrow (Base64.utf8Size_of_mem_encode 
    (@cutHashes_bytes ids salt width))
  rw [Base64.length_encode, length_flatten_of_width hrecords, cutHashes_length] at hsize
  exact hsize

/-- A digest that is built fits its budget with the widest hashes that do, and
answers yes for every id it was built from; a digest that decodes answers yes
just for the ids whose cut hash it stores. -/
theorem digest_answers (ids : List String) (salt budget : Nat) :
    (∀ d, SnapshotIdDigest.build ids salt budget = some d →
      d.hashes.utf8ByteSize ≤ budget ∧ d.width ∈ digestWidths ∧
      (∀ w ∈ digestWidths, d.width < w → budget < encodedLen ids.length w) ∧
      ∃ decoded, d.decode = .ok decoded ∧ decoded.len = ids.length ∧
        ∀ id ∈ ids, decoded.contains id = true) ∧
    ∀ (d : SnapshotIdDigest) (decoded : DecodedDigest), d.decode = .ok decoded →
      ∀ id, decoded.contains id = true ↔
        (saltedHash decoded.salt id).take decoded.width ∈ records decoded.width decoded.bytes := by
  refine ⟨fun d hbuild => ?_, fun d decoded hdecode id =>
    contains_iff_mem_records (decode_eq_ok hdecode) id⟩
  obtain ⟨hwidth, hdecode⟩ := decode_build hbuild
  obtain ⟨hfits, hwidest⟩ := digestWidth_widest hwidth
  have hmem := digestWidth_mem hwidth
  obtain ⟨hpos, hle⟩ := width_bounds hmem
  refine ⟨utf8ByteSize_build hbuild ▸ hfits, hmem, hwidest, _, hdecode, ?_, fun id hid =>
    (contains_cutHashes hmem).mpr ⟨id, hid, rfl⟩⟩
  rw [DecodedDigest.len, length_flatten_of_width fun r hr => cutHashes_width hle hr,
    cutHashes_length, Nat.mul_div_cancel _ hpos]

/-- Two ids under a budget that only hashes of four bytes fit. -/
theorem digest_answers_narrow :
    ∃ d, SnapshotIdDigest.build ["k1", "k2"] 7 12 = some d ∧ d.width = 4 ∧
      ∃ decoded, d.decode = .ok decoded ∧ decoded.contains "k1" = true ∧
        ((saltedHash decoded.salt "k3").take decoded.width ∈ records decoded.width decoded.bytes ↔
          decoded.contains "k3" = true) := by
  obtain ⟨d, hbuild, hwidth⟩ : ∃ d, SnapshotIdDigest.build ["k1", "k2"] 7 12 = some d ∧
      d.width = 4 := ⟨_, rfl, rfl⟩
  obtain ⟨hbuilt, hanswers⟩ := digest_answers ["k1", "k2"] 7 12
  obtain ⟨-, -, -, decoded, hdecode, -, hlisted⟩ := hbuilt d hbuild
  exact ⟨d, hbuild, hwidth, decoded, hdecode, hlisted "k1" (by decide),
    (hanswers d decoded hdecode "k3").symm⟩

end Kopiur
