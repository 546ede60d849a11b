import Mathlib.Data.List.Dedup
import Kopiur.Controller.VerificationRuns
import Kopiur.Lib.Results

/-!
# Verification members and backup members

Verification derives its members from the policy on its own. For every expansion
of the policy they are the members that are backed up, by the kopia source path
each records; two paths with one tag are refused.
-/

namespace Kopiur

def ExpandedMember.path (policy : SnapshotPolicy) (m : ExpandedMember) : Option String :=
  policy.spec.sources[m.source.sourceIndex]?.map fun s => s.memberPath m.source.target

section
variable {policy : SnapshotPolicy} {baseName : String} {matched : Nat → List PvcTargetRef}

theorem SelectorMatch.member_path {e : SelectorMatch} (he : e ∈ selectorMatches policy matched) :
    (e.member policy baseName matched).path policy = some e.path := by
  rw [ExpandedMember.path, e.path_eq]
  have hsource := (mem_selectorMatches.mp he).1
  exact congrArg (Option.map fun s => s.memberPath e.target) hsource

theorem paths_of_kept {kept : List SelectorMatch}
    (hkept : ∀ e ∈ kept, e ∈ selectorMatches policy matched) :
    (kept.map (SelectorMatch.member policy baseName matched)).map (ExpandedMember.path policy) =
      (kept.map SelectorMatch.path).map some := by
  rw [List.map_map, List.map_map]
  exact List.map_congr_left fun e he => SelectorMatch.member_path (hkept e he)

end

theorem tagMembers_of_nodup {paths : List String} {byTag : List (String × String)}
    (hnodup : (paths.map memberTag).Nodup)
    (hfree : ∀ p ∈ paths, byTag.lookup (memberTag p) = none) :
    tagMembers memberTag paths byTag = .ok (paths.map taggedMember) := by
  induction paths generalizing byTag with
  | nil => rfl
  | cons path rest ih =>
    rw [List.map_cons, List.nodup_cons] at hnodup
    have hrest : ∀ p ∈ rest,
        ((memberTag path, path) :: byTag).lookup (memberTag p) = none := by
      intro p hp
      have hne : memberTag p ≠ memberTag path :=
        fun heq => hnodup.1 (heq ▸ List.mem_map_of_mem hp)
      rw [List.lookup_cons, beq_false_of_ne hne]
      exact hfree p (List.mem_cons_of_mem _ hp)
    rw [tagMembers, hfree path List.mem_cons_self]
    dsimp only
    rw [ih hnodup.2 hrest]
    rfl

theorem tagMembers_error {paths : List String} (hdup : ¬ (paths.map memberTag).Nodup) :
    ∃ e, tagMembers memberTag paths [] = .error e := by
  cases h : tagMembers memberTag paths [] with
  | ok members => exact absurd (tagMembers_ok h).2.1 hdup
  | error e => exact ⟨e, rfl⟩

def verifyPaths (policy : SnapshotPolicy) (matched : Nat → List PvcTargetRef) : List String :=
  ((selectorMatches policy matched).map SelectorMatch.path).reverse.dedup.reverse

theorem nodup_verifyPaths (policy : SnapshotPolicy) (matched : Nat → List PvcTargetRef) :
    (verifyPaths policy matched).Nodup :=
  List.nodup_reverse.mpr (List.nodup_dedup _)

theorem mem_verifyPaths {policy : SnapshotPolicy} {matched : Nat → List PvcTargetRef} {p : String} :
    p ∈ verifyPaths policy matched ↔ ∃ e ∈ selectorMatches policy matched, e.path = p := by
  simp [verifyPaths]

theorem verifyPaths_perm {policy : SnapshotPolicy} {matched : Nat → List PvcTargetRef}
    {kept : List SelectorMatch} (hdistinct : (kept.map SelectorMatch.path).Nodup)
    (hkept : ∀ e, e ∈ kept ↔ e ∈ selectorMatches policy matched) :
    (verifyPaths policy matched).Perm (kept.map SelectorMatch.path) := by
  refine (List.perm_ext_iff_of_nodup (nodup_verifyPaths _ _) hdistinct).mpr fun p => ?_
  rw [mem_verifyPaths, List.mem_map]
  exact exists_congr fun e => and_congr_left' (hkept e).symm

theorem verified_sourcePath (paths : List String) :
    (paths.map taggedMember).map VerifyMember.sourcePath = paths.map some := by
  rw [List.map_map]
  rfl

theorem verified_memberTag (paths : List String) :
    (paths.map taggedMember).map VerifyMember.memberTag = (paths.map memberTag).map some := by
  rw [List.map_map, List.map_map]
  rfl

theorem tags_some (paths : List String) :
    (paths.map some).map (Option.map memberTag) = (paths.map memberTag).map some := by
  rw [List.map_map, List.map_map]
  rfl

theorem nodup_map_some {l : List String} : (l.map some).Nodup ↔ l.Nodup :=
  List.nodup_map_iff (Option.some_injective _)

theorem verifyMembers_of_selector {policy : VerifiedPolicy} {matched : Nat → List PvcTargetRef}
    (hsel : (policy.spec.sources.any fun s => s.pvcSelector.isSome) = true) :
    verifyMembers policy matched =
      tagMembers memberTag (verifyPaths policy.toSnapshotPolicy matched) [] := by
  simp only [verifyMembers, hsel, Bool.not_true, Bool.false_eq_true, if_false, verifyPaths]

/-- For every expansion of a policy, its members are verified under exactly the
kopia source paths they are backed up under, each once and with a tag of its own;
where two of the paths have one tag, verification is refused. A policy that does
not expand has one member, verified under the path of its first source. -/
theorem verifyMembers_mirror (policy : VerifiedPolicy) (baseName : String)
    (matched : Nat → List PvcTargetRef) (expansion : Option (List ExpandedMember))
    (h : expandSources policy.toSnapshotPolicy baseName matched = .ok expansion) :
    match expansion with
    | none => verifyMembers policy matched = .ok [{}]
    | some members =>
      let paths := members.map (ExpandedMember.path policy.toSnapshotPolicy)
      paths.Nodup ∧
      (∀ m ∈ members, ∃ p source, m.path policy.toSnapshotPolicy = some p ∧
        policy.spec.sources[m.source.sourceIndex]? = some source ∧
        (source.IsSelector →
          identitySourcePath policy.toSnapshotPolicy (some m.source) = .ok (some p))) ∧
      ((paths.map (Option.map memberTag)).Nodup →
        ∃ verified, verifyMembers policy matched = .ok verified ∧
          (verified.map VerifyMember.sourcePath).Perm paths ∧
          (∀ v ∈ verified, v.memberTag = v.sourcePath.map memberTag) ∧
          (verified.map VerifyMember.memberTag).Nodup) ∧
      (¬ (paths.map (Option.map memberTag)).Nodup →
        ∃ e, verifyMembers policy matched = .error e) := by
  cases expansion with
  | none =>
    unfold expandSources at h
    split at h
    · next hnone => exact if_pos hnone
    · obtain ⟨_, _, ⟨⟩⟩ := Lib.bind_eq_ok.mp h
  | some members =>
    dsimp only
    obtain ⟨kept, rfl, hdistinct, hkept⟩ := expandSources_spec h
    have hperm := verifyPaths_perm hdistinct hkept
    have htags := (hperm.map memberTag).nodup_iff
    rw [paths_of_kept fun e he => (hkept e).mp he, tags_some, nodup_map_some, nodup_map_some,
      verifyMembers_of_selector (selector_of_expansion h)]
    refine ⟨hdistinct, ?_, fun hnodup => ?_, fun hdup => tagMembers_error fun hn => hdup ?_⟩
    · intro m hm
      obtain ⟨e, he, rfl⟩ := List.mem_map.mp hm
      have hmatch := (hkept e).mp he
      have hsource := (mem_selectorMatches.mp hmatch).1
      refine ⟨e.path, e.source, SelectorMatch.member_path hmatch, hsource, fun hsel => ?_⟩
      rw [e.path_eq]
      exact identitySourcePath_member hsource hsel
    · have hverify := htags.mpr hnodup
      refine ⟨_, tagMembers_of_nodup hverify fun _ _ => rfl, ?_, ?_, ?_⟩
      · rw [verified_sourcePath]
        exact hperm.map some
      · intro v hv
        obtain ⟨p, -, rfl⟩ := List.mem_map.mp hv
        rfl
      · rw [verified_memberTag, nodup_map_some]
        exact hverify
    · exact htags.mp hn

theorem verifyMembers_mirror_pair :
    let policy : VerifiedPolicy := { selectorPolicy none with }
    let matched : Nat → List PvcTargetRef := fun _ => [⟨"db", "data-0"⟩, ⟨"db", "data-1"⟩]
    ∃ verified, verifyMembers policy matched = .ok verified ∧
      (verified.map VerifyMember.sourcePath).Perm [some "/pvc/data-0", some "/pvc/data-1"] := by
  intro policy matched
  have hexpand : expandSources policy.toSnapshotPolicy "nightly" matched =
      .ok (some [⟨"nightly-pvc-data-0-0bd2626a", ⟨0, ⟨"db", "data-0"⟩, none⟩⟩,
        ⟨"nightly-pvc-data-1-0bd2641d", ⟨0, ⟨"db", "data-1"⟩, none⟩⟩]) := by decide
  obtain ⟨-, -, hverified, -⟩ := verifyMembers_mirror policy "nightly" matched _ hexpand
  obtain ⟨verified, hok, hperm, -⟩ := hverified (by decide)
  exact ⟨verified, hok, hperm⟩

end Kopiur
