import Kopiur.Api.ChildNameBounds
import Kopiur.Api.Expand

/-!
# The cells of one minting

One cell for each member and repository, with a name that fits and ends in the
tag of what the cell is for.
-/

namespace Kopiur

open Lib

/-- What a cell is for: a member of a selector, and a repository. -/
abbrev CellPins := Option (Nat × PvcTargetRef) × Option RepositoryRef

namespace MintCell

def pins (c : MintCell) : CellPins :=
  (c.source.map fun s => (s.sourceIndex, s.target), c.repository)

def tag (base ns : String) (c : MintCell) : String :=
  fnv8 (tagInput base (c.source.map SnapshotSourceRef.target) (c.repository.map (repoKey · ns)))

def Fanned (c : MintCell) : Prop := c.source.isSome ∨ c.repository.isSome

instance (c : MintCell) : Decidable c.Fanned := inferInstanceAs (Decidable (_ ∨ _))

end MintCell

def memberPins : Option (List ExpandedMember) → List (Option (Nat × PvcTargetRef))
  | none => [none]
  | some members => members.map fun m => some (m.source.sourceIndex, m.source.target)

def repositoryPins (policy : SnapshotPolicy) : List (Option RepositoryRef) :=
  if isMultiRepo policy.spec then
    policy.spec.repositories.map fun r => some (normalizedRepositoryRef r policy.ns)
  else [none]

section Cells

variable {policy : SnapshotPolicy} {base : String} {matched : Nat → List PvcTargetRef}
  {members : Option (List ExpandedMember)} {c : MintCell}

theorem mintCells_pins (policy : SnapshotPolicy) (base : String)
    (members : Option (List ExpandedMember)) : (mintCells policy base members).map MintCell.pins =
      (memberPins members).flatMap fun m => (repositoryPins policy).map fun r => (m, r) := by
  cases hmulti : isMultiRepo policy.spec with
  | false =>
    cases members with
    | none => simp [mintCells, repositoryPins, memberPins, hmulti, MintCell.pins]
    | some members =>
      simp only [mintCells, repositoryPins, memberPins, hmulti, Bool.false_eq_true, if_false,
        List.map_map, List.flatMap_map, List.map_cons, List.map_nil]
      exact List.map_eq_flatMap
  | true =>
    cases members with
    | none => simp [mintCells, repositoryPins, memberPins, hmulti, MintCell.pins]
    | some members =>
      simp only [mintCells, repositoryPins, memberPins, hmulti, if_true, List.map_flatMap,
        List.flatMap_map, List.map_map]
      rfl

theorem fanoutChildNameFor_normalized (base ns : String) (pvc : Option PvcTargetRef)
    (r : RepositoryRef) :
    fanoutChildNameFor base ns pvc (some (normalizedRepositoryRef r ns)) =
      fanoutChildNameFor base ns pvc (some r) := by
  have hname : (normalizedRepositoryRef r ns).name = r.name := by
    unfold normalizedRepositoryRef
    cases r.kind <;> rfl
  simp only [fanoutChildNameFor, Option.map_some, repoKey_normalized, hname]

theorem mintCells_name (h : expandSources policy base matched = .ok members)
    (hc : c ∈ mintCells policy base members) :
    (c.source = none ∧ c.repository = none ∧ c.name = base) ∨
      (c.Fanned ∧ c.name = fanoutChildNameFor base policy.ns
        (c.source.map SnapshotSourceRef.target) c.repository) := by
  cases hmulti : isMultiRepo policy.spec with
  | false =>
    cases members with
    | none =>
      obtain rfl : c = ⟨base, none, none⟩ := by simpa [mintCells, hmulti] using hc
      exact .inl ⟨rfl, rfl, rfl⟩
    | some members =>
      obtain ⟨kept, rfl, -, -⟩ := expandSources_spec h
      simp only [mintCells, hmulti, Bool.false_eq_true, if_false, List.map_map] at hc
      obtain ⟨e, -, rfl⟩ := List.mem_map.mp hc
      exact .inr ⟨.inl rfl, rfl⟩
  | true =>
    cases members with
    | none =>
      simp only [mintCells, hmulti, if_true] at hc
      obtain ⟨r, -, rfl⟩ := List.mem_map.mp hc
      exact .inr ⟨.inr rfl, (fanoutChildNameFor_normalized base policy.ns none r).symm⟩
    | some members =>
      simp only [mintCells, hmulti, if_true, List.mem_flatMap, List.mem_map] at hc
      obtain ⟨m, -, r, -, rfl⟩ := hc
      exact .inr ⟨.inl rfl,
        (fanoutChildNameFor_normalized base policy.ns (some m.source.target) r).symm⟩

theorem memberPins_nodup (h : expandSources policy base matched = .ok members) :
    (memberPins members).Nodup := by
  cases members with
  | none => exact List.nodup_singleton none
  | some members =>
    obtain ⟨kept, rfl, hpaths, hkept⟩ := expandSources_spec h
    rw [memberPins, List.map_map]
    refine hpaths.of_map.map_on fun x hx y hy hxy => ?_
    simp only [Function.comp, SelectorMatch.member, Option.some.injEq, Prod.mk.injEq] at hxy
    exact selectorMatches_ext ((hkept x).mp hx) ((hkept y).mp hy) hxy.1 hxy.2

theorem mintCells_count (h : expandSources policy base matched = .ok members)
    (hrepos : (repositoryPins policy).Nodup) {m : Option (Nat × PvcTargetRef)}
    {r : Option RepositoryRef} (hm : m ∈ memberPins members) (hr : r ∈ repositoryPins policy) :
    ((mintCells policy base members).map MintCell.pins).count (m, r) = 1 := by
  rw [mintCells_pins]
  refine List.count_eq_one_of_mem ?_ (List.mem_flatMap.mpr ⟨m, hm, List.mem_map.mpr ⟨r, hr, rfl⟩⟩)
  refine List.nodup_flatMap.mpr ⟨fun a _ => hrepos.map fun _ _ hab => (Prod.mk.inj hab).2, ?_⟩
  refine (memberPins_nodup h).imp fun hne => ?_
  change List.Disjoint _ _
  rw [List.disjoint_left]
  rintro x hx hx'
  refine hne ?_
  obtain ⟨_, _, rfl⟩ := List.mem_map.mp hx
  obtain ⟨_, _, heq⟩ := List.mem_map.mp hx'
  exact (Prod.mk.inj heq).1.symm

theorem mintCells_tagged (h : expandSources policy base matched = .ok members)
    (hc : c ∈ mintCells policy base members) (hfanned : c.Fanned) :
    c.name.utf8ByteSize ≤ maxChildName ∧
      ∃ x, c.name.toList = x ++ '-' :: (c.tag base policy.ns).toList := by
  rcases mintCells_name h hc with ⟨hsource, hrepository, -⟩ | ⟨-, hname⟩
  · rcases hfanned with hsome | hsome
    · rw [hsource] at hsome
      cases hsome
    · rw [hrepository] at hsome
      cases hsome
  · rw [hname]
    refine ⟨fanoutChildNameFor_size .., fanoutChildNameFor_tagged base policy.ns ?_⟩
    rwa [Option.isSome_map]

theorem mintCells_bare (h : expandSources policy base matched = .ok members)
    (hc : c ∈ mintCells policy base members) (hbare : ¬ c.Fanned) : c.name = base := by
  rcases mintCells_name h hc with ⟨-, -, hname⟩ | ⟨hfanned, -⟩
  · exact hname
  · exact absurd hfanned hbare

end Cells

/-- A minting has one cell for each member and repository. The name of a cell
that names either fits in 63 bytes and ends in its tag, so that equal names have
equal tags; the bare child is named like the base. -/
theorem mint_cells_cover (policy : SnapshotPolicy) (base : String)
    (matched : Nat → List PvcTargetRef) (members : Option (List ExpandedMember))
    (h : expandSources policy base matched = .ok members) :
    (mintCells policy base members).map MintCell.pins =
        ((memberPins members).flatMap fun m => (repositoryPins policy).map fun r => (m, r)) ∧
      ((repositoryPins policy).Nodup → ∀ m ∈ memberPins members, ∀ r ∈ repositoryPins policy,
        ((mintCells policy base members).map MintCell.pins).count (m, r) = 1) ∧
      (∀ c ∈ mintCells policy base members, if c.Fanned then
        c.name.utf8ByteSize ≤ 63 ∧ ∃ x, c.name.toList = x ++ '-' :: (c.tag base policy.ns).toList
        else c.name = base) ∧
      ∀ (policy' : SnapshotPolicy) (base' : String) (matched' : Nat → List PvcTargetRef)
        (members' : Option (List ExpandedMember)),
        expandSources policy' base' matched' = .ok members' →
        ∀ c ∈ mintCells policy base members, ∀ c' ∈ mintCells policy' base' members',
          c.Fanned → c'.Fanned → c.name = c'.name → c.tag base policy.ns = c'.tag base' policy'.ns := by
  refine ⟨mintCells_pins policy base members, ?_, ?_, ?_⟩
  · intro hrepos m hm r hr
    exact mintCells_count h hrepos hm hr
  · intro c hc
    split
    · next hfanned => exact mintCells_tagged h hc hfanned
    · next hbare => exact mintCells_bare h hc hbare
  · intro policy' base' matched' members' h' c hc c' hc' hfanned hfanned' hname
    obtain ⟨-, x, hx⟩ := mintCells_tagged h hc hfanned
    obtain ⟨-, x', hx'⟩ := mintCells_tagged h' hc' hfanned'
    rw [hname, hx'] at hx
    exact String.toList_inj.mp
      (append_cons_inj_right (dash_not_mem_fnv8 _) (dash_not_mem_fnv8 _) hx).2.symm

/-- Two PVCs of one selector. -/
theorem mint_cells_cover_pair :
    let policy := selectorPolicy none
    let members : Option (List ExpandedMember) :=
      some [⟨"nightly-pvc-data-0-0bd2626a", ⟨0, ⟨"db", "data-0"⟩, none⟩⟩,
        ⟨"nightly-pvc-data-1-0bd2641d", ⟨0, ⟨"db", "data-1"⟩, none⟩⟩]
    ((mintCells policy "nightly" members).map MintCell.pins).count
      (some (0, ⟨"db", "data-1"⟩), none) = 1 := by
  intro policy members
  have hexpand : expandSources policy "nightly" (fun _ => [⟨"db", "data-0"⟩, ⟨"db", "data-1"⟩]) =
      .ok members := by decide
  exact (mint_cells_cover policy "nightly" _ members hexpand).2.1 (by decide) _ (by decide) _
    (by decide)

/-- Without a selector and with one repository, the child is named like the
base, however long that is. -/
theorem bare_child_name_unbounded :
    let policy : SnapshotPolicy := 
      { metadata := { name := some "app", ns := some "db" }, spec := { sources := [] } }
    let base := "a-schedule-whose-name-takes-up-almost-all-of-it-20260805020000-64"
    expandSources policy base (fun _ => []) = .ok none ∧
      ∃ c ∈ mintCells policy base none, ¬ c.name.utf8ByteSize ≤ 63 := by
  intro policy base
  exact ⟨by decide, ⟨base, none, none⟩, by decide, by decide⟩

end Kopiur
