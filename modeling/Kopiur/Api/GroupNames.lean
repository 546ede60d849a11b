import Kopiur.Api.MintedCells

/-!
# Names of group snapshots

A group snapshot is named after the invocation, cut to fit, and a tag over its
namespace, source and repository. The tag does not cover the invocation.
-/

namespace Kopiur

open Lib

/-- The base name of an invocation: it starts with the name of a schedule or a
policy. -/
structure Invocation where
  base : String
  head : ∃ c ∈ base.toList.head?, c ≠ '-'

/-- What a group snapshot is taken of: one source, in one namespace, for one
repository. -/
@[ext] structure GroupCell where
  ns : String
  sourceIndex : Nat
  repoKey : Option String
  valid : '#' ∉ ns.toList

namespace GroupCell

def framed (g : GroupCell) : String :=
  match g.repoKey with
  | none => g.ns ++ "#" ++ toString g.sourceIndex
  | some k => g.ns ++ "#" ++ toString g.sourceIndex ++ "#" ++ k

def name (base : String) (g : GroupCell) : String := groupName base g.ns g.sourceIndex g.repoKey

def baseRoom : Nat := 50

theorem hash_not_mem_repr (n : Nat) : '#' ∉ (toString n).toList := by
  intro h
  have hdigit : ('#').isDigit = true := by
    rw [show toString n = n.repr from rfl, Nat.repr, String.toList_ofList] at h
    exact Nat.isDigit_of_mem_toDigits (by decide) (by decide) h
  revert hdigit
  decide

theorem framed_inj {g g' : GroupCell} (h : g.framed = g'.framed) : g = g' := by
  obtain ⟨ns, i, k, hns⟩ := g
  obtain ⟨ns', i', k', hns'⟩ := g'
  have hrepr : ∀ {m n : Nat}, toString m = toString n → m = n :=
    fun h => Int.ofNat.inj (int_repr_inj h)
  -- A second hash tells a pinned cell from an unpinned one.
  have hpinned : ∀ {m n : Nat} {k : String}, toString m ≠ toString n ++ "#" ++ k := by
    intro m n k h
    have hmem := hash_not_mem_repr m
    rw [h] at hmem
    simp at hmem
  cases k with
  | none =>
    cases k' with
    | none =>
      obtain ⟨rfl, hi⟩ := cut_first rfl hns hns' h
      exact GroupCell.ext rfl (hrepr hi) rfl
    | some k' =>
      have hframed : ns ++ "#" ++ toString i = ns' ++ "#" ++ (toString i' ++ "#" ++ k') := by
        simpa [framed, String.append_assoc] using h
      exact absurd (cut_first rfl hns hns' hframed).2 hpinned
  | some k =>
    cases k' with
    | none =>
      have hframed : ns ++ "#" ++ (toString i ++ "#" ++ k) = ns' ++ "#" ++ toString i' := by
        simpa [framed, String.append_assoc] using h
      exact absurd (cut_first rfl hns hns' hframed).2.symm hpinned
    | some k' =>
      have hframed : ns ++ "#" ++ (toString i ++ "#" ++ k) =
          ns' ++ "#" ++ (toString i' ++ "#" ++ k') := by
        simpa [framed, String.append_assoc] using h
      obtain ⟨rfl, hrest⟩ := cut_first rfl hns hns' hframed
      obtain ⟨hi, rfl⟩ := cut_first rfl (hash_not_mem_repr i) (hash_not_mem_repr i') hrest
      exact GroupCell.ext rfl (hrepr hi) rfl

end GroupCell

section Names

variable {a b : Invocation} {g g' : GroupCell}

def Invocation.kept (a : Invocation) : String := clip a.base GroupCell.baseRoom

theorem Invocation.kept_head (a : Invocation) : ∃ c ∈ a.kept.toList.head?, c ≠ '-' := by
  obtain ⟨c, hc, hdash⟩ := a.head
  refine ⟨c, ?_, hdash⟩
  obtain ⟨rest, hrest⟩ : ∃ rest, a.base.toList = c :: rest := by
    cases hl : a.base.toList with
    | nil => simp [hl] at hc
    | cons d rest =>
      rw [hl, List.head?_cons, Option.mem_some_iff] at hc
      exact ⟨rest, by rw [hc]⟩
  unfold kept clip
  split
  · exact hc
  · have hfits : c.utf8Size ≤ GroupCell.baseRoom := c.utf8Size_le_four.trans (by decide)
    rw [String.toList_ofList, hrest, clipChars, if_pos hfits]
    rfl

theorem GroupCell.name_toList (a : Invocation) (g : GroupCell) :
    (g.name a.base).toList = a.kept.toList ++ ('-' :: ((fnv8 g.framed).toList ++ "-grp".toList)) := by
  have hname : g.name a.base =
      trimMatches '-' (a.kept ++ "-" ++ fnv8 g.framed ++ "-grp") := by
    simp only [GroupCell.name, groupName, utf8ByteSize_fnv8, GroupCell.framed]
    rfl
  obtain ⟨c, hc, hdash⟩ := a.kept_head
  have hne : a.kept.toList ≠ [] := by
    intro hnil
    rw [hnil] at hc
    cases hc
  have hlist : (a.kept ++ "-" ++ fnv8 g.framed ++ "-grp").toList =
      a.kept.toList ++ ('-' :: ((fnv8 g.framed).toList ++ "-grp".toList)) := by simp
  rw [hname, trimMatches_eq_self, hlist]
  · rw [hlist, List.head?_append_of_ne_nil _ hne, show a.kept.toList.head? = some c from hc]
    simpa using hdash
  · have hend : (a.kept ++ "-" ++ fnv8 g.framed ++ "-grp").toList =
        (a.kept.toList ++ ('-' :: ((fnv8 g.framed).toList ++ ['-', 'g', 'r']))) ++ ['p'] := by
      simp
    rw [hend, List.getLast?_concat]
    decide

theorem groupName_eq_iff : g.name a.base = g'.name b.base ↔
    a.kept = b.kept ∧ fnv8 g.framed = fnv8 g'.framed := by
  rw [← String.toList_inj, GroupCell.name_toList, GroupCell.name_toList]
  constructor
  · intro h
    obtain ⟨hkept, hrest⟩ := List.append_inj' h (by simp [length_fnv8])
    obtain ⟨-, htag⟩ := List.cons.inj hrest
    exact ⟨String.toList_inj.mp hkept, String.toList_inj.mp (List.append_cancel_right htag)⟩
  · rintro ⟨hkept, htag⟩
    rw [hkept, htag]

def MintCell.groupName (c : MintCell) : Option String :=
  (c.source.bind SnapshotSourceRef.group).map SnapshotSourceGroup.volumeGroupSnapshotName

def MintCell.groupKey (c : MintCell) : Option (Nat × String) × Option RepositoryRef :=
  (c.source.bind fun s => s.group.map fun g => (s.sourceIndex, g.ns), c.repository)

theorem mintCells_groupName {policy : SnapshotPolicy} {base : String}
    {matched : Nat → List PvcTargetRef} {members : Option (List ExpandedMember)} {c : MintCell}
    (h : expandSources policy base matched = .ok members) (hc : c ∈ mintCells policy base members) :
    c.groupName = c.groupKey.1.map fun k =>
      Kopiur.groupName base k.2 k.1 (c.groupKey.2.map (repoKey · policy.ns)) := by
  cases hmulti : isMultiRepo policy.spec with
  | false =>
    cases members with
    | none =>
      obtain rfl : c = ⟨base, none, none⟩ := by simpa [mintCells, hmulti] using hc
      rfl
    | some members =>
      obtain ⟨kept, rfl, -, -⟩ := expandSources_spec h
      simp only [mintCells, hmulti, Bool.false_eq_true, if_false, List.map_map] at hc
      obtain ⟨e, -, rfl⟩ := List.mem_map.mp hc
      simp only [MintCell.groupName, MintCell.groupKey, Function.comp, SelectorMatch.member,
        SelectorMatch.group, Option.bind_some]
      split <;> rfl
  | true =>
    cases members with
    | none =>
      simp only [mintCells, hmulti, if_true] at hc
      obtain ⟨r, -, rfl⟩ := List.mem_map.mp hc
      rfl
    | some members =>
      simp only [mintCells, hmulti, if_true, List.mem_flatMap, List.mem_map] at hc
      obtain ⟨m, -, r, -, rfl⟩ := hc
      cases hgroup : m.source.group with
      | none => simp [MintCell.groupName, MintCell.groupKey]
      | some g => simp [MintCell.groupName, MintCell.groupKey, repoKey_normalized]

/-- Two invocations get different group names just when their bases differ in
what is kept of them, or the groups are of different cells; and one invocation
names the group of a cell once for all its members. -/
theorem group_names_separate (a b : Invocation) (g g' : GroupCell)
    (htag : fnv8 g.framed = fnv8 g'.framed → g.framed = g'.framed) :
    ((a ≠ b → g.name a.base ≠ g'.name b.base) ↔ (a = b ∨ a.kept ≠ b.kept ∨ g ≠ g')) ∧
      ∀ (policy : SnapshotPolicy) (matched : Nat → List PvcTargetRef)
        (members : Option (List ExpandedMember)),
        expandSources policy a.base matched = .ok members →
        ∀ c ∈ mintCells policy a.base members, ∀ c' ∈ mintCells policy a.base members,
          c.groupKey = c'.groupKey → c.groupName = c'.groupName := by
  refine ⟨?_, ?_⟩
  · have hname : g.name a.base = g'.name b.base ↔ a.kept = b.kept ∧ g = g' := by
      rw [groupName_eq_iff]
      refine and_congr_right fun _ => ⟨fun h => GroupCell.framed_inj (htag h), ?_⟩
      rintro rfl
      rfl
    rw [ne_eq (g.name a.base), hname, not_and_or, ne_eq a b, ← or_iff_not_imp_left]
  · intro policy matched members h c hc c' hc' hkey
    rw [mintCells_groupName h hc, mintCells_groupName h hc', hkey]

/-- Two nights of a schedule with a short name. -/
theorem group_names_separate_nights :
    let a : Invocation := ⟨"nightly-20260805020000", ⟨'n', by decide, by decide⟩⟩
    let b : Invocation := ⟨"nightly-20260806020000", ⟨'n', by decide, by decide⟩⟩
    let g : GroupCell := ⟨"db", 0, none, by decide⟩
    g.name a.base ≠ g.name b.base := by
  intro a b g
  have hkept : a.kept ≠ b.kept := by decide
  have hbase : a ≠ b := fun h => hkept (congrArg Invocation.kept h)
  exact ((group_names_separate a b g g fun _ => rfl).1.mpr (.inr (.inl hkept))) hbase

/-- Two nights of a schedule whose name leaves no room for the slot. -/
theorem group_names_shared_by_nights :
    let a : Invocation := ⟨"backups-of-the-postgres-clusters-of-all-environments-20260805020000",
      ⟨'b', by decide, by decide⟩⟩
    let b : Invocation := ⟨"backups-of-the-postgres-clusters-of-all-environments-20260806020000",
      ⟨'b', by decide, by decide⟩⟩
    let g : GroupCell := ⟨"db", 0, none, by decide⟩
    a.base ≠ b.base ∧ g.name a.base = g.name b.base := by
  intro a b g
  refine ⟨by decide, groupName_eq_iff.mpr ⟨by decide, rfl⟩⟩

end Names

end Kopiur
