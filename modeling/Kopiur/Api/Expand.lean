import Mathlib.Data.List.Nodup
import Mathlib.Data.List.Pairwise
import Kopiur.Api.ChildNames
import Kopiur.Api.SourcePaths

/-!
# Selector expansion

A selector source becomes one child per matched PVC, and every child one per
repository. No two children of an expansion share a kopia source path, and a
restore into a child's PVC reads the path of that child or refuses.
-/

namespace Kopiur

structure ExpandedMember where
  name : String
  source : SnapshotSourceRef
deriving DecidableEq

/-- A PVC that a selector source matched. -/
structure SelectorMatch where
  index : Nat
  source : Source
  target : PvcTargetRef
deriving DecidableEq

def selectorMatches (policy : SnapshotPolicy) (matched : Nat → List PvcTargetRef) :
    List SelectorMatch :=
  policy.spec.sources.zipIdx.flatMap fun (source, index) =>
    if source.pvcSelector.isNone then [] else (matched index).map (⟨index, source, ·⟩)

namespace SelectorMatch

/-- The path this match is expanded under. -/
def path (e : SelectorMatch) : String :=
  let eff : EffectiveSource :=
    { index := e.index
      pvc := some e.target
      nfsPath := none
      stream := none
      sourcePathOverride := e.source.sourcePathOverride
      readOnly := sourceReadOnly e.source }
  (eff.kopiaSourcePath (strategyFor e.source)).getD "/data"

/-- The shared group of the match: only when the policy groups, and with at
least two matches of this source in this namespace. -/
def group (policy : SnapshotPolicy) (baseName : String) (matched : Nat → List PvcTargetRef)
    (e : SelectorMatch) : Option SnapshotSourceGroup :=
  if policy.spec.groupBy = some .volumeGroupSnapshot ∧
      ((matched e.index).filter fun t => decide (t.ns = e.target.ns)).length > 1 then
    some
      { ns := e.target.ns
        volumeGroupSnapshotName := groupName baseName e.target.ns e.index none }
  else none

def member (policy : SnapshotPolicy) (baseName : String) (matched : Nat → List PvcTargetRef)
    (e : SelectorMatch) : ExpandedMember where
  name := fanoutChildName baseName policy.ns e.target
  source :=
    { sourceIndex := e.index
      target := e.target
      group := e.group policy baseName matched }

end SelectorMatch

/-- Why two matches cannot share a path. -/
def collisionReason (policy : SnapshotPolicy) (path : String) (prev : PvcTargetRef)
    (prevIndex : Nat) (e : SelectorMatch) : String :=
  let both := "SnapshotPolicy `" ++ policy.nameAny ++ "` pvcSelector matches both `" ++ prev.ns ++
    "/" ++ prev.name ++ "` and `" ++ e.target.ns ++ "/" ++ e.target.name ++ "`, "
  if prev = e.target then
    "SnapshotPolicy `" ++ policy.nameAny ++ "` has two `pvcSelector` sources that both match `" ++
      e.target.ns ++ "/" ++ e.target.name ++ "` (path `" ++ path ++ "`). Fix: narrow the " ++
      "selectors so each PVC matches only one source"
  else
    match [e.index, prevIndex].find? fun i =>
      decide ((policy.spec.sources[i]?.bind Source.sourcePathOverride) = some path) with
    | some i =>
      both ++ "but `spec.sources[" ++ toString i ++ "].sourcePathOverride` gives them the same " ++
        "path `" ++ path ++ "`, so their backups would overwrite each other. Fix: remove that " ++
        "`sourcePathOverride` and use `sourcePathStrategy` (`PvcName` or `PvcNamespacedName`), " ++
        "or move the override onto its own `pvc:` source"
    | none =>
      both ++ "which get the same path `" ++ path ++ "` under `sourcePathStrategy: PvcName`, so " ++
        "their backups would overwrite each other. Fix: set `sourcePathStrategy: " ++
        "PvcNamespacedName` on that source"

structure Expansion where
  members : List ExpandedMember := []
  -- The last match that produced each path, newest first.
  paths : List (String × PvcTargetRef × Nat) := []

def expandMatch (policy : SnapshotPolicy) (baseName : String) (matched : Nat → List PvcTargetRef)
    (st : Expansion) (e : SelectorMatch) : Except ValidationError Expansion :=
  let paths := (e.path, e.target, e.index) :: st.paths
  match st.paths.lookup e.path with
  | some (prev, prevIndex) =>
    -- The same PVC listed twice by one source is skipped.
    if prev = e.target ∧ prevIndex = e.index then .ok { st with paths }
    else
      .error (.invalidFieldValue "spec.sources[].pvcSelector"
        (collisionReason policy e.path prev prevIndex e))
  | none => .ok ⟨st.members ++ [e.member policy baseName matched], paths⟩

/-- `none` when the policy has no selector: one unpinned child. -/
def expandSources (policy : SnapshotPolicy) (baseName : String)
    (matched : Nat → List PvcTargetRef) :
    Except ValidationError (Option (List ExpandedMember)) :=
  if !policy.spec.sources.any fun s => s.pvcSelector.isSome then .ok none
  else do
    let st ← (selectorMatches policy matched).foldlM (expandMatch policy baseName matched) {}
    .ok (some st.members)

structure MintCell where
  name : String
  source : Option SnapshotSourceRef
  repository : Option RepositoryRef
deriving DecidableEq

def mintCells (policy : SnapshotPolicy) (baseName : String)
    (members : Option (List ExpandedMember)) : List MintCell :=
  let repos := if isMultiRepo policy.spec then some policy.spec.repositories else none
  match members, repos with
  | none, none => [⟨baseName, none, none⟩]
  | some members, none => members.map fun m => ⟨m.name, some m.source, none⟩
  | none, some repos =>
    repos.map fun r =>
      ⟨fanoutChildNameFor baseName policy.ns none (some r), none,
        some (normalizedRepositoryRef r policy.ns)⟩
  | some members, some repos =>
    members.flatMap fun m => repos.map fun r =>
      let group := m.source.group.map fun g =>
        { g with
          volumeGroupSnapshotName :=
            groupName baseName g.ns m.source.sourceIndex (some (repoKey r policy.ns)) }
      ⟨fanoutChildNameFor baseName policy.ns (some m.source.target) (some r),
        some { m.source with group }, some (normalizedRepositoryRef r policy.ns)⟩

-- What an expansion holds

theorem SelectorMatch.path_eq (e : SelectorMatch) : e.path = e.source.memberPath e.target := by
  simp [path, kopiaSourcePath_pvc, Source.memberPath]

variable {policy : SnapshotPolicy} {matched : Nat → List PvcTargetRef}

theorem mem_selectorMatches {e : SelectorMatch} :
    e ∈ selectorMatches policy matched ↔
      policy.spec.sources[e.index]? = some e.source ∧ e.source.pvcSelector.isSome = true ∧
        e.target ∈ matched e.index := by
  obtain ⟨index, source, target⟩ := e
  simp only [selectorMatches, List.mem_flatMap, Prod.exists]
  constructor
  · rintro ⟨s, i, hs, he⟩
    split at he
    case isTrue => cases he
    case isFalse hsel =>
      obtain ⟨t, ht, heq⟩ := List.mem_map.mp he
      cases heq
      exact ⟨by simpa [List.mem_zipIdx_iff_getElem?] using hs, by simpa [Option.isSome_iff_ne_none] using hsel, ht⟩
  · rintro ⟨hsource, hsel, ht⟩
    refine ⟨source, index, by simpa [List.mem_zipIdx_iff_getElem?] using hsource, ?_⟩
    rw [if_neg (by simpa [Option.isSome_iff_ne_none] using hsel)]
    exact List.mem_map.mpr ⟨target, ht, rfl⟩

theorem selectorMatches_ext {e e' : SelectorMatch} (he : e ∈ selectorMatches policy matched)
    (he' : e' ∈ selectorMatches policy matched) (hindex : e.index = e'.index)
    (htarget : e.target = e'.target) : e = e' := by
  have hs := (mem_selectorMatches.mp he).1
  rw [hindex, (mem_selectorMatches.mp he').1] at hs
  obtain ⟨index, source, target⟩ := e
  obtain ⟨index', source', target'⟩ := e'
  simp_all

/-- The matches that became members, and the paths they took. -/
structure Expansion.Holds (policy : SnapshotPolicy) (baseName : String)
    (matched : Nat → List PvcTargetRef) (st : Expansion) (kept : List SelectorMatch) : Prop where
  members : st.members = kept.map (SelectorMatch.member policy baseName matched)
  distinct : (kept.map SelectorMatch.path).Nodup
  subset : ∀ e ∈ kept, e ∈ selectorMatches policy matched
  paths : ∀ p t i, st.paths.lookup p = some (t, i) ↔ ∃ e ∈ kept, e.path = p ∧ e.target = t ∧ e.index = i

theorem Expansion.Holds.step {baseName : String} {st st' : Expansion} {kept : List SelectorMatch}
    (h : st.Holds policy baseName matched kept) {e : SelectorMatch}
    (he : e ∈ selectorMatches policy matched)
    (hstep : expandMatch policy baseName matched st e = .ok st') :
    ∃ kept', st'.Holds policy baseName matched kept' ∧ ∀ x, x ∈ kept' ↔ x ∈ kept ∨ x = e := by
  simp only [expandMatch] at hstep
  split at hstep
  case h_1 prev prevIndex hlookup =>
    split at hstep
    case isFalse => cases hstep
    case isTrue hsame =>
      cases hstep
      obtain ⟨rfl, rfl⟩ := hsame
      obtain ⟨d, hd, hpath, htarget, hindex⟩ := (h.paths _ _ _).mp hlookup
      obtain rfl := selectorMatches_ext (h.subset d hd) he hindex htarget
      refine ⟨kept, ⟨h.members, h.distinct, h.subset, fun p t i => ?_⟩, fun x => ?_⟩
      · rw [← h.paths p t i, List.lookup_cons]
        by_cases hp : p = d.path
        · simp [hp, hlookup]
        · simp [beq_eq_false_iff_ne.mpr hp]
      · exact ⟨.inl, fun hx => hx.elim id fun hx => hx ▸ hd⟩
  case h_2 hlookup =>
    cases hstep
    have hfresh : ∀ x ∈ kept, x.path ≠ e.path := by
      intro x hx hp
      have := (h.paths e.path x.target x.index).mpr ⟨x, hx, hp, rfl, rfl⟩
      simp [hlookup] at this
    refine ⟨kept ++ [e], ⟨by simp [h.members], ?_, ?_, fun p t i => ?_⟩, by simp⟩
    · simp only [List.map_append, List.map_cons, List.map_nil]
      refine List.nodup_append.mpr ⟨h.distinct, by simp, ?_⟩
      rintro a ha b hb rfl
      obtain ⟨x, hx, hxp⟩ := List.mem_map.mp ha
      exact hfresh x hx (hxp.trans (List.mem_singleton.mp hb))
    · intro x hx
      rcases List.mem_append.mp hx with hx | hx
      · exact h.subset x hx
      · exact List.mem_singleton.mp hx ▸ he
    · rw [List.lookup_cons]
      by_cases hp : p = e.path
      · subst hp
        simp only [beq_self_eq_true, Option.some.injEq, Prod.mk.injEq, List.mem_append,
          List.mem_singleton]
        constructor
        · rintro ⟨rfl, rfl⟩
          exact ⟨e, .inr rfl, rfl, rfl, rfl⟩
        · rintro ⟨x, hx | rfl, hxp, rfl, rfl⟩
          · exact absurd hxp (hfresh x hx)
          · exact ⟨rfl, rfl⟩
      · simp only [beq_eq_false_iff_ne.mpr hp, h.paths p t i, List.mem_append, List.mem_singleton]
        constructor
        · rintro ⟨x, hx, hxp⟩
          exact ⟨x, .inl hx, hxp⟩
        · rintro ⟨x, hx | rfl, hxp, hx'⟩
          · exact ⟨x, hx, hxp, hx'⟩
          · exact absurd hxp.symm hp

theorem Expansion.Holds.run {baseName : String} {st st' : Expansion} {kept es : List SelectorMatch}
    (h : st.Holds policy baseName matched kept) (hes : ∀ e ∈ es, e ∈ selectorMatches policy matched)
    (hrun : es.foldlM (expandMatch policy baseName matched) st = .ok st') :
    ∃ kept', st'.Holds policy baseName matched kept' ∧ ∀ x, x ∈ kept' ↔ x ∈ kept ∨ x ∈ es := by
  induction es generalizing st kept with
  | nil =>
    cases hrun
    exact ⟨kept, h, by simp⟩
  | cons e es ih =>
    simp only [List.foldlM_cons, bind, Except.bind] at hrun
    split at hrun
    case h_1 => cases hrun
    case h_2 mid hmid =>
      obtain ⟨kept₁, h₁, hmem₁⟩ := h.step (hes e List.mem_cons_self) hmid
      obtain ⟨kept₂, h₂, hmem₂⟩ := ih h₁ (fun x hx => hes x (List.mem_cons_of_mem _ hx)) hrun
      exact ⟨kept₂, h₂, fun x => by simp [hmem₂, hmem₁, or_assoc]⟩

theorem expandSources_spec {baseName : String} {members : List ExpandedMember}
    (h : expandSources policy baseName matched = .ok (some members)) :
    ∃ kept : List SelectorMatch,
      members = kept.map (SelectorMatch.member policy baseName matched) ∧
      (kept.map SelectorMatch.path).Nodup ∧ ∀ e, e ∈ kept ↔ e ∈ selectorMatches policy matched := by
  simp only [expandSources] at h
  split at h
  case isTrue => cases h
  case isFalse =>
    simp only [bind, Except.bind] at h
    split at h
    case h_1 => cases h
    case h_2 st hrun =>
      cases h
      have hinit : Expansion.Holds policy baseName matched {} [] :=
        ⟨rfl, by simp, by simp, by simp⟩
      obtain ⟨kept, hkept, hmem⟩ := hinit.run (fun _ he => he) hrun
      exact ⟨kept, hkept.members, hkept.distinct, by simpa using hmem⟩

theorem expandSources_plain (baseName : String) (matched : Nat → List PvcTargetRef)
    (h : (policy.spec.sources.any fun s => s.pvcSelector.isSome) = false) :
    expandSources policy baseName matched = .ok none := by
  simp only [expandSources, h, Bool.not_false, if_true]

theorem selector_of_expansion {baseName : String} {members : List ExpandedMember}
    (h : expandSources policy baseName matched = .ok (some members)) :
    (policy.spec.sources.any fun s => s.pvcSelector.isSome) = true := by
  by_contra hnone
  rw [expandSources_plain baseName matched (Bool.not_eq_true _ ▸ hnone)] at h
  cases h

theorem plain_of_expansion {baseName : String}
    (h : expandSources policy baseName matched = .ok none) :
    (policy.spec.sources.any fun s => s.pvcSelector.isSome) = false := by
  by_contra hsome
  simp only [expandSources, Bool.not_eq_false _ ▸ hsome, Bool.not_true, Bool.false_eq_true,
    if_false, bind, Except.bind] at h
  split at h <;> cases h

-- Backup and restore agree on the members

def selectorsAgree (policy : SnapshotPolicy) : Prop :=
  ∀ s ∈ policy.spec.sources, ∀ s' ∈ policy.spec.sources,
    s.pvcSelector.isSome → s'.pvcSelector.isSome → s.pathRule = s'.pathRule

section Members

variable {policy : SnapshotPolicy} {baseName : String} {matched : Nat → List PvcTargetRef}

theorem identitySourcePath_of_match {e : SelectorMatch} (he : e ∈ selectorMatches policy matched)
    {p : String} (h : identitySourcePath policy (some (e.member policy baseName matched).source) =
      .ok (some p)) : e.path = p := by
  obtain ⟨hsource, hset, -⟩ := mem_selectorMatches.mp he
  by_cases hsel : e.source.IsSelector
  · rw [identitySourcePath_member hsource hsel] at h
    simpa [SelectorMatch.path_eq, SelectorMatch.member] using h
  · exact absurd h (identitySourcePath_malformed hsource hset hsel _)

theorem members_paths_distinct {kept : List SelectorMatch}
    (hpaths : (kept.map SelectorMatch.path).Nodup)
    (hkept : ∀ e ∈ kept, e ∈ selectorMatches policy matched) :
    (kept.map (SelectorMatch.member policy baseName matched)).Pairwise fun m m' =>
      ∀ p, identitySourcePath policy (some m.source) = .ok (some p) →
        identitySourcePath policy (some m'.source) ≠ .ok (some p) := by
  refine List.pairwise_map.mpr ?_
  refine (List.pairwise_map.mp hpaths).imp_of_mem fun {e e'} he he' hne p hp hp' => hne ?_
  rw [identitySourcePath_of_match (hkept e he) hp, identitySourcePath_of_match (hkept e' he') hp']

theorem members_count_match {kept : List SelectorMatch}
    (hpaths : (kept.map SelectorMatch.path).Nodup)
    (hkept : ∀ e, e ∈ kept ↔ e ∈ selectorMatches policy matched) {e : SelectorMatch}
    (he : e ∈ selectorMatches policy matched) :
    ((kept.map (SelectorMatch.member policy baseName matched)).map fun m =>
      (m.source.sourceIndex, m.source.target)).count (e.index, e.target) = 1 := by
  refine List.count_eq_one_of_mem ?_ ?_
  · rw [List.map_map]
    refine hpaths.of_map.map_on fun x hx y hy hxy => ?_
    simp only [Function.comp, SelectorMatch.member, Prod.mk.injEq] at hxy
    exact selectorMatches_ext ((hkept x).mp hx) ((hkept y).mp hy) hxy.1 hxy.2
  · rw [List.map_map]
    exact List.mem_map.mpr ⟨e, (hkept e).mpr he, rfl⟩

theorem members_count_target {kept : List SelectorMatch}
    (hpaths : (kept.map SelectorMatch.path).Nodup)
    (hkept : ∀ e, e ∈ kept ↔ e ∈ selectorMatches policy matched) (hagree : selectorsAgree policy)
    {e : SelectorMatch} (he : e ∈ selectorMatches policy matched) :
    ((kept.map (SelectorMatch.member policy baseName matched)).map fun m =>
      m.source.target).count e.target = 1 := by
  refine List.count_eq_one_of_mem ?_ ?_
  · rw [List.map_map]
    refine hpaths.of_map.map_on fun x hx y hy hxy => ?_
    -- One rule for all selectors: the PVC alone decides the path.
    obtain ⟨hsx, hselx, -⟩ := mem_selectorMatches.mp ((hkept x).mp hx)
    obtain ⟨hsy, hsely, -⟩ := mem_selectorMatches.mp ((hkept y).mp hy)
    have hrule := hagree _ (List.mem_of_getElem? hsx) _ (List.mem_of_getElem? hsy) hselx hsely
    refine List.inj_on_of_nodup_map hpaths hx hy ?_
    rw [SelectorMatch.path_eq, SelectorMatch.path_eq, Source.memberPath_congr hrule]
    exact congrArg y.source.memberPath hxy
  · rw [List.map_map]
    exact List.mem_map.mpr ⟨e, (hkept e).mpr he, rfl⟩

theorem restoreSourcePath_of_match {e : SelectorMatch} (he : e ∈ selectorMatches policy matched)
    (hsel : e.source.IsSelector) (hplain : ¬ namedByPlainSource policy e.target) :
    restoreSourcePath policy none e.target =
      if derivesPerPvc policy (strategyFor e.source) then .ok (.derivedFromTarget e.path)
      else .error (ambiguousSourcePath policy) := by
  have hmem := List.mem_of_getElem? (mem_selectorMatches.mp he).1
  rw [restoreSourcePath_of_selector hmem hsel hplain]
  split
  case isFalse => rfl
  case isTrue hder =>
    have hrule := hder e.source hmem hsel
    simp only [Source.pathRule, Prod.mk.injEq, true_and] at hrule
    rw [SelectorMatch.path_eq, Source.memberPath, hrule, Option.getD_none]

end Members

/-- In every expansion, the members are backed up under pairwise distinct
paths; every matched PVC is exactly one member of each source that matched it,
and one member overall while the selectors agree; and a restore into the PVC
of a member reads exactly the path its backup records, or is refused as
ambiguous where the selectors disagree or flatten their members. -/
theorem expansion_restores_agree (policy : SnapshotPolicy) (baseName : String)
    (matched : Nat → List PvcTargetRef) (members : List ExpandedMember)
    (h : expandSources policy baseName matched = .ok (some members)) :
    (members.Pairwise fun m m' => ∀ p, identitySourcePath policy (some m.source) = .ok (some p) →
      identitySourcePath policy (some m'.source) ≠ .ok (some p)) ∧
    (∀ i source, policy.spec.sources[i]? = some source → source.pvcSelector.isSome = true →
      ∀ t ∈ matched i,
        (members.map fun m => (m.source.sourceIndex, m.source.target)).count (i, t) = 1 ∧
        (selectorsAgree policy → (members.map fun m => m.source.target).count t = 1)) ∧
    ∀ m ∈ members, ∃ source, policy.spec.sources[m.source.sourceIndex]? = some source ∧
      (source.IsSelector → ¬ namedByPlainSource policy m.source.target →
        ∃ path, identitySourcePath policy (some m.source) = .ok (some path) ∧
          (restoreSourcePath policy none m.source.target =
            if derivesPerPvc policy (strategyFor source) then .ok (.derivedFromTarget path)
            else .error (ambiguousSourcePath policy)) ∧
          ∀ m' ∈ members, identitySourcePath policy (some m'.source) = .ok (some path) → m' = m) := by
  obtain ⟨kept, rfl, hpaths, hkept⟩ := expandSources_spec h
  refine ⟨members_paths_distinct hpaths fun e he => (hkept e).mp he, ?_, ?_⟩
  · intro i source hsource hsel t ht
    have he : (⟨i, source, t⟩ : SelectorMatch) ∈ selectorMatches policy matched :=
      mem_selectorMatches.mpr ⟨hsource, hsel, ht⟩
    exact ⟨members_count_match hpaths hkept he,
      fun hagree => members_count_target hpaths hkept hagree he⟩
  · intro m hm
    obtain ⟨e, he, rfl⟩ := List.mem_map.mp hm
    have hmatch := (hkept e).mp he
    have hsource := (mem_selectorMatches.mp hmatch).1
    refine ⟨e.source, hsource, fun hsel hplain => ⟨e.path, ?_, ?_, ?_⟩⟩
    · rw [identitySourcePath_member hsource hsel, SelectorMatch.path_eq]
      rfl
    · exact restoreSourcePath_of_match hmatch hsel hplain
    · intro m' hm' hpath
      obtain ⟨e', he', rfl⟩ := List.mem_map.mp hm'
      have hp := identitySourcePath_of_match ((hkept e').mp he') hpath
      rw [List.inj_on_of_nodup_map hpaths he' he hp]

/-- A policy in namespace `db` with one selector source. -/
def selectorPolicy (sourcePathOverride : Option String) : SnapshotPolicy where
  metadata :=
    { name := some "app"
      ns := some "db" }
  spec := { sources := [{ pvcSelector := some {}, sourcePathOverride }] }

theorem expansion_restores_agree_pair :
    let policy := selectorPolicy none
    let matched : Nat → List PvcTargetRef := fun _ => [⟨"db", "data-0"⟩, ⟨"db", "data-1"⟩]
    ∃ members, expandSources policy "nightly" matched = .ok (some members) ∧
      (members.map fun m => m.source.target).count ⟨"db", "data-1"⟩ = 1 ∧
      restoreSourcePath policy none ⟨"db", "data-1"⟩ = .ok (.derivedFromTarget "/pvc/data-1") := by
  intro policy matched
  have hexpand : expandSources policy "nightly" matched =
      .ok (some [⟨"nightly-pvc-data-0-0bd2626a", ⟨0, ⟨"db", "data-0"⟩, none⟩⟩,
        ⟨"nightly-pvc-data-1-0bd2641d", ⟨0, ⟨"db", "data-1"⟩, none⟩⟩]) := by decide
  have hagree : selectorsAgree policy := by
    intro s hs s' hs' _ _
    rw [List.mem_singleton.mp hs, List.mem_singleton.mp hs']
  obtain ⟨-, hcount, -⟩ := expansion_restores_agree policy "nightly" matched _ hexpand
  exact ⟨_, hexpand, (hcount 0 _ rfl rfl _ (by decide)).2 hagree, by decide⟩

/-- One PVC under a selector with an override is backed up, under the override,
but its restore is refused. -/
theorem restore_refuses_flattened_member :
    let policy := selectorPolicy (some "/data")
    ∃ m, expandSources policy "nightly" (fun _ => [⟨"db", "data"⟩]) = .ok (some [m]) ∧
      m.source.target = ⟨"db", "data"⟩ ∧
      identitySourcePath policy (some m.source) = .ok (some "/data") ∧
      restoreSourcePath policy none ⟨"db", "data"⟩ = .error (ambiguousSourcePath policy) := by
  refine ⟨⟨fanoutChildName "nightly" "db" ⟨"db", "data"⟩, ⟨0, ⟨"db", "data"⟩, none⟩⟩, ?_, rfl, ?_⟩
  · decide +kernel
  · decide +kernel

end Kopiur
