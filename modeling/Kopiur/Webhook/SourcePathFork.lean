import Kopiur.Webhook.BackupConfig
import Kopiur.Webhook.ReplicationOverlap

/-!
# The source path fork guard

An edit that changes the kopia path of a source with history starts a new history
and orphans the old one. The guard compares the specs, and knows selectors only by
their position and strategy: a PVC that moves between a plain source and a
selector, or between two selectors, can change its path unnoticed.
-/

namespace Kopiur

/-- The `IdentityWouldFork` error: the path there was and the one there would be. -/
structure IdentityWouldFork where
  old : String
  new : String
deriving DecidableEq

def pvcSourceEffectivePath (source : Source) : Option (String × String) :=
  source.pvc.map fun p => (p.name, source.sourcePathOverride.getD ("/pvc/" ++ p.name))

def byIndex (key : Source → Nat → Option String) (spec : SnapshotPolicySpec) :
    List (Nat × String) :=
  spec.sources.zipIdx.filterMap fun (source, i) => (key source i).map (i, ·)

def SourcePathStrategy.label : SourcePathStrategy → String
  | .pvcName => "/pvc/<name>"
  | .pvcNamespacedName => "/pvc/<namespace>/<name>"

def selectorSourceStrategies : SnapshotPolicySpec → List (Nat × String) :=
  byIndex fun source _ =>
    if source.pvcSelector.isSome then
      some (source.sourcePathStrategy.getD .pvcName).label
    else none

def streamSourcePaths : SnapshotPolicySpec → List (Nat × String) :=
  byIndex fun source i =>
    if source.stream.isSome then sourceKopiaPath source i "" else none

def sourcePathsByIndex : SnapshotPolicySpec → List (Nat × String) :=
  byIndex fun source i => sourceKopiaPath source i ""

def firstChange {κ : Type} [BEq κ] (old new : List (κ × String)) : Option IdentityWouldFork :=
  new.findSome? fun (k, newPath) =>
    (old.lookup k).bind fun oldPath =>
      if oldPath ≠ newPath then some ⟨oldPath, newPath⟩ else none

def detectSourcePathFork (old new : SnapshotPolicySpec) (hasHistory acknowledged : Bool) :
    Option IdentityWouldFork :=
  if !hasHistory || acknowledged then none
  else
    -- of several sources for one PVC the last is the one looked up
    (firstChange (old.sources.filterMap pvcSourceEffectivePath).reverse
        (new.sources.filterMap pvcSourceEffectivePath)).orElse fun _ =>
    (firstChange (selectorSourceStrategies old) (selectorSourceStrategies new)).orElse fun _ =>
    (firstChange (streamSourcePaths old) (streamSourcePaths new)).orElse fun _ =>
    firstChange (sourcePathsByIndex old) (sourcePathsByIndex new)

inductive Captured
  | pvc (target : PvcTargetRef)
  | nfs (volume : NfsVolume)
  | stream
deriving DecidableEq

/-- What a source that is no selector captures. -/
def Source.captured (source : Source) (policyNs : String) : Option Captured :=
  match sourceShape source with
  | .ok (.pvc p) => some (.pvc ⟨policyNs, p.name⟩)
  | .ok (.nfs v) => some (.nfs v)
  | .ok (.stream _) => some .stream
  | .ok (.pvcSelector _) | .error _ => none

/-- The runs of a policy back this up under this path: its first source, or the
members of its selectors. An expansion that is refused backs nothing up. -/
def BackedUp (policy : SnapshotPolicy) (baseName : String) (matched : Nat → List PvcTargetRef)
    (o : Captured) (path : String) : Prop :=
  match expandSources policy baseName matched with
  | .ok none => ∃ source, policy.spec.sources.head? = some source ∧
      source.captured policy.ns = some o ∧ identitySourcePath policy none = .ok (some path)
  | .ok (some members) => ∃ m ∈ members, o = .pvc m.source.target ∧
      identitySourcePath policy (some m.source) = .ok (some path)
  | .error _ => False

/-- An edit of a policy, with the PVCs its selectors match before and after. -/
structure PolicyEdit where
  metadata : ObjectMeta
  old : SnapshotPolicySpec
  new : SnapshotPolicySpec
  baseName : String
  matchedOld : Nat → List PvcTargetRef
  matchedNew : Nat → List PvcTargetRef

namespace PolicyEdit

def before (edit : PolicyEdit) : SnapshotPolicy := ⟨edit.metadata, edit.old⟩

def after (edit : PolicyEdit) : SnapshotPolicy := ⟨edit.metadata, edit.new⟩

/-- What is backed up before and after the edit is still backed up under each path
it had. -/
def KeepsPaths (edit : PolicyEdit) : Prop :=
  ∀ o, (∃ path, BackedUp edit.after edit.baseName edit.matchedNew o path) →
    ∀ path, BackedUp edit.before edit.baseName edit.matchedOld o path →
      BackedUp edit.after edit.baseName edit.matchedNew o path

end PolicyEdit

theorem lookup_zipIdx (key : Source → Nat → Option String) (l : List Source) (n i : Nat) :
    ((l.zipIdx n).filterMap fun (source, j) => (key source j).map (j, ·)).lookup (n + i) =
      l[i]?.bind fun source => key source (n + i) := by
  induction l generalizing n i with
  | nil => rfl
  | cons source rest ih =>
    rw [List.zipIdx_cons, List.filterMap_cons]
    cases i with
    | zero =>
      cases hkey : key source n with
      | some path => simp [hkey]
      | none =>
        have hlater : ∀ (l : List Source) (m : Nat), n < m →
            ((l.zipIdx m).filterMap fun (source, j) => (key source j).map (j, ·)).lookup n =
              none := by
          intro l m hm
          refine List.lookup_eq_none_iff.mpr fun e he => ?_
          obtain ⟨⟨s, j⟩, hsj, he⟩ := List.mem_filterMap.mp he
          obtain ⟨path, -, rfl⟩ := Option.map_eq_some_iff.mp he
          have hj := (List.mem_zipIdx hsj).1
          exact bne_iff_ne.mpr (by dsimp only; omega)
        simpa [hkey] using hlater rest (n + 1) (by omega)
    | succ i =>
      have hrest := ih (n + 1) i
      rw [Nat.add_right_comm, Nat.add_assoc] at hrest
      have hne : (n + (i + 1) == n) = false := by
        rw [beq_eq_false_iff_ne]
        omega
      cases hkey : key source n with
      | some path => simpa [hkey, List.lookup_cons, hne] using hrest
      | none => simpa [hkey] using hrest

theorem lookup_byIndex (key : Source → Nat → Option String) (spec : SnapshotPolicySpec) (i : Nat) :
    (byIndex key spec).lookup i = spec.sources[i]?.bind fun source => key source i := by
  have h := lookup_zipIdx key spec.sources 0 i
  rwa [Nat.zero_add] at h

theorem mem_byIndex {key : Source → Nat → Option String} {spec : SnapshotPolicySpec} {i : Nat}
    {source : Source} {path : String} (hsource : spec.sources[i]? = some source)
    (hkey : key source i = some path) : (i, path) ∈ byIndex key spec := by
  refine List.mem_filterMap.mpr ⟨(source, i), List.mem_zipIdx_iff_getElem?.mpr hsource, ?_⟩
  dsimp only
  rw [hkey, Option.map_some]

theorem firstChange_eq_none_iff {κ : Type} [BEq κ] {old new : List (κ × String)} :
    firstChange old new = none ↔
      ∀ k newPath, (k, newPath) ∈ new → ∀ oldPath, old.lookup k = some oldPath →
        oldPath = newPath := by
  simp only [firstChange, List.findSome?_eq_none_iff, Option.bind_eq_none_iff, Prod.forall,
    ite_eq_right_iff, reduceCtorEq, imp_false, not_not]

theorem detectSourcePathFork_eq_none {old new : SnapshotPolicySpec}
    (h : detectSourcePathFork old new true false = none) :
    firstChange (selectorSourceStrategies old) (selectorSourceStrategies new) = none ∧
      firstChange (sourcePathsByIndex old) (sourcePathsByIndex new) = none := by
  simp only [detectSourcePathFork, Bool.not_true, Bool.or_self, Bool.false_eq_true, if_false,
    Option.orElse_eq_or, Option.or_eq_none_iff] at h
  exact ⟨h.2.1, h.2.2.2⟩

theorem byIndex_unchanged {key : Source → Nat → Option String} {old new : SnapshotPolicySpec}
    (h : firstChange (byIndex key old) (byIndex key new) = none) {i : Nat} {source source' : Source}
    {path path' : String} (hold : old.sources[i]? = some source)
    (hnew : new.sources[i]? = some source') (hkey : key source i = some path)
    (hkey' : key source' i = some path') : path = path' := by
  refine firstChange_eq_none_iff.mp h i path' (mem_byIndex hnew hkey') path ?_
  rw [lookup_byIndex, hold, Option.bind_some, hkey]

-- The sources behind a backup

/-- A run takes this PVC through this source: the first one of a policy without
selectors, or a selector that matched it. -/
def Takes (policy : SnapshotPolicy) (baseName : String) (matched : Nat → List PvcTargetRef)
    (i : Nat) (source : Source) (t : PvcTargetRef) : Prop :=
  policy.spec.sources[i]? = some source ∧
    ((expandSources policy baseName matched = .ok none ∧ i = 0 ∧
        source.captured policy.ns = some (.pvc t)) ∨
      ((∃ members, expandSources policy baseName matched = .ok (some members)) ∧
        source.IsSelector ∧ t ∈ matched i))

theorem captured_pvc {source : Source} {ns : String} {t : PvcTargetRef}
    (h : source.captured ns = some (.pvc t)) :
    source.pvc = some ⟨t.name⟩ ∧ source.pvcSelector = none ∧ t.ns = ns := by
  obtain ⟨pvc, sel, nfs, stream, _, _, _⟩ := source
  cases pvc <;> cases sel <;> cases nfs <;> cases stream <;>
    simp [Source.captured, sourceShape, Source.formsSet] at h
  subst h
  exact ⟨rfl, rfl, rfl⟩

theorem sourceKopiaPath_plain {source : Source} {t : PvcTargetRef}
    (hpvc : source.pvc = some ⟨t.name⟩) (hsel : source.pvcSelector = none) (i : Nat) (ns : String) :
    sourceKopiaPath source i ns = some (source.memberPath t) := by
  simp only [sourceKopiaPath, EffectiveSource.kopiaSourcePath, hpvc, Option.map_some,
    Source.memberPath, strategyFor, hsel, Option.isSome_none, Bool.false_eq_true, if_false, pvcPath]
  cases source.sourcePathOverride <;> rfl

theorem sourceKopiaPath_ns {source : Source} (hsel : source.pvcSelector = none) (i : Nat)
    (ns ns' : String) : sourceKopiaPath source i ns = sourceKopiaPath source i ns' := by
  simp only [sourceKopiaPath, EffectiveSource.kopiaSourcePath, strategyFor, hsel,
    Option.isSome_none, Bool.false_eq_true, if_false]
  cases source.sourcePathOverride <;> cases source.pvc <;> rfl

theorem identitySourcePath_first {policy : SnapshotPolicy} {source : Source}
    (h : policy.spec.sources[0]? = some source) :
    identitySourcePath policy none = .ok (sourceKopiaPath source 0 policy.ns) := by
  cases hsources : policy.spec.sources with
  | nil =>
    rw [hsources] at h
    cases h
  | cons first rest =>
    rw [hsources, List.getElem?_cons_zero, Option.some.injEq] at h
    subst h
    simp only [identitySourcePath, identitySourcePathIn, effectiveSourceIn, hsources,
      List.isEmpty_cons, Bool.false_and, Bool.false_eq_true, if_false, Option.map_none,
      Option.getD_none, List.getElem?_cons_zero, bind, Except.bind, Option.map_some,
      Option.getD_some]
    rfl

section
variable {policy : SnapshotPolicy} {baseName : String} {matched : Nat → List PvcTargetRef}

theorem backedUp_plain (h : expandSources policy baseName matched = .ok none) {o : Captured}
    {path : String} : BackedUp policy baseName matched o path ↔
      ∃ source, policy.spec.sources[0]? = some source ∧ source.captured policy.ns = some o ∧
        sourceKopiaPath source 0 policy.ns = some path := by
  simp only [BackedUp, h, List.head?_eq_getElem?]
  refine exists_congr fun source => and_congr_right fun hsource => and_congr_right fun _ => ?_
  rw [identitySourcePath_first hsource, Except.ok.injEq]

theorem backedUp_members {members : List ExpandedMember}
    (h : expandSources policy baseName matched = .ok (some members)) {o : Captured}
    {path : String} : BackedUp policy baseName matched o path ↔
      ∃ i source t, policy.spec.sources[i]? = some source ∧ source.IsSelector ∧ t ∈ matched i ∧
        o = .pvc t ∧ path = source.memberPath t := by
  simp only [BackedUp, h]
  obtain ⟨kept, rfl, -, hkept⟩ := expandSources_spec h
  constructor
  · rintro ⟨m, hm, rfl, hpath⟩
    obtain ⟨e, he, rfl⟩ := List.mem_map.mp hm
    have hmatch := (hkept e).mp he
    obtain ⟨hsource, hset, ht⟩ := mem_selectorMatches.mp hmatch
    have hsel : e.source.IsSelector := by
      by_contra hnot
      exact identitySourcePath_malformed hsource hset hnot _ hpath
    refine ⟨e.index, e.source, e.target, hsource, hsel, ht, rfl, ?_⟩
    rw [← e.path_eq, identitySourcePath_of_match hmatch hpath]
  · rintro ⟨i, source, t, hsource, hsel, ht, rfl, rfl⟩
    have hmatch : (⟨i, source, t⟩ : SelectorMatch) ∈ selectorMatches policy matched :=
      mem_selectorMatches.mpr ⟨hsource, hsel.1, ht⟩
    exact ⟨_, List.mem_map_of_mem ((hkept _).mpr hmatch), rfl,
      identitySourcePath_member hsource hsel⟩

theorem plain_of_backedUp {o : Captured} {path : String} (ho : ∀ t, o ≠ .pvc t)
    (h : BackedUp policy baseName matched o path) :
    expandSources policy baseName matched = .ok none := by
  cases hexp : expandSources policy baseName matched with
  | error e =>
    simp only [BackedUp, hexp] at h
  | ok expansion =>
    cases expansion with
    | none => rfl
    | some members =>
      obtain ⟨_, _, t, -, -, -, rfl, -⟩ := (backedUp_members hexp).mp h
      exact absurd rfl (ho t)

theorem backedUp_pvc_iff {t : PvcTargetRef} {path : String} :
    BackedUp policy baseName matched (.pvc t) path ↔
      ∃ i source, Takes policy baseName matched i source t ∧ path = source.memberPath t := by
  cases h : expandSources policy baseName matched with
  | error e => simp [BackedUp, Takes, h]
  | ok expansion =>
    cases expansion with
    | none =>
      rw [backedUp_plain h]
      constructor
      · rintro ⟨source, hsource, hcaptured, hpath⟩
        obtain ⟨hpvc, hsel, -⟩ := captured_pvc hcaptured
        rw [sourceKopiaPath_plain hpvc hsel, Option.some.injEq] at hpath
        exact ⟨0, source, ⟨hsource, Or.inl ⟨h, rfl, hcaptured⟩⟩, hpath.symm⟩
      · rintro ⟨i, source, ⟨hsource, htakes⟩, rfl⟩
        rcases htakes with ⟨-, rfl, hcaptured⟩ | ⟨⟨members, hsome⟩, -⟩
        · obtain ⟨hpvc, hsel, -⟩ := captured_pvc hcaptured
          exact ⟨source, hsource, hcaptured, sourceKopiaPath_plain hpvc hsel _ _⟩
        · rw [h] at hsome
          cases hsome
    | some members =>
      rw [backedUp_members h]
      constructor
      · rintro ⟨i, source, t, hsource, hsel, ht, ⟨⟩, rfl⟩
        exact ⟨i, source, ⟨hsource, Or.inr ⟨⟨members, h⟩, hsel, ht⟩⟩, rfl⟩
      · rintro ⟨i, source, ⟨hsource, htakes⟩, rfl⟩
        rcases htakes with ⟨hnone, -⟩ | ⟨-, hsel, ht⟩
        · rw [h] at hnone
          cases hnone
        · exact ⟨i, source, t, hsource, hsel, ht, rfl, rfl⟩

end

-- What the guard compares

def Source.ownPath (source : Source) : Bool :=
  source.pvc.isSome || source.sourcePathOverride.isSome

/-- Two sources put a PVC at one path: by one override, by one strategy, or by an
override that spells the path the other derives. -/
def SameRule (t : PvcTargetRef) (source source' : Source) : Prop :=
  match source.sourcePathOverride, source'.sourcePathOverride with
  | some o, some o' => o = o'
  | none, none => strategyFor source = strategyFor source'
  | some o, none => o = pvcPath t (strategyFor source')
  | none, some o' => pvcPath t (strategyFor source) = o'

theorem pvcPath_inj {t : PvcTargetRef} {strategy strategy' : SourcePathStrategy} :
    pvcPath t strategy = pvcPath t strategy' ↔ strategy = strategy' := by
  refine ⟨fun h => ?_, fun h => congrArg (pvcPath t) h⟩
  have hlen := congrArg String.length h
  cases strategy <;> cases strategy' <;> first | rfl | skip
  all_goals
    simp only [pvcPath, String.length_append] at hlen
    simp only [show "/".length = 1 from rfl] at hlen
    omega

theorem sameRule_iff {t : PvcTargetRef} {source source' : Source} :
    SameRule t source source' ↔ source.memberPath t = source'.memberPath t := by
  unfold SameRule Source.memberPath
  cases source.sourcePathOverride <;> cases source'.sourcePathOverride <;> simp [pvcPath_inj]

section
variable {policy : SnapshotPolicy} {baseName : String} {matched : Nat → List PvcTargetRef}
  {i : Nat} {source : Source} {t : PvcTargetRef}

theorem Takes.ownPath (h : Takes policy baseName matched i source t)
    (hown : source.ownPath = true) :
    sourceKopiaPath source i "" = some (source.memberPath t) := by
  rcases h.2 with ⟨-, -, hcaptured⟩ | ⟨-, hsel, -⟩
  · obtain ⟨hpvc, hnone, -⟩ := captured_pvc hcaptured
    exact sourceKopiaPath_plain hpvc hnone i ""
  · have hoverride : source.sourcePathOverride.isSome = true := by
      simpa [Source.ownPath, hsel.2.1] using hown
    obtain ⟨o, ho⟩ := Option.isSome_iff_exists.mp hoverride
    simp [sourceKopiaPath, EffectiveSource.kopiaSourcePath, Source.memberPath, ho]

theorem Takes.selector (h : Takes policy baseName matched i source t)
    (hown : source.ownPath = false) :
    source.pvcSelector.isSome = true ∧ source.sourcePathOverride = none := by
  simp only [Source.ownPath, Bool.or_eq_false_iff, Option.isSome_eq_false_iff,
    Option.isNone_iff_eq_none] at hown
  rcases h.2 with ⟨-, -, hcaptured⟩ | ⟨-, hsel, -⟩
  · rw [(captured_pvc hcaptured).1] at hown
    cases hown.1
  · exact ⟨hsel.1, hown.2⟩

end

theorem SourcePathStrategy.label_inj {strategy strategy' : SourcePathStrategy}
    (h : strategy.label = strategy'.label) : strategy = strategy' := by
  cases strategy <;> cases strategy' <;> first | rfl | exact absurd h (by decide)

namespace PolicyEdit

variable (edit : PolicyEdit)

def TakesBefore (i : Nat) (source : Source) (t : PvcTargetRef) : Prop :=
  Takes edit.before edit.baseName edit.matchedOld i source t

def TakesAfter (i : Nat) (source : Source) (t : PvcTargetRef) : Prop :=
  Takes edit.after edit.baseName edit.matchedNew i source t

/-- A PVC that the edit takes away from its source's position, or from a source with
a path of its own to one without or the other way, still finds a source that puts
it where it was. -/
def MovesAlike : Prop :=
  ∀ t i source, edit.TakesBefore i source t → (∃ j source', edit.TakesAfter j source' t) →
    (∀ source', edit.TakesAfter i source' t → source'.ownPath ≠ source.ownPath) →
    ∃ j source', edit.TakesAfter j source' t ∧ SameRule t source source'

variable {edit} (hguard : detectSourcePathFork edit.old edit.new true false = none)
include hguard

/-- At one position, sources that both have a path of their own keep it, and
selectors that both have none keep their strategy. -/
theorem memberPath_compared {i : Nat} {source source' : Source} {t : PvcTargetRef}
    (h : edit.TakesBefore i source t) (h' : edit.TakesAfter i source' t)
    (hown : source'.ownPath = source.ownPath) : source.memberPath t = source'.memberPath t := by
  obtain ⟨hstrategies, hpaths⟩ := detectSourcePathFork_eq_none hguard
  cases hs : source.ownPath with
  | true =>
    exact byIndex_unchanged hpaths h.1 h'.1 (h.ownPath hs) (h'.ownPath (hown.trans hs))
  | false =>
    obtain ⟨hsel, hnone⟩ := h.selector hs
    obtain ⟨hsel', hnone'⟩ := h'.selector (hown.trans hs)
    have hlabel := byIndex_unchanged hstrategies h.1 h'.1 (if_pos hsel) (if_pos hsel')
    have hstrategy := SourcePathStrategy.label_inj hlabel
    refine sameRule_iff.mp ?_
    simp only [SameRule, hnone, hnone', strategyFor, hsel, hsel', if_true, hstrategy]

theorem path_plain {o o' : Captured} {path path' : String}
    (hplain : expandSources edit.before edit.baseName edit.matchedOld = .ok none)
    (hplain' : expandSources edit.after edit.baseName edit.matchedNew = .ok none)
    (h : BackedUp edit.before edit.baseName edit.matchedOld o path)
    (h' : BackedUp edit.after edit.baseName edit.matchedNew o' path') : path = path' := by
  obtain ⟨source, hsource, -, hpath⟩ := (backedUp_plain hplain).mp h
  obtain ⟨source', hsource', -, hpath'⟩ := (backedUp_plain hplain').mp h'
  have hns : ∀ {policy : SnapshotPolicy} {s : Source},
      (policy.spec.sources.any fun s => s.pvcSelector.isSome) = false →
      policy.spec.sources[0]? = some s →
      sourceKopiaPath s 0 policy.ns = sourceKopiaPath s 0 "" := by
    intro policy s hany hs
    have hnone := List.any_eq_false.mp hany s (List.mem_of_getElem? hs)
    exact sourceKopiaPath_ns (by simpa using hnone) 0 _ _
  rw [hns (plain_of_expansion hplain) hsource] at hpath
  rw [hns (plain_of_expansion hplain') hsource'] at hpath'
  exact byIndex_unchanged (detectSourcePathFork_eq_none hguard).2 hsource hsource' hpath hpath'

theorem keeps_other {o : Captured} (ho : ∀ t, o ≠ .pvc t) {path path' : String}
    (hold : BackedUp edit.before edit.baseName edit.matchedOld o path)
    (hnew : BackedUp edit.after edit.baseName edit.matchedNew o path') :
    BackedUp edit.after edit.baseName edit.matchedNew o path := by
  have heq := path_plain hguard (plain_of_backedUp ho hold) (plain_of_backedUp ho hnew) hold hnew
  rwa [heq]

/-- An edit the guard lets through keeps the path of everything backed up before and
after it exactly when the PVCs it did not compare find a source that puts them where
they were. -/
theorem keepsPaths_iff : edit.KeepsPaths ↔ edit.MovesAlike := by
  constructor
  · intro hkeeps t i source htakes ⟨j, source', htakes'⟩ _
    have hafter := hkeeps (.pvc t) ⟨_, backedUp_pvc_iff.mpr ⟨j, source', htakes', rfl⟩⟩ _
      (backedUp_pvc_iff.mpr ⟨i, source, htakes, rfl⟩)
    obtain ⟨k, source'', htakes'', hpath⟩ := backedUp_pvc_iff.mp hafter
    exact ⟨k, source'', htakes'', sameRule_iff.mpr hpath⟩
  · intro hmoves o hnew path hold
    obtain ⟨path', hnew⟩ := hnew
    cases o with
    | pvc t =>
      obtain ⟨i, source, htakes, rfl⟩ := backedUp_pvc_iff.mp hold
      obtain ⟨j, source', htakes', -⟩ := backedUp_pvc_iff.mp hnew
      by_cases hcompared :
          ∃ source'', edit.TakesAfter i source'' t ∧ source''.ownPath = source.ownPath
      · obtain ⟨source'', htakes'', hown⟩ := hcompared
        exact backedUp_pvc_iff.mpr
          ⟨i, source'', htakes'', memberPath_compared hguard htakes htakes'' hown⟩
      · have hnone : ∀ source'', edit.TakesAfter i source'' t → source''.ownPath ≠ source.ownPath :=
          fun source'' h'' hown => hcompared ⟨source'', h'', hown⟩
        obtain ⟨k, source'', htakes'', hrule⟩ :=
          hmoves t i source htakes ⟨j, source', htakes'⟩ hnone
        exact backedUp_pvc_iff.mpr ⟨k, source'', htakes'', sameRule_iff.mp hrule⟩
    | nfs v => exact keeps_other hguard (by rintro t ⟨⟩) hold hnew
    | stream => exact keeps_other hguard (by rintro t ⟨⟩) hold hnew

end PolicyEdit

/-- A policy in namespace `db` whose source becomes a selector of the same PVC. -/
def selectorEdit (strategy : SourcePathStrategy) : PolicyEdit where
  metadata := { name := some "app", ns := some "db" }
  old := { sources := [{ pvc := some ⟨"data"⟩ }] }
  new := { sources := [{ pvcSelector := some {}, sourcePathStrategy := some strategy }] }
  baseName := "nightly"
  matchedOld := fun _ => []
  matchedNew := fun _ => [⟨"db", "data"⟩]

theorem expansion_selectorEdit (strategy : SourcePathStrategy) :
    ∃ members, expandSources (selectorEdit strategy).after "nightly" (fun _ => [⟨"db", "data"⟩]) =
      .ok (some members) := by
  cases strategy <;> exact ⟨_, rfl⟩

theorem takesBefore_selectorEdit {strategy : SourcePathStrategy} {i : Nat} {source : Source}
    {t : PvcTargetRef} (h : (selectorEdit strategy).TakesBefore i source t) :
    source = { pvc := some ⟨"data"⟩ } ∧ t = ⟨"db", "data"⟩ := by
  obtain ⟨hsource, ⟨-, rfl, hcaptured⟩ | ⟨⟨members, hsome⟩, -⟩⟩ := h
  · cases hsource
    cases hcaptured
    exact ⟨rfl, rfl⟩
  · cases hsome

theorem takesAfter_selectorEdit {strategy : SourcePathStrategy} {i : Nat} {source : Source}
    {t : PvcTargetRef} (h : (selectorEdit strategy).TakesAfter i source t) :
    source = { pvcSelector := some {}, sourcePathStrategy := some strategy } := by
  have hmem := List.mem_of_getElem? h.1
  exact List.mem_singleton.mp hmem

theorem selectorEdit_takes (strategy : SourcePathStrategy) :
    (selectorEdit strategy).TakesAfter 0
      { pvcSelector := some {}, sourcePathStrategy := some strategy } ⟨"db", "data"⟩ :=
  ⟨rfl, Or.inr ⟨expansion_selectorEdit strategy, ⟨rfl, rfl, rfl, rfl⟩, List.mem_singleton.mpr rfl⟩⟩

theorem keepsPaths_selectorEdit : (selectorEdit .pvcName).KeepsPaths := by
  refine (PolicyEdit.keepsPaths_iff (by decide)).mpr ?_
  intro t i source htakes _ _
  obtain ⟨rfl, rfl⟩ := takesBefore_selectorEdit htakes
  exact ⟨0, _, selectorEdit_takes .pvcName, rfl⟩

def noOtherChecks : BackupChecks Unit := ⟨fun _ _ => false, fun _ _ => [], fun _ _ => []⟩

/-- A plain PVC source that becomes a selector with namespaced paths is admitted, and
moves the PVC from `/pvc/data` to `/pvc/db/data`. -/
theorem selectorEdit_moves :
    let edit := selectorEdit .pvcNamespacedName
    let config : SnapshotPolicySpec → BackupConfig Unit := fun spec =>
      { metadata := edit.metadata, spec, repository := some { name := "repo" } }
    backupConfigErrors noOtherChecks (config edit.old) = [] ∧
      backupConfigErrors noOtherChecks (config edit.new) = [] ∧
      detectSourcePathFork edit.old edit.new true false = none ∧
      BackedUp edit.before edit.baseName edit.matchedOld (.pvc ⟨"db", "data"⟩) "/pvc/data" ∧
      BackedUp edit.after edit.baseName edit.matchedNew (.pvc ⟨"db", "data"⟩) "/pvc/db/data" ∧
      ¬ edit.KeepsPaths := by
  intro edit config
  have hold : BackedUp edit.before edit.baseName edit.matchedOld (.pvc ⟨"db", "data"⟩)
      "/pvc/data" := ⟨_, rfl, rfl, rfl⟩
  have hnew : BackedUp edit.after edit.baseName edit.matchedNew (.pvc ⟨"db", "data"⟩)
      "/pvc/db/data" :=
    backedUp_pvc_iff.mpr ⟨0, _, selectorEdit_takes .pvcNamespacedName, rfl⟩
  refine ⟨by decide, by decide, by decide, hold, hnew, fun hkeeps => ?_⟩
  have hafter := hkeeps _ ⟨_, hnew⟩ _ hold
  obtain ⟨i, source, htakes, hpath⟩ := backedUp_pvc_iff.mp hafter
  rw [takesAfter_selectorEdit htakes] at hpath
  exact absurd hpath (by decide)

end Kopiur
