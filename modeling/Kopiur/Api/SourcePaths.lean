import Kopiur.Api.Policy

/-!
# kopia source paths

A backup records its data under one path. A restore into a PVC reads the path
it derives for that PVC from the policy alone.
-/

namespace Kopiur

structure SnapshotSourceGroup where
  ns : String
  volumeGroupSnapshotName : String
deriving DecidableEq

/-- The pin of a fanned-out child: which source it came from, and its PVC. -/
structure SnapshotSourceRef where
  sourceIndex : Nat
  target : PvcTargetRef
  group : Option SnapshotSourceGroup := none
deriving DecidableEq

structure EffectiveSource where
  index : Nat
  pvc : Option PvcTargetRef
  nfsPath : Option String
  stream : Option StreamSource
  sourcePathOverride : Option String
  readOnly : Bool
deriving DecidableEq

def pvcPath (p : PvcTargetRef) : SourcePathStrategy → String
  | .pvcName => "/pvc/" ++ p.name
  | .pvcNamespacedName => "/pvc/" ++ p.ns ++ "/" ++ p.name

def EffectiveSource.kopiaSourcePath (eff : EffectiveSource) (strategy : SourcePathStrategy) :
    Option String :=
  match eff.sourcePathOverride with
  | some o => some o
  | none =>
    match eff.pvc with
    | some p => some (pvcPath p strategy)
    | none =>
      match eff.stream with
      | some stream => some (streamSourcePath stream)
      | none => eff.nfsPath

/-- The source one snapshot covers. A pin must name a PVC-shaped source that
still exists; without one the first source governs. -/
def effectiveSourceIn (sources : List Source) (policyNs policyName : String)
    (pin : Option SnapshotSourceRef) : Except ValidationError EffectiveSource :=
  let index := (pin.map SnapshotSourceRef.sourceIndex).getD 0
  match sources[index]? with
  | none =>
    .error (.invalidFieldValue "spec.source.sourceIndex"
      ("is " ++ toString index ++ " but SnapshotPolicy `" ++ policyName ++ "` now has " ++
        toString sources.length ++ " source(s) (it was edited). Fix: delete this Snapshot and " ++
        "let the schedule re-fire"))
  | some source =>
    let common := fun pvc : Option PvcTargetRef =>
      { index
        pvc
        nfsPath := source.nfs.map NfsVolume.path
        stream := source.stream
        sourcePathOverride := source.sourcePathOverride
        readOnly := sourceReadOnly source : EffectiveSource }
    match pin.map SnapshotSourceRef.target with
    | some t =>
      match sourceShape source with
      | .error e => .error e
      | .ok (.pvcSelector _) | .ok (.pvc _) => .ok (common (some t))
      | .ok shape =>
        .error (.invalidFieldValue "spec.source.target.pvc"
          ("pins PVC `" ++ t.ns ++ "/" ++ t.name ++ "`, but SnapshotPolicy `" ++ policyName ++
            "` sources[" ++ toString index ++ "] is a `" ++ shape.kindStr ++
            "` source with no PVC. Fix: drop `spec.source`, or point this Snapshot at a policy " ++
            "whose sources[" ++ toString index ++ "] is a PVC source"))
    | none => .ok (common (source.pvc.map fun p => ⟨policyNs, p.name⟩))

def effectiveSource (policy : SnapshotPolicy) (pin : Option SnapshotSourceRef) :
    Except ValidationError EffectiveSource :=
  effectiveSourceIn policy.spec.sources policy.ns policy.nameAny pin

/-- The path a backup records. No sources and no pin is the pathless identity. -/
def identitySourcePathIn (sources : List Source) (policyNs policyName : String)
    (pin : Option SnapshotSourceRef) : Except ValidationError (Option String) :=
  if sources.isEmpty && pin.isNone then .ok none
  else do
    let eff ← effectiveSourceIn sources policyNs policyName pin
    let strategy := (sources[eff.index]?.map strategyFor).getD .pvcName
    .ok (eff.kopiaSourcePath strategy)

def identitySourcePath (policy : SnapshotPolicy) (pin : Option SnapshotSourceRef) :
    Except ValidationError (Option String) :=
  identitySourcePathIn policy.spec.sources policy.ns policy.nameAny pin

-- The restore side

inductive RestoreSourcePath
  | override (path : String)
  | policySource (path : Option String)
  | derivedFromTarget (path : String)
deriving DecidableEq

inductive RestoreShape
  | pvc (name : String)
  | selector (strategy : SourcePathStrategy) (sourcePathOverride : Option String)
  | nfs
  | stream
  | invalid
deriving DecidableEq

def restoreShape (source : Source) : RestoreShape :=
  match sourceShape source with
  | .ok (.pvcSelector _) => .selector (strategyFor source) source.sourcePathOverride
  | .ok (.pvc p) => .pvc p.name
  | .ok (.nfs _) => .nfs
  | .ok (.stream _) => .stream
  | .error _ => .invalid

def malformedSourcePath (policy : SnapshotPolicy) : ValidationError :=
  .invalidFieldValue "spec.source.fromPolicy.sourcePath"
    ("SnapshotPolicy `" ++ policy.nameAny ++ "` has a source that does not set exactly one of " ++
      "pvc/pvcSelector/nfs/stream, so the path to restore is unknown. Fix: repair the " ++
      "policy's sources[], or set source.fromPolicy.sourcePath")

def ambiguousSourcePath (policy : SnapshotPolicy) : ValidationError :=
  .invalidFieldValue "spec.source.fromPolicy.sourcePath"
    ("SnapshotPolicy `" ++ policy.nameAny ++ "` selector sources have no single per-PVC path " ++
      "(they differ in sourcePathStrategy/sourcePathOverride, or share one " ++
      "sourcePathOverride), so kopiur cannot tell which volume to restore. Fix: set " ++
      "source.fromPolicy.sourcePath (e.g. /pvc/<name>)")

/-- The strategy and override all selectors share, `none` when two differ. -/
def agreedSelectors : List RestoreShape → Option (SourcePathStrategy × Option String) →
    Option (Option (SourcePathStrategy × Option String))
  | [], agreed => some agreed
  | .selector strategy override :: rest, agreed =>
    match agreed with
    | none => agreedSelectors rest (some (strategy, override))
    | some prev =>
      if prev = (strategy, override) then agreedSelectors rest agreed else none
  | _ :: rest, agreed => agreedSelectors rest agreed

def isSelectorShape : RestoreShape → Bool
  | .selector _ _ => true
  | _ => false

def restoreSourcePath (policy : SnapshotPolicy) (override : Option String)
    (target : PvcTargetRef) : Except ValidationError RestoreSourcePath :=
  match override with
  | some o => .ok (.override o)
  | none =>
    let sources := policy.spec.sources
    let shapes := sources.map restoreShape
    -- A plain source that names the target wins over any derivation.
    let exact := if policy.ns = target.ns then
      sources.find? fun s => decide (restoreShape s = .pvc target.name) else none
    match exact with
    | some source =>
      let eff : EffectiveSource :=
        { index := shapes.idxOf (.pvc target.name)
          pvc := some target
          nfsPath := none
          stream := none
          sourcePathOverride := source.sourcePathOverride
          readOnly := sourceReadOnly source }
      .ok (.policySource (eff.kopiaSourcePath (strategyFor source)))
    | none =>
      if !shapes.any isSelectorShape then
        match sources.head? with
        | none => .ok (.policySource none)
        | some first =>
          if restoreShape first = .invalid then .error (malformedSourcePath policy)
          else do
            let eff ← effectiveSource policy none
            .ok (.policySource (eff.kopiaSourcePath (strategyFor first)))
      else
        match agreedSelectors shapes none with
        | some (some (strategy, none)) =>
          let eff : EffectiveSource :=
            { index := 0
              pvc := some target
              nfsPath := none
              stream := none
              sourcePathOverride := none
              readOnly := true }
          match eff.kopiaSourcePath strategy with
          | some path => .ok (.derivedFromTarget path)
          | none => .error (ambiguousSourcePath policy)
        | _ => .error (ambiguousSourcePath policy)

def Source.memberPath (source : Source) (t : PvcTargetRef) : String :=
  source.sourcePathOverride.getD (pvcPath t (strategyFor source))

def Source.pathRule (source : Source) : SourcePathStrategy × Option String :=
  (strategyFor source, source.sourcePathOverride)

theorem Source.memberPath_congr {s s' : Source} (h : s.pathRule = s'.pathRule) (t : PvcTargetRef) :
    s.memberPath t = s'.memberPath t := by
  simp only [pathRule, Prod.mk.injEq] at h
  simp [memberPath, h.1, h.2]

theorem kopiaSourcePath_pvc (eff : EffectiveSource) (t : PvcTargetRef) (h : eff.pvc = some t)
    (strategy : SourcePathStrategy) :
    eff.kopiaSourcePath strategy = some (eff.sourcePathOverride.getD (pvcPath t strategy)) := by
  cases ho : eff.sourcePathOverride <;> simp [EffectiveSource.kopiaSourcePath, ho, h]

theorem identitySourcePath_member {policy : SnapshotPolicy} {pin : SnapshotSourceRef}
    {source : Source} (hsource : policy.spec.sources[pin.sourceIndex]? = some source)
    (hsel : source.IsSelector) :
    identitySourcePath policy (some pin) = .ok (some (source.memberPath pin.target)) := by
  obtain ⟨sel, hshape⟩ := sourceShape_eq_pvcSelector.mpr hsel
  simp [identitySourcePath, identitySourcePathIn, effectiveSourceIn, hsource, hshape,
    kopiaSourcePath_pvc, Source.memberPath, bind, Except.bind]

theorem identitySourcePath_malformed {policy : SnapshotPolicy} {pin : SnapshotSourceRef}
    {source : Source} (hsource : policy.spec.sources[pin.sourceIndex]? = some source)
    (hset : source.pvcSelector.isSome) (hsel : ¬ source.IsSelector) (p : Option String) :
    identitySourcePath policy (some pin) ≠ .ok p := by
  have hshape : ∃ e, sourceShape source = .error e := by
    obtain ⟨pvc, sel, nfs, stream, _, _, _⟩ := source
    cases pvc <;> cases sel <;> cases nfs <;> cases stream <;>
      simp_all [sourceShape, Source.formsSet, Source.IsSelector]
  obtain ⟨e, he⟩ := hshape
  simp [identitySourcePath, identitySourcePathIn, effectiveSourceIn, hsource, he, bind,
    Except.bind]

-- Restores of selector members

theorem restoreShape_selector {source : Source} (h : source.IsSelector) :
    restoreShape source = .selector (strategyFor source) source.sourcePathOverride := by
  obtain ⟨s, hs⟩ := sourceShape_eq_pvcSelector.mpr h
  simp [restoreShape, hs]

theorem isSelector_of_restoreShape {source : Source} {strategy : SourcePathStrategy}
    {override : Option String} (h : restoreShape source = .selector strategy override) :
    source.IsSelector ∧ source.pathRule = (strategy, override) := by
  have hsel : source.IsSelector := by
    refine sourceShape_eq_pvcSelector.mp ?_
    cases hshape : sourceShape source with
    | error e => simp [restoreShape, hshape] at h
    | ok shape =>
      cases shape with
      | pvcSelector s => exact ⟨s, rfl⟩
      | pvc s => simp [restoreShape, hshape] at h
      | nfs s => simp [restoreShape, hshape] at h
      | stream s => simp [restoreShape, hshape] at h
  rw [restoreShape_selector hsel] at h
  simp only [RestoreShape.selector.injEq] at h
  exact ⟨hsel, by simp [Source.pathRule, h.1, h.2]⟩

theorem agreedSelectors_eq_of_agree {shapes : List RestoreShape}
    {rule : SourcePathStrategy × Option String} {agreed : Option (SourcePathStrategy × Option String)}
    (hall : ∀ strategy override, .selector strategy override ∈ shapes → (strategy, override) = rule)
    (hagreed : agreed = some rule ∨ agreed = none ∧ shapes.any isSelectorShape = true) :
    agreedSelectors shapes agreed = some (some rule) := by
  induction shapes generalizing agreed with
  | nil => simpa [agreedSelectors] using hagreed
  | cons shape rest ih =>
    have hrest : ∀ strategy override, .selector strategy override ∈ rest → (strategy, override) = rule :=
      fun strategy override hm => hall strategy override (List.mem_cons_of_mem _ hm)
    cases shape with
    | selector strategy override =>
      have hrule := hall strategy override List.mem_cons_self
      rcases hagreed with rfl | ⟨rfl, -⟩
      · simp [agreedSelectors, hrule, ih hrest (.inl rfl)]
      · simp [agreedSelectors, hrule, ih hrest (.inl rfl)]
    | pvc _ | nfs | stream | invalid =>
      exact ih hrest (hagreed.imp_right fun h => ⟨h.1, by simpa [isSelectorShape] using h.2⟩)

theorem agree_of_agreedSelectors {shapes : List RestoreShape}
    {rule : SourcePathStrategy × Option String} {agreed : Option (SourcePathStrategy × Option String)}
    (h : agreedSelectors shapes agreed = some (some rule)) :
    (∀ r, agreed = some r → r = rule) ∧
      ∀ strategy override, .selector strategy override ∈ shapes → (strategy, override) = rule := by
  induction shapes generalizing agreed with
  | nil =>
    simp only [agreedSelectors, Option.some.injEq] at h
    subst h
    simp
  | cons shape rest ih =>
    cases shape with
    | selector strategy override =>
      cases agreed with
      | none =>
        obtain ⟨hfirst, hrest⟩ := ih h
        have hrule := hfirst _ rfl
        refine ⟨by simp, fun st ov hm => ?_⟩
        rcases List.mem_cons.mp hm with heq | hm
        · cases heq
          exact hrule
        · exact hrest st ov hm
      | some prev =>
        simp only [agreedSelectors] at h
        split at h
        case isFalse => cases h
        case isTrue hprev =>
          obtain ⟨hfirst, hrest⟩ := ih h
          refine ⟨hfirst, fun st ov hm => ?_⟩
          rcases List.mem_cons.mp hm with heq | hm
          · cases heq
            exact hprev ▸ hfirst _ rfl
          · exact hrest st ov hm
    | pvc _ | nfs | stream | invalid =>
      obtain ⟨hfirst, hrest⟩ := ih h
      exact ⟨hfirst, fun st ov hm => hrest st ov (by simpa using hm)⟩

def namedByPlainSource (policy : SnapshotPolicy) (t : PvcTargetRef) : Prop :=
  policy.ns = t.ns ∧ ∃ s ∈ policy.spec.sources, restoreShape s = .pvc t.name

instance (policy : SnapshotPolicy) (t : PvcTargetRef) : Decidable (namedByPlainSource policy t) :=
  inferInstanceAs (Decidable (_ ∧ _))

/-- Every selector of the policy derives member paths with this strategy, and
none puts all its members on one path. -/
def derivesPerPvc (policy : SnapshotPolicy) (strategy : SourcePathStrategy) : Prop :=
  ∀ s ∈ policy.spec.sources, s.IsSelector → s.pathRule = (strategy, none)

instance (policy : SnapshotPolicy) (strategy : SourcePathStrategy) :
    Decidable (derivesPerPvc policy strategy) :=
  inferInstanceAs (Decidable (∀ s ∈ policy.spec.sources, _))

theorem restoreSourcePath_of_selector {policy : SnapshotPolicy} {source : Source}
    {t : PvcTargetRef} (hsource : source ∈ policy.spec.sources) (hsel : source.IsSelector)
    (hplain : ¬ namedByPlainSource policy t) :
    restoreSourcePath policy none t =
      if derivesPerPvc policy (strategyFor source) then
        .ok (.derivedFromTarget (pvcPath t (strategyFor source)))
      else .error (ambiguousSourcePath policy) := by
  have hexact : (if policy.ns = t.ns then
      policy.spec.sources.find? fun s => decide (restoreShape s = .pvc t.name) else none) = none := by
    split
    case isFalse => rfl
    case isTrue hns =>
      refine List.find?_eq_none.mpr fun s hs hshape => hplain ⟨hns, s, hs, ?_⟩
      simpa using hshape
  have hmem : .selector (strategyFor source) source.sourcePathOverride ∈
      policy.spec.sources.map restoreShape :=
    List.mem_map.mpr ⟨source, hsource, restoreShape_selector hsel⟩
  have hany : (policy.spec.sources.map restoreShape).any isSelectorShape = true :=
    List.any_eq_true.mpr ⟨_, hmem, rfl⟩
  simp only [restoreSourcePath, hexact, hany, Bool.not_true, Bool.false_eq_true, if_false]
  split
  case h_1 strategy hagreed =>
    obtain ⟨-, hall⟩ := agree_of_agreedSelectors hagreed
    have hrule := hall _ _ hmem
    simp only [Prod.mk.injEq] at hrule
    have hderives : derivesPerPvc policy (strategyFor source) := by
      intro s hs hs'
      have := hall _ _ (List.mem_map.mpr ⟨s, hs, restoreShape_selector hs'⟩)
      rw [Source.pathRule, this, hrule.1]
    rw [if_pos hderives]
    simp [EffectiveSource.kopiaSourcePath, hrule.1]
  case h_2 hnot =>
    have hderives : ¬ derivesPerPvc policy (strategyFor source) := by
      intro hder
      refine hnot (strategyFor source) (agreedSelectors_eq_of_agree ?_ (.inr ⟨rfl, hany⟩))
      intro strategy override hm
      obtain ⟨s, hs, hshape⟩ := List.mem_map.mp hm
      obtain ⟨hs', hrule⟩ := isSelector_of_restoreShape hshape
      exact hrule ▸ hder s hs hs'
    simp [hderives]

end Kopiur
