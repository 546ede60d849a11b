import Kopiur.Webhook.BackupConfig

/-!
# The source of a run

A run mounts a claim or a staged copy of it, pins its pod to the node of a claim,
waits for a claim that is missing, and records the path of one. All but the
claim of the node are derived from the pin of the Snapshot; that one is the claim
of the policy's first source, unless the run is staged.
-/

namespace Kopiur.SourceRun

open Kopiur.Lib (bind_eq_ok)

structure RunPolicy extends SnapshotPolicy where
  copyMethod : CopyMethod := .snapshot
deriving DecidableEq

inductive MountSource
  | pvc (claimName : String)
  | nfs (server path : String)
deriving DecidableEq

structure VolumeMountSpec where
  source : MountSource
  mountPath : String
  readOnly : Bool
deriving DecidableEq

def VolumeMountSpec.claim (mount : VolumeMountSpec) : Option String :=
  match mount.source with
  | .pvc claimName => some claimName
  | .nfs _ _ => none

inductive RunError
  | validation (e : ValidationError)
  | unpinned (message : String)
  | invariant (message : String)
deriving DecidableEq

def validated {α : Type} : Except ValidationError α → Except RunError α
  | .ok a => .ok a
  | .error e => .error (.validation e)

def nfsSourceMountPath : String := "/nfs"

/-- What a run mounts, under which path, and what it streams. -/
structure SourceInput where
  sourcePath : String
  mount : Option VolumeMountSpec
  stream : Option StreamSource
deriving DecidableEq

def mountedSource (policy : RunPolicy) (source : Source) (eff : EffectiveSource) :
    Except RunError SourceInput :=
  match eff.pvc, source.nfs with
  | some pvc, none =>
    let path := (eff.kopiaSourcePath (strategyFor source)).getD ("/pvc/" ++ pvc.name)
    .ok ⟨path, some ⟨.pvc pvc.name, path, eff.readOnly⟩, none⟩
  | none, some nfs =>
    let requested := source.sourcePathOverride.getD nfs.path
    let mountPath := if requested = "/" then nfsSourceMountPath else requested
    .ok ⟨mountPath, some ⟨.nfs nfs.server nfs.path, mountPath, eff.readOnly⟩, none⟩
  | none, none =>
    if source.pvcSelector.isSome then
      .error (.unpinned
        ("SnapshotPolicy `" ++ policy.nameAny ++ "` source #" ++ toString eff.index ++
          " is a `pvcSelector`, but this Snapshot has no " ++
          "`spec.source` naming a PVC. Fix: use `kubectl kopiur snapshot now --policy " ++
          policy.nameAny ++ "` or a SnapshotSchedule, which create one Snapshot per PVC."))
    else
      .error (.invariant
        "backup mover path requires exactly one of source.pvc or source.nfs")
  | some _, some _ =>
    .error (.invariant "backup mover path requires exactly one of source.pvc or source.nfs")

/-- The source part of `build_backup_run`. -/
def buildSource (policy : RunPolicy) (pin : Option SnapshotSourceRef) :
    Except RunError SourceInput := do
  let eff ← validated (effectiveSource policy.toSnapshotPolicy pin)
  match policy.spec.sources[eff.index]? with
  | none => .error (.invariant "SnapshotPolicy has no sources")
  | some source =>
    match ← validated (sourceShape source) with
    | .stream stream =>
      .ok ⟨source.sourcePathOverride.getD (streamSourcePath stream), none, some stream⟩
    | .pvc _ | .pvcSelector _ | .nfs _ => mountedSource policy source eff

inductive StagingApplicability
  | notApplicable
  | clusterScopeRequired
  | proceed (sourceName : String)
deriving DecidableEq

def stagingApplicability (copyMethod : CopyMethod) (sourcePvc : Option String)
    (namespacedInstall : Bool) : StagingApplicability :=
  if copyMethod = .direct then .notApplicable
  else
    match sourcePvc with
    | none => .notApplicable
    | some name => if namespacedInstall then .clusterScopeRequired else .proceed name

structure StagedSource where
  pvcName : String
  copyOf : String
deriving DecidableEq

inductive StagingOutcome
  | notApplicable
  | ready (staged : StagedSource)
  /-- Still waiting, or failed. -/
  | held
deriving DecidableEq

/-- `staged` is the name of the copy, `stage` whether the cluster has made it. -/
def resolveStaging (policy : RunPolicy) (pin : Option SnapshotSourceRef) (namespacedInstall : Bool)
    (staged : String) (stage : String → Bool) : Except RunError StagingOutcome := do
  let eff ← validated (effectiveSource policy.toSnapshotPolicy pin)
  match stagingApplicability policy.copyMethod (eff.pvc.map PvcTargetRef.name)
    namespacedInstall with
  | .notApplicable => .ok .notApplicable
  | .clusterScopeRequired => .ok .held
  | .proceed sourceName => .ok (if stage sourceName then .ready ⟨staged, sourceName⟩ else .held)

/-- A run as its Job is about to be made. -/
structure LaunchedRun where
  sourcePath : String
  identityPath : Option String
  mount : Option VolumeMountSpec
  staged : Option StagedSource
  colocationClaim : Option String
deriving DecidableEq

def firstClaim (policy : RunPolicy) : Option String :=
  (policy.spec.sources.head?.bind Source.pvc).map PvcSource.name

def swapMount (mount : Option VolumeMountSpec) (staged : Option StagedSource) :
    Option VolumeMountSpec :=
  match staged with
  | some s => mount.map fun m => { m with source := .pvc s.pvcName }
  | none => mount

/-- The launch up to the Job; `none` while staging holds it. -/
def launchRun (policy : RunPolicy) (pin : Option SnapshotSourceRef) (namespacedInstall : Bool)
    (staged : String) (stage : String → Bool) : Except RunError (Option LaunchedRun) := do
  let identityPath ← validated (identitySourcePath policy.toSnapshotPolicy pin)
  let input ← buildSource policy pin
  let run := fun claim : Option StagedSource =>
    { sourcePath := input.sourcePath
      identityPath
      mount := swapMount input.mount claim
      staged := claim
      colocationClaim := (claim.map StagedSource.pvcName).or (firstClaim policy) : LaunchedRun }
  match ← resolveStaging policy pin namespacedInstall staged stage with
  | .notApplicable => .ok (some (run none))
  | .ready s => .ok (some (run (some s)))
  | .held => .ok none

def LaunchedRun.mountedClaim (run : LaunchedRun) : Option String :=
  run.mount.bind VolumeMountSpec.claim

def LaunchedRun.livePvc (run : LaunchedRun) (ns : String) : Option PvcTargetRef :=
  match run.staged with
  | some s => some ⟨ns, s.copyOf⟩
  | none => run.mountedClaim.map fun claim => ⟨ns, claim⟩

-- The governing source

def governingPvc (policy : RunPolicy) (pin : Option SnapshotSourceRef) (source : Source) :
    Option PvcTargetRef :=
  match pin with
  | some p => some p.target
  | none => source.pvc.map fun p => ⟨policy.ns, p.name⟩

theorem validated_eq_ok {α : Type} {x : Except ValidationError α} {a : α} :
    validated x = .ok a ↔ x = .ok a := by
  cases x <;> simp [validated]

variable {source : Source}

theorem pvc_eq_none_of_stream {stream : StreamSource}
    (h : sourceShape source = .ok (.stream stream)) : source.pvc = none := by
  obtain ⟨pvc, selector, nfs, stream, _, _, _⟩ := source
  cases pvc <;> cases selector <;> cases nfs <;> cases stream <;>
    simp_all [sourceShape, Source.formsSet]

theorem strategyFor_plain {shape : SourceShape} (h : sourceShape source = .ok shape)
    (hpvc : source.pvc.isSome = true) :
    strategyFor source = .pvcName := by
  obtain ⟨pvc, selector, nfs, stream, _, _, _⟩ := source
  cases pvc <;> cases selector <;> cases nfs <;> cases stream <;>
    simp_all [sourceShape, Source.formsSet, strategyFor]

/-- A source that a pin governs has a claim to pin. -/
structure Governs (policy : RunPolicy) (pin : Option SnapshotSourceRef) (source : Source)
    (eff : EffectiveSource) : Prop where
  index : eff.index = (pin.map SnapshotSourceRef.sourceIndex).getD 0
  found : policy.spec.sources[eff.index]? = some source
  override : eff.sourcePathOverride = source.sourcePathOverride
  pvc : eff.pvc = governingPvc policy pin source
  pinned : pin.isSome = true → ∀ stream, sourceShape source ≠ .ok (.stream stream)

variable {policy : RunPolicy} {pin : Option SnapshotSourceRef}

theorem governs_of_effectiveSource {eff : EffectiveSource}
    (h : effectiveSource policy.toSnapshotPolicy pin = .ok eff) :
    ∃ source, Governs policy pin source eff := by
  unfold effectiveSource effectiveSourceIn at h
  cases hsource : policy.spec.sources[(pin.map SnapshotSourceRef.sourceIndex).getD 0]? with
  | none => simp [hsource] at h
  | some source =>
    simp only [hsource] at h
    cases pin with
    | none =>
      obtain rfl := Except.ok.inj h
      exact ⟨source, rfl, hsource, rfl, rfl, fun hpin => by cases hpin⟩
    | some p =>
      simp only [Option.map_some] at h
      cases hshape : sourceShape source with
      | error e => simp [hshape] at h
      | ok shape =>
        simp only [hshape] at h
        cases shape with
        | pvc s =>
          obtain rfl := Except.ok.inj h
          exact ⟨source, rfl, hsource, rfl, rfl, fun _ _ => by simp [hshape]⟩
        | pvcSelector s =>
          obtain rfl := Except.ok.inj h
          exact ⟨source, rfl, hsource, rfl, rfl, fun _ _ => by simp [hshape]⟩
        | nfs s => cases h
        | stream s => cases h

theorem Governs.kopiaSourcePath {eff : EffectiveSource} (h : Governs policy pin source eff)
    {t : PvcTargetRef} (ht : eff.pvc = some t) :
    eff.kopiaSourcePath (strategyFor source) = some (source.memberPath t) := by
  rw [kopiaSourcePath_pvc eff t ht, h.override]
  rfl

theorem buildSource_cases {input : SourceInput} (h : buildSource policy pin = .ok input) :
    ∃ source eff, effectiveSource policy.toSnapshotPolicy pin = .ok eff ∧
      Governs policy pin source eff ∧ (∃ shape, sourceShape source = .ok shape) ∧
      ((∃ t readOnly, eff.pvc = some t ∧ input.sourcePath = source.memberPath t ∧
          input.mount = some ⟨.pvc t.name, source.memberPath t, readOnly⟩) ∨
        (eff.pvc = none ∧ input.mount.bind VolumeMountSpec.claim = none)) := by
  obtain ⟨eff, heff, h⟩ := bind_eq_ok.mp h
  rw [validated_eq_ok] at heff
  obtain ⟨source, hgoverns⟩ := governs_of_effectiveSource heff
  simp only [hgoverns.found] at h
  obtain ⟨shape, hshape, h⟩ := bind_eq_ok.mp h
  rw [validated_eq_ok] at hshape
  refine ⟨source, eff, heff, hgoverns, ⟨shape, hshape⟩, ?_⟩
  have hmounted : ∀ h : mountedSource policy source eff = .ok input,
      (∃ t readOnly, eff.pvc = some t ∧ input.sourcePath = source.memberPath t ∧
          input.mount = some ⟨.pvc t.name, source.memberPath t, readOnly⟩) ∨
        (eff.pvc = none ∧ input.mount.bind VolumeMountSpec.claim = none) := by
    intro h
    unfold mountedSource at h
    cases hpvc : eff.pvc with
    | some t =>
      cases hnfs : source.nfs with
      | some nfs => simp [hpvc, hnfs] at h
      | none =>
        simp only [hpvc, hnfs, hgoverns.kopiaSourcePath hpvc, Option.getD_some,
          Except.ok.injEq] at h
        subst h
        exact .inl ⟨t, eff.readOnly, rfl, rfl, rfl⟩
    | none =>
      cases hnfs : source.nfs with
      | some nfs =>
        simp only [hpvc, hnfs, Except.ok.injEq] at h
        subst h
        exact .inr ⟨rfl, rfl⟩
      | none =>
        simp only [hpvc, hnfs] at h
        split at h <;> cases h
  cases shape with
  | stream stream =>
    obtain rfl := Except.ok.inj h
    have hpin : pin = none := by
      rw [← Option.not_isSome_iff_eq_none]
      exact fun hpin => hgoverns.pinned hpin stream hshape
    refine .inr ⟨?_, rfl⟩
    rw [hgoverns.pvc, hpin, governingPvc, pvc_eq_none_of_stream hshape]
    rfl
  | pvc s => exact hmounted h
  | pvcSelector s => exact hmounted h
  | nfs s => exact hmounted h

theorem identitySourcePath_governs {eff : EffectiveSource}
    (heff : effectiveSource policy.toSnapshotPolicy pin = .ok eff)
    (h : Governs policy pin source eff) :
    identitySourcePath policy.toSnapshotPolicy pin =
      .ok (eff.kopiaSourcePath (strategyFor source)) := by
  have hne : policy.spec.sources.isEmpty = false := by
    rw [List.isEmpty_eq_false_iff]
    intro hnil
    have hfound := h.found
    rw [hnil, List.getElem?_nil] at hfound
    cases hfound
  have heff' : effectiveSourceIn policy.spec.sources policy.ns policy.nameAny pin = .ok eff := heff
  simp [identitySourcePath, identitySourcePathIn, hne, heff', h.found, bind, Except.bind]

/-- The ways a run is launched. -/
inductive LaunchedAs (policy : RunPolicy) (pin : Option SnapshotSourceRef) (run : LaunchedRun)
    (source : Source) : Prop
  | live (t : PvcTargetRef) (governs : governingPvc policy pin source = some t)
      (direct : policy.copyMethod = .direct) (mounted : run.mountedClaim = some t.name)
      (staged : run.staged = none) (colocated : run.colocationClaim = firstClaim policy)
      (path : run.sourcePath = source.memberPath t)
      (identity : run.identityPath = some (source.memberPath t))
  | copied (t : PvcTargetRef) (governs : governingPvc policy pin source = some t)
      (copies : policy.copyMethod ≠ .direct) (claim : String)
      (mounted : run.mountedClaim = some claim) (staged : run.staged = some ⟨claim, t.name⟩)
      (colocated : run.colocationClaim = some claim)
      (path : run.sourcePath = source.memberPath t)
      (identity : run.identityPath = some (source.memberPath t))
  | unmounted (governs : governingPvc policy pin source = none) (mounted : run.mountedClaim = none)
      (staged : run.staged = none) (colocated : run.colocationClaim = firstClaim policy)

theorem launchRun_cases {install : Bool} {staged : String} {stage : String → Bool}
    {run : LaunchedRun} (h : launchRun policy pin install staged stage = .ok (some run)) :
    ∃ source, policy.spec.sources[(pin.map SnapshotSourceRef.sourceIndex).getD 0]? = some source ∧
      (∃ shape, sourceShape source = .ok shape) ∧ LaunchedAs policy pin run source := by
  obtain ⟨identityPath, hidentity, h⟩ := bind_eq_ok.mp h
  obtain ⟨input, hinput, h⟩ := bind_eq_ok.mp h
  obtain ⟨outcome, houtcome, h⟩ := bind_eq_ok.mp h
  obtain ⟨source, eff, heff, hgoverns, hshape, hmount⟩ := buildSource_cases hinput
  rw [validated_eq_ok, identitySourcePath_governs heff hgoverns, Except.ok.injEq] at hidentity
  have hfound := hgoverns.found
  rw [hgoverns.index] at hfound
  refine ⟨source, hfound, hshape, ?_⟩
  obtain ⟨eff', heff', houtcome⟩ := bind_eq_ok.mp houtcome
  rw [validated_eq_ok, heff] at heff'
  obtain rfl := Except.ok.inj heff'
  have hpvc := hgoverns.pvc
  rcases hmount with ⟨t, readOnly, ht, hpath, hmount⟩ | ⟨hnone, hmount⟩
  · rw [hgoverns.kopiaSourcePath ht] at hidentity
    rw [ht] at hpvc
    rw [ht, Option.map_some] at houtcome
    unfold stagingApplicability at houtcome
    by_cases hdirect : policy.copyMethod = .direct
    · rw [if_pos hdirect] at houtcome
      obtain rfl := Except.ok.inj houtcome
      obtain rfl := Option.some.inj (Except.ok.inj h)
      refine .live t hpvc.symm hdirect ?_ rfl rfl hpath hidentity.symm
      simp only [LaunchedRun.mountedClaim, swapMount, hmount]
      rfl
    · rw [if_neg hdirect] at houtcome
      cases install with
      | true =>
        obtain rfl := Except.ok.inj houtcome
        cases h
      | false =>
        obtain rfl := Except.ok.inj houtcome
        by_cases hstage : stage t.name = true
        · rw [if_pos hstage] at h
          obtain rfl := Option.some.inj (Except.ok.inj h)
          refine .copied t hpvc.symm hdirect staged ?_ rfl rfl hpath hidentity.symm
          simp only [LaunchedRun.mountedClaim, swapMount, hmount]
          rfl
        · rw [if_neg hstage] at h
          cases h
  · rw [hnone] at hpvc
    rw [hnone, Option.map_none] at houtcome
    have hout : outcome = .notApplicable := by
      unfold stagingApplicability at houtcome
      split at houtcome
      · next happ => exact (Except.ok.inj houtcome).symm
      · next happ => split at happ <;> cases happ
      · next happ => split at happ <;> cases happ
    subst hout
    obtain rfl := Option.some.inj (Except.ok.inj h)
    exact .unmounted hpvc.symm hmount rfl rfl

-- One source

/-- The claim that is mounted is the one the run is colocated with and waits for,
and the claim its data comes from is the one whose path is recorded. -/
structure OneSource (policy : RunPolicy) (pin : Option SnapshotSourceRef) (ns : String)
    (run : LaunchedRun) : Prop where
  colocated : run.colocationClaim = run.mountedClaim
  recorded : ∀ pvc, run.livePvc ns = some pvc → ∃ source,
    policy.spec.sources[(pin.map SnapshotSourceRef.sourceIndex).getD 0]? = some source ∧
      run.sourcePath = source.memberPath pvc ∧ run.identityPath = some (source.memberPath pvc)

/-- A run that copies its source, or has no pin, or pins the claim of the first
source; and where the path names a namespace, that is the one of the run. -/
structure PinFits (policy : RunPolicy) (pin : Option SnapshotSourceRef) (ns : String) : Prop where
  first : policy.copyMethod = .direct → ∀ p, pin = some p → firstClaim policy = some p.target.name
  same_ns : ∀ p source, pin = some p → policy.spec.sources[p.sourceIndex]? = some source →
    source.sourcePathOverride = none → strategyFor source = .pvcNamespacedName → p.target.ns = ns

theorem firstClaim_of_found (h : policy.spec.sources[0]? = some source) :
    firstClaim policy = source.pvc.map PvcSource.name := by
  rw [firstClaim, List.head?_eq_getElem?, h]
  rfl

theorem memberPath_ns_iff {t : PvcTargetRef} {ns : String} :
    source.memberPath t = source.memberPath ⟨ns, t.name⟩ ↔
      (source.sourcePathOverride = none → strategyFor source = .pvcNamespacedName → t.ns = ns) := by
  unfold Source.memberPath
  cases source.sourcePathOverride with
  | some o => simp
  | none =>
    cases strategyFor source with
    | pvcName => simp [pvcPath]
    | pvcNamespacedName => simp [pvcPath, String.append_assoc]

theorem memberPath_governing {ns : String} {shape : SourceShape} {t : PvcTargetRef}
    (h : PinFits policy pin ns)
    (hfound : policy.spec.sources[(pin.map SnapshotSourceRef.sourceIndex).getD 0]? = some source)
    (hshape : sourceShape source = .ok shape) (hgoverns : governingPvc policy pin source = some t) :
    source.memberPath t = source.memberPath ⟨ns, t.name⟩ := by
  refine memberPath_ns_iff.mpr fun hoverride hstrategy => ?_
  cases pin with
  | none =>
    have hpvc : source.pvc.isSome = true := by
      rw [governingPvc, Option.map_eq_some_iff] at hgoverns
      obtain ⟨p, hp, -⟩ := hgoverns
      rw [hp]
      rfl
    rw [strategyFor_plain hshape hpvc] at hstrategy
    cases hstrategy
  | some p =>
    obtain rfl := Option.some.inj hgoverns
    exact h.same_ns p source rfl hfound hoverride hstrategy

theorem firstClaim_governing {ns : String} {t : PvcTargetRef} (h : PinFits policy pin ns)
    (hfound : policy.spec.sources[(pin.map SnapshotSourceRef.sourceIndex).getD 0]? = some source)
    (hgoverns : governingPvc policy pin source = some t) (hdirect : policy.copyMethod = .direct) :
    firstClaim policy = some t.name := by
  cases pin with
  | none =>
    rw [governingPvc, Option.map_eq_some_iff] at hgoverns
    obtain ⟨p, hp, rfl⟩ := hgoverns
    rw [firstClaim_of_found hfound, hp]
    rfl
  | some p =>
    obtain rfl := Option.some.inj hgoverns
    exact h.first hdirect p rfl

theorem PinFits.oneSource {ns : String} {run : LaunchedRun} {shape : SourceShape}
    (h : PinFits policy pin ns)
    (hfound : policy.spec.sources[(pin.map SnapshotSourceRef.sourceIndex).getD 0]? = some source)
    (hshape : sourceShape source = .ok shape) (hrun : LaunchedAs policy pin run source) :
    OneSource policy pin ns run := by
  cases hrun with
  | live t governs direct mounted staged colocated path identity =>
    have hpath := memberPath_governing h hfound hshape governs
    refine ⟨?_, fun pvc hpvc => ⟨source, hfound, ?_⟩⟩
    · rw [colocated, mounted, firstClaim_governing h hfound governs direct]
    · rw [LaunchedRun.livePvc, staged, mounted] at hpvc
      obtain rfl := Option.some.inj hpvc
      exact ⟨path.trans hpath, identity.trans (congrArg some hpath)⟩
  | copied t governs copies claim mounted staged colocated path identity =>
    have hpath := memberPath_governing h hfound hshape governs
    refine ⟨colocated.trans mounted.symm, fun pvc hpvc => ⟨source, hfound, ?_⟩⟩
    rw [LaunchedRun.livePvc, staged] at hpvc
    obtain rfl := Option.some.inj hpvc
    exact ⟨path.trans hpath, identity.trans (congrArg some hpath)⟩
  | unmounted governs mounted staged colocated =>
    refine ⟨?_, fun pvc hpvc => ?_⟩
    · cases pin with
      | none =>
        rw [governingPvc, Option.map_eq_none_iff] at governs
        rw [colocated, mounted, firstClaim_of_found hfound, governs]
        rfl
      | some p => cases governs
    · rw [LaunchedRun.livePvc, staged, mounted] at hpvc
      cases hpvc

theorem OneSource.pinFits {ns : String} {run : LaunchedRun} (h : OneSource policy pin ns run)
    (hfound : policy.spec.sources[(pin.map SnapshotSourceRef.sourceIndex).getD 0]? = some source)
    (hrun : LaunchedAs policy pin run source) : PinFits policy pin ns := by
  have hpath : ∀ t, run.livePvc ns = some ⟨ns, t.name⟩ → run.sourcePath = source.memberPath t →
      source.memberPath t = source.memberPath ⟨ns, t.name⟩ := by
    intro t hlive hpath
    obtain ⟨source', hfound', hpath', -⟩ := h.recorded _ hlive
    obtain rfl := Option.some.inj (hfound.symm.trans hfound')
    exact hpath.symm.trans hpath'
  cases hrun with
  | live t governs direct mounted staged colocated path identity =>
    have hlive : run.livePvc ns = some ⟨ns, t.name⟩ := by
      rw [LaunchedRun.livePvc, staged, mounted]
      rfl
    refine ⟨fun _ p hpin => ?_, fun p source' hpin hfound' hoverride hstrategy => ?_⟩
    · subst hpin
      obtain rfl := Option.some.inj governs
      rw [← colocated, h.colocated, mounted]
    · subst hpin
      obtain rfl := Option.some.inj governs
      obtain rfl := Option.some.inj (hfound.symm.trans hfound')
      exact memberPath_ns_iff.mp (hpath _ hlive path) hoverride hstrategy
  | copied t governs copies claim mounted staged colocated path identity =>
    have hlive : run.livePvc ns = some ⟨ns, t.name⟩ := by
      rw [LaunchedRun.livePvc, staged]
    refine ⟨fun hdirect => absurd hdirect copies,
      fun p source' hpin hfound' hoverride hstrategy => ?_⟩
    subst hpin
    obtain rfl := Option.some.inj governs
    obtain rfl := Option.some.inj (hfound.symm.trans hfound')
    exact memberPath_ns_iff.mp (hpath _ hlive path) hoverride hstrategy
  | unmounted governs mounted staged colocated =>
    cases pin with
    | none => exact ⟨fun _ p hpin => (by cases hpin), fun p _ hpin => (by cases hpin)⟩
    | some p => cases governs

/-- A launched run has one source exactly if its pin fits. -/
theorem oneSource_iff_pinFits (policy : RunPolicy) (pin : Option SnapshotSourceRef) (ns : String)
    (install : Bool) (staged : String) (stage : String → Bool) (run : LaunchedRun)
    (h : launchRun policy pin install staged stage = .ok (some run)) :
    OneSource policy pin ns run ↔ PinFits policy pin ns := by
  obtain ⟨source, hfound, ⟨shape, hshape⟩, hrun⟩ := launchRun_cases h
  exact ⟨fun hone => hone.pinFits hfound hrun, fun hpin => hpin.oneSource hfound hshape hrun⟩

/-- A policy that selects claims in `apps`, after a plain source if it has one. -/
def selecting (plain : List Source) (copyMethod : CopyMethod) : RunPolicy where
  metadata := { name := some "media", ns := some "apps" }
  spec := { sources := plain ++ [{ pvcSelector := some ⟨[("app", "media")]⟩ }] }
  copyMethod

def memberPin (sourceIndex : Nat) : SnapshotSourceRef where
  sourceIndex
  target := ⟨"apps", "data-0"⟩

theorem oneSource_staged : ∃ run,
    launchRun (selecting [] .snapshot) (some (memberPin 0)) false "run-src" (fun _ => true) =
      .ok (some run) ∧ OneSource (selecting [] .snapshot) (some (memberPin 0)) "apps" run := by
  have hrun : launchRun (selecting [] .snapshot) (some (memberPin 0)) false "run-src"
      (fun _ => true) = .ok (some _) := rfl
  refine ⟨_, hrun, (oneSource_iff_pinFits _ _ "apps" _ _ _ _ hrun).mpr ⟨fun hdirect => ?_, ?_⟩⟩
  · cases hdirect
  · intro p source hpin _ _ _
    obtain rfl := Option.some.inj hpin
    rfl

/-- A selected claim that is mounted directly: the run is colocated with no claim
and waits for none, or with and for the claim of another source. -/
theorem direct_member_sources :
    (∃ run, launchRun (selecting [] .direct) (some (memberPin 0)) false "run-src" (fun _ => true) =
        .ok (some run) ∧ run.mountedClaim = some "data-0" ∧ run.colocationClaim = none ∧
      ¬ OneSource (selecting [] .direct) (some (memberPin 0)) "apps" run) ∧
    ∃ run, launchRun (selecting [{ pvc := some ⟨"config"⟩ }] .direct) (some (memberPin 1)) false
        "run-src" (fun _ => true) = .ok (some run) ∧ run.mountedClaim = some "data-0" ∧
      run.colocationClaim = some "config" ∧
      ¬ OneSource (selecting [{ pvc := some ⟨"config"⟩ }] .direct) (some (memberPin 1)) "apps"
        run := by
  refine ⟨⟨_, rfl, rfl, rfl, fun h => ?_⟩, _, rfl, rfl, rfl, fun h => ?_⟩
  · have hclaims := h.colocated
    exact absurd hclaims (by decide)
  · have hclaims := h.colocated
    exact absurd hclaims (by decide)

end Kopiur.SourceRun
