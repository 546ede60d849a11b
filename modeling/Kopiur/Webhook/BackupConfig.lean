import Kopiur.Webhook.IdentityCollision

/-!
# Admission of a policy

The validator of a `SnapshotPolicy` with all its problems, and what it asks of
a policy that backs one PVC up into one repository. Verification, staging,
preflight and hooks are sections whose checks are a parameter.
-/

namespace Kopiur

inductive CopyMethod
  | snapshot
  | clone
  | direct
deriving DecidableEq

structure ResourceRequirements where
  requests : Option (List (String × String)) := none
  limits : Option (List (String × String)) := none
deriving DecidableEq

inductive InheritSecurityContextFrom
  | workloadSelector
  | pvcConsumer
  | snapshot
deriving DecidableEq

structure PolicyMover where
  resources : Option ResourceRequirements := none
  inheritSecurityContextFrom : Option InheritSecurityContextFrom := none
deriving DecidableEq

/-- `exceeds` compares two quantities; one that does not parse exceeds nothing
and is exceeded by nothing. -/
def requestsExceedingLimits (exceeds : String → String → Bool) (resources : ResourceRequirements) :
    Option (String × String × String) :=
  match resources.requests, resources.limits with
  | some requests, some limits =>
    requests.findSome? fun (key, request) =>
      (limits.lookup key).bind fun limit =>
        if exceeds request limit then some (key, request, limit) else none
  | _, _ => none

def validateResources (exceeds : String → String → Bool) (resources : ResourceRequirements)
    (context : String) : Option ValidationError :=
  (requestsExceedingLimits exceeds resources).map fun (key, request, limit) =>
    .invalidFieldValue (context ++ " resources.requests." ++ key)
      ("request `" ++ request ++ "` exceeds limit `" ++ limit ++ "`, so the mover pod can never " ++
        "start. Fix: lower the request or raise the limit")

def forbidSnapshotInherit (mover : PolicyMover) (field reason : String) : Option ValidationError :=
  match mover.inheritSecurityContextFrom with
  | some .snapshot =>
    some (.invalidFieldValue (field ++ ".mover.inheritSecurityContextFrom.snapshot") reason)
  | _ => none

def validateMover (exceeds : String → String → Bool) (mover : PolicyMover) (context : String) :
    Option ValidationError :=
  mover.resources.bind fun resources => validateResources exceeds resources context

section Config

variable {Sec : Type}

/-- What the validator reads of a policy. -/
structure BackupConfig (Sec : Type) extends IdentityPolicy where
  copyMethod : CopyMethod := .snapshot
  -- The sources that acknowledge a live mutation, by index.
  acknowledged : List Nat := []
  volumeSnapshotClassName : Option String := none
  mover : Option PolicyMover := none
  retention : Option Retention := none
  -- Upload limit, verification, staging, preflight and hooks, where set.
  sections : List Sec := []

/-- The checks a policy is admitted with: how quantities compare, and what is
said about sources that are not a PVC and about the sections. -/
structure BackupChecks (Sec : Type) where
  exceeds : String → String → Bool
  sourceErrors : Source → SourceShape → List ValidationError
  sectionErrors : BackupConfig Sec → Sec → List ValidationError

def problem (result : Except ValidationError Unit) : List ValidationError :=
  match result with
  | .ok () => []
  | .error e => [e]

def validateSource (checks : BackupChecks Sec) (source : Source) : List ValidationError :=
  match sourceShape source with
  | .error _ | .ok (.pvc _) => []
  | .ok shape => checks.sourceErrors source shape

def groupByErrors (config : BackupConfig Sec) : List ValidationError :=
  if config.spec.sources.any (fun s => s.pvcSelector.isSome) && config.copyMethod == .clone &&
      config.spec.groupBy != some .none then
    [.invalidFieldValue "spec.groupBy"
      ("`copyMethod: Clone` cannot do `groupBy: VolumeGroupSnapshot` (the default). Fix: use " ++
        "`copyMethod: Snapshot` for a consistency group, or set `groupBy: None`")]
  else []

def identityErrors (identity : IdentityOverrides) : List ValidationError :=
  [("spec.identity.username", identity.username),
    ("spec.identity.hostname", identity.hostname)].flatMap fun (field, value) =>
      value.toList.flatMap fun v => problem (validateIdentityComponent field v)

def sourcePathErrors (sources : List Source) : List ValidationError :=
  sources.zipIdx.flatMap fun (source, i) =>
    source.sourcePathOverride.toList.flatMap fun p =>
      problem (validateSourcePath ("spec.sources[" ++ toString i ++ "].sourcePathOverride") p)

def sourceMutatesLiveVolume (copyMethod : CopyMethod) (source : Source) : Bool :=
  copyMethod == .direct && !sourceReadOnly source &&
    (source.pvc.isSome || source.pvcSelector.isSome)

def liveMutationErrors (config : BackupConfig Sec) : List ValidationError :=
  config.spec.sources.zipIdx.filterMap fun (source, i) =>
    if sourceMutatesLiveVolume config.copyMethod source && !config.acknowledged.contains i then
      some (.invalidFieldValue ("spec.sources[" ++ toString i ++ "].readOnly")
        ("copyMethod: Direct with readOnly: false lets the kubelet permanently change ownership " ++
          "of the live volume to the mover's fsGroup. Fix: use copyMethod: Snapshot/Clone, or " ++
          "set acknowledgeLiveMutation: true on this source if you mean it"))
    else none

def snapshotClassErrors (config : BackupConfig Sec) : List ValidationError :=
  let refuse := fun (met : Bool) (reason : String) =>
    if config.volumeSnapshotClassName.isSome && met then
      [ValidationError.invalidFieldValue "spec.volumeSnapshotClassName" reason]
    else []
  refuse (config.spec.sources.any fun s => s.nfs.isSome)
      ("does not apply to an NFS source, which cannot be CSI-snapshotted. Fix: remove " ++
        "volumeSnapshotClassName") ++
    refuse (config.spec.sources.any fun s => s.stream.isSome)
      ("does not apply to a stream source, which mounts no volume. Fix: remove " ++
        "volumeSnapshotClassName")

def loneStreamErrors (sources : List Source) : List ValidationError :=
  match sources.findIdx? fun s => s.stream.isSome with
  | some i =>
    if 1 < sources.length then
      [.invalidFieldValue ("spec.sources[" ++ toString i ++ "].stream")
        ("a stream source must be the only source in its SnapshotPolicy, but this one has " ++
          toString sources.length ++ ". Fix: move the stream source into its own SnapshotPolicy")]
    else []
  | none => []

def moverErrors (exceeds : String → String → Bool) (mover : Option PolicyMover) :
    List ValidationError :=
  mover.toList.flatMap fun m =>
    (forbidSnapshotInherit m "snapshotPolicy"
        "is restore-only. Fix: use pvcConsumer or workloadSelector for a backup").toList ++
      (validateMover exceeds m "SnapshotPolicy mover").toList

/-- Every problem of a policy. -/
def backupConfigErrors (checks : BackupChecks Sec) (config : BackupConfig Sec) :
    List ValidationError :=
  let others := config.spec.sources.flatMap (validateSource checks) ++ groupByErrors config ++
    identityErrors config.identity ++ sourcePathErrors config.spec.sources ++
    liveMutationErrors config ++ snapshotClassErrors config ++
    loneStreamErrors config.spec.sources ++ moverErrors checks.exceeds config.mover
  validateBackupConfig (policyErrors others config.toIdentityPolicy)
    (config.sections.flatMap (checks.sectionErrors config)) config.retention

@[simp] theorem problem_eq_nil {result : Except ValidationError Unit} :
    problem result = [] ↔ result = .ok () := by
  cases result <;> simp [problem]

theorem validateIdentityComponent_eq_ok {field value : String} :
    validateIdentityComponent field value = .ok () ↔ identityCharProblem value = none := by
  unfold validateIdentityComponent
  cases identityCharProblem value <;> simp

theorem validateSourcePath_eq_ok {field value : String} :
    validateSourcePath field value = .ok () ↔
      value ≠ "" ∧ ∀ c ∈ value.toList, isAsciiControl c = false := by
  unfold validateSourcePath
  by_cases hempty : value.isEmpty
  · have hnil : value = "" := by simpa using hempty
    simp [hnil]
  · have hne : value ≠ "" := by simpa using hempty
    cases hfind : value.toList.find? isAsciiControl with
    | none => simpa [hempty, hne] using List.find?_eq_none.mp hfind
    | some c =>
      have hc := List.find?_some hfind
      have hmem := List.mem_of_find?_eq_some hfind
      simp only [hempty, hne, Bool.false_eq_true, if_false, Option.map_some, reduceCtorEq,
        ne_eq, not_false_eq_true, true_and, false_iff, not_forall]
      exact ⟨c, hmem, by simp [hc]⟩

theorem validateBackupConfig_eq_nil {earlier later : List ValidationError}
    {retention : Option Retention} : validateBackupConfig earlier later retention = [] ↔
      earlier = [] ∧ later = [] ∧ ∀ r ∈ retention, retentionKeepsNothing r = false := by
  cases retention with
  | none => simp [validateBackupConfig]
  | some r => cases hk : retentionKeepsNothing r <;> simp [validateBackupConfig, hk]

/-- The shape of a policy a migration writes. -/
structure BackupConfig.Plain (config : BackupConfig Sec) (repository : RepositoryRef)
    (pvc : PvcSource) (username hostname path : String) : Prop where
  repository : config.repository = some repository
  repositories : config.spec.repositories = []
  hooks : config.hooks = false
  sources : config.spec.sources = [{ pvc := some pvc, sourcePathOverride := some path }]
  identity : config.identity = ⟨some username, some hostname⟩
  inherited : ∀ m ∈ config.mover, m.inheritSecurityContextFrom = none
  sections : config.sections = []

theorem backupConfigErrors_plain {checks : BackupChecks Sec} {config : BackupConfig Sec}
    {repository : RepositoryRef} {pvc : PvcSource} {username hostname path : String}
    (h : config.Plain repository pvc username hostname path) :
    backupConfigErrors checks config = [] ↔
      validateRepositoryRef repository = none ∧
      identityCharProblem username = none ∧ identityCharProblem hostname = none ∧
      (path ≠ "" ∧ ∀ c ∈ path.toList, isAsciiControl c = false) ∧
      (∀ m ∈ config.mover, ∀ r ∈ m.resources, requestsExceedingLimits checks.exceeds r = none) ∧
      ∀ r ∈ config.retention, retentionKeepsNothing r = false := by
  have hrepos : validatePolicyRepositories config.toIdentityPolicy = [] ↔
      validateRepositoryRef repository = none := by
    simp [validatePolicyRepositories, repositoryRefs, isMultiRepo, duplicateRefs, h.repository,
      h.repositories]
  have hmover : moverErrors checks.exceeds config.mover = [] ↔ ∀ m ∈ config.mover,
      ∀ r ∈ m.resources, requestsExceedingLimits checks.exceeds r = none := by
    cases hm : config.mover with
    | none => simp [moverErrors]
    | some m =>
      have hinherit := h.inherited m hm
      cases hr : m.resources <;>
        simp [moverErrors, forbidSnapshotInherit, hinherit, validateMover, validateResources, hr]
  have hothers : config.spec.sources.flatMap (validateSource checks) = [] ∧
      groupByErrors config = [] ∧ liveMutationErrors config = [] ∧
      snapshotClassErrors config = [] ∧ loneStreamErrors config.spec.sources = [] := by
    simp [validateSource, sourceShape, Source.formsSet, groupByErrors, liveMutationErrors,
      sourceMutatesLiveVolume, sourceReadOnly, snapshotClassErrors, loneStreamErrors, h.sources]
  obtain ⟨hsource, hgroup, hlive, hclass, hstream⟩ := hothers
  have hshape : sourceShape { pvc := some pvc, sourcePathOverride := some path } =
      .ok (.pvc pvc) := rfl
  have hidentity : identityErrors config.identity = [] ↔
      identityCharProblem username = none ∧ identityCharProblem hostname = none := by
    simp [identityErrors, h.identity, validateIdentityComponent_eq_ok]
  have hpath : sourcePathErrors config.spec.sources = [] ↔
      path ≠ "" ∧ ∀ c ∈ path.toList, isAsciiControl c = false := by
    simp [sourcePathErrors, h.sources, validateSourcePath_eq_ok]
  have hpolicy : ∀ others, policyErrors others config.toIdentityPolicy = [] ↔
      validatePolicyRepositories config.toIdentityPolicy = [] ∧ others = [] := by
    simp [policyErrors, h.sources, hshape]
  simp only [backupConfigErrors, validateBackupConfig_eq_nil, hpolicy, List.append_eq_nil_iff,
    hsource, hgroup, hlive, hclass, hstream, hidentity, hpath, hmover, hrepos, h.sections,
    List.flatMap_nil, true_and, and_true, and_assoc]

end Config

end Kopiur
