import Kopiur.Api.ChildNameBounds
import Kopiur.Webhook.BackupConfig

/-!
# Translating a VolSync source of the kopia mover

The fork's repository is a kopia repository, so a translated policy continues
its history: the identity the fork recorded is pinned on the policy. Every field
that is read lands in a note.
-/

namespace Kopiur

def forkDefaultIdentity : String := "volsync-default"

def forkMaxUsernameLen : Nat := 50

def forkDefaultSourcePath : String := "/data"

def sanitizeChar (allowUnderscore allowDots : Bool) (c : Char) : Option Char :=
  if c.isAlphanum || c == '-' then some c
  else if c == '_' then some (if allowUnderscore then c else '-')
  else if c == '.' && allowDots then some c
  else none

def isTrimmed (allowUnderscore allowDots : Bool) (c : Char) : Bool :=
  c == '-' || (allowUnderscore && c == '_') || (allowDots && c == '.')

def sanitizeForIdentifier (input : String) (allowUnderscore allowDots : Bool) : List Char :=
  let trim := isTrimmed allowUnderscore allowDots
  trimEndMatches trim
    ((input.toList.filterMap (sanitizeChar allowUnderscore allowDots)).dropWhile trim)

/-- Cut after trimming and not trimmed again, as the fork does; what is kept is
ASCII, so characters are bytes. -/
def sanitizeUsername (objectName : String) : String :=
  match sanitizeForIdentifier objectName true false with
  | [] => forkDefaultIdentity
  | valid => String.ofList (valid.take forkMaxUsernameLen)

def sanitizeHostname (ns fallbackName : String) : String :=
  match sanitizeForIdentifier ns false true, sanitizeForIdentifier fallbackName false true with
  | [], [] => forkDefaultIdentity
  | [], name => String.ofList name
  | ns, _ => String.ofList ns

def verbatim (override : Option String) : Option String := override.filter (· ≠ "")

def forkIdentity (rsName ns : String) (usernameOverride hostnameOverride : Option String) :
    String × String :=
  ((verbatim usernameOverride).getD (sanitizeUsername rsName),
    (verbatim hostnameOverride).getD (sanitizeHostname ns rsName))

structure KopiaRetain where
  hourly : Option Nat := none
  daily : Option Nat := none
  weekly : Option Nat := none
  monthly : Option Nat := none
  yearly : Option Nat := none
  latest : Option Nat := none
deriving DecidableEq

structure KopiaActions where
  beforeSnapshot : Option String := none
  afterSnapshot : Option String := none
deriving DecidableEq

structure Trigger where
  schedule : Option String := none
  manual : Option String := none
deriving DecidableEq

/-- `Value` is the JSON of the fields that are passed on unread. -/
structure KopiaSourceSpec (Value : Type) where
  copyMethod : Option String := none
  retain : Option KopiaRetain := none
  compression : Option String := none
  parallelism : Option Int := none
  cacheCapacity : Option String := none
  cacheStorageClassName : Option String := none
  cacheAccessModes : Option (List String) := none
  metadataCacheSizeLimitMb : Option Int := none
  contentCacheSizeLimitMb : Option Int := none
  actions : Option KopiaActions := none
  policyConfig : Option Value := none
  username : Option String := none
  hostname : Option String := none
  sourcePathOverride : Option String := none
  additionalArgs : Option (List String) := none
  storageClassName : Option String := none
  volumeSnapshotClassName : Option String := none
  accessModes : Option (List String) := none
  moverResources : Option Value := none
  moverSecurityContext : Option Value := none
  moverServiceAccount : Option String := none
  moverPodLabels : Option Value := none
  moverAffinity : Option Value := none
  moverVolumes : Option Value := none
  customCa : Option Value := none
  cleanupCachePvc : Option Bool := none

structure ReplicationSourceSpec (Value : Type) where
  sourcePvc : Option String := none
  trigger : Option Trigger := none
  kopia : Option (KopiaSourceSpec Value) := none

inductive Disposition
  | mapped (target : String)
  | unmappable (reason : String)
  | ignored (reason : String)
deriving DecidableEq

structure FieldNote where
  field : String
  disposition : Disposition
deriving DecidableEq

structure CacheManifest where
  capacity : Option String := none
  storageClassName : Option String := none
  metadataCacheSizeMb : Option Int := none
  contentCacheSizeMb : Option Int := none
deriving DecidableEq

structure MoverManifest (Value : Type) where
  cache : Option CacheManifest := none
  resources : Option Value := none
  podSecurityContext : Option Value := none

/-- The `SnapshotPolicy` of a translation. -/
structure PolicyManifest (Value : Type) where
  name : String
  ns : String
  repository : RepositoryRef
  username : String
  hostname : String
  pvc : String
  sourcePathOverride : String
  copyMethod : CopyMethod
  volumeSnapshotClassName : Option String
  retention : Option Retention
  compressor : Option String
  maxParallelFileReads : Option Int
  extraArgs : Option (List String)
  mover : Option (MoverManifest Value)

structure ScheduleManifest where
  name : String
  ns : String
  policyRef : String
  cron : String
deriving DecidableEq

structure Translation (Value : Type) where
  policy : PolicyManifest Value
  schedule : Option ScheduleManifest
  notes : List FieldNote

def FieldNote.isUnmappable (note : FieldNote) : Bool :=
  match note.disposition with
  | .unmappable _ => true
  | .mapped _ | .ignored _ => false

def Translation.hasUnmappable {Value : Type} (t : Translation Value) : Bool :=
  t.notes.any FieldNote.isUnmappable

def mapped (field target : String) : FieldNote := ⟨field, .mapped target⟩

def unmappable (field reason : String) : FieldNote := ⟨field, .unmappable reason⟩

def ignored (field reason : String) : FieldNote := ⟨field, .ignored reason⟩

def noted {α : Type} (value : Option α) (note : FieldNote) : List FieldNote :=
  if value.isSome then [note] else []

def kopiurCopyMethod (raw : Option String) : CopyMethod :=
  match raw with
  | some "Snapshot" => .snapshot
  | some "Clone" => .clone
  | _ => .direct

def copyMethodNotes (raw : Option String) : List FieldNote :=
  match raw with
  | none =>
    [mapped "spec.kopia.copyMethod (absent; VolSync default is a live read)"
      "SnapshotPolicy.spec.copyMethod: Direct (set explicitly)"]
  | some method =>
    if ["Snapshot", "Clone", "Direct", "None"].contains method then
      [mapped "spec.kopia.copyMethod" "SnapshotPolicy.spec.copyMethod"]
    else
      [unmappable "spec.kopia.copyMethod"
        ("unknown VolSync copyMethod " ++ debugStr method ++ "; set to an explicit copyMethod: " ++
          "Direct. Change it to Snapshot or Clone if this source needs CSI staging")]

def KopiaRetain.counts (retain : KopiaRetain) : List (String × String × Option Nat) :=
  [("latest", "keepLatest", retain.latest), ("hourly", "keepHourly", retain.hourly),
    ("daily", "keepDaily", retain.daily), ("weekly", "keepWeekly", retain.weekly),
    ("monthly", "keepMonthly", retain.monthly), ("yearly", "keepAnnual", retain.yearly)]

/-- A `retain` without a count writes no retention. -/
def translateRetain (retain : KopiaRetain) : Option Retention :=
  if retain.counts.all fun (_, _, count) => count.isNone then none
  else some
    { keepLatest := retain.latest
      keepHourly := retain.hourly
      keepDaily := retain.daily
      keepWeekly := retain.weekly
      keepMonthly := retain.monthly
      keepAnnual := retain.yearly }

def retainNotes (retain : KopiaRetain) : List FieldNote :=
  retain.counts.flatMap fun (vs, kopiur, count) =>
    noted count (mapped ("spec.kopia.retain." ++ vs) ("SnapshotPolicy.spec.retention." ++ kopiur))

section Source

variable {Value : Type}

def KopiaSourceSpec.sourcePath (kopia : KopiaSourceSpec Value) : String :=
  kopia.sourcePathOverride.getD forkDefaultSourcePath

def identityNotes (kopia : KopiaSourceSpec Value) (username hostname : String) : List FieldNote :=
  noted (verbatim kopia.username) (mapped "spec.kopia.username"
      "SnapshotPolicy.spec.identity.username (verbatim, as the fork used it)") ++
    noted (verbatim kopia.hostname) (mapped "spec.kopia.hostname"
      "SnapshotPolicy.spec.identity.hostname (verbatim, as the fork used it)") ++
    noted kopia.sourcePathOverride (mapped "spec.kopia.sourcePathOverride"
      "SnapshotPolicy.spec.sources[0].sourcePathOverride") ++
    [mapped "(fork snapshot identity)"
      ("SnapshotPolicy.spec.identity + sources[0].sourcePathOverride set to " ++ username ++ "@" ++
        hostname ++ ":" ++ kopia.sourcePath ++ ", so the existing snapshot history continues")]

def translateCache (kopia : KopiaSourceSpec Value) : Option CacheManifest :=
  let cache : CacheManifest :=
    { capacity := kopia.cacheCapacity
      storageClassName := kopia.cacheStorageClassName
      metadataCacheSizeMb := kopia.metadataCacheSizeLimitMb
      contentCacheSizeMb := kopia.contentCacheSizeLimitMb }
  if cache = {} then none else some cache

def translateMover (kopia : KopiaSourceSpec Value) : Option (MoverManifest Value) :=
  match translateCache kopia, kopia.moverResources, kopia.moverSecurityContext with
  | none, none, none => none
  | cache, resources, podSecurityContext => some { cache, resources, podSecurityContext }

def moverNotes (kopia : KopiaSourceSpec Value) : List FieldNote :=
  noted kopia.cacheCapacity (mapped "spec.kopia.cacheCapacity"
      "SnapshotPolicy.spec.mover.cache.capacity") ++
    noted kopia.cacheStorageClassName (mapped "spec.kopia.cacheStorageClassName"
      "SnapshotPolicy.spec.mover.cache.storageClassName") ++
    noted kopia.metadataCacheSizeLimitMb (mapped "spec.kopia.metadataCacheSizeLimitMB"
      "SnapshotPolicy.spec.mover.cache.metadataCacheSizeMb") ++
    noted kopia.contentCacheSizeLimitMb (mapped "spec.kopia.contentCacheSizeLimitMB"
      "SnapshotPolicy.spec.mover.cache.contentCacheSizeMb") ++
    noted kopia.moverResources (mapped "spec.kopia.moverResources"
      "SnapshotPolicy.spec.mover.resources") ++
    noted kopia.moverSecurityContext (mapped "spec.kopia.moverSecurityContext"
      "SnapshotPolicy.spec.mover.podSecurityContext")

def actionsNotes (actions : KopiaActions) : List FieldNote :=
  [("beforeSnapshot", actions.beforeSnapshot), ("afterSnapshot", actions.afterSnapshot)].flatMap
    fun (field, action) => noted action (unmappable ("spec.kopia.actions." ++ field)
      ("the fork runs this in its mover pod; kopiur hooks (SnapshotPolicy.spec.hooks) run in " ++
        "the workload pod or as a Job, so rewrite it by hand"))

/-- The fields that are not carried over. -/
def leftOutNotes (kopia : KopiaSourceSpec Value) : List FieldNote :=
  kopia.actions.toList.flatMap actionsNotes ++
    noted kopia.policyConfig (unmappable "spec.kopia.policyConfig"
      ("kopiur has no raw policy-file passthrough; move the file's settings into SnapshotPolicy " ++
        "fields (retention, compression, files, upload, extraArgs)")) ++
    noted kopia.moverServiceAccount (unmappable "spec.kopia.moverServiceAccount"
      "kopiur creates its own least-privilege mover ServiceAccount per namespace") ++
    noted kopia.moverPodLabels (unmappable "spec.kopia.moverPodLabels"
      "kopiur has no per-policy mover pod labels") ++
    noted kopia.moverAffinity (unmappable "spec.kopia.moverAffinity"
      ("set mover affinity on the Repository's spec.moverDefaults instead (it is " ++
        "repository-wide)")) ++
    noted kopia.moverVolumes (ignored "spec.kopia.moverVolumes"
      ("kopiur movers mount only source, cache, and repository volumes; a filesystem:// " ++
        "repository PVC is carried into Repository.spec.backend.filesystem.volume")) ++
    noted kopia.customCa (unmappable "spec.kopia.customCA"
      "set the kopiur Repository's backend tls.caBundleRef (S3; a ConfigMap) instead") ++
    (kopia.storageClassName.toList.map fun cls => unmappable "spec.kopia.storageClassName"
      ("kopiur stages Snapshot/Clone copies with the source PVC's StorageClass; there is no " ++
        "per-policy override (was " ++ debugStr cls ++ ")")) ++
    noted kopia.accessModes (unmappable "spec.kopia.accessModes"
      "kopiur derives staging access modes from the source PVC") ++
    noted kopia.cacheAccessModes (unmappable "spec.kopia.cacheAccessModes"
      "the kopiur mover cache has no access-mode setting") ++
    noted kopia.cleanupCachePvc (ignored "spec.kopia.cleanupCachePVC"
      ("use mover.cache.mode instead (Ephemeral by default, or Persistent for a warm cache)"))

def triggerNote (trigger : Option Trigger) : FieldNote :=
  match trigger.bind (·.schedule), trigger.bind (·.manual) with
  | some _, _ => mapped "spec.trigger.schedule" "SnapshotSchedule.spec.schedule.cron"
  | none, some _ =>
    ignored "spec.trigger.manual"
      ("manual triggers map to `kubectl kopiur snapshot now --policy <name>`; no " ++
        "SnapshotSchedule emitted")
  | none, none =>
    ignored "spec.trigger" "no trigger: no SnapshotSchedule emitted (run manually or add one later)"

def translateArgs (args : Option (List String)) : Option (List String) := args.filter (· ≠ [])

def translatePolicy (name ns pvc : String) (kopia : KopiaSourceSpec Value)
    (repository : RepositoryRef) : PolicyManifest Value :=
  let identity := forkIdentity name ns kopia.username kopia.hostname
  { name
    ns
    repository
    username := identity.1
    hostname := identity.2
    pvc
    sourcePathOverride := kopia.sourcePath
    copyMethod := kopiurCopyMethod kopia.copyMethod
    volumeSnapshotClassName := kopia.volumeSnapshotClassName
    retention := kopia.retain.bind translateRetain
    compressor := kopia.compression
    maxParallelFileReads := kopia.parallelism
    extraArgs := translateArgs kopia.additionalArgs
    mover := translateMover kopia }

def translateSource (name ns : String) (spec : ReplicationSourceSpec Value)
    (repository : RepositoryRef) : Except String (Translation Value) :=
  let self := "ReplicationSource " ++ ns ++ "/" ++ name
  match spec.kopia, spec.sourcePvc with
  | none, _ => .error (self ++ " has no spec.kopia block")
  | some _, none => .error (self ++ " has no spec.sourcePVC; nothing to back up")
  | some kopia, some pvc =>
    let policy := translatePolicy name ns pvc kopia repository
    .ok
      { policy
        schedule := (spec.trigger.bind (·.schedule)).map fun cron => ⟨name, ns, name, cron⟩
        notes :=
          mapped "spec.sourcePVC" "SnapshotPolicy.spec.sources[0].pvc.name" ::
            identityNotes kopia policy.username policy.hostname ++
            copyMethodNotes kopia.copyMethod ++
            noted kopia.volumeSnapshotClassName (mapped "spec.kopia.volumeSnapshotClassName"
              "SnapshotPolicy.spec.volumeSnapshotClassName") ++
            kopia.retain.toList.flatMap retainNotes ++
            noted kopia.compression (mapped "spec.kopia.compression"
              "SnapshotPolicy.spec.compression.compressor") ++
            noted kopia.parallelism (mapped "spec.kopia.parallelism"
              "SnapshotPolicy.spec.upload.maxParallelFileReads") ++
            noted (translateArgs kopia.additionalArgs) (mapped "spec.kopia.additionalArgs"
              "SnapshotPolicy.spec.extraArgs") ++
            moverNotes kopia ++ leftOutNotes kopia ++ [triggerNote spec.trigger] }

theorem translateSource_eq_ok {name ns : String} {spec : ReplicationSourceSpec Value}
    {repository : RepositoryRef} {t : Translation Value}
    (h : translateSource name ns spec repository = .ok t) :
    ∃ kopia pvc, spec.kopia = some kopia ∧ spec.sourcePvc = some pvc ∧
      t.policy = translatePolicy name ns pvc kopia repository := by
  unfold translateSource at h
  cases hkopia : spec.kopia with
  | none => simp [hkopia] at h
  | some kopia =>
    cases hpvc : spec.sourcePvc with
    | none => simp [hkopia, hpvc] at h
    | some pvc =>
      simp only [hkopia, hpvc, Except.ok.injEq] at h
      exact ⟨kopia, pvc, rfl, rfl, h ▸ rfl⟩

end Source

def isIdentifierChar (c : Char) : Bool := c.isAlphanum || c == '-' || c == '_' || c == '.'

theorem isIdentifierChar_of_sanitizeChar {allowUnderscore allowDots : Bool} {c d : Char}
    (h : sanitizeChar allowUnderscore allowDots c = some d) : isIdentifierChar d = true := by
  unfold sanitizeChar at h
  split at h
  case isTrue hc =>
    cases h
    rcases Bool.or_eq_true _ _ ▸ hc with hc | hc <;> simp [isIdentifierChar, hc]
  case isFalse =>
    split at h
    case isTrue hc =>
      obtain rfl : c = '_' := by simpa using hc
      cases allowUnderscore <;> cases h <;> decide
    case isFalse =>
      split at h
      case isTrue hc =>
        cases h
        obtain ⟨rfl, -⟩ : c = '.' ∧ allowDots = true := by simpa using hc
        decide
      case isFalse => cases h

theorem sanitizeForIdentifier_sublist (input : String) (allowUnderscore allowDots : Bool) :
    (sanitizeForIdentifier input allowUnderscore allowDots).Sublist
      (input.toList.filterMap (sanitizeChar allowUnderscore allowDots)) :=
  (trimEndMatches_sublist _ _).trans (List.dropWhile_suffix _).sublist

theorem isIdentifierChar_of_mem {input : String} {allowUnderscore allowDots : Bool} {c : Char}
    (h : c ∈ sanitizeForIdentifier input allowUnderscore allowDots) :
    isIdentifierChar c = true := by
  obtain ⟨d, -, hd⟩ := List.mem_filterMap.mp ((sanitizeForIdentifier_sublist _ _ _).subset h)
  exact isIdentifierChar_of_sanitizeChar hd

end Kopiur
