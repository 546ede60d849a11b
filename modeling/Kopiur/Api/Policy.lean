import Kopiur.Api.Resources
import Mathlib.Control.Monad.Basic

/-!
# Snapshot policies

The recipe a schedule fires: what is backed up, and into which repositories.
-/

namespace Kopiur

inductive ValidationError
  | missingRequiredField (field : String)
  | mutuallyExclusive (a b context : String)
  | invalidFieldValue (field reason : String)
  | clusterRepoNamespaceForbidden (ns : String)
  | snapshotReplicationSelfTarget (kind name : String)
  | emptyIdentityMatcher (field : String)
  | retentionKeepsNothing
  | identityComponentInvalid (field value reason : String)
  | identitySourcePathInvalid (field value reason : String)
  | identityExprFailed (reason : String)
  | policyRepositoryExactlyOne (got : String)
  | policyRepositoriesDuplicate (key : String) (first second : Nat)
  | policyHooksWithRepositories
deriving DecidableEq

def ValidationError.display : ValidationError → String
  | .missingRequiredField field => "missing required field: " ++ field
  | .mutuallyExclusive a b context =>
    "fields \"" ++ a ++ "\" and \"" ++ b ++ "\" cannot both be set (" ++ context ++ ")"
  | .invalidFieldValue field reason => "invalid value for " ++ field ++ ": " ++ reason
  | .clusterRepoNamespaceForbidden ns =>
    "repository.namespace must not be set when repository.kind is ClusterRepository (got " ++
      "\"" ++ ns ++ "\"). Fix: remove repository.namespace"
  | .snapshotReplicationSelfTarget kind name =>
    "SnapshotReplication sourceRef and destinationRef both point at " ++ kind ++ " \"" ++ name ++
      "\". Fix: point destinationRef at a different repository (typically the off-site one)"
  | .emptyIdentityMatcher field =>
    "identity matcher " ++ field ++ " sets none of username/hostname/sourcePath, so it matches " ++
      "every identity. Fix: set at least one (globs allowed, e.g. username: \"pg-*\"), or " ++
      "remove the matcher"
  | .retentionKeepsNothing =>
    "spec.pruning.retention sets no keep* count, so every replicated snapshot would be pruned " ++
      "on the next run. Fix: set at least one of " ++
      "keepLatest/keepHourly/keepDaily/keepWeekly/keepMonthly/keepAnnual, or omit pruning to " ++
      "keep copies forever"
  | .identityComponentInvalid field value reason =>
    field ++ " \"" ++ value ++ "\" is not a valid kopia identity component: " ++ reason
  | .identitySourcePathInvalid field value reason =>
    field ++ " \"" ++ value ++ "\" is not a valid kopia source path: " ++ reason
  | .identityExprFailed reason => reason
  | .policyRepositoryExactlyOne got =>
    "exactly one of spec.repository and spec.repositories must be set (got " ++ got ++
      "). Fix: set spec.repository for one repository, or spec.repositories to list 1-8"
  | .policyRepositoriesDuplicate key first second =>
    "spec.repositories[" ++ toString first ++ "] and spec.repositories[" ++ toString second ++
      "] both name " ++ key ++ ". Fix: remove the duplicate entry"
  | .policyHooksWithRepositories =>
    "spec.hooks cannot be combined with spec.repositories — the first copy to finish would run " ++
      "the after-snapshot hooks while the others are still reading. Fix: use spec.repository " ++
      "with hooks, plus a SnapshotReplication to copy snapshots to the second repository"

inductive SourcePathStrategy
  | pvcName
  | pvcNamespacedName
deriving DecidableEq

structure PvcSource where
  name : String
deriving DecidableEq

structure PvcSelector where
  matchLabels : List (String × String) := []
deriving DecidableEq

structure NfsVolume where
  server : String
  path : String
deriving DecidableEq

structure StreamSource where
  fileName : String
deriving DecidableEq

/-- Exactly one of the four forms is set on an admitted source. -/
structure Source where
  pvc : Option PvcSource := none
  pvcSelector : Option PvcSelector := none
  nfs : Option NfsVolume := none
  stream : Option StreamSource := none
  readOnly : Option Bool := none
  sourcePathOverride : Option String := none
  sourcePathStrategy : Option SourcePathStrategy := none
deriving DecidableEq

inductive SourceShape
  | pvc (s : PvcSource)
  | pvcSelector (s : PvcSelector)
  | nfs (s : NfsVolume)
  | stream (s : StreamSource)
deriving DecidableEq

def SourceShape.kindStr : SourceShape → String
  | .pvc _ => "pvc"
  | .pvcSelector _ => "pvcSelector"
  | .nfs _ => "nfs"
  | .stream _ => "stream"

def Source.formsSet (source : Source) : List String :=
  [("pvc", source.pvc.isSome), ("pvcSelector", source.pvcSelector.isSome),
    ("nfs", source.nfs.isSome), ("stream", source.stream.isSome)].filterMap
    fun (name, present) => if present then some name else none

def sourceShape (source : Source) : Except ValidationError SourceShape :=
  match source.formsSet with
  | [] =>
    .error (.missingRequiredField
      "source.pvc, source.pvcSelector, source.nfs, or source.stream")
  | first :: second :: _ => .error (.mutuallyExclusive first second "snapshot source")
  | [form] =>
    match source.pvc, source.pvcSelector, source.nfs, source.stream with
    | some s, _, _, _ => .ok (.pvc s)
    | _, some s, _, _ => .ok (.pvcSelector s)
    | _, _, some s, _ => .ok (.nfs s)
    | _, _, _, some s => .ok (.stream s)
    | none, none, none, none =>
      .error (.invalidFieldValue "spec.sources[]" ("unknown source form `" ++ form ++ "`"))

def sourceReadOnly (source : Source) : Bool := source.readOnly.getD true

def streamSourcePath (stream : StreamSource) : String := "/stream/" ++ stream.fileName

def strategyFor (source : Source) : SourcePathStrategy :=
  if source.pvcSelector.isSome then source.sourcePathStrategy.getD .pvcName else .pvcName

def Source.IsSelector (source : Source) : Prop :=
  source.pvcSelector.isSome ∧ source.pvc = none ∧ source.nfs = none ∧ source.stream = none

instance (source : Source) : Decidable source.IsSelector := inferInstanceAs (Decidable (_ ∧ _))

theorem sourceShape_eq_pvcSelector {source : Source} :
    (∃ s, sourceShape source = .ok (.pvcSelector s)) ↔ source.IsSelector := by
  obtain ⟨pvc, sel, nfs, stream, _, _, _⟩ := source
  cases pvc <;> cases sel <;> cases nfs <;> cases stream <;>
    simp [sourceShape, Source.formsSet, Source.IsSelector]

inductive GroupBy
  | volumeGroupSnapshot
  | none
deriving DecidableEq

structure SnapshotPolicySpec where
  repositories : List RepositoryRef := []
  sources : List Source
  groupBy : Option GroupBy := Option.none
deriving DecidableEq

structure SnapshotPolicy where
  metadata : ObjectMeta
  spec : SnapshotPolicySpec
deriving DecidableEq

def isMultiRepo (spec : SnapshotPolicySpec) : Bool := !spec.repositories.isEmpty

namespace SnapshotPolicy

def ns (policy : SnapshotPolicy) : String := policy.metadata.ns.getD ""

def nameAny (policy : SnapshotPolicy) : String := policy.metadata.nameAny

end SnapshotPolicy

end Kopiur
