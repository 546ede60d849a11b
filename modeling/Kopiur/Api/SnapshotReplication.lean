import Kopiur.Api.Policy
import Kopiur.Api.Retention

/-!
# Admission of replications and retentions

What the validators accept: the retention of a `SnapshotPolicy`, and the
references, matchers and pruning of a `SnapshotReplication`.
-/

namespace Kopiur

def Retention.counts (r : Retention) : List (Option Nat) :=
  [r.keepLatest, r.keepHourly, r.keepDaily, r.keepWeekly, r.keepMonthly, r.keepAnnual]

def retentionKeepsNothing (r : Retention) : Bool := r.counts.all fun bucket => bucket.getD 0 == 0

/-- The retention guard of a `SnapshotPolicy`, among the errors that the checks
before and after it report. -/
def validateBackupConfig (earlier later : List ValidationError) (retention : Option Retention) :
    List ValidationError :=
  let guard := match retention with
    | some r =>
      if retentionKeepsNothing r then
        [.invalidFieldValue "spec.retention"
          ("keeps no snapshots (every keep* is unset or 0), so every Snapshot would be pruned. " ++
            "Fix: set at least one (e.g. keepLatest: 1), or omit spec.retention to disable " ++
            "pruning")]
      else []
    | none => []
  earlier ++ guard ++ later

structure IdentityMatcher where
  username : Option String := none
  hostname : Option String := none
  sourcePath : Option String := none
deriving DecidableEq

def IdentityMatcher.components (m : IdentityMatcher) : List (String × Option String) :=
  [("username", m.username), ("hostname", m.hostname), ("sourcePath", m.sourcePath)]

structure IdentitySelection where
  incl : List IdentityMatcher := []
  excl : List IdentityMatcher := []
deriving DecidableEq

structure SelectionSpec where
  identities : Option IdentitySelection := none
  latestOnly : Bool := false
deriving DecidableEq

inductive CopyPruning
  | none
  | mirrorSource
  | retention (keep : Retention)
deriving DecidableEq

structure SnapshotReplicationSpec where
  sourceRef : RepositoryRef
  destinationRef : RepositoryRef
  selection : Option SelectionSpec := none
  pruning : Option CopyPruning := none
deriving DecidableEq

def selectionMatchers (spec : SnapshotReplicationSpec) :
    List IdentityMatcher × List IdentityMatcher :=
  match spec.selection.bind SelectionSpec.identities with
  | some ids => (ids.incl, ids.excl)
  | none => ([], [])

def validateRepositoryRef (r : RepositoryRef) : Option ValidationError :=
  match r.kind with
  | .clusterRepository => r.ns.map .clusterRepoNamespaceForbidden
  | .repository => none

def isControl (c : Char) : Bool := c.toNat < 0x20 || (0x7F ≤ c.toNat && c.toNat < 0xA0)

/-- The reason the first unusable character of a pattern gives. -/
def validateGlobChars : List Char → Option String
  | [] => none
  | c :: rest =>
    if ['[', ']', '\x7b', '\x7d'].contains c then
      some ("contains '" ++ String.singleton c ++
        "'; only the \"*\" and \"?\" wildcards are supported")
    else if isControl c then some "must not contain control characters"
    else validateGlobChars rest

def validateComponentGlob (pattern : String) : Option String :=
  if pattern.isEmpty then
    some "must not be empty — omit the component to match anything, or use \"*\""
  else validateGlobChars pattern.toList

def validateMatcher (field : String) (m : IdentityMatcher) : List ValidationError :=
  if m.components.all fun c => c.2.isNone then [.emptyIdentityMatcher field]
  else m.components.filterMap fun (comp, val) =>
    (val.bind validateComponentGlob).map fun reason =>
      .invalidFieldValue (field ++ "." ++ comp) reason

def validateMatchers (listName : String) (list : List IdentityMatcher) : List ValidationError :=
  list.zipIdx.flatMap fun (m, i) =>
    validateMatcher ("SnapshotReplication spec.selection.identities." ++ listName ++ "[" ++
      toString i ++ "]") m

def validateSelfTarget (spec : SnapshotReplicationSpec) : List ValidationError :=
  if spec.sourceRef = spec.destinationRef then
    let kind := match spec.sourceRef.kind with
      | .repository => "Repository"
      | .clusterRepository => "ClusterRepository"
    [.snapshotReplicationSelfTarget kind spec.sourceRef.name]
  else []

def validateCopyPruning (pruning : Option CopyPruning) : List ValidationError :=
  match pruning with
  | none | some .none | some .mirrorSource => []
  | some (.retention r) => if r.counts.any Option.isSome then [] else [.retentionKeepsNothing]

/-- `schedule`, `mover` and `migrate` are what the checks of those fields
report. -/
def validateSnapshotReplication (schedule mover migrate : List ValidationError)
    (spec : SnapshotReplicationSpec) : List ValidationError :=
  let refs := [spec.sourceRef, spec.destinationRef].filterMap validateRepositoryRef
  let selection := match spec.selection.bind SelectionSpec.identities with
    | some ids => validateMatchers "include" ids.incl ++ validateMatchers "exclude" ids.excl
    | none => []
  refs ++ validateSelfTarget spec ++ schedule ++ mover ++ selection ++ migrate ++
    validateCopyPruning spec.pruning

theorem keeps_something_of_accepted {earlier later : List ValidationError}
    {retention : Option Retention} (h : validateBackupConfig earlier later retention = [])
    {r : Retention} (hr : retention = some r) : retentionKeepsNothing r = false := by
  subst hr
  cases hkeeps : retentionKeepsNothing r with
  | false => rfl
  | true => simp [validateBackupConfig, hkeeps] at h

theorem retentionKeepsNothing_eq_true {r : Retention} :
    retentionKeepsNothing r = true ↔ ∀ count ∈ r.counts, count.getD 0 = 0 := by
  simp [retentionKeepsNothing]

theorem retentionKeepsNothing_eq_false {r : Retention} :
    retentionKeepsNothing r = false ↔ ∃ count ∈ r.counts, ∃ n, count = some (n + 1) := by
  simp only [retentionKeepsNothing, List.all_eq_false]
  refine exists_congr fun count => and_congr_right fun _ => ?_
  cases count with
  | none => simp
  | some n => cases n <;> simp

end Kopiur
