import Mathlib.Data.String.Basic
import Kopiur.Time

/-!
# Custom resources

The objects the reconcilers read, with the fields the modelled functions use.
Absent optional maps and lists are empty. Timestamps of object metadata keep
their full precision; readers truncate them to seconds, as the source does.
-/

namespace Kopiur

structure OwnerReference where
  apiVersion : String
  kind : String
  name : String
  uid : String
deriving DecidableEq

structure ObjectMeta where
  name : Option String := none
  ns : Option String := none
  uid : Option String := none
  creationTimestamp : Option DateTime := none
  deletionTimestamp : Option DateTime := none
  finalizers : List String := []
  annotations : List (String × String) := []
  labels : List (String × String) := []
  ownerReferences : List OwnerReference := []
deriving DecidableEq

namespace ObjectMeta

def nameAny (m : ObjectMeta) : String := m.name.getD ""

end ObjectMeta

def isNameChar (c : Char) : Bool := c.isLower || c.isDigit || c == '-' || c == '.'

/-- Object names the API server admits: lower-case letters, digits, dashes and
dots, with a letter or digit at both ends. -/
def ValidName (s : String) : Prop :=
  s.toList ≠ [] ∧ s.length ≤ 253 ∧ (∀ c ∈ s.toList, isNameChar c) ∧
    (∀ c ∈ s.toList.head?, c.isLower || c.isDigit) ∧
    (∀ c ∈ s.toList.getLast?, c.isLower || c.isDigit)

-- Members are checked one by one; characters are too many to enumerate.
instance (s : String) : Decidable (ValidName s) :=
  haveI : Decidable (∀ c ∈ s.toList, isNameChar c) := List.decidableBAll _ _
  haveI : Decidable (∀ c ∈ s.toList.head?, c.isLower || c.isDigit) := Option.decidableForallMem _
  haveI : Decidable (∀ c ∈ s.toList.getLast?, c.isLower || c.isDigit) := Option.decidableForallMem _
  inferInstanceAs (Decidable (s.toList ≠ [] ∧ s.length ≤ 253 ∧ (∀ c ∈ s.toList, isNameChar c) ∧
    (∀ c ∈ s.toList.head?, c.isLower || c.isDigit) ∧
    (∀ c ∈ s.toList.getLast?, c.isLower || c.isDigit)))

theorem ValidName.not_mem {s : String} (h : ValidName s) {c : Char} (hc : isNameChar c = false) :
    c ∉ s.toList := by
  intro hm
  have := h.2.2.1 c hm
  simp [hc] at this

def asSecond (t : DateTime) : Int := t.tdiv 1000000000

def wholeSecond (t : DateTime) : DateTime := DateTime.fromTimestamp (asSecond t)

structure Rfc3339 where
  parse : String → Option DateTime
  render : DateTime → String

def apiVersion : String := "kopiur.home-operations.com/v1alpha1"

inductive RepositoryKind
  | repository
  | clusterRepository
deriving DecidableEq

structure RepositoryRef where
  kind : RepositoryKind := .repository
  name : String
  ns : Option String := none
deriving DecidableEq

/-- The comparable key of a reference resolved from `ownerNs`. -/
def repoKey (repo : RepositoryRef) (ownerNs : String) : String :=
  match repo.kind with
  | .repository => "Repository/" ++ repo.ns.getD ownerNs ++ "/" ++ repo.name
  | .clusterRepository => "ClusterRepository/" ++ repo.name

/-- The normal form of a pin: a namespaced reference carries its effective
namespace, a cluster-scoped one carries none. -/
def normalizedRepositoryRef (r : RepositoryRef) (ownerNs : String) : RepositoryRef :=
  match r.kind with
  | .repository => { kind := .repository, name := r.name, ns := some (r.ns.getD ownerNs) }
  | .clusterRepository => { kind := .clusterRepository, name := r.name, ns := none }

inductive DeletionPolicy
  | delete
  | retain
  | orphan
deriving DecidableEq

inductive ScheduleDeletePolicy
  | retain
  | delete
deriving DecidableEq

inductive NamespaceDeletePolicy
  | orphan
  | delete
deriving DecidableEq

inductive Origin
  | scheduled
  | manual
  | discovered
  | adopted
  | replicated
deriving DecidableEq

def Origin.parse (v : String) : Option Origin :=
  if v = "scheduled" then some .scheduled
  else if v = "manual" then some .manual
  else if v = "discovered" then some .discovered
  else if v = "adopted" then some .adopted
  else if v = "replicated" then some .replicated
  else none

inductive PrunedBy
  | retention
  | failedHistory
  | policyCascade
  | replicationRetention
  | replacedRun
deriving DecidableEq

def PrunedBy.parse (v : String) : Option PrunedBy :=
  if v = "retention" then some .retention
  else if v = "failed-history" then some .failedHistory
  else if v = "policy-cascade" then some .policyCascade
  else if v = "replication-retention" then some .replicationRetention
  else if v = "replaced-run" then some .replacedRun
  else none

inductive SnapshotPhase
  | pending
  | running
  | succeeded
  | unchanged
  | failed
  | discovered
  | deleting
  | unknown (phase : String)
deriving DecidableEq

@[ext] structure PvcTargetRef where
  ns : String
  name : String
deriving DecidableEq

structure SnapshotIdentity where
  username : String
  hostname : String
  sourcePath : Option String := none
deriving DecidableEq

structure SnapshotInfo where
  kopiaSnapshotId : String
  identity : SnapshotIdentity
deriving DecidableEq

structure SnapshotTiming where
  startTime : Option String := none
  endTime : Option String := none
deriving DecidableEq

structure PolicyRef where
  name : String
  ns : Option String := none
deriving DecidableEq

structure SnapshotSpec where
  policyRef : Option PolicyRef := none
  repository : Option RepositoryRef := none
  source : Option PvcTargetRef := none
  deletionPolicy : Option DeletionPolicy := none
  onScheduleDelete : Option ScheduleDeletePolicy := none
  pin : Bool := false
deriving DecidableEq

structure SnapshotStatus where
  phase : Option SnapshotPhase := none
  origin : Option Origin := none
  snapshot : Option SnapshotInfo := none
  timing : Option SnapshotTiming := none
  -- `status.resolved.repository`, frozen at run time.
  resolvedRepository : Option RepositoryRef := none
  -- Type and status of each condition.
  conditions : List (String × String) := []
deriving DecidableEq

structure Snapshot where
  metadata : ObjectMeta
  spec : SnapshotSpec := {}
  status : Option SnapshotStatus := none
deriving DecidableEq

end Kopiur
