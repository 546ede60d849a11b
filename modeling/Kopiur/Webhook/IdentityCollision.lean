import Kopiur.Api.IdentityResolution
import Kopiur.Api.SnapshotReplication
import Kopiur.Lib.Runs

/-!
# The identity-collision guard

A policy is refused when the identity the webhook resolves for it in one of its
repositories is the one of a stored policy. The guard resolves one path for a
policy, the path of its first source; a selector records others.
-/

namespace Kopiur

open Lib

structure ExistingIdentity where
  identity : String
  repoKey : String
  name : String
deriving DecidableEq

def detectIdentityCollision (selfIdentity selfRepoKey selfName : String)
    (existing : List ExistingIdentity) : Option String :=
  (existing.find? fun e =>
    e.name != selfName && e.repoKey == selfRepoKey && e.identity == selfIdentity).map (·.name)

structure CollisionHit where
  conflict : String
  identity : String
  repoKey : String
deriving DecidableEq

def detectIdentityCollisionMulti (selfPairs : List (String × String)) (selfName : String)
    (existing : List ExistingIdentity) : Option CollisionHit :=
  selfPairs.findSome? fun (identity, key) =>
    (detectIdentityCollision identity key selfName existing).map fun conflict =>
      ⟨conflict, identity, key⟩

theorem detectIdentityCollisionMulti_isSome {selfPairs : List (String × String)} {selfName : String}
    {existing : List ExistingIdentity} {e : ExistingIdentity} (he : e ∈ existing)
    (hname : e.name ≠ selfName) (hpair : (e.identity, e.repoKey) ∈ selfPairs) :
    (detectIdentityCollisionMulti selfPairs selfName existing).isSome := by
  simp only [detectIdentityCollisionMulti, List.findSome?_isSome_iff, Prod.exists,
    Option.isSome_map]
  refine ⟨e.identity, e.repoKey, hpair, ?_⟩
  simp only [detectIdentityCollision, Option.isSome_map, List.find?_isSome]
  exact ⟨e, he, by simp [hname]⟩

structure IdentityEnv where
  render : RenderExpr
  -- The `identityDefaults` of the repository with this key.
  defaults : String → Option IdentityDefaults

def resolvePolicyIdentity (render : RenderExpr) (policy : IdentityPolicy)
    (defaults : Option IdentityDefaults) : Option SnapshotIdentity :=
  let sourcePath := (identitySourcePath policy.toSnapshotPolicy none).toOption.join
  (resolveIdentity render policy defaults sourcePath).toOption

def policyIdentityString (render : RenderExpr) (policy : IdentityPolicy)
    (defaults : Option IdentityDefaults) : Option String :=
  (resolvePolicyIdentity render policy defaults).map identityString

def policyPairs (env : IdentityEnv) (policy : IdentityPolicy) : List (String × String) :=
  (repositoryRefs policy).filterMap fun repo =>
    let key := repoKey repo policy.ns
    (policyIdentityString env.render policy (env.defaults key)).map fun identity => (identity, key)

def fullName (policy : IdentityPolicy) : String := policy.ns ++ "/" ++ policy.nameAny

/-- `stored` is the list of all policies; the one that is checked is skipped. -/
def checkIdentityCollision (env : IdentityEnv) (stored : List IdentityPolicy)
    (self : IdentityPolicy) : Option CollisionHit :=
  let existing := (stored.filter fun p => fullName p != fullName self).flatMap fun p =>
    (policyPairs env p).map fun (identity, key) => ⟨identity, key, fullName p⟩
  detectIdentityCollisionMulti (policyPairs env self) (fullName self) existing

/-- The entries whose key an earlier one has; the validator has no namespace
to resolve a reference from. -/
def duplicateRefs : List (RepositoryRef × Nat) → List (String × Nat) → List ValidationError
  | [], _ => []
  | (r, i) :: rest, seen =>
    let key := repoKey r ""
    match seen.lookup key with
    | some first => .policyRepositoriesDuplicate key first i :: duplicateRefs rest seen
    | none => duplicateRefs rest ((key, i) :: seen)

def validatePolicyRepositories (policy : IdentityPolicy) : List ValidationError :=
  let shape := match policy.repository, policy.spec.repositories.isEmpty with
    | some _, true | none, false => []
    | some _, false => [.policyRepositoryExactlyOne "both"]
    | none, true => [.policyRepositoryExactlyOne "neither"]
  let refs := (repositoryRefs policy).filterMap validateRepositoryRef
  let hooks := if isMultiRepo policy.spec && policy.hooks then [.policyHooksWithRepositories] else []
  shape ++ refs ++ duplicateRefs policy.spec.repositories.zipIdx [] ++ hooks

/-- The errors about repositories and sources; `others` is what the checks of
the remaining fields report. -/
def policyErrors (others : List ValidationError) (policy : IdentityPolicy) :
    List ValidationError :=
  let missing := if policy.spec.sources.isEmpty then
      [.missingRequiredField "spec.sources (at least one source required)"]
    else []
  let shapes := policy.spec.sources.filterMap fun source =>
    match sourceShape source with
    | .ok _ => none
    | .error e => some e
  validatePolicyRepositories policy ++ missing ++ shapes ++ others

structure ApplyPolicy where
  others : List ValidationError := []
  policy : IdentityPolicy
deriving DecidableEq

def admitPolicy (env : IdentityEnv) (stored : List IdentityPolicy) (e : ApplyPolicy) :
    Option (List IdentityPolicy) :=
  if policyErrors e.others e.policy = [] ∧ checkIdentityCollision env stored e.policy = none then
    some (e.policy :: stored.filter fun p => fullName p != fullName e.policy)
  else none

def hasSelector (policy : IdentityPolicy) : Bool :=
  policy.spec.sources.any fun s => s.pvcSelector.isSome

def Records (env : IdentityEnv) (matched : IdentityPolicy → Nat → List PvcTargetRef)
    (policy : IdentityPolicy) (key : String) (id : String × String × String) : Prop :=
  (∃ repo ∈ repositoryRefs policy, repoKey repo policy.ns = key) ∧
    id ∈ recordedIdentities env.render policy (env.defaults key) (matched policy)

def Interleave (env : IdentityEnv) (matched : IdentityPolicy → Nat → List PvcTargetRef)
    (p q : IdentityPolicy) : Prop :=
  ∃ key id, Records env matched p key id ∧ Records env matched q key id

def ListsOnce (policy : IdentityPolicy) : Prop :=
  ((repositoryRefs policy).map fun r => normalizedRepositoryRef r policy.ns).Nodup

theorem identitySourcePath_plain {policy : SnapshotPolicy}
    (hselector : policy.spec.sources.any (fun s => s.pvcSelector.isSome) = false)
    (hne : policy.spec.sources ≠ [])
    (hshapes : ∀ s ∈ policy.spec.sources, ∃ shape, sourceShape s = .ok shape) :
    ∃ path, identitySourcePath policy none = .ok (some path) := by
  cases hsources : policy.spec.sources with
  | nil => exact absurd hsources hne
  | cons source rest =>
    have hmem : source ∈ policy.spec.sources := by simp [hsources]
    obtain ⟨shape, hshape⟩ := hshapes source hmem
    have hsel : source.pvcSelector = none := by
      simpa using List.any_eq_false.mp hselector source hmem
    simp only [identitySourcePath, identitySourcePathIn, effectiveSourceIn, hsources,
      List.isEmpty_cons, Bool.false_and, Bool.false_eq_true, if_false, Option.map_none,
      Option.getD_none, List.getElem?_cons_zero, bind, Except.bind,
      EffectiveSource.kopiaSourcePath]
    obtain ⟨pvc, sel, nfs, stream, readOnly, override, strategy⟩ := source
    subst hsel
    -- an override or one of the three forms is set, and each of them is a path
    cases override with
    | some o => exact ⟨o, rfl⟩
    | none =>
      cases pvc with
      | some p => exact ⟨_, rfl⟩
      | none =>
        cases stream with
        | some st => exact ⟨_, rfl⟩
        | none =>
          cases nfs with
          | some n => exact ⟨n.path, rfl⟩
          | none => simp [sourceShape, Source.formsSet] at hshape

theorem policyErrors_eq_nil {others : List ValidationError} {policy : IdentityPolicy}
    (h : policyErrors others policy = []) :
    validatePolicyRepositories policy = [] ∧ policy.spec.sources ≠ [] ∧
      ∀ s ∈ policy.spec.sources, ∃ shape, sourceShape s = .ok shape := by
  simp only [policyErrors, List.append_eq_nil_iff, List.filterMap_eq_nil_iff] at h
  obtain ⟨⟨⟨hrepos, hmissing⟩, hshapes⟩, -⟩ := h
  refine ⟨hrepos, fun hnil => by simp [hnil] at hmissing, fun s hs => ?_⟩
  have hs := hshapes s hs
  cases hshape : sourceShape s with
  | ok shape => exact ⟨shape, rfl⟩
  | error e => simp [hshape] at hs

def identityOf (id : String × String × String) : SnapshotIdentity :=
  { username := id.1, hostname := id.2.1, sourcePath := some id.2.2 }

section Plain

variable {render : RenderExpr} {policy : IdentityPolicy} {defaults : Option IdentityDefaults}
  {matched : Nat → List PvcTargetRef} {id : String × String × String}
  (hselector : hasSelector policy = false) (hne : policy.spec.sources ≠ [])
  (hshapes : ∀ s ∈ policy.spec.sources, ∃ shape, sourceShape s = .ok shape)
  (h : id ∈ recordedIdentities render policy defaults matched)

include hselector hne hshapes h

theorem recorded_plain :
    identitySourcePath policy.toSnapshotPolicy none = .ok (some id.2.2) ∧
      resolveIdentity render policy defaults (some id.2.2) = .ok (identityOf id) := by
  obtain ⟨path, hpath⟩ := identitySourcePath_plain hselector hne hshapes
  have hpins : runPins policy.toSnapshotPolicy matched = [none] := by
    unfold hasSelector at hselector
    simp [runPins, expandSources, hselector]
  rw [recordedIdentities, hpins, List.mem_filterMap] at h
  obtain ⟨pin, hpin, hid⟩ := h
  rw [List.mem_singleton] at hpin
  subst hpin
  cases hres : resolveIdentity render policy defaults (some path) with
  | error e => simp [resolveIdentityFor, hpath, hres, bind, Except.bind, Except.toOption] at hid
  | ok r =>
    have hsource := (resolveIdentity_eq_ok.mp hres).2.1
    simp only [resolveIdentityFor, hpath, hres, bind, Except.bind, Except.toOption,
      Option.some.injEq] at hid
    subst hid
    simp only [identityOf, hsource, Option.getD_some]
    refine ⟨hpath, ?_⟩
    rw [hres, ← hsource]

theorem guard_sees_plain :
    policyIdentityString render policy defaults = some (identityString (identityOf id)) := by
  obtain ⟨hpath, hres⟩ := recorded_plain hselector hne hshapes h
  simp only [policyIdentityString, resolvePolicyIdentity, hpath, Except.toOption,
    Option.join_some, hres, Option.map_some]

end Plain

/-- One repository of the policy's own namespace, once with and once without
the namespace. -/
def ListsOwnTwice (policy : IdentityPolicy) : Prop :=
  ∃ r ∈ policy.spec.repositories, ∃ r' ∈ policy.spec.repositories,
    r.kind = .repository ∧ r'.kind = .repository ∧ r.name = r'.name ∧ r.ns = none ∧
      r'.ns = some policy.ns

instance (policy : IdentityPolicy) : Decidable (ListsOwnTwice policy) :=
  inferInstanceAs (Decidable (∃ r ∈ policy.spec.repositories, ∃ r' ∈ policy.spec.repositories, _))

theorem keys_of_duplicateRefs_eq_nil {refs : List (RepositoryRef × Nat)}
    {seen : List (String × Nat)} (h : duplicateRefs refs seen = []) :
    (refs.map fun e => repoKey e.1 "").Nodup ∧ ∀ e ∈ refs, seen.lookup (repoKey e.1 "") = none := by
  induction refs generalizing seen with
  | nil => simp
  | cons e rest ih =>
    simp only [duplicateRefs] at h
    cases hseen : seen.lookup (repoKey e.1 "") with
    | some first => simp [hseen] at h
    | none =>
      simp only [hseen] at h
      obtain ⟨hnodup, hfresh⟩ := ih h
      have hne : ∀ x ∈ rest, repoKey x.1 "" ≠ repoKey e.1 "" := by
        intro x hx heq
        have := hfresh x hx
        simp [heq] at this
      refine ⟨?_, ?_⟩
      · simp only [List.map_cons, List.nodup_cons, List.mem_map, not_exists, not_and]
        exact ⟨hne, hnodup⟩
      · intro x hx
        rcases List.mem_cons.mp hx with rfl | hx
        · exact hseen
        · have := hfresh x hx
          rwa [List.lookup_cons, beq_false_of_ne (hne x hx)] at this

theorem repoKey_eq_of_normalized {r r' : RepositoryRef} {ns : String}
    (h : normalizedRepositoryRef r ns = normalizedRepositoryRef r' ns) :
    repoKey r "" = repoKey r' "" ∨ r.kind = .repository ∧ r'.kind = .repository ∧
      r.name = r'.name ∧ (r.ns = none ∧ r'.ns = some ns ∨ r.ns = some ns ∧ r'.ns = none) := by
  obtain ⟨kind, name, rns⟩ := r
  obtain ⟨kind', name', rns'⟩ := r'
  cases kind <;> cases kind' <;>
    simp_all [normalizedRepositoryRef, repoKey]
  cases rns <;> cases rns' <;> simp_all

/-- An accepted policy that lists a repository twice lists one of its own
namespace with and without the namespace. -/
theorem listsOnce_of_accepted {policy : IdentityPolicy}
    (h : validatePolicyRepositories policy = []) (hown : ¬ ListsOwnTwice policy) :
    ListsOnce policy := by
  simp only [validatePolicyRepositories, List.append_eq_nil_iff] at h
  obtain ⟨⟨⟨hshape, -⟩, hdup⟩, -⟩ := h
  have hkeys := (keys_of_duplicateRefs_eq_nil hdup).1
  have hmap : (policy.spec.repositories.zipIdx.map fun e => repoKey e.1 "") =
      policy.spec.repositories.map fun r => repoKey r "" := by
    conv_rhs => rw [← List.zipIdx_map_fst 0 policy.spec.repositories, List.map_map]
    rfl
  rw [hmap] at hkeys
  have hnodup : (policy.spec.repositories.map fun r =>
      normalizedRepositoryRef r policy.ns).Nodup := by
    refine List.pairwise_map.mpr ?_
    refine (List.pairwise_map.mp hkeys).imp_of_mem fun {r r'} hr hr' hne heq => ?_
    rcases repoKey_eq_of_normalized heq with hkey | ⟨hk, hk', hname, ⟨hns, hns'⟩ | ⟨hns, hns'⟩⟩
    · exact hne hkey
    · exact hown ⟨r, hr, r', hr', hk, hk', hname, hns, hns'⟩
    · exact hown ⟨r', hr', r, hr, hk', hk, hname.symm, hns', hns⟩
  unfold ListsOnce repositoryRefs
  cases hsingle : policy.repository with
  | none => simpa using hnodup
  | some r =>
    cases hrepos : policy.spec.repositories with
    | nil => simp
    | cons x rest => simp [hsingle, hrepos] at hshape

section Runs

variable (env : IdentityEnv) (matched : IdentityPolicy → Nat → List PvcTargetRef)

/-- Two policies one of which has a selector do not interleave, and no own
repository is listed with and without its namespace. -/
def SelectorsApart (stored : List IdentityPolicy) (e : ApplyPolicy) : Prop :=
  (∀ q ∈ stored, fullName q ≠ fullName e.policy →
    hasSelector e.policy = true ∨ hasSelector q = true → ¬ Interleave env matched e.policy q) ∧
  ¬ ListsOwnTwice e.policy

structure Guarded (stored : List IdentityPolicy) : Prop where
  accepted : ∀ p ∈ stored, ∃ others, policyErrors others p = []
  apart : stored.Pairwise fun p q => fullName p ≠ fullName q ∧ ¬ Interleave env matched p q
  once : ∀ p ∈ stored, ListsOnce p

variable {env matched}

theorem mem_policyPairs {p : IdentityPolicy} {key identity : String}
    (hrepo : ∃ repo ∈ repositoryRefs p, repoKey repo p.ns = key)
    (hid : policyIdentityString env.render p (env.defaults key) = some identity) :
    (identity, key) ∈ policyPairs env p := by
  obtain ⟨repo, hmem, rfl⟩ := hrepo
  exact List.mem_filterMap.mpr ⟨repo, hmem, by simp [hid]⟩

theorem plain_collides {stored : List IdentityPolicy} {p q : IdentityPolicy} (hq : q ∈ stored)
    (hname : fullName q ≠ fullName p) {others others' : List ValidationError}
    (hp : policyErrors others p = []) (hq' : policyErrors others' q = [])
    (hpsel : hasSelector p = false) (hqsel : hasSelector q = false)
    (h : Interleave env matched p q) : (checkIdentityCollision env stored p).isSome := by
  obtain ⟨key, id, ⟨hprepo, hpid⟩, hqrepo, hqid⟩ := h
  obtain ⟨-, hpne, hpshapes⟩ := policyErrors_eq_nil hp
  obtain ⟨-, hqne, hqshapes⟩ := policyErrors_eq_nil hq'
  have hpstring := guard_sees_plain hpsel hpne hpshapes hpid
  have hqstring := guard_sees_plain hqsel hqne hqshapes hqid
  have hexisting : (⟨identityString (identityOf id), key, fullName q⟩ : ExistingIdentity) ∈
      (stored.filter fun q => fullName q != fullName p).flatMap fun q =>
        (policyPairs env q).map fun (identity, key) => ⟨identity, key, fullName q⟩ := by
    refine List.mem_flatMap.mpr ⟨q, by simp [hq, hname], ?_⟩
    exact List.mem_map.mpr ⟨_, mem_policyPairs hqrepo hqstring, rfl⟩
  exact detectIdentityCollisionMulti_isSome hexisting hname (mem_policyPairs hprepo hpstring)

theorem Guarded.nil : Guarded env matched [] where
  accepted := by simp
  apart := by simp
  once := by simp

theorem Guarded.admit {stored stored' : List IdentityPolicy} {e : ApplyPolicy}
    (h : Guarded env matched stored) (hok : SelectorsApart env matched stored e)
    (hstep : admitPolicy env stored e = some stored') : Guarded env matched stored' := by
  unfold admitPolicy at hstep
  split at hstep
  case isFalse => cases hstep
  case isTrue hadmitted =>
    obtain ⟨herrors, hcheck⟩ := hadmitted
    cases hstep
    have hsub : ∀ q ∈ stored.filter (fun p => fullName p != fullName e.policy),
        q ∈ stored ∧ fullName q ≠ fullName e.policy := by
      intro q hq
      simpa using List.mem_filter.mp hq
    refine ⟨?_, List.pairwise_cons.mpr ⟨fun q hq => ?_, h.apart.sublist List.filter_sublist⟩, ?_⟩
    · intro p hp
      rcases List.mem_cons.mp hp with rfl | hp
      · exact ⟨e.others, herrors⟩
      · exact h.accepted p (hsub p hp).1
    · obtain ⟨hstored, hname⟩ := hsub q hq
      refine ⟨Ne.symm hname, fun hmeet => ?_⟩
      obtain ⟨others, hqerrors⟩ := h.accepted q hstored
      cases hpsel : hasSelector e.policy with
      | true => exact hok.1 q hstored hname (.inl hpsel) hmeet
      | false =>
        cases hqsel : hasSelector q with
        | true => exact hok.1 q hstored hname (.inr hqsel) hmeet
        | false =>
          have := plain_collides hstored hname herrors hqerrors hpsel hqsel hmeet
          simp [hcheck] at this
    · intro p hp
      rcases List.mem_cons.mp hp with rfl | hp
      · exact listsOnce_of_accepted (policyErrors_eq_nil herrors).1 hok.2
      · exact h.once p (hsub p hp).1

/-- While the policies with a selector stay apart and none lists an own
repository with and without its namespace, no two stored policies interleave and
none lists a repository twice. -/
theorem admitted_policies_apart {stored : List IdentityPolicy}
    (hrun : Reaches (admitPolicy env) (SelectorsApart env matched) [] stored) :
    (stored.Pairwise fun p q => fullName p ≠ fullName q ∧ ¬ Interleave env matched p q) ∧
      ∀ p ∈ stored, ListsOnce p := by
  have h := hrun.invariant (Guarded env matched) .nil fun _ _ _ h hok hstep => h.admit hok hstep
  exact ⟨h.apart, h.once⟩

end Runs

/-- A policy of `billing` that backs up into the cluster repository `shared`. -/
def sharedPolicy (name : String) (source : Source) : IdentityPolicy where
  metadata := { name := some name, ns := some "billing" }
  spec := { sources := [source] }
  repository := some { kind := .clusterRepository, name := "shared" }
  identity := { username := some "pg", hostname := some "host" }

def dataPolicy : IdentityPolicy := sharedPolicy "pg-data" { pvc := some ⟨"data"⟩ }

def logsPolicy : IdentityPolicy := sharedPolicy "pg-logs" { pvc := some ⟨"logs"⟩ }

def allPolicy : IdentityPolicy := sharedPolicy "pg-all" { pvcSelector := some {} }

/-- `nas` is listed with and without its namespace. -/
def twicePolicy : IdentityPolicy where
  metadata := { name := some "pg-twice", ns := some "billing" }
  spec :=
    { sources := [{ pvc := some ⟨"data"⟩ }]
      repositories := [{ name := "nas" }, { name := "nas", ns := some "billing" }] }

def plainEnv : IdentityEnv where
  render _ _ := .error ""
  defaults _ := none

def dataMatched (_ : IdentityPolicy) (_ : Nat) : List PvcTargetRef := [⟨"billing", "data"⟩]

theorem admitted_policies_apart_two :
    ([logsPolicy, dataPolicy].Pairwise fun p q =>
      fullName p ≠ fullName q ∧ ¬ Interleave plainEnv dataMatched p q) ∧
    ∀ p ∈ [logsPolicy, dataPolicy], ListsOnce p := by
  refine admitted_policies_apart (.tail (t := [dataPolicy]) (a := ⟨[], logsPolicy⟩)
    (.tail (t := []) (a := ⟨[], dataPolicy⟩) .refl ?_ (by decide)) ?_ (by decide))
  · exact ⟨by simp, by decide⟩
  · refine ⟨fun q hq _ hsel => ?_, by decide⟩
    rw [List.mem_singleton] at hq
    subst hq
    rcases hsel with hsel | hsel <;> cases hsel

/-- A selector policy and a policy for one of its PVCs are both admitted under
one `username@hostname` and record one identity; a policy that lists an own
repository with and without its namespace is admitted too. -/
theorem admitted_policies_interleave :
    admitPolicy plainEnv [] ⟨[], allPolicy⟩ = some [allPolicy] ∧
      admitPolicy plainEnv [allPolicy] ⟨[], dataPolicy⟩ = some [dataPolicy, allPolicy] ∧
      fullName dataPolicy ≠ fullName allPolicy ∧
      Interleave plainEnv dataMatched dataPolicy allPolicy ∧
      admitPolicy plainEnv [] ⟨[], twicePolicy⟩ = some [twicePolicy] ∧ ¬ ListsOnce twicePolicy := by
  refine ⟨by decide, by decide, by decide, ?_, by decide, ?_⟩
  · have hshared : ∀ p ∈ [dataPolicy, allPolicy],
        ∃ repo ∈ repositoryRefs p, repoKey repo p.ns = "ClusterRepository/shared" := by
      decide
    exact ⟨"ClusterRepository/shared", ("pg", "host", "/pvc/data"),
      ⟨hshared _ (by simp), by decide⟩, hshared _ (by simp), by decide⟩
  · unfold ListsOnce
    decide

end Kopiur
