import Kopiur.Mover.Replicate
import Kopiur.Webhook.IdentityCollision

/-!
# The replication overlap guard

A replication with `pruning: mirrorSource` is refused when its selection covers
an identity that a policy writes into the destination. The mover matches the
recorded paths, the webhook the paths it resolves for the policy.
-/

namespace Kopiur

open Lib

/-- An identity without path matches a path pattern that covers the empty
string. -/
def overlapMatcherMatches (m : IdentityMatcher) (id : SnapshotIdentity) : Bool :=
  if m.username.isNone && m.hostname.isNone && m.sourcePath.isNone then false
  else
    m.username.all (componentGlobMatches · id.username) &&
    m.hostname.all (componentGlobMatches · id.hostname) &&
    m.sourcePath.all (componentGlobMatches · (id.sourcePath.getD ""))

def overlapSelects (incl excl : List IdentityMatcher) (id : SnapshotIdentity) : Bool :=
  (incl.isEmpty || incl.any (overlapMatcherMatches · id)) &&
    !excl.any (overlapMatcherMatches · id)

def replicationIdentityOverlap (incl excl : List IdentityMatcher)
    (identities : List SnapshotIdentity) : List String :=
  (((identities.filter (overlapSelects incl excl)).map identityString).insertionSort (· ≤ ·)).dedup

def IdentityMatcher.spec (m : IdentityMatcher) : IdentityMatcherSpec :=
  { username := m.username, hostname := m.hostname, sourcePath := m.sourcePath }

structure ResolvedPolicySource where
  pvc : Option String := none
  sourcePath : Option String := none
deriving DecidableEq

structure ResolvedPolicyRepository where
  repository : RepositoryRef
  identity : Option SnapshotIdentity := none
deriving DecidableEq

/-- The `status.resolved` of a policy. -/
structure ResolvedPolicy where
  identity : Option SnapshotIdentity := none
  sources : List ResolvedPolicySource := []
  repositories : List ResolvedPolicyRepository := []
deriving DecidableEq

structure StoredPolicy extends IdentityPolicy where
  resolved : Option ResolvedPolicy := none
deriving DecidableEq

/-- The path one source records; none for a selector, whose path is the
member's. -/
def sourceKopiaPath (source : Source) (index : Nat) (policyNs : String) : Option String :=
  let eff : EffectiveSource :=
    { index
      pvc := source.pvc.map fun p => ⟨policyNs, p.name⟩
      nfsPath := source.nfs.map NfsVolume.path
      stream := source.stream
      sourcePathOverride := source.sourcePathOverride
      readOnly := sourceReadOnly source }
  eff.kopiaSourcePath (strategyFor source)

/-- What the controller resolves a policy to in one repository. -/
def resolveConfigIdentity (render : RenderExpr) (policy : IdentityPolicy)
    (defaults : Option IdentityDefaults) : Except ValidationError ResolvedPolicy := do
  let sourcePath ← identitySourcePath policy.toSnapshotPolicy none
  let identity ← resolveIdentity render policy defaults sourcePath
  .ok
    { identity := some identity
      sources := policy.spec.sources.zipIdx.map fun (s, index) =>
        { pvc := s.pvc.map fun p => policy.ns ++ "/" ++ p.name
          sourcePath := sourceKopiaPath s index policy.ns } }

/-- The mirror a pass that resolved every target writes. -/
def resolvedPolicyMirror (isMulti : Bool) (targets : List (RepositoryRef × ResolvedPolicy)) :
    ResolvedPolicy :=
  if !isMulti then (targets.head?.map Prod.snd).getD {}
  else
    { identity := none
      sources := (targets.head?.map fun t => t.2.sources).getD []
      repositories := targets.map fun t => ⟨t.1, t.2.identity⟩ }

def currentMirror (env : IdentityEnv) (policy : IdentityPolicy) : Option ResolvedPolicy :=
  (collect ((repositoryRefs policy).map fun r =>
    (resolveConfigIdentity env.render policy (env.defaults (repoKey r policy.ns))).toOption.map
      fun t => (r, t))).map (resolvedPolicyMirror (isMultiRepo policy.spec))

def pinnedIdentity (policy : StoredPolicy) (destKey : String) : Option SnapshotIdentity :=
  policy.resolved.bind fun resolved =>
    ((resolved.repositories.find? fun e =>
      repoKey e.repository policy.ns == destKey).bind (·.identity)).or resolved.identity

def expandPerSource (policy : StoredPolicy) (base : SnapshotIdentity) : List SnapshotIdentity :=
  let resolvedPaths := (policy.resolved.map fun r => r.sources.map (·.sourcePath)).getD []
  if resolvedPaths.isEmpty then [base]
  else resolvedPaths.map fun path => { base with sourcePath := path.or base.sourcePath }

/-- The identities the webhook resolves for one policy in the destination. -/
def policyDestIdentities (env : IdentityEnv) (destKey : String) (policy : StoredPolicy) :
    List SnapshotIdentity :=
  if !(repositoryRefs policy.toIdentityPolicy).any fun r => repoKey r policy.ns == destKey then []
  else
    let base := (pinnedIdentity policy destKey).or
      (resolvePolicyIdentity env.render policy.toIdentityPolicy (env.defaults destKey))
    (base.map (expandPerSource policy)).getD []

def destPolicyIdentities (env : IdentityEnv) (destKey : String) (policies : List StoredPolicy) :
    List SnapshotIdentity :=
  policies.flatMap (policyDestIdentities env destKey)

def refusesOverlap (env : IdentityEnv) (destKey : String) (policies : List StoredPolicy)
    (spec : SnapshotReplicationSpec) : Bool :=
  let (incl, excl) := selectionMatchers spec
  !(replicationIdentityOverlap incl excl (destPolicyIdentities env destKey policies)).isEmpty &&
    spec.pruning == some .mirrorSource

theorem glob_run_nil (g : Glob) (h : g.value = []) : g.run = g.pattern.all (· == '*') := by
  obtain ⟨pattern, value, star, ahead⟩ := g
  subst h
  unfold Glob.run
  rfl

theorem componentGlobMatches_empty (pattern : String) :
    componentGlobMatches pattern "" = pattern.toList.all (· == '*') := by
  unfold componentGlobMatches
  exact glob_run_nil _ rfl

/-- The matcher takes the names whatever the path is: it sets a field and no
path pattern but stars. -/
def IdentityMatcher.TakesNames (m : IdentityMatcher) (username hostname : String) : Prop :=
  (m.components.any fun c => c.2.isSome) = true ∧
    (∀ p ∈ m.username, componentGlobMatches p username = true) ∧
    (∀ p ∈ m.hostname, componentGlobMatches p hostname = true) ∧
    ∀ p ∈ m.sourcePath, p.toList.all (· == '*') = true

/-- The selection covers the identity with this path; without a path it has to
cover the names. -/
def Covers (incl excl : List IdentityMatcher) (username hostname : String) : Option String → Prop
  | some path =>
    identityMatchesSpec (incl.map IdentityMatcher.spec) (excl.map IdentityMatcher.spec)
      (identityTriple username hostname path) = true
  | none =>
    (incl = [] ∨ ∃ m ∈ incl, m.TakesNames username hostname) ∧
      ∀ m ∈ excl, ¬ m.TakesNames username hostname

theorem overlapMatcherMatches_spec (m : IdentityMatcher) (id : SnapshotIdentity) :
    overlapMatcherMatches m id =
      matcherMatches m.spec (identityTriple id.username id.hostname (id.sourcePath.getD "")) := rfl

theorem overlapMatcherMatches_pathless (m : IdentityMatcher) (username hostname : String) :
    overlapMatcherMatches m { username, hostname, sourcePath := none } = true ↔
      m.TakesNames username hostname := by
  obtain ⟨u, h, p⟩ := m
  cases u <;> cases h <;> cases p <;>
    simp [overlapMatcherMatches, IdentityMatcher.TakesNames, IdentityMatcher.components,
      componentGlobMatches_empty, and_assoc]

theorem overlapSelects_iff (incl excl : List IdentityMatcher) (id : SnapshotIdentity) :
    overlapSelects incl excl id = true ↔ Covers incl excl id.username id.hostname id.sourcePath := by
  obtain ⟨username, hostname, sourcePath⟩ := id
  cases sourcePath with
  | some path =>
    simp only [overlapSelects, Covers, identityMatchesSpec, overlapMatcherMatches_spec,
      List.any_map, List.isEmpty_map, Option.getD_some]
    rfl
  | none =>
    simp only [overlapSelects, Covers, Bool.and_eq_true, Bool.or_eq_true, List.isEmpty_iff,
      List.any_eq_true, Bool.not_eq_true', List.any_eq_false,
      overlapMatcherMatches_pathless]

theorem replicationIdentityOverlap_ne_nil {incl excl : List IdentityMatcher}
    {identities : List SnapshotIdentity} :
    replicationIdentityOverlap incl excl identities ≠ [] ↔
      ∃ id ∈ identities, Covers incl excl id.username id.hostname id.sourcePath := by
  have hmem : ∀ text, text ∈ replicationIdentityOverlap incl excl identities ↔ ∃ id ∈ identities,
      Covers incl excl id.username id.hostname id.sourcePath ∧ identityString id = text := by
    intro text
    simp only [replicationIdentityOverlap, List.mem_dedup, List.mem_insertionSort, List.mem_map,
      List.mem_filter, overlapSelects_iff, and_assoc]
  constructor
  · intro hne
    obtain ⟨text, htext⟩ := List.exists_mem_of_ne_nil _ hne
    obtain ⟨id, hid, hcovers, -⟩ := (hmem text).mp htext
    exact ⟨id, hid, hcovers⟩
  · rintro ⟨id, hid, hcovers⟩
    exact List.ne_nil_of_mem ((hmem _).mpr ⟨id, hid, hcovers, rfl⟩)

def firstPath (policy : SnapshotPolicy) : Option String :=
  (identitySourcePath policy none).toOption.join

/-- The identity of a policy that resolves to these names: what its status
pins, else the first source's path under the names. -/
def webhookBase (policy : StoredPolicy) (destKey username hostname : String) :
    Option SnapshotIdentity :=
  (pinnedIdentity policy destKey).or
    (if ∀ p ∈ firstPath policy.toSnapshotPolicy,
        validateSourcePath "resolved sourcePath" p = .ok () then
      some { username, hostname, sourcePath := firstPath policy.toSnapshotPolicy }
    else none)

def webhookPaths (policy : StoredPolicy) (own : Option String) : List (Option String) :=
  let listed := (policy.resolved.map ResolvedPolicy.sources).getD []
  if listed.isEmpty then [own] else listed.map fun s => s.sourcePath.or own


section Policy

variable {env : IdentityEnv} {matched : IdentityPolicy → Nat → List PvcTargetRef}
  {policy : StoredPolicy} {destKey : String} {id : String × String × String}
  {incl excl : List IdentityMatcher} {others : List ValidationError}

theorem names_of_recorded {render : RenderExpr} {policy : IdentityPolicy}
    {defaults : Option IdentityDefaults} {matched : Nat → List PvcTargetRef}
    (h : id ∈ recordedIdentities render policy defaults matched) :
    resolveNames render policy defaults = .ok (id.1, id.2.1) ∧
      validateIdentityComponent "resolved username" id.1 = .ok () ∧
      validateIdentityComponent "resolved hostname" id.2.1 = .ok () := by
  obtain ⟨pin, -, hpin⟩ := List.mem_filterMap.mp h
  cases hres : resolveIdentityFor render policy defaults pin with
  | error e => simp [hres, Except.toOption] at hpin
  | ok r =>
    obtain rfl : r = id := by simpa [hres, Except.toOption] using hpin
    obtain ⟨path, -, hid⟩ := bind_eq_ok.mp hres
    obtain ⟨resolved, hresolved, hid⟩ := bind_eq_ok.mp hid
    cases hid
    exact (resolveIdentity_eq_ok.mp hresolved).1

/-- With the names known, only the first path can keep the webhook from
resolving the policy. -/
theorem resolvePolicyIdentity_eq {render : RenderExpr} {policy : IdentityPolicy}
    {defaults : Option IdentityDefaults} {username hostname : String}
    (h : resolveNames render policy defaults = .ok (username, hostname) ∧
      validateIdentityComponent "resolved username" username = .ok () ∧
      validateIdentityComponent "resolved hostname" hostname = .ok ()) :
    resolvePolicyIdentity render policy defaults =
      if ∀ p ∈ firstPath policy.toSnapshotPolicy,
          validateSourcePath "resolved sourcePath" p = .ok () then
        some { username, hostname, sourcePath := firstPath policy.toSnapshotPolicy }
      else none := by
  unfold resolvePolicyIdentity
  change (resolveIdentity render policy defaults (firstPath policy.toSnapshotPolicy)).toOption = _
  split
  case isTrue hvalid =>
    have hres : resolveIdentity render policy defaults (firstPath policy.toSnapshotPolicy) =
        .ok { username, hostname, sourcePath := firstPath policy.toSnapshotPolicy } :=
      resolveIdentity_eq_ok.mpr ⟨h, rfl, hvalid⟩
    rw [hres]
    rfl
  case isFalse hinvalid =>
    cases hres : resolveIdentity render policy defaults (firstPath policy.toSnapshotPolicy) with
    | error e => rfl
    | ok r => exact absurd (resolveIdentity_eq_ok.mp hres).2.2 hinvalid

theorem mem_policyDestIdentities (hrec : Records env matched policy.toIdentityPolicy destKey id)
    {x : SnapshotIdentity} :
    x ∈ policyDestIdentities env destKey policy ↔
      ∃ base ∈ webhookBase policy destKey id.1 id.2.1,
        ∃ path ∈ webhookPaths policy base.sourcePath, x = { base with sourcePath := path } := by
  obtain ⟨⟨repo, hrepo, hkey⟩, hid⟩ := hrec
  have hwrites : ((repositoryRefs policy.toIdentityPolicy).any fun r =>
      repoKey r policy.ns == destKey) = true :=
    List.any_eq_true.mpr ⟨repo, hrepo, beq_iff_eq.mpr hkey⟩
  simp only [policyDestIdentities, hwrites, Bool.not_true, Bool.false_eq_true, if_false,
    resolvePolicyIdentity_eq (names_of_recorded hid)]
  change x ∈ ((webhookBase policy destKey id.1 id.2.1).map (expandPerSource policy)).getD [] ↔ _
  cases webhookBase policy destKey id.1 id.2.1 with
  | none => simp
  | some base =>
    simp only [Option.map_some, Option.getD_some, Option.mem_def, Option.some.injEq,
      exists_eq_left', expandPerSource, webhookPaths]
    cases policy.resolved with
    | none => simp
    | some resolved =>
      cases hsources : resolved.sources <;> simp [hsources, eq_comm]

def StatusCurrent (env : IdentityEnv) (policy : StoredPolicy) : Prop :=
  ∀ r ∈ policy.resolved, currentMirror env policy.toIdentityPolicy = some r

theorem resolveConfigIdentity_eq_ok {render : RenderExpr} {policy : IdentityPolicy}
    {defaults : Option IdentityDefaults} {t : ResolvedPolicy}
    (h : resolveConfigIdentity render policy defaults = .ok t) :
    ∃ path identity, identitySourcePath policy.toSnapshotPolicy none = .ok path ∧
      resolveIdentity render policy defaults path = .ok identity ∧
      t = { identity := some identity
            sources := policy.spec.sources.zipIdx.map fun (s, index) =>
              { pvc := s.pvc.map fun p => policy.ns ++ "/" ++ p.name
                sourcePath := sourceKopiaPath s index policy.ns } } := by
  obtain ⟨path, hpath, h⟩ := bind_eq_ok.mp h
  obtain ⟨identity, hid, h⟩ := bind_eq_ok.mp h
  cases h
  exact ⟨path, identity, hpath, hid, rfl⟩

/-- The status of a current policy: one entry for each repository, resolved as
it is now. -/
theorem currentMirror_eq_some {policy : IdentityPolicy} {r : ResolvedPolicy}
    (h : currentMirror env policy = some r) :
    ∃ targets : List (RepositoryRef × ResolvedPolicy),
      r = resolvedPolicyMirror (isMultiRepo policy.spec) targets ∧
      targets.map Prod.fst = repositoryRefs policy ∧
      ∀ e ∈ targets, resolveConfigIdentity env.render policy
        (env.defaults (repoKey e.1 policy.ns)) = .ok e.2 := by
  obtain ⟨targets, hcollect, rfl⟩ := Option.map_eq_some_iff.mp h
  have hmap := collect_eq_some_iff.mp hcollect
  refine ⟨targets, rfl, map_of_collect (fun ref e he => ?_) hcollect, ?_⟩
  · obtain ⟨t, -, rfl⟩ := Option.map_eq_some_iff.mp he
    rfl
  · intro e he
    have : some e ∈ targets.map some := List.mem_map.mpr ⟨e, he, rfl⟩
    rw [← hmap] at this
    obtain ⟨ref, -, href⟩ := List.mem_map.mp this
    obtain ⟨t, ht, rfl⟩ := Option.map_eq_some_iff.mp href
    cases hres : resolveConfigIdentity env.render policy (env.defaults (repoKey ref policy.ns)) with
    | error err => simp [hres, Except.toOption] at ht
    | ok t' =>
      obtain rfl : t' = t := by simpa [hres, Except.toOption] using ht
      rfl

theorem sourceKopiaPath_first {policy : SnapshotPolicy} {source : Source} {rest : List Source}
    {path : Option String} (hsources : policy.spec.sources = source :: rest)
    (hpath : identitySourcePath policy none = .ok path) :
    sourceKopiaPath source 0 policy.ns = path := by
  simp only [identitySourcePath, identitySourcePathIn, effectiveSourceIn, hsources,
    List.isEmpty_cons, Bool.false_and, Bool.false_eq_true, if_false, Option.map_none,
    Option.getD_none, List.getElem?_cons_zero, bind, Except.bind, Except.ok.injEq,
    Option.map_some, Option.getD_some] at hpath
  exact hpath


theorem pinnedIdentity_current {path : String} {identity : SnapshotIdentity} {r : ResolvedPolicy}
    {repo : RepositoryRef} (hr : policy.resolved = some r)
    (hmirror : currentMirror env policy.toIdentityPolicy = some r)
    (hrepo : repo ∈ repositoryRefs policy.toIdentityPolicy) (hkey : repoKey repo policy.ns = destKey)
    (hpath : identitySourcePath policy.toSnapshotPolicy none = .ok (some path))
    (hid : resolveIdentity env.render policy.toIdentityPolicy (env.defaults destKey) (some path) =
      .ok identity) :
    pinnedIdentity policy destKey = some identity := by
  obtain ⟨targets, hmirror, hrefs, hresolved⟩ := currentMirror_eq_some hmirror
  have hidentity : ∀ e ∈ targets, repoKey e.1 policy.ns = destKey →
      e.2.identity = some identity ∧ e.2.repositories = [] := by
    intro e he hekey
    have hres := hresolved e he
    rw [hekey] at hres
    obtain ⟨path', identity', hpath', hid', ht⟩ := resolveConfigIdentity_eq_ok hres
    rw [hpath, Except.ok.injEq] at hpath'
    subst hpath'
    rw [hid, Except.ok.injEq] at hid'
    subst hid'
    rw [ht]
    exact ⟨rfl, rfl⟩
  obtain ⟨e, he, rfl⟩ : ∃ e ∈ targets, e.1 = repo := by
    rw [← hrefs] at hrepo
    exact List.mem_map.mp hrepo
  simp only [pinnedIdentity, hr, Option.bind_some]
  cases hmulti : isMultiRepo policy.spec with
  | true =>
    simp only [hmulti, resolvedPolicyMirror, Bool.not_true, Bool.false_eq_true, if_false] at hmirror
    subst hmirror
    cases hfind : (targets.map fun t => (⟨t.1, t.2.identity⟩ : ResolvedPolicyRepository)).find?
        fun e => repoKey e.repository policy.ns == destKey with
    | none =>
      have := List.find?_eq_none.mp hfind _ (List.mem_map.mpr ⟨e, he, rfl⟩)
      simp [hkey] at this
    | some entry =>
      obtain ⟨e', he', rfl⟩ := List.mem_map.mp (List.mem_of_find?_eq_some hfind)
      have hekey := List.find?_some hfind
      simp [(hidentity e' he' (beq_iff_eq.mp hekey)).1]
  | false =>
    -- one repository, in the field for one
    have hnil : policy.spec.repositories = [] := by simpa [isMultiRepo] using hmulti
    obtain ⟨rest, rfl⟩ : ∃ rest, targets = e :: rest := by
      have hrefs' : targets.map Prod.fst = policy.repository.toList := by
        simpa [repositoryRefs, hnil] using hrefs
      cases targets with
      | nil => cases he
      | cons x rest =>
        cases hsingle : policy.repository with
        | none => simp [hsingle] at hrefs'
        | some ref =>
          obtain rfl : rest = [] := by simpa [hsingle] using congrArg List.tail hrefs'
          obtain rfl : e = x := by simpa using he
          exact ⟨[], rfl⟩
    simp only [hmulti, resolvedPolicyMirror, Bool.not_false, if_true, List.head?_cons,
      Option.map_some, Option.getD_some] at hmirror
    obtain ⟨hidentity, hrepos⟩ := hidentity e he hkey
    simp [hmirror, hidentity, hrepos]

theorem mem_webhookPaths_current {path : String} {r : ResolvedPolicy}
    (hne : policy.spec.sources ≠ []) (hr : policy.resolved = some r)
    (hmirror : currentMirror env policy.toIdentityPolicy = some r)
    (hrefs : repositoryRefs policy.toIdentityPolicy ≠ [])
    (hpath : identitySourcePath policy.toSnapshotPolicy none = .ok (some path)) :
    some path ∈ webhookPaths policy (some path) := by
  obtain ⟨targets, hmirror, htargets, hresolved⟩ := currentMirror_eq_some hmirror
  obtain ⟨source, rest, hsources⟩ := List.exists_cons_of_ne_nil hne
  cases targets with
  | nil => exact absurd htargets.symm hrefs
  | cons e targets =>
    obtain ⟨_, _, -, -, ht⟩ := resolveConfigIdentity_eq_ok (hresolved e (by simp))
    have hlisted : r.sources = e.2.sources := by
      rw [hmirror]
      cases hmulti : isMultiRepo policy.spec <;> rfl
    have hfirst := sourceKopiaPath_first hsources hpath
    simp [webhookPaths, hr, hlisted, ht, hsources, hfirst]

theorem plain_covered (haccepted : policyErrors others policy.toIdentityPolicy = [])
    (hselector : hasSelector policy.toIdentityPolicy = false) (hcurrent : StatusCurrent env policy)
    (hrec : Records env matched policy.toIdentityPolicy destKey id) :
    webhookBase policy destKey id.1 id.2.1 = some (identityOf id) ∧
      some id.2.2 ∈ webhookPaths policy (some id.2.2) := by
  obtain ⟨⟨repo, hrepo, hkey⟩, hid⟩ := hrec
  obtain ⟨hrepos, hne, hshapes⟩ := policyErrors_eq_nil haccepted
  obtain ⟨hpath, hres⟩ := recorded_plain hselector hne hshapes hid
  have hfirst : firstPath policy.toSnapshotPolicy = some id.2.2 := by
    simp [firstPath, hpath, Except.toOption]
  cases hr : policy.resolved with
  | none =>
    have hvalid := (resolveIdentity_eq_ok.mp hres).2.2
    refine ⟨?_, by simp [webhookPaths, hr]⟩
    simp only [webhookBase, pinnedIdentity, hr, Option.bind_none, Option.none_or, hfirst]
    rw [if_pos hvalid]
    rfl
  | some r =>
    have hmirror := hcurrent r hr
    refine ⟨?_, mem_webhookPaths_current hne hr hmirror (List.ne_nil_of_mem hrepo) hpath⟩
    simp [webhookBase, pinnedIdentity_current hr hmirror hrepo hkey hpath hres]

def GuardCovers (incl excl : List IdentityMatcher) (policy : StoredPolicy)
    (destKey username hostname : String) : Prop :=
  ∃ base ∈ webhookBase policy destKey username hostname,
    ∃ path ∈ webhookPaths policy base.sourcePath, Covers incl excl base.username base.hostname path

theorem overlap_iff_guardCovers (hrec : Records env matched policy.toIdentityPolicy destKey id) :
    replicationIdentityOverlap incl excl (policyDestIdentities env destKey policy) ≠ [] ↔
      GuardCovers incl excl policy destKey id.1 id.2.1 := by
  rw [replicationIdentityOverlap_ne_nil]
  constructor
  · rintro ⟨x, hx, hcovers⟩
    obtain ⟨base, hbase, path, hpath, rfl⟩ := (mem_policyDestIdentities hrec).mp hx
    exact ⟨base, hbase, path, hpath, hcovers⟩
  · rintro ⟨base, hbase, path, hpath, hcovers⟩
    exact ⟨_, (mem_policyDestIdentities hrec).mpr ⟨base, hbase, path, hpath, rfl⟩, hcovers⟩

theorem refusesOverlap_of_overlap {policies : List StoredPolicy} {spec : SnapshotReplicationSpec}
    (hspec : selectionMatchers spec = (incl, excl)) (hpolicy : policy ∈ policies)
    (hmirror : spec.pruning = some .mirrorSource)
    (h : replicationIdentityOverlap incl excl (policyDestIdentities env destKey policy) ≠ []) :
    refusesOverlap env destKey policies spec = true := by
  obtain ⟨x, hx, hcovers⟩ := replicationIdentityOverlap_ne_nil.mp h
  have hall : replicationIdentityOverlap incl excl (destPolicyIdentities env destKey policies) ≠ [] :=
    replicationIdentityOverlap_ne_nil.mpr ⟨x, List.mem_flatMap.mpr ⟨policy, hpolicy, hx⟩, hcovers⟩
  simp [refusesOverlap, hspec, hmirror, hall]

/-- When the mover selects an identity that a policy records, the guard reports
the policy exactly if the selection covers it at a path the webhook knows; then
`mirrorSource` is refused. That is so for every policy without selector whose
status is current. -/
theorem overlap_reported_iff {spec : SnapshotReplicationSpec} {entries : List SnapshotListEntry}
    {policies : List StoredPolicy} (hspec : selectionMatchers spec = (incl, excl))
    (haccepted : policyErrors others policy.toIdentityPolicy = [])
    (hrec : Records env matched policy.toIdentityPolicy destKey id)
    (hselected : identityTriple id.1 id.2.1 id.2.2 ∈
      selectIdentities (incl.map IdentityMatcher.spec) (excl.map IdentityMatcher.spec) entries) :
    (replicationIdentityOverlap incl excl (policyDestIdentities env destKey policy) ≠ [] ↔
      GuardCovers incl excl policy destKey id.1 id.2.1) ∧
    (hasSelector policy.toIdentityPolicy = false → StatusCurrent env policy →
      GuardCovers incl excl policy destKey id.1 id.2.1) ∧
    (GuardCovers incl excl policy destKey id.1 id.2.1 → policy ∈ policies →
      spec.pruning = some .mirrorSource → refusesOverlap env destKey policies spec = true) := by
  refine ⟨overlap_iff_guardCovers hrec, fun hselector hcurrent => ?_,
    fun hcovers hpolicy hmirror =>
      refusesOverlap_of_overlap hspec hpolicy hmirror ((overlap_iff_guardCovers hrec).mpr hcovers)⟩
  obtain ⟨hbase, hpath⟩ := plain_covered haccepted hselector hcurrent hrec
  refine ⟨_, hbase, _, hpath, ?_⟩
  simp only [selectIdentities, List.mem_toFinset, List.mem_filter] at hselected
  exact hselected.2

end Policy

/-- Every PVC path is mirrored into `shared`. -/
def pvcReplication : SnapshotReplicationSpec where
  sourceRef := { kind := .clusterRepository, name := "primary" }
  destinationRef := { kind := .clusterRepository, name := "shared" }
  selection := some { identities := some { incl := [{ sourcePath := some "/pvc/*" }] } }
  pruning := some .mirrorSource

def settledPolicy (policy : IdentityPolicy) : StoredPolicy :=
  { policy with resolved := currentMirror plainEnv policy }

def pgEntry : SnapshotListEntry where
  id := "k1"
  source := { userName := "pg", host := "host", path := "/pvc/data" }
  startTime := 0
  endTime := 1

theorem plain_policy_reported :
    refusesOverlap plainEnv "ClusterRepository/shared" [settledPolicy dataPolicy]
      { pvcReplication with selection := none } = true := by
  have hspec : selectionMatchers { pvcReplication with selection := none } = ([], []) := rfl
  have haccepted : policyErrors [] (settledPolicy dataPolicy).toIdentityPolicy = [] := by
    decide
  have hrec : Records plainEnv dataMatched (settledPolicy dataPolicy).toIdentityPolicy
      "ClusterRepository/shared" ("pg", "host", "/pvc/data") :=
    ⟨by decide, by decide⟩
  have hselected : identityTriple "pg" "host" "/pvc/data" ∈ selectIdentities [] [] [pgEntry] := by
    decide
  obtain ⟨-, hplain, hrefused⟩ := overlap_reported_iff hspec haccepted hrec hselected
  exact hrefused (hplain (by decide) (fun _ hr => hr)) (List.mem_singleton.mpr rfl) rfl

theorem pvcPattern_data : componentGlobMatches "/pvc/*" "/pvc/data" = true := by
  simp [componentGlobMatches, Glob.run, Glob.step, Glob.backtrack]

/-- The status of a selector policy lists its source without path, so a pattern
for the paths of its members does not meet it: the mover selects what the policy
records and nothing is reported. -/
theorem selector_policy_missed :
    policyErrors [] allPolicy = [] ∧ validateSnapshotReplication [] [] [] pvcReplication = [] ∧
      Records plainEnv dataMatched allPolicy "ClusterRepository/shared"
        ("pg", "host", "/pvc/data") ∧
      identityTriple "pg" "host" "/pvc/data" ∈
        selectIdentities [{ sourcePath := some "/pvc/*" }] [] [pgEntry] ∧
      replicationIdentityOverlap [{ sourcePath := some "/pvc/*" }] []
        (policyDestIdentities plainEnv "ClusterRepository/shared" (settledPolicy allPolicy)) = [] ∧
      refusesOverlap plainEnv "ClusterRepository/shared" [settledPolicy allPolicy]
        pvcReplication = false := by
  have hids : policyDestIdentities plainEnv "ClusterRepository/shared" (settledPolicy allPolicy) =
      [{ username := "pg", hostname := "host", sourcePath := none }] := by decide
  have hmissed : replicationIdentityOverlap [{ sourcePath := some "/pvc/*" }] []
      [{ username := "pg", hostname := "host", sourcePath := none }] = [] := by
    by_contra hne
    obtain ⟨id, hid, hcovers⟩ := replicationIdentityOverlap_ne_nil.mp hne
    obtain rfl := List.mem_singleton.mp hid
    simp [Covers, IdentityMatcher.TakesNames] at hcovers
  refine ⟨by decide, by decide, ⟨by decide, by decide⟩, ?_,
    by rw [hids, hmissed], ?_⟩
  · have hcomplete : completeOnly [pgEntry] = [pgEntry] := by decide
    have htriple : entryTriple pgEntry = identityTriple "pg" "host" "/pvc/data" := rfl
    simp [selectIdentities, hcomplete, htriple, identityMatchesSpec, matcherMatches,
      identityTriple, pvcPattern_data]
  · have hspec : selectionMatchers pvcReplication = ([{ sourcePath := some "/pvc/*" }], []) := rfl
    simp [refusesOverlap, hspec, destPolicyIdentities, hids, hmissed]

end Kopiur
