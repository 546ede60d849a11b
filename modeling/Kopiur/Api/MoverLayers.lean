import Kopiur.Api.PrivilegedMode
import Kopiur.Lib.SortedMap

/-!
# Layers of a mover

The mover of a run is the hardened base, the repository's defaults, the policy's
mover and the run's own, each merged over the one before. Pairs of contexts are
merged with their identity brought into one place, so that it does not matter
which layers are merged first; a pair is in that form after any merge, also
with an absent one.
-/

namespace Kopiur

open Lib

-- Pairs of contexts in any grouping

theorem mergeOpt_assoc {α : Type} {merge : α → α → α}
    (h : ∀ a b c, merge (merge a b) c = merge a (merge b c)) (a b c : Option α) :
    mergeOpt merge (mergeOpt merge a b) c = mergeOpt merge a (mergeOpt merge b c) := by
  cases a <;> cases b <;> cases c <;> simp [mergeOpt, h]

@[simp] theorem mergeOpt_none_left {α : Type} {merge : α → α → α} (a : Option α) :
    mergeOpt merge none a = a := by
  cases a <;> rfl

@[simp] theorem mergeOpt_none_right {α : Type} {merge : α → α → α} (a : Option α) :
    mergeOpt merge a none = a := by
  cases a <;> rfl

theorem mergeCapabilities_assoc (a b c : Capabilities) :
    mergeCapabilities (mergeCapabilities a b) c = mergeCapabilities a (mergeCapabilities b c) := by
  simp only [mergeCapabilities, Option.or_assoc]

theorem capabilities_mergeSecurityContext (base atop : SecurityContext) :
    (mergeSecurityContext base atop).capabilities =
      mergeOpt mergeCapabilities base.capabilities atop.capabilities := by
  unfold mergeSecurityContext
  cases base.capabilities <;> cases atop.capabilities <;> rfl

theorem mergeSecurityContext_assoc (a b c : SecurityContext) :
    mergeSecurityContext (mergeSecurityContext a b) c =
      mergeSecurityContext a (mergeSecurityContext b c) := by
  have hcaps : (mergeSecurityContext (mergeSecurityContext a b) c).capabilities =
      (mergeSecurityContext a (mergeSecurityContext b c)).capabilities := by
    simp only [capabilities_mergeSecurityContext, mergeOpt_assoc mergeCapabilities_assoc]
  rw [mergeSecurityContext, mergeSecurityContext, SecurityContext.mk.injEq]
  simp only [mergeSecurityContext, Option.or_assoc, true_and, and_true] at hcaps ⊢
  exact hcaps

theorem mergePodSecurityContext_assoc (a b c : PodSecurityContext) :
    mergePodSecurityContext (mergePodSecurityContext a b) c =
      mergePodSecurityContext a (mergePodSecurityContext b c) := by
  simp only [mergePodSecurityContext, Option.or_assoc]

def SecurityContext.pin (sc : SecurityContext) (uid gid : Option Int) : SecurityContext :=
  { sc with runAsUser := uid, runAsGroup := gid }

namespace ContextPair

variable (p q base atop : ContextPair) (uid' gid' : Option Int)

def uid : Option Int := effectiveRunAsUser p.1 p.2

def gid : Option Int := effectiveRunAsGroup p.1 p.2

def absent : ContextPair := (none, none)

def carrying : ContextPair := (p.1.map (·.pin uid' gid'), p.2)

def canonical : ContextPair := p.carrying p.uid p.gid

def fieldwise : ContextPair :=
  (mergeSecurityContextOpt base.1 atop.1, mergePodSecurityContextOpt base.2 atop.2)

theorem uid_merge : (mergeContextPair base atop).uid = atop.uid.or base.uid :=
  effectiveRunAsUser_mergeContextPair base atop

theorem gid_merge : (mergeContextPair base atop).gid = atop.gid.or base.gid :=
  effectiveRunAsGroup_mergeContextPair base atop

theorem merge_eq : mergeContextPair base atop =
    (fieldwise base atop).carrying (atop.uid.or base.uid) (atop.gid.or base.gid) := by
  have huid := uid_merge base atop
  have hgid := gid_merge base atop
  cases hm : mergeSecurityContextOpt base.1 atop.1 with
  | none => simp [mergeContextPair, fieldwise, carrying, hm]
  | some merged =>
    simp only [mergeContextPair, hm, Option.map_some, uid, gid, effectiveRunAsUser,
      effectiveRunAsGroup, Option.bind_some, Option.or_assoc, Option.or_self] at huid hgid
    simp only [mergeContextPair, fieldwise, carrying, hm, Option.map_some, SecurityContext.pin,
      uid, gid, effectiveRunAsUser, effectiveRunAsGroup, Option.or_assoc, huid, hgid]

theorem fieldwise_assoc (c : ContextPair) :
    fieldwise (fieldwise p q) c = fieldwise p (fieldwise q c) :=
  Prod.ext (mergeOpt_assoc mergeSecurityContext_assoc p.1 q.1 c.1)
    (mergeOpt_assoc mergePodSecurityContext_assoc p.2 q.2 c.2)

variable {uid' gid'} {uid'' gid'' : Option Int}

@[simp] theorem carrying_carrying :
    (p.carrying uid' gid').carrying uid'' gid'' = p.carrying uid'' gid'' := by
  simp [carrying, SecurityContext.pin, Function.comp_def]

@[simp] theorem fieldwise_carrying_left :
    (fieldwise (p.carrying uid' gid') q).carrying uid'' gid'' =
      (fieldwise p q).carrying uid'' gid'' := by
  obtain ⟨psc, ppsc⟩ := p
  obtain ⟨qsc, qpsc⟩ := q
  cases psc <;> cases qsc <;> rfl

@[simp] theorem fieldwise_carrying_right :
    (fieldwise p (q.carrying uid' gid')).carrying uid'' gid'' =
      (fieldwise p q).carrying uid'' gid'' := by
  obtain ⟨psc, ppsc⟩ := p
  obtain ⟨qsc, qpsc⟩ := q
  cases psc <;> cases qsc <;> rfl

@[simp] theorem fieldwise_absent_left : fieldwise absent p = p := by
  simp [fieldwise, absent, mergeSecurityContextOpt, mergePodSecurityContextOpt]

@[simp] theorem fieldwise_absent_right : fieldwise p absent = p := by
  simp [fieldwise, absent, mergeSecurityContextOpt, mergePodSecurityContextOpt]

theorem merge_assoc (a b c : ContextPair) :
    mergeContextPair (mergeContextPair a b) c = mergeContextPair a (mergeContextPair b c) := by
  rw [merge_eq _ c, merge_eq a (mergeContextPair b c), uid_merge, uid_merge, gid_merge, gid_merge,
    merge_eq a b, merge_eq b c, fieldwise_carrying_left, fieldwise_carrying_right, fieldwise_assoc,
    Option.or_assoc, Option.or_assoc]

theorem merge_absent_left : mergeContextPair absent p = p.canonical := by
  rw [merge_eq, fieldwise_absent_left]
  simp [canonical, absent, uid, gid, effectiveRunAsUser, effectiveRunAsGroup]

theorem merge_absent_right : mergeContextPair p absent = p.canonical := by
  rw [merge_eq, fieldwise_absent_right]
  simp [canonical, absent, uid, gid, effectiveRunAsUser, effectiveRunAsGroup]

theorem canonical_merge : (mergeContextPair base atop).canonical = mergeContextPair base atop := by
  rw [canonical, uid_merge, gid_merge, merge_eq, carrying_carrying]

/-- A pair is canonical unless its container context leaves to the pod what the
pod pins. -/
theorem canonical_eq_self_iff : p.canonical = p ↔
    ∀ sc, p.1 = some sc → sc.runAsUser = p.uid ∧ sc.runAsGroup = p.gid := by
  obtain ⟨sc, psc⟩ := p
  cases sc with
  | none => simp [canonical, carrying]
  | some sc =>
    rw [canonical, carrying, Prod.mk.injEq, Option.map_some, Option.some.injEq,
      SecurityContext.pin, SecurityContext.mk.injEq]
    constructor
    · rintro ⟨hpin, -⟩ _ ⟨⟩
      exact ⟨hpin.2.2.2.2.2.2.2.2.1.symm, hpin.2.2.2.2.2.2.1.symm⟩
    · intro h
      obtain ⟨huid, hgid⟩ := h sc rfl
      simp [← huid, ← hgid]

def mergeLayers (base : ContextPair) (layers : List ContextPair) : ContextPair :=
  layers.foldl mergeContextPair base

/-- What the higher pair of a merge decides, the highest of all layers that says
something decides. -/
theorem number_mergeLayers {number : ContextPair → Option Int}
    (h : ∀ base atop, number (mergeContextPair base atop) = (number atop).or (number base))
    (layers : List ContextPair) :
    number (mergeLayers base layers) = (base :: layers).reverse.findSome? number := by
  induction layers generalizing base with
  | nil => simp [mergeLayers]
  | cons l rest ih =>
    have htwo : [l, base].findSome? number = (number l).or (number base) := by
      cases hl : number l <;> cases hb : number base <;> simp [hl, hb]
    have hstep := ih (mergeContextPair base l)
    rw [mergeLayers, List.foldl_cons, ← mergeLayers, hstep]
    simp only [List.reverse_cons, List.append_assoc, List.findSome?_append, List.cons_append,
      List.nil_append, htwo]
    simp [h]

end ContextPair

namespace MoverLayer

structure QuantityMap where
  entries : List (String × String)
  sorted : SortedKeys entries
deriving DecidableEq

/-- The entries of `atop` are inserted into `base`. -/
def mergeQuantityMap (base atop : QuantityMap) : QuantityMap where
  entries := putAll atop.entries base.entries
  sorted := sorted_putAll atop.entries base.sorted

theorem QuantityMap.ext_of_lookup {m m' : QuantityMap}
    (h : ∀ k, m.entries.lookup k = m'.entries.lookup k) : m = m' := by
  obtain ⟨entries, sorted⟩ := m
  obtain ⟨entries', sorted'⟩ := m'
  obtain rfl := Lib.ext_of_lookup sorted sorted' h
  rfl

theorem lookup_mergeQuantityMap (base atop : QuantityMap) (k : String) :
    (mergeQuantityMap base atop).entries.lookup k =
      (atop.entries.lookup k).or (base.entries.lookup k) :=
  lookup_putAll_sorted atop.sorted base.entries k

theorem mergeQuantityMap_assoc (a b c : QuantityMap) :
    mergeQuantityMap (mergeQuantityMap a b) c = mergeQuantityMap a (mergeQuantityMap b c) := by
  apply QuantityMap.ext_of_lookup
  intro k
  simp only [lookup_mergeQuantityMap, Option.or_assoc]

structure ResourceRequirements where
  claims : Option (List String) := none
  limits : Option QuantityMap := none
  requests : Option QuantityMap := none
deriving DecidableEq

def mergeResources (base atop : ResourceRequirements) : ResourceRequirements where
  claims := atop.claims.or base.claims
  limits := mergeOpt mergeQuantityMap base.limits atop.limits
  requests := mergeOpt mergeQuantityMap base.requests atop.requests

theorem mergeResources_assoc (a b c : ResourceRequirements) :
    mergeResources (mergeResources a b) c = mergeResources a (mergeResources b c) := by
  simp only [mergeResources, Option.or_assoc, mergeOpt_assoc mergeQuantityMap_assoc]

inductive CacheVolumeMode
  | ephemeral
  | persistent
deriving DecidableEq

structure CacheDefaults where
  capacity : Option String := none
  storageClassName : Option String := none
  metadataCacheSizeMb : Option Int := none
  contentCacheSizeMb : Option Int := none
  mode : Option CacheVolumeMode := none
deriving DecidableEq

def CacheDefaults.merge (base atop : CacheDefaults) : CacheDefaults where
  capacity := atop.capacity.or base.capacity
  storageClassName := atop.storageClassName.or base.storageClassName
  metadataCacheSizeMb := atop.metadataCacheSizeMb.or base.metadataCacheSizeMb
  contentCacheSizeMb := atop.contentCacheSizeMb.or base.contentCacheSizeMb
  mode := atop.mode.or base.mode

theorem CacheDefaults.merge_assoc (a b c : CacheDefaults) :
    merge (merge a b) c = merge a (merge b c) := by
  simp only [merge, Option.or_assoc]

-- The mover of a run

inductive InheritSecurityContextFrom
  | workloadSelector (selector : String) (container : Option String)
  | pvcConsumer (container : Option String)
  | snapshot
deriving DecidableEq

structure MoverSpec where
  resources : Option ResourceRequirements := none
  cache : Option CacheDefaults := none
  securityContext : Option SecurityContext := none
  podSecurityContext : Option PodSecurityContext := none
  privilegedMode : Option Bool := none
  inheritSecurityContextFrom : Option InheritSecurityContextFrom := none
  ttlSecondsAfterFinished : Option Int := none
deriving DecidableEq

def MoverSpec.contexts (m : MoverSpec) : ContextPair := (m.securityContext, m.podSecurityContext)

/-- The higher layer `self` over `base`. -/
def MoverSpec.mergeOver (self : MoverSpec) (base : Option MoverSpec) : MoverSpec :=
  match base with
  | none => self
  | some base =>
    let contexts := mergeContextPair base.contexts self.contexts
    { resources := mergeOpt mergeResources base.resources self.resources
      cache := mergeOpt CacheDefaults.merge base.cache self.cache
      securityContext := contexts.1
      podSecurityContext := contexts.2
      privilegedMode := self.privilegedMode.or base.privilegedMode
      inheritSecurityContextFrom :=
        self.inheritSecurityContextFrom.or base.inheritSecurityContextFrom
      ttlSecondsAfterFinished := self.ttlSecondsAfterFinished.or base.ttlSecondsAfterFinished }

def effectiveBackupMover (snapshot policy : Option MoverSpec) : Option MoverSpec :=
  match snapshot with
  | none => policy
  | some atop => some (atop.mergeOver policy)

structure RepositoryDefaults extends MoverDefaults where
  resources : Option ResourceRequirements := none
  cache : Option CacheDefaults := none
  ttlSecondsAfterFinished : Option Int := none
deriving DecidableEq

def defaultJobTtlSeconds : Int := 3600

structure Resolved extends ResolvedMover where
  resources : Option ResourceRequirements
  cache : Option CacheDefaults
  ttlSecondsAfterFinished : Option Int
deriving DecidableEq

def resolve (defaults : Option RepositoryDefaults) (recipe : Option MoverSpec) : Resolved where
  toResolvedMover := resolveMover (defaults.map (·.toMoverDefaults))
    (recipe.bind (·.securityContext)) (recipe.bind (·.podSecurityContext))
  resources := mergeOpt mergeResources (defaults.bind (·.resources)) (recipe.bind (·.resources))
  cache := mergeOpt CacheDefaults.merge (defaults.bind (·.cache)) (recipe.bind (·.cache))
  ttlSecondsAfterFinished :=
    some (((recipe.bind (·.ttlSecondsAfterFinished)).or
      (defaults.bind (·.ttlSecondsAfterFinished))).getD defaultJobTtlSeconds)

def contextsOf (mover : Option MoverSpec) : ContextPair :=
  (mover.bind (·.securityContext), mover.bind (·.podSecurityContext))

def flatContexts (defaults : Option RepositoryDefaults) (policy snapshot : Option MoverSpec) :
    ContextPair :=
  ContextPair.mergeLayers (some hardenedSecurityContext, some hardenedPodSecurityContext)
    [(defaults.bind (·.securityContext), defaults.bind (·.podSecurityContext)),
      contextsOf policy, contextsOf snapshot]

theorem contextsOf_mergeOver (self base : MoverSpec) :
    contextsOf (some (self.mergeOver (some base))) =
      mergeContextPair (contextsOf (some base)) (contextsOf (some self)) := rfl

theorem mergedContexts_effectiveBackupMover (defaults : Option RepositoryDefaults)
    (policy snapshot : Option MoverSpec) :
    mergedContexts (defaults.map (·.toMoverDefaults))
        (contextsOf (effectiveBackupMover snapshot policy)) =
      flatContexts defaults policy snapshot := by
  have hbase : baseContexts (defaults.map (·.toMoverDefaults)) =
      mergeContextPair (some hardenedSecurityContext, some hardenedPodSecurityContext)
        (defaults.bind (·.securityContext), defaults.bind (·.podSecurityContext)) := by
    cases defaults <;> rfl
  simp only [mergedContexts, flatContexts, ContextPair.mergeLayers, List.foldl_cons,
    List.foldl_nil, hbase]
  cases snapshot with
  | none =>
    change _ = mergeContextPair _ ContextPair.absent
    rw [ContextPair.merge_absent_right, ContextPair.canonical_merge]
    rfl
  | some s =>
    cases policy with
    | none =>
      have hpolicy : contextsOf none = ContextPair.absent := rfl
      rw [hpolicy, ContextPair.merge_absent_right, ContextPair.canonical_merge]
      rfl
    | some p =>
      simp only [effectiveBackupMover, contextsOf_mergeOver, ContextPair.merge_assoc]

theorem resources_resolve (defaults : Option RepositoryDefaults)
    (policy snapshot : Option MoverSpec) :
    (resolve defaults (effectiveBackupMover snapshot policy)).resources =
      mergeOpt mergeResources
        (mergeOpt mergeResources (defaults.bind (·.resources)) (policy.bind (·.resources)))
        (snapshot.bind (·.resources)) := by
  cases snapshot with
  | none => simp [resolve, effectiveBackupMover]
  | some s =>
    cases policy with
    | none => simp [resolve, effectiveBackupMover, MoverSpec.mergeOver]
    | some p =>
      simp [resolve, effectiveBackupMover, MoverSpec.mergeOver,
        mergeOpt_assoc mergeResources_assoc]

theorem cache_resolve (defaults : Option RepositoryDefaults)
    (policy snapshot : Option MoverSpec) :
    (resolve defaults (effectiveBackupMover snapshot policy)).cache =
      mergeOpt CacheDefaults.merge
        (mergeOpt CacheDefaults.merge (defaults.bind (·.cache)) (policy.bind (·.cache)))
        (snapshot.bind (·.cache)) := by
  cases snapshot with
  | none => simp [resolve, effectiveBackupMover]
  | some s =>
    cases policy with
    | none => simp [resolve, effectiveBackupMover, MoverSpec.mergeOver]
    | some p =>
      simp [resolve, effectiveBackupMover, MoverSpec.mergeOver,
        mergeOpt_assoc CacheDefaults.merge_assoc]

theorem contexts_resolve (defaults : Option RepositoryDefaults)
    (policy snapshot : Option MoverSpec) :
    ∃ sc, (flatContexts defaults policy snapshot).1 = some sc ∧
      ((resolve defaults (effectiveBackupMover snapshot policy)).securityContext,
        (resolve defaults (effectiveBackupMover snapshot policy)).podSecurityContext) =
          enforceSecurityContextInvariants sc (flatContexts defaults policy snapshot).2 := by
  rw [← mergedContexts_effectiveBackupMover]
  refine ⟨_, (Option.some_get (isSome_mergedContexts _ _)).symm, ?_⟩
  rfl

end MoverLayer

open MoverLayer ContextPair

/-- The pair merge is associative; the absent pair brings a pair into the form
of a merge and leaves one in that form alone; the identity of a merge is that of
its highest layer with one; and a run's mover is the flat merge of its layers. -/
theorem mover_layers_merge (a b c base : ContextPair) (layers : List ContextPair)
    (defaults : Option RepositoryDefaults) (policy snapshot : Option MoverSpec) :
    mergeContextPair (mergeContextPair a b) c = mergeContextPair a (mergeContextPair b c) ∧
    (mergeContextPair absent a = a.canonical ∧ mergeContextPair a absent = a.canonical ∧
      (mergeContextPair a b).canonical = mergeContextPair a b ∧
      (a.canonical = a ↔ ∀ sc, a.1 = some sc → sc.runAsUser = a.uid ∧ sc.runAsGroup = a.gid)) ∧
    ((mergeLayers base layers).uid = (base :: layers).reverse.findSome? uid ∧
      (mergeLayers base layers).gid = (base :: layers).reverse.findSome? gid) ∧
    ((∃ sc, (flatContexts defaults policy snapshot).1 = some sc ∧
        ((resolve defaults (effectiveBackupMover snapshot policy)).securityContext,
          (resolve defaults (effectiveBackupMover snapshot policy)).podSecurityContext) =
            enforceSecurityContextInvariants sc (flatContexts defaults policy snapshot).2) ∧
      (resolve defaults (effectiveBackupMover snapshot policy)).resources =
        mergeOpt mergeResources
          (mergeOpt mergeResources (defaults.bind (·.resources)) (policy.bind (·.resources)))
          (snapshot.bind (·.resources)) ∧
      (resolve defaults (effectiveBackupMover snapshot policy)).cache =
        mergeOpt CacheDefaults.merge
          (mergeOpt CacheDefaults.merge (defaults.bind (·.cache)) (policy.bind (·.cache)))
          (snapshot.bind (·.cache))) :=
  ⟨merge_assoc a b c,
    ⟨merge_absent_left a, merge_absent_right a, canonical_merge a b, canonical_eq_self_iff a⟩,
    ⟨number_mergeLayers base uid_merge layers, number_mergeLayers base gid_merge layers⟩,
    contexts_resolve defaults policy snapshot, resources_resolve defaults policy snapshot,
    cache_resolve defaults policy snapshot⟩

/-- A container context that leaves the UID to the pod does not survive a merge
with the absent pair. -/
theorem merge_absent_hoists :
    ¬ ∀ p : ContextPair, mergeContextPair absent p = p ∧ mergeContextPair p absent = p := by
  intro h
  have hpair := (h (some {}, some { runAsUser := some 5 })).1
  revert hpair
  decide

end Kopiur
