import Mathlib.Data.List.Basic
import Mathlib.Data.Option.Basic
import Mathlib.Tactic.Common

/-!
# Security contexts of a mover pod

Layers of `(container, pod)` contexts are merged field by field, the merged pair
is normalized so that the kubelet accepts it, and a gate asks whether the pair
is elevated. A normalization only rewrites what the gate has already caught.
-/

namespace Kopiur

structure Capabilities where
  add : Option (List String) := none
  drop : Option (List String) := none
deriving DecidableEq

structure NodeProfile where
  type_ : String
  localhostProfile : Option String := none
deriving DecidableEq

structure SELinuxOptions where
  level : Option String := none
  role : Option String := none
  type_ : Option String := none
  user : Option String := none
deriving DecidableEq

structure WindowsSecurityContextOptions where
  gmsaCredentialSpec : Option String := none
  gmsaCredentialSpecName : Option String := none
  hostProcess : Option Bool := none
  runAsUserName : Option String := none
deriving DecidableEq

structure Sysctl where
  name : String
  value : String
deriving DecidableEq

/-- The security context of a container. -/
structure SecurityContext where
  allowPrivilegeEscalation : Option Bool := none
  appArmorProfile : Option NodeProfile := none
  capabilities : Option Capabilities := none
  privileged : Option Bool := none
  procMount : Option String := none
  readOnlyRootFilesystem : Option Bool := none
  runAsGroup : Option Int := none
  runAsNonRoot : Option Bool := none
  runAsUser : Option Int := none
  seLinuxOptions : Option SELinuxOptions := none
  seccompProfile : Option NodeProfile := none
  windowsOptions : Option WindowsSecurityContextOptions := none
deriving DecidableEq

structure PodSecurityContext where
  appArmorProfile : Option NodeProfile := none
  fsGroup : Option Int := none
  fsGroupChangePolicy : Option String := none
  runAsGroup : Option Int := none
  runAsNonRoot : Option Bool := none
  runAsUser : Option Int := none
  seLinuxChangePolicy : Option String := none
  seLinuxOptions : Option SELinuxOptions := none
  seccompProfile : Option NodeProfile := none
  supplementalGroups : Option (List Int) := none
  supplementalGroupsPolicy : Option String := none
  sysctls : Option (List Sysctl) := none
  windowsOptions : Option WindowsSecurityContextOptions := none
deriving DecidableEq

/-- One layer: a container context and a pod context, either of them absent. -/
abbrev ContextPair := Option SecurityContext × Option PodSecurityContext

def SecurityContext.added (sc : SecurityContext) : List String :=
  (sc.capabilities.bind (·.add)).getD []

def securityContextIsElevated (sc : SecurityContext) : Bool :=
  sc.privileged == some true
    || sc.runAsUser == some 0
    || sc.runAsNonRoot == some false
    || sc.allowPrivilegeEscalation == some true
    || (sc.capabilities.bind (·.add)).any (!·.isEmpty)

def podSecurityContextIsElevated (psc : PodSecurityContext) : Bool :=
  psc.runAsUser == some 0 || psc.runAsNonRoot == some false

def requiresPrivilegeResolved (securityContext : Option SecurityContext)
    (podSecurityContext : Option PodSecurityContext) (privilegedMode : Option Bool) : Bool :=
  privilegedMode == some true
    || securityContext.any securityContextIsElevated
    || podSecurityContext.any podSecurityContextIsElevated

def effectiveRunAsUser (sc : Option SecurityContext) (psc : Option PodSecurityContext) :
    Option Int :=
  (sc.bind (·.runAsUser)).or (psc.bind (·.runAsUser))

def effectiveRunAsGroup (sc : Option SecurityContext) (psc : Option PodSecurityContext) :
    Option Int :=
  (sc.bind (·.runAsGroup)).or (psc.bind (·.runAsGroup))

theorem added_eq_nil_of_not_elevated {sc : SecurityContext}
    (h : securityContextIsElevated sc = false) : sc.added = [] := by
  simp only [securityContextIsElevated, Bool.or_eq_false_iff, Option.any_eq_false] at h
  unfold SecurityContext.added
  cases hadd : sc.capabilities.bind (·.add) with
  | none => rfl
  | some add => simpa using h.2 add hadd

-- The layer merge

def mergeCapabilities (base atop : Capabilities) : Capabilities where
  add := atop.add.or base.add
  drop := atop.drop.or base.drop

def mergeSecurityContext (base atop : SecurityContext) : SecurityContext where
  allowPrivilegeEscalation := atop.allowPrivilegeEscalation.or base.allowPrivilegeEscalation
  appArmorProfile := atop.appArmorProfile.or base.appArmorProfile
  capabilities := match base.capabilities, atop.capabilities with
    | some b, some o => some (mergeCapabilities b o)
    | b, o => o.or b
  privileged := atop.privileged.or base.privileged
  procMount := atop.procMount.or base.procMount
  readOnlyRootFilesystem := atop.readOnlyRootFilesystem.or base.readOnlyRootFilesystem
  runAsGroup := atop.runAsGroup.or base.runAsGroup
  runAsNonRoot := atop.runAsNonRoot.or base.runAsNonRoot
  runAsUser := atop.runAsUser.or base.runAsUser
  seLinuxOptions := atop.seLinuxOptions.or base.seLinuxOptions
  seccompProfile := atop.seccompProfile.or base.seccompProfile
  windowsOptions := atop.windowsOptions.or base.windowsOptions

def mergePodSecurityContext (base atop : PodSecurityContext) : PodSecurityContext where
  appArmorProfile := atop.appArmorProfile.or base.appArmorProfile
  fsGroup := atop.fsGroup.or base.fsGroup
  fsGroupChangePolicy := atop.fsGroupChangePolicy.or base.fsGroupChangePolicy
  runAsGroup := atop.runAsGroup.or base.runAsGroup
  runAsNonRoot := atop.runAsNonRoot.or base.runAsNonRoot
  runAsUser := atop.runAsUser.or base.runAsUser
  seLinuxChangePolicy := atop.seLinuxChangePolicy.or base.seLinuxChangePolicy
  seLinuxOptions := atop.seLinuxOptions.or base.seLinuxOptions
  seccompProfile := atop.seccompProfile.or base.seccompProfile
  supplementalGroups := atop.supplementalGroups.or base.supplementalGroups
  supplementalGroupsPolicy := atop.supplementalGroupsPolicy.or base.supplementalGroupsPolicy
  sysctls := atop.sysctls.or base.sysctls
  windowsOptions := atop.windowsOptions.or base.windowsOptions

def mergeOpt {α : Type} (merge : α → α → α) : Option α → Option α → Option α
  | none, none => none
  | some b, none => some b
  | none, some o => some o
  | some b, some o => some (merge b o)

def mergeSecurityContextOpt (base atop : Option SecurityContext) : Option SecurityContext :=
  mergeOpt mergeSecurityContext base atop

def mergePodSecurityContextOpt (base atop : Option PodSecurityContext) :
    Option PodSecurityContext :=
  mergeOpt mergePodSecurityContext base atop

/-- A merged container context carries the identity of the highest layer that
pins one, whichever dimension that layer wrote it in. -/
def mergeContextPair (base atop : ContextPair) : ContextPair :=
  let psc := mergePodSecurityContextOpt base.2 atop.2
  let sc := (mergeSecurityContextOpt base.1 atop.1).map fun merged =>
    { merged with
      runAsUser := ((effectiveRunAsUser atop.1 atop.2).or merged.runAsUser).or
        (psc.bind (·.runAsUser))
      runAsGroup := ((effectiveRunAsGroup atop.1 atop.2).or merged.runAsGroup).or
        (psc.bind (·.runAsGroup)) }
  (sc, psc)

theorem bind_mergeOpt {α β : Type} {merge : α → α → α} {field : α → Option β}
    (h : ∀ b o, field (merge b o) = (field o).or (field b)) (base atop : Option α) :
    (mergeOpt merge base atop).bind field = (atop.bind field).or (base.bind field) := by
  cases base <;> cases atop <;> simp [mergeOpt, h]

theorem mergeOpt_eq_none {α : Type} {merge : α → α → α} {base atop : Option α} :
    mergeOpt merge base atop = none ↔ base = none ∧ atop = none := by
  cases base <;> cases atop <;> simp [mergeOpt]

theorem isSome_mergeContextPair {base : ContextPair} (atop : ContextPair) (h : base.1.isSome) :
    (mergeContextPair base atop).1.isSome := by
  cases hm : mergeSecurityContextOpt base.1 atop.1 with
  | none =>
    rw [(mergeOpt_eq_none.mp hm).1] at h
    cases h
  | some merged => simp [mergeContextPair, hm]

theorem isSome_escalation_mergeContextPair {base atop : ContextPair} {sc b : SecurityContext}
    (hb : base.1 = some b) (hsome : b.allowPrivilegeEscalation.isSome)
    (h : (mergeContextPair base atop).1 = some sc) : sc.allowPrivilegeEscalation.isSome := by
  obtain ⟨merged, hm, rfl⟩ := Option.map_eq_some_iff.mp h
  have hbind : (mergeSecurityContextOpt base.1 atop.1).bind (·.allowPrivilegeEscalation) =
      (atop.1.bind (·.allowPrivilegeEscalation)).or (base.1.bind (·.allowPrivilegeEscalation)) :=
    bind_mergeOpt (fun _ _ => rfl) base.1 atop.1
  rw [hm, hb] at hbind
  simp only [Option.bind_some] at hbind
  simp [hbind, hsome]

/-- The four places a number of an identity can stand, in the order the kubelet
and the layers rank them, whether or not the merge has a container to carry it. -/
theorem identity_of_merge {α β : Type} {container : α → Option Int} {pod : β → Option Int}
    {merge : α → α → α} {mergePod : β → β → β}
    (h : ∀ b o, container (merge b o) = (container o).or (container b))
    (hpod : ∀ b o, pod (mergePod b o) = (pod o).or (pod b)) (base atop : Option α × Option β) :
    ((mergeOpt merge base.1 atop.1).bind fun merged =>
        (((atop.1.bind container).or (atop.2.bind pod)).or (container merged)).or
          ((mergeOpt mergePod base.2 atop.2).bind pod)).or
        ((mergeOpt mergePod base.2 atop.2).bind pod) =
      ((atop.1.bind container).or (atop.2.bind pod)).or
        ((base.1.bind container).or (base.2.bind pod)) := by
  have hsc := bind_mergeOpt h base.1 atop.1
  have hpsc := bind_mergeOpt hpod base.2 atop.2
  cases hm : mergeOpt merge base.1 atop.1 with
  | none =>
    obtain ⟨hb, ho⟩ := mergeOpt_eq_none.mp hm
    simp [hpsc, hb, ho]
  | some merged =>
    rw [hm, Option.bind_some] at hsc
    rw [Option.bind_some, hsc, hpsc]
    cases atop.1.bind container <;> cases atop.2.bind pod <;> cases base.1.bind container <;>
      cases base.2.bind pod <;> rfl

theorem effectiveRunAsUser_mergeContextPair (base atop : ContextPair) :
    effectiveRunAsUser (mergeContextPair base atop).1 (mergeContextPair base atop).2 =
      (effectiveRunAsUser atop.1 atop.2).or (effectiveRunAsUser base.1 base.2) := by
  have h := @identity_of_merge _ _ SecurityContext.runAsUser PodSecurityContext.runAsUser
    mergeSecurityContext mergePodSecurityContext (fun _ _ => rfl) (fun _ _ => rfl) base atop
  simp only [effectiveRunAsUser, mergeContextPair, mergeSecurityContextOpt,
    mergePodSecurityContextOpt, Option.bind_map]
  exact h

theorem effectiveRunAsGroup_mergeContextPair (base atop : ContextPair) :
    effectiveRunAsGroup (mergeContextPair base atop).1 (mergeContextPair base atop).2 =
      (effectiveRunAsGroup atop.1 atop.2).or (effectiveRunAsGroup base.1 base.2) := by
  have h := @identity_of_merge _ _ SecurityContext.runAsGroup PodSecurityContext.runAsGroup
    mergeSecurityContext mergePodSecurityContext (fun _ _ => rfl) (fun _ _ => rfl) base atop
  simp only [effectiveRunAsGroup, mergeContextPair, mergeSecurityContextOpt,
    mergePodSecurityContextOpt, Option.bind_map]
  exact h

def hardenedSecurityContext : SecurityContext where
  runAsNonRoot := some true
  allowPrivilegeEscalation := some false
  readOnlyRootFilesystem := some false
  capabilities := some { drop := some ["ALL"], add := none }
  seccompProfile := some { type_ := "RuntimeDefault", localhostProfile := none }

def moverNonrootId : Int := 65532

def hardenedPodSecurityContext : PodSecurityContext where
  fsGroup := some moverNonrootId
  fsGroupChangePolicy := some "OnRootMismatch"

/-- The contexts of a repository's `moverDefaults`. -/
structure MoverDefaults where
  securityContext : Option SecurityContext := none
  podSecurityContext : Option PodSecurityContext := none
deriving DecidableEq

-- Normalization

def capSysAdmin : String := "CAP_SYS_ADMIN"

/-- `Some(true)` becomes `Some(false)`, so that a root mover says so. -/
def clearRunAsNonRoot (runAsNonRoot : Option Bool) : Option Bool :=
  if runAsNonRoot = some true then some false else runAsNonRoot

def rootUidExcludesRunAsNonRoot (sc : SecurityContext) (psc : Option PodSecurityContext) :
    SecurityContext × Option PodSecurityContext :=
  if effectiveRunAsUser (some sc) psc ≠ some 0 then (sc, psc)
  else ({ sc with runAsNonRoot := clearRunAsNonRoot sc.runAsNonRoot },
    psc.map fun p => { p with runAsNonRoot := clearRunAsNonRoot p.runAsNonRoot })

def demandsEscalation (sc : SecurityContext) : Bool :=
  sc.privileged == some true
    || (sc.capabilities.bind (·.add)).any fun add => add.any (· == capSysAdmin)

def privilegedExcludesNoPrivilegeEscalation (sc : SecurityContext) : SecurityContext :=
  if demandsEscalation sc && sc.allowPrivilegeEscalation == some false then
    { sc with allowPrivilegeEscalation := some true }
  else sc

def enforceSecurityContextInvariants (sc : SecurityContext) (psc : Option PodSecurityContext) :
    SecurityContext × Option PodSecurityContext :=
  let (sc, psc) := rootUidExcludesRunAsNonRoot sc psc
  (privilegedExcludesNoPrivilegeEscalation sc, psc)

section Normalization

variable (sc : SecurityContext) (psc : Option PodSecurityContext)

@[simp] theorem effectiveRunAsUser_rootUid :
    effectiveRunAsUser (some (rootUidExcludesRunAsNonRoot sc psc).1)
      (rootUidExcludesRunAsNonRoot sc psc).2 = effectiveRunAsUser (some sc) psc := by
  unfold rootUidExcludesRunAsNonRoot
  split
  · rfl
  · cases psc <;> rfl

@[simp] theorem runAsUser_privileged :
    (privilegedExcludesNoPrivilegeEscalation sc).runAsUser = sc.runAsUser := by
  unfold privilegedExcludesNoPrivilegeEscalation
  split <;> rfl

@[simp] theorem effectiveRunAsUser_privileged :
    effectiveRunAsUser (some (privilegedExcludesNoPrivilegeEscalation sc)) psc =
      effectiveRunAsUser (some sc) psc := by
  simp [effectiveRunAsUser]

@[simp] theorem effectiveRunAsUser_enforce :
    effectiveRunAsUser (some (enforceSecurityContextInvariants sc psc).1)
      (enforceSecurityContextInvariants sc psc).2 = effectiveRunAsUser (some sc) psc := by
  simp [enforceSecurityContextInvariants]

@[simp] theorem capabilities_rootUid :
    (rootUidExcludesRunAsNonRoot sc psc).1.capabilities = sc.capabilities := by
  unfold rootUidExcludesRunAsNonRoot
  split <;> rfl

@[simp] theorem capabilities_privileged :
    (privilegedExcludesNoPrivilegeEscalation sc).capabilities = sc.capabilities := by
  unfold privilegedExcludesNoPrivilegeEscalation
  split <;> rfl

@[simp] theorem capabilities_enforce :
    (enforceSecurityContextInvariants sc psc).1.capabilities = sc.capabilities := by
  simp [enforceSecurityContextInvariants]

@[simp] theorem demandsEscalation_privileged :
    demandsEscalation (privilegedExcludesNoPrivilegeEscalation sc) = demandsEscalation sc := by
  unfold privilegedExcludesNoPrivilegeEscalation
  split <;> rfl

@[simp] theorem runAsNonRoot_privileged :
    (privilegedExcludesNoPrivilegeEscalation sc).runAsNonRoot = sc.runAsNonRoot := by
  unfold privilegedExcludesNoPrivilegeEscalation
  split <;> rfl

end Normalization

/-- The kubelet starts no root container under `runAsNonRoot`. -/
def RootValid (sc : SecurityContext) (psc : Option PodSecurityContext) : Prop :=
  effectiveRunAsUser (some sc) psc = some 0 →
    sc.runAsNonRoot ≠ some true ∧ ∀ p ∈ psc, p.runAsNonRoot ≠ some true

def EscalationValid (sc : SecurityContext) : Prop :=
  demandsEscalation sc = true → sc.allowPrivilegeEscalation ≠ some false

theorem clearRunAsNonRoot_ne (o : Option Bool) : clearRunAsNonRoot o ≠ some true := by
  unfold clearRunAsNonRoot
  split
  · simp
  · assumption

theorem clearRunAsNonRoot_of_ne {o : Option Bool} (h : o ≠ some true) :
    clearRunAsNonRoot o = o := if_neg h

theorem rootUid_valid (sc : SecurityContext) (psc : Option PodSecurityContext) :
    RootValid (rootUidExcludesRunAsNonRoot sc psc).1 (rootUidExcludesRunAsNonRoot sc psc).2 := by
  intro hroot
  rw [effectiveRunAsUser_rootUid] at hroot
  rw [rootUidExcludesRunAsNonRoot, if_neg (not_not.mpr hroot)]
  refine ⟨clearRunAsNonRoot_ne _, fun p hp => ?_⟩
  obtain ⟨q, -, rfl⟩ := Option.map_eq_some_iff.mp hp
  exact clearRunAsNonRoot_ne _

theorem rootUid_eq_self {sc : SecurityContext} {psc : Option PodSecurityContext}
    (h : RootValid sc psc) : rootUidExcludesRunAsNonRoot sc psc = (sc, psc) := by
  unfold rootUidExcludesRunAsNonRoot
  split
  · rfl
  · rename_i hroot
    obtain ⟨hsc, hpsc⟩ := h (not_not.mp hroot)
    rw [clearRunAsNonRoot_of_ne hsc]
    cases psc with
    | none => rfl
    | some p => rw [Option.map_some, clearRunAsNonRoot_of_ne (hpsc p rfl)]

theorem privileged_valid (sc : SecurityContext) :
    EscalationValid (privilegedExcludesNoPrivilegeEscalation sc) := by
  intro hdemands
  rw [demandsEscalation_privileged] at hdemands
  unfold privilegedExcludesNoPrivilegeEscalation
  split
  · simp
  · rename_i h
    simpa [hdemands] using h

theorem privileged_eq_self {sc : SecurityContext} (h : EscalationValid sc) :
    privilegedExcludesNoPrivilegeEscalation sc = sc := by
  refine if_neg ?_
  simp only [Bool.and_eq_true, beq_iff_eq, not_and]
  exact h

theorem enforce_valid (sc : SecurityContext) (psc : Option PodSecurityContext) :
    RootValid (enforceSecurityContextInvariants sc psc).1
        (enforceSecurityContextInvariants sc psc).2 ∧
      EscalationValid (enforceSecurityContextInvariants sc psc).1 := by
  refine ⟨fun hroot => ?_, privileged_valid _⟩
  have h := rootUid_valid sc psc
  simp only [enforceSecurityContextInvariants, effectiveRunAsUser_privileged] at hroot
  simpa [enforceSecurityContextInvariants] using h hroot

theorem enforce_eq_self {sc : SecurityContext} {psc : Option PodSecurityContext}
    (hroot : RootValid sc psc) (hesc : EscalationValid sc) :
    enforceSecurityContextInvariants sc psc = (sc, psc) := by
  simp only [enforceSecurityContextInvariants, rootUid_eq_self hroot, privileged_eq_self hesc]

theorem enforce_idempotent (sc : SecurityContext) (psc : Option PodSecurityContext) :
    enforceSecurityContextInvariants (enforceSecurityContextInvariants sc psc).1
      (enforceSecurityContextInvariants sc psc).2 = enforceSecurityContextInvariants sc psc :=
  enforce_eq_self (enforce_valid sc psc).1 (enforce_valid sc psc).2

section Gate

variable {sc : SecurityContext} {psc : Option PodSecurityContext} (privilegedMode : Option Bool)

theorem requiresPrivilege_of_root (h : effectiveRunAsUser (some sc) psc = some 0) :
    requiresPrivilegeResolved (some sc) psc privilegedMode = true := by
  simp only [effectiveRunAsUser, Option.bind_some, Option.or_eq_some_iff] at h
  rcases h with h | ⟨-, h⟩
  · simp [requiresPrivilegeResolved, securityContextIsElevated, h]
  · obtain ⟨p, rfl, hp⟩ := Option.bind_eq_some_iff.mp h
    simp [requiresPrivilegeResolved, podSecurityContextIsElevated, hp]

theorem elevated_of_demandsEscalation (h : demandsEscalation sc = true) :
    securityContextIsElevated sc = true := by
  simp only [demandsEscalation, Bool.or_eq_true] at h
  rcases h with h | h
  · simp [securityContextIsElevated, h]
  · obtain ⟨add, hadd, hany⟩ := Option.any_eq_true _ _ |>.mp h
    have hne : add.isEmpty = false := by
      cases add with
      | nil => cases hany
      | cons c add => rfl
    simp [securityContextIsElevated, hadd, hne]

theorem requiresPrivilege_rootUid :
    requiresPrivilegeResolved (some (rootUidExcludesRunAsNonRoot sc psc).1)
        (rootUidExcludesRunAsNonRoot sc psc).2 privilegedMode =
      requiresPrivilegeResolved (some sc) psc privilegedMode := by
  by_cases h : effectiveRunAsUser (some sc) psc = some 0
  · rw [requiresPrivilege_of_root privilegedMode h, requiresPrivilege_of_root privilegedMode]
    rw [effectiveRunAsUser_rootUid, h]
  · rw [rootUid_eq_self fun hroot => absurd hroot h]

theorem elevated_privileged :
    securityContextIsElevated (privilegedExcludesNoPrivilegeEscalation sc) =
      securityContextIsElevated sc := by
  by_cases h : demandsEscalation sc = true
  · rw [elevated_of_demandsEscalation h, elevated_of_demandsEscalation]
    rw [demandsEscalation_privileged, h]
  · rw [privileged_eq_self fun hdemands => absurd hdemands h]

theorem requiresPrivilege_enforce :
    requiresPrivilegeResolved (some (enforceSecurityContextInvariants sc psc).1)
        (enforceSecurityContextInvariants sc psc).2 privilegedMode =
      requiresPrivilegeResolved (some sc) psc privilegedMode := by
  refine Eq.trans ?_ (requiresPrivilege_rootUid privilegedMode)
  simp only [enforceSecurityContextInvariants, requiresPrivilegeResolved, Option.any_some,
    elevated_privileged]

end Gate

end Kopiur
