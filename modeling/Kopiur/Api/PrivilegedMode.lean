import Kopiur.Api.Jitter
import Kopiur.Api.SecurityContext

/-!
# What `privilegedMode` grants

The grant works on the resolved contexts and adds capabilities only to a root
mover. The gate, asked before the normalization, after it or after the grant,
gives one answer.
-/

namespace Kopiur

def capDacOverride : String := "DAC_OVERRIDE"
def capChown : String := "CHOWN"
def capFowner : String := "FOWNER"
def capFsetid : String := "FSETID"

inductive MoverOperation where
  | backup
  | restore
  | maintenance
  | verify
  | bootstrap
  | repositoryReplicate
  | snapshotReplicate
  | snapshotDelete
  | snapshotPin
  | browse
deriving DecidableEq

def MoverOperation.privilegedCapabilities : MoverOperation → List String
  | .backup => [capDacOverride]
  | .restore => [capChown, capDacOverride, capFowner, capFsetid]
  | .maintenance | .verify | .bootstrap | .repositoryReplicate | .snapshotReplicate
  | .snapshotDelete | .snapshotPin | .browse => []

inductive PrivilegedModeEffect where
  | notRequested
  | nothingToGrant
  | granted
  | inertNonRootUid (uid : Int)
  | inertUnsetUid
deriving DecidableEq

def normCapability (s : String) : List Char :=
  let up := (trim s).map Char.toUpper
  ("CAP_".toList.isPrefixOf? up).getD up

def sameCapability (a b : String) : Bool := normCapability a == normCapability b

def addCapability (add : List String) (cap : String) : List String :=
  if add.any (sameCapability · cap) then add else add ++ [cap]

def addCapabilities (caps : Option Capabilities) (grant : List String) : Capabilities :=
  let caps := caps.getD {}
  { caps with add := some (grant.foldl addCapability (caps.add.getD [])) }

example : (addCapabilities (some { add := some ["SETUID", "cap_dac_override"] })
    MoverOperation.restore.privilegedCapabilities).add =
      some ["SETUID", "cap_dac_override", "CHOWN", "FOWNER", "FSETID"] := by
  decide

theorem sameCapability_refl (cap : String) : sameCapability cap cap = true := by
  simp [sameCapability]

theorem mem_addCapability {add : List String} {c : String} (cap : String) (h : c ∈ add) :
    c ∈ addCapability add cap := by
  unfold addCapability
  split <;> simp [h]

theorem any_addCapability (add : List String) (cap : String) :
    (addCapability add cap).any (sameCapability · cap) = true := by
  unfold addCapability
  split
  · assumption
  · simp [sameCapability_refl]

theorem mem_foldl_addCapability {add : List String} {c : String} (h : c ∈ add)
    (grant : List String) : c ∈ grant.foldl addCapability add := by
  induction grant generalizing add with
  | nil => exact h
  | cons cap grant ih => exact ih (mem_addCapability cap h)

theorem any_foldl_addCapability {grant : List String} {cap : String} (hcap : cap ∈ grant)
    (add : List String) : (grant.foldl addCapability add).any (sameCapability · cap) = true := by
  induction grant generalizing add with
  | nil => cases hcap
  | cons c grant ih =>
    cases hcap with
    | head =>
      obtain ⟨x, hx, hsame⟩ := List.any_eq_true.mp (any_addCapability add cap)
      exact List.any_eq_true.mpr ⟨x, mem_foldl_addCapability hx grant, hsame⟩
    | tail _ hmem => exact ih hmem (addCapability add c)

theorem foldl_addCapability_eq_self {grant : List String} {add : List String}
    (h : ∀ cap ∈ grant, add.any (sameCapability · cap) = true) :
    grant.foldl addCapability add = add := by
  induction grant with
  | nil => rfl
  | cons cap grant ih =>
    have hself : addCapability add cap = add := if_pos (h cap (by simp))
    simp only [List.foldl_cons, hself]
    exact ih fun c hc => h c (by simp [hc])

theorem addCapabilities_idempotent (caps : Option Capabilities) (grant : List String) :
    addCapabilities (some (addCapabilities caps grant)) grant = addCapabilities caps grant := by
  simp only [addCapabilities, Option.getD_some]
  rw [foldl_addCapability_eq_self fun cap hcap => any_foldl_addCapability hcap _]

def privilegedModeEffect (sc : SecurityContext) (psc : Option PodSecurityContext)
    (privilegedMode : Option Bool) (op : MoverOperation) : PrivilegedModeEffect :=
  if privilegedMode ≠ some true then .notRequested
  else if op.privilegedCapabilities.isEmpty then .nothingToGrant
  else match effectiveRunAsUser (some sc) psc with
    | none => .inertUnsetUid
    | some uid => if uid = 0 then .granted else .inertNonRootUid uid

def SecurityContext.grant (sc : SecurityContext) (op : MoverOperation) : SecurityContext :=
  { sc with capabilities := some (addCapabilities sc.capabilities op.privilegedCapabilities) }

def applyPrivilegedMode (sc : SecurityContext) (psc : Option PodSecurityContext)
    (privilegedMode : Option Bool) (op : MoverOperation) :
    SecurityContext × Option PodSecurityContext × PrivilegedModeEffect :=
  let effect := privilegedModeEffect sc psc privilegedMode op
  let sc := match effect with
    | .granted => sc.grant op
    | .notRequested | .nothingToGrant | .inertNonRootUid _ | .inertUnsetUid => sc
  (sc, psc, effect)

structure ResolvedMover where
  securityContext : SecurityContext
  podSecurityContext : Option PodSecurityContext
deriving DecidableEq

/-- `hardened ⊂ moverDefaults`. -/
def baseContexts (defaults : Option MoverDefaults) : ContextPair :=
  mergeContextPair (some hardenedSecurityContext, some hardenedPodSecurityContext)
    (defaults.bind (·.securityContext), defaults.bind (·.podSecurityContext))

/-- `hardened ⊂ moverDefaults ⊂ recipe`, as `resolve_mover` merges it. -/
def mergedContexts (defaults : Option MoverDefaults) (recipe : ContextPair) : ContextPair :=
  mergeContextPair (baseContexts defaults) recipe

theorem isSome_mergedContexts (defaults : Option MoverDefaults) (recipe : ContextPair) :
    (mergedContexts defaults recipe).1.isSome :=
  isSome_mergeContextPair recipe (isSome_mergeContextPair _ rfl)

def mergedMover (defaults : Option MoverDefaults) (recipe : ContextPair) : ResolvedMover where
  securityContext := (mergedContexts defaults recipe).1.get (isSome_mergedContexts defaults recipe)
  podSecurityContext := (mergedContexts defaults recipe).2

def ResolvedMover.enforce (m : ResolvedMover) : ResolvedMover :=
  let (sc, psc) := enforceSecurityContextInvariants m.securityContext m.podSecurityContext
  ⟨sc, psc⟩

def resolveMover (defaults : Option MoverDefaults) (recipeSc : Option SecurityContext)
    (recipePsc : Option PodSecurityContext) : ResolvedMover :=
  (mergedMover defaults (recipeSc, recipePsc)).enforce

def ResolvedMover.withPrivilegedModeEffect (m : ResolvedMover) (privilegedMode : Option Bool)
    (op : MoverOperation) : ResolvedMover × PrivilegedModeEffect :=
  let (sc, psc, effect) := applyPrivilegedMode m.securityContext m.podSecurityContext
    privilegedMode op
  (ResolvedMover.enforce ⟨sc, psc⟩, effect)

def ResolvedMover.withPrivilegedMode (m : ResolvedMover) (privilegedMode : Option Bool)
    (op : MoverOperation) : ResolvedMover :=
  (m.withPrivilegedModeEffect privilegedMode op).1

def ResolvedMover.requiresPrivilege (m : ResolvedMover) (privilegedMode : Option Bool) : Bool :=
  requiresPrivilegeResolved (some m.securityContext) m.podSecurityContext privilegedMode

def ResolvedMover.effectiveUid (m : ResolvedMover) : Option Int :=
  effectiveRunAsUser (some m.securityContext) m.podSecurityContext

section Grant

variable (sc : SecurityContext) (psc : Option PodSecurityContext) (privilegedMode : Option Bool)
  (op : MoverOperation)

theorem applyPrivilegedMode_cases :
    applyPrivilegedMode sc psc privilegedMode op =
        (sc, psc, privilegedModeEffect sc psc privilegedMode op) ∨
      privilegedMode = some true ∧ privilegedModeEffect sc psc privilegedMode op = .granted ∧
        applyPrivilegedMode sc psc privilegedMode op = (sc.grant op, psc, .granted) := by
  cases heffect : privilegedModeEffect sc psc privilegedMode op with
  | granted =>
    refine .inr ⟨?_, rfl, by simp [applyPrivilegedMode, heffect]⟩
    by_contra hmode
    simp [privilegedModeEffect, hmode] at heffect
  | notRequested | nothingToGrant | inertNonRootUid uid | inertUnsetUid =>
    exact .inl (by simp [applyPrivilegedMode, heffect])

@[simp] theorem effectiveRunAsUser_apply :
    effectiveRunAsUser (some (applyPrivilegedMode sc psc privilegedMode op).1) psc =
      effectiveRunAsUser (some sc) psc := by
  rcases applyPrivilegedMode_cases sc psc privilegedMode op with h | ⟨-, -, h⟩ <;>
    simp [h, effectiveRunAsUser, SecurityContext.grant]

theorem allowPrivilegeEscalation_apply :
    (applyPrivilegedMode sc psc privilegedMode op).1.allowPrivilegeEscalation =
      sc.allowPrivilegeEscalation := by
  rcases applyPrivilegedMode_cases sc psc privilegedMode op with h | ⟨-, -, h⟩ <;>
    simp [h, SecurityContext.grant]

theorem privilegedModeEffect_congr {sc' : SecurityContext} {psc' : Option PodSecurityContext}
    (h : effectiveRunAsUser (some sc') psc' = effectiveRunAsUser (some sc) psc) :
    privilegedModeEffect sc' psc' privilegedMode op =
      privilegedModeEffect sc psc privilegedMode op := by
  simp only [privilegedModeEffect, h]

/-- A context that has the grant's effective UID and its capabilities gets
nothing more from the grant. -/
theorem applyPrivilegedMode_eq_self {sc' : SecurityContext} {psc' : Option PodSecurityContext}
    (huid : effectiveRunAsUser (some sc') psc' = effectiveRunAsUser (some sc) psc)
    (hcaps : sc'.capabilities = (applyPrivilegedMode sc psc privilegedMode op).1.capabilities) :
    (applyPrivilegedMode sc' psc' privilegedMode op).1 = sc' := by
  have heffect := privilegedModeEffect_congr sc psc privilegedMode op huid
  rcases applyPrivilegedMode_cases sc' psc' privilegedMode op with h | ⟨-, hgranted, h⟩
  · simp [h]
  · have happly : (applyPrivilegedMode sc psc privilegedMode op).1.capabilities =
        some (addCapabilities sc.capabilities op.privilegedCapabilities) := by
      simp [applyPrivilegedMode, ← heffect, hgranted, SecurityContext.grant]
    rw [← hcaps] at happly
    simp only [h, SecurityContext.grant, happly, addCapabilities_idempotent]
    rw [← happly]

theorem requiresPrivilege_apply :
    requiresPrivilegeResolved (some (applyPrivilegedMode sc psc privilegedMode op).1) psc
      privilegedMode = requiresPrivilegeResolved (some sc) psc privilegedMode := by
  rcases applyPrivilegedMode_cases sc psc privilegedMode op with h | ⟨hmode, -, h⟩
  · rw [h]
  · simp [requiresPrivilegeResolved, hmode]

end Grant

namespace ResolvedMover

variable (m : ResolvedMover) (privilegedMode : Option Bool) (op : MoverOperation)

theorem withPrivilegedMode_eq : m.withPrivilegedMode privilegedMode op =
    ResolvedMover.enforce
      ⟨(applyPrivilegedMode m.securityContext m.podSecurityContext privilegedMode op).1,
        m.podSecurityContext⟩ := rfl

theorem enforce_idempotent : m.enforce.enforce = m.enforce := by
  simp [enforce, Kopiur.enforce_idempotent]

@[simp] theorem effectiveUid_enforce : m.enforce.effectiveUid = m.effectiveUid := by
  simp [effectiveUid, enforce]

@[simp] theorem effectiveUid_withPrivilegedMode :
    (m.withPrivilegedMode privilegedMode op).effectiveUid = m.effectiveUid := by
  rw [withPrivilegedMode_eq, effectiveUid_enforce]
  exact effectiveRunAsUser_apply _ _ privilegedMode op

theorem requiresPrivilege_enforce :
    m.enforce.requiresPrivilege privilegedMode = m.requiresPrivilege privilegedMode := by
  exact Kopiur.requiresPrivilege_enforce privilegedMode

theorem requiresPrivilege_withPrivilegedMode :
    (m.withPrivilegedMode privilegedMode op).requiresPrivilege privilegedMode =
      m.requiresPrivilege privilegedMode := by
  rw [withPrivilegedMode_eq, requiresPrivilege_enforce]
  exact requiresPrivilege_apply _ _ privilegedMode op

theorem withPrivilegedMode_idempotent :
    (m.withPrivilegedMode privilegedMode op).withPrivilegedMode privilegedMode op =
      m.withPrivilegedMode privilegedMode op := by
  have hcaps : (m.withPrivilegedMode privilegedMode op).securityContext.capabilities =
      (applyPrivilegedMode m.securityContext m.podSecurityContext privilegedMode
        op).1.capabilities := by
    simp [withPrivilegedMode_eq, enforce]
  have hself := applyPrivilegedMode_eq_self _ _ privilegedMode op
    (m.effectiveUid_withPrivilegedMode privilegedMode op) hcaps
  calc (m.withPrivilegedMode privilegedMode op).withPrivilegedMode privilegedMode op
      = (m.withPrivilegedMode privilegedMode op).enforce := by
        conv_lhs => rw [withPrivilegedMode_eq, hself]
    _ = m.withPrivilegedMode privilegedMode op := enforce_idempotent _

end ResolvedMover

/-- No field of either context asks for anything an unprivileged pod lacks. -/
structure ResolvedMover.Unprivileged (m : ResolvedMover) : Prop where
  containerUid : m.securityContext.runAsUser ≠ some 0
  podUid : ∀ p ∈ m.podSecurityContext, p.runAsUser ≠ some 0
  notPrivileged : m.securityContext.privileged ≠ some true
  noEscalation : m.securityContext.allowPrivilegeEscalation = some false
  addsNothing : m.securityContext.added = []
  nonRoot : m.securityContext.runAsNonRoot ≠ some false
  podNonRoot : ∀ p ∈ m.podSecurityContext, p.runAsNonRoot ≠ some false

theorem ResolvedMover.unprivileged_of_gate {m : ResolvedMover} {privilegedMode : Option Bool}
    (hsaid : m.securityContext.allowPrivilegeEscalation.isSome)
    (h : m.requiresPrivilege privilegedMode = false) : m.Unprivileged := by
  simp only [requiresPrivilege, requiresPrivilegeResolved, Bool.or_eq_false_iff, Option.any_some,
    Option.any_eq_false] at h
  obtain ⟨⟨-, hsc⟩, hpod⟩ := h
  have hadded := added_eq_nil_of_not_elevated hsc
  simp only [securityContextIsElevated, Bool.or_eq_false_iff, beq_eq_false_iff_ne] at hsc
  obtain ⟨⟨⟨⟨hpriv, huid⟩, hnonRoot⟩, hesc⟩, -⟩ := hsc
  have hpod' : ∀ p ∈ m.podSecurityContext, p.runAsUser ≠ some 0 ∧ p.runAsNonRoot ≠ some false :=
    fun p hp => by simpa [podSecurityContextIsElevated] using hpod p hp
  refine ⟨huid, fun p hp => (hpod' p hp).1, hpriv, ?_, hadded, hnonRoot,
    fun p hp => (hpod' p hp).2⟩
  obtain ⟨b, hb⟩ := Option.isSome_iff_exists.mp hsaid
  cases b with
  | false => exact hb
  | true => exact absurd hb hesc

theorem isSome_escalation_enforce {sc : SecurityContext} (psc : Option PodSecurityContext)
    (h : sc.allowPrivilegeEscalation.isSome) :
    (enforceSecurityContextInvariants sc psc).1.allowPrivilegeEscalation.isSome := by
  have hroot : (rootUidExcludesRunAsNonRoot sc psc).1.allowPrivilegeEscalation =
      sc.allowPrivilegeEscalation := by
    unfold rootUidExcludesRunAsNonRoot
    split <;> rfl
  simp only [enforceSecurityContextInvariants, privilegedExcludesNoPrivilegeEscalation]
  split
  · rfl
  · rw [hroot, h]

theorem isSome_escalation_resolved (defaults : Option MoverDefaults)
    (recipeSc : Option SecurityContext) (recipePsc : Option PodSecurityContext)
    (privilegedMode : Option Bool) (op : MoverOperation) :
    ((resolveMover defaults recipeSc recipePsc).withPrivilegedMode privilegedMode
      op).securityContext.allowPrivilegeEscalation.isSome := by
  obtain ⟨base, hbase⟩ := Option.isSome_iff_exists.mp
    (show (baseContexts defaults).1.isSome from isSome_mergeContextPair _ rfl)
  have hsaidBase := isSome_escalation_mergeContextPair rfl rfl hbase
  have hmerged := isSome_escalation_mergeContextPair hbase hsaidBase
    (Option.some_get (isSome_mergedContexts defaults (recipeSc, recipePsc))).symm
  have hresolved := isSome_escalation_enforce (mergedContexts defaults (recipeSc, recipePsc)).2
    hmerged
  have happly := allowPrivilegeEscalation_apply
    (resolveMover defaults recipeSc recipePsc).securityContext
    (resolveMover defaults recipeSc recipePsc).podSecurityContext privilegedMode op
  exact isSome_escalation_enforce _ ((congrArg Option.isSome happly).trans hresolved)

/-- The gate gives one answer from the merge to the Job; what it passes is
unprivileged, and every pair that leaves the two normalizations is one that the
kubelet and the API server accept. -/
theorem privileged_gate_exact (defaults : Option MoverDefaults)
    (recipeSc : Option SecurityContext) (recipePsc : Option PodSecurityContext)
    (privilegedMode : Option Bool) (op : MoverOperation) :
    let merged := mergedMover defaults (recipeSc, recipePsc)
    let resolved := resolveMover defaults recipeSc recipePsc
    let final := resolved.withPrivilegedMode privilegedMode op
    resolved = merged.enforce ∧
      resolved.requiresPrivilege privilegedMode = merged.requiresPrivilege privilegedMode ∧
      final.requiresPrivilege privilegedMode = merged.requiresPrivilege privilegedMode ∧
      (final.requiresPrivilege privilegedMode = false → final.Unprivileged) ∧
      RootValid final.securityContext final.podSecurityContext ∧
      EscalationValid final.securityContext ∧
      (∀ m : ResolvedMover, m.enforce.enforce = m.enforce ∧
        (m.withPrivilegedMode privilegedMode op).withPrivilegedMode privilegedMode op =
          m.withPrivilegedMode privilegedMode op ∧
        m.enforce.effectiveUid = m.effectiveUid ∧
        (m.withPrivilegedMode privilegedMode op).effectiveUid = m.effectiveUid) ∧
      ∀ sc psc, rootUidExcludesRunAsNonRoot (rootUidExcludesRunAsNonRoot sc psc).1
          (rootUidExcludesRunAsNonRoot sc psc).2 = rootUidExcludesRunAsNonRoot sc psc ∧
        effectiveRunAsUser (some (rootUidExcludesRunAsNonRoot sc psc).1)
          (rootUidExcludesRunAsNonRoot sc psc).2 = effectiveRunAsUser (some sc) psc ∧
        privilegedExcludesNoPrivilegeEscalation (privilegedExcludesNoPrivilegeEscalation sc) =
          privilegedExcludesNoPrivilegeEscalation sc ∧
        effectiveRunAsUser (some (privilegedExcludesNoPrivilegeEscalation sc)) psc =
          effectiveRunAsUser (some sc) psc := by
  intro merged resolved final
  have hresolved : resolved.requiresPrivilege privilegedMode =
      merged.requiresPrivilege privilegedMode := merged.requiresPrivilege_enforce privilegedMode
  have hfinal : final.requiresPrivilege privilegedMode = resolved.requiresPrivilege privilegedMode :=
    resolved.requiresPrivilege_withPrivilegedMode privilegedMode op
  have hsaid := isSome_escalation_resolved defaults recipeSc recipePsc privilegedMode op
  have hvalid := enforce_valid (applyPrivilegedMode resolved.securityContext
    resolved.podSecurityContext privilegedMode op).1 resolved.podSecurityContext
  refine ⟨rfl, hresolved, hfinal.trans hresolved, ResolvedMover.unprivileged_of_gate hsaid,
    hvalid.1, hvalid.2, fun m => ?_, fun sc psc => ?_⟩
  · exact ⟨m.enforce_idempotent, m.withPrivilegedMode_idempotent privilegedMode op,
      m.effectiveUid_enforce, m.effectiveUid_withPrivilegedMode privilegedMode op⟩
  · exact ⟨rootUid_eq_self (rootUid_valid sc psc), effectiveRunAsUser_rootUid sc psc,
      privileged_eq_self (privileged_valid sc), effectiveRunAsUser_privileged sc psc⟩

end Kopiur
