import Kopiur.Controller.BootstrapFailure
import Kopiur.Controller.Conditions
import Kopiur.Controller.Refresh
import Mathlib.Algebra.Group.Int.Defs

/-!
# Repository health

Who may create a repository, when a health probe runs, and how the result of
a connect is folded into the status: the failure streak, the conditions and
the phase the circuit breaker dictates.
-/

namespace Kopiur

inductive RepositoryPhase
  | pending
  | initializing
  | ready
  | degraded
  | failed
  | unknown (label : String)
deriving DecidableEq

def readyOutcomeForPhase : RepositoryPhase → ReadyOutcome
  | .ready => .ready
  | .pending | .initializing | .degraded | .unknown _ => .reconciling
  | .failed => .stalled

-- Who may create

inductive CreateGate
  | allowed (viaReinitAck : Bool)
  | disabledBySpec (alsoPinned : Bool)
  | pinnedOnceReady
deriving DecidableEq

structure EffectiveCreate where
  allowed : Bool
  block : Option CreateBlock
  viaReinitAck : Bool
deriving DecidableEq

def EffectiveCreate.grant (e : EffectiveCreate) : CreateGrant := .fromFlags e.allowed e.viaReinitAck

def nonEmpty (s : Option String) : Option String := s.filter fun t => t != ""

def createGate (specCreateEnabled : Bool) (uniqueId reinitAck : Option String) : CreateGate :=
  let pinned := nonEmpty uniqueId
  let ackValid :=
    match pinned, nonEmpty reinitAck with
    | some id, some ack => id == ack
    | _, _ => false
  match specCreateEnabled, pinned, ackValid with
  | false, pinned, _ => .disabledBySpec pinned.isSome
  | true, none, _ => .allowed false
  | true, some _, true => .allowed true
  | true, some _, false => .pinnedOnceReady

def effectiveCreate (gate : CreateGate) (reinitRequested : Bool) : EffectiveCreate :=
  match gate with
  | .allowed false => ⟨true, none, false⟩
  | .allowed true =>
    -- a standing acknowledgment on a healthy repository is dormant
    if reinitRequested then ⟨true, none, true⟩ else ⟨false, some (.onceReadyPinned false), false⟩
  | .disabledBySpec false => ⟨false, some .specDisabled, false⟩
  | .disabledBySpec true => ⟨false, some (.onceReadyPinned true), false⟩
  | .pinnedOnceReady => ⟨false, some (.onceReadyPinned false), false⟩

def validReinitAck (gate : CreateGate) (pinnedUniqueId : Option String) : Option String :=
  match gate with
  | .allowed true => pinnedUniqueId
  | .allowed false | .disabledBySpec _ | .pinnedOnceReady => none

def repositoryVanishedReason : String := "RepositoryVanished"
def backendUnreachableReason : String := "BackendUnreachable"
def probeDeadlineExceededReason : String := "ProbeDeadlineExceeded"
def backendReachableReason : String := "Reachable"

inductive ReinitAckArming
  | armed
  | dormant (reason : String)
deriving DecidableEq

def reinitAckArming (conditions : List Condition) : ReinitAckArming :=
  let blocked type := reasonOf conditions type == some repositoryReinitializeBlockedReason
  if blocked readyCondition || blocked bootstrappedCondition ||
      reasonOf conditions backendReachableCondition == some repositoryVanishedReason then .armed
  else .dormant ((nonEmpty (reasonOf conditions readyCondition)).getD "none")

def reinitRequested (phaseIsReady ackValid : Bool) (arming : ReinitAckArming) : Bool :=
  !phaseIsReady && ackValid &&
    match arming with
    | .armed => true
    | .dormant _ => false

theorem nonEmpty_eq_some {s : Option String} {t : String} :
    nonEmpty s = some t ↔ s = some t ∧ t ≠ "" := by
  simp [nonEmpty, Option.filter_eq_some_iff]

theorem nonEmpty_eq_none {s : Option String} : nonEmpty s = none ↔ s = none ∨ s = some "" := by
  cases s with
  | none => simp [nonEmpty]
  | some t => simp [nonEmpty]

theorem createGate_ack {specCreateEnabled : Bool} {uniqueId reinitAck : Option String}
    (h : createGate specCreateEnabled uniqueId reinitAck = .allowed true) :
    ∃ u, u ≠ "" ∧ uniqueId = some u ∧ reinitAck = some u := by
  unfold createGate at h
  cases hp : nonEmpty uniqueId with
  | none => cases specCreateEnabled <;> simp [hp] at h
  | some id =>
    obtain ⟨hid, hne⟩ := nonEmpty_eq_some.mp hp
    cases ha : nonEmpty reinitAck with
    | none => cases specCreateEnabled <;> simp [hp, ha] at h
    | some ack =>
      obtain ⟨hack, -⟩ := nonEmpty_eq_some.mp ha
      by_cases heq : id = ack
      · exact ⟨id, hne, hid, heq ▸ hack⟩
      · have : (id == ack) = false := by simpa using heq
        cases specCreateEnabled <;> simp [hp, ha, this] at h

theorem createGate_first {specCreateEnabled : Bool} {uniqueId reinitAck : Option String}
    (h : createGate specCreateEnabled uniqueId reinitAck = .allowed false) :
    nonEmpty uniqueId = none := by
  unfold createGate at h
  cases hp : nonEmpty uniqueId with
  | none => rfl
  | some id =>
    simp only [hp] at h
    split at h <;> simp_all

/-- The re-initialization a pass is asked for, from what it reads of the
object: the human acknowledged the pinned id and the status says it was wiped. -/
def reinitRequestedBy (specCreateEnabled phaseIsReady : Bool) (uniqueId reinitAck : Option String)
    (conditions : List Condition) : Bool :=
  reinitRequested phaseIsReady
    (validReinitAck (createGate specCreateEnabled uniqueId reinitAck) uniqueId).isSome
    (reinitAckArming conditions)

def createDecision (specCreateEnabled phaseIsReady : Bool) (uniqueId reinitAck : Option String)
    (conditions : List Condition) : EffectiveCreate :=
  effectiveCreate (createGate specCreateEnabled uniqueId reinitAck)
    (reinitRequestedBy specCreateEnabled phaseIsReady uniqueId reinitAck conditions)

inductive MayCreate (uniqueId reinitAck : Option String) (phaseIsReady : Bool)
    (conditions : List Condition) : CreateGrant → Prop
  | first (unpinned : nonEmpty uniqueId = none) :
      MayCreate uniqueId reinitAck phaseIsReady conditions .enabled
  | acknowledged {u : String} (ne : u ≠ "") (pinned : uniqueId = some u) (ack : reinitAck = some u)
      (phase : phaseIsReady = false) (armed : reinitAckArming conditions = .armed) :
      MayCreate uniqueId reinitAck phaseIsReady conditions .reinitAck

theorem reinitRequested_armed {phaseIsReady ackValid : Bool} {arming : ReinitAckArming}
    (h : reinitRequested phaseIsReady ackValid arming = true) :
    phaseIsReady = false ∧ arming = .armed := by
  cases arming with
  | armed =>
    simp only [reinitRequested, Bool.and_eq_true, Bool.not_eq_true'] at h
    exact ⟨h.1.1, rfl⟩
  | dormant reason => simp [reinitRequested] at h

theorem createDecision_mayCreate {specCreateEnabled phaseIsReady : Bool}
    {uniqueId reinitAck : Option String} {conditions : List Condition}
    (h : (createDecision specCreateEnabled phaseIsReady uniqueId reinitAck conditions).grant ≠
      .denied) :
    MayCreate uniqueId reinitAck phaseIsReady conditions
      (createDecision specCreateEnabled phaseIsReady uniqueId reinitAck conditions).grant := by
  rw [createDecision] at h ⊢
  generalize hr : reinitRequestedBy specCreateEnabled phaseIsReady uniqueId reinitAck conditions = r
    at h ⊢
  cases hg : createGate specCreateEnabled uniqueId reinitAck with
  | allowed via =>
    cases via with
    | false => exact .first (createGate_first hg)
    | true =>
      obtain ⟨u, hne, hpin, hack⟩ := createGate_ack hg
      cases r with
      | false => exact absurd (by rw [hg]; rfl) h
      | true =>
        obtain ⟨hphase, harmed⟩ := reinitRequested_armed hr
        exact .acknowledged hne hpin hack hphase harmed
  | disabledBySpec also =>
    rw [hg] at h
    cases also <;> exact absurd rfl h
  | pinnedOnceReady =>
    rw [hg] at h
    exact absurd rfl h

def probeAttemptGraceSecs : Int := 60

def bootstrapJobDeadlineSecs : Int := 120

def bootstrapDeadlineSeconds (activeDeadlineSeconds : Option Int) : Int :=
  activeDeadlineSeconds.getD bootstrapJobDeadlineSecs

def probeAttemptTimeout (activeDeadlineSeconds : Int) : Duration :=
  .seconds (max (activeDeadlineSeconds + probeAttemptGraceSecs) 1)

/-- Whether a probe Job launched at the stamp is still in flight. An absent or
unreadable stamp is not. -/
def probeAttemptPending (rfc : Rfc3339) (attemptAt : Option String) (timeout : Duration)
    (now : DateTime) : Bool :=
  match attemptAt.bind rfc.parse with
  | none => false
  | some started => decide (now < started + timeout)

inductive ProbeAction
  | idle
  | launch
  | awaitingResult
deriving DecidableEq

def ProbeAction.launches : ProbeAction → Bool
  | .launch => true
  | .idle | .awaitingResult => false

def ProbeAction.awaitsResult : ProbeAction → Bool
  | .awaitingResult => true
  | .idle | .launch => false

def healthProbeDue (rfc : Rfc3339) (bootstrappedBefore enabled : Bool) (lastProbeAt : Option String)
    (interval : Duration) (now : DateTime) : Bool :=
  enabled && bootstrappedBefore && refreshDue rfc lastProbeAt interval now

def probeAction (rfc : Rfc3339) (phaseIsReady bootstrappedBefore enabled : Bool)
    (lastProbeAt probeAttemptAt : Option String) (interval attemptTimeout : Duration)
    (now : DateTime) : ProbeAction :=
  if !(enabled && bootstrappedBefore && phaseIsReady) then .idle
  else if probeAttemptPending rfc probeAttemptAt attemptTimeout now then .awaitingResult
  else if healthProbeDue rfc bootstrappedBefore enabled lastProbeAt interval now then .launch
  else .idle

def strictRetryBackoffCapSecs : Int := 1800

def strictRetryBackoff (consecutiveFailures : Int) : Duration :=
  .seconds (min (120 * 2 ^ (min (max consecutiveFailures 0) 4).toNat) strictRetryBackoffCapSecs)

def strictRetryHoldoff (rfc : Rfc3339) (phaseIsDegraded : Bool) (consecutiveFailures : Int)
    (lastFailureAt : Option String) (now : DateTime) : Option Duration :=
  if !phaseIsDegraded || decide (consecutiveFailures ≤ 0) then none
  else
    (lastFailureAt.bind rfc.parse).bind fun last =>
      let due := last + strictRetryBackoff (consecutiveFailures - 1)
      if due ≤ now then none else some (due - now)

def deadlineReasoned (c : Condition) : Bool :=
  (c.type == bootstrappedCondition || c.type == backendReachableCondition) && c.status == .false &&
    (c.reason == bootstrapDeadlineExceededReason || c.reason == probeDeadlineExceededReason)

/-- The failures that count towards a longer deadline: those of a streak whose
conditions name a deadline. -/
def timeoutStreak (conditions : List Condition) (consecutiveFailures : Int) : Int :=
  if conditions.any deadlineReasoned then max consecutiveFailures 0 else 0

def escalatedBootstrapDeadline (baseSecs timeoutStreak : Int) : Int :=
  min (baseSecs * 2 ^ (min (max timeoutStreak 0) 4).toNat) (max strictRetryBackoffCapSecs baseSecs)

def launchPhase : Option RepositoryPhase → RepositoryPhase
  | some .degraded => .degraded
  | some .pending | some .initializing | some .ready | some .failed | none => .initializing
  | some (.unknown _) => .initializing

-- The health of a repository

structure HealthStatus where
  lastProbeAt : Option String := none
  lastHealthyAt : Option String := none
  consecutiveProbeFailures : Option Int := none
  firstFailureAt : Option String := none
  probeAttemptAt : Option String := none
deriving DecidableEq

inductive PatchField (α : Type)
  | keep
  | null
  | value (a : α)
deriving DecidableEq

namespace PatchField

variable {α : Type}

def merge (old : Option α) : PatchField α → Option α
  | keep => old
  | null => none
  | value a => some a

/-- A typed field that is left out when it is `None`. -/
def skipNone : Option α → PatchField α
  | none => keep
  | some a => value a

end PatchField

structure HealthPatch where
  lastProbeAt : PatchField String := .keep
  lastHealthyAt : PatchField String := .keep
  consecutiveProbeFailures : PatchField Int := .keep
  firstFailureAt : PatchField String := .keep
  probeAttemptAt : PatchField String := .keep
deriving DecidableEq

def HealthStatus.merge (h : HealthStatus) (p : HealthPatch) : HealthStatus where
  lastProbeAt := p.lastProbeAt.merge h.lastProbeAt
  lastHealthyAt := p.lastHealthyAt.merge h.lastHealthyAt
  consecutiveProbeFailures := p.consecutiveProbeFailures.merge h.consecutiveProbeFailures
  firstFailureAt := p.firstFailureAt.merge h.firstFailureAt
  probeAttemptAt := p.probeAttemptAt.merge h.probeAttemptAt

def probeSuccessHealthPatch (now : String) : HealthPatch where
  lastProbeAt := .value now
  lastHealthyAt := .value now
  consecutiveProbeFailures := .null
  firstFailureAt := .null
  probeAttemptAt := .null

/-- The typed status elides what is absent; only the launch stamp is cleared. -/
def probeFailureHealthPatch (health : HealthStatus) : HealthPatch where
  lastProbeAt := .skipNone health.lastProbeAt
  lastHealthyAt := .skipNone health.lastHealthyAt
  consecutiveProbeFailures := .skipNone health.consecutiveProbeFailures
  firstFailureAt := .skipNone health.firstFailureAt
  probeAttemptAt := .null

def probeAttemptHealthPatch (launchedAt : Option String) : HealthPatch where
  probeAttemptAt :=
    match launchedAt with
    | some now => .value now
    | none => .null

inductive ProbeFailureKind
  | vanished
  | unreachable
  | timedOut
deriving DecidableEq

def probeFailureKind : BootstrapFailure → ProbeFailureKind
  | .repositoryNotInitialized | .repositoryReinitializeBlocked => .vanished
  | .jobDeadlineExceeded _ => .timedOut
  | .backend _ | .jobFailedWithoutResult | .seed _ | .seedMoverTooOld | .internalInconsistency =>
    .unreachable

def reconcileProbeSuccess (existing : List Condition) : List Condition :=
  upsertCondition existing backendReachableCondition true backendReachableReason

def backendReachableTrue (conditions : List Condition) : Bool :=
  (findCondition conditions backendReachableCondition).any fun c => c.status == .true

/-- Whether a success changes the recorded health: a probe's own result, the
first one, or one that ends a failure. -/
def successFold (probeRun : Bool) (health : HealthStatus) (backendReachableTrue : Bool)
    (now : String) : Option HealthPatch :=
  if probeRun || health.lastProbeAt.isNone || decide (0 < health.consecutiveProbeFailures.getD 0) ||
      health.firstFailureAt.isSome || !backendReachableTrue then
    some (probeSuccessHealthPatch now)
  else none

def failureStreakHealth (prior : HealthStatus) (now : String) : HealthStatus :=
  let priorFailures := max (prior.consecutiveProbeFailures.getD 0) 0
  { lastProbeAt := some now
    lastHealthyAt := prior.lastHealthyAt
    consecutiveProbeFailures := some (priorFailures + 1)
    firstFailureAt :=
      some ((if 0 < priorFailures then prior.firstFailureAt else none).getD now)
    probeAttemptAt := none }

def breakerReason : ProbeFailureKind → String
  | .vanished => repositoryVanishedReason
  | .unreachable => backendUnreachableReason
  | .timedOut => probeDeadlineExceededReason

/-- The conditions after a failure: raised once the streak reaches the
threshold. -/
def reconcileProbeFailure (existing : List Condition) (prior : HealthStatus)
    (kind : ProbeFailureKind) (failureThreshold : Int) (now : String) :
    List Condition × HealthStatus :=
  let health := failureStreakHealth prior now
  if health.consecutiveProbeFailures.getD 1 < max failureThreshold 1 then (existing, health)
  else (upsertCondition existing backendReachableCondition false (breakerReason kind), health)

theorem reconcileProbeFailure_fst (existing : List Condition) (prior : HealthStatus)
    (kind : ProbeFailureKind) (failureThreshold : Int) (now : String) :
    (reconcileProbeFailure existing prior kind failureThreshold now).1 =
      if max (prior.consecutiveProbeFailures.getD 0) 0 + 1 < max failureThreshold 1 then existing
      else upsertCondition existing backendReachableCondition false (breakerReason kind) := by
  rw [reconcileProbeFailure]
  exact apply_ite Prod.fst _ _ _

@[simp] theorem reconcileProbeFailure_snd (existing : List Condition) (prior : HealthStatus)
    (kind : ProbeFailureKind) (failureThreshold : Int) (now : String) :
    (reconcileProbeFailure existing prior kind failureThreshold now).2 =
      failureStreakHealth prior now := by
  rw [reconcileProbeFailure]
  split <;> rfl

inductive ProbeOnFailure
  | alert
  | degrade
deriving DecidableEq

inductive BreakerVerdict
  | stayReady
  | opens
deriving DecidableEq

def breakerVerdict (consecutive threshold : Int) : ProbeOnFailure → BreakerVerdict
  | .alert => .stayReady
  | .degrade => if max threshold 1 ≤ consecutive then .opens else .stayReady

structure ProbeFailurePhase where
  opened : Bool
  phase : RepositoryPhase
  readyReason : String
deriving DecidableEq

def probeFailurePhase (verdict : BreakerVerdict) (kind : ProbeFailureKind) : ProbeFailurePhase :=
  match verdict with
  | .stayReady => { opened := false, phase := .ready, readyReason := "Bootstrapped" }
  | .opens => { opened := true, phase := .degraded, readyReason := breakerReason kind }

end Kopiur
