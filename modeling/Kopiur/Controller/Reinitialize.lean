import Kopiur.Controller.RepositoryRuns

/-!
# A once-`Ready` repository is not silently re-created

After an id was pinned, a bootstrap creates a repository only when a human
acknowledged that very id while the status said the repository was gone, and
only where the backend proved empty. The acknowledgment is used up by the
re-creation, until a connect pins the acknowledged id again.
-/

namespace Kopiur

open Lib

/-- A wiped-repository verdict outside the `Ready` condition, which every write
replaces. -/
def StandingVerdict (conditions : List Condition) : Prop :=
  reasonOf conditions bootstrappedCondition = some repositoryReinitializeBlockedReason ∨
    reasonOf conditions backendReachableCondition = some repositoryVanishedReason

theorem armed_iff {conditions : List Condition} :
    reinitAckArming conditions = .armed ↔
      reasonOf conditions readyCondition = some repositoryReinitializeBlockedReason ∨
        StandingVerdict conditions := by
  simp only [reinitAckArming, StandingVerdict, Bool.or_eq_true, beq_iff_eq, ite_eq_left_iff,
    reduceCtorEq, imp_false, not_not, or_assoc]

section Verdicts

variable {conditions : List Condition} {outcome : ReadyOutcome} {status : Bool} {reason : String}

theorem armed_setReady (h : reinitAckArming (setReady conditions outcome reason) = .armed) :
    reason = repositoryReinitializeBlockedReason ∨ StandingVerdict conditions := by
  rw [armed_iff, reasonOf_setReady, StandingVerdict, reasonOf_setReady_bootstrapped,
    reasonOf_setReady_backend] at h
  exact h.imp Option.some.inj id

theorem StandingVerdict.armed (h : StandingVerdict conditions) :
    reinitAckArming conditions = .armed :=
  armed_iff.mpr (.inr h)

theorem standing_bootstrapped
    (h : StandingVerdict (upsertCondition conditions bootstrappedCondition status reason)) :
    reason = repositoryReinitializeBlockedReason ∨ StandingVerdict conditions := by
  rw [StandingVerdict, reasonOf_upsert_same, reasonOf_upsert_other _ _ _ (by decide)] at h
  exact h.imp Option.some.inj .inr

theorem standing_backend
    (h : StandingVerdict (upsertCondition conditions backendReachableCondition status reason)) :
    reason = repositoryVanishedReason ∨
      reasonOf conditions bootstrappedCondition = some repositoryReinitializeBlockedReason := by
  rw [StandingVerdict, reasonOf_upsert_same, reasonOf_upsert_other _ _ _ (by decide)] at h
  exact h.symm.imp Option.some.inj id

end Verdicts

def VanishedIsFalse (conditions : List Condition) : Prop :=
  ∀ c, findCondition conditions backendReachableCondition = some c →
    c.reason = repositoryVanishedReason → c.status = .false

namespace VanishedIsFalse

variable {conditions : List Condition} {outcome : ReadyOutcome} {status : Bool} {reason : String}

theorem setReady (h : VanishedIsFalse conditions) :
    VanishedIsFalse (setReady conditions outcome reason) := by
  intro c hc
  rw [findCondition_setReady_backend] at hc
  exact h c hc

theorem bootstrapped (h : VanishedIsFalse conditions) :
    VanishedIsFalse (upsertCondition conditions bootstrappedCondition status reason) := by
  intro c hc
  rw [findCondition_upsert_other _ _ _ (by decide)] at hc
  exact h c hc

theorem backend (h : reason = repositoryVanishedReason → status = false) :
    VanishedIsFalse (upsertCondition conditions backendReachableCondition status reason) := by
  intro c hc hr
  rw [findCondition_upsert_same] at hc
  cases hc
  rw [h hr]
  rfl

end VanishedIsFalse

def Event.minor : Event → Bool
  | .verdict | .stamped _ | .folded .. | .removed _ | .honored .. => true
  | .created .. | .connected _ | .pinned _ | .recreated .. => false

section Minor

variable {notes log : List Event}

theorem verdictSinceConnect_minor (h : ∀ e ∈ notes, e.minor = true)
    (hv : .verdict ∈ notes ∨ verdictSinceConnect log = true) :
    verdictSinceConnect (notes ++ log) = true := by
  induction notes with
  | nil => exact hv.resolve_left List.not_mem_nil
  | cons e rest ih =>
    have ih := ih fun e he => h e (List.mem_cons_of_mem _ he)
    have he := h e List.mem_cons_self
    cases e with
    | verdict => rfl
    | stamped _ | folded _ _ | removed _ | honored _ _ _ _ _ =>
      exact ih (hv.imp (fun hm => (List.mem_cons.mp hm).resolve_left (by simp)) id)
    | created _ _ _ | connected _ | pinned _ | recreated _ _ => cases he

theorem ids_minor (log : List Event) (h : ∀ e ∈ notes, e.minor = true) :
    spentAcks (notes ++ log) = spentAcks log ∧ everPinned (notes ++ log) = everPinned log := by
  induction notes with
  | nil => exact ⟨rfl, rfl⟩
  | cons e rest ih =>
    have ih := ih fun e he => h e (List.mem_cons_of_mem _ he)
    have he := h e List.mem_cons_self
    cases e with
    | verdict | stamped _ | folded _ _ | removed _ | honored _ _ _ _ _ => exact ih
    | created _ _ _ | connected _ | pinned _ | recreated _ _ => cases he

end Minor

theorem records_connected (inProcess created : Bool) (id : String) (grant : CreateGrant)
    (ack : Option String) (log : List Event) :
    id ∉ spentAcks (World.connectedNotes inProcess (some id) created grant ack ++ log) ∧
      (verdictSinceConnect log = true → inProcess = true →
        verdictSinceConnect (World.connectedNotes inProcess (some id) created grant ack ++ log) =
          true) ∧
      ∀ e ∈ World.connectedNotes inProcess (some id) created grant ack, ∀ l g a,
        e ≠ .created l g a := by
  rw [World.connectedNotes]
  split
  · cases ack with
    | none => simp_all [spentAcks, verdictSinceConnect]
    | some a =>
      refine ⟨?_, ?_, ?_⟩
      · have hpinned : id ∉ (spentAcks log).filter fun a => a != id := by simp
        simp only [Option.map_some, Option.bind_some, Option.toList_some, List.cons_append,
          List.nil_append, spentAcks]
        split
        · exact hpinned
        · next hne => exact List.not_mem_cons_of_ne_of_not_mem (Ne.symm hne) hpinned
      · rintro hv rfl
        simpa [verdictSinceConnect] using hv
      · simp
  · simp_all [spentAcks, verdictSinceConnect]

-- The invariant

/-- A launch that a human allowed: the pinned id was acknowledged off `Ready`,
while a verdict stood that no Job's connect had answered since. -/
def Acknowledged (l : Launch) : Prop :=
  ∃ u, u ≠ "" ∧ l.pin = some u ∧ l.ack = some u ∧ l.phase ≠ some .ready ∧
    reinitAckArming l.conditions = .armed ∧ l.freshVerdict = true ∧ u ∉ l.spentAcks

def Granted (l : Launch) : CreateGrant → Prop
  | .denied => False
  | .enabled => l.pinnedBefore = false
  | .reinitAck => Acknowledged l

structure ReinitInv (w : World) : Prop where
  armed : reinitAckArming w.status.conditions = .armed → verdictSinceConnect w.log = true
  vanished : VanishedIsFalse w.status.conditions
  pin : ∀ u, w.status.uniqueId = some u → u ≠ "" ∧ u ∉ spentAcks w.log
  kept : everPinned w.log = true → w.status.uniqueId.isSome = true
  reports : ∀ j r, w.job = some j → j.report = some r → r.success = true →
    ∃ id, r.uniqueId = some id ∧ id ≠ ""
  granted : ∀ j, w.job = some j → j.op.grant ≠ .denied → Granted j.launch j.op.grant
  created : ∀ l g e, .created l g e ∈ w.log →
    Granted l g ∧ (g = .reinitAck → e.cls = .notFound ∧ e.uninitialized = true)

theorem ReinitInv.fresh (now : DateTime) (repo : Repository) (contents : List String) :
    ReinitInv (.fresh now repo contents) where
  armed h := by cases h
  vanished c hc := by cases hc
  pin u hu := by cases hu
  kept h := by cases h
  reports j r hj := by cases hj
  granted j hj := by cases hj
  created l g e he := by cases he

namespace ReinitInv

variable {rfc : Rfc3339} {w : World}

theorem launch (h : ReinitInv w) (probeStyle : Bool) (hg : w.effectiveCreate.grant ≠ .denied) :
    Granted (w.launchRecord probeStyle) w.effectiveCreate.grant := by
  have hm := createDecision_mayCreate hg
  change MayCreate _ _ _ _ w.effectiveCreate.grant at hm
  generalize w.effectiveCreate.grant = g at hm
  cases hm with
  | first unpinned =>
    show everPinned w.log = false
    rw [Bool.eq_false_iff]
    intro hp
    obtain ⟨u, hu⟩ := Option.isSome_iff_exists.mp (h.kept hp)
    rcases nonEmpty_eq_none.mp unpinned with hn | he
    · rw [hu] at hn
      cases hn
    · exact (h.pin _ he).1 rfl
  | acknowledged ne pinned ack phase armed =>
    refine ⟨_, ne, pinned, ack, fun hp => ?_, armed, h.armed armed, (h.pin _ pinned).2⟩
    have hp : w.status.phase = some .ready := hp
    simp [World.alreadyReady, hp] at phase

theorem deleteJob (h : ReinitInv w) : ReinitInv (w.apply .deleteJob) := by
  have hminor : ∀ e ∈ (w.job.map fun j => Event.removed j.launch.number).toList,
      e.minor = true := by
    intro e he
    cases hj : w.job with
    | none => simp [hj] at he
    | some j => simp_all [Event.minor]
  obtain ⟨hs, hp⟩ := ids_minor w.log hminor
  refine ⟨fun ha => verdictSinceConnect_minor hminor (.inr (h.armed ha)), h.vanished, ?_, ?_, ?_,
    ?_, ?_⟩
  · intro u hu
    refine ⟨(h.pin u hu).1, ?_⟩
    show u ∉ spentAcks (_ ++ w.log)
    rw [hs]
    exact (h.pin u hu).2
  · intro hpin
    exact h.kept (hp ▸ hpin)
  · intro j r hj
    cases hj
  · intro j hj
    cases hj
  · intro l g e he
    rcases List.mem_append.mp he with he | he
    · exact absurd (hminor _ he) (by simp [Event.minor])
    · exact h.created l g e he

theorem applyJob (h : ReinitInv w) {job : DiscoveryJob} (hr : job.report = none)
    (hg : job.op.grant ≠ .denied → Granted job.launch job.op.grant) :
    ReinitInv (w.apply (.applyJob job)) where
  armed := h.armed
  vanished := h.vanished
  pin := h.pin
  kept := h.kept
  reports j r hj hrep := by
    cases hj
    rw [hr] at hrep
    cases hrep
  granted j hj := by
    cases hj
    exact hg
  created := h.created

theorem patch (h : ReinitInv w) {p : StatusPatch} {notes : List Event}
    (armed : reinitAckArming (p.conditions.getD w.status.conditions) = .armed →
      verdictSinceConnect (notes ++ w.log) = true)
    (vanished : VanishedIsFalse (p.conditions.getD w.status.conditions))
    (pin : ∀ u, p.uniqueId.merge w.status.uniqueId = some u →
      u ≠ "" ∧ u ∉ spentAcks (notes ++ w.log))
    (kept : everPinned (notes ++ w.log) = true →
      (p.uniqueId.merge w.status.uniqueId).isSome = true)
    (noted : ∀ e ∈ notes, ∀ l g a, e ≠ .created l g a) :
    ReinitInv (w.apply (.patchStatus p notes)) where
  armed
  vanished
  pin
  kept
  reports := h.reports
  granted := h.granted
  created l g e he := by
    rcases List.mem_append.mp he with he | he
    · exact absurd rfl (noted _ he l g e)
    · exact h.created l g e he

theorem patch_minor (h : ReinitInv w) {p : StatusPatch} {notes : List Event}
    (hid : p.uniqueId = .keep) (hminor : ∀ e ∈ notes, e.minor = true)
    (vanished : VanishedIsFalse (p.conditions.getD w.status.conditions))
    (armed : reinitAckArming (p.conditions.getD w.status.conditions) = .armed →
      .verdict ∈ notes ∨ reinitAckArming w.status.conditions = .armed) :
    ReinitInv (w.apply (.patchStatus p notes)) := by
  obtain ⟨hs, hp⟩ := ids_minor w.log hminor
  refine h.patch (fun ha => ?_) vanished ?_ ?_ ?_
  · exact verdictSinceConnect_minor hminor ((armed ha).imp id h.armed)
  · rw [hid, hs]
    exact h.pin
  · rw [hid, hp]
    exact h.kept
  · rintro e he l g a rfl
    exact absurd (hminor _ he) (by simp [Event.minor])

theorem patch_other (h : ReinitInv w) {p : StatusPatch} {notes : List Event}
    (hid : p.uniqueId = .keep) (hc : p.conditions = none)
    (hminor : ∀ e ∈ notes, e.minor = true) : ReinitInv (w.apply (.patchStatus p notes)) := by
  refine h.patch_minor hid hminor ?_ ?_
  · rw [hc]
    exact h.vanished
  · rw [hc]
    exact .inr

theorem requestScan (h : ReinitInv w) (token : String) :
    ReinitInv (w.apply (.requestScan token)) :=
  ⟨h.armed, h.vanished, h.pin, h.kept, h.reports, h.granted, h.created⟩

theorem runCatalogScan (h : ReinitInv w) (v : World) (listedAt : Nat) (listing : List String)
    (scanned : Bool) :
    w.Throughout ReinitInv (v.runCatalogScan rfc listedAt listing scanned) := by
  refine .ite (fun _ => .singleton h (h.patch_other rfl rfl ?_)) (fun _ => ?_)
  · intro e he
    cases ht : v.repo.scanToken with
    | none => simp [ht] at he
    | some t => simp_all [Event.minor]
  · generalize rescanTokenAfterFailedScan rfc _ _ _ = token
    cases token with
    | none => exact h
    | some t => exact .singleton h (h.requestScan t)

-- The end of a bootstrap

theorem not_standing_success {conditions : List Condition} (h : VanishedIsFalse conditions)
    {fold : Option HealthPatch} (hfold : fold = none → backendReachableTrue conditions = true) :
    ¬ StandingVerdict
      (if fold.isSome then
        reconcileProbeSuccess (upsertCondition conditions bootstrappedCondition true "Bootstrapped")
      else upsertCondition conditions bootstrappedCondition true "Bootstrapped") := by
  cases fold with
  | some f =>
    intro hs
    rcases standing_backend hs with hr | hr
    · exact absurd hr (by decide)
    · rw [reasonOf_upsert_same] at hr
      exact absurd (Option.some.inj hr) (by decide)
  | none =>
    change ¬ StandingVerdict (upsertCondition conditions bootstrappedCondition true "Bootstrapped")
    rintro (hr | hr)
    · rw [reasonOf_upsert_same] at hr
      exact absurd (Option.some.inj hr) (by decide)
    · rw [reasonOf_upsert_other _ _ _ (by decide)] at hr
      obtain ⟨c, hc, hreason⟩ := Option.map_eq_some_iff.mp hr
      have htrue : c.status = .true := by simpa [backendReachableTrue, hc] using hfold rfl
      rw [h c hc hreason] at htrue
      cases htrue

theorem vanished_success {conditions : List Condition} (h : VanishedIsFalse conditions) (b : Bool) :
    VanishedIsFalse
      (if b then
        reconcileProbeSuccess (upsertCondition conditions bootstrappedCondition true "Bootstrapped")
      else upsertCondition conditions bootstrappedCondition true "Bootstrapped") := by
  cases b with
  | true => exact .backend fun h => absurd h (by decide)
  | false => exact h.bootstrapped

theorem successFold_none {probeRun reachable : Bool} {health : HealthStatus} {now : String}
    (h : successFold probeRun health reachable now = none) : reachable = true := by
  unfold successFold at h
  split at h
  · cases h
  · simp_all

theorem finalizeBootstrapSuccess (h : ReinitInv w) {job : DiscoveryJob} {r : BootstrapReport}
    (hj : w.job = some job) (hr : job.report = some r) (hs : r.success = true) (scanned : Bool) :
    w.Throughout ReinitInv (w.finalizeBootstrapSuccess rfc job r scanned) := by
  obtain ⟨id, hid, hne⟩ : ∃ id, (if w.probeRun rfc && w.bootstrappedBefore then w.status.uniqueId
      else r.uniqueId) = some id ∧ id ≠ "" := by
    split
    · next hp =>
      obtain ⟨u, hu⟩ := Option.isSome_iff_exists.mp (Bool.and_eq_true_iff.mp hp).2
      exact ⟨u, hu, (h.pin u hu).1⟩
    · exact h.reports job r hj hr hs
  simp only [World.finalizeBootstrapSuccess, hid]
  generalize hfold : successFold (w.probeRun rfc) w.status.health _ _ = fold
  have hpatch : ∀ p : StatusPatch, p.uniqueId = .value id →
      p.conditions = some (setReady
        (if fold.isSome then reconcileProbeSuccess (w.bootstrapCondition true "Bootstrapped")
        else w.bootstrapCondition true "Bootstrapped") .ready "Bootstrapped") →
      ∀ created grant ack, ReinitInv (w.apply (.patchStatus p
        ((if fold.isSome then [.folded job.launch.number (w.probeRun rfc)] else []) ++
          World.connectedNotes false (some id) created grant ack))) := by
    intro p huid hconds created grant ack
    have hminor : ∀ e ∈ (if fold.isSome then [Event.folded job.launch.number (w.probeRun rfc)]
        else []), e.minor = true := by
      intro e he
      split at he
      · rw [List.mem_singleton.mp he]
        rfl
      · cases he
    obtain ⟨hspent, -, hnotes⟩ := records_connected false created id grant ack w.log
    refine h.patch ?_ ?_ ?_ ?_ ?_
    · rw [hconds]
      intro ha
      rcases armed_setReady ha with hr | hr
      · exact absurd hr (by decide)
      · refine absurd hr (not_standing_success h.vanished fun hn => ?_)
        exact successFold_none (hfold.trans hn)
    · rw [hconds]
      exact (vanished_success h.vanished _).setReady
    · rw [huid]
      rintro u ⟨⟩
      rw [List.append_assoc, (ids_minor _ hminor).1]
      exact ⟨hne, hspent⟩
    · rw [huid]
      exact fun _ => rfl
    · intro e he l g a
      rcases List.mem_append.mp he with he | he
      · rintro rfl
        cases hminor _ he
      · exact hnotes e he l g a
  refine .append (.append (.singleton h (hpatch _ rfl rfl _ _ _)) fun h' => ?_) fun h' => ?_
  · exact .ite (fun _ => h'.runCatalogScan _ _ _ _) (fun _ => h')
  · exact .ite (fun _ => .singleton h' h'.deleteJob) (fun _ => h')

theorem standing_failure {conditions : List Condition} {prior : HealthStatus}
    {kind : ProbeFailureKind} {threshold : Int} {now : String}
    (h : StandingVerdict (reconcileProbeFailure conditions prior kind threshold now).1) :
    (kind = .vanished ∧
      max threshold 1 ≤ max (prior.consecutiveProbeFailures.getD 0) 0 + 1) ∨
      StandingVerdict conditions := by
  rw [reconcileProbeFailure_fst] at h
  split at h
  · exact .inr h
  · next ht =>
    rcases standing_backend h with hr | hr
    · refine .inl ⟨?_, not_lt.mp ht⟩
      cases kind with
      | vanished => rfl
      | unreachable | timedOut => exact absurd hr (by decide)
    · exact .inr (.inl hr)

theorem vanished_failure {conditions : List Condition} {prior : HealthStatus}
    {kind : ProbeFailureKind} {threshold : Int} {now : String} (h : VanishedIsFalse conditions) :
    VanishedIsFalse (reconcileProbeFailure conditions prior kind threshold now).1 := by
  rw [reconcileProbeFailure_fst]
  split
  · exact h
  · exact .backend fun _ => rfl

theorem readyReason_ne_blocked (verdict : BreakerVerdict) (kind : ProbeFailureKind) :
    (probeFailurePhase verdict kind).readyReason ≠ repositoryReinitializeBlockedReason := by
  cases verdict with
  | stayReady => exact (by decide : "Bootstrapped" ≠ repositoryReinitializeBlockedReason)
  | opens => cases kind <;> decide

theorem outage_not_vanished {failure : BootstrapFailure} {bootstrapped : Bool}
    (h : failure.route bootstrapped = .outageSensor) : probeFailureKind failure ≠ .vanished := by
  cases failure with
  | repositoryNotInitialized | repositoryReinitializeBlocked =>
    simp [BootstrapFailure.route, BootstrapFailure.recyclesForRetry,
      BootstrapFailure.retryableOutageForBootstrapped] at h
  | backend | jobFailedWithoutResult | jobDeadlineExceeded | seed | seedMoverTooOld
  | internalInconsistency => simp [probeFailureKind]

theorem finalizeProbeFailure (h : ReinitInv w) (job : DiscoveryJob) (failure : BootstrapFailure) :
    w.Throughout ReinitInv (w.finalizeProbeFailure rfc job failure) := by
  suffices hpatch : ReinitInv (w.apply _) from ⟨h, hpatch, hpatch.deleteJob⟩
  refine h.patch_minor rfl ?_ ?_ ?_
  · intro e he
    rcases List.mem_cons.mp he with rfl | he
    · rfl
    · split at he
      · rw [List.mem_singleton.mp he]
        rfl
      · cases he
  · exact (vanished_failure h.vanished).setReady
  · intro ha
    rcases armed_setReady ha with hr | hs
    · exact absurd hr (readyReason_ne_blocked _ _)
    · refine (standing_failure hs).imp (fun hv => ?_) StandingVerdict.armed
      simp [hv, failureStreakHealth]

theorem recycleBootstrapOutage (h : ReinitInv w) (job : DiscoveryJob) {failure : BootstrapFailure}
    (hf : failure.route w.bootstrappedBefore = .outageSensor) :
    w.Throughout ReinitInv (w.recycleBootstrapOutage rfc job failure) := by
  refine ⟨h, h.deleteJob, h.deleteJob.patch_minor rfl ?_ ?_ ?_⟩
  · simp [Event.minor]
  · refine VanishedIsFalse.setReady ?_
    split
    · exact (vanished_failure h.vanished).bootstrapped
    · exact vanished_failure h.vanished
  · intro ha
    have hstanding : StandingVerdict (reconcileProbeFailure w.status.conditions w.status.health
        (probeFailureKind failure) w.repo.spec.failureThreshold (w.nowStr rfc)).1 := by
      rcases armed_setReady ha with hr | hs
      · exact absurd hr (readyReason_ne_blocked _ _)
      · split at hs
        · refine (standing_bootstrapped hs).resolve_left fun hr => ?_
          rw [BootstrapFailure.reason_blocked hr] at hf
          exact absurd hf (by simp [BootstrapFailure.route, BootstrapFailure.recyclesForRetry,
            BootstrapFailure.retryableOutageForBootstrapped])
        · exact hs
    rcases standing_failure hstanding with hv | hs
    · exact absurd hv.1 (outage_not_vanished hf)
    · exact .inr hs.armed

theorem recycleFailedBootstrap (h : ReinitInv w) (job : DiscoveryJob) {failure : BootstrapFailure}
    (hf : failure ≠ .repositoryReinitializeBlocked) (stampStreak : Bool) :
    w.Throughout ReinitInv (w.recycleFailedBootstrap rfc job failure stampStreak) := by
  refine ⟨h, h.deleteJob, h.deleteJob.patch_minor rfl ?_ ?_ ?_⟩
  · cases stampStreak <;> simp [Event.minor]
  · exact h.vanished.bootstrapped.setReady
  · intro ha
    rcases armed_setReady ha with hr | hs
    · exact absurd (BootstrapFailure.reason_blocked hr) hf
    · rcases standing_bootstrapped hs with hr | hs
      · exact absurd (BootstrapFailure.reason_blocked hr) hf
      · exact .inr hs.armed

theorem parkTerminalBootstrap (h : ReinitInv w) (failure : BootstrapFailure) :
    w.Throughout ReinitInv (w.parkTerminalBootstrap failure) := by
  refine .singleton h (h.patch_minor rfl ?_ h.vanished.bootstrapped.setReady ?_)
  · split <;> simp [Event.minor]
  · intro ha
    have hverdict : failure.reason = repositoryReinitializeBlockedReason →
        Event.verdict ∈ (if failure = .repositoryReinitializeBlocked then [Event.verdict] else []) := by
      intro hr
      simp [BootstrapFailure.reason_blocked hr]
    rcases armed_setReady ha with hr | hs
    · exact .inl (hverdict hr)
    · exact (standing_bootstrapped hs).imp hverdict StandingVerdict.armed

theorem finalizeBootstrap (h : ReinitInv w) {job : DiscoveryJob} (hj : w.job = some job)
    (terminal : MoverJobTerminal) (scanned : Bool) :
    w.Throughout ReinitInv (w.finalizeBootstrap rfc job terminal scanned) := by
  rw [World.finalizeBootstrap]
  split
  case h_1 => exact h
  case h_2 failure _ =>
    refine .ite (fun _ => h.finalizeProbeFailure job failure) (fun _ => ?_)
    cases hroute : failure.route w.bootstrappedBefore with
    | outageSensor => exact h.recycleBootstrapOutage job hroute
    | recycle | seedRetry =>
      refine h.recycleFailedBootstrap job ?_ _
      rintro rfl
      simp [BootstrapFailure.route, BootstrapFailure.recyclesForRetry,
        BootstrapFailure.retryableOutageForBootstrapped] at hroute
    | terminal => exact h.parkTerminalBootstrap failure
  case h_3 r hout =>
    obtain ⟨hr, hs⟩ := bootstrapOutcome_succeeded hout
    exact h.finalizeBootstrapSuccess hj hr hs scanned

theorem launchBootstrap (h : ReinitInv w) : w.Throughout ReinitInv (w.launchBootstrap rfc) := by
  have hclear : w.Throughout ReinitInv (if w.seedPlan.clearStatus then
      [.patchStatus { seedStartedAt := .null, seededAt := .null } []] else []) :=
    .ite (fun _ => .singleton h (h.patch_other rfl rfl (by simp))) (fun _ => h)
  refine .append (.append hclear fun h' => ?_) fun h' => ?_
  · exact .ite (fun _ => h') (fun _ => .singleton h' (h'.patch_other rfl rfl (by simp)))
  · have happly : ReinitInv (World.apply _ (.applyJob (w.bootstrapJob rfc))) :=
      h'.applyJob rfl (h.launch w.probeStyleLaunch)
    refine ⟨h', happly, happly.patch_other rfl rfl ?_⟩
    split <;> simp [Event.minor]

theorem bootstrapViaMover (h : ReinitInv w) (scanned : Bool) :
    w.Throughout ReinitInv (w.bootstrapViaMover rfc scanned) := by
  rw [World.bootstrapViaMover]
  cases hj : w.job with
  | none => exact .ite (fun _ => h) (fun _ => .ite (fun _ => h) (fun _ => h.launchBootstrap))
  | some job =>
    cases ht : job.terminal with
    | none =>
      simp only [ht]
      exact .ite (fun _ => h) (fun _ => .singleton h (h.patch_other rfl rfl (by simp)))
    | some terminal =>
      simp only [ht]
      exact .ite (fun _ => .singleton h h.deleteJob)
        (fun _ => h.finalizeBootstrap hj terminal scanned)

theorem inProcessFailed (h : ReinitInv w) (i : PassInput) (e : ConnectError) :
    w.Throughout ReinitInv (w.inProcessFailed i e) := by
  refine .singleton h (h.patch_minor rfl ?_ h.vanished.bootstrapped.setReady ?_)
  · split <;> simp [Event.minor]
  · intro ha
    have hverdict : (if w.inprocessReinitializeBlock e then
        BootstrapFailure.repositoryReinitializeBlocked.reason else e.cls.asStr) =
          repositoryReinitializeBlockedReason →
        Event.verdict ∈ (if w.inprocessReinitializeBlock e then [Event.verdict] else []) := by
      intro hr
      split
      · exact List.mem_singleton_self _
      · next hb =>
        rw [if_neg hb] at hr
        exact absurd (BootstrapFailure.reason_blocked (f := .backend e.cls) hr) (by simp)
    rcases armed_setReady ha with hr | hs
    · exact .inl (hverdict hr)
    · exact (standing_bootstrapped hs).imp hverdict StandingVerdict.armed

theorem inProcessReady (h : ReinitInv w) {i : PassInput} (hi : i.kopia.reportsId = true)
    (created : Bool) : w.Throughout ReinitInv (w.inProcessReady rfc i created) := by
  rw [World.inProcessReady]
  split
  case h_1 => exact h
  case h_2 id hid =>
    obtain ⟨hspent, hverdict, hnotes⟩ :=
      records_connected true created id w.effectiveCreate.grant w.repo.reinitAck w.log
    refine .append (.singleton h (h.patch ?_ h.vanished.setReady ?_ (fun _ => rfl) hnotes))
      fun h' => .ite (fun _ => h'.runCatalogScan _ _ _ _) (fun _ => h')
    · intro ha
      rcases armed_setReady ha with hr | hs
      · exact absurd hr (by decide)
      · exact hverdict (h.armed hs.armed) rfl
    · rintro u ⟨⟩
      exact ⟨KopiaAnswers.reportsId_ok hi hid, hspent⟩

theorem createRepository (h : ReinitInv w) {e : ConnectError}
    (hc : shouldAttemptCreate w.effectiveCreate.grant e.cls e.uninitialized = true) :
    ReinitInv (w.apply (.createRepository (w.launchRecord false) w.effectiveCreate.grant e)) := by
  obtain ⟨hgrant, hproof⟩ := bootstrapInitAction_create (of_decide_eq_true hc)
  refine ⟨h.armed, h.vanished, h.pin, h.kept, h.reports, h.granted, ?_⟩
  intro l g a ha
  rcases List.mem_cons.mp ha with heq | ha
  · cases heq
    exact ⟨h.launch false hgrant, fun hg => (hproof hg).imp Option.some.inj id⟩
  · exact h.created l g a ha

theorem bootstrapInProcess (h : ReinitInv w) {i : PassInput} (hi : i.kopia.reportsId = true) :
    w.Throughout ReinitInv (w.bootstrapInProcess rfc i) := by
  refine .ite (fun _ => h) (fun _ => ?_)
  split
  · exact h.inProcessReady hi false
  · exact h.inProcessReady hi false
  · split
    · next e _ hc =>
      refine ⟨h, ?_⟩
      have h' := h.createRepository hc
      split
      · exact h'.inProcessFailed i _
      · exact h'.inProcessFailed i _
      · exact h'.inProcessReady hi true
    · exact h.inProcessFailed i _

theorem pass (h : ReinitInv w) {i : PassInput} (hi : i.kopia.reportsId = true) :
    w.Throughout ReinitInv (w.reconcileInner rfc i) := by
  refine .ite (fun _ => h) (fun _ => .ite (fun _ => ?_) (fun _ => ?_))
  · refine .singleton h (h.patch_minor rfl (by simp) h.vanished.setReady fun ha => ?_)
    rcases armed_setReady ha with hr | hs
    · exact absurd hr (by decide)
    · exact .inr hs.armed
  · exact .ite (fun _ => h.bootstrapInProcess hi) (fun _ => h.bootstrapViaMover i.scanned)

-- A run

theorem runJob (h : ReinitInv w) {job : DiscoveryJob} (hj : w.job = some job) {k : KopiaAnswers}
    (hk : k.reportsId = true) (written : Bool) :
    ReinitInv { w with
      job := some (job.run w.tick k w.contents written)
      log := job.notes k ++ w.log } := by
  -- the mover's record is a create that its grant allowed, or nothing
  have hnotes : job.notes k = [] ∨ ∃ e, job.notes k = [.created job.launch job.op.grant e] ∧
      Granted job.launch job.op.grant ∧
        (job.op.grant = .reinitAck → e.cls = .notFound ∧ e.uninitialized = true) := by
    rw [DiscoveryJob.notes]
    split
    case h_1 e hinit hconnect =>
      simp only [BootstrapRepositoryOp.initAction, hconnect, Option.some.injEq] at hinit
      obtain ⟨hgrant, hproof⟩ := bootstrapInitAction_create hinit
      exact .inr ⟨e, rfl, h.granted job hj hgrant, fun hg => (hproof hg).imp Option.some.inj id⟩
    case h_2 => exact .inl rfl
  have hlog : verdictSinceConnect (job.notes k ++ w.log) = verdictSinceConnect w.log ∧
      spentAcks (job.notes k ++ w.log) = spentAcks w.log ∧
      everPinned (job.notes k ++ w.log) = everPinned w.log := by
    rcases hnotes with hn | ⟨e, hn, -⟩ <;> rw [hn] <;> exact ⟨rfl, rfl, rfl⟩
  obtain ⟨hverdict, hspent, hpinned⟩ := hlog
  refine ⟨?_, h.vanished, ?_, ?_, ?_, ?_, ?_⟩
  · rw [hverdict]
    exact h.armed
  · rw [hspent]
    exact h.pin
  · rw [hpinned]
    exact h.kept
  · rintro j r ⟨⟩ hr hs
    simp only [DiscoveryJob.run] at hr
    split at hr
    · cases hr
      obtain ⟨id, hid, hreport⟩ := runBootstrap_uniqueId hs
      exact ⟨id, hreport, KopiaAnswers.reportsId_ok hk hid⟩
    · exact h.reports job r hj hr hs
  · rintro j ⟨⟩
    exact h.granted job hj
  · intro l g e he
    rcases List.mem_append.mp he with he | he
    · rcases hnotes with hn | ⟨e', hn, hcreated⟩
      · rw [hn] at he
        cases he
      · rw [hn, List.mem_singleton] at he
        cases he
        exact hcreated
    · exact h.created l g e he

theorem frame (h : ReinitInv w) {w' : World} (hstatus : w'.status = w.status)
    (hlog : w'.log = w.log)
    (hjob : ∀ j', w'.job = some j' → ∃ j, w.job = some j ∧ j'.report = j.report ∧ j'.op = j.op ∧
      j'.launch = j.launch) : ReinitInv w' := by
  refine ⟨?_, ?_, ?_, ?_, ?_, ?_, ?_⟩
  · rw [hstatus, hlog]
    exact h.armed
  · rw [hstatus]
    exact h.vanished
  · rw [hstatus, hlog]
    exact h.pin
  · rw [hstatus, hlog]
    exact h.kept
  · intro j' r hj' hr
    obtain ⟨j, hj, hreport, -⟩ := hjob j' hj'
    exact h.reports j r hj (hreport ▸ hr)
  · intro j' hj'
    obtain ⟨j, hj, -, hop, hlaunch⟩ := hjob j' hj'
    rw [hop, hlaunch]
    exact h.granted j hj
  · rw [hlog]
    exact h.created

theorem act (h : ReinitInv w) {a : RepoAction} (ha : a.reportsId = true) {w' : World}
    (hstep : w.act rfc a = some w') : ReinitInv w' := by
  have hkeep : ∀ j', w.job = some j' → ∃ j, w.job = some j ∧ j'.report = j.report ∧
      j'.op = j.op ∧ j'.launch = j.launch := fun j' hj' => ⟨j', hj', rfl, rfl, rfl⟩
  cases a with
  | pass i calls =>
    cases hstep
    exact (h.pass ha).applyAll_take calls
  | runJob k written =>
    obtain ⟨job, hj, -, rfl⟩ := World.act_runJob hstep
    exact h.runJob hj ha written
  | listJob =>
    obtain ⟨job, hj, -, rfl⟩ := World.act_listJob hstep
    refine h.frame rfl rfl ?_
    rintro j' ⟨⟩
    exact ⟨job, hj, rfl, rfl, rfl⟩
  | finishJob terminal =>
    obtain ⟨job, hj, -, -, -, rfl⟩ := World.act_finishJob hstep
    refine h.frame rfl rfl ?_
    rintro j' ⟨⟩
    exact ⟨job, hj, rfl, rfl, rfl⟩
  | reapJob =>
    obtain ⟨job, -, -, rfl⟩ := World.act_reapJob hstep
    refine h.frame rfl rfl ?_
    rintro j' ⟨⟩
  | acknowledge ack | requestReverify token | requestScan token | clearRequest | editSpec spec
  | store contents =>
    cases hstep
    exact h.frame rfl rfl hkeep
  | advance t =>
    obtain ⟨-, rfl⟩ := World.act_advance hstep
    exact h.frame rfl rfl hkeep

theorem step (h : ReinitInv w) {a : RepoAction} (ha : a.reportsId = true) {w' : World}
    (hstep : w.step rfc a = some w') : ReinitInv w' := by
  obtain ⟨v, hv, rfl⟩ := World.step_of_act rfc hstep
  exact (h.act ha hv).frame rfl rfl fun j' hj' => ⟨j', hj', rfl, rfl, rfl⟩

end ReinitInv

/-- A bootstrap that was launched after an id was pinned creates a repository
only under an acknowledgment of the pinned id, and only where the backend
proved empty. -/
theorem reinitialize_needs_acknowledgment (rfc : Rfc3339) (now : DateTime) (repo : Repository)
    (contents : List String) {w : World}
    (run : Reaches (World.step rfc) (fun _ a => a.reportsId = true) (.fresh now repo contents) w)
    {l : Launch} {g : CreateGrant} {e : ConnectError} (created : .created l g e ∈ w.log)
    (pinned : l.pinnedBefore = true) :
    g = .reinitAck ∧ Acknowledged l ∧ e.cls = .notFound ∧ e.uninitialized = true := by
  have inv : ReinitInv w :=
    run.invariant ReinitInv (.fresh now repo contents) fun _ _ _ h ha hstep => h.step ha hstep
  obtain ⟨hgrant, hproof⟩ := inv.created l g e created
  cases g with
  | denied => exact hgrant.elim
  | enabled =>
    rw [show l.pinnedBefore = false from hgrant] at pinned
    cases pinned
  | reinitAck => exact ⟨rfl, hgrant, hproof rfl⟩

/-- A repository is created as `u`; a strict bootstrap finds it gone, and an
acknowledgment of `u` re-creates it as `v`. -/
def recreation : List RepoAction :=
  bootstrapRound (wiped "u") .complete 10 ++ [.requestReverify (some "r"), fullPass] ++
    bootstrapRound (wiped "x") (.failed false) 20 ++ [.acknowledge (some "u"), fullPass] ++
    bootstrapRound (wiped "v") .complete 30

theorem reinitialize_needs_acknowledgment_run :
    ∃ w l e, Reaches (World.step decimalTimes) (fun _ a => a.reportsId = true)
        (.fresh 0 { generation := 1, spec := {} } []) w ∧
      .created l .reinitAck e ∈ w.log ∧ l.pinnedBefore = true ∧ Acknowledged l := by
  obtain ⟨w, hreach, hlog⟩ : ∃ w, Reaches (World.step decimalTimes) (fun _ a => a.reportsId = true)
      (.fresh 0 { generation := 1, spec := {} } []) w ∧ (w.log.any fun e =>
        match e with
        | .created l .reinitAck _ => l.pinnedBefore
        | _ => false) = true := exists_reaches recreation (by decide)
  obtain ⟨event, hevent, hcreated⟩ := List.any_eq_true.mp hlog
  split at hcreated
  case h_1 l e =>
    exact ⟨w, l, e, hreach, hevent, hcreated,
      (reinitialize_needs_acknowledgment decimalTimes 0 _ [] hreach hevent hcreated).2.1⟩
  case h_2 => cases hcreated

def lastCreate (w : World) : Option (Launch × CreateGrant) :=
  match w.log.head? with
  | some (.created l g _) => some (l, g)
  | _ => none

theorem exists_lastCreate {ok : World → RepoAction → Prop} [∀ w a, Decidable (ok w a)] {start : World}
    {grant : CreateGrant} {P : Launch → World → Prop} [∀ l w, Decidable (P l w)]
    (actions : List RepoAction)
    (h : (runSteps (World.step decimalTimes) ok start actions).any (fun w => decide
      (∃ c ∈ lastCreate w, c.2 = grant ∧ P c.1 w)) = true) :
    ∃ w l, Reaches (World.step decimalTimes) ok start w ∧ lastCreate w = some (l, grant) ∧ P l w := by
  obtain ⟨w, hreach, ⟨l, g⟩, hl, rfl, hp⟩ := exists_reaches actions h
  exact ⟨w, l, hreach, hl, hp⟩

/-- Three creates after a pin: one under the acknowledgment that has already
re-created the repository, since a copy of it was connected in between; one by a
Job that was launched before the pin; and one under a verdict that an in-process
connect came after. -/
theorem reinitialize_beyond_acknowledgment :
    (∃ w l, Reaches (World.step decimalTimes) (fun _ a => a.reportsId = true)
        (.fresh 0 { generation := 1, spec := {} } []) w ∧
      lastCreate w = some (l, .reinitAck) ∧ l.ack = some "u" ∧ .recreated "u" "v" ∈ w.log) ∧
    (∃ w l, Reaches (World.step decimalTimes) (fun _ a => a.reportsId = true)
        (.fresh 0 { generation := 1, spec := {} } []) w ∧
      lastCreate w = some (l, .enabled) ∧ w.status.uniqueId = some "u" ∧ w.repo.reinitAck = none) ∧
    ∃ w l, Reaches (World.step decimalTimes) (fun _ a => a.reportsId = true)
        (.fresh 0 { generation := 1, spec := { backend := .filesystem false } } []) w ∧
      lastCreate w = some (l, .reinitAck) ∧ .connected true ∈ w.log ∧
        .verdict ∉ w.log.takeWhile fun e => e != .connected true := by
  refine ⟨exists_lastCreate (recreation ++
      -- re-pointed to a copy of the first repository, which is then wiped too
      [.editSpec {}, fullPass] ++ bootstrapRound (present "u") .complete 40 ++
      [.requestReverify (some "s"), fullPass] ++ bootstrapRound (wiped "x") (.failed false) 50 ++
      [.reapJob, fullPass, .runJob (wiped "y") true]) (by decide), ?_, ?_⟩
  · exact exists_lastCreate [fullPass, .editSpec { backend := .filesystem false },
      .pass { kopia := present "u" } 10, .runJob (wiped "x") true] (by decide)
  · exact exists_lastCreate [.pass { kopia := present "u" } 10, .pass { kopia := wiped "x" } 10,
      .editSpec { backend := .filesystem false }, .pass { kopia := present "u" } 10,
      .editSpec {}, fullPass, .acknowledge (some "u"), .runJob (present "u") true,
      .advance 9000000000, .finishJob .complete, fullPass, fullPass, .runJob (wiped "v") true]
      (by decide)

end Kopiur
