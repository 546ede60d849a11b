import Kopiur.Controller.MaintenanceWrites
import Kopiur.Controller.ReplicationPass
import Kopiur.Controller.ScheduleRuns

/-!
# The status writes of a SnapshotReplication

A pass writes what it has to say of a request and one report of its own. A
request that has to wait is recorded again by every pass.
-/

namespace Kopiur

open Lib

namespace SnapshotReplication

-- What a pass has to say

inductive Report
  | nothing
  | ready (outcome : ReadyOutcome) (reason message : String)
      (phase : Option SnapshotReplicationPhase) (overlap : Option OverlapVerdict)
  | heal
  | park (waiting : String)
deriving DecidableEq

section Causes

variable (engine : CronEngine) (times : RunTimes) (env : Env) (view : JobsView)
  (r : SnapshotReplication)

def drives : Bool :=
  env.specValid && !r.suspend && env.resolved && env.sourceReady && env.destReady &&
    env.destWritable && match env.overlap with
      | .stall _ => false
      | .none | .warn _ => true

def drivePhase (request : RunRequest) : Option ManualRunPhase :=
  match view.job (manualReplicationJobName r.name request.at') with
  | some (some true) => some .succeeded
  | some (some false) => some .failed
  | some none => none
  | none =>
    if recordedRunning r.status.manualRun request then some .failed
    else if view.active then some .pending
    else
      match env.pool with
      | .park _ => some .pending
      | .admitted _ => some .running

def phaseOf (request : RunRequest) : Option ManualRunPhase :=
  if env.specValid && r.suspend then
    if recordedRunning r.status.manualRun request then none else some .pending
  else if r.drives env then r.drivePhase env view request
  else none

def requestPhase : Option (RunRequest × ManualRunPhase) :=
  match r.manualRunRequest times with
  | .ok none | .error _ => none
  | .ok (some request) => (r.phaseOf env view request).map (request, ·)

def waits : Bool := (r.requestPhase times env view).any fun p => p.2 == .pending

def slotReport (stall : Option RunStall) : Report :=
  match r.dueSlot engine times view.now env.defaults with
  | none =>
    let (ready, reason, message) := idleReport stall
    .ready (if ready then .ready else .stalled) reason message (if ready then none else some .failed)
      (some env.overlap)
  | some slot =>
    match view.job (snapshotReplicationJobName r.name slot) with
    | some (some true) => .nothing
    | some (some false) =>
      .ready .stalled "ReplicationFailed" "snapshot-replication Job failed; see the Job/pod logs"
        (some .failed) (some env.overlap)
    | some none => .heal
    | none =>
      if view.active then .nothing
      else
        match env.pool with
        | .park waiting => .park waiting
        | .admitted _ => .heal

def driveReport : Report :=
  match r.manualRunRequest times with
  | .ok none => r.slotReport engine times env view none
  | .error message => r.slotReport engine times env view (some ⟨"InvalidRunRequest", message⟩)
  | .ok (some request) =>
    match view.job (manualReplicationJobName r.name request.at') with
    | some (some true) => r.slotReport engine times env view none
    | some (some false) =>
      r.slotReport engine times env view (some ⟨"ReplicationFailed",
        "requested snapshot-replication Job failed; see the Job/pod logs"⟩)
    | some none => .heal
    | none =>
      if recordedRunning r.status.manualRun request then
        r.slotReport engine times env view (some ⟨"ManualRunOutcomeLost",
          "the requested snapshot-replication Job was gone before its result was read. Fix: " ++
            "re-annotate to run it again"⟩)
      else if view.active then .nothing
      else
        match env.pool with
        | .park waiting => .park waiting
        | .admitted _ => .heal

/-- What the pass says of itself. -/
def report : Report :=
  if !env.specValid then .nothing
  else if r.suspend then
    let (reason, message) := suspendedReport (r.manualRunRequest times).toOption.join.isSome
    .ready .reconciling reason message (some .suspended) none
  else if !env.resolved then .nothing
  else if !env.sourceReady then
    .ready .reconciling "WaitingForSourceRepository"
      "source repository is not Ready; deferring replication" none none
  else if !env.destReady then
    .ready .reconciling "WaitingForDestinationRepository"
      "destination repository is not Ready; deferring replication" none none
  else if !env.destWritable then
    .ready .stalled "DestinationReadOnly"
      ("destination repository is ReadOnly. Fix: set its spec.mode to ReadWrite, or " ++
        "point destinationRef at another repository") none none
  else
    match env.overlap with
    | .stall identities =>
      .ready .stalled "ReplicationIdentityOverlap"
        ("pruning: mirrorSource would delete backups a destination SnapshotPolicy writes to the " ++
          "same identities (" ++ identitySample identities ++ "). Fix: exclude them in " ++
          "spec.selection, change the destination policy's identity, or turn off mirrorSource")
        none (some env.overlap)
    | .none | .warn _ => r.driveReport engine times env view

def Report.calls (env : Env) (now : DateTime) (r : SnapshotReplication) :
    Report → List ReplicationCall
  | .nothing => []
  | .ready outcome reason message phase overlap =>
    r.patchReadyIfChanged now outcome reason message phase overlap
  | .heal => healReplicationSlotCondition env now r
  | .park waiting => parked now waiting r

def requestCalls : List ReplicationCall :=
  match r.requestPhase times env view with
  | none => []
  | some (request, phase) => r.patchManualRun (manualRunStatus times request phase view.now)

end Causes

-- The writes of a pass

section Calls

variable {engine : CronEngine} {times : RunTimes} {env : Env} {view : JobsView}
  {r : SnapshotReplication}

theorem patches_runDueSlot (stall : Option RunStall) :
    patches (r.runDueSlot engine times env view stall) =
      patches ((r.slotReport engine times env view stall).calls env view.now r) := by
  unfold runDueSlot slotReport
  cases hdue : r.dueSlot engine times view.now env.defaults with
  | none => rfl
  | some slot =>
    cases hjob : view.job (snapshotReplicationJobName r.name slot) with
    | some terminal => rcases terminal with _ | _ | _ <;> simp only [hjob] <;> rfl
    | none =>
      simp only [hjob]
      cases hactive : view.active with
      | true => rfl
      | false => cases hpool : env.pool <;> rfl

theorem patches_driveSchedule (hsuspend : r.suspend = false) (hdrives : r.drives env = true) :
    patches (r.driveSchedule engine times env view) =
        patches (r.requestCalls times env view) ++
          patches ((r.driveReport engine times env view).calls env view.now r) ∨
      patches (r.driveSchedule engine times env view) =
        patches ((r.driveReport engine times env view).calls env view.now r) ++
          patches (r.requestCalls times env view) := by
  unfold driveSchedule driveReport requestCalls requestPhase
  cases hrequest : r.manualRunRequest times with
  | error message => exact .inl (patches_runDueSlot _)
  | ok request =>
    rcases request with _ | request
    · exact .inl (patches_runDueSlot _)
    · simp only [handleManualRun, phaseOf, hsuspend, hdrives, drivePhase, Bool.and_false,
        Bool.false_eq_true, if_false, if_true]
      cases hjob : view.job (manualReplicationJobName r.name request.at') with
      | some terminal =>
        rcases terminal with _ | _ | _
        · exact .inl rfl
        · exact .inl (by simp [patches_runDueSlot])
        · exact .inl (by simp [patches_runDueSlot])
      | none =>
        dsimp only
        cases hrunning : recordedRunning r.status.manualRun request with
        | true => exact .inl (by simp [patches_runDueSlot])
        | false =>
          cases hactive : view.active with
          | true => exact .inl (by simp [Report.calls])
          | false =>
            cases hpool : env.pool with
            | park waiting => exact .inr (by simp [Report.calls])
            | admitted acquired => exact .inr (by simp [Report.calls])

theorem requestCalls_gated (hsuspend : (env.specValid && r.suspend) = false)
    (hdrives : r.drives env = false) : r.requestCalls times env view = [] := by
  unfold requestCalls requestPhase
  cases hrequest : r.manualRunRequest times with
  | error message => rfl
  | ok request =>
    cases request with
    | none => rfl
    | some request => simp [phaseOf, hsuspend, hdrives]

theorem patches_suspended (hvalid : env.specValid = true) (hsuspend : r.suspend = true) :
    patches (r.suspended times view.now) =
      patches (r.requestCalls times env view) ++
        patches ((r.report engine times env view).calls env view.now r) := by
  unfold suspended report requestCalls requestPhase
  simp only [hvalid, hsuspend, Bool.not_true, Bool.false_eq_true, if_false, if_true]
  cases hrequest : r.manualRunRequest times with
  | error message => rfl
  | ok request =>
    cases request with
    | none => rfl
    | some request =>
      have hpending : ((Except.ok (some request) : Except String _).toOption.join) = some request := rfl
      simp only [hpending, Option.bind_some, suspendedManualRun, phaseOf, hvalid, hsuspend]
      cases hrunning : recordedRunning r.status.manualRun request <;> simp [Report.calls]

theorem patches_reconcile :
    patches (r.reconcile engine times env view) =
        patches (r.requestCalls times env view) ++
          patches ((r.report engine times env view).calls env view.now r) ∨
      patches (r.reconcile engine times env view) =
        patches ((r.report engine times env view).calls env view.now r) ++
          patches (r.requestCalls times env view) := by
  by_cases hgated : (env.specValid && r.suspend) = true
  · obtain ⟨hvalid, hsuspend⟩ := by simpa using hgated
    left
    rw [← patches_suspended hvalid hsuspend]
    simp [reconcile, hvalid, hsuspend]
  · cases hdrives : r.drives env with
    | true =>
      obtain ⟨⟨⟨⟨⟨⟨hvalid, hsuspend⟩, hresolved⟩, hsource⟩, hdest⟩, hwritable⟩, hoverlap⟩ := by
        simpa [drives] using hdrives
      have hcalls : r.reconcile engine times env view = r.driveSchedule engine times env view := by
        cases hov : env.overlap with
        | stall identities => simp [hov] at hoverlap
        | none => simp [reconcile, hvalid, hsuspend, hresolved, hsource, hdest, hwritable, hov]
        | warn identities =>
          simp [reconcile, hvalid, hsuspend, hresolved, hsource, hdest, hwritable, hov]
      have hreport : r.report engine times env view = r.driveReport engine times env view := by
        cases hov : env.overlap with
        | stall identities => simp [hov] at hoverlap
        | none => simp [report, hvalid, hsuspend, hresolved, hsource, hdest, hwritable, hov]
        | warn identities =>
          simp [report, hvalid, hsuspend, hresolved, hsource, hdest, hwritable, hov]
      rw [hcalls, hreport]
      exact patches_driveSchedule hsuspend hdrives
    | false =>
      left
      rw [requestCalls_gated (by simpa using hgated) hdrives]
      rw [patches_nil, List.nil_append]
      unfold reconcile report
      cases hvalid : env.specValid with
      | false => rfl
      | true =>
        have hsuspend : r.suspend = false := by simpa [hvalid] using hgated
        cases hresolved : env.resolved with
        | false => simp [hsuspend, Report.calls]
        | true =>
          cases hsource : env.sourceReady with
          | false => simp [hsuspend, Report.calls]
          | true =>
            cases hdest : env.destReady with
            | false => simp [hsuspend, Report.calls]
            | true =>
              cases hwritable : env.destWritable with
              | false => simp [hsuspend, Report.calls]
              | true =>
                cases hov : env.overlap with
                | stall identities => simp [hsuspend, Report.calls]
                | none => simp [drives, hvalid, hsuspend, hresolved, hsource, hdest, hwritable, hov] at hdrives
                | warn identities =>
                  simp [drives, hvalid, hsuspend, hresolved, hsource, hdest, hwritable, hov] at hdrives

end Calls

-- The object after a pass

def storedConditions (r : SnapshotReplication) : List StatusCondition := r.status.conditions

def requestWrite (times : RunTimes) (env : Env) (view : JobsView) (r : SnapshotReplication) :
    Option ReplicationManualRunStatus :=
  (r.requestPhase times env view).bind fun (request, phase) =>
    if statusMergePatchIsNoop r.status.manualRun (manualRunStatus times request phase view.now) then
      none
    else some (manualRunStatus times request phase view.now)

section Effects

variable {engine : CronEngine} {times : RunTimes} {env : Env} {view : JobsView} {now : DateTime}
  {r r' : SnapshotReplication}

theorem patches_requestCalls : patches (r.requestCalls times env view) =
    (r.requestWrite times env view).toList.map .manualRun := by
  unfold requestCalls requestWrite
  cases r.requestPhase times env view with
  | none => rfl
  | some p =>
    obtain ⟨request, phase⟩ := p
    dsimp only [Option.bind_some]
    unfold patchManualRun
    split <;> simp

/-- The conditions say this outcome, and the overlap where there is a verdict. -/
def readySays (r : SnapshotReplication) (outcome : ReadyOutcome) (reason : String)
    (overlap : Option OverlapVerdict) : Bool :=
  ((overlap.map overlapConditionFields).all fun fields =>
    (StatusCondition.find r.status.conditions identityOverlapCondition).any fun c =>
      c.status == fields.1 && c.reason == fields.2.1 && c.message == fields.2.2) &&
    (StatusCondition.find r.status.conditions readyCondition).any fun c =>
      c.status == (if outcome == .ready then ConditionStatus.true else .false) && c.reason == reason

def readyConditions (now : DateTime) (r : SnapshotReplication) (outcome : ReadyOutcome)
    (reason message : String) (overlap : Option OverlapVerdict) : List StatusCondition :=
  let conditions := StatusCondition.setReady now r.status.conditions (some (r.generation.getD 0))
    outcome reason message
  match overlap.map overlapConditionFields with
  | some fields =>
    StatusCondition.upsertStatus now conditions identityOverlapCondition fields.1 fields.2.1 fields.2.2
      (some (r.generation.getD 0))
  | none => conditions

section ReadyWrite

variable {outcome : ReadyOutcome} {reason message : String}
  {phase : Option SnapshotReplicationPhase} {overlap : Option OverlapVerdict}

theorem patchReadyIfChanged_eq :
    r.patchReadyIfChanged now outcome reason message phase overlap =
      if r.readySays outcome reason overlap then []
      else [.patch (.ready (r.readyConditions now outcome reason message overlap) phase)] := by
  cases overlap <;> rfl

theorem patches_patchReadyIfChanged :
    patches (r.patchReadyIfChanged now outcome reason message phase overlap) =
      if r.readySays outcome reason overlap then []
      else [.ready (r.readyConditions now outcome reason message overlap) phase] := by
  rw [patchReadyIfChanged_eq]
  split <;> rfl

end ReadyWrite

theorem patches_heal : patches (healReplicationSlotCondition env now r) =
    if slotGateIsFalse r.status.conditions && env.healed then
      [.slotAcquired now env.slotMessage] else [] := by
  unfold healReplicationSlotCondition
  split <;> rfl

theorem patches_parked {waiting : String} : patches (parked now waiting r) =
    if StatusCondition.upsert now r.status.conditions repositorySlotAvailableCondition false
      "WaitingForSlot" waiting r.generation = r.status.conditions then []
    else [.conditions (StatusCondition.upsert now r.status.conditions
      repositorySlotAvailableCondition false "WaitingForSlot" waiting r.generation)] := by
  unfold parked
  dsimp only
  split <;> rfl

def WritesConditions (p : ReplicationPatch) : Prop :=
  (∀ x : SnapshotReplication, ∃ phase, patch p x =
    { x with status := { x.status with phase, conditions := storedConditions (patch p x) } }) ∧
    ∀ manual (x : SnapshotReplication),
      storedConditions (patch p (patch (.manualRun manual) x)) = storedConditions (patch p x)

theorem patches_report (report : Report) :
    patches (report.calls env now r) = [] ∨ ∃ p, patches (report.calls env now r) = [p] ∧
      WritesConditions p := by
  cases report with
  | nothing => exact .inl rfl
  | ready outcome reason message phase overlap =>
    rw [Report.calls, patches_patchReadyIfChanged]
    split
    · exact .inl rfl
    · exact .inr ⟨_, rfl, fun x => ⟨_, rfl⟩, fun _ _ => rfl⟩
  | heal =>
    rw [Report.calls, patches_heal]
    split
    · exact .inr ⟨_, rfl, fun x => ⟨_, rfl⟩, fun _ _ => rfl⟩
    · exact .inl rfl
  | park waiting =>
    rw [Report.calls, patches_parked]
    split
    · exact .inl rfl
    · exact .inr ⟨_, rfl, fun x => ⟨_, rfl⟩, fun _ _ => rfl⟩

def reported (env : Env) (now : DateTime) (r : SnapshotReplication) (report : Report) :
    List StatusCondition :=
  storedConditions ((patches (report.calls env now r)).foldl (fun r p => patch p r) r)

theorem patched_reconcile : ∃ phase,
    (kind engine times).patched r (patches (r.reconcile engine times env view)) =
      { r with
        status :=
          { r.status with
            phase
            conditions := r.reported env view.now (r.report engine times env view)
            manualRun := r.requestWrite times env view <|> r.status.manualRun } } := by
  have hrecord : ∀ manual (x : SnapshotReplication), patch (.manualRun manual) x =
      { x with status := { x.status with manualRun := some manual } } := fun _ _ => rfl
  unfold reported
  rcases @patches_report env view.now r (r.report engine times env view)
    with hnone | ⟨p, hone, hshape, hsame⟩
  · refine ⟨r.status.phase, ?_⟩
    rcases @patches_reconcile engine times env view r with h | h
    · rw [h, patches_requestCalls, hnone]
      cases r.requestWrite times env view <;> rfl
    · rw [h, patches_requestCalls, hnone]
      cases r.requestWrite times env view <;> rfl
  · rcases @patches_reconcile engine times env view r with h | h
    · rw [h, patches_requestCalls, hone]
      cases hwrite : r.requestWrite times env view with
      | none =>
        obtain ⟨phase, hpatch⟩ := hshape r
        exact ⟨phase, hpatch⟩
      | some manual =>
        obtain ⟨phase, hpatch⟩ := hshape (patch (.manualRun manual) r)
        refine ⟨phase, ?_⟩
        change patch p (patch (.manualRun manual) r) = _
        rw [hpatch, hsame]
        rfl
    · rw [h, patches_requestCalls, hone]
      obtain ⟨phase, hpatch⟩ := hshape r
      refine ⟨phase, ?_⟩
      cases hwrite : r.requestWrite times env view with
      | none => exact hpatch
      | some manual =>
        change patch (.manualRun manual) (patch p r) = _
        rw [hpatch]
        rfl

end Effects

section Reports

variable {env : Env} {now later : DateTime} {r r' : SnapshotReplication} {report : Report}

def stuck (env : Env) (now : DateTime) (r : SnapshotReplication) (report : Report) : Bool :=
  report == .heal && env.healed && slotGateIsFalse r.status.conditions &&
    slotGateIsFalse (slotAcquired now env.slotMessage r.generation r.status.conditions)

theorem find_readyConditions {outcome : ReadyOutcome} {reason message : String}
    {overlap : Option OverlapVerdict}
    (h : r'.status.conditions = r.readyConditions now outcome reason message overlap) :
    r'.readySays outcome reason overlap = true := by
  unfold readySays
  rw [h]
  obtain ⟨t, ht⟩ := @StatusCondition.find_setReady now r.status.conditions reason message
    (some (r.generation.getD 0)) outcome
  cases overlap with
  | none => simp [readyConditions, ht]
  | some verdict =>
    obtain ⟨t', ht'⟩ := @StatusCondition.find_upsertStatus_same now
      (StatusCondition.setReady now r.status.conditions (some (r.generation.getD 0)) outcome reason
        message) identityOverlapCondition (overlapConditionFields verdict).1
      (overlapConditionFields verdict).2.1 (overlapConditionFields verdict).2.2
      (some (r.generation.getD 0))
    have hready := @StatusCondition.find_upsertStatus_other now
      (StatusCondition.setReady now r.status.conditions (some (r.generation.getD 0)) outcome reason
        message) identityOverlapCondition readyCondition (overlapConditionFields verdict).1
      (overlapConditionFields verdict).2.1 (overlapConditionFields verdict).2.2
      (some (r.generation.getD 0)) (by decide)
    simp [readyConditions, ht', hready, ht]

theorem patches_again (hstuck : stuck env now r report = false)
    (hgeneration : r'.generation = r.generation)
    (hconditions : r'.status.conditions = r.reported env now report) :
    patches (report.calls env later r') = [] := by
  unfold reported at hconditions
  cases report with
  | nothing => rfl
  | ready outcome reason message phase overlap =>
    rw [Report.calls, patches_patchReadyIfChanged] at hconditions ⊢
    suffices hsaid : r'.readySays outcome reason overlap = true by rw [hsaid]; rfl
    split at hconditions
    · next h =>
      unfold readySays at h ⊢
      rw [hconditions]
      exact h
    · exact find_readyConditions hconditions
  | heal =>
    rw [Report.calls, patches_heal] at hconditions ⊢
    split at hconditions
    · next h =>
      have hturned : slotGateIsFalse r'.status.conditions = false := by
        rw [hconditions]
        simp only [Bool.and_eq_true] at h
        change slotGateIsFalse (slotAcquired now env.slotMessage r.generation
          r.status.conditions) = false
        simpa [stuck, h.1, h.2] using hstuck
      simp [hturned]
    · next h =>
      rw [hconditions]
      exact if_neg h
  | park waiting =>
    rw [Report.calls, patches_parked] at hconditions ⊢
    rw [hgeneration]
    apply if_pos
    split at hconditions
    · next h =>
      rw [hconditions]
      change StatusCondition.upsert later r.status.conditions _ _ _ _ _ = r.status.conditions
      rw [← h]
      exact StatusCondition.upsertStatus_again
    · rw [hconditions]
      exact StatusCondition.upsertStatus_again

end Reports

-- Passes that follow each other

section Requests

variable {times : RunTimes} {env : Env} {view view' : JobsView} {r r' : SnapshotReplication}

def stage (times : RunTimes) (r : SnapshotReplication) : Nat :=
  match r.manualRunRequest times with
  | .ok none | .error _ => 0
  | .ok (some request) => if recordedRunning r.status.manualRun request then 1 else 2

theorem manualRunRequest_some {request : RunRequest}
    (h : r.manualRunRequest times = .ok (some request)) :
    r.requested = some request.raw ∧ ∀ r' : SnapshotReplication, r'.requested = r.requested →
      r'.status.manualRun.any (fun m => answers m request.raw) = false →
      r'.manualRunRequest times = .ok (some request) := by
  unfold manualRunRequest at h
  cases hraw : r.requested with
  | none => simp [hraw] at h
  | some raw =>
    simp only [hraw] at h
    split at h
    · simp at h
    · cases hparse : parseRunRequestedAt times (some raw)
          "kubectl kopiur replication run --kind snapshot" with
      | error message => simp [hparse, bind, Except.bind] at h
      | ok parsed =>
        cases parsed with
        | none => simp [hparse, bind, Except.bind] at h
        | some t =>
          obtain rfl : (⟨raw, t⟩ : RunRequest) = request := by
            simpa [hparse, bind, Except.bind] using h
          refine ⟨rfl, fun r' hrequested hanswers => ?_⟩
          simp [manualRunRequest, hrequested, hanswers, hparse, bind, Except.bind]

theorem manualRunRequest_congr (hrequested : r'.requested = r.requested)
    (hmanual : r'.status.manualRun = r.status.manualRun) :
    r'.manualRunRequest times = r.manualRunRequest times := by
  simp only [manualRunRequest, hrequested, hmanual]

theorem phaseOf_cases {request : RunRequest} {phase : ManualRunPhase}
    (h : r.phaseOf env view request = some phase) :
    phase.answersRequest = true ∨
      (phase = .running ∨ phase = .pending) ∧ recordedRunning r.status.manualRun request = false := by
  unfold phaseOf at h
  split at h
  · split at h
    · cases h
    · next hrunning =>
      cases h
      exact .inr ⟨.inr rfl, by simpa using hrunning⟩
  · split at h
    · unfold drivePhase at h
      split at h
      · cases h
        exact .inl rfl
      · cases h
        exact .inl rfl
      · cases h
      · split at h
        · cases h
          exact .inl rfl
        · next hrunning =>
          have hrunning : recordedRunning r.status.manualRun request = false := by simpa using hrunning
          split at h
          · cases h
            exact .inr ⟨.inr rfl, hrunning⟩
          · split at h
            · cases h
              exact .inr ⟨.inr rfl, hrunning⟩
            · cases h
              exact .inr ⟨.inl rfl, hrunning⟩
    · cases h

theorem phaseOf_congr {request : RunRequest} (hname : r'.name = r.name)
    (hsuspend : r'.suspend = r.suspend) (hjob : view'.job = view.job)
    (hactive : view'.active = view.active)
    (hrunning : recordedRunning r'.status.manualRun request =
      recordedRunning r.status.manualRun request) :
    r'.phaseOf env view' request = r.phaseOf env view request := by
  simp only [phaseOf, drives, drivePhase, hname, hsuspend, hjob, hactive, hrunning]
  rfl

theorem requestWrite_some {manual : ReplicationManualRunStatus}
    (h : r.requestWrite times env view = some manual) :
    ∃ request phase, r.manualRunRequest times = .ok (some request) ∧
      r.phaseOf env view request = some phase ∧
        manual = manualRunStatus times request phase view.now := by
  obtain ⟨⟨request, phase⟩, hphase, hwrite⟩ := Option.bind_eq_some_iff.mp h
  unfold requestPhase at hphase
  split at hphase
  · cases hphase
  · cases hphase
  · next request' hrequest =>
    obtain ⟨phase', hof, heq⟩ := Option.map_eq_some_iff.mp hphase
    cases heq
    dsimp only at hwrite
    split at hwrite
    · cases hwrite
    · exact ⟨request, phase, hrequest, hof, (Option.some_inj.mp hwrite).symm⟩

theorem not_noop_of_null {current : Option ReplicationManualRunStatus}
    {desired : ReplicationManualRunStatus} (h : desired.completedAt = none) :
    statusMergePatchIsNoop current desired = false := by
  cases current with
  | none => rfl
  | some c =>
    have hne : mergePatch (manualRunJson c) (manualRunJson desired) ≠ manualRunJson c := by
      intro heq
      have hkey := congrArg ManualRunJson.completedAt heq
      simp only [mergePatch, mergeKey, manualRunJson, h] at hkey
      split at hkey <;> cases hkey
    simpa [statusMergePatchIsNoop] using hne

theorem waits_iff : r.waits times env view = true ↔ ∃ request,
    r.manualRunRequest times = .ok (some request) ∧ r.phaseOf env view request = some .pending := by
  unfold waits requestPhase
  split
  · next h => simp [h]
  · next h => simp [h]
  · next request h => cases hphase : r.phaseOf env view request <;> simp [h, hphase]

theorem requestWrite_of_waits (h : r.waits times env view = true) :
    r.requestWrite times env view ≠ none := by
  obtain ⟨request, hrequest, hphase⟩ := waits_iff.mp h
  simp [requestWrite, requestPhase, hrequest, hphase, not_noop_of_null, manualRunStatus]

section After

variable {request : RunRequest} {phase : ManualRunPhase} {now : DateTime}
  (hrequest : r.manualRunRequest times = .ok (some request))
  (hrequested : r'.requested = r.requested)
  (hmanual : r'.status.manualRun = some (manualRunStatus times request phase now))

include hrequest hrequested hmanual

theorem manualRunRequest_answered (hphase : phase.answersRequest = true) :
    r'.manualRunRequest times = .ok none := by
  obtain ⟨hraw, -⟩ := manualRunRequest_some hrequest
  simp [manualRunRequest, hrequested, hraw, hmanual, answers, manualRunStatus, hphase]

theorem manualRunRequest_kept (hphase : phase.answersRequest = false) :
    r'.manualRunRequest times = .ok (some request) ∧
      recordedRunning r'.status.manualRun request = phase.impliesJobLaunched := by
  obtain ⟨-, hkept⟩ := manualRunRequest_some hrequest
  constructor
  · exact hkept r' hrequested (by simp [hmanual, answers, manualRunStatus, hphase])
  · simp [hmanual, recordedRunning, manualRunStatus]

end After

end Requests

section Passes

variable (engine : CronEngine) (times : RunTimes) (still : Stillness Env) (clock : Nat → DateTime)
  (r : SnapshotReplication)

def object (n : Nat) : SnapshotReplication := (kind engine times).object still clock r n

def objectReport (n : Nat) : Report :=
  (object engine times still clock r n).report engine times still.env (still.view (clock n))

def NoneBecomesDue : Prop :=
  ∀ n due,
    (object engine times still clock r (n + 1)).dueSlot engine times (clock (n + 1))
      still.env.defaults = some due →
    (object engine times still clock r n).dueSlot engine times (clock n) still.env.defaults = some due

def Stuck (n : Nat) : Prop :=
  stuck still.env (clock n) (object engine times still clock r n)
    (objectReport engine times still clock r n) = true

def outstanding (n : Nat) : Nat :=
  (object engine times still clock r n).stage times +
    if ((object engine times still clock r n).dueSlot engine times (clock n)
      still.env.defaults).isSome then 1 else 0

variable {engine times still clock r} {n : Nat}

theorem object_next : ∃ phase, object engine times still clock r (n + 1) =
    { object engine times still clock r n with
      status :=
        { (object engine times still clock r n).status with
          phase
          conditions := (object engine times still clock r n).reported still.env (clock n)
            (objectReport engine times still clock r n)
          manualRun := (object engine times still clock r n).requestWrite times still.env
            (still.view (clock n)) <|> (object engine times still clock r n).status.manualRun } } :=
  patched_reconcile

theorem object_fields :
    (object engine times still clock r (n + 1)).name = (object engine times still clock r n).name ∧
      (object engine times still clock r (n + 1)).suspend =
        (object engine times still clock r n).suspend ∧
      (object engine times still clock r (n + 1)).requested =
        (object engine times still clock r n).requested ∧
      (object engine times still clock r (n + 1)).generation =
        (object engine times still clock r n).generation ∧
      (object engine times still clock r (n + 1)).status.manualRun =
        ((object engine times still clock r n).requestWrite times still.env
          (still.view (clock n)) <|> (object engine times still clock r n).status.manualRun) ∧
      (object engine times still clock r (n + 1)).status.conditions =
        (object engine times still clock r n).reported still.env (clock n)
          (objectReport engine times still clock r n) := by
  obtain ⟨phase, hnext⟩ := @object_next engine times still clock r n
  rw [hnext]
  exact ⟨rfl, rfl, rfl, rfl, rfl, rfl⟩

/-- What a pass makes of the request: nothing, an answer, a Job, or the same
wait. -/
theorem request_next :
    ((object engine times still clock r n).requestWrite times still.env (still.view (clock n)) =
        none ∧
      (object engine times still clock r (n + 1)).status.manualRun =
        (object engine times still clock r n).status.manualRun) ∨
      ∃ request phase,
        (object engine times still clock r n).manualRunRequest times = .ok (some request) ∧
        (object engine times still clock r n).phaseOf still.env (still.view (clock n)) request =
          some phase ∧
        (object engine times still clock r (n + 1)).status.manualRun =
          some (manualRunStatus times request phase (clock n)) := by
  obtain ⟨-, -, -, -, hmanual, -⟩ := @object_fields engine times still clock r n
  cases hwrite : (object engine times still clock r n).requestWrite times still.env
      (still.view (clock n)) with
  | none => exact .inl ⟨rfl, by rw [hmanual, hwrite]; rfl⟩
  | some manual =>
    obtain ⟨request, phase, hrequest, hphase, rfl⟩ := requestWrite_some hwrite
    exact .inr ⟨request, phase, hrequest, hphase, by rw [hmanual, hwrite]; rfl⟩

theorem waits_succ : (object engine times still clock r (n + 1)).waits times still.env
      (still.view (clock (n + 1))) =
    (object engine times still clock r n).waits times still.env (still.view (clock n)) := by
  obtain ⟨hname, hsuspend, hrequested, -, -, -⟩ := @object_fields engine times still clock r n
  rw [Bool.eq_iff_iff, waits_iff, waits_iff]
  rcases @request_next engine times still clock r n with
    ⟨-, hmanual⟩ | ⟨request, phase, hrequest, hphase, hmanual⟩
  · have hsame : ∀ request,
        (object engine times still clock r (n + 1)).phaseOf still.env (still.view (clock (n + 1)))
            request =
          (object engine times still clock r n).phaseOf still.env (still.view (clock n)) request :=
      fun request => phaseOf_congr hname hsuspend rfl rfl
        (congrArg (recordedRunning · request) hmanual)
    simp only [manualRunRequest_congr hrequested hmanual, hsame]
  · cases hanswers : phase.answersRequest with
    | true =>
      rw [manualRunRequest_answered hrequest hrequested hmanual hanswers]
      constructor
      · rintro ⟨request', h, -⟩
        simp at h
      · rintro ⟨request', h, hpending⟩
        obtain rfl : request = request' := by simpa [hrequest] using h
        rw [hphase] at hpending
        cases hpending
        simp [ManualRunPhase.answersRequest] at hanswers
    | false =>
      obtain ⟨hkept, hrunning⟩ := manualRunRequest_kept hrequest hrequested hmanual hanswers
      obtain ⟨hphases, hbefore⟩ := (phaseOf_cases hphase).resolve_left (by simp [hanswers])
      rcases hphases with rfl | rfl
      · -- A Job is known now, and such a request does not wait.
        constructor
        · rintro ⟨request', h, hpending⟩
          obtain rfl : request = request' := by simpa [hkept] using h
          rcases phaseOf_cases hpending with h | ⟨-, h⟩
          · simp [ManualRunPhase.answersRequest] at h
          · rw [h] at hrunning
            simp [ManualRunPhase.impliesJobLaunched] at hrunning
        · rintro ⟨request', h, hpending⟩
          obtain rfl : request = request' := by simpa [hrequest] using h
          rw [hphase] at hpending
          cases hpending
      · have hsame :
            (object engine times still clock r (n + 1)).phaseOf still.env
                (still.view (clock (n + 1))) request =
              (object engine times still clock r n).phaseOf still.env (still.view (clock n))
                request :=
          phaseOf_congr hname hsuspend rfl rfl (hrunning.trans hbefore.symm)
        exact iff_of_true ⟨request, hkept, hsame.trans hphase⟩ ⟨request, hrequest, hphase⟩

theorem waits_iff_start (n : Nat) : (object engine times still clock r n).waits times still.env
    (still.view (clock n)) = r.waits times still.env (still.view (clock 0)) := by
  induction n with
  | zero => rfl
  | succ n ih => rw [waits_succ, ih]

theorem stage_next (hwaits : (object engine times still clock r n).waits times still.env
      (still.view (clock n)) = false) :
    ((object engine times still clock r n).requestWrite times still.env (still.view (clock n)) =
        none ∧
      (object engine times still clock r (n + 1)).status.manualRun =
        (object engine times still clock r n).status.manualRun ∧
      (object engine times still clock r (n + 1)).stage times =
        (object engine times still clock r n).stage times) ∨
      (object engine times still clock r (n + 1)).stage times <
        (object engine times still clock r n).stage times := by
  obtain ⟨-, -, hrequested, -, -, -⟩ := @object_fields engine times still clock r n
  rcases @request_next engine times still clock r n with
    ⟨hnone, hmanual⟩ | ⟨request, phase, hrequest, hphase, hmanual⟩
  · left
    refine ⟨hnone, hmanual, ?_⟩
    simp only [stage, manualRunRequest_congr hrequested hmanual, hmanual]
  · right
    cases hanswers : phase.answersRequest with
    | true =>
      have hafter := manualRunRequest_answered hrequest hrequested hmanual hanswers
      simp only [stage, hafter, hrequest]
      split <;> omega
    | false =>
      obtain ⟨hkept, hrunning⟩ := manualRunRequest_kept hrequest hrequested hmanual hanswers
      obtain ⟨hphases, hbefore⟩ := (phaseOf_cases hphase).resolve_left (by simp [hanswers])
      rcases hphases with rfl | rfl
      · simp only [stage, hkept, hrequest, hrunning, hbefore]
        decide
      · exact absurd (waits_iff.mpr ⟨request, hrequest, hphase⟩) (by simp [hwaits])

theorem report_next (hdue : (object engine times still clock r (n + 1)).dueSlot engine times
      (clock (n + 1)) still.env.defaults =
        (object engine times still clock r n).dueSlot engine times (clock n) still.env.defaults)
    (hmanual : (object engine times still clock r (n + 1)).status.manualRun =
      (object engine times still clock r n).status.manualRun) :
    objectReport engine times still clock r (n + 1) = objectReport engine times still clock r n := by
  obtain ⟨hname, hsuspend, hrequested, -, -, -⟩ := @object_fields engine times still clock r n
  have hslot : ∀ stall,
      (object engine times still clock r (n + 1)).slotReport engine times still.env
          (still.view (clock (n + 1))) stall =
        (object engine times still clock r n).slotReport engine times still.env
          (still.view (clock n)) stall := by
    intro stall
    simp only [slotReport, Stillness.view, hdue, hname]
    rfl
  simp only [objectReport, report, driveReport, hslot, manualRunRequest_congr hrequested hmanual,
    hmanual, hname, hsuspend]
  rfl

theorem outstanding_next (hdue : NoneBecomesDue engine times still clock r)
    (hwaits : (object engine times still clock r n).waits times still.env
      (still.view (clock n)) = false) :
    outstanding engine times still clock r (n + 1) ≤ outstanding engine times still clock r n ∧
      (outstanding engine times still clock r (n + 1) = outstanding engine times still clock r n →
        (object engine times still clock r n).requestWrite times still.env (still.view (clock n)) =
            none ∧
          objectReport engine times still clock r (n + 1) =
            objectReport engine times still clock r n) := by
  have hstage := stage_next hwaits
  unfold outstanding
  cases hafter : (object engine times still clock r (n + 1)).dueSlot engine times (clock (n + 1))
      still.env.defaults with
  | some due =>
    have hbefore := hdue n due hafter
    rw [hbefore]
    rcases hstage with ⟨hnone, hmanual, hstage⟩ | hstage
    · exact ⟨by omega, fun _ => ⟨hnone, report_next (hafter.trans hbefore.symm) hmanual⟩⟩
    · exact ⟨by omega, fun h => by omega⟩
  | none =>
    cases hbefore : (object engine times still clock r n).dueSlot engine times (clock n)
        still.env.defaults with
    | none =>
      rcases hstage with ⟨hnone, hmanual, hstage⟩ | hstage
      · exact ⟨by omega, fun _ => ⟨hnone, report_next (hafter.trans hbefore.symm) hmanual⟩⟩
      · exact ⟨by omega, fun h => by omega⟩
    | some due =>
      simp only [Option.isSome_none, Option.isSome_some, Bool.false_eq_true, if_false, if_true]
      rcases hstage with ⟨-, -, hstage⟩ | hstage
      · exact ⟨by omega, fun h => by omega⟩
      · exact ⟨by omega, fun h => by omega⟩

theorem writes_cases (n : Nat) :
    let record := ((object engine times still clock r n).requestWrite times still.env
      (still.view (clock n))).toList.map ReplicationPatch.manualRun
    let report := patches ((objectReport engine times still clock r n).calls still.env (clock n)
      (object engine times still clock r n))
    (kind engine times).writes still clock r n = record ++ report ∨
      (kind engine times).writes still clock r n = report ++ record := by
  intro record report
  have hrecord : record = patches ((object engine times still clock r n).requestCalls times
    still.env (still.view (clock n))) := patches_requestCalls.symm
  rw [hrecord]
  exact patches_reconcile

theorem writes_eq_nil (n : Nat) : (kind engine times).writes still clock r n = [] ↔
    (object engine times still clock r n).requestWrite times still.env (still.view (clock n)) =
        none ∧
      patches ((objectReport engine times still clock r n).calls still.env (clock n)
        (object engine times still clock r n)) = [] := by
  rcases @writes_cases engine times still clock r n with h | h
  · rw [h]
    simp
  · rw [h]
    simp [and_comm]

theorem kept (n : Nat) : ¬ (kind engine times).Erases storedConditions
    (object engine times still clock r n) ((kind engine times).writes still clock r n) := by
  apply RunKind.not_erases_of_single
  have hmanual : ∀ (manual : ReplicationManualRunStatus) (x : SnapshotReplication),
      storedConditions ((kind engine times).apply (.manualRun manual) x) = storedConditions x :=
    fun _ _ => rfl
  rcases @patches_report still.env (clock n) (object engine times still clock r n)
    (objectReport engine times still clock r n) with hreport | ⟨p, hreport, -⟩ <;>
  rcases @writes_cases engine times still clock r n with h | h <;>
  cases hwrite : (object engine times still clock r n).requestWrite times still.env
    (still.view (clock n)) <;>
  simp [h, hreport, hwrite, hmanual]

/-- The writes come to an end unless a request waits, or a slot condition is
there twice. -/
theorem settles_iff (hdue : NoneBecomesDue engine times still clock r) :
    (kind engine times).Settles still clock r storedConditions ↔
      r.waits times still.env (still.view (clock 0)) = false ∧
        ∃ N, ∀ n, N ≤ n → ¬ Stuck engine times still clock r n := by
  constructor
  · intro hsettles
    obtain ⟨N, hN⟩ := hsettles.quiet
    constructor
    · by_contra hwaits
      have hwaiting : (object engine times still clock r N).waits times still.env
          (still.view (clock N)) = true := by
        rw [waits_iff_start]
        simpa using hwaits
      exact requestWrite_of_waits hwaiting ((writes_eq_nil N).mp (hN N (le_refl N))).1
    · refine ⟨N, fun n hn hstuck => ?_⟩
      have hreport := ((writes_eq_nil n).mp (hN n hn)).2
      simp only [Stuck, stuck, Bool.and_eq_true, beq_iff_eq] at hstuck
      obtain ⟨⟨⟨hheal, hhealed⟩, hfalse⟩, -⟩ := hstuck
      simp [hheal, Report.calls, patches_heal, hfalse, hhealed] at hreport
  · rintro ⟨hwaits, M, hM⟩
    have hnext := fun n => outstanding_next (n := n) hdue ((waits_iff_start n).trans hwaits)
    obtain ⟨N, hN⟩ := eventually_const fun n => (hnext n).1
    have hsame : ∀ n, N ≤ n → outstanding engine times still clock r (n + 1) =
        outstanding engine times still clock r n := fun n hn =>
      (hN (n + 1) (by omega)).trans (hN n hn).symm
    refine .of ⟨max N M + 1, fun n hn => ?_⟩ kept
    obtain ⟨l, rfl⟩ : ∃ l, n = l + 1 := ⟨n - 1, by omega⟩
    have hl : N ≤ l ∧ M ≤ l := by omega
    obtain ⟨-, hreport⟩ := (hnext l).2 (hsame l hl.1)
    obtain ⟨hrecord, -⟩ := (hnext (l + 1)).2 (hsame (l + 1) (by omega))
    obtain ⟨-, -, -, hgeneration, -, hconditions⟩ := @object_fields engine times still clock r l
    refine (writes_eq_nil (l + 1)).mpr ⟨hrecord, ?_⟩
    rw [hreport]
    exact patches_again (by simpa [Stuck] using hM l hl.2) hgeneration hconditions

theorem report_ne_heal {env : Env} {view : JobsView} {r : SnapshotReplication}
    (hrequested : r.requested = none)
    (hdue : r.dueSlot engine times view.now env.defaults = none) :
    r.report engine times env view ≠ .heal := by
  have hslot : ∀ stall, r.slotReport engine times env view stall ≠ .heal := by
    intro stall
    simp [slotReport, hdue]
  have hdrive : r.driveReport engine times env view ≠ .heal := by
    have hrequest : r.manualRunRequest times = .ok none := by simp [manualRunRequest, hrequested]
    unfold driveReport
    rw [hrequest]
    exact hslot none
  unfold report
  split
  · nofun
  · split
    · nofun
    · split
      · nofun
      · split
        · nofun
        · split
          · nofun
          · split
            · nofun
            · split
              · nofun
              · exact hdrive
              · exact hdrive

theorem noneBecomesDue_of_clock {now : DateTime} (hclock : ∀ n, clock n = now) :
    NoneBecomesDue engine times still clock r := by
  intro n due hafter
  obtain ⟨phase, hnext⟩ := @object_next engine times still clock r n
  rw [hclock, hnext] at hafter
  rw [hclock]
  exact hafter

end Passes

end SnapshotReplication

-- Both kinds

/-- The status writes of a `Maintenance` come to an end, and none is erased, if
and only if no pass finds two causes to write its conditions. Those of a
replication come to an end if and only if no request waits and, in the end, no
second slot condition says false. -/
theorem status_writes_settle_iff (engine : CronEngine) (times : RunTimes)
    (hengine : engine.Exclusive) (hread : ∀ t, times.parse (times.render t) = some t) :
    (∀ still clock m, Maintenance.NoneBecomesDue engine times still clock m →
      ((Maintenance.kind engine times).Settles still clock m Maintenance.storedConditions ↔
        ∀ n, (Maintenance.object engine times still clock m n).Clear engine times still.env
          (still.view (clock n)))) ∧
    ∀ still clock r, SnapshotReplication.NoneBecomesDue engine times still clock r →
      ((SnapshotReplication.kind engine times).Settles still clock r
          SnapshotReplication.storedConditions ↔
        r.waits times still.env (still.view (clock 0)) = false ∧
          ∃ N, ∀ n, N ≤ n → ¬ SnapshotReplication.Stuck engine times still clock r n) :=
  ⟨fun _ _ _ hdue => Maintenance.settles_iff hread hengine hdue,
    fun _ _ _ hdue => SnapshotReplication.settles_iff hdue⟩

def numberRunTimes : RunTimes := { numberTimes with problem := fun _ => "not a number" }

def calm {ε : Type} (env : ε) : Stillness ε := ⟨env, fun _ => none, false⟩

def hourlyCron : CronSpec := { cron := "0 * * * *" }

def calmMaintenance : Maintenance where
  name := "m"
  schedule := { quick := hourlyCron, full := hourlyCron }
  status := { quick := { lastRunAt := some "0" }, full := { lastRunAt := some "0" } }

def calmReplication : SnapshotReplication where
  name := "r"
  schedule := hourlyCron
  status := { lastReplicated := some "0" }

theorem status_writes_settle_calm :
    (Maintenance.kind hourly numberRunTimes).Settles (calm {}) (fun _ => 60) calmMaintenance
        Maintenance.storedConditions ∧
      (SnapshotReplication.kind hourly numberRunTimes).Settles (calm {}) (fun _ => 60)
        calmReplication SnapshotReplication.storedConditions := by
  obtain ⟨hmaintenance, hreplication⟩ := status_writes_settle_iff hourly numberRunTimes
    hourly_exclusive parseInt_repr
  constructor
  · have hdue : Maintenance.NoneBecomesDue hourly numberRunTimes (calm {}) (fun _ => 60)
        calmMaintenance :=
      Maintenance.noneBecomesDue_of_clock (fun _ => rfl) parseInt_repr hourly_exclusive
    refine (hmaintenance _ _ _ hdue).mpr fun n defaults _ _ hdefaults => ?_
    cases hdefaults
    have hnot : ∀ mode, (Maintenance.object hourly numberRunTimes (calm {}) (fun _ => 60)
        calmMaintenance n).dueAt hourly numberRunTimes 60 none mode = none := by
      intro mode
      induction n with
      | zero => cases mode <;> decide
      | succ n ih =>
        by_contra hafter
        obtain ⟨due, hafter⟩ := Option.ne_none_iff_exists'.mp hafter
        exact absurd (hdue n none mode due rfl hafter) (by simp [ih])
    have hrequest : (Maintenance.object hourly numberRunTimes (calm {}) (fun _ => 60)
        calmMaintenance n).annotations = {} := by
      clear hnot
      induction n with
      | zero => rfl
      | succ n ih => simpa [Maintenance.object_next] using ih
    simp [Maintenance.requestCause, Maintenance.slotCause, Maintenance.manualRunRequest, hrequest,
      Maintenance.dueMode, hnot, Maintenance.unsaid, Stillness.view]
  · have hdue : SnapshotReplication.NoneBecomesDue hourly numberRunTimes (calm {}) (fun _ => 60)
        calmReplication := SnapshotReplication.noneBecomesDue_of_clock fun _ => rfl
    refine (hreplication _ _ _ hdue).mpr ⟨by decide, 0, fun n hn => ?_⟩
    clear * - hdue
    obtain ⟨hnot, hrequested⟩ : (SnapshotReplication.object hourly numberRunTimes (calm {})
        (fun _ => 60) calmReplication n).dueSlot hourly numberRunTimes 60 none = none ∧
          (SnapshotReplication.object hourly numberRunTimes (calm {}) (fun _ => 60)
            calmReplication n).requested = none := by
      induction n with
      | zero => exact ⟨by decide, rfl⟩
      | succ n ih =>
        obtain ⟨-, -, hrequested, -⟩ := @SnapshotReplication.object_fields hourly numberRunTimes
          (calm {}) (fun _ => 60) calmReplication n
        refine ⟨?_, hrequested.trans ih.2⟩
        by_contra hafter
        obtain ⟨due, hafter⟩ := Option.ne_none_iff_exists'.mp hafter
        exact absurd (ih.1.symm.trans (hdue n due hafter)) (by simp)
    have hreport : SnapshotReplication.objectReport hourly numberRunTimes (calm {}) (fun _ => 60)
        calmReplication n ≠ .heal := SnapshotReplication.report_ne_heal hrequested hnot
    simp [SnapshotReplication.Stuck, SnapshotReplication.stuck, hreport]

def allFailed {ε : Type} (env : ε) : Stillness ε := ⟨env, fun _ => some (some false), false⟩

def malformedMaintenance : Maintenance where
  name := "m"
  schedule := { quick := hourlyCron, full := hourlyCron }
  annotations := { requested := some "soon" }

def freshMaintenance : Maintenance where
  name := "m"
  schedule := { quick := hourlyCron, full := hourlyCron }

def suspendedReplication : SnapshotReplication where
  name := "r"
  schedule := hourlyCron
  suspend := true
  requested := some "60"

theorem malformedMaintenance_object (n : Nat) : ∃ conditions,
    Maintenance.object hourly numberRunTimes (allFailed {}) (fun _ => 60) malformedMaintenance n =
      { malformedMaintenance with status := { conditions } } := by
  induction n with
  | zero => exact ⟨[], rfl⟩
  | succ n ih =>
    obtain ⟨conditions, hobject⟩ := ih
    obtain ⟨message, hrequest⟩ := @Maintenance.manualRunRequest_malformed numberRunTimes
      { malformedMaintenance with status := { conditions } } "soon" rfl (by decide) rfl
    have hrecord : (Maintenance.objectWrites hourly numberRunTimes (allFailed {}) (fun _ => 60)
        malformedMaintenance n).record = none := by
      rw [Maintenance.objectWrites_open rfl rfl rfl, hobject]
      simp [Maintenance.requestRecord, Maintenance.requestAnswer, hrequest]
    have hhandled : (Maintenance.objectWrites hourly numberRunTimes (allFailed {}) (fun _ => 60)
        malformedMaintenance n).handled = none := by
      rw [Maintenance.objectWrites_open rfl rfl rfl]
      simp [Maintenance.slotHandled, allFailed, Stillness.view]
    rw [Maintenance.object_next, hrecord, hhandled, hobject]
    exact ⟨_, rfl⟩

theorem malformedMaintenance_writes (n : Nat) :
    (Maintenance.kind hourly numberRunTimes).writes (allFailed {}) (fun _ => 60)
      malformedMaintenance n ≠ [] := by
  obtain ⟨conditions, hobject⟩ := malformedMaintenance_object n
  obtain ⟨message, hrequest⟩ := @Maintenance.manualRunRequest_malformed numberRunTimes
    { malformedMaintenance with status := { conditions } } "soon" rfl (by decide) rfl
  have hcause : Maintenance.requestCause numberRunTimes ((allFailed ({} : Maintenance.Env)).view 60)
      (Maintenance.object hourly numberRunTimes (allFailed {}) (fun _ => 60) malformedMaintenance
        n) = some ("InvalidRunRequest", message) := by
    rw [hobject]
    simp [Maintenance.requestCause, hrequest]
  have hslot : Maintenance.slotCause hourly numberRunTimes {}
      ((allFailed ({} : Maintenance.Env)).view 60)
      (Maintenance.object hourly numberRunTimes (allFailed {}) (fun _ => 60) malformedMaintenance n)
      none = some ("MaintenanceFailed", "maintenance Job failed; see the Job/pod logs") := by
    rw [hobject]
    have hdue : ∃ due, ({ malformedMaintenance with status := { conditions } } :
        Maintenance).dueMode hourly numberRunTimes 60 none = some due := by
      obtain ⟨due, hdue⟩ := Option.isSome_iff_exists.mp (show (malformedMaintenance.dueMode hourly
        numberRunTimes 60 none).isSome = true by decide)
      exact ⟨due, hdue⟩
    obtain ⟨due, hdue⟩ := hdue
    simp [Maintenance.slotCause, Maintenance.requestHolds, hrequest, allFailed, Stillness.view, hdue]
  exact Maintenance.writes_of_two_causes rfl rfl rfl hcause hslot (by simp)

/-- A malformed request beside a failed Job is written for ever, a failed Job
erases `Ready`, and a request that waits is recorded for ever. -/
theorem status_writes_never_settle :
    (Maintenance.NoneBecomesDue hourly numberRunTimes (allFailed {}) (fun _ => 60)
        malformedMaintenance ∧
      (∀ n, (Maintenance.kind hourly numberRunTimes).writes (allFailed {}) (fun _ => 60)
        malformedMaintenance n ≠ []) ∧
      ¬ (Maintenance.kind hourly numberRunTimes).Settles (allFailed {}) (fun _ => 60)
        malformedMaintenance Maintenance.storedConditions) ∧
    (Maintenance.NoneBecomesDue hourly numberRunTimes (allFailed {}) (fun _ => 60)
        freshMaintenance ∧
      ¬ (Maintenance.kind hourly numberRunTimes).Settles (allFailed {}) (fun _ => 60)
        freshMaintenance Maintenance.storedConditions) ∧
    (SnapshotReplication.NoneBecomesDue hourly numberRunTimes (calm {}) (fun _ => 60)
        suspendedReplication ∧
      ¬ (SnapshotReplication.kind hourly numberRunTimes).Settles (calm {}) (fun _ => 60)
        suspendedReplication SnapshotReplication.storedConditions) := by
  refine ⟨⟨Maintenance.noneBecomesDue_of_clock (fun _ => rfl) parseInt_repr hourly_exclusive,
      malformedMaintenance_writes, ?_⟩,
    ⟨Maintenance.noneBecomesDue_of_clock (fun _ => rfl) parseInt_repr hourly_exclusive, ?_⟩,
    SnapshotReplication.noneBecomesDue_of_clock fun _ => rfl, ?_⟩
  · intro hsettles
    obtain ⟨N, hN⟩ := hsettles.quiet
    exact malformedMaintenance_writes N (hN N (le_refl N))
  · intro hsettles
    have hclear := (Maintenance.kept_iff_clear 0).mp (hsettles.kept 0)
    obtain ⟨-, hslot, -⟩ := hclear none rfl rfl rfl
    exact absurd hslot (by decide)
  · intro hsettles
    have hdue : SnapshotReplication.NoneBecomesDue hourly numberRunTimes (calm {}) (fun _ => 60)
        suspendedReplication := SnapshotReplication.noneBecomesDue_of_clock fun _ => rfl
    have hwaits := ((SnapshotReplication.settles_iff hdue).mp hsettles).1
    exact absurd hwaits (by decide)

end Kopiur
