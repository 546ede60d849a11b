import Kopiur.Controller.RequestRuns
import Kopiur.Controller.ScheduledRuns

/-!
# Requested runs of Maintenances and replications

Both kinds are asked by an annotation. A `Maintenance` pins a request by its
text and its mode, a replication by its text; both name the Job by the second
that the text stands for.
-/

namespace Kopiur

open Lib

-- Maintenances

namespace Maintenance

def answers (st : ManualRunStatus) (raw : String) : Bool :=
  st.requestedAt == some raw && st.phase.any ManualRunPhase.answersRequest

def succeeds (st : ManualRunStatus) (raw : String) : Bool :=
  st.requestedAt == some raw && st.phase == some .succeeded

def fails (st : ManualRunStatus) (raw : String) : Bool :=
  st.requestedAt == some raw && st.phase == some .failed

def runs (st : ManualRunStatus) (q : String × MaintenanceMode) : Bool :=
  st.requestedAt == some q.1 && st.mode == some q.2 && st.phase == some .running

def asked (times : RunTimes) (m : Maintenance) : Option (String × MaintenanceMode) :=
  m.annotations.requested.bind fun raw =>
    (parseRunAnnotations times m.annotations).toOption.join.map fun (_, mode) => (raw, mode)

def requestJobName (times : RunTimes) (m : Maintenance) (q : String × MaintenanceMode) : String :=
  manualJobName m.name q.2 ((times.parse q.1).getD (DateTime.fromTimestamp 0))

def requestOf : MaintenanceRun → Option (String × MaintenanceMode)
  | .cron .. => none
  | .manual raw mode _ => some (raw, mode)

def recordOf : MaintenancePatch → Option ManualRunStatus
  | .manualRun manual => some manual
  | .conditions _ | .handled .. => none

section Requests

variable {engine : CronEngine} {times : RunTimes} {env : Env} {view : JobsView} {m : Maintenance}
  {requested : DateTime} {mode : MaintenanceMode} {raw : String}

theorem parseRunAnnotations_some {annotations : RunAnnotations}
    (h : parseRunAnnotations times annotations = .ok (some (requested, mode)))
    (hraw : annotations.requested = some raw) : times.parse raw = some requested := by
  unfold parseRunAnnotations parseRunRequestedAt at h
  simp only [hraw] at h
  cases hparse : times.parse raw with
  | none => simp [hparse, bind, Except.bind] at h
  | some t =>
    simp only [hparse, bind, Except.bind] at h
    cases hmode : annotations.mode with
    | none =>
      obtain ⟨rfl, -⟩ := by simpa [hmode] using h
      rfl
    | some text =>
      simp only [hmode] at h
      cases hread : MaintenanceMode.parse text with
      | none => simp [hread] at h
      | some mode' =>
        obtain ⟨rfl, -⟩ := by simpa [hread] using h
        rfl

theorem manualRunRequest_eq (hraw : m.annotations.requested = some raw) :
    m.manualRunRequest times =
      if m.status.manualRun.any (answers · raw) then .ok none
      else parseRunAnnotations times m.annotations := by
  unfold manualRunRequest
  rw [hraw]
  rfl

theorem asked_of_request (h : m.manualRunRequest times = .ok (some (requested, mode))) :
    ∃ raw, m.asked times = some (raw, mode) ∧ m.requestText times requested = raw ∧
      m.requestJobName times (raw, mode) = manualJobName m.name mode requested ∧
      m.status.manualRun.any (answers · raw) = false := by
  obtain ⟨raw, hraw, hparse⟩ := manualRunRequest_some h
  rw [manualRunRequest_eq hraw] at h
  refine ⟨raw, ?_, by simp [requestText, hraw], ?_, ?_⟩
  · simp [asked, hraw, hparse, Except.toOption]
  · simp [requestJobName, parseRunAnnotations_some hparse hraw]
  · split at h
    · simp at h
    · next hanswers => simpa using hanswers

theorem request_of_asked (hasked : m.asked times = some (raw, mode))
    (hanswers : m.status.manualRun.any (answers · raw) = false) :
    ∃ requested, m.manualRunRequest times = .ok (some (requested, mode)) ∧
      m.requestText times requested = raw ∧
      m.requestJobName times (raw, mode) = manualJobName m.name mode requested := by
  obtain ⟨raw', hraw, hmap⟩ := Option.bind_eq_some_iff.mp hasked
  obtain ⟨⟨requested, mode'⟩, hjoin, heq⟩ := Option.map_eq_some_iff.mp hmap
  cases heq
  cases hparse : parseRunAnnotations times m.annotations with
  | error message => simp [hparse, Except.toOption] at hjoin
  | ok request =>
    obtain rfl : request = some (requested, mode) := by
      simpa [hparse, Except.toOption] using hjoin
    refine ⟨requested, ?_, by simp [requestText, hraw], ?_⟩
    · rw [manualRunRequest_eq hraw, hanswers, ← hparse]
      rfl
    · simp [requestJobName, parseRunAnnotations_some hparse hraw]

theorem recorded_of_reconcile :
    (patches (m.reconcile engine times env view)).filterMap recordOf =
      (m.writes engine times env view).record.toList := by
  rw [patches_reconcile]
  obtain ⟨ready, record, request, handled, slot⟩ := m.writes engine times env view
  cases ready <;> cases record <;> cases request <;> cases handled <;> cases slot <;> rfl

theorem writes_record : (m.writes engine times env view).record = none ∨
    (m.writes engine times env view).record = m.requestRecord times view := by
  unfold writes
  split
  · exact .inl rfl
  · exact .inl rfl
  · split
    · exact .inl rfl
    · exact .inr rfl

theorem requestAnswer_some {phase : ManualRunPhase}
    (h : m.requestAnswer times view = some (requested, mode, phase)) :
    m.manualRunRequest times = .ok (some (requested, mode)) ∧
      (phase = .failed ∨ phase = .running ∨
        phase = .succeeded ∧ view.job (manualJobName m.name mode requested) = some (some true)) := by
  unfold requestAnswer at h
  split at h
  · cases h
  · cases h
  · next requested' mode' hrequest =>
    split at h
    · next hjob =>
      cases h
      exact ⟨hrequest, .inr (.inr ⟨rfl, hjob⟩)⟩
    · cases h
      exact ⟨hrequest, .inl rfl⟩
    · cases h
    · split at h
      · cases h
        exact ⟨hrequest, .inl rfl⟩
      · split at h
        · cases h
        · cases h
          exact ⟨hrequest, .inr (.inl rfl)⟩

end Requests

def Env.opens (env : Env) : Bool := env.specValid && env.defaults.isSome && env.maintainable

/-- Where the Job of a running request is gone, a pass records that the request
failed. -/
theorem fails_lost {engine : CronEngine} {times : RunTimes} {env : Env} {view : JobsView}
    {m : Maintenance} {q : String × MaintenanceMode} (hopens : env.opens = true)
    (hasked : m.asked times = some q)
    (hanswers : m.status.manualRun.any (answers · q.1) = false)
    (hrunning : m.status.manualRun.any (runs · q) = true)
    (hgone : view.job (m.requestJobName times q) = none) :
    ((kind engine times).patched m
        (patches (m.reconcile engine times env view))).status.manualRun =
      some
        { requestedAt := some q.1
          mode := some q.2
          phase := some .failed
          completedAt := some (times.render view.now) } := by
  obtain ⟨raw, mode⟩ := q
  obtain ⟨requested, hrequest, htext, hname⟩ := request_of_asked hasked hanswers
  rw [hname] at hgone
  have hanswer : m.requestAnswer times view = some (requested, mode, .failed) := by
    have halready : m.alreadyRunning raw mode = true := hrunning
    simp [requestAnswer, hrequest, hgone, htext, halready]
  have hwrites : (m.writes engine times env view).record = m.requestRecord times view := by
    obtain ⟨⟨hvalid, hdefaults⟩, hmaintainable⟩ := by simpa [Env.opens] using hopens
    obtain ⟨defaults, hdefaults⟩ := Option.isSome_iff_exists.mp hdefaults
    simp [writes, hvalid, hdefaults, hmaintainable]
  rw [patches_reconcile, patched_writes, hwrites, requestRecord, hanswer]
  simp [htext, ManualRunPhase.answersRequest]

/-- A Maintenance by its requests. -/
def requestKind (engine : CronEngine) (times : RunTimes) :
    RequestKind Maintenance MaintenancePatch MaintenanceRun Env RunAnnotations MaintenanceMode
      ManualRunStatus where
  toRunKind := kind engine times
  origin := requestOf
  asked := asked times
  requestName := requestJobName times
  record m := m.status.manualRun
  record? := recordOf
  answers := answers
  succeeds := succeeds
  fails := fails
  running := runs
  opens env _ := env.opens
  apply_record p m := by
    cases p with
    | conditions => rfl
    | manualRun => rfl
    | handled mode => cases mode <;> rfl
  apply_asked p m := by cases p <;> exact ⟨rfl, rfl⟩
  stamp_keeps run now m := by
    refine ⟨?_, rfl, rfl⟩
    rcases run with ⟨mode, -⟩ | ⟨-, mode, -⟩ <;> cases mode <;> rfl
  edit_keeps _ _ := ⟨rfl, rfl⟩
  spawns env view m := by
    refine (@creates_reconcile engine times env view m).2.imp_right ?_
    rintro ⟨name, run, hcreates, -, hnone, hwhat⟩
    refine ⟨name, run, hcreates, hnone, ?_⟩
    rcases hwhat with ⟨requested, mode, hrequest, hrunning, rfl, rfl⟩ | ⟨_, mode, slot, -, -, rfl, rfl⟩
    · obtain ⟨raw, hasked, htext, hname, hanswers⟩ := asked_of_request hrequest
      rw [htext] at hrunning ⊢
      refine ⟨nofun, fun q hq => ?_⟩
      cases hq
      exact ⟨hasked, hname.symm, hanswers, hrunning⟩
    · exact ⟨fun _ q => manualJobName_ne_cron.symm, nofun⟩
  reaps env view m name hname q := by
    obtain ⟨-, mode, slot, rfl⟩ := (@creates_reconcile engine times env view m).1 name hname
    exact manualJobName_ne_cron.symm
  records env view m := by
    have hrecorded := @recorded_of_reconcile engine times env view m
    rcases @writes_record engine times env view m with hnone | hrecord
    · left
      rw [hnone] at hrecorded
      exact hrecorded
    · rw [hrecord] at hrecorded
      cases hrequest : m.requestRecord times view with
      | none =>
        left
        rw [hrequest] at hrecorded
        exact hrecorded
      | some t =>
        right
        rw [hrequest] at hrecorded
        obtain ⟨⟨requested, mode, phase⟩, hanswer, rfl⟩ := Option.map_eq_some_iff.mp hrequest
        obtain ⟨hmanual, hphase⟩ := requestAnswer_some hanswer
        obtain ⟨raw, hasked, htext, hname, hanswers⟩ := asked_of_request hmanual
        refine ⟨_, (raw, mode), hrecorded, hasked, hanswers, ?_⟩
        rw [hname]
        rcases hphase with rfl | rfl | ⟨rfl, hjob⟩
        · exact ⟨.inl (by simp [answers, htext, ManualRunPhase.answersRequest]), by
            simp [succeeds]⟩
        · exact ⟨.inr (.inl (by simp [runs, htext])), by simp [succeeds]⟩
        · refine ⟨.inl (by simp [answers, htext, ManualRunPhase.answersRequest]), fun raw' h => ?_⟩
          obtain rfl : raw = raw' := by simpa [succeeds, htext] using h
          exact ⟨rfl, hjob⟩
  fails_lost := by
    intro env view m q hopens hasked hanswers hrunning hgone
    have hfailed := @fails_lost engine times env view m q hopens hasked hanswers hrunning hgone
    exact (congrArg (Option.any (fails · q.1)) hfailed).trans (by simp [fails])

end Maintenance

-- Replications

namespace SnapshotReplication

def succeeds (manual : ReplicationManualRunStatus) (raw : String) : Bool :=
  manual.requestedAt == some raw && manual.phase == some .succeeded

def fails (manual : ReplicationManualRunStatus) (raw : String) : Bool :=
  manual.requestedAt == some raw && manual.phase == some .failed

def runs (manual : ReplicationManualRunStatus) (q : String × Unit) : Bool :=
  manual.requestedAt == some q.1 && manual.phase.any ManualRunPhase.impliesJobLaunched

def asked (times : RunTimes) (r : SnapshotReplication) : Option (String × Unit) :=
  r.requested.bind fun raw => (times.parse raw).map fun _ => (raw, ())

def requestJobName (times : RunTimes) (r : SnapshotReplication) (q : String × Unit) : String :=
  manualReplicationJobName r.name ((times.parse q.1).getD (DateTime.fromTimestamp 0))

def requestOf : ReplicationRun → Option (String × Unit)
  | .cron _ => none
  | .manual raw _ => some (raw, ())

def recordOf : ReplicationPatch → Option ReplicationManualRunStatus
  | .manualRun manual => some manual
  | .ready .. | .conditions _ | .slotAcquired .. => none

section Requests

variable {engine : CronEngine} {times : RunTimes} {env : Env} {view : JobsView}
  {r : SnapshotReplication} {request : RunRequest} {raw : String}

theorem manualRunRequest_eq (hraw : r.requested = some raw) :
    r.manualRunRequest times =
      if r.status.manualRun.any (answers · raw) then .ok none
      else
        (parseRunRequestedAt times (some raw) "kubectl kopiur replication run --kind snapshot").map
          fun parsed => parsed.map (⟨raw, ·⟩) := by
  unfold manualRunRequest
  rw [hraw]
  dsimp only
  split
  · rfl
  · cases parseRunRequestedAt times (some raw) "kubectl kopiur replication run --kind snapshot" <;>
      rfl

theorem asked_of_request (h : r.manualRunRequest times = .ok (some request)) :
    r.asked times = some (request.raw, ()) ∧
      r.requestJobName times (request.raw, ()) = manualReplicationJobName r.name request.at' ∧
      r.status.manualRun.any (answers · request.raw) = false := by
  obtain ⟨hraw, -⟩ := manualRunRequest_some h
  rw [manualRunRequest_eq hraw] at h
  split at h
  · simp at h
  · next hanswers =>
    unfold parseRunRequestedAt at h
    cases hparse : times.parse request.raw with
    | none => simp [hparse, Except.map] at h
    | some t =>
      have hat : t = request.at' := by
        have hsame : (⟨request.raw, t⟩ : RunRequest) = request := by
          simpa [hparse, Except.map] using h
        exact congrArg RunRequest.at' hsame
      exact ⟨by simp [asked, hraw, hparse], by simp [requestJobName, hparse, hat], by
        simpa using hanswers⟩

theorem request_of_asked {q : String × Unit} (hasked : r.asked times = some q)
    (hanswers : r.status.manualRun.any (answers · q.1) = false) :
    ∃ at', r.manualRunRequest times = .ok (some ⟨q.1, at'⟩) ∧
      r.requestJobName times q = manualReplicationJobName r.name at' := by
  obtain ⟨raw, hraw, hmap⟩ := Option.bind_eq_some_iff.mp hasked
  obtain ⟨t, hparse, rfl⟩ := Option.map_eq_some_iff.mp hmap
  refine ⟨t, ?_, by simp [requestJobName, hparse]⟩
  rw [manualRunRequest_eq hraw, hanswers]
  simp [parseRunRequestedAt, hparse, Except.map]

theorem recordOf_report (now : DateTime) (report : Report) :
    (patches (report.calls env now r)).filterMap recordOf = [] := by
  rcases @patches_report env now r report with hnone | ⟨p, hone, hshape, -⟩
  · simp [hnone]
  · cases p with
    | manualRun manual =>
      -- Such a write would leave the record.
      obtain ⟨phase, hpatch⟩ := hshape { r with status := { r.status with manualRun := none } }
      simp [patch] at hpatch
    | ready => simp [hone, recordOf]
    | conditions => simp [hone, recordOf]
    | slotAcquired => simp [hone, recordOf]

theorem recorded_of_reconcile :
    (patches (r.reconcile engine times env view)).filterMap recordOf =
      (r.requestWrite times env view).toList := by
  have hrequest : (patches (r.requestCalls times env view)).filterMap recordOf =
      (r.requestWrite times env view).toList := by
    rw [patches_requestCalls]
    cases r.requestWrite times env view <;> rfl
  rcases @patches_reconcile engine times env view r with h | h
  · rw [h, List.filterMap_append, recordOf_report, hrequest, List.append_nil]
  · rw [h, List.filterMap_append, recordOf_report, hrequest, List.nil_append]

theorem phaseOf_succeeded (h : r.phaseOf env view request = some .succeeded) :
    view.job (manualReplicationJobName r.name request.at') = some (some true) := by
  unfold phaseOf at h
  split at h
  · split at h <;> cases h
  · split at h
    · unfold drivePhase at h
      split at h
      · next hjob => exact hjob
      · cases h
      · cases h
      · split at h
        · cases h
        · split at h
          · cases h
          · split at h <;> cases h
    · cases h

end Requests

/-- Where the Job of a running request is gone, a pass records that the request
failed. -/
theorem fails_lost {engine : CronEngine} {times : RunTimes} {env : Env} {view : JobsView}
    {r : SnapshotReplication} {q : String × Unit} (hdrives : r.drives env = true)
    (hasked : r.asked times = some q)
    (hanswers : r.status.manualRun.any (answers · q.1) = false)
    (hrunning : r.status.manualRun.any (runs · q) = true)
    (hgone : view.job (r.requestJobName times q) = none) :
    ((kind engine times).patched r
        (patches (r.reconcile engine times env view))).status.manualRun =
      some
        { requestedAt := some q.1
          phase := some .failed
          completedAt := some (times.render view.now) } := by
  obtain ⟨at', hrequest, hname⟩ := request_of_asked hasked hanswers
  rw [hname] at hgone
  have hsuspend : r.suspend = false := by
    simp only [drives, Bool.and_eq_true, Bool.not_eq_true'] at hdrives
    exact hdrives.1.1.1.1.1.2
  have hphase : r.phaseOf env view ⟨q.1, at'⟩ = some .failed := by
    have hrecorded : recordedRunning r.status.manualRun ⟨q.1, at'⟩ = true := hrunning
    simp [phaseOf, hsuspend, hdrives, drivePhase, hgone, hrecorded]
  have hnoop : statusMergePatchIsNoop r.status.manualRun
      (manualRunStatus times ⟨q.1, at'⟩ .failed view.now) = false := by
    obtain ⟨c, hc, hruns⟩ := (Option.any_eq_true ..).mp hrunning
    obtain ⟨-, hlaunched⟩ := by simpa [runs] using hruns
    obtain ⟨p, hp, himplies⟩ := (Option.any_eq_true ..).mp hlaunched
    have hlabel : phaseLabel p ≠ "Failed" := by
      cases p <;> simp [ManualRunPhase.impliesJobLaunched] at himplies
      decide
    rw [hc, statusMergePatchIsNoop, Option.any_some, beq_eq_false_iff_ne]
    intro heq
    have hkey := congrArg ManualRunJson.phase heq
    simp only [mergePatch, mergeKey, manualRunJson, manualRunStatus, hp, MergeField.value.injEq]
      at hkey
    exact hlabel hkey.symm
  have hwrite : r.requestWrite times env view =
      some (manualRunStatus times ⟨q.1, at'⟩ .failed view.now) := by
    simp [requestWrite, requestPhase, hrequest, hphase, hnoop]
  obtain ⟨phase, hpatched⟩ := @patched_reconcile engine times env view r
  rw [hpatched, hwrite]
  rfl

/-- A replication by its requests. -/
def requestKind (engine : CronEngine) (times : RunTimes) :
    RequestKind SnapshotReplication ReplicationPatch ReplicationRun Env ReplicationEdit Unit
      ReplicationManualRunStatus where
  toRunKind := kind engine times
  origin := requestOf
  asked := asked times
  requestName := requestJobName times
  record r := r.status.manualRun
  record? := recordOf
  answers := answers
  succeeds := succeeds
  fails := fails
  running := runs
  opens env r := r.drives env
  apply_record p r := by cases p <;> rfl
  apply_asked p r := by cases p <;> exact ⟨rfl, rfl⟩
  stamp_keeps _ _ _ := ⟨rfl, rfl, rfl⟩
  edit_keeps a r := by cases a <;> exact ⟨rfl, rfl⟩
  spawns env view r := by
    refine (@startsOne_reconcile engine times env view r).2.imp_right ?_
    rintro ⟨name, run, hcreates, -, hnone, hwhat⟩
    refine ⟨name, run, hcreates, hnone, ?_⟩
    rcases hwhat with ⟨request, hrequest, hrunning, rfl, rfl⟩ | ⟨slot, -, rfl, rfl⟩
    · obtain ⟨hasked, hname, hanswers⟩ := asked_of_request hrequest
      refine ⟨nofun, fun q hq => ?_⟩
      cases hq
      exact ⟨hasked, hname.symm, hanswers, hrunning⟩
    · exact ⟨fun _ q => manualReplicationJobName_ne_cron.symm, nofun⟩
  reaps env view r name hname := by
    have hdeletes := (@startsOne_reconcile engine times env view r).1
    change name ∈ deletes (r.reconcile engine times env view) at hname
    simp [hdeletes] at hname
  records env view r := by
    have hrecorded := @recorded_of_reconcile engine times env view r
    cases hwrite : r.requestWrite times env view with
    | none =>
      left
      rw [hwrite] at hrecorded
      exact hrecorded
    | some manual =>
      right
      rw [hwrite] at hrecorded
      obtain ⟨request, phase, hrequest, hphase, rfl⟩ := requestWrite_some hwrite
      obtain ⟨hasked, hname, hanswers⟩ := asked_of_request hrequest
      refine ⟨_, (request.raw, ()), hrecorded, hasked, hanswers, ?_, ?_⟩
      · rcases phaseOf_cases hphase with hanswer | ⟨-, hrunning⟩
        · exact .inl (by simp [answers, manualRunStatus, hanswer])
        · exact .inr (.inr hrunning)
      · intro raw hsucceeds
        obtain ⟨rfl, rfl⟩ : request.raw = raw ∧ phase = .succeeded := by
          simpa [succeeds, manualRunStatus] using hsucceeds
        exact ⟨rfl, hname ▸ phaseOf_succeeded hphase⟩
  fails_lost := by
    intro env view r q hdrives hasked hanswers hrunning hgone
    have hfailed := @fails_lost engine times env view r q hdrives hasked hanswers hrunning hgone
    exact (congrArg (Option.any (fails · q.1)) hfailed).trans (by simp [fails])

end SnapshotReplication

-- Both kinds

/-- In a run whose edits ask only for what is still traced, under names no other
Job has, and where the Job of the request is reaped once the status knows it,
each text gets at most one Job, a success is recorded only for a text whose Job
succeeded, and a request whose outcome is lost is failed. -/
theorem requests_answered_once (engine : CronEngine) (times : RunTimes) :
    (∀ (m : Maintenance) now, m.status.manualRun = none → ∀ w,
      Reaches (Maintenance.kind engine times).step (Maintenance.requestKind engine times).Orderly
        { cr := m, clock := now } w → (Maintenance.requestKind engine times).Promised w) ∧
      ∀ (r : SnapshotReplication) now, r.status.manualRun = none → ∀ w,
        Reaches (SnapshotReplication.kind engine times).step
          (SnapshotReplication.requestKind engine times).Orderly { cr := r, clock := now } w →
          (SnapshotReplication.requestKind engine times).Promised w := by
  constructor
  · intro m now hrecord w hrun
    exact (RequestKind.answered_of_run (k := Maintenance.requestKind engine times) hrecord
      hrun).promised
  · intro r now hrecord w hrun
    exact (RequestKind.answered_of_run (k := SnapshotReplication.requestKind engine times) hrecord
      hrun).promised

def askedMaintenance : Maintenance :=
  { unrunMaintenance with annotations := { requested := some "5" } }

def askedReplication : SnapshotReplication := { unrunReplication with requested := some "5" }

/-- A request whose Job is reaped while it runs is failed by the next pass. -/
theorem requests_answered_once_lost :
    (∃ w w', Reaches (Maintenance.kind hourly numberRunTimes).step
          (Maintenance.requestKind hourly numberRunTimes).Orderly
          { cr := askedMaintenance, clock := laterOn } w ∧
        w.created.map Creation.name = ["m-mq-0"] ∧ w.jobs = [] ∧
        (Maintenance.kind hourly numberRunTimes).step w (.pass {} 10) = some w' ∧
        w'.cr.status.manualRun.any (Maintenance.fails · "5") = true) ∧
      ∃ w, Reaches (SnapshotReplication.kind hourly numberRunTimes).step
          (SnapshotReplication.requestKind hourly numberRunTimes).Orderly
          { cr := askedReplication, clock := laterOn } w ∧
        w.created.map Creation.name = ["r-msrepl-0"] ∧
        (w.created.countP fun c =>
          (SnapshotReplication.requestKind hourly numberRunTimes).isFor "5" c.run) ≤ 1 := by
  obtain ⟨hmaintenance, hreplication⟩ := requests_answered_once hourly numberRunTimes
  let kind := Maintenance.kind hourly numberRunTimes
  constructor
  · have hruns : ((kind.step { cr := askedMaintenance, clock := laterOn } (.pass {} 10)).bind
        fun v => (kind.step v (.reap "m-mq-0")).bind fun w =>
          (kind.step w (.pass {} 10)).map fun w' => (v, w, w')).any
        (fun (v, w, _) => v.cr.status.manualRun.any (Maintenance.runs · ("5", .quick)) &&
          v.cr.asked numberRunTimes == some ("5", .quick) &&
          w.cr.asked numberRunTimes == some ("5", .quick) &&
          w.created.map Creation.name == ["m-mq-0"] &&
          w.created.map Creation.run == [.manual "5" .quick 5] && w.jobs == [] &&
          !w.cr.status.manualRun.any (Maintenance.answers · "5") &&
          (w.cr.reconcile hourly numberRunTimes {} w.view).length ≤ 10) = true := by
      decide
    obtain ⟨⟨v, w, w'⟩, hsteps, hfacts⟩ := (Option.any_eq_true ..).mp hruns
    obtain ⟨v, hv, hsteps⟩ := Option.bind_eq_some_iff.mp hsteps
    obtain ⟨w, hw, hsteps⟩ := Option.bind_eq_some_iff.mp hsteps
    obtain ⟨w', hw', heq⟩ := Option.map_eq_some_iff.mp hsteps
    cases heq
    simp only [Bool.and_eq_true, beq_iff_eq, decide_eq_true_eq, Bool.not_eq_true'] at hfacts
    obtain ⟨⟨⟨⟨⟨⟨⟨hruns, hasked⟩, hstill⟩, hnames⟩, hcreated⟩, hjobs⟩, hopen⟩, hlength⟩ := hfacts
    have hrun : Reaches kind.step (Maintenance.requestKind hourly numberRunTimes).Orderly
        { cr := askedMaintenance, clock := laterOn } w := by
      refine .tail (a := .reap "m-mq-0") (.tail (a := .pass {} 10) .refl trivial hv) ?_ hw
      intro q hq _
      obtain rfl : ("5", .quick) = q := Option.some_inj.mp (hasked.symm.trans hq)
      exact .inr hruns
    have hran : (Maintenance.requestKind hourly numberRunTimes).Ran w "5" :=
      RequestKind.ran_iff.mpr ⟨.manual "5" .quick 5, by simp [hcreated], rfl⟩
    have hgone : ∀ name, w.view.job name = none := by
      intro name
      simp [RunWorld.view, RunWorld.find, hjobs]
    exact ⟨w, w', hrun, hnames, hjobs, hw',
      (hmaintenance askedMaintenance laterOn rfl w hrun).lost ("5", .quick) hstill hran (hgone _)
        hopen {} 10 w' rfl hlength hw'⟩
  · have hruns : ((SnapshotReplication.kind hourly numberRunTimes).step
        { cr := askedReplication, clock := laterOn } (.pass {} 10)).any
        (fun w => w.created.map Creation.name = ["r-msrepl-0"]) = true := by decide
    obtain ⟨w, hw, hnames⟩ := (Option.any_eq_true ..).mp hruns
    have hrun : Reaches (SnapshotReplication.kind hourly numberRunTimes).step
        (SnapshotReplication.requestKind hourly numberRunTimes).Orderly
        { cr := askedReplication, clock := laterOn } w := .tail (a := .pass {} 10) .refl trivial hw
    exact ⟨w, hrun, of_decide_eq_true hnames,
      (hreplication askedReplication laterOn rfl w hrun).once "5"⟩

/-- Two texts of one second share a Job, so that the second is answered by the
first one's success; and a Job that is reaped before the pass recorded it is
created again. -/
theorem requests_answered_twice :
    (∃ w st, Reaches (Maintenance.kind hourly numberRunTimes).step (fun _ _ => True)
          { cr := askedMaintenance, clock := laterOn } w ∧
        w.cr.status.manualRun = some st ∧ Maintenance.succeeds st "6" = true ∧
        ∀ r ∈ w.succeeded, ∀ mode requested, r ≠ .manual "6" mode requested) ∧
      ∃ w, Reaches (SnapshotReplication.kind hourly numberRunTimes).step (fun _ _ => True)
          { cr := askedReplication, clock := laterOn } w ∧
        (w.created.countP fun c => c.run == .manual "5" 5) = 2 := by
  constructor
  · obtain ⟨w, hreach, ⟨st, hst, hsucceeds⟩, hsucceeded⟩ : ∃ w,
        Reaches (Maintenance.kind hourly numberRunTimes).step (fun _ _ => True)
          { cr := askedMaintenance, clock := laterOn } w ∧
          (∃ st ∈ w.cr.status.manualRun, Maintenance.succeeds st "6" = true) ∧
          w.succeeded = [.manual "5" .quick 5] :=
      exists_reaches [.pass {} 10, .finish "m-mq-0" true, .edit { requested := some "6" },
        .pass {} 10] (by decide)
    refine ⟨w, st, hreach, hst, hsucceeds, fun r hr mode requested hsix => ?_⟩
    simp [hsucceeded, hsix] at hr
  · exact exists_reaches [.pass {} 1, .finish "r-msrepl-0" true, .reap "r-msrepl-0", .pass {} 10]
      (by decide)

end Kopiur
