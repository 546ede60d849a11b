import Kopiur.Controller.RunJobs
import Kopiur.Controller.RunRequests
import Kopiur.Controller.StatusConditions
import Kopiur.Controller.ScheduleTiming

/-!
# The reconcile of a Maintenance

A pass answers a requested run first and then runs the slot that is due, the
full one before the quick one. It reads the object once: every guard of a write
looks at the status the pass started with.
-/

namespace Kopiur

open Lib

structure MaintenanceSchedule where
  quick : CronSpec
  full : CronSpec
  timezone : Option String := none
deriving DecidableEq

/-- The status of one mode: when the mover ran it, when its Job was seen to
have succeeded. -/
structure RunStatus where
  lastRunAt : Option String := none
  lastHandledAt : Option String := none
deriving DecidableEq

structure ManualRunStatus where
  requestedAt : Option String := none
  mode : Option MaintenanceMode := none
  -- The phase `pending` is none of a Maintenance.
  phase : Option ManualRunPhase := none
  completedAt : Option String := none
deriving DecidableEq

structure MaintenanceStatus where
  quick : RunStatus := {}
  full : RunStatus := {}
  conditions : List StatusCondition := []
  manualRun : Option ManualRunStatus := none
deriving DecidableEq

structure Maintenance where
  name : String
  uid : Option String := none
  generation : Option Int := none
  schedule : MaintenanceSchedule
  annotations : RunAnnotations := {}
  status : MaintenanceStatus := {}
deriving DecidableEq

def MaintenanceStatus.mode (status : MaintenanceStatus) : MaintenanceMode → RunStatus
  | .quick => status.quick
  | .full => status.full

def MaintenanceStatus.setMode (status : MaintenanceStatus) (run : RunStatus) :
    MaintenanceMode → MaintenanceStatus
  | .quick => { status with quick := run }
  | .full => { status with full := run }

inductive MaintenanceRun
  | cron (mode : MaintenanceMode) (slot : DateTime)
  | manual (requestedAt : String) (mode : MaintenanceMode) (requested : DateTime)
deriving DecidableEq

inductive MaintenancePatch
  -- The whole array.
  | conditions (conditions : List StatusCondition)
  | manualRun (manual : ManualRunStatus)
  | handled (mode : MaintenanceMode) (at' : String)
deriving DecidableEq

abbrev MaintenanceCall := RunCall MaintenancePatch MaintenanceRun

namespace Maintenance

def patch : MaintenancePatch → Maintenance → Maintenance
  | .conditions conditions, m => { m with status := { m.status with conditions } }
  | .manualRun manual, m => { m with status := { m.status with manualRun := some manual } }
  | .handled mode at', m =>
    { m with
      status := m.status.setMode { m.status.mode mode with lastHandledAt := some at' } mode }

section Slots

variable (engine : CronEngine) (times : RunTimes)

def lastRunAt (m : Maintenance) (mode : MaintenanceMode) : Option DateTime :=
  (m.status.mode mode).lastRunAt.bind times.parse

def lastHandledAt (m : Maintenance) (mode : MaintenanceMode) : Option DateTime :=
  (m.status.mode mode).lastHandledAt.bind times.parse

/-- Where the search for the next slot starts. -/
def modeAfter (m : Maintenance) (mode : MaintenanceMode) (now : DateTime) : DateTime :=
  match m.lastRunAt times mode, m.lastHandledAt times mode with
  | some run, some handled => max run handled
  | some run, none => run
  | none, some handled => handled
  | none, none => now - firstLookback

def cronOf (m : Maintenance) : MaintenanceMode → CronSpec
  | .quick =>
    { m.schedule.quick with timezone := m.schedule.quick.timezone <|> m.schedule.timezone }
  | .full => { m.schedule.full with timezone := m.schedule.full.timezone <|> m.schedule.timezone }

def slotFor (m : Maintenance) (mode : MaintenanceMode) (after : DateTime)
    (defaults : Option ScheduleDefaults) : Except ReconcileError DateTime :=
  Kopiur.slotFor engine (m.uid.getD m.name) (m.cronOf mode) after defaults

def dueAt (m : Maintenance) (now : DateTime) (defaults : Option ScheduleDefaults)
    (mode : MaintenanceMode) : Option (MaintenanceMode × DateTime) :=
  match m.slotFor engine mode (m.modeAfter times mode now) defaults with
  | .ok slot => if now ≥ slot then some (mode, slot) else none
  | .error _ => none

def dueMode (m : Maintenance) (now : DateTime) (defaults : Option ScheduleDefaults) :
    Option (MaintenanceMode × DateTime) :=
  [.full, .quick].findSome? (m.dueAt engine times now defaults)

end Slots

def leaseOwnedCondition : String := "LeaseOwned"

/-- The array becomes this one condition, unless it already says so. -/
def patchConditionIfChanged (m : Maintenance) (now : DateTime) (reason message : String) :
    List MaintenanceCall :=
  let unchanged := (StatusCondition.find m.status.conditions leaseOwnedCondition).any fun c =>
    c.status == .false && c.reason == reason
  if unchanged then []
  else
    [.patch (.conditions
      [{ type := leaseOwnedCondition
         status := .false
         reason
         message
         lastTransitionTime := now
         observedGeneration := some (m.generation.getD 0) }])]

/-- What `Ready` is to say: stalled while another owner holds the lease. -/
def readyReport (conditions : List StatusCondition) : ReadyOutcome × String × String :=
  let leaseBlocked := conditions.find? fun c =>
    c.type == leaseOwnedCondition && c.status == .false &&
      (c.reason == "LeaseHeldByOther" || c.reason == "LeaseTakeoverPrompt")
  match leaseBlocked with
  | some c =>
    (.stalled, "MaintenanceYielding",
      "maintenance is not running because another owner holds it (" ++ c.message ++ "). Fix: " ++
        "set spec.ownership.takeoverPolicy=Force once to take ownership, then revert it")
  | none => (.ready, "Reconciled", "maintenance is reconciled")

def setReadyIfChanged (m : Maintenance) (now : DateTime) : List MaintenanceCall :=
  let existing := m.status.conditions
  let (outcome, reason, message) := readyReport existing
  let desired := if outcome == .ready then ConditionStatus.true else .false
  let unchanged := (StatusCondition.find existing readyCondition).any fun c =>
    c.status == desired && c.reason == reason
  if unchanged then []
  else
    [.patch (.conditions (StatusCondition.setReady now existing (some (m.generation.getD 0)) outcome
      reason message))]

def recordHandledSlot (times : RunTimes) (m : Maintenance) (mode : MaintenanceMode)
    (slot now : DateTime) : List MaintenanceCall :=
  if (m.lastHandledAt times mode).any fun at' => at' ≥ slot then []
  else [.patch (.handled mode (times.render now))]

/-- The request, unless the status answers it. -/
def manualRunRequest (times : RunTimes) (m : Maintenance) :
    Except String (Option (DateTime × MaintenanceMode)) :=
  match m.annotations.requested with
  | none => .ok none
  | some raw =>
    let answered := m.status.manualRun.any fun st =>
      st.requestedAt == some raw && st.phase.any ManualRunPhase.answersRequest
    if answered then .ok none else parseRunAnnotations times m.annotations

def alreadyRunning (m : Maintenance) (raw : String) (mode : MaintenanceMode) : Bool :=
  m.status.manualRun.any fun st =>
    st.requestedAt == some raw && st.mode == some mode && st.phase == some .running

/-- The repository and the mover's surroundings, as a pass finds them. -/
structure Env where
  specValid : Bool := true
  -- None when the repository cannot be resolved.
  defaults : Option (Option ScheduleDefaults) := some none
  maintainable : Bool := true
  -- What is said of a pod that cannot start.
  wedged : Option String := none
  -- The namespace does not allow the privileged mover: no Job is created.
  refused : Bool := false

def spawn (env : Env) (name : String) (run : MaintenanceRun) : List MaintenanceCall :=
  if env.refused then [] else [.create name run]

/-- The calls for a request, and whether the pass ends with them. -/
def handleManualRun (times : RunTimes) (env : Env) (view : JobsView) (m : Maintenance)
    (requested : DateTime) (mode : MaintenanceMode) : List MaintenanceCall × Bool :=
  let raw := m.annotations.requested.getD (times.render requested)
  let jobName := manualJobName m.name mode requested
  let record := fun (phase : ManualRunPhase) (completedAt : Option String) =>
    RunCall.patch (MaintenancePatch.manualRun
      { requestedAt := some raw, mode := some mode, phase := some phase, completedAt })
  let completed := some (times.render view.now)
  match view.job jobName with
  | some (some true) => ([record .succeeded completed], false)
  | some (some false) =>
    (record .failed completed :: m.patchConditionIfChanged view.now "MaintenanceFailed"
      "manual maintenance Job failed; see the Job/pod logs", false)
  | some none => ([], true)
  | none =>
    if m.alreadyRunning raw mode then
      (record .failed completed :: m.patchConditionIfChanged view.now "ManualRunOutcomeLost"
        ("the manual maintenance Job was deleted before its result was read; re-annotate to " ++
          "run again"), false)
    else if view.active then ([], true)
    else (spawn env jobName (.manual raw mode requested) ++ [record .running none], true)

/-- The slot that is due, if there is one. -/
def runDueSlot (engine : CronEngine) (times : RunTimes) (env : Env) (view : JobsView)
    (m : Maintenance) (defaults : Option ScheduleDefaults) : List MaintenanceCall :=
  match m.dueMode engine times view.now defaults with
  | none => []
  | some (mode, slot) =>
    let jobName := maintenanceJobName m.name mode slot
    match view.job jobName with
    | some (some true) => m.recordHandledSlot times mode slot view.now
    | some (some false) =>
      m.patchConditionIfChanged view.now "MaintenanceFailed"
        "maintenance Job failed; see the Job/pod logs"
    | some none =>
      match env.wedged with
      | some message =>
        m.patchConditionIfChanged view.now "MoverPodWedged" message ++ [.delete jobName]
      | none => []
    | none => if view.active then [] else spawn env jobName (.cron mode slot)

def reconcile (engine : CronEngine) (times : RunTimes) (env : Env) (view : JobsView)
    (m : Maintenance) : List MaintenanceCall :=
  match env.specValid, env.defaults with
  | false, _ | true, none => []
  | true, some defaults =>
    if !env.maintainable then
      m.patchConditionIfChanged view.now "WaitingForRepository"
        ("waiting for the repository: it is not bootstrapped, unreachable, gone, or failed; " ++
          "maintenance runs once it is healthy")
    else
      m.setReadyIfChanged view.now ++
        match m.manualRunRequest times with
        | .ok none => m.runDueSlot engine times env view defaults
        | .error message =>
          m.patchConditionIfChanged view.now "InvalidRunRequest" message ++
            m.runDueSlot engine times env view defaults
        | .ok (some (requested, mode)) =>
          let (calls, stop) := m.handleManualRun times env view requested mode
          calls ++ if stop then [] else m.runDueSlot engine times env view defaults

/-- A mover that ran stamps its mode. -/
def stamp (times : RunTimes) (run : MaintenanceRun) (now : DateTime) (m : Maintenance) :
    Maintenance :=
  let mode := match run with
    | .cron mode _ | .manual _ mode _ => mode
  { m with
    status := m.status.setMode { m.status.mode mode with lastRunAt := some (times.render now) } mode }

/-- Maintenance as a kind of object that runs Jobs; a user edits the request. -/
def kind (engine : CronEngine) (times : RunTimes) :
    RunKind Maintenance MaintenancePatch MaintenanceRun Env RunAnnotations where
  reconcile := Maintenance.reconcile engine times
  apply := patch
  edit annotations m := { m with annotations }
  stamp := Maintenance.stamp times

end Maintenance

end Kopiur
