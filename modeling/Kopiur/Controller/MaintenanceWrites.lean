import Kopiur.Controller.MaintenancePass
import Kopiur.Controller.StatusWrites
import Kopiur.Lib.Rest

/-!
# The status writes of a Maintenance

A pass has up to three causes to write the conditions: `Ready` is not what it
should be, the request, and the slot. Each write replaces the array, and the two
of `LeaseOwned` keep nothing else in it.
-/

namespace Kopiur

open Lib

namespace Maintenance

section Causes

variable (engine : CronEngine) (times : RunTimes) (env : Env) (view : JobsView) (m : Maintenance)
  (defaults : Option ScheduleDefaults)

/-- `Ready` is what this pass would write. -/
def saysReady : Bool :=
  (StatusCondition.find m.status.conditions readyCondition).any fun c =>
    c.status == (if (readyReport m.status.conditions).1 == .ready then ConditionStatus.true
      else .false) &&
      c.reason == (readyReport m.status.conditions).2.1

def leaseSays (reason : String) : Bool :=
  (StatusCondition.find m.status.conditions leaseOwnedCondition).any fun c =>
    c.status == .false && c.reason == reason

def requestText (requested : DateTime) : String :=
  m.annotations.requested.getD (times.render requested)

/-- What is recorded of the request, and its mode. -/
def requestAnswer : Option (DateTime × MaintenanceMode × ManualRunPhase) :=
  match m.manualRunRequest times with
  | .ok none | .error _ => none
  | .ok (some (requested, mode)) =>
    match view.job (manualJobName m.name mode requested) with
    | some (some true) => some (requested, mode, .succeeded)
    | some (some false) => some (requested, mode, .failed)
    | some none => none
    | none =>
      if m.alreadyRunning (m.requestText times requested) mode then some (requested, mode, .failed)
      else if view.active then none
      else some (requested, mode, .running)

/-- What the request makes `LeaseOwned` say: the reason and the message. -/
def requestCause : Option (String × String) :=
  match m.manualRunRequest times with
  | .ok none => none
  | .error message => some ("InvalidRunRequest", message)
  | .ok (some (requested, mode)) =>
    match view.job (manualJobName m.name mode requested) with
    | some (some false) =>
      some ("MaintenanceFailed", "manual maintenance Job failed; see the Job/pod logs")
    | some _ => none
    | none =>
      if m.alreadyRunning (m.requestText times requested) mode then
        some ("ManualRunOutcomeLost",
          "the manual maintenance Job was deleted before its result was read; re-annotate to " ++
            "run again")
      else none

/-- The pass ends with the request. -/
def requestHolds : Bool :=
  match m.manualRunRequest times with
  | .ok none | .error _ => false
  | .ok (some (requested, mode)) =>
    match view.job (manualJobName m.name mode requested) with
    | some (some _) => false
    | some none => true
    | none => !m.alreadyRunning (m.requestText times requested) mode

/-- What the slot makes `LeaseOwned` say. -/
def slotCause : Option (String × String) :=
  if m.requestHolds times view then none
  else
    (m.dueMode engine times view.now defaults).bind fun (mode, slot) =>
      match view.job (maintenanceJobName m.name mode slot) with
      | some (some false) =>
        some ("MaintenanceFailed", "maintenance Job failed; see the Job/pod logs")
      | some none => env.wedged.map fun message => ("MoverPodWedged", message)
      | some (some true) | none => none

/-- The mode whose slot the pass records as handled. -/
def slotHandled : Option MaintenanceMode :=
  if m.requestHolds times view then none
  else
    (m.dueMode engine times view.now defaults).bind fun (mode, slot) =>
      if view.job (maintenanceJobName m.name mode slot) = some (some true) ∧
          (m.lastHandledAt times mode).any (fun at' => at' ≥ slot) = false then some mode
      else none

/-- A cause that `LeaseOwned` does not say yet. -/
def unsaid (cause : Option (String × String)) : Bool := cause.any fun c => !m.leaseSays c.1

/-- The pass finds at most one cause to write the conditions. -/
def Clear : Prop :=
  ∀ defaults, env.specValid = true → env.maintainable = true → env.defaults = some defaults →
    (m.saysReady = true ∨ m.unsaid (m.requestCause times view) = false) ∧
    (m.saysReady = true ∨ m.unsaid (m.slotCause engine times env view defaults) = false) ∧
    (m.unsaid (m.requestCause times view) = false ∨
      m.unsaid (m.slotCause engine times env view defaults) = false)

end Causes

-- The writes of a pass

/-- The writes of a pass, in order. -/
structure Writes where
  ready : Option (List StatusCondition) := none
  record : Option ManualRunStatus := none
  request : Option (List StatusCondition) := none
  handled : Option (MaintenanceMode × String) := none
  slot : Option (List StatusCondition) := none

def Writes.list (w : Writes) : List MaintenancePatch :=
  w.ready.toList.map .conditions ++ w.record.toList.map .manualRun ++
    w.request.toList.map .conditions ++
    w.handled.toList.map (fun (mode, at') => .handled mode at') ++ w.slot.toList.map .conditions

def readyWrite (m : Maintenance) (now : DateTime) : Option (List StatusCondition) :=
  if m.saysReady then none
  else
    some (StatusCondition.setReady now m.status.conditions (some (m.generation.getD 0))
      (readyReport m.status.conditions).1 (readyReport m.status.conditions).2.1
      (readyReport m.status.conditions).2.2)

def leaseWrite (m : Maintenance) (now : DateTime) (cause : String × String) :
    Option (List StatusCondition) :=
  if m.leaseSays cause.1 then none
  else
    some
      [{ type := leaseOwnedCondition
         status := .false
         reason := cause.1
         message := cause.2
         lastTransitionTime := now
         observedGeneration := some (m.generation.getD 0) }]

section Writes

variable (engine : CronEngine) (times : RunTimes) (env : Env) (view : JobsView) (m : Maintenance)

def requestRecord : Option ManualRunStatus :=
  (m.requestAnswer times view).map fun (requested, mode, phase) =>
    { requestedAt := some (m.requestText times requested)
      mode := some mode
      phase := some phase
      completedAt := if phase.answersRequest then some (times.render view.now) else none }

def writes : Writes :=
  match env.specValid, env.defaults with
  | false, _ | true, none => {}
  | true, some defaults =>
    if !env.maintainable then
      { request := m.leaseWrite view.now ("WaitingForRepository",
          "waiting for the repository: it is not bootstrapped, unreachable, gone, or failed; " ++
            "maintenance runs once it is healthy") }
    else
      { ready := m.readyWrite view.now
        record := m.requestRecord times view
        request := (m.requestCause times view).bind (m.leaseWrite view.now)
        handled := (m.slotHandled engine times view defaults).map (·, times.render view.now)
        slot := (m.slotCause engine times env view defaults).bind (m.leaseWrite view.now) }

end Writes

section Calls

variable {engine : CronEngine} {times : RunTimes} {env : Env} {view : JobsView} {m : Maintenance}

theorem setReadyIfChanged_eq (now : DateTime) : m.setReadyIfChanged now =
    if m.saysReady then []
    else
      [.patch (.conditions (StatusCondition.setReady now m.status.conditions
        (some (m.generation.getD 0)) (readyReport m.status.conditions).1
        (readyReport m.status.conditions).2.1 (readyReport m.status.conditions).2.2))] := rfl

theorem patches_setReadyIfChanged (now : DateTime) : patches (m.setReadyIfChanged now) =
    (m.readyWrite now).toList.map .conditions := by
  cases h : m.saysReady <;> simp [setReadyIfChanged_eq, readyWrite, h]

theorem patches_patchConditionIfChanged (now : DateTime) (reason message : String) :
    patches (m.patchConditionIfChanged now reason message) =
      (m.leaseWrite now (reason, message)).toList.map .conditions := by
  have hcalls : m.patchConditionIfChanged now reason message =
      if m.leaseSays reason then []
      else
        [.patch (.conditions
          [{ type := leaseOwnedCondition
             status := .false
             reason
             message
             lastTransitionTime := now
             observedGeneration := some (m.generation.getD 0) }])] := rfl
  cases h : m.leaseSays reason <;> simp [hcalls, leaseWrite, h]

theorem patches_spawn (name : String) (run : MaintenanceRun) : patches (spawn env name run) = [] := by
  unfold spawn
  split <;> rfl

theorem patches_handleManualRun {requested : DateTime} {mode : MaintenanceMode}
    (h : m.manualRunRequest times = .ok (some (requested, mode))) :
    patches (m.handleManualRun times env view requested mode).1 =
        (m.requestRecord times view).toList.map .manualRun ++
          ((m.requestCause times view).bind (m.leaseWrite view.now)).toList.map .conditions ∧
      (m.handleManualRun times env view requested mode).2 = m.requestHolds times view := by
  unfold handleManualRun requestRecord requestAnswer requestCause requestHolds requestText
  simp only [h]
  cases hjob : view.job (manualJobName m.name mode requested) with
  | some terminal =>
    rcases terminal with _ | _ | _
    · exact ⟨rfl, rfl⟩
    · exact ⟨congrArg _ (patches_patchConditionIfChanged _ _ _), rfl⟩
    · exact ⟨rfl, rfl⟩
  | none =>
    cases hrunning : m.alreadyRunning (m.annotations.requested.getD (times.render requested)) mode
    with
    | true =>
      simp only [if_true]
      exact ⟨congrArg _ (patches_patchConditionIfChanged _ _ _), rfl⟩
    | false =>
      cases hactive : view.active with
      | true => exact ⟨rfl, rfl⟩
      | false =>
        simp only [Bool.false_eq_true, if_false, patches_append, patches_spawn]
        exact ⟨rfl, rfl⟩

theorem patches_runDueSlot {defaults : Option ScheduleDefaults}
    (h : m.requestHolds times view = false) :
    patches (m.runDueSlot engine times env view defaults) =
      ((m.slotHandled engine times view defaults).map
          (·, times.render view.now)).toList.map (fun (mode, at') => .handled mode at') ++
        ((m.slotCause engine times env view defaults).bind
          (m.leaseWrite view.now)).toList.map .conditions := by
  unfold runDueSlot slotHandled slotCause
  simp only [h, Bool.false_eq_true, if_false]
  cases hdue : m.dueMode engine times view.now defaults with
  | none => rfl
  | some due =>
    obtain ⟨mode, slot⟩ := due
    cases hjob : view.job (maintenanceJobName m.name mode slot) with
    | some terminal =>
      rcases terminal with _ | _ | _
      · cases hwedged : env.wedged <;> simp [hjob, patches_patchConditionIfChanged]
      · simp [hjob, patches_patchConditionIfChanged]
      · unfold recordHandledSlot
        cases hhandled : (m.lastHandledAt times mode).any fun at' => at' ≥ slot <;>
          simp [hjob, hhandled]
    | none =>
      cases hactive : view.active <;> simp [hjob, patches_spawn]

theorem patches_reconcile :
    patches (m.reconcile engine times env view) = (m.writes engine times env view).list := by
  unfold reconcile writes
  cases hvalid : env.specValid with
  | false => rfl
  | true =>
    cases hdefaults : env.defaults with
    | none => rfl
    | some defaults =>
      cases hmaintainable : env.maintainable with
      | false => simp [patches_patchConditionIfChanged, Writes.list]
      | true =>
        simp only [Bool.not_true, Bool.false_eq_true, if_false, patches_append,
          patches_setReadyIfChanged, Writes.list, List.append_assoc, List.append_cancel_left_eq]
        cases hrequest : m.manualRunRequest times with
        | error message =>
          have hholds : m.requestHolds times view = false := by simp [requestHolds, hrequest]
          simp only [patches_append, patches_patchConditionIfChanged, patches_runDueSlot hholds]
          simp [requestRecord, requestAnswer, requestCause, hrequest]
        | ok request =>
          rcases request with _ | ⟨requested, mode⟩
          · have hholds : m.requestHolds times view = false := by simp [requestHolds, hrequest]
            simp only [patches_runDueSlot hholds]
            simp [requestRecord, requestAnswer, requestCause, hrequest]
          · obtain ⟨hcalls, hstop⟩ := @patches_handleManualRun _ env view _ _ _ hrequest
            simp only [patches_append, hcalls, hstop]
            cases hholds : m.requestHolds times view with
            | true => simp [slotHandled, slotCause, hholds]
            | false => simp [patches_runDueSlot hholds]

end Calls

def Writes.conditions (w : Writes) (stored : List StatusCondition) : List StatusCondition :=
  (w.slot <|> w.request <|> w.ready).getD stored

def markHandled (status : MaintenanceStatus) : Option (MaintenanceMode × String) → MaintenanceStatus
  | none => status
  | some (mode, at') => status.setMode { status.mode mode with lastHandledAt := some at' } mode

theorem patched_writes {engine : CronEngine} {times : RunTimes} (m : Maintenance) (w : Writes) :
    (kind engine times).patched m w.list =
      { m with
        status :=
          { markHandled m.status w.handled with
            conditions := w.conditions m.status.conditions
            manualRun := w.record <|> m.status.manualRun } } := by
  obtain ⟨ready, record, request, handled, slot⟩ := w
  rcases handled with _ | ⟨mode, at'⟩
  · cases ready <;> cases record <;> cases request <;> cases slot <;> rfl
  · cases mode <;> cases ready <;> cases record <;> cases request <;> cases slot <;> rfl

section Requests

variable {times : RunTimes} {view : JobsView} {m m' : Maintenance}

theorem manualRunRequest_some {requested : DateTime} {mode : MaintenanceMode}
    (h : m.manualRunRequest times = .ok (some (requested, mode))) :
    ∃ raw, m.annotations.requested = some raw ∧
      parseRunAnnotations times m.annotations = .ok (some (requested, mode)) := by
  unfold manualRunRequest at h
  cases hraw : m.annotations.requested with
  | none => simp [hraw] at h
  | some raw =>
    simp only [hraw] at h
    split at h
    · simp at h
    · exact ⟨raw, rfl, h⟩

def stage (times : RunTimes) (m : Maintenance) : Nat :=
  match m.manualRunRequest times with
  | .ok none | .error _ => 0
  | .ok (some (requested, mode)) =>
    if m.alreadyRunning (m.requestText times requested) mode then 1 else 2

theorem stage_lt_of_record {record : ManualRunStatus}
    (h : m.requestRecord times view = some record) (hannotations : m'.annotations = m.annotations)
    (hstatus : m'.status.manualRun = some record) : m'.stage times < m.stage times := by
  obtain ⟨⟨requested, mode, phase⟩, hanswer, hrecord⟩ := Option.map_eq_some_iff.mp h
  unfold requestAnswer at hanswer
  cases hrequest : m.manualRunRequest times with
  | error message => simp [hrequest] at hanswer
  | ok request =>
    rcases request with _ | ⟨requested', mode'⟩
    · simp [hrequest] at hanswer
    · obtain ⟨raw, hraw, hparse⟩ := manualRunRequest_some hrequest
      have htext : ∀ requested, m.requestText times requested = raw := by
        simp [requestText, hraw]
      have htext' : ∀ requested, m'.requestText times requested = raw := by
        simp [requestText, hannotations, hraw]
      simp only [hrequest, htext] at hanswer
      simp only [htext] at hrecord
      -- A terminal phase answers the request, `running` makes it a known one.
      have hterminal : phase.answersRequest = true → m'.stage times = 0 := by
        intro hphase
        simp [stage, manualRunRequest, hannotations, hraw, hstatus, ← hrecord, hphase]
      have hpositive : 0 < m.stage times := by
        simp only [stage, hrequest]
        split <;> omega
      have hanswered : phase.answersRequest = true → m'.stage times < m.stage times :=
        fun hphase => by rw [hterminal hphase]; exact hpositive
      split at hanswer
      · cases hanswer
        exact hanswered rfl
      · cases hanswer
        exact hanswered rfl
      · cases hanswer
      · split at hanswer
        · cases hanswer
          exact hanswered rfl
        · next hrunning =>
          split at hanswer
          · cases hanswer
          · cases hanswer
            have hbefore : m.stage times = 2 := by simp [stage, hrequest, htext, hrunning]
            have hafter : m'.stage times = 1 := by
              simp [stage, manualRunRequest, hannotations, hraw, hstatus, ← hrecord, hparse,
                ManualRunPhase.answersRequest, alreadyRunning, htext']
            omega

theorem stage_congr (hannotations : m'.annotations = m.annotations)
    (hmanual : m'.status.manualRun = m.status.manualRun) : m'.stage times = m.stage times := by
  obtain ⟨_, _, _, _, _, ⟨_, _, _, _⟩⟩ := m
  obtain ⟨_, _, _, _, _, ⟨_, _, _, _⟩⟩ := m'
  cases hannotations
  cases hmanual
  rfl

end Requests

-- Passes that follow each other

section Conditions

variable {m : Maintenance}

theorem leaseSays_of_lease {reason message : String} {now : DateTime} {generation : Option Int}
    (h : m.status.conditions = [⟨leaseOwnedCondition, .false, reason, message, now, generation⟩]) :
    m.leaseSays reason = true ∧ m.saysReady = false := by
  constructor
  · simp [leaseSays, h, StatusCondition.find]
  · simp [saysReady, h, StatusCondition.find, leaseOwnedCondition, readyCondition]

theorem readyReport_setReady {now : DateTime} {existing : List StatusCondition}
    {generation : Option Int} {outcome : ReadyOutcome} {reason message : String} :
    readyReport (StatusCondition.setReady now existing generation outcome reason message) =
      readyReport existing := by
  unfold readyReport
  rw [StatusCondition.find?_setReady]
  rintro c (hc | hc | hc) <;>
    simp [hc, readyCondition, reconcilingCondition, stalledCondition, leaseOwnedCondition]

theorem of_readyWrite {m' : Maintenance} {now : DateTime} {conditions : List StatusCondition}
    (h : m.readyWrite now = some conditions) (hstatus : m'.status.conditions = conditions) :
    m'.saysReady = true ∧ ∀ reason, m'.leaseSays reason = m.leaseSays reason := by
  unfold readyWrite at h
  split at h
  · cases h
  · obtain rfl := Option.some_inj.mp h
    constructor
    · obtain ⟨t, ht⟩ := @StatusCondition.find_setReady now m.status.conditions
        (readyReport m.status.conditions).2.1 (readyReport m.status.conditions).2.2
        (some (m.generation.getD 0)) (readyReport m.status.conditions).1
      simp [saysReady, hstatus, ht, readyReport_setReady]
    · intro reason
      simp only [leaseSays, hstatus]
      rw [StatusCondition.find_setReady_other (by decide) (by decide) (by decide)]

theorem of_leaseWrite {m' : Maintenance} {now : DateTime} {cause : String × String}
    {conditions : List StatusCondition} (h : m.leaseWrite now cause = some conditions)
    (hstatus : m'.status.conditions = conditions) :
    m'.leaseSays cause.1 = true ∧ m'.saysReady = false := by
  unfold leaseWrite at h
  split at h
  · cases h
  · obtain rfl := Option.some_inj.mp h
    exact leaseSays_of_lease hstatus

theorem readyWrite_eq_none {now : DateTime} : m.readyWrite now = none ↔ m.saysReady = true := by
  simp [readyWrite]

theorem exists_readyWrite {now : DateTime} (h : m.saysReady = false) :
    ∃ array, m.readyWrite now = some array := by simp [readyWrite, h]

theorem leaseWrite_eq_none {now : DateTime} {cause : String × String} :
    m.leaseWrite now cause = none ↔ m.leaseSays cause.1 = true := by simp [leaseWrite]

theorem bind_leaseWrite_eq_none {now : DateTime} {cause : Option (String × String)} :
    cause.bind (m.leaseWrite now) = none ↔ m.unsaid cause = false := by
  cases cause with
  | none => simp [unsaid]
  | some cause => simp [unsaid, leaseWrite_eq_none]

end Conditions

section Due

variable {engine : CronEngine} {times : RunTimes} {m : Maintenance} {now : DateTime}
  {defaults : Option ScheduleDefaults} {mode mode' : MaintenanceMode} {slot : DateTime}

theorem dueAt_some (h : m.dueAt engine times now defaults mode = some (mode', slot)) :
    mode' = mode ∧ slot ≤ now ∧
      m.slotFor engine mode (m.modeAfter times mode now) defaults = .ok slot := by
  unfold dueAt at h
  split at h
  · next slot' hslot =>
    split at h
    · next hnow =>
      cases h
      exact ⟨rfl, hnow, hslot⟩
    · cases h
  · cases h

theorem dueAt_of_dueMode (h : m.dueMode engine times now defaults = some (mode, slot)) :
    m.dueAt engine times now defaults mode = some (mode, slot) := by
  obtain ⟨mode', -, hdue⟩ := List.exists_of_findSome?_eq_some h
  obtain ⟨rfl, -⟩ := dueAt_some hdue
  exact hdue

theorem le_modeAfter (h : m.lastHandledAt times mode = some slot) :
    slot ≤ m.modeAfter times mode now := by
  unfold modeAfter
  rw [h]
  cases m.lastRunAt times mode with
  | none => exact le_refl slot
  | some run => exact le_max_right run slot

theorem mode_markHandled (status : MaintenanceStatus) (at' : String) :
    ((markHandled status (some (mode, at'))).mode mode).lastHandledAt = some at' := by
  cases mode <;> rfl

end Due

section Passes

variable (engine : CronEngine) (times : RunTimes) (still : Stillness Env) (clock : Nat → DateTime)
  (m : Maintenance)

def object (n : Nat) : Maintenance := (kind engine times).object still clock m n

def objectWrites (n : Nat) : Writes :=
  (object engine times still clock m n).writes engine times still.env (still.view (clock n))

def NoneBecomesDue : Prop :=
  ∀ n defaults mode due, still.env.defaults = some defaults →
    (object engine times still clock m (n + 1)).dueAt engine times (clock (n + 1)) defaults mode =
      some due →
    (object engine times still clock m n).dueAt engine times (clock n) defaults mode = some due

def dueCount (n : Nat) (mode : MaintenanceMode) : Nat :=
  match still.env.defaults with
  | none => 0
  | some defaults =>
    if ((object engine times still clock m n).dueAt engine times (clock n) defaults mode).isSome
    then 1 else 0

def outstanding (n : Nat) : Nat :=
  (object engine times still clock m n).stage times + dueCount engine times still clock m n .full +
    dueCount engine times still clock m n .quick

variable {engine times still clock m}

theorem writes_eq (n : Nat) : (kind engine times).writes still clock m n =
    (objectWrites engine times still clock m n).list := patches_reconcile

theorem object_next (n : Nat) : object engine times still clock m (n + 1) =
    { object engine times still clock m n with
      status :=
        { markHandled (object engine times still clock m n).status
            (objectWrites engine times still clock m n).handled with
          conditions := (objectWrites engine times still clock m n).conditions
            (object engine times still clock m n).status.conditions
          manualRun := (objectWrites engine times still clock m n).record <|>
            (object engine times still clock m n).status.manualRun } } := by
  rw [object, RunKind.object_succ, writes_eq, patched_writes]
  rfl

section Outstanding

variable {n : Nat}

theorem record_of_writes {record : ManualRunStatus}
    (h : (objectWrites engine times still clock m n).record = some record) :
    (object engine times still clock m n).requestRecord times (still.view (clock n)) =
      some record := by
  unfold objectWrites writes at h
  split at h
  · cases h
  · cases h
  · split at h
    · cases h
    · exact h

theorem handled_of_writes {mode : MaintenanceMode} {at' : String}
    (h : (objectWrites engine times still clock m n).handled = some (mode, at')) :
    at' = times.render (clock n) ∧ ∃ defaults slot, still.env.defaults = some defaults ∧
      (object engine times still clock m n).dueAt engine times (clock n) defaults mode =
        some (mode, slot) := by
  unfold objectWrites writes at h
  split at h
  · cases h
  · cases h
  · next defaults _ hdefaults =>
    split at h
    · cases h
    · obtain ⟨mode', hslot, heq⟩ := Option.map_eq_some_iff.mp h
      cases heq
      unfold slotHandled at hslot
      split at hslot
      · cases hslot
      · obtain ⟨⟨mode', slot⟩, hdue, hmode⟩ := Option.bind_eq_some_iff.mp hslot
        dsimp only at hmode
        split at hmode
        · cases hmode
          exact ⟨rfl, defaults, slot, hdefaults, dueAt_of_dueMode hdue⟩
        · cases hmode

theorem stage_le : (object engine times still clock m (n + 1)).stage times ≤
    (object engine times still clock m n).stage times := by
  cases hrecord : (objectWrites engine times still clock m n).record with
  | none => exact (stage_congr (by simp [object_next]) (by simp [object_next, hrecord])).le
  | some record =>
    exact (stage_lt_of_record (record_of_writes hrecord) (by simp [object_next])
      (by simp [object_next, hrecord])).le

theorem dueCount_le (hdue : NoneBecomesDue engine times still clock m) (mode : MaintenanceMode) :
    dueCount engine times still clock m (n + 1) mode ≤ dueCount engine times still clock m n mode := by
  unfold dueCount
  cases hdefaults : still.env.defaults with
  | none => exact le_refl 0
  | some defaults =>
    dsimp only
    split
    · next hsome =>
      obtain ⟨due, hat⟩ := Option.isSome_iff_exists.mp hsome
      simp [hdue n defaults mode due hdefaults hat]
    · exact Nat.zero_le _

theorem outstanding_le (hdue : NoneBecomesDue engine times still clock m) :
    outstanding engine times still clock m (n + 1) ≤ outstanding engine times still clock m n := by
  have hstage := @stage_le engine times still clock m n
  have hfull := @dueCount_le engine times still clock m n hdue .full
  have hquick := @dueCount_le engine times still clock m n hdue .quick
  unfold outstanding
  omega

variable (hread : ∀ t, times.parse (times.render t) = some t) (hengine : engine.Exclusive)
  (hdue : NoneBecomesDue engine times still clock m)

include hread hengine hdue in
theorem dueAt_of_handled {mode : MaintenanceMode} {at' : String}
    {defaults : Option ScheduleDefaults} (hdefaults : still.env.defaults = some defaults)
    (h : (objectWrites engine times still clock m n).handled = some (mode, at')) :
    (object engine times still clock m (n + 1)).dueAt engine times (clock (n + 1)) defaults mode =
      none := by
  obtain ⟨rfl, defaults', slot, hdefaults', hbefore⟩ := handled_of_writes h
  obtain rfl : defaults' = defaults := by simpa [hdefaults] using hdefaults'.symm
  by_contra hafter
  obtain ⟨due, hafter⟩ := Option.ne_none_iff_exists'.mp hafter
  have hsame := hdue n defaults' mode due hdefaults hafter
  rw [hbefore] at hsame
  cases hsame
  obtain ⟨-, hle, -⟩ := dueAt_some hbefore
  obtain ⟨-, -, hslot⟩ := dueAt_some hafter
  have hstamp : (object engine times still clock m (n + 1)).lastHandledAt times mode =
      some (clock n) := by
    rw [object_next, h]
    have := @mode_markHandled mode (object engine times still clock m n).status
      (times.render (clock n))
    simp only [lastHandledAt]
    cases mode <;> simp_all [MaintenanceStatus.mode]
  have hafter := nextFire_gt hengine hslot
  exact absurd (hle.trans (le_modeAfter hstamp)) (not_le.mpr hafter)

include hread hengine hdue in
theorem object_of_outstanding
    (h : outstanding engine times still clock m (n + 1) = outstanding engine times still clock m n) :
    (objectWrites engine times still clock m n).record = none ∧
      (objectWrites engine times still clock m n).handled = none ∧
      ∀ defaults mode, still.env.defaults = some defaults →
        (object engine times still clock m (n + 1)).dueAt engine times (clock (n + 1)) defaults
            mode =
          (object engine times still clock m n).dueAt engine times (clock n) defaults mode := by
  have hstage := @stage_le engine times still clock m n
  have hcount := @dueCount_le engine times still clock m n hdue
  have hcounts : ∀ mode, dueCount engine times still clock m (n + 1) mode =
      dueCount engine times still clock m n mode := by
    have hfull := hcount .full
    have hquick := hcount .quick
    unfold outstanding at h
    intro mode
    cases mode <;> omega
  have hstages : (object engine times still clock m (n + 1)).stage times =
      (object engine times still clock m n).stage times := by
    have hfull := hcounts .full
    have hquick := hcounts .quick
    unfold outstanding at h
    omega
  refine ⟨?_, ?_, fun defaults mode hdefaults => ?_⟩
  · cases hrecord : (objectWrites engine times still clock m n).record with
    | none => rfl
    | some record =>
      have hlt : (object engine times still clock m (n + 1)).stage times < _ :=
        stage_lt_of_record (record_of_writes hrecord) (by simp [object_next])
          (by simp [object_next, hrecord])
      omega
  · cases hhandled : (objectWrites engine times still clock m n).handled with
    | none => rfl
    | some handled =>
      obtain ⟨mode, at'⟩ := handled
      obtain ⟨-, defaults, slot, hdefaults, hbefore⟩ := handled_of_writes hhandled
      have hafter := dueAt_of_handled hread hengine hdue hdefaults hhandled
      have := hcounts mode
      simp [dueCount, hdefaults, hbefore, hafter] at this
  · cases hafter : (object engine times still clock m (n + 1)).dueAt engine times (clock (n + 1))
      defaults mode with
    | some due => exact (hdue n defaults mode due hdefaults hafter).symm
    | none =>
      cases hbefore : (object engine times still clock m n).dueAt engine times (clock n) defaults
        mode with
      | none => rfl
      | some due =>
        have := hcounts mode
        simp [dueCount, hdefaults, hbefore, hafter] at this

include hread hengine hdue in
theorem causes_of_outstanding
    (h : outstanding engine times still clock m (n + 1) = outstanding engine times still clock m n) :
    (object engine times still clock m (n + 1)).requestCause times (still.view (clock (n + 1))) =
        (object engine times still clock m n).requestCause times (still.view (clock n)) ∧
      ∀ defaults, still.env.defaults = some defaults →
        (object engine times still clock m (n + 1)).slotCause engine times still.env
            (still.view (clock (n + 1))) defaults =
          (object engine times still clock m n).slotCause engine times still.env
            (still.view (clock n)) defaults := by
  obtain ⟨hrecord, hhandled, hsame⟩ := object_of_outstanding hread hengine hdue h
  have hnext := @object_next engine times still clock m n
  rw [hrecord, hhandled] at hnext
  refine ⟨by rw [hnext]; rfl, fun defaults hdefaults => ?_⟩
  have hmode : (object engine times still clock m (n + 1)).dueMode engine times (clock (n + 1))
      defaults = (object engine times still clock m n).dueMode engine times (clock n) defaults := by
    unfold dueMode
    congr 1
    funext mode
    exact hsame defaults mode hdefaults
  have hholds : (object engine times still clock m (n + 1)).requestHolds times
      (still.view (clock (n + 1))) =
        (object engine times still clock m n).requestHolds times (still.view (clock n)) := by
    rw [hnext]
    rfl
  have hname : (object engine times still clock m (n + 1)).name =
      (object engine times still clock m n).name := by simp [object_next]
  unfold slotCause
  rw [hholds, hname]
  simp only [Stillness.view, hmode]
  rfl

end Outstanding

-- Coming to rest

theorem objectWrites_open {n : Nat} {defaults : Option ScheduleDefaults}
    (hvalid : still.env.specValid = true) (hmaintainable : still.env.maintainable = true)
    (hdefaults : still.env.defaults = some defaults) :
    objectWrites engine times still clock m n =
      { ready := (object engine times still clock m n).readyWrite (clock n)
        record := (object engine times still clock m n).requestRecord times (still.view (clock n))
        request := ((object engine times still clock m n).requestCause times
          (still.view (clock n))).bind ((object engine times still clock m n).leaseWrite (clock n))
        handled := ((object engine times still clock m n).slotHandled engine times
          (still.view (clock n)) defaults).map (·, times.render (clock n))
        slot := ((object engine times still clock m n).slotCause engine times still.env
          (still.view (clock n)) defaults).bind
            ((object engine times still clock m n).leaseWrite (clock n)) } := by
  unfold objectWrites writes
  simp only [hvalid, hdefaults, hmaintainable, Bool.not_true, Bool.false_eq_true, if_false]
  rfl

section Rest

variable {n : Nat} {defaults : Option ScheduleDefaults}
  (hread : ∀ t, times.parse (times.render t) = some t) (hengine : engine.Exclusive)
  (hdue : NoneBecomesDue engine times still clock m)
  (hvalid : still.env.specValid = true) (hmaintainable : still.env.maintainable = true)
  (hdefaults : still.env.defaults = some defaults)

/-- The request and the slot have nothing to say that `LeaseOwned` does not. -/
def LeaseQuiet (engine : CronEngine) (times : RunTimes) (still : Stillness Env)
    (clock : Nat → DateTime) (m : Maintenance) (defaults : Option ScheduleDefaults) (n : Nat) :
    Prop :=
  let before := object engine times still clock m n
  before.unsaid (before.requestCause times (still.view (clock n))) = false ∧
    before.unsaid (before.slotCause engine times still.env (still.view (clock n)) defaults) = false

include hread hengine hdue hvalid hmaintainable hdefaults

theorem list_eq_nil_iff
    (h : outstanding engine times still clock m (n + 1) = outstanding engine times still clock m n) :
    (objectWrites engine times still clock m n).list = [] ↔
      (object engine times still clock m n).saysReady = true ∧
        LeaseQuiet engine times still clock m defaults n := by
  obtain ⟨hrecord, hhandled, -⟩ := object_of_outstanding hread hengine hdue h
  have hbind := fun cause =>
    @bind_leaseWrite_eq_none (object engine times still clock m n) (clock n) cause
  simp only [Writes.list, hrecord, hhandled]
  simp only [objectWrites_open hvalid hmaintainable hdefaults, LeaseQuiet, ← hbind]
  simp [readyWrite]

/-- A pass that only writes `Ready` is followed by a quiet one. -/
theorem quiet_of_leaseQuiet
    (h : ∀ l, n ≤ l → outstanding engine times still clock m l =
      outstanding engine times still clock m n)
    (hlease : LeaseQuiet engine times still clock m defaults n) :
    ∃ l, n ≤ l ∧ (objectWrites engine times still clock m l).list = [] := by
  have hlist := fun l (hl : n ≤ l) => list_eq_nil_iff (n := l) hread hengine hdue hvalid
    hmaintainable hdefaults ((h (l + 1) (by omega)).trans (h l hl).symm)
  cases hready : (object engine times still clock m n).saysReady with
  | true => exact ⟨n, le_refl n, (hlist n (le_refl n)).mpr ⟨hready, hlease⟩⟩
  | false =>
    obtain ⟨hrecord, hhandled, -⟩ := object_of_outstanding hread hengine hdue (h (n + 1) (by omega))
    obtain ⟨hrequest, hslot⟩ := causes_of_outstanding hread hengine hdue (h (n + 1) (by omega))
    obtain ⟨conditions, hwrite⟩ : ∃ conditions,
        (object engine times still clock m n).readyWrite (clock n) = some conditions :=
      exists_readyWrite hready
    have hconditions : (object engine times still clock m (n + 1)).status.conditions = conditions := by
      rw [object_next, objectWrites_open hvalid hmaintainable hdefaults]
      simp only [Writes.conditions, hwrite, bind_leaseWrite_eq_none.mpr hlease.1,
        bind_leaseWrite_eq_none.mpr hlease.2]
      rfl
    obtain ⟨hsaid, hleases⟩ := of_readyWrite hwrite hconditions
    have hunsaid : ∀ cause, (object engine times still clock m (n + 1)).unsaid cause =
        (object engine times still clock m n).unsaid cause := by
      intro cause
      simp [unsaid, hleases]
    refine ⟨n + 1, by omega, (hlist (n + 1) (by omega)).mpr ⟨hsaid, ?_⟩⟩
    unfold LeaseQuiet
    dsimp only
    rw [hrequest, hslot defaults hdefaults, hunsaid, hunsaid]
    exact hlease

theorem leaseQuiet_succ
    (h : outstanding engine times still clock m (n + 1) = outstanding engine times still clock m n)
    (hready : (object engine times still clock m n).saysReady = true)
    (hlease : LeaseQuiet engine times still clock m defaults n) :
    (object engine times still clock m (n + 1)).saysReady = true ∧
      LeaseQuiet engine times still clock m defaults (n + 1) := by
  obtain ⟨hrequest, hslot⟩ := causes_of_outstanding hread hengine hdue h
  have hconditions : (object engine times still clock m (n + 1)).status.conditions =
      (object engine times still clock m n).status.conditions := by
    rw [object_next, objectWrites_open hvalid hmaintainable hdefaults]
    simp only [Writes.conditions, readyWrite, hready, bind_leaseWrite_eq_none.mpr hlease.1,
      bind_leaseWrite_eq_none.mpr hlease.2]
    rfl
  have hunsaid : ∀ cause, (object engine times still clock m (n + 1)).unsaid cause =
      (object engine times still clock m n).unsaid cause := by
    intro cause
    simp [unsaid, leaseSays, hconditions]
  constructor
  · simpa [saysReady, hconditions] using hready
  · unfold LeaseQuiet
    dsimp only
    rw [hrequest, hslot defaults hdefaults, hunsaid, hunsaid]
    exact hlease

/-- A pass that only writes `LeaseOwned` leaves only `Ready` to the next. -/
theorem quiet_of_clear
    (h : ∀ l, n ≤ l → outstanding engine times still clock m l =
      outstanding engine times still clock m n)
    (hclear : ∀ l, (object engine times still clock m l).Clear engine times still.env
      (still.view (clock l))) :
    ∃ l, n ≤ l ∧ (objectWrites engine times still clock m l).list = [] := by
  by_cases hlease : LeaseQuiet engine times still clock m defaults n
  · exact quiet_of_leaseQuiet hread hengine hdue hvalid hmaintainable hdefaults h hlease
  · obtain ⟨hready, hready', hone⟩ := hclear n defaults hvalid hmaintainable hdefaults
    -- One of the two writes, and it takes `Ready` out of the array.
    obtain ⟨cause, conditions, hwrite, hconditions⟩ : ∃ cause conditions,
        (object engine times still clock m n).leaseWrite (clock n) cause = some conditions ∧
          (object engine times still clock m (n + 1)).status.conditions = conditions := by
      rw [object_next, objectWrites_open hvalid hmaintainable hdefaults]
      simp only [Writes.conditions]
      cases hslot : ((object engine times still clock m n).slotCause engine times still.env
          (still.view (clock n)) defaults).bind
            ((object engine times still clock m n).leaseWrite (clock n)) with
      | some conditions =>
        obtain ⟨cause, -, hwrite⟩ := Option.bind_eq_some_iff.mp hslot
        exact ⟨cause, conditions, hwrite, rfl⟩
      | none =>
        cases hrequest : ((object engine times still clock m n).requestCause times
            (still.view (clock n))).bind
              ((object engine times still clock m n).leaseWrite (clock n)) with
        | some conditions =>
          obtain ⟨cause, -, hwrite⟩ := Option.bind_eq_some_iff.mp hrequest
          exact ⟨cause, conditions, hwrite, rfl⟩
        | none =>
          exact absurd ⟨bind_leaseWrite_eq_none.mp hrequest, bind_leaseWrite_eq_none.mp hslot⟩ hlease
    obtain ⟨-, hsaid⟩ := of_leaseWrite hwrite hconditions
    obtain ⟨hnext, hnext', -⟩ := hclear (n + 1) defaults hvalid hmaintainable hdefaults
    obtain ⟨l, hl, hquiet⟩ := quiet_of_leaseQuiet (n := n + 1) hread hengine hdue hvalid
      hmaintainable hdefaults
      (fun l hl => (h l (by omega)).trans (h (n + 1) (by omega)).symm)
      ⟨hnext.resolve_left (by simp [hsaid]), hnext'.resolve_left (by simp [hsaid])⟩
    exact ⟨l, by omega, hquiet⟩

end Rest

section Settles

theorem writes_unmaintained (hclosed : still.env.specValid = false ∨ still.env.defaults = none)
    (n : Nat) : (objectWrites engine times still clock m n).list = [] := by
  unfold objectWrites writes
  rcases hclosed with hclosed | hclosed
  · rw [hclosed]
    rfl
  · rw [hclosed]
    cases still.env.specValid <;> rfl

theorem writes_waiting (hvalid : still.env.specValid = true)
    (hwaiting : still.env.maintainable = false) {defaults : Option ScheduleDefaults}
    (hdefaults : still.env.defaults = some defaults) (n : Nat) :
    (objectWrites engine times still clock m (n + 1)).list = [] := by
  have hwrites : ∀ l, ∃ message, objectWrites engine times still clock m l =
      { request := (object engine times still clock m l).leaseWrite (clock l)
          ("WaitingForRepository", message) } := by
    intro l
    unfold objectWrites writes
    simp only [hvalid, hdefaults, hwaiting, Bool.not_false, if_true]
    exact ⟨_, rfl⟩
  obtain ⟨message, hbefore⟩ := hwrites n
  obtain ⟨message', hafter⟩ := hwrites (n + 1)
  have hsaid : (object engine times still clock m (n + 1)).leaseSays "WaitingForRepository" = true := by
    cases hwrite : (object engine times still clock m n).leaseWrite (clock n)
        ("WaitingForRepository", message) with
    | some conditions =>
      refine (of_leaseWrite hwrite ?_).1
      rw [object_next, hbefore, hwrite]
      rfl
    | none =>
      have hconditions : (object engine times still clock m (n + 1)).status.conditions =
          (object engine times still clock m n).status.conditions := by
        rw [object_next, hbefore, hwrite]
        rfl
      unfold leaseSays
      rw [hconditions]
      exact leaseWrite_eq_none.mp hwrite
  rw [hafter, leaseWrite_eq_none.mpr (by exact hsaid)]
  rfl

theorem rests (hread : ∀ t, times.parse (times.render t) = some t) (hengine : engine.Exclusive)
    (hdue : NoneBecomesDue engine times still clock m)
    (hclear : ∀ n, (object engine times still clock m n).Clear engine times still.env
      (still.view (clock n))) :
    ∃ N, ∀ n, N ≤ n → (kind engine times).writes still clock m n = [] := by
  simp only [writes_eq]
  cases hvalid : still.env.specValid with
  | false => exact ⟨0, fun n _ => writes_unmaintained (.inl hvalid) n⟩
  | true =>
    cases hdefaults : still.env.defaults with
    | none => exact ⟨0, fun n _ => writes_unmaintained (.inr hdefaults) n⟩
    | some defaults =>
      cases hmaintainable : still.env.maintainable with
      | false =>
        refine ⟨1, fun n hn => ?_⟩
        obtain ⟨l, rfl⟩ := Nat.exists_eq_add_of_le' hn
        exact writes_waiting hvalid hmaintainable hdefaults l
      | true =>
        refine comes_to_rest (fun n => outstanding_le hdue)
          (fun n hn => quiet_of_clear hread hengine hdue hvalid hmaintainable hdefaults hn hclear) ?_
        intro n hn hquiet
        have hlist := fun l (hl : n ≤ l) => list_eq_nil_iff (n := l) hread hengine hdue hvalid
          hmaintainable hdefaults ((hn (l + 1) (by omega)).trans (hn l hl).symm)
        obtain ⟨hready, hlease⟩ := (hlist n (le_refl n)).mp hquiet
        exact (hlist (n + 1) (by omega)).mpr (leaseQuiet_succ hread hengine hdue hvalid
          hmaintainable hdefaults (hn (n + 1) (by omega)) hready hlease)

theorem requestCause_ne_slotCause {m : Maintenance} {env : Env} {view : JobsView}
    {defaults : Option ScheduleDefaults} {cause : String × String}
    (h : m.requestCause times view = some cause) :
    m.slotCause engine times env view defaults ≠ some cause := by
  intro hslot
  have hslots : cause = ("MaintenanceFailed", "maintenance Job failed; see the Job/pod logs") ∨
      cause.1 = "MoverPodWedged" := by
    unfold slotCause at hslot
    split at hslot
    · cases hslot
    · obtain ⟨⟨mode, slot⟩, -, hcause⟩ := Option.bind_eq_some_iff.mp hslot
      dsimp only at hcause
      split at hcause
      · cases hcause
        exact .inl rfl
      · obtain ⟨message, -, rfl⟩ := Option.map_eq_some_iff.mp hcause
        exact .inr rfl
      · cases hcause
      · cases hcause
  unfold requestCause at h
  split at h
  · cases h
  · cases h
    rcases hslots with hslots | hslots
    · exact absurd (congrArg Prod.fst hslots) (by simp)
    · exact absurd hslots (by simp)
  · split at h
    · cases h
      rcases hslots with hslots | hslots
      · exact absurd (congrArg Prod.snd hslots) (by decide)
      · exact absurd hslots (by decide)
    · cases h
    · split at h
      · cases h
        rcases hslots with hslots | hslots
        · exact absurd (congrArg Prod.fst hslots) (by decide)
        · exact absurd hslots (by decide)
      · cases h

end Settles

section Kept

def storedConditions (m : Maintenance) : List StatusCondition := m.status.conditions

theorem conditions_handled (mode : MaintenanceMode) (at' : String) (m : Maintenance) :
    storedConditions (patch (.handled mode at') m) = storedConditions m := by
  cases mode <;> rfl

theorem not_erases_of_writes {m : Maintenance} {w : Writes}
    (hrequest : w.ready = none ∨ w.request = none) (hslot : w.ready = none ∨ w.slot = none)
    (hboth : w.request = none ∨ w.slot = none) :
    ¬ (kind engine times).Erases storedConditions m w.list := by
  apply RunKind.not_erases_of_single
  have hmanual : ∀ manual x, storedConditions (patch (.manualRun manual) x) = storedConditions x :=
    fun _ _ => rfl
  obtain ⟨ready, record, request, handled, slot⟩ := w
  cases ready <;> cases record <;> cases request <;> cases handled <;> cases slot <;>
    simp_all [Writes.list, kind, conditions_handled]

theorem erases_of_lost {m : Maintenance} {w : Writes} {before after : List MaintenancePatch}
    {conditions : List StatusCondition} {c : StatusCondition}
    (hlist : w.list = before ++ .conditions conditions :: after)
    (hbefore : storedConditions ((kind engine times).patched m before) = storedConditions m)
    (hstored : StatusCondition.find (storedConditions m) c.type ≠ some c)
    (hwrote : StatusCondition.find conditions c.type = some c)
    (hlost : StatusCondition.find (w.conditions (storedConditions m)) c.type ≠ some c) :
    (kind engine times).Erases storedConditions m w.list := by
  refine ⟨before, _, after, c, hlist, by rwa [hbefore], ?_, ?_⟩
  · rw [RunKind.patched_append]
    exact hwrote
  · rw [patched_writes]
    exact hlost

/-- A write of `LeaseOwned` after one of `Ready` takes `Ready` away. -/
theorem erases_ready {m : Maintenance} {w : Writes} {now : DateTime} {cause : String × String}
    {array lease : List StatusCondition} (hready : w.ready = some array)
    (harray : m.readyWrite now = some array) (hwrite : (w.slot <|> w.request) = some lease)
    (hlease : m.leaseWrite now cause = some lease) :
    (kind engine times).Erases storedConditions m w.list := by
  unfold readyWrite at harray
  split at harray
  · cases harray
  · next hsaid =>
    obtain ⟨t, ht⟩ := @StatusCondition.find_setReady now m.status.conditions
      (readyReport m.status.conditions).2.1 (readyReport m.status.conditions).2.2
      (some (m.generation.getD 0)) (readyReport m.status.conditions).1
    rw [Option.some_inj.mp harray] at ht
    have hsplit : w.list = [] ++ .conditions array :: (w.record.toList.map .manualRun ++
        w.request.toList.map .conditions ++
        w.handled.toList.map (fun (mode, at') => .handled mode at') ++
        w.slot.toList.map .conditions) := by simp [Writes.list, hready]
    refine erases_of_lost (c := ⟨readyCondition, _, _, _, t, _⟩) hsplit rfl ?_ ht ?_
    · intro hstored
      apply hsaid
      unfold saysReady
      rw [show StatusCondition.find m.status.conditions readyCondition = _ from hstored]
      simp
    · have hconditions : w.conditions (storedConditions m) = lease := by
        unfold Writes.conditions
        cases hslot : w.slot <;> cases hrequest : w.request <;> simp_all
      unfold leaseWrite at hlease
      split at hlease
      · cases hlease
      · rw [hconditions, ← Option.some_inj.mp hlease]
        simp [StatusCondition.find, leaseOwnedCondition, readyCondition]

theorem erases_request {m : Maintenance} {w : Writes} {now : DateTime}
    {cause cause' : String × String} {array lease : List StatusCondition} (hready : w.ready = none)
    (hrequest : w.request = some array) (harray : m.leaseWrite now cause = some array)
    (hslot : w.slot = some lease) (hlease : m.leaseWrite now cause' = some lease)
    (hne : cause ≠ cause') : (kind engine times).Erases storedConditions m w.list := by
  unfold leaseWrite at harray hlease
  split at harray
  · cases harray
  · next hsaid =>
    split at hlease
    · cases hlease
    · have hsplit : w.list = w.record.toList.map .manualRun ++ .conditions array ::
          (w.handled.toList.map (fun (mode, at') => .handled mode at') ++
            w.slot.toList.map .conditions) := by
        simp [Writes.list, hready, hrequest]
      refine erases_of_lost (c := ⟨leaseOwnedCondition, .false, cause.1, cause.2, now,
        some (m.generation.getD 0)⟩) hsplit ?_ ?_ ?_ ?_
      · cases w.record <;> rfl
      · intro hstored
        apply hsaid
        unfold leaseSays
        rw [show StatusCondition.find m.status.conditions leaseOwnedCondition = _ from hstored]
        simp
      · rw [← Option.some_inj.mp harray]
        simp [StatusCondition.find]
      · have hconditions : w.conditions (storedConditions m) = lease := by
          simp [Writes.conditions, hslot]
        rw [hconditions, ← Option.some_inj.mp hlease]
        intro heq
        apply hne
        have hfields : cause'.1 = cause.1 ∧ cause'.2 = cause.2 := by
          simpa [StatusCondition.find] using heq
        exact Prod.ext hfields.1.symm hfields.2.symm

theorem exists_leaseWrite {m : Maintenance} {now : DateTime} {cause : Option (String × String)}
    (h : m.unsaid cause = true) : ∃ c lease, cause = some c ∧ m.leaseWrite now c = some lease ∧
      cause.bind (m.leaseWrite now) = some lease := by
  have hbind : cause.bind (m.leaseWrite now) ≠ none := by
    rw [Ne, bind_leaseWrite_eq_none, h]
    simp
  obtain ⟨lease, hlease⟩ := Option.ne_none_iff_exists'.mp hbind
  obtain ⟨c, rfl, hwrite⟩ := Option.bind_eq_some_iff.mp hlease
  exact ⟨c, lease, rfl, hwrite, hlease⟩

theorem kept_iff_clear (n : Nat) :
    ¬ (kind engine times).Erases storedConditions (object engine times still clock m n)
        ((kind engine times).writes still clock m n) ↔
      (object engine times still clock m n).Clear engine times still.env (still.view (clock n)) := by
  rw [writes_eq]
  constructor
  · intro hkept defaults hvalid hmaintainable hdefaults
    rw [objectWrites_open hvalid hmaintainable hdefaults] at hkept
    generalize object engine times still clock m n = before at hkept ⊢
    refine ⟨?_, ?_, ?_⟩
    · by_contra hcauses
      obtain ⟨hsaid, hunsaid⟩ := not_or.mp hcauses
      rw [Bool.not_eq_true] at hsaid
      rw [Bool.not_eq_false] at hunsaid
      obtain ⟨array, harray⟩ := exists_readyWrite hsaid
      obtain ⟨cause, lease, -, hlease, hbind⟩ := exists_leaseWrite hunsaid
      cases hslot : (before.slotCause engine times still.env (still.view (clock n)) defaults).bind
          (before.leaseWrite (clock n)) with
      | none => exact hkept (erases_ready harray harray (by simp [hslot, hbind]) hlease)
      | some lease' =>
        obtain ⟨cause', -, hlease'⟩ := Option.bind_eq_some_iff.mp hslot
        exact hkept (erases_ready harray harray (by simp [hslot]) hlease')
    · by_contra hcauses
      obtain ⟨hsaid, hunsaid⟩ := not_or.mp hcauses
      rw [Bool.not_eq_true] at hsaid
      rw [Bool.not_eq_false] at hunsaid
      obtain ⟨array, harray⟩ := exists_readyWrite hsaid
      obtain ⟨cause, lease, -, hlease, hbind⟩ := exists_leaseWrite hunsaid
      exact hkept (erases_ready harray harray (by simp [hbind]) hlease)
    · by_contra hcauses
      obtain ⟨hrequest, hslot⟩ := not_or.mp hcauses
      rw [Bool.not_eq_false] at hrequest hslot
      obtain ⟨cause, array, hcause, harray, hbind⟩ := exists_leaseWrite hrequest
      obtain ⟨cause', lease, hcause', hlease, hbind'⟩ := exists_leaseWrite hslot
      have hne : cause ≠ cause' := by
        rintro rfl
        exact requestCause_ne_slotCause hcause hcause'
      cases hready : before.readyWrite (clock n) with
      | none => exact hkept (erases_request hready hbind harray hbind' hlease hne)
      | some ready => exact hkept (erases_ready hready hready (by simp [hbind']) hlease)
  · intro hclear
    cases hvalid : still.env.specValid with
    | false => rw [writes_unmaintained (.inl hvalid)]; exact RunKind.not_erases_nil
    | true =>
      cases hdefaults : still.env.defaults with
      | none => rw [writes_unmaintained (.inr hdefaults)]; exact RunKind.not_erases_nil
      | some defaults =>
        cases hmaintainable : still.env.maintainable with
        | false =>
          apply not_erases_of_writes <;>
            simp [objectWrites, writes, hvalid, hdefaults, hmaintainable]
        | true =>
          obtain ⟨hrequest, hslot, hboth⟩ := hclear defaults hvalid hmaintainable hdefaults
          rw [objectWrites_open hvalid hmaintainable hdefaults]
          refine not_erases_of_writes ?_ ?_ ?_
          · exact hrequest.imp readyWrite_eq_none.mpr bind_leaseWrite_eq_none.mpr
          · exact hslot.imp readyWrite_eq_none.mpr bind_leaseWrite_eq_none.mpr
          · exact hboth.imp bind_leaseWrite_eq_none.mpr bind_leaseWrite_eq_none.mpr

theorem settles_iff (hread : ∀ t, times.parse (times.render t) = some t) (hengine : engine.Exclusive)
    (hdue : NoneBecomesDue engine times still clock m) :
    (kind engine times).Settles still clock m storedConditions ↔
      ∀ n, (object engine times still clock m n).Clear engine times still.env
        (still.view (clock n)) :=
  ⟨fun h n => (kept_iff_clear n).mp (h.kept n), fun hclear =>
    .of (rests hread hengine hdue hclear) fun n => (kept_iff_clear n).mpr (hclear n)⟩

end Kept

section Loop

theorem manualRunRequest_malformed {raw : String} (hraw : m.annotations.requested = some raw)
    (hparse : times.parse raw = none) (hmanual : m.status.manualRun = none) :
    ∃ message, m.manualRunRequest times = .error message := by
  unfold manualRunRequest parseRunAnnotations parseRunRequestedAt
  simp only [hraw, hmanual, hparse]
  exact ⟨_, rfl⟩

theorem writes_of_two_causes {n : Nat} {defaults : Option ScheduleDefaults}
    {cause cause' : String × String} (hvalid : still.env.specValid = true)
    (hmaintainable : still.env.maintainable = true) (hdefaults : still.env.defaults = some defaults)
    (hrequest : (object engine times still clock m n).requestCause times (still.view (clock n)) =
      some cause)
    (hslot : (object engine times still clock m n).slotCause engine times still.env
      (still.view (clock n)) defaults = some cause')
    (hne : cause.1 ≠ cause'.1) : (kind engine times).writes still clock m n ≠ [] := by
  rw [writes_eq, objectWrites_open hvalid hmaintainable hdefaults]
  intro hnil
  simp only [Writes.list, hrequest, hslot, Option.bind_some, List.append_eq_nil_iff,
    List.map_eq_nil_iff, Option.toList_eq_nil_iff, leaseWrite_eq_none] at hnil
  obtain ⟨⟨⟨-, hsaid⟩, -⟩, hsaid'⟩ := hnil
  unfold leaseSays at hsaid hsaid'
  cases hfind : StatusCondition.find (object engine times still clock m n).status.conditions
      leaseOwnedCondition with
  | none => simp [hfind] at hsaid
  | some c =>
    simp only [hfind, Option.any_some, Bool.and_eq_true, beq_iff_eq] at hsaid hsaid'
    exact hne (hsaid.2.symm.trans hsaid'.2)

end Loop

section SameClock

variable {now : DateTime} (hclock : ∀ n, clock n = now)

theorem lastRunAt_next (n : Nat) (mode : MaintenanceMode) :
    (object engine times still clock m (n + 1)).lastRunAt times mode =
      (object engine times still clock m n).lastRunAt times mode := by
  rw [object_next]
  rcases (objectWrites engine times still clock m n).handled with _ | ⟨mode', at'⟩
  · cases mode <;> rfl
  · cases mode <;> cases mode' <;> rfl

theorem lastHandledAt_next (n : Nat) (mode : MaintenanceMode) :
    (object engine times still clock m (n + 1)).lastHandledAt times mode =
        (object engine times still clock m n).lastHandledAt times mode ∨
      ∃ at', (objectWrites engine times still clock m n).handled = some (mode, at') ∧
        (object engine times still clock m (n + 1)).lastHandledAt times mode = times.parse at' := by
  rw [object_next]
  rcases hhandled : (objectWrites engine times still clock m n).handled with _ | ⟨mode', at'⟩
  · left
    cases mode <;> rfl
  · cases mode <;> cases mode' <;>
      first | exact .inl rfl | exact .inr ⟨at', rfl, rfl⟩

include hclock in
theorem noneBecomesDue_of_clock (hread : ∀ t, times.parse (times.render t) = some t)
    (hengine : engine.Exclusive) : NoneBecomesDue engine times still clock m := by
  intro n defaults mode due hdefaults hafter
  rw [hclock] at hafter ⊢
  rcases @lastHandledAt_next engine times still clock m n mode with hsame | ⟨at', hhandled, hstamp⟩
  · rw [← hafter]
    unfold dueAt slotFor modeAfter cronOf
    rw [lastRunAt_next, hsame]
    simp [object_next]
  · obtain ⟨mode', slot⟩ := due
    obtain ⟨-, hle, hslot⟩ := dueAt_some hafter
    obtain ⟨rfl, -⟩ := handled_of_writes hhandled
    rw [hread, hclock] at hstamp
    exact absurd (nextFire_gt hengine hslot) (not_lt.mpr (hle.trans (le_modeAfter hstamp)))

end SameClock

end Passes

end Maintenance

end Kopiur
