import Kopiur.Controller.ReplicationWrites
import Kopiur.Controller.SlotRuns

/-!
# Scheduled runs of Maintenances and replications

Both kinds go by slots: a `Maintenance` has two modes with a record each, a
replication one.
-/

namespace Kopiur

open Lib

-- Maintenances

namespace Maintenance

section Calls

variable {engine : CronEngine} {times : RunTimes} {env : Env} {view : JobsView} {m : Maintenance}

theorem creates_patchConditionIfChanged (now : DateTime) (reason message : String) :
    creates (m.patchConditionIfChanged now reason message) = [] ∧
      deletes (m.patchConditionIfChanged now reason message) = [] := by
  unfold patchConditionIfChanged
  dsimp only
  split <;> exact ⟨rfl, rfl⟩

theorem creates_setReadyIfChanged (now : DateTime) :
    creates (m.setReadyIfChanged now) = [] ∧ deletes (m.setReadyIfChanged now) = [] := by
  rw [setReadyIfChanged_eq]
  split <;> exact ⟨rfl, rfl⟩

theorem creates_spawn (name : String) (run : MaintenanceRun) :
    (creates (spawn env name run) = [] ∨ creates (spawn env name run) = [(name, run)]) ∧
      deletes (spawn env name run) = [] := by
  unfold spawn
  split
  · exact ⟨.inl rfl, rfl⟩
  · exact ⟨.inr rfl, rfl⟩

theorem creates_recordHandledSlot (mode : MaintenanceMode) (slot now : DateTime) :
    creates (m.recordHandledSlot times mode slot now) = [] ∧
      deletes (m.recordHandledSlot times mode slot now) = [] := by
  unfold recordHandledSlot
  split <;> exact ⟨rfl, rfl⟩

theorem creates_handleManualRun (requested : DateTime) (mode : MaintenanceMode) :
    let result := m.handleManualRun times env view requested mode
    deletes result.1 = [] ∧
      (creates result.1 = [] ∨ result.2 = true ∧ view.active = false ∧
        view.job (manualJobName m.name mode requested) = none ∧
          m.alreadyRunning (m.requestText times requested) mode = false ∧
          creates result.1 = [(manualJobName m.name mode requested,
            .manual (m.annotations.requested.getD (times.render requested)) mode requested)]) := by
  unfold handleManualRun
  dsimp only
  split
  · exact ⟨rfl, .inl rfl⟩
  · exact ⟨by simp [creates_patchConditionIfChanged], .inl (by
      simp [creates_patchConditionIfChanged])⟩
  · exact ⟨rfl, .inl rfl⟩
  · next hnone =>
    split
    · exact ⟨by simp [creates_patchConditionIfChanged], .inl (by
        simp [creates_patchConditionIfChanged])⟩
    · next hrunning =>
      split
      · exact ⟨rfl, .inl rfl⟩
      · next hactive =>
        obtain ⟨hcreates, hdeletes⟩ := @creates_spawn env (manualJobName m.name mode requested)
          (.manual (m.annotations.requested.getD (times.render requested)) mode requested)
        refine ⟨by simp [hdeletes], hcreates.imp ?_ ?_⟩
        · intro h
          simp [h]
        · intro h
          exact ⟨rfl, by simpa using hactive, hnone, by simpa [requestText] using hrunning,
            by simp [h]⟩

theorem creates_runDueSlot (defaults : Option ScheduleDefaults) :
    (∀ name ∈ deletes (m.runDueSlot engine times env view defaults), view.job name = some none ∧
        ∃ mode slot, name = maintenanceJobName m.name mode slot) ∧
      (creates (m.runDueSlot engine times env view defaults) = [] ∨ ∃ mode slot,
        m.dueMode engine times view.now defaults = some (mode, slot) ∧ view.active = false ∧
          view.job (maintenanceJobName m.name mode slot) = none ∧
            creates (m.runDueSlot engine times env view defaults) =
              [(maintenanceJobName m.name mode slot, .cron mode slot)]) := by
  unfold runDueSlot
  cases hdue : m.dueMode engine times view.now defaults with
  | none => simp
  | some due =>
    obtain ⟨mode, slot⟩ := due
    dsimp only
    cases hjob : view.job (maintenanceJobName m.name mode slot) with
    | some terminal =>
      rcases terminal with _ | _ | _
      · cases env.wedged with
        | none => simp
        | some message =>
          simp only [creates_append, deletes_append, creates_patchConditionIfChanged,
            creates_delete, deletes_delete, creates_nil, deletes_nil, List.nil_append]
          refine ⟨fun name hname => ?_, .inl trivial⟩
          obtain rfl := List.mem_singleton.mp hname
          exact ⟨hjob, mode, slot, rfl⟩
      · simp [creates_patchConditionIfChanged]
      · simp [creates_recordHandledSlot]
    | none =>
      cases hactive : view.active with
      | true => simp
      | false =>
        obtain ⟨hcreates, hdeletes⟩ := @creates_spawn env (maintenanceJobName m.name mode slot)
          (.cron mode slot)
        rcases hcreates with hcreates | hcreates
        · simp [hcreates, hdeletes]
        · exact ⟨by simp [hdeletes], .inr ⟨mode, slot, rfl, rfl, hjob, by simp [hcreates]⟩⟩

end Calls

theorem creates_reconcile {engine : CronEngine} {times : RunTimes} {env : Env} {view : JobsView}
    {m : Maintenance} :
    (∀ name ∈ deletes (m.reconcile engine times env view), view.job name = some none ∧
        ∃ mode slot, name = maintenanceJobName m.name mode slot) ∧
      (creates (m.reconcile engine times env view) = [] ∨ ∃ name run,
        creates (m.reconcile engine times env view) = [(name, run)] ∧ view.active = false ∧
          view.job name = none ∧
            ((∃ requested mode, m.manualRunRequest times = .ok (some (requested, mode)) ∧
                m.alreadyRunning (m.requestText times requested) mode = false ∧
                  name = manualJobName m.name mode requested ∧
                    run = .manual (m.requestText times requested) mode requested) ∨
              ∃ defaults mode slot, env.defaults = some defaults ∧
                m.dueMode engine times view.now defaults = some (mode, slot) ∧
                  name = maintenanceJobName m.name mode slot ∧ run = .cron mode slot)) := by
  unfold reconcile
  cases env.specValid with
  | false => simp
  | true =>
    cases hdefaults : env.defaults with
    | none => simp
    | some defaults =>
      cases env.maintainable with
      | false => simp [creates_patchConditionIfChanged]
      | true =>
        obtain ⟨hslotDeletes, hslotCreates⟩ := @creates_runDueSlot engine times env view m defaults
        simp only [Bool.not_true, Bool.false_eq_true, if_false, creates_append, deletes_append,
          creates_setReadyIfChanged, List.nil_append]
        cases hrequest : m.manualRunRequest times with
        | error message =>
          simp only [creates_append, deletes_append, creates_patchConditionIfChanged,
            List.nil_append]
          refine ⟨hslotDeletes, hslotCreates.imp_right ?_⟩
          rintro ⟨mode, slot, hdue, hactive, hnone, hcreates⟩
          exact ⟨_, _, hcreates, hactive, hnone, .inr ⟨defaults, mode, slot, rfl, hdue, rfl, rfl⟩⟩
        | ok request =>
          rcases request with _ | ⟨requested, mode⟩
          · refine ⟨hslotDeletes, hslotCreates.imp_right ?_⟩
            rintro ⟨mode, slot, hdue, hactive, hnone, hcreates⟩
            exact ⟨_, _, hcreates, hactive, hnone, .inr ⟨defaults, mode, slot, rfl, hdue, rfl, rfl⟩⟩
          · obtain ⟨hdeletes, hcreates⟩ := @creates_handleManualRun times env view m requested mode
            simp only [creates_append, deletes_append, hdeletes, List.nil_append]
            rcases hcreates with hcreates | ⟨hstop, hactive, hnone, hrunning, hcreates⟩
            · rw [hcreates, List.nil_append]
              split
              · simp
              · refine ⟨hslotDeletes, hslotCreates.imp_right ?_⟩
                rintro ⟨mode, slot, hdue, hactive, hnone, hcreates⟩
                exact ⟨_, _, hcreates, hactive, hnone,
                  .inr ⟨defaults, mode, slot, rfl, hdue, rfl, rfl⟩⟩
            · rw [hstop, hcreates]
              simp only [if_true, creates_nil, deletes_nil, List.append_nil]
              exact ⟨by simp, .inr ⟨_, _, rfl, hactive, hnone,
                .inl ⟨requested, mode, rfl, hrunning, rfl, rfl⟩⟩⟩

-- What is recorded of the runs.
section Records

variable {engine : CronEngine} {times : RunTimes} {m m' : Maintenance} {now later : DateTime}

def Past (times : RunTimes) (m : Maintenance) (now : DateTime) : Prop :=
  ∀ mode t, m.lastRunAt times mode = some t ∨ m.lastHandledAt times mode = some t → t ≤ now

def Advances (times : RunTimes) (m m' : Maintenance) (now : DateTime) : Prop :=
  ∀ mode, (m'.lastRunAt times mode = m.lastRunAt times mode ∨
      m'.lastRunAt times mode = some now) ∧
    (m'.lastHandledAt times mode = m.lastHandledAt times mode ∨
      m'.lastHandledAt times mode = some now)

theorem Advances.past (h : Advances times m m' now) (hpast : m.Past times now) :
    m'.Past times now := by
  rintro mode t (ht | ht)
  · rcases (h mode).1 with hsame | hnow
    · exact hpast mode t (.inl (hsame ▸ ht))
    · obtain rfl : now = t := by simpa [hnow] using ht
      exact le_refl now
  · rcases (h mode).2 with hsame | hnow
    · exact hpast mode t (.inr (hsame ▸ ht))
    · obtain rfl : now = t := by simpa [hnow] using ht
      exact le_refl now

theorem modeAfter_le (hpast : m.Past times now) (mode : MaintenanceMode) :
    m.modeAfter times mode now ≤ now := by
  have hlookback : now - firstLookback ≤ now := Int.sub_le_self _ (by decide)
  unfold modeAfter
  cases hrun : m.lastRunAt times mode with
  | none =>
    cases hhandled : m.lastHandledAt times mode with
    | none => exact hlookback
    | some handled => exact hpast mode handled (.inr hhandled)
  | some run =>
    cases hhandled : m.lastHandledAt times mode with
    | none => exact hpast mode run (.inl hrun)
    | some handled => exact max_le (hpast mode run (.inl hrun)) (hpast mode handled (.inr hhandled))

theorem Advances.modeAfter_le (h : Advances times m m' now) (hpast : m.Past times now)
    (mode : MaintenanceMode) : m.modeAfter times mode now ≤ m'.modeAfter times mode now := by
  obtain ⟨hrun, hhandled⟩ := h mode
  by_cases hsame : m'.lastRunAt times mode = m.lastRunAt times mode ∧
      m'.lastHandledAt times mode = m.lastHandledAt times mode
  · unfold modeAfter
    rw [hsame.1, hsame.2]
  · have hnow : now ≤ m'.modeAfter times mode now := by
      by_cases hrun' : m'.lastRunAt times mode = m.lastRunAt times mode
      · exact le_modeAfter (hhandled.resolve_left fun hhandled' => hsame ⟨hrun', hhandled'⟩)
      · unfold modeAfter
        rw [hrun.resolve_left hrun']
        cases m'.lastHandledAt times mode with
        | none => exact le_refl now
        | some handled => exact le_max_left now handled
    exact (Maintenance.modeAfter_le hpast mode).trans hnow

theorem modeAfter_mono (hle : now ≤ later) (mode : MaintenanceMode) :
    m.modeAfter times mode now ≤ m.modeAfter times mode later := by
  unfold modeAfter
  cases m.lastRunAt times mode <;> cases m.lastHandledAt times mode
  · exact Int.sub_le_sub_right hle _
  · exact le_refl _
  · exact le_refl _
  · exact le_refl _

theorem advances_of_patch (hread : ∀ t, times.parse (times.render t) = some t) {env : Env}
    {view : JobsView} {p : MaintenancePatch} (hp : p ∈ patches (m.reconcile engine times env view)) :
    Advances times m' (patch p m') view.now := by
  rw [patches_reconcile] at hp
  cases p with
  | conditions conditions => exact fun mode => by cases mode <;> exact ⟨.inl rfl, .inl rfl⟩
  | manualRun manual => exact fun mode => by cases mode <;> exact ⟨.inl rfl, .inl rfl⟩
  | handled mode at' =>
    obtain rfl : at' = times.render view.now := by
      have hhandled : (m.writes engine times env view).handled = some (mode, at') := by
        simpa [Writes.list] using hp
      unfold writes at hhandled
      split at hhandled
      · cases hhandled
      · cases hhandled
      · split at hhandled
        · cases hhandled
        · obtain ⟨mode', -, heq⟩ := Option.map_eq_some_iff.mp hhandled
          cases heq
          rfl
    intro mode'
    cases mode <;> cases mode' <;>
      first
      | exact ⟨.inl rfl, .inl rfl⟩
      | exact ⟨.inl rfl, .inr (hread view.now)⟩

theorem advances_of_stamp (hread : ∀ t, times.parse (times.render t) = some t)
    (run : MaintenanceRun) : Advances times m (m.stamp times run now) now := by
  intro mode
  rcases run with ⟨mode', -⟩ | ⟨-, mode', -⟩ <;> cases mode <;> cases mode' <;>
    first
    | exact ⟨.inl rfl, .inl rfl⟩
    | exact ⟨.inr (hread now), .inl rfl⟩

end Records

/-- A Maintenance by its slots. -/
def slotKind (engine : CronEngine) (times : RunTimes) (hengine : engine.Exclusive)
    (hread : ∀ t, times.parse (times.render t) = some t) :
    SlotKind Maintenance MaintenancePatch MaintenanceRun Env RunAnnotations MaintenanceMode where
  toRunKind := kind engine times
  slot
    | .cron mode slot => some (mode, slot)
    | .manual .. => none
  jobName m := maintenanceJobName m.name
  after m := m.modeAfter times
  due env m mode now := env.defaults.bind fun defaults =>
    (m.dueAt engine times now defaults mode).map Prod.snd
  Past := Past times
  due_gt := by
    intro env m mode now s hdue
    obtain ⟨defaults, -, hmap⟩ := Option.bind_eq_some_iff.mp hdue
    obtain ⟨⟨mode', slot⟩, hat, rfl⟩ := Option.map_eq_some_iff.mp hmap
    exact nextFire_gt hengine (dueAt_some hat).2.2
  spawns := by
    intro env view m
    refine (@creates_reconcile engine times env view m).2.imp_right ?_
    rintro ⟨name, run, hcreates, hactive, hnone, hwhat⟩
    refine ⟨name, run, hcreates, hactive, hnone, fun mode s hslot => ?_⟩
    rcases hwhat with ⟨_, _, -, -, -, rfl⟩ | ⟨defaults, mode', slot, hdefaults, hdue, rfl, rfl⟩
    · cases hslot
    · cases hslot
      exact ⟨rfl, by simp [hdefaults, dueAt_of_dueMode hdue]⟩
  reaps env view m name hname := ((@creates_reconcile engine times env view m).1 name hname).1
  patch_keeps := by
    intro env view m p hp x hpast
    have hadvances : Advances times x (patch p x) view.now := advances_of_patch hread hp
    refine ⟨hadvances.past hpast, fun mode => ⟨hadvances.modeAfter_le hpast mode, ?_⟩⟩
    cases p <;> rfl
  edit_keeps _ _ _ hpast := ⟨hpast, fun _ => ⟨le_refl _, rfl⟩⟩
  stamp_keeps run _ _ hpast :=
    ⟨(advances_of_stamp hread run).past hpast, fun mode =>
      ⟨(advances_of_stamp hread run).modeAfter_le hpast mode, rfl⟩⟩
  tick_keeps _ _ _ hle hpast :=
    ⟨fun mode t ht => (hpast mode t ht).trans hle, fun mode => modeAfter_mono hle mode⟩

end Maintenance

-- Replications

namespace SnapshotReplication

section Calls

variable {engine : CronEngine} {times : RunTimes} {env : Env} {view : JobsView}
  {r : SnapshotReplication}

theorem creates_patchManualRun (manual : ReplicationManualRunStatus) :
    creates (r.patchManualRun manual) = [] ∧ deletes (r.patchManualRun manual) = [] := by
  unfold patchManualRun
  split <;> exact ⟨rfl, rfl⟩

theorem creates_patchReadyIfChanged {outcome : ReadyOutcome} {reason message : String}
    {phase : Option SnapshotReplicationPhase} {overlap : Option OverlapVerdict} (now : DateTime) :
    creates (r.patchReadyIfChanged now outcome reason message phase overlap) = [] ∧
      deletes (r.patchReadyIfChanged now outcome reason message phase overlap) = [] := by
  rw [patchReadyIfChanged_eq]
  split <;> exact ⟨rfl, rfl⟩

theorem creates_heal (now : DateTime) :
    creates (healReplicationSlotCondition env now r) = [] ∧
      deletes (healReplicationSlotCondition env now r) = [] := by
  unfold healReplicationSlotCondition
  split <;> exact ⟨rfl, rfl⟩

theorem creates_parked (now : DateTime) (waiting : String) :
    creates (parked now waiting r) = [] ∧ deletes (parked now waiting r) = [] := by
  unfold parked
  dsimp only
  split <;> exact ⟨rfl, rfl⟩

theorem creates_handleManualRun (request : RunRequest) :
    let result := r.handleManualRun times env view request
    deletes result.1 = [] ∧
      (creates result.1 = [] ∨ result.2 = .inFlight ∧ view.active = false ∧
        view.job (manualReplicationJobName r.name request.at') = none ∧
          recordedRunning r.status.manualRun request = false ∧
          creates result.1 = [(manualReplicationJobName r.name request.at',
            .manual request.raw request.at')]) := by
  unfold handleManualRun
  dsimp only
  split
  · simp [creates_patchManualRun]
  · simp [creates_patchManualRun]
  · simp [creates_heal]
  · next hnone =>
    split
    · simp [creates_patchManualRun]
    · next hrunning =>
      split
      · simp [creates_patchManualRun]
      · next hactive =>
        split
        · simp [creates_patchManualRun, creates_parked]
        · exact ⟨by simp [creates_heal, creates_patchManualRun], .inr ⟨rfl, by simpa using hactive,
            hnone, by simpa using hrunning, by simp [creates_heal, creates_patchManualRun]⟩⟩

theorem creates_runDueSlot (stall : Option RunStall) :
    deletes (r.runDueSlot engine times env view stall) = [] ∧
      (creates (r.runDueSlot engine times env view stall) = [] ∨ ∃ slot,
        r.dueSlot engine times view.now env.defaults = some slot ∧ view.active = false ∧
          view.job (snapshotReplicationJobName r.name slot) = none ∧
            creates (r.runDueSlot engine times env view stall) =
              [(snapshotReplicationJobName r.name slot, .cron slot)]) := by
  unfold runDueSlot
  split
  · simp [creates_patchReadyIfChanged]
  · next slot hdue =>
    dsimp only
    split
    · simp
    · simp [creates_patchReadyIfChanged]
    · simp [creates_heal]
    · next hnone =>
      split
      · simp
      · next hactive =>
        split
        · simp [creates_parked]
        · exact ⟨by simp [creates_heal], .inr ⟨slot, hdue, by simpa using hactive, hnone, by
            simp [creates_heal]⟩⟩

/-- The calls create one Job at most, of the request or of the slot. -/
def StartsOne (engine : CronEngine) (times : RunTimes) (env : Env) (view : JobsView)
    (r : SnapshotReplication) (calls : List ReplicationCall) : Prop :=
  deletes calls = [] ∧ (creates calls = [] ∨ ∃ name run, creates calls = [(name, run)] ∧
    view.active = false ∧ view.job name = none ∧
      ((∃ request, r.manualRunRequest times = .ok (some request) ∧
          recordedRunning r.status.manualRun request = false ∧
          name = manualReplicationJobName r.name request.at' ∧
            run = .manual request.raw request.at') ∨
        ∃ slot, r.dueSlot engine times view.now env.defaults = some slot ∧
          name = snapshotReplicationJobName r.name slot ∧ run = .cron slot))

theorem startsOne_of_none {calls : List ReplicationCall} (hcreates : creates calls = [])
    (hdeletes : deletes calls = []) : StartsOne engine times env view r calls :=
  ⟨hdeletes, .inl hcreates⟩

theorem startsOne_runDueSlot (stall : Option RunStall) :
    StartsOne engine times env view r (r.runDueSlot engine times env view stall) := by
  obtain ⟨hdeletes, hcreates⟩ := @creates_runDueSlot engine times env view r stall
  refine ⟨hdeletes, hcreates.imp_right ?_⟩
  rintro ⟨slot, hdue, hactive, hnone, hone⟩
  exact ⟨_, _, hone, hactive, hnone, .inr ⟨slot, hdue, rfl, rfl⟩⟩

theorem startsOne_driveSchedule :
    StartsOne engine times env view r (r.driveSchedule engine times env view) := by
  unfold driveSchedule
  split
  · exact startsOne_runDueSlot _
  · exact startsOne_runDueSlot _
  · next request hrequest =>
    obtain ⟨hdeletes, hcreates⟩ := @creates_handleManualRun times env view r request
    split
    · next calls hcalls =>
      rw [hcalls] at hdeletes hcreates
      refine ⟨hdeletes, hcreates.imp_right ?_⟩
      rintro ⟨-, hactive, hnone, hrunning, hone⟩
      exact ⟨_, _, hone, hactive, hnone, .inl ⟨request, hrequest, hrunning, rfl, rfl⟩⟩
    · next calls stall hcalls =>
      rw [hcalls] at hdeletes hcreates
      have hnone : creates calls = [] := hcreates.resolve_right fun h => by simp at h
      obtain ⟨hslotDeletes, hslot⟩ := @startsOne_runDueSlot engine times env view r stall
      unfold StartsOne
      rw [creates_append, deletes_append, hnone, hdeletes]
      exact ⟨hslotDeletes, hslot⟩

theorem startsOne_reconcile :
    StartsOne engine times env view r (r.reconcile engine times env view) := by
  have hready : ∀ {outcome reason message phase overlap},
      StartsOne engine times env view r
        (r.patchReadyIfChanged view.now outcome reason message phase overlap) := fun {_ _ _ _ _} =>
    startsOne_of_none (creates_patchReadyIfChanged _).1 (creates_patchReadyIfChanged _).2
  unfold reconcile
  split
  · exact startsOne_of_none rfl rfl
  · split
    · unfold suspended
      dsimp only
      cases (r.manualRunRequest times).toOption.join with
      | none => exact hready
      | some request =>
        apply startsOne_of_none <;>
          cases h : suspendedManualRun times request r.status.manualRun view.now <;>
          simp [h, creates_patchManualRun, creates_patchReadyIfChanged]
    · split
      · exact startsOne_of_none rfl rfl
      · split
        · exact hready
        · split
          · exact hready
          · split
            · exact hready
            · split
              · exact hready
              · exact startsOne_driveSchedule
              · exact startsOne_driveSchedule

end Calls

section Records

variable {engine : CronEngine} {times : RunTimes} {r r' : SnapshotReplication}
  {now later : DateTime}

theorem slotAfter_le (hpast : ∀ t, r.lastRunAt times = some t → t ≤ now) :
    r.slotAfter times now ≤ now := by
  unfold slotAfter
  cases hrun : r.lastRunAt times with
  | none => exact Int.sub_le_self _ (by decide)
  | some run => exact hpast run hrun

theorem slotAfter_mono (hle : now ≤ later) : r.slotAfter times now ≤ r.slotAfter times later := by
  unfold slotAfter
  cases r.lastRunAt times with
  | none => exact Int.sub_le_sub_right hle _
  | some run => exact le_refl run

theorem lastReplicated_patch (p : ReplicationPatch) (r : SnapshotReplication) :
    (patch p r).status.lastReplicated = r.status.lastReplicated := by
  cases p <;> rfl

theorem name_patch (p : ReplicationPatch) (r : SnapshotReplication) : (patch p r).name = r.name := by
  cases p <;> rfl

end Records

/-- A replication by its slots. -/
def slotKind (engine : CronEngine) (times : RunTimes) (hengine : engine.Exclusive)
    (hread : ∀ t, times.parse (times.render t) = some t) :
    SlotKind SnapshotReplication ReplicationPatch ReplicationRun Env ReplicationEdit Unit where
  toRunKind := kind engine times
  slot
    | .cron slot => some ((), slot)
    | .manual .. => none
  jobName r _ := snapshotReplicationJobName r.name
  after r _ := r.slotAfter times
  due env r _ now := r.dueSlot engine times now env.defaults
  Past r now := ∀ t, r.lastRunAt times = some t → t ≤ now
  due_gt := by
    intro env r mode now s hdue
    unfold dueSlot at hdue
    split at hdue
    · next slot hslot =>
      split at hdue
      · cases hdue
        exact nextFire_gt hengine hslot
      · cases hdue
    · cases hdue
  spawns := by
    intro env view r
    refine (@startsOne_reconcile engine times env view r).2.imp_right ?_
    rintro ⟨name, run, hcreates, hactive, hnone, hwhat⟩
    refine ⟨name, run, hcreates, hactive, hnone, fun mode s hslot => ?_⟩
    rcases hwhat with ⟨_, -, -, -, rfl⟩ | ⟨slot, hdue, rfl, rfl⟩
    · cases hslot
    · cases hslot
      exact ⟨rfl, hdue⟩
  reaps env view r name hname := by
    have hdeletes := (@startsOne_reconcile engine times env view r).1
    change name ∈ deletes (r.reconcile engine times env view) at hname
    simp [hdeletes] at hname
  patch_keeps := by
    intro env view r p _ x hpast
    have hlast := lastReplicated_patch p x
    change (∀ t, (patch p x).lastRunAt times = some t → t ≤ view.now) ∧
      ∀ _, x.slotAfter times view.now ≤ (patch p x).slotAfter times view.now ∧
        snapshotReplicationJobName (patch p x).name = snapshotReplicationJobName x.name
    unfold slotAfter lastRunAt
    rw [hlast, name_patch]
    exact ⟨hpast, fun _ => ⟨le_refl _, rfl⟩⟩
  edit_keeps a x now hpast := by
    cases a <;> exact ⟨hpast, fun _ => ⟨le_refl _, rfl⟩⟩
  stamp_keeps := by
    intro run now x hpast
    have hstamped : (x.stamp times run now).lastRunAt times = some now := hread now
    have hafter : (x.stamp times run now).slotAfter times now = now := by
      simp [slotAfter, hstamped]
    refine ⟨fun t ht => ?_, fun _ => ⟨?_, rfl⟩⟩
    · obtain rfl : now = t := by simpa [kind, hstamped] using ht
      exact le_refl now
    · exact (slotAfter_le hpast).trans hafter.ge
  tick_keeps _ _ _ hle hpast := ⟨fun t ht => (hpast t ht).trans hle, fun _ => slotAfter_mono hle⟩

end SnapshotReplication

-- Both kinds

/-- In every run at most one Job is unfinished, and the Job of a slot has the
slot's name. In a run whose passes find no other slot of a mode due beside a
failed Job, and where a Job that succeeded is reaped only once its slot is
recorded, no slot that succeeded is run again and no Job of a mode is created
beside a failed one. -/
theorem slot_discipline (engine : CronEngine) (times : RunTimes) (hengine : engine.Exclusive)
    (hread : ∀ t, times.parse (times.render t) = some t) :
    (∀ (m : Maintenance) now, m.Past times now → ∀ w,
      (Reaches (Maintenance.kind engine times).step (fun _ _ => True) { cr := m, clock := now } w →
        (SlotKind.unfinished w.jobs).length ≤ 1 ∧
          ∀ c ∈ w.created, ∀ mode slot, c.run = .cron mode slot →
            c.name = maintenanceJobName m.name mode slot) ∧
      (Reaches (Maintenance.kind engine times).step
          (Maintenance.slotKind engine times hengine hread).Orderly { cr := m, clock := now } w →
        ∀ c ∈ w.created, ∀ mode slot, c.run = .cron mode slot →
          (.cron mode slot) ∉ c.succeeded ∧
            ∀ j ∈ c.jobs, ∀ slot', j.run = .cron mode slot' → j.terminal ≠ some false)) ∧
    ∀ (r : SnapshotReplication) now, (∀ t, r.lastRunAt times = some t → t ≤ now) → ∀ w,
      (Reaches (SnapshotReplication.kind engine times).step (fun _ _ => True)
          { cr := r, clock := now } w →
        (SlotKind.unfinished w.jobs).length ≤ 1 ∧
          ∀ c ∈ w.created, ∀ slot, c.run = .cron slot →
            c.name = snapshotReplicationJobName r.name slot) ∧
      (Reaches (SnapshotReplication.kind engine times).step
          (SnapshotReplication.slotKind engine times hengine hread).Orderly
          { cr := r, clock := now } w →
        ∀ c ∈ w.created, ∀ slot, c.run = .cron slot →
          (.cron slot) ∉ c.succeeded ∧
            ∀ j ∈ c.jobs, ∀ slot', j.run = .cron slot' → j.terminal ≠ some false) := by
  constructor
  · intro m now hpast w
    constructor
    · intro hrun
      obtain ⟨hnamed, hname⟩ := SlotKind.named_of_run (k := Maintenance.slotKind engine times hengine
        hread) hpast hrun
      refine ⟨hnamed.single, fun c hc mode slot hcron => ?_⟩
      exact (hnamed.created c hc mode slot (by rw [hcron]; rfl)).trans (congrFun (hname mode) slot)
    · intro hrun c hc mode slot hcron
      have hordered := SlotKind.ordered_of_run (k := Maintenance.slotKind engine times hengine hread)
        hpast hrun
      obtain ⟨honce, hfailed⟩ := hordered.fresh c hc mode slot (by rw [hcron]; rfl)
      exact ⟨fun hmem => honce _ hmem rfl, fun j hj slot' hjob =>
        hfailed j hj slot' (by rw [hjob]; rfl)⟩
  · intro r now hpast w
    constructor
    · intro hrun
      obtain ⟨hnamed, hname⟩ := SlotKind.named_of_run
        (k := SnapshotReplication.slotKind engine times hengine hread) hpast hrun
      refine ⟨hnamed.single, fun c hc slot hcron => ?_⟩
      exact (hnamed.created c hc () slot (by rw [hcron]; rfl)).trans (congrFun (hname ()) slot)
    · intro hrun c hc slot hcron
      have hordered := SlotKind.ordered_of_run
        (k := SnapshotReplication.slotKind engine times hengine hread) hpast hrun
      obtain ⟨honce, hfailed⟩ := hordered.fresh c hc () slot (by rw [hcron]; rfl)
      exact ⟨fun hmem => honce _ hmem rfl, fun j hj slot' hjob =>
        hfailed j hj slot' (by rw [hjob]; rfl)⟩

def laterOn : DateTime := DateTime.fromTimestamp (2 * 365 * 86400 + 12 * 3600)

def anHourLater : DateTime := DateTime.fromTimestamp (2 * 365 * 86400 + 13 * 3600)

def unrunMaintenance : Maintenance where
  name := "m"
  schedule := { quick := hourlyCron, full := hourlyCron }

def unrunReplication : SnapshotReplication where
  name := "r"
  schedule := hourlyCron

/-- A slot is recorded and its Job reaped, the next one fails, and a pass beside the
failed Job starts nothing. -/
theorem slot_discipline_first :
    (∃ w, Reaches (Maintenance.kind hourly numberRunTimes).step
          (Maintenance.slotKind hourly numberRunTimes hourly_exclusive parseInt_repr).Orderly
          { cr := unrunMaintenance, clock := laterOn } w ∧
        w.created.map Creation.name = ["m-f-31582800", "m-f-63118800"] ∧
        w.jobs.map RunJob.terminal = [some false] ∧ w.succeeded.length = 1 ∧
        ∀ c ∈ w.created, ∀ mode slot, c.run = .cron mode slot →
          (.cron mode slot) ∉ c.succeeded ∧
            ∀ j ∈ c.jobs, ∀ slot', j.run = .cron mode slot' → j.terminal ≠ some false) ∧
      ∃ w, Reaches (SnapshotReplication.kind hourly numberRunTimes).step
          (SnapshotReplication.slotKind hourly numberRunTimes hourly_exclusive parseInt_repr).Orderly
          { cr := unrunReplication, clock := laterOn } w ∧
        w.created.map Creation.name = ["r-srepl-31582800", "r-srepl-63118800"] ∧
        w.jobs.map RunJob.terminal = [some false] ∧ w.succeeded.length = 1 ∧
        (SlotKind.unfinished w.jobs).length ≤ 1 ∧
        ∀ c ∈ w.created, ∀ slot, c.run = .cron slot →
          (.cron slot) ∉ c.succeeded ∧
            ∀ j ∈ c.jobs, ∀ slot', j.run = .cron slot' → j.terminal ≠ some false := by
  obtain ⟨hmaintenance, hreplication⟩ := slot_discipline hourly numberRunTimes hourly_exclusive
    parseInt_repr
  constructor
  · have hpast : unrunMaintenance.Past numberRunTimes laterOn := by
      rintro mode t (h | h) <;> cases mode <;> cases h
    refine exists_reaches_imp (P := fun w =>
        w.created.map Creation.name = ["m-f-31582800", "m-f-63118800"] ∧
          w.jobs.map RunJob.terminal = [some false] ∧ w.succeeded.length = 1)
      [.pass {} 10, .stamp "m-f-31582800", .finish "m-f-31582800" true, .reap "m-f-31582800",
        .tick anHourLater, .pass {} 10, .finish "m-f-63118800" false, .pass {} 10]
      (by decide) fun w hrun h => ?_
    obtain ⟨hcreated, hjobs, hsucceeded⟩ := h
    exact ⟨hcreated, hjobs, hsucceeded,
      (hmaintenance unrunMaintenance laterOn hpast w).2 hrun⟩
  · refine exists_reaches_imp (P := fun w =>
        w.created.map Creation.name = ["r-srepl-31582800", "r-srepl-63118800"] ∧
          w.jobs.map RunJob.terminal = [some false] ∧ w.succeeded.length = 1)
      [.pass {} 10, .stamp "r-srepl-31582800", .finish "r-srepl-31582800" true,
        .reap "r-srepl-31582800", .tick anHourLater, .pass {} 10,
        .finish "r-srepl-63118800" false, .pass {} 10] (by decide) fun w hrun h => ?_
    obtain ⟨hcreated, hjobs, hsucceeded⟩ := h
    obtain ⟨hany, hordered⟩ := hreplication unrunReplication laterOn (fun t h => by cases h) w
    exact ⟨hcreated, hjobs, hsucceeded, (hany (hrun.mono fun _ _ _ => trivial)).1,
      hordered hrun⟩

def besideFailed (w : RunWorld Maintenance MaintenanceRun) : Prop :=
  ∃ c ∈ w.created, ∃ mode slot, c.run = .cron mode slot ∧
    ∃ j ∈ c.jobs, ∃ slot', j.run = .cron mode slot' ∧ j.terminal = some false

def ranAgain (w : RunWorld SnapshotReplication ReplicationRun) : Prop :=
  ∃ c ∈ w.created, ∃ slot, c.run = .cron slot ∧ .cron slot ∈ c.succeeded

/-- Before any run is recorded, the year the search looks back moves past the
slot whose Job failed; and a slot whose success is not recorded is run again
once its Job is gone. -/
theorem slot_discipline_broken :
    (∃ w, Reaches (Maintenance.kind hourly numberRunTimes).step (fun _ _ => True)
        { cr := unrunMaintenance, clock := laterOn } w ∧ besideFailed w) ∧
      ∃ w, Reaches (SnapshotReplication.kind hourly numberRunTimes).step (fun _ _ => True)
        { cr := unrunReplication, clock := laterOn } w ∧ ranAgain w := by
  constructor
  · refine exists_reaches_imp (P := fun w => ∃ c ∈ w.created,
        c.run = .cron .full (DateTime.fromTimestamp 31586400) ∧ ∃ j ∈ c.jobs,
          j.run = .cron .full (DateTime.fromTimestamp 31582800) ∧ j.terminal = some false)
      [.pass {} 10, .finish "m-f-31582800" false, .tick anHourLater, .pass {} 10]
      (by decide) fun w _ h => ?_
    obtain ⟨c, hc, hcron, j, hj, hjob, hfailed⟩ := h
    exact ⟨c, hc, _, _, hcron, j, hj, _, hjob, hfailed⟩
  · refine exists_reaches_imp (P := fun w => ∃ c ∈ w.created,
        c.run = .cron (DateTime.fromTimestamp 31582800) ∧
          .cron (DateTime.fromTimestamp 31582800) ∈ c.succeeded)
      [.pass {} 10, .finish "r-srepl-31582800" true, .reap "r-srepl-31582800", .pass {} 10]
      (by decide) fun w _ h => ?_
    obtain ⟨c, hc, hcron, hsucceeded⟩ := h
    exact ⟨c, hc, _, hcron, hsucceeded⟩

end Kopiur
