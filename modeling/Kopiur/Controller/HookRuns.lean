import Kopiur.Controller.Hooks

/-!
# Runs of the hooks

A pass reads the informer's copy. In between its calls the mover and the user
change the object, the policy is edited and the Job ends or is gone.
-/

namespace Kopiur

open Lib

/-- What was done of a hook list. -/
structure HookLog where
  executed : Nat
  /-- Ended by its last hook or an aborting failure. -/
  ended : Nat
  completed : Nat
deriving DecidableEq

structure HookWorld where
  live : CaptureRun
  cached : CaptureRun
  policy : Option HookSpec
  /-- The capture Job and how it ended. -/
  job : Option (Option Bool)
  before : HookLog
  after : HookLog
  released : Bool
deriving DecidableEq

def Hook.letsOn (hook : Hook) : HookOutcome → Bool
  | .passed => true
  | .failed _ => hook.continueOnFailure

def HookLog.run (log : HookLog) (hook : Hook) (last : Bool) (outcome : HookOutcome) : HookLog where
  executed := log.executed + 1
  ended := if last || !hook.letsOn outcome then log.ended + 1 else log.ended
  completed := if last && hook.letsOn outcome then log.completed + 1 else log.completed

namespace CaptureRun

/-- The conditions that go with a phase. -/
def withPhase (run : CaptureRun) (phase : SnapshotPhase) (conditions : Bool) : CaptureRun :=
  let run := { run with phase := some phase }
  if conditions then
    { run with
      ready := phase = .succeeded ∨ phase = .discovered ∨ phase = .unchanged
      stalled := phase = .failed }
  else run

def stamp (run : CaptureRun) : HookPhase → CaptureRun
  | .before => { run with preCompletedAt := true }
  | .after => { run with postCompletedAt := true }

def stamps (run : CaptureRun) : Bool × Bool := (run.preCompletedAt, run.postCompletedAt)

def stamped (run : CaptureRun) : HookPhase → Bool
  | .before => run.preCompletedAt
  | .after => run.postCompletedAt

end CaptureRun

namespace HookWorld

def setLive (w : HookWorld) (live : CaptureRun) : HookWorld := { w with live }

def log (w : HookWorld) : HookPhase → HookLog
  | .before => w.before
  | .after => w.after

def setLog (w : HookWorld) (phase : HookPhase) (log : HookLog) : HookWorld :=
  match phase with
  | .before => { w with before := log }
  | .after => { w with after := log }

/-- What a call does with an answer; none if that is not an answer it can get. -/
def exec (w : HookWorld) : (call : CaptureCall) → call.Answer → Option HookWorld
  | .ensureFinalizer, _ => some (w.setLive { w.live with finalizer := true })
  | .removeFinalizer, _ => some { w with live := { w.live with finalizer := false }, released := true }
  | .getPolicy, policy => if policy = w.policy then some w else none
  | .getJob, job => if job = w.job then some w else none
  | .deleteJob, deleted => some (if deleted then { w with job := none } else w)
  | .createJob, _ => some { w with job := some (w.job.getD none) }
  | .launchGate first, gate => if gate.atFirstLaunch → first then some w else none
  | .hook phase _ hook last, outcome => some (w.setLog phase ((w.log phase).run hook last outcome))
  | .stampHooks phase, _ => some (w.setLive (w.live.stamp phase))
  | .patchHookFailure phase failure setFailedPhase, _ =>
    let live := { w.live with hooksFailed := some (phase, failure) }
    some (w.setLive (if setFailedPhase then { live with phase := some .failed } else live))
  | .patchPhase phase conditions, _ => some (w.setLive (w.live.withPhase phase conditions))
  | .recordStaged failed, _ =>
    let live := { w.live with staged := true }
    some (w.setLive (if failed then live.withPhase .failed true else live))
  | .resolveStaging, _ | .cleanupStaged, _ | .resolveSource, _ | .watchStagedPvc, _
  | .podWedged, _ | .planDeletion, _ => some w

end HookWorld

inductive HookEvent
  | sync
  | editPolicy (policy : Option HookSpec)
  /-- A user, or a replacing schedule, deletes the object. -/
  | delete
  | moverPhase (phase : SnapshotPhase)
  | jobEnds (ok : Bool)
  | jobGone
deriving DecidableEq

def HookWorld.env (w : HookWorld) : HookEvent → Option HookWorld
  | .sync => some { w with cached := w.live }
  | .editPolicy policy => some { w with policy }
  | .delete => some (w.setLive { w.live with deleting := true })
  | .moverPhase phase =>
    -- The mover runs, and reports how the capture ended.
    if w.job = some none ∧ (phase = .succeeded ∨ phase = .unchanged ∨ phase = .failed) then
      some (w.setLive { w.live with phase := some phase })
    else none
  | .jobEnds ok => if w.job = some none then some { w with job := some (some ok) } else none
  | .jobGone => some { w with job := none }

def hookSystem : System CaptureCall CaptureCall.Answer HookWorld HookEvent where
  exec := HookWorld.exec
  env := HookWorld.env
  pass w := reconcileCapture w.cached

/-- A call that goes well. -/
def HookWorld.reply (w : HookWorld) : (call : CaptureCall) → call.Answer
  | .getPolicy => w.policy
  | .getJob => w.job
  | .launchGate _ => .unresolved
  | .hook .. => .passed
  | .resolveStaging => .notApplicable
  | .resolveSource => .found
  | .watchStagedPvc => .clear
  | .podWedged => false
  | .planDeletion => .release
  | .deleteJob => true
  | .ensureFinalizer | .removeFinalizer | .createJob | .stampHooks _ | .patchHookFailure ..
  | .patchPhase .. | .recordStaged _ | .cleanupStaged => ()

namespace HookWorld

def AtRest (w : HookWorld) : Prop :=
  (runDecision w.live.phase = .succeededSteadyState ∨ runDecision w.live.phase = .terminalFailed) ∧
    w.cached = w.live ∧ (reconcileCapture w.cached).Idle exec reply w

/-- The object was created, and nothing was done for it. -/
structure Created (w : HookWorld) : Prop where
  stamps : w.live.stamps = (false, false)
  alive : w.live.deleting = false
  cached : w.cached = w.live
  before : w.before = ⟨0, 0, 0⟩
  after : w.after = ⟨0, 0, 0⟩
  held : w.released = false

end HookWorld

def CaptureCall.stamps? : CaptureCall → Option HookPhase
  | .stampHooks phase => some phase
  | _ => none

/-- The pass sees the stamps, every list that ended is stamped, and the object
is not deleted between its first hook and its last. -/
def orderly (w : Running CaptureCall CaptureCall.Answer HookWorld) :
    Move CaptureCall CaptureCall.Answer HookEvent → Bool
  | .start => w.state.cached.stamps = w.state.live.stamps
  | .crash => w.prog.head?.bind CaptureCall.stamps? = none
  | .env .delete => 0 < w.state.before.executed → 0 < w.state.after.ended
  | .answer (.hook .before ..) _ => w.state.live.deleting = false
  | .env _ | .answer .. => true

abbrev Orderly (w : Running CaptureCall CaptureCall.Answer HookWorld)
    (move : Move CaptureCall CaptureCall.Answer HookEvent) : Prop := orderly w move = true

-- What is kept

/-- What holds of the hooks when `due` is about to be stamped. The fields under
`strict` need the orderly moves. -/
structure Paired (strict : Prop) (due : Option HookPhase) (w : HookWorld) : Prop where
  ran : w.live.postCompletedAt = true → 0 < w.after.ended
  ended : due = some .after → 0 < w.after.ended
  known : w.cached.deleting = true → w.live.deleting = true
  released : w.released = true → w.live.deleting = true
  completed : w.after.completed ≤ w.after.ended
  beforeOnce : strict → w.before.completed ≤ 1
  afterOnce : strict → w.after.completed ≤ 1
  beforeStamped : strict → due ≠ some .before → 0 < w.before.completed →
    w.live.preCompletedAt = true
  afterStamped : strict → due ≠ some .after → 0 < w.after.ended → w.live.postCompletedAt = true
  doomed : strict → w.live.deleting = true → 0 < w.before.executed → 0 < w.after.ended

/-- What a pass can rely on between its calls. -/
structure Leaves (strict : Prop) (w w' : HookWorld) : Prop where
  before : w'.before = w.before
  after : w'.after = w.after
  released : w'.released = w.released
  stamps : w'.live.stamps = w.live.stamps
  deleted : w.live.deleting = true → w'.live.deleting = true
  deleting : w'.live.deleting = true → w.live.deleting = true ∨
    (strict → 0 < w.before.executed → 0 < w.after.ended)
  cached : w'.cached.deleting = true → w.cached.deleting = true ∨ w'.live.deleting = true

def hookContract (strict : Prop) :
    Contract CaptureCall CaptureCall.Answer HookWorld HookEvent where
  toSystem := hookSystem
  envOk w e := strict → e = .delete → 0 < w.before.executed → 0 < w.after.ended
  startOk w := strict → w.cached.stamps = w.live.stamps
  answerOk w call _ := strict → (∃ index hook last, call = .hook .before index hook last) →
    w.live.deleting = false
  crashOk call := strict → call.stamps? = none
  inv call w := Paired strict (call.bind CaptureCall.stamps?) w
  rely := Leaves strict

@[simp] def CaptureCall.Inert : CaptureCall → Prop
  | .hook .. | .stampHooks _ | .removeFinalizer => False
  | _ => True

section Steps

variable {strict : Prop} {due : Option HookPhase} {w w' w'' : HookWorld} {backup : CaptureRun}
  {phase : HookPhase} {α : Type} {post : α → HookWorld → Prop}

theorem stamps_eq {run run' : CaptureRun} : run'.stamps = run.stamps ↔
    run'.preCompletedAt = run.preCompletedAt ∧ run'.postCompletedAt = run.postCompletedAt := by
  simp [CaptureRun.stamps]

theorem Leaves.refl (w : HookWorld) : Leaves strict w w :=
  ⟨rfl, rfl, rfl, rfl, id, .inl, .inl⟩

theorem Leaves.trans (h : Leaves strict w w') (h' : Leaves strict w' w'') :
    Leaves strict w w'' where
  before := h'.before.trans h.before
  after := h'.after.trans h.after
  released := h'.released.trans h.released
  stamps := h'.stamps.trans h.stamps
  deleted := h'.deleted ∘ h.deleted
  deleting hd := by
    rcases h'.deleting hd with hd | hd
    · exact h.deleting hd
    · exact .inr (h.before ▸ h.after ▸ hd)
  cached hc := by
    rcases h'.cached hc with hc | hc
    · exact (h.cached hc).imp id h'.deleted
    · exact .inr hc

theorem Paired.leaves (h : Paired strict due w) (hl : Leaves strict w w') :
    Paired strict due w' := by
  obtain ⟨hpre, hpost⟩ := stamps_eq.mp hl.stamps
  exact
    { ran := by rw [hpost, hl.after]; exact h.ran
      ended := by rw [hl.after]; exact h.ended
      known := fun hc => (hl.cached hc).elim (fun hc => hl.deleted (h.known hc)) id
      released := by rw [hl.released]; exact hl.deleted ∘ h.released
      completed := by rw [hl.after]; exact h.completed
      beforeOnce := by rw [hl.before]; exact h.beforeOnce
      afterOnce := by rw [hl.after]; exact h.afterOnce
      beforeStamped := by rw [hl.before, hpre]; exact h.beforeStamped
      afterStamped := by rw [hl.after, hpost]; exact h.afterStamped
      doomed := fun hs hd => by
        rw [hl.before, hl.after]
        exact (hl.deleting hd).elim (h.doomed hs) fun hd => hd hs }

theorem Leaves.live {live : CaptureRun} (hstamps : live.stamps = w.live.stamps)
    (hdeleting : live.deleting = w.live.deleting) : Leaves strict w (w.setLive live) :=
  ⟨rfl, rfl, rfl, hstamps, fun h => hdeleting.trans h, fun h => .inl (hdeleting.symm.trans h), .inl⟩

theorem withPhase_stamps (run : CaptureRun) (p : SnapshotPhase) (conditions : Bool) :
    (run.withPhase p conditions).stamps = run.stamps ∧
      (run.withPhase p conditions).deleting = run.deleting := by
  unfold CaptureRun.withPhase
  split <;> exact ⟨rfl, rfl⟩

theorem exec_inert {call : CaptureCall} (hcall : call.Inert) {a : call.Answer}
    (hexec : w.exec call a = some w') : Leaves strict w w' := by
  cases call with
  | hook | stampHooks | removeFinalizer => exact hcall.elim
  | ensureFinalizer =>
    cases hexec
    exact .live rfl rfl
  | patchHookFailure p failure setFailedPhase =>
    cases hexec
    cases setFailedPhase <;> exact .live rfl rfl
  | patchPhase p conditions =>
    cases hexec
    exact .live (withPhase_stamps ..).1 (withPhase_stamps ..).2
  | recordStaged failed =>
    cases hexec
    cases failed with
    | false => exact .live rfl rfl
    | true =>
      exact .live (withPhase_stamps { w.live with staged := true } .failed true).1
        (withPhase_stamps { w.live with staged := true } .failed true).2
  | getPolicy | getJob | launchGate =>
    simp only [HookWorld.exec, Option.ite_none_right_eq_some] at hexec
    obtain ⟨-, ⟨⟩⟩ := hexec
    exact .refl w
  | deleteJob =>
    cases hexec
    cases a <;> exact ⟨rfl, rfl, rfl, rfl, id, .inl, .inl⟩
  | createJob =>
    cases hexec
    exact ⟨rfl, rfl, rfl, rfl, id, .inl, .inl⟩
  | resolveStaging | cleanupStaged | resolveSource | watchStagedPvc | podWedged | planDeletion =>
    cases hexec
    exact .refl w

theorem inert_stamps {call : CaptureCall} (h : call.Inert) : call.stamps? = none := by
  cases call <;> first | rfl | exact h.elim

theorem safe_inert {call : CaptureCall} {next : call.Answer → CapturePass α} (hcall : call.Inert)
    (hw : Paired strict none w)
    (hnext : ∀ a w', Leaves strict w w' → (hookContract strict).Safe (next a) post w') :
    (hookContract strict).Safe (.call call next) post w := by
  refine fun t ht => ⟨?_, fun a u _ hu => hnext a u (ht.trans (exec_inert hcall hu))⟩
  simpa [hookContract, inert_stamps hcall] using hw.leaves ht

theorem safe_ask {call : CaptureCall} {f : call.Answer → CapturePass α} (hcall : call.Inert)
    (hw : Paired strict none w)
    (hnext : ∀ a w', Leaves strict w w' → (hookContract strict).Safe (f a) post w') :
    (hookContract strict).Safe (api call >>= f) post w :=
  safe_inert hcall hw hnext

theorem safe_of_inert {p : CapturePass α} (hp : p.All CaptureCall.Inert)
    (hw : Paired strict none w) :
    (hookContract strict).Safe p (fun _ => Paired strict none) w := by
  induction p generalizing w with
  | done a => exact fun t ht => hw.leaves ht
  | call op next ih =>
    exact safe_inert hp.1 hw fun a w' hl => ih a (hp.2 a) (hw.leaves hl)

theorem safe_stamp {next : Unit → CapturePass α} (hw : Paired strict (some phase) w)
    (hnext : ∀ w', Paired strict none w' → (hookContract strict).Safe (next ()) post w') :
    (hookContract strict).Safe (.call (.stampHooks phase) next) post w := by
  refine fun t ht => ⟨hw.leaves ht, fun _ u _ hu => hnext u ?_⟩
  have h := hw.leaves ht
  cases hu
  cases phase with
  | before =>
    exact
      { h with
        ended := nofun
        beforeStamped := fun _ _ _ => rfl
        afterStamped := fun hs _ => h.afterStamped hs nofun }
  | after =>
    exact
      { h with
        ran := fun _ => h.ended rfl
        ended := nofun
        beforeStamped := fun hs _ => h.beforeStamped hs nofun
        afterStamped := fun _ _ _ => rfl }

theorem Leaves.stamped (h : Leaves strict w w') : w'.live.stamped phase = w.live.stamped phase := by
  obtain ⟨hpre, hpost⟩ := stamps_eq.mp h.stamps
  cases phase
  · exact hpre
  · exact hpost

theorem Paired.goOn (h : Paired strict none w)
    (halive : strict → phase = .before → w.live.deleting = false) {log : HookLog}
    (hended : log.ended = (w.log phase).ended) (hcompleted : log.completed = (w.log phase).completed) :
    Paired strict none (w.setLog phase log) := by
  cases phase with
  | before =>
    exact
      { h with
        beforeOnce := fun hs => (congrArg (· ≤ 1) hcompleted).mpr (h.beforeOnce hs)
        beforeStamped := fun hs hd hc => h.beforeStamped hs hd (hcompleted ▸ hc)
        doomed := fun hs hd => by simp [HookWorld.setLog, halive hs rfl] at hd }
  | after =>
    simp only [HookWorld.log] at hended hcompleted
    exact
      { ran := fun hp => by simpa [HookWorld.setLog, hended] using h.ran hp
        ended := nofun
        known := h.known
        released := h.released
        completed := by simpa [HookWorld.setLog, hended, hcompleted] using h.completed
        beforeOnce := h.beforeOnce
        afterOnce := fun hs => by simpa [HookWorld.setLog, hcompleted] using h.afterOnce hs
        beforeStamped := h.beforeStamped
        afterStamped := fun hs hd => by simpa [HookWorld.setLog, hended] using h.afterStamped hs hd
        doomed := fun hs hd he => by simpa [HookWorld.setLog, hended] using h.doomed hs hd he }

theorem Paired.close (h : Paired strict none w)
    (halive : strict → phase = .before → w.live.deleting = false)
    (hfirst : strict → w.live.stamped phase = false) {log : HookLog}
    (hended : log.ended = (w.log phase).ended + 1)
    (hcompleted : log.completed ≤ (w.log phase).completed + 1) :
    Paired strict (some phase) (w.setLog phase log) := by
  cases phase with
  | before =>
    have hzero : strict → w.before.completed = 0 := fun hs => by
      by_contra hne
      exact absurd (h.beforeStamped hs nofun (Nat.pos_of_ne_zero hne)) (by
        simp [← hfirst hs, CaptureRun.stamped])
    exact
      { h with
        ended := nofun
        beforeOnce := fun hs => by
          have := hzero hs
          simp only [HookWorld.setLog, HookWorld.log] at hcompleted ⊢
          omega
        beforeStamped := fun _ hd => absurd rfl hd
        afterStamped := fun hs _ => h.afterStamped hs nofun
        doomed := fun hs hd => by simp [HookWorld.setLog, halive hs rfl] at hd }
  | after =>
    have hzero : strict → w.after.ended = 0 := fun hs => by
      by_contra hne
      exact absurd (h.afterStamped hs nofun (Nat.pos_of_ne_zero hne)) (by
        simp [← hfirst hs, CaptureRun.stamped])
    have hle := h.completed
    simp only [HookWorld.log] at hended hcompleted
    exact
      { ran := fun _ => by simp [HookWorld.setLog, hended]
        ended := fun _ => by simp [HookWorld.setLog, hended]
        known := h.known
        released := h.released
        completed := by simp only [HookWorld.setLog]; omega
        beforeOnce := h.beforeOnce
        afterOnce := fun hs => by
          have := hzero hs
          simp only [HookWorld.setLog]
          omega
        beforeStamped := fun hs _ => h.beforeStamped hs nofun
        afterStamped := fun _ hd => absurd rfl hd
        doomed := fun _ _ _ => by simp [HookWorld.setLog, hended] }

/-- What is left of a list that ended: its stamp is due, unless an aborted
`beforeSnapshot` made it void. -/
structure Ended (strict : Prop) (phase : HookPhase) (failure : Option HookFailure)
    (w : HookWorld) : Prop where
  due : Paired strict (some phase) w
  aborted : phase = .before → failure.isSome → Paired strict none w

theorem Ended.leaves {failure : Option HookFailure} (h : Ended strict phase failure w)
    (hl : Leaves strict w w') : Ended strict phase failure w' :=
  ⟨h.due.leaves hl, fun hp hf => (h.aborted hp hf).leaves hl⟩

theorem safe_runHooks (hooks : List Hook) (index : Nat) (hne : hooks ≠ [])
    (hw : Paired strict none w) (hfirst : strict → w.live.stamped phase = false) :
    (hookContract strict).Safe (runHooks phase index hooks) (Ended strict phase) w := by
  induction hooks generalizing index w with
  | nil => exact absurd rfl hne
  | cons hook rest ih =>
    refine fun t ht => ⟨hw.leaves ht, fun outcome u hok hu => ?_⟩
    cases hu
    have ht' := hw.leaves ht
    have hfirst' : strict → t.live.stamped phase = false := fun hs => ht.stamped.trans (hfirst hs)
    have halive : strict → phase = .before → t.live.deleting = false := fun hs hp =>
      hok hs ⟨index, hook, rest.isEmpty, by rw [hp]⟩
    -- The rest of the list, or the stamp if there is none.
    have hnext : hook.letsOn outcome = true → (hookContract strict).Safe
        (runHooks phase (index + 1) rest) (Ended strict phase)
        (t.setLog phase ((t.log phase).run hook rest.isEmpty outcome)) := by
      intro hon
      cases rest with
      | nil =>
        have hdue : Paired strict (some phase)
            (t.setLog phase ((t.log phase).run hook true outcome)) :=
          ht'.close halive hfirst' (by simp [HookLog.run]) (by simp [HookLog.run, hon])
        exact fun v hv => (Ended.mk hdue (by simp)).leaves hv
      | cons hook' rest =>
        refine ih (index + 1) (by simp) (ht'.goOn halive ?_ ?_) ?_
        · simp [HookLog.run, hon]
        · simp [HookLog.run]
        · cases phase <;> exact hfirst'
    cases outcome with
    | passed => exact hnext rfl
    | failed message =>
      dsimp only
      split
      case isTrue hcont => exact hnext hcont
      case isFalse hcont =>
        have habort : hook.letsOn (.failed message) = false := by simpa [Hook.letsOn] using hcont
        have hdue : Paired strict (some phase)
            (t.setLog phase ((t.log phase).run hook rest.isEmpty (.failed message))) :=
          ht'.close halive hfirst' (by simp [HookLog.run, habort]) (by simp [HookLog.run, habort])
        refine fun v hv => (Ended.mk hdue ?_).leaves hv
        rintro rfl -
        exact
          { ht' with
            beforeOnce := fun hs => by
              simpa [HookWorld.setLog, HookWorld.log, HookLog.run, habort] using ht'.beforeOnce hs
            beforeStamped := fun hs hd => by
              simpa [HookWorld.setLog, HookWorld.log, HookLog.run, habort] using ht'.beforeStamped hs hd
            doomed := fun hs hd => by simp [HookWorld.setLog, halive hs rfl] at hd }

-- The parts of a pass

theorem cleanupIfStaged_inert (backup : CaptureRun) :
    (cleanupIfStaged backup).All CaptureCall.Inert := by
  unfold cleanupIfStaged
  split <;> simp [CaptureCall.Inert]

theorem cleanupAfterJob_inert (backup : CaptureRun) :
    (cleanupAfterJob backup).All CaptureCall.Inert := by
  unfold cleanupAfterJob
  split
  · refine .bind (by simp [CaptureCall.Inert]) fun job => ?_
    rcases job with _ | _ | _ <;> simp [CaptureCall.Inert]
  · simp

theorem launchJob_inert : launchJob.All CaptureCall.Inert := by
  refine .bind (by simp [CaptureCall.Inert]) fun source => ?_
  cases source <;> simp [CaptureCall.Inert, Prog.perform]

theorem stageSource_inert : stageSource.All CaptureCall.Inert := by
  refine .bind (by simp [CaptureCall.Inert]) fun staging => ?_
  cases staging with
  | notApplicable => exact launchJob_inert
  | ready => exact .bind (by simp [CaptureCall.Inert]) fun _ => launchJob_inert
  | waiting => simp [CaptureCall.Inert]
  | failed => exact .bind (by simp [CaptureCall.Inert]) fun _ => by simp [CaptureCall.Inert]

theorem patchGate_inert (gate : LaunchGate) : (patchGate gate).All CaptureCall.Inert := by
  unfold patchGate
  split <;> simp [CaptureCall.Inert]

theorem failInFlight_inert {cleanup : CapturePass Unit} (h : cleanup.All CaptureCall.Inert) :
    (failInFlight cleanup).All CaptureCall.Inert :=
  .bind (by simp [CaptureCall.Inert]) fun _ => .bind (by simp [CaptureCall.Inert]) fun _ => h

theorem jobInFlight_inert (backup : CaptureRun) : (jobInFlight backup).All CaptureCall.Inert := by
  refine .bind (by simp [CaptureCall.Inert]) fun watch => ?_
  cases watch with
  | provisioning => simp
  | expired => exact failInFlight_inert (by simp [CaptureCall.Inert])
  | clear =>
    refine .bind (by simp [CaptureCall.Inert]) fun wedged => ?_
    split
    · exact failInFlight_inert (cleanupIfStaged_inert backup)
    · split <;> simp [CaptureCall.Inert]

theorem surfaceHookFailure_inert (failure : Option HookFailure) :
    (surfaceHookFailure failure).All CaptureCall.Inert := by
  cases failure <;> simp [surfaceHookFailure, CaptureCall.Inert]

theorem patch_then_inert {cond : Prop} [Decidable cond] {call : CapturePass Unit}
    {cleanup : CapturePass Unit} (hcall : call.All CaptureCall.Inert)
    (h : cleanup.All CaptureCall.Inert) :
    (if cond then do call; cleanup else cleanup).All CaptureCall.Inert := by
  split
  · exact .bind hcall fun _ => h
  · exact h

theorem hookContract_refl (w : HookWorld) : (hookContract strict).rely w w := Leaves.refl w

theorem safe_stampedPostHooks {after : List Hook} (hne : after ≠ []) (hw : Paired strict none w)
    (hfirst : strict → w.live.postCompletedAt = false) :
    (hookContract strict).Safe (stampedPostHooks after) (fun _ => Paired strict none) w := by
  have hran : (hookContract strict).Safe (runHooks .after 0 after) (Ended strict .after) w :=
    safe_runHooks after 0 hne hw hfirst
  refine hran.bind hookContract_refl ?_
  exact fun failure t ht => safe_stamp ht.due fun u hu v hv => hu.leaves hv

theorem safe_runPostHooksOnce (hw : Paired strict none w)
    (hseen : strict → backup.postCompletedAt = w.live.postCompletedAt) :
    (hookContract strict).Safe (runPostHooksOnce backup) (fun _ => Paired strict none) w := by
  unfold runPostHooksOnce
  split
  · exact fun t ht => hw.leaves ht
  next hpost =>
  refine safe_ask (by simp [CaptureCall.Inert]) hw fun policy u hu => ?_
  cases policy with
  | none => exact fun t ht => (hw.leaves hu).leaves ht
  | some hooks =>
    dsimp only
    split
    · exact fun t ht => (hw.leaves hu).leaves ht
    next hne =>
    refine safe_stampedPostHooks hne (hw.leaves hu) fun hs => ?_
    have hstamped : u.live.stamped .after = w.live.stamped .after := hu.stamped
    simp only [CaptureRun.stamped] at hstamped
    rw [hstamped, ← hseen hs]
    simpa using hpost

theorem safe_post_then {rest : Option HookFailure → CapturePass Unit}
    (hrest : ∀ failure, (rest failure).All CaptureCall.Inert) (hw : Paired strict none w)
    (hseen : strict → backup.postCompletedAt = w.live.postCompletedAt) :
    (hookContract strict).Safe (runPostHooksOnce backup >>= rest) (fun _ => Paired strict none) w :=
  (safe_runPostHooksOnce hw hseen).bind hookContract_refl fun failure _ ht =>
    safe_of_inert (hrest failure) ht

theorem jobSucceeded_safe (hw : Paired strict none w)
    (hseen : strict → backup.postCompletedAt = w.live.postCompletedAt) :
    (hookContract strict).Safe (jobSucceeded backup) (fun _ => Paired strict none) w := by
  unfold jobSucceeded
  refine safe_post_then (fun failure => ?_) hw hseen
  cases failure with
  | some failure => simp [failForHook, CaptureCall.Inert]
  | none =>
    dsimp only
    split
    · exact cleanupIfStaged_inert backup
    · exact .bind (by simp [CaptureCall.Inert]) fun _ => cleanupIfStaged_inert backup

theorem jobFailed_safe (hw : Paired strict none w)
    (hseen : strict → backup.postCompletedAt = w.live.postCompletedAt) :
    (hookContract strict).Safe (jobFailed backup) (fun _ => Paired strict none) w :=
  safe_post_then (fun failure => .bind (surfaceHookFailure_inert failure) fun _ =>
    patch_then_inert (by simp [CaptureCall.Inert]) (cleanupIfStaged_inert backup)) hw hseen

theorem succeededSteadyState_safe (hw : Paired strict none w)
    (hseen : strict → backup.postCompletedAt = w.live.postCompletedAt) :
    (hookContract strict).Safe (succeededSteadyState backup) (fun _ => Paired strict none) w := by
  unfold succeededSteadyState
  refine safe_post_then (fun failure => ?_) hw hseen
  cases failure with
  | some failure => simp [failForHook, CaptureCall.Inert]
  | none => exact patch_then_inert (by simp [CaptureCall.Inert]) (cleanupAfterJob_inert backup)

theorem terminalFailed_safe (hw : Paired strict none w)
    (hseen : strict → backup.postCompletedAt = w.live.postCompletedAt) :
    (hookContract strict).Safe (terminalFailed backup) (fun _ => Paired strict none) w :=
  safe_post_then (fun failure => .bind (surfaceHookFailure_inert failure) fun _ =>
    patch_then_inert (by simp [CaptureCall.Inert]) (cleanupAfterJob_inert backup)) hw hseen

theorem stampedPreHooks_safe {before : List Hook} (hne : before ≠ []) (hw : Paired strict none w)
    (hfirst : strict → w.live.preCompletedAt = false) :
    (hookContract strict).Safe (stampedPreHooks before) (fun _ => Paired strict none) w := by
  have hran : (hookContract strict).Safe (runHooks .before 0 before) (Ended strict .before) w :=
    safe_runHooks before 0 hne hw hfirst
  refine hran.bind hookContract_refl ?_
  intro failure t ht
  cases failure with
  | some failure =>
    exact safe_of_inert (by simp [failForHook, CaptureCall.Inert]) (ht.aborted rfl rfl)
  | none => exact safe_stamp ht.due fun u hu => safe_of_inert stageSource_inert hu

theorem launchCapture_safe (hw : Paired strict none w)
    (hseen : strict → backup.preCompletedAt = w.live.preCompletedAt) :
    (hookContract strict).Safe (launchCapture backup) (fun _ => Paired strict none) w := by
  unfold launchCapture
  refine safe_ask (by simp [CaptureCall.Inert]) hw fun gate u hu => ?_
  have hu' := hw.leaves hu
  cases gate with
  | admitted hooks =>
    dsimp only
    split
    case isTrue h =>
      refine stampedPreHooks_safe h.1 hu' fun hs => ?_
      have hstamped : u.live.stamped .before = w.live.stamped .before := hu.stamped
      simp only [CaptureRun.stamped] at hstamped
      rw [hstamped, ← hseen hs]
      simpa using h.2
    case isFalse => exact safe_of_inert stageSource_inert hu'
  | readOnly | repositoryNotReady | maintenanceNotSynced | preflightFailed | parked | blocked
  | unresolved => exact safe_of_inert (patchGate_inert _) hu'

theorem removeFinalizer_safe (hw : Paired strict none w) (hdeleting : w.live.deleting = true) :
    (hookContract strict).Safe (api .removeFinalizer) (fun _ => Paired strict none) w := by
  intro t ht
  refine ⟨hw.leaves ht, fun _ u _ hu => ?_⟩
  cases hu
  have ht' := hw.leaves ht
  refine fun x hx => Paired.leaves ?_ hx
  exact { ht' with released := fun _ => ht.deleted hdeleting }

theorem planDeletion_safe (hw : Paired strict none w) (hdeleting : w.live.deleting = true) :
    (hookContract strict).Safe (do
      match ← api .planDeletion with
      | .deferred => pure ()
      | .held | .batched => api (.patchPhase .deleting false)
      | .release => api .removeFinalizer) (fun _ => Paired strict none) w := by
  refine safe_ask (by simp [CaptureCall.Inert]) hw fun turn x hx => ?_
  cases turn with
  | deferred => exact safe_of_inert (by simp) (hw.leaves hx)
  | held | batched => exact safe_of_inert (by simp [CaptureCall.Inert]) (hw.leaves hx)
  | release => exact removeFinalizer_safe (hw.leaves hx) (hx.deleted hdeleting)

theorem handleDeletion_safe (hw : Paired strict none w) (hdeleting : w.live.deleting = true) :
    (hookContract strict).Safe (handleDeletion backup) (fun _ => Paired strict none) w := by
  unfold handleDeletion
  split
  · exact fun t ht => hw.leaves ht
  unfold cleanupIfStaged
  split
  · exact safe_ask (by simp [CaptureCall.Inert]) hw fun _ x hx =>
      planDeletion_safe (hw.leaves hx) (hx.deleted hdeleting)
  · exact planDeletion_safe hw hdeleting

theorem reconcileCapture_safe (hw : Paired strict none w)
    (hseen : strict → w.cached.stamps = w.live.stamps) :
    (hookContract strict).Safe (reconcileCapture w.cached) (fun _ => Paired strict none) w := by
  have hpre : strict → w.cached.preCompletedAt = w.live.preCompletedAt :=
    fun hs => (stamps_eq.mp (hseen hs)).1
  have hpost : strict → w.cached.postCompletedAt = w.live.postCompletedAt :=
    fun hs => (stamps_eq.mp (hseen hs)).2
  unfold reconcileCapture
  split
  case isTrue hd => exact handleDeletion_safe hw (hw.known hd)
  case isFalse =>
  split
  · exact safe_of_inert (by simp [CaptureCall.Inert]) hw
  cases runDecision w.cached.phase with
  | succeededSteadyState => exact succeededSteadyState_safe hw hpost
  | terminalFailed => exact terminalFailed_safe hw hpost
  | wait => exact fun t ht => hw.leaves ht
  | run =>
    refine safe_ask (by simp [CaptureCall.Inert]) hw fun job u hu => ?_
    have hu' := hw.leaves hu
    obtain ⟨hupre, hupost⟩ := stamps_eq.mp hu.stamps
    rcases job with _ | _ | _ | _
    · exact launchCapture_safe hu' fun hs => (hpre hs).trans hupre.symm
    · exact safe_of_inert (jobInFlight_inert w.cached) hu'
    · exact jobFailed_safe hu' fun hs => (hpost hs).trans hupost.symm
    · exact jobSucceeded_safe hu' fun hs => (hpost hs).trans hupost.symm

theorem hookContract_upheld (strict : Prop) : (hookContract strict).Upheld where
  refl := Leaves.refl
  trans _ _ _ := Leaves.trans
  stable _ _ := Paired.leaves
  crash call w hcrash hw :=
    { hw with
      ended := nofun
      beforeStamped := fun hs _ => hw.beforeStamped hs (by simp [hcrash hs])
      afterStamped := fun hs _ => hw.afterStamped hs (by simp [hcrash hs]) }
  start _ hseen hw := reconcileCapture_safe hw hseen
  env call w e w' hw hok hstep := by
    cases e with
    | sync =>
      cases hstep
      exact ⟨rfl, rfl, rfl, rfl, id, .inl, .inr⟩
    | editPolicy policy =>
      cases hstep
      exact ⟨rfl, rfl, rfl, rfl, id, .inl, .inl⟩
    | delete =>
      cases hstep
      exact ⟨rfl, rfl, rfl, rfl, fun _ => rfl, fun _ => .inr fun hs => hok hs rfl, .inl⟩
    | moverPhase phase =>
      simp only [hookContract, hookSystem, HookWorld.env, Option.ite_none_right_eq_some] at hstep
      obtain ⟨-, ⟨⟩⟩ := hstep
      exact .live rfl rfl
    | jobEnds ok =>
      simp only [hookContract, hookSystem, HookWorld.env, Option.ite_none_right_eq_some] at hstep
      obtain ⟨-, ⟨⟩⟩ := hstep
      exact ⟨rfl, rfl, rfl, rfl, id, .inl, .inl⟩
    | jobGone =>
      cases hstep
      exact ⟨rfl, rfl, rfl, rfl, id, .inl, .inl⟩

theorem HookWorld.Created.paired (h : w.Created) : Paired strict none w := by
  obtain ⟨hpre, hpost⟩ := Prod.mk.inj h.stamps
  exact
    { ran := by simp [hpost]
      ended := nofun
      known := by simp [h.cached]
      released := by simp [h.held]
      completed := by simp [h.after]
      beforeOnce := by simp [h.before]
      afterOnce := by simp [h.after]
      beforeStamped := by simp [h.before]
      afterStamped := by simp [h.after]
      doomed := by simp [h.alive] }

theorem runHooks_not_idle {hooks : List Hook} (hne : hooks ≠ []) (index : Nat) :
    ¬ (runHooks phase index hooks).Idle HookWorld.exec HookWorld.reply w := by
  cases hooks with
  | nil => exact absurd rfl hne
  | cons hook rest =>
    rintro ⟨hexec, -⟩
    have hlog := congrArg (fun w => (w.log phase).executed) (Option.some.inj hexec)
    cases phase <;> simp [HookWorld.setLog, HookWorld.log, HookLog.run] at hlog

theorem runPostHooksOnce_idle
    (h : (runPostHooksOnce backup).Idle HookWorld.exec HookWorld.reply w) :
    backup.postCompletedAt = true ∨ ∀ hooks, w.policy = some hooks → hooks.afterSnapshot = [] := by
  unfold runPostHooksOnce at h
  split at h
  · next hpost => exact .inl hpost
  refine .inr fun hooks hpolicy => ?_
  by_contra hne
  obtain ⟨-, hrest⟩ := h
  have hpost : (stampedPostHooks hooks.afterSnapshot).Idle HookWorld.exec HookWorld.reply w := by
    simpa [HookWorld.reply, hpolicy, hne, Prog.bind] using hrest
  exact runHooks_not_idle hne 0 hpost.of_bind

theorem HookWorld.AtRest.settled (h : w.AtRest) (halive : w.live.deleting = false) :
    w.live.postCompletedAt = true ∨
      ∀ hooks, w.policy = some hooks → hooks.afterSnapshot = [] := by
  obtain ⟨hterminal, hsync, hidle⟩ := h
  rw [hsync] at hidle
  unfold reconcileCapture at hidle
  simp only [halive, Bool.false_eq_true, if_false] at hidle
  split at hidle
  case isTrue hfinalizer =>
    obtain ⟨hexec, -⟩ := hidle
    have hsame := congrArg (fun w => w.live.finalizer) (Option.some.inj hexec)
    simp only [HookWorld.setLive] at hsame
    simp [← hsame] at hfinalizer
  case isFalse =>
    rcases hterminal with hphase | hphase
    · rw [hphase] at hidle
      exact runPostHooksOnce_idle hidle.of_bind
    · rw [hphase] at hidle
      exact runPostHooksOnce_idle hidle.of_bind

end Steps

theorem hookContract_ok {w : Running CaptureCall CaptureCall.Answer HookWorld}
    {move : Move CaptureCall CaptureCall.Answer HookEvent} (h : Orderly w move) :
    (hookContract True).ok w move := by
  cases move with
  | env e =>
    rintro - rfl
    exact of_decide_eq_true h
  | start => exact fun _ => by simpa [Orderly, orderly] using h
  | answer op a =>
    rintro - ⟨index, hook, last, rfl⟩
    simpa [Orderly, orderly] using h
  | crash =>
    intro call hcall _
    simpa [Orderly, orderly, hcall] using h

/-- A terminal snapshot at rest, not being deleted, has run its after hooks or
there is none to run. Where the moves are orderly no list is completed twice,
and the finalizer is not released between the two lists. -/
theorem hooks_paired {start : HookWorld} (hstart : start.Created) :
    (∀ w, Reaches hookSystem.step (fun _ _ => True) (.idle start) w → w.state.AtRest →
      w.state.live.deleting = false → 0 < w.state.after.ended ∨ w.state.policy = none ∨
        ∃ hooks, w.state.policy = some hooks ∧ hooks.afterSnapshot = []) ∧
    ∀ w, Reaches hookSystem.step Orderly (.idle start) w →
      w.state.before.completed ≤ 1 ∧ w.state.after.completed ≤ 1 ∧
      (w.state.released = true → 0 < w.state.before.executed → 0 < w.state.after.ended) := by
  refine ⟨fun w hrun hrest halive => ?_, fun w hrun => ?_⟩
  · have hok : ∀ (w : Running CaptureCall CaptureCall.Answer HookWorld)
        (move : Move CaptureCall CaptureCall.Answer HookEvent), True → (hookContract False).ok w move := by
      intro w move _
      cases move with
      | env | start | answer => exact False.elim
      | crash => exact fun _ _ => False.elim
    have hpaired := (hookContract_upheld False).throughout hstart.paired (hrun.mono hok)
    rcases hrest.settled halive with hpost | hnone
    · exact .inl (hpaired.ran hpost)
    · cases hpolicy : w.state.policy with
      | none => exact .inr (.inl rfl)
      | some hooks => exact .inr (.inr ⟨hooks, rfl, hnone hooks hpolicy⟩)
  · have hpaired := (hookContract_upheld True).throughout hstart.paired
      (hrun.mono fun _ _ => hookContract_ok)
    exact ⟨hpaired.beforeOnce trivial, hpaired.afterOnce trivial, fun hr =>
      hpaired.doomed trivial (hpaired.released hr)⟩

instance : DecidablePred HookWorld.AtRest := fun _ =>
  inferInstanceAs (Decidable ((_ ∨ _) ∧ _ ∧ _))

def quiesceHook : Hook := ⟨.workloadExec, false⟩

def quiescing : HookSpec := ⟨[quiesceHook], [quiesceHook]⟩

def newCapture : HookWorld :=
  let run : CaptureRun :=
    { phase := none, preCompletedAt := false, postCompletedAt := false, staged := false,
      ready := false, stalled := false, hooksFailed := none, deleting := false, finalizer := true }
  { live := run, cached := run, policy := some quiescing, job := none, before := ⟨0, 0, 0⟩,
    after := ⟨0, 0, 0⟩, released := false }

theorem newCapture_created : newCapture.Created := ⟨rfl, rfl, rfl, rfl, rfl, rfl⟩

abbrev HookMove := Move CaptureCall CaptureCall.Answer HookEvent

/-- A launch up to its `beforeSnapshot` hook, and on from it. -/
def quiesceRun : List HookMove :=
  [.start, .answer .getJob none, .answer (.launchGate true) (.admitted quiescing),
    .answer (.hook .before 0 quiesceHook true) .passed]

def captureRun : List HookMove :=
  [.answer (.stampHooks .before) (), .answer .resolveStaging .notApplicable,
    .answer .resolveSource .found, .answer .createJob (), .answer (.patchPhase .running false) ()]

def captured : List HookMove :=
  [.env (.moverPhase .succeeded), .env (.jobEnds true), .env .sync, .start]

theorem hooks_paired_captured : ∃ w, Reaches hookSystem.step Orderly (.idle newCapture) w ∧
    w.state.AtRest ∧ 0 < w.state.before.executed ∧ 0 < w.state.after.ended ∧
    w.state.after.completed ≤ 1 := by
  obtain ⟨w, hreach, hrest, halive, hbefore, hpolicy⟩ : ∃ w,
      Reaches hookSystem.step Orderly (.idle newCapture) w ∧ w.state.AtRest ∧
        w.state.live.deleting = false ∧ 0 < w.state.before.executed ∧
        w.state.policy = some quiescing :=
    exists_reaches (quiesceRun ++ captureRun ++ captured ++ [.answer .getPolicy (some quiescing),
      .answer (.hook .after 0 quiesceHook true) .passed, .answer (.stampHooks .after) (),
      .answer (.patchPhase .succeeded true) (), .env .sync]) (by decide)
  obtain ⟨hall, horderly⟩ := hooks_paired newCapture_created
  refine ⟨w, hreach, hrest, hbefore, ?_, (horderly w hreach).2.1⟩
  rcases hall w (hreach.mono fun _ _ _ => trivial) hrest halive with h | h | ⟨hooks, hh, hnil⟩
  · exact h
  · simp [hpolicy] at h
  · obtain rfl : quiescing = hooks := by simpa [hpolicy] using hh
    simp [quiescing] at hnil

/-- Without its policy a capture ends with the workload quiesced; a crash ahead
of the stamp runs the list again; and a deletion in between releases the
finalizer with the workload quiesced. -/
theorem hooks_unpaired :
    (∃ w, Reaches hookSystem.step Orderly (.idle newCapture) w ∧ w.state.AtRest ∧
      0 < w.state.before.executed ∧ w.state.after.executed = 0) ∧
    (∃ w, Reaches hookSystem.step (fun _ _ => True) (.idle newCapture) w ∧
      w.state.before.completed = 2) ∧
    ∃ w, Reaches hookSystem.step (fun _ _ => True) (.idle newCapture) w ∧
      w.state.released = true ∧ 0 < w.state.before.executed ∧ w.state.after.executed = 0 := by
  refine ⟨?_, exists_reaches (quiesceRun ++ [.crash] ++ quiesceRun) (by decide), ?_⟩
  · exact exists_reaches (quiesceRun ++ captureRun ++ [.env (.editPolicy none)] ++ captured ++
      [.answer .getPolicy none, .answer (.patchPhase .succeeded true) (), .env .sync]) (by decide)
  · exact exists_reaches (quiesceRun ++ captureRun ++ [.env .delete, .env .sync, .start,
      .answer .planDeletion .release, .answer .removeFinalizer ()]) (by decide)

end Kopiur
