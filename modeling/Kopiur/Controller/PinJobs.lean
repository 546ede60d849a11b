import Kopiur.Controller.Conditions
import Kopiur.Naming

/-!
# Pinning a snapshot in kopia

`spec.pin` is what is wanted, `status.pinned` what was recorded last. A Job
carries the direction it applies, and its terminal state is read by what the
Job did, whatever `spec.pin` says by then.
-/

namespace Kopiur

inductive PinAction
  | pin
  | unpin
  | noOp
deriving DecidableEq

def pinDecision (desired : Bool) (observed : Option Bool) : PinAction :=
  match desired, observed with
  | true, some true => .noOp
  | true, _ => .pin
  | false, some true => .unpin
  | false, _ => .noOp

/-- What the pin pass reads of a `Snapshot`. -/
structure PinnedSnapshot where
  pin : Bool
  pinned : Option Bool
  conditions : List Condition
  kopiaSnapshotId : Option String
deriving DecidableEq

structure SnapshotPinOp where
  snapshotId : String
  pin : Bool
deriving DecidableEq

/-- A pin Job. `applied` is not part of the object: it says whether kopia has
the Job's change. -/
structure PinJob where
  name : String
  pinTarget : Option String
  op : SnapshotPinOp
  terminal : Option Bool
  applied : Bool
deriving DecidableEq

def pinnedCondition : String := "Pinned"

/-- How soon the next pass comes, in seconds. -/
abbrev Requeue := Nat

def terminalSnapshotSteadyRequeue : Requeue := 45 * 60

inductive PinCall
  /-- Set the condition to `Unknown`, ahead of the Job. -/
  | mark
  | create (name : String) (pinTarget : String) (op : SnapshotPinOp)
  | record (pinned : Bool)
  | markFailed (observed : Bool)
  | delete (name : String)
deriving DecidableEq

def pinJobNames (snapshot : String) : String × Option String :=
  let full := snapshot ++ "-pin"
  let current := cappedJobName full
  (current, legacyJobName full current)

def PinnedSnapshot.pinJobMayExist (backup : PinnedSnapshot) : Bool :=
  backup.pin || backup.pinned.isSome || backup.conditions.any fun c => c.type == pinnedCondition

def pinTargetText (pin : Bool) : String := if pin then "true" else "false"

def PinJob.target (job : PinJob) : Option Bool :=
  job.pinTarget.bind fun s =>
    if s = "true" then some true else if s = "false" then some false else none

/-- Whether a failed Job's direction is still the one wanted. A Job without a
direction is taken for this action's attempt. -/
def pinJobStillWanted (target : Option Bool) (action : PinAction) : Bool :=
  match target, action with
  | some t, .pin => t
  | some t, .unpin => !t
  | none, .pin | none, .unpin => true
  | _, .noOp => false

def postPinConsumeAction : PinAction → Requeue
  | .noOp => terminalSnapshotSteadyRequeue
  | .pin | .unpin => 5

def handlePinJob (backup : PinnedSnapshot) (jobName : String) (job : PinJob) (action : PinAction) :
    List PinCall × Requeue :=
  match job.terminal with
  | none => ([], 15)
  | some true =>
    match job.target with
    | some t =>
      if backup.pinned ≠ some t then ([.record t], 5)
      else ([.delete jobName], postPinConsumeAction action)
    | none => ([.delete jobName], postPinConsumeAction action)
  | some false =>
    if !pinJobStillWanted job.target action then
      ([.delete jobName], postPinConsumeAction action)
    else ([.markFailed (backup.pinned.getD false)], 120)

/-- Without a Job: launch one if a change is wanted and the snapshot is known. -/
def launchPinJob (backup : PinnedSnapshot) (jobName : String) (action : PinAction) :
    List PinCall × Requeue :=
  if action = .noOp then ([], terminalSnapshotSteadyRequeue)
  else match backup.kopiaSnapshotId with
    | none => ([], 30)
    | some snapshotId =>
      let pin := action == .pin
      ([.mark, .create jobName (pinTargetText pin) { snapshotId, pin }], 15)

def reconcilePin (name : String) (backup : PinnedSnapshot) (getJob : String → Option PinJob) :
    List PinCall × Requeue :=
  let action := pinDecision backup.pin backup.pinned
  let (jobName, legacyJobName) := pinJobNames name
  if action = .noOp ∧ !backup.pinJobMayExist then ([], terminalSnapshotSteadyRequeue)
  else match legacyJobName.bind fun legacy => (getJob legacy).map (legacy, ·) with
    | some (legacy, job) => handlePinJob backup legacy job action
    | none => match getJob jobName with
      | some job => handlePinJob backup jobName job action
      | none => launchPinJob backup jobName action

namespace PinnedSnapshot

/-- The pin state that `status` shows. -/
def observed (backup : PinnedSnapshot) : Bool := backup.pinned.getD false

/-- A Job was announced at some time: what the gate knows besides `spec.pin`. -/
def Announced (backup : PinnedSnapshot) : Prop :=
  backup.pinned.isSome ∨ (findCondition backup.conditions pinnedCondition).isSome

theorem Announced.mayExist {backup : PinnedSnapshot} (h : backup.Announced) :
    backup.pinJobMayExist = true := by
  unfold pinJobMayExist
  rcases h with h | h
  · simp [h]
  · rw [findCondition, List.find?_isSome] at h
    simpa using Or.inr h

end PinnedSnapshot

def lookedUp (name : String) : List String := (pinJobNames name).1 :: (pinJobNames name).2.toList

@[simp] theorem target_pinTargetText (name : String) (pin applied : Bool) (op : SnapshotPinOp)
    (terminal : Option Bool) :
    PinJob.target ⟨name, some (pinTargetText pin), op, terminal, applied⟩ = some pin := by
  cases pin <;> rfl

theorem pinDecision_noOp {desired : Bool} {observed : Option Bool} :
    pinDecision desired observed = .noOp ↔ desired = observed.getD false := by
  cases desired <;> rcases observed with _ | _ | _ <;> simp [pinDecision]

theorem pinDecision_pin {desired : Bool} {observed : Option Bool}
    (h : pinDecision desired observed ≠ .noOp) :
    (pinDecision desired observed == .pin) = !observed.getD false := by
  cases desired <;> rcases observed with _ | _ | _ <;> simp_all [pinDecision]

theorem handlePinJob_cases (backup : PinnedSnapshot) (jobName : String) (job : PinJob)
    (action : PinAction) :
    (job.terminal = none ∧ handlePinJob backup jobName job action = ([], 15)) ∨
    (∃ t, job.terminal = some true ∧ job.target = some t ∧
      (handlePinJob backup jobName job action).1 = [.record t]) ∨
    ((handlePinJob backup jobName job action).1 = [.delete jobName] ∧ job.terminal.isSome ∧
      (job.terminal = some true → ∀ t, job.target = some t → backup.pinned = some t)) ∨
    (job.terminal = some false ∧
      (handlePinJob backup jobName job action).1 = [.markFailed (backup.pinned.getD false)]) := by
  unfold handlePinJob
  cases job.terminal with
  | none => exact .inl ⟨rfl, rfl⟩
  | some ok =>
    cases ok with
    | false =>
      dsimp only
      split
      · exact .inr (.inr (.inl ⟨rfl, rfl, by simp⟩))
      · exact .inr (.inr (.inr ⟨rfl, rfl⟩))
    | true =>
      cases job.target with
      | none => exact .inr (.inr (.inl ⟨rfl, rfl, by simp⟩))
      | some t =>
        dsimp only
        split
        · exact .inr (.inl ⟨t, rfl, rfl, rfl⟩)
        · next h => exact .inr (.inr (.inl ⟨rfl, rfl, by simpa using h⟩))

theorem reconcilePin_cases (name : String) (backup : PinnedSnapshot)
    (getJob : String → Option PinJob) :
    (pinDecision backup.pin backup.pinned = .noOp ∧ backup.pinJobMayExist = false ∧
      reconcilePin name backup getJob = ([], terminalSnapshotSteadyRequeue)) ∨
    (∃ n ∈ lookedUp name, ∃ job, getJob n = some job ∧ reconcilePin name backup getJob =
      handlePinJob backup n job (pinDecision backup.pin backup.pinned)) ∨
    ((∀ n ∈ lookedUp name, getJob n = none) ∧ reconcilePin name backup getJob =
      launchPinJob backup (pinJobNames name).1 (pinDecision backup.pin backup.pinned)) := by
  unfold reconcilePin lookedUp
  obtain ⟨jobName, legacy⟩ := pinJobNames name
  dsimp only
  split
  · next h => exact .inl ⟨h.1, by simpa using h.2, rfl⟩
  · refine .inr ?_
    cases hlegacy : legacy.bind fun legacy => (getJob legacy).map (legacy, ·) with
    | some found =>
      obtain ⟨l, rfl, hfound⟩ := Option.bind_eq_some_iff.mp hlegacy
      obtain ⟨job, hjob, rfl⟩ := Option.map_eq_some_iff.mp hfound
      exact .inl ⟨l, by simp, job, hjob, rfl⟩
    | none =>
      have hold : ∀ l, legacy = some l → getJob l = none := by
        rintro l rfl
        simpa using hlegacy
      cases hjob : getJob jobName with
      | some job => exact .inl ⟨jobName, by simp, job, hjob, rfl⟩
      | none =>
        refine .inr ⟨?_, rfl⟩
        simpa [hjob] using hold

theorem launchPinJob_cases (backup : PinnedSnapshot) (jobName : String) :
    let action := pinDecision backup.pin backup.pinned
    (action = .noOp ∧ launchPinJob backup jobName action = ([], terminalSnapshotSteadyRequeue)) ∨
    (action ≠ .noOp ∧ launchPinJob backup jobName action = ([], 30)) ∨
    ∃ op : SnapshotPinOp, op.pin = !backup.observed ∧ (launchPinJob backup jobName action).1 =
      [.mark, .create jobName (pinTargetText op.pin) op] := by
  intro action
  unfold launchPinJob
  split
  · next h => exact .inl ⟨h, rfl⟩
  · next h =>
    cases backup.kopiaSnapshotId with
    | none => exact .inr (.inl ⟨h, rfl⟩)
    | some id => exact .inr (.inr ⟨⟨id, action == .pin⟩, pinDecision_pin h, rfl⟩)

end Kopiur
