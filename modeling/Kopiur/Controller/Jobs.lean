import Kopiur.Naming

/-!
# Jobs

The parts of a Kubernetes Job the controller reads, and when it counts as
finished.
-/

namespace Kopiur

structure JobCondition where
  type : String
  status : String
  lastTransitionTime : Option DateTime := none
deriving DecidableEq

structure Job where
  metadata : ObjectMeta
  suspend : Option Bool := none
  conditions : List JobCondition := []
  succeeded : Nat := 0
  completionTime : Option DateTime := none
deriving DecidableEq

namespace Job

def ns (job : Job) : String := job.metadata.ns.getD ""

def name (job : Job) : String := job.metadata.nameAny

def key (job : Job) : String := jobKey job.ns job.name

/-- A Job that reports its end: completed or failed at `t`. -/
def finished (job : Job) (ok : Bool) (t : DateTime) : Job :=
  if ok then
    { job with
      conditions := job.conditions ++ [{ type := "Complete", status := "True", lastTransitionTime := some t }]
      succeeded := 1
      completionTime := some t }
  else
    { job with
      conditions := job.conditions ++ [{ type := "Failed", status := "True", lastTransitionTime := some t }] }

end Job

def terminalCondition (c : JobCondition) : Bool :=
  c.status == "True" && (c.type == "Complete" || c.type == "Failed")

/-- `some true` complete, `some false` failed, `none` still running. -/
def jobTerminalState (job : Job) : Option Bool :=
  match job.conditions.find? terminalCondition with
  | some c => some (c.type == "Complete")
  | none => if job.succeeded ≥ 1 then some true else none

def jobIsSuspended (job : Job) : Bool :=
  decide (job.suspend = some true) ||
    job.conditions.any fun c => c.type == "Suspended" && c.status == "True"

def jobOccupiesSlot (job : Job) : Bool :=
  if (jobTerminalState job).isSome then false else !jobIsSuspended job

theorem jobTerminalState_finished {job : Job} (ok : Bool) (t : DateTime)
    (h : jobTerminalState job = none) : jobTerminalState (job.finished ok t) = some ok := by
  have hfind : job.conditions.find? terminalCondition = none := by
    cases hf : job.conditions.find? terminalCondition with
    | none => rfl
    | some c => simp [jobTerminalState, hf] at h
  cases ok <;> simp [jobTerminalState, Job.finished, List.find?_append, hfind, terminalCondition]

def finishJob (key : String) (ok : Bool) (t : DateTime) (job : Job) : Job :=
  if job.key = key ∧ jobTerminalState job = none then job.finished ok t else job

@[simp] theorem finishJob_metadata (key : String) (ok : Bool) (t : DateTime) (job : Job) :
    (finishJob key ok t job).metadata = job.metadata := by
  unfold finishJob Job.finished
  split
  · cases ok <;> rfl
  · rfl

@[simp] theorem finishJob_key (key : String) (ok : Bool) (t : DateTime) (job : Job) :
    (finishJob key ok t job).key = job.key := by
  simp [Job.key, Job.ns, Job.name]

theorem finishJob_running {key : String} {ok : Bool} {t : DateTime} {job : Job}
    (h : jobTerminalState (finishJob key ok t job) = none) : finishJob key ok t job = job := by
  unfold finishJob at h ⊢
  split at h
  case isTrue hrun => simp [jobTerminalState_finished ok t hrun.2] at h
  case isFalse hrun => simp [hrun]

end Kopiur
