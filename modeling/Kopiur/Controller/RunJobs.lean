import Mathlib.Data.List.Basic
import Kopiur.Lib.Runs
import Kopiur.Time

/-!
# Objects that run Jobs

A `Maintenance` or a replication starts Jobs by name and learns their outcome
from the Jobs that are still there. A pass reads the object and its Jobs and
makes its calls in order; it may end after any of them. Movers write to the
status, finished Jobs go away, users edit the object.
-/

namespace Kopiur

open Lib

variable {σ π ρ ε α : Type}

/-- A Job with what it runs; `terminal` is whether it succeeded. -/
structure RunJob (ρ : Type) where
  name : String
  run : ρ
  terminal : Option Bool := none
deriving DecidableEq

inductive RunCall (π ρ : Type)
  | patch (p : π)
  | create (name : String) (run : ρ)
  | delete (name : String)
deriving DecidableEq

/-- What a pass reads of the Jobs. -/
structure JobsView where
  now : DateTime
  job : String → Option (Option Bool)
  -- Some Job of the object is not finished.
  active : Bool

/-- One kind of object: its reconcile, what a patch does to it, what a user may
edit and what the mover of a run stamps. -/
structure RunKind (σ π ρ ε α : Type) where
  reconcile : ε → JobsView → σ → List (RunCall π ρ)
  apply : π → σ → σ
  edit : α → σ → σ
  stamp : ρ → DateTime → σ → σ

/-- A Job that was created, with the Jobs there were and the runs that had
succeeded. -/
structure Creation (ρ : Type) where
  name : String
  run : ρ
  jobs : List (RunJob ρ)
  succeeded : List ρ
deriving DecidableEq

structure RunWorld (σ ρ : Type) where
  cr : σ
  clock : DateTime
  jobs : List (RunJob ρ) := []
  created : List (Creation ρ) := []
  succeeded : List ρ := []
deriving DecidableEq

inductive RunEvent (ε α : Type)
  -- Only the first calls of the pass go through.
  | pass (env : ε) (calls : Nat)
  | tick (now : DateTime)
  | edit (a : α)
  | stamp (name : String)
  | finish (name : String) (succeeded : Bool)
  | reap (name : String)

namespace RunWorld

def find (w : RunWorld σ ρ) (name : String) : Option (RunJob ρ) :=
  w.jobs.find? fun j => j.name == name

def view (w : RunWorld σ ρ) : JobsView where
  now := w.clock
  job name := (w.find name).map RunJob.terminal
  active := w.jobs.any fun j => j.terminal.isNone

end RunWorld

namespace RunKind

variable (k : RunKind σ π ρ ε α)

def exec (w : RunWorld σ ρ) : RunCall π ρ → RunWorld σ ρ
  | .patch p => { w with cr := k.apply p w.cr }
  | .create name run =>
    { w with
      jobs := w.jobs ++ [{ name, run }]
      created := w.created ++ [{ name, run, jobs := w.jobs, succeeded := w.succeeded }] }
  | .delete name => { w with jobs := w.jobs.filter fun j => j.name != name }

def step (w : RunWorld σ ρ) : RunEvent ε α → Option (RunWorld σ ρ)
  | .pass env calls => some (((k.reconcile env w.view w.cr).take calls).foldl k.exec w)
  | .tick now => if w.clock ≤ now then some { w with clock := now } else none
  | .edit a => some { w with cr := k.edit a w.cr }
  | .stamp name =>
    (w.find name).bind fun j =>
      if j.terminal.isNone then some { w with cr := k.stamp j.run w.clock w.cr } else none
  | .finish name ok =>
    (w.find name).bind fun j =>
      if j.terminal.isNone then
        some
          { w with
            jobs := w.jobs.map fun i => if i.name = name then { i with terminal := some ok } else i
            succeeded := if ok then j.run :: w.succeeded else w.succeeded }
      else none
  | .reap name =>
    (w.find name).map fun _ => { w with jobs := w.jobs.filter fun j => j.name != name }

end RunKind

namespace RunWorld

variable {w : RunWorld σ ρ} {name : String} {j : RunJob ρ}

theorem find_some (h : w.find name = some j) : j ∈ w.jobs ∧ j.name = name :=
  ⟨List.mem_of_find?_eq_some h, by simpa using List.find?_some h⟩

theorem find_none (h : w.find name = none) : ∀ j ∈ w.jobs, j.name ≠ name := by
  intro j hj hname
  have := List.find?_eq_none.mp h j hj
  simp [hname] at this

theorem view_job_none (h : w.view.job name = none) : ∀ j ∈ w.jobs, j.name ≠ name :=
  find_none (by simpa [view] using h)

theorem view_job_some {t : Option Bool} (h : w.view.job name = some t) :
    ∃ j ∈ w.jobs, j.name = name ∧ j.terminal = t := by
  obtain ⟨j, hj, rfl⟩ := Option.map_eq_some_iff.mp (by simpa [view] using h)
  exact ⟨j, (find_some hj).1, (find_some hj).2, rfl⟩

theorem view_not_active (h : w.view.active = false) : ∀ j ∈ w.jobs, j.terminal ≠ none := by
  intro j hj hterm
  have := List.any_eq_false.mp h j hj
  simp [hterm] at this

end RunWorld

namespace RunKind

variable (k : RunKind σ π ρ ε α) {w w' : RunWorld σ ρ} {name : String}

theorem step_tick {now : DateTime} (h : k.step w (.tick now) = some w') :
    w.clock ≤ now ∧ w' = { w with clock := now } := by
  obtain ⟨hle, hw⟩ := Option.ite_none_right_eq_some.mp h
  exact ⟨hle, (Option.some.inj hw).symm⟩

theorem step_stamp (h : k.step w (.stamp name) = some w') :
    ∃ j : RunJob ρ, w' = { w with cr := k.stamp j.run w.clock w.cr } := by
  obtain ⟨j, -, hstamp⟩ := Option.bind_eq_some_iff.mp h
  exact ⟨j, (Option.some.inj (Option.ite_none_right_eq_some.mp hstamp).2).symm⟩

theorem step_finish {ok : Bool} (h : k.step w (.finish name ok) = some w') :
    ∃ j ∈ w.jobs, j.name = name ∧ j.terminal.isNone = true ∧ w' =
      { w with
        jobs := w.jobs.map fun i => if i.name = name then { i with terminal := some ok } else i
        succeeded := if ok then j.run :: w.succeeded else w.succeeded } := by
  obtain ⟨j, hj, hfinish⟩ := Option.bind_eq_some_iff.mp h
  obtain ⟨hrunning, hw⟩ := Option.ite_none_right_eq_some.mp hfinish
  exact ⟨j, (RunWorld.find_some hj).1, (RunWorld.find_some hj).2, hrunning,
    (Option.some.inj hw).symm⟩

end RunKind

end Kopiur
