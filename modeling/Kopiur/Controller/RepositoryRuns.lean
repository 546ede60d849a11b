import Kopiur.Controller.Repository
import Kopiur.Lib.Runs

/-!
# Runs of a repository

Passes of the reconciler, the runs of its bootstrap Job, edits of the object
and changes at the backend, in any order and at any non-decreasing times.
-/

namespace Kopiur

open Lib

def DiscoveryJob.listed (job : DiscoveryJob) (tick : Nat) (contents : List String) :
    Nat × List String :=
  job.listing.getD (tick, contents)

/-- A run of the mover in a Job's pod. The Job may run it again until it is
finished; the result may fail to be written. -/
def DiscoveryJob.run (job : DiscoveryJob) (tick : Nat) (k : KopiaAnswers) (contents : List String)
    (written : Bool) : DiscoveryJob :=
  let listed := job.listed tick contents
  let report := runBootstrap job.op k listed.2
  { job with
    exit := some report.success
    report := if written then some report else job.report
    listing := none
    listedAt :=
      if written then (if report.snapshotCount.isSome then some listed.1 else none)
      else job.listedAt }

def DiscoveryJob.notes (job : DiscoveryJob) (k : KopiaAnswers) : List Event :=
  match job.op.initAction k, k.connect with
  | some .create, some (.connect e) => [.created job.launch job.op.grant e]
  | _, _ => []

def DiscoveryJob.finish (job : DiscoveryJob) (now : DateTime) (terminal : MoverJobTerminal) :
    DiscoveryJob :=
  { job with
    terminal := some terminal
    completionTime := if terminal = .complete then some now else none }

inductive RepoAction
  -- a pass of which the first `calls` calls succeed
  | pass (i : PassInput) (calls : Nat)
  -- the mover lists the repository, some time before it reports
  | listJob
  | runJob (k : KopiaAnswers) (written : Bool)
  | finishJob (terminal : MoverJobTerminal)
  -- the finished Job's time to live ends
  | reapJob
  | acknowledge (ack : Option String)
  | requestReverify (token : Option String)
  | requestScan (token : String)
  | clearRequest
  | editSpec (spec : RepositorySpec)
  | store (contents : List String)
  | advance (t : DateTime)

def KopiaAnswers.reportsId (k : KopiaAnswers) : Bool :=
  match k.status with
  | .ok id => id != ""
  | .error _ => true

def RepoAction.reportsId : RepoAction → Bool
  | .pass i _ => i.kopia.reportsId
  | .runJob k _ => k.reportsId
  | .listJob | .finishJob _ | .reapJob | .acknowledge _ | .requestReverify _ | .requestScan _ | .clearRequest
  | .editSpec _ | .store _ | .advance _ => true

theorem KopiaAnswers.reportsId_ok {k : KopiaAnswers} {id : String} (h : k.reportsId = true)
    (hid : k.status = .ok id) : id ≠ "" := by
  simpa [reportsId, hid] using h

namespace World

variable (rfc : Rfc3339)

def applyAll (w : World) (effects : List Effect) : World := effects.foldl apply w

@[simp] def act (w : World) : RepoAction → Option World
  | .pass i calls => some (w.applyAll ((w.reconcileInner rfc i).take calls))
  | .listJob =>
    match w.job with
    | some job =>
      if job.terminal.isSome then none
      else some { w with job := some { job with listing := some (w.tick, w.contents) } }
    | none => none
  | .runJob k written =>
    match w.job with
    | some job =>
      if job.terminal.isSome then none
      else
        some { w with
          job := some (job.run w.tick k w.contents written)
          log := job.notes k ++ w.log }
    | none => none
  | .finishJob terminal =>
    match w.job with
    | some job =>
      -- a Job completes when its mover exits in success, some time after the launch
      if job.terminal.isSome ∨ w.now ≤ job.launch.time ∨
          (terminal = .complete ∧ job.exit ≠ some true) then none
      else some { w with job := some (job.finish w.now terminal) }
    | none => none
  | .reapJob =>
    match w.job with
    | some job => if job.terminal.isSome then some { w with job := none } else none
    | none => none
  | .acknowledge ack => some { w with repo := { w.repo with reinitAck := ack } }
  | .requestReverify token => some { w with repo := { w.repo with reverifyToken := token } }
  | .requestScan token => some (w.stampToken token)
  | .clearRequest => some { w with repo := { w.repo with scanToken := none } }
  | .editSpec spec =>
    some { w with repo := { w.repo with spec, generation := w.repo.generation + 1 } }
  | .store contents =>
    some { w with contents, held := w.held.filter fun s => decide (s ∈ contents) }
  | .advance t => if w.now ≤ t then some { w with now := t } else none

def step (w : World) (a : RepoAction) : Option World :=
  (w.act rfc a).map fun w' => { w' with tick := w.tick + 1 }

/-- A repository that was never reconciled. -/
def fresh (now : DateTime) (repo : Repository) (contents : List String) : World where
  now
  repo := { repo with status := {} }
  contents
  held := contents
  tick := 1

def Throughout (P : World → Prop) : World → List Effect → Prop
  | w, [] => P w
  | w, e :: rest => P w ∧ Throughout P (w.apply e) rest

variable {P : World → Prop}

theorem Throughout.head : ∀ {es : List Effect} {w : World}, Throughout P w es → P w
  | [], _, h => h
  | _ :: _, _, h => h.1

theorem Throughout.mono {Q : World → Prop} {es : List Effect} {w : World} (h : Throughout P w es)
    (hPQ : ∀ w, P w → Q w) : Throughout Q w es := by
  induction es generalizing w with
  | nil => exact hPQ w h
  | cons e rest ih => exact ⟨hPQ w h.1, ih h.2⟩

theorem Throughout.applyAll_take {es : List Effect} {w : World} (h : Throughout P w es) (n : Nat) :
    P (w.applyAll (es.take n)) := by
  induction n generalizing w es with
  | zero => exact h.head
  | succ n ih =>
    cases es with
    | nil => exact h
    | cons e rest => exact ih h.2

theorem Throughout.last {es : List Effect} {w : World} (h : Throughout P w es) :
    P (w.applyAll es) := by
  simpa using h.applyAll_take es.length

theorem Throughout.append {es es' : List Effect} {w : World} (h : Throughout P w es)
    (h' : P (w.applyAll es) → Throughout P (w.applyAll es) es') :
    Throughout P w (es ++ es') := by
  induction es generalizing w with
  | nil => exact h' h
  | cons e rest ih => exact ⟨h.1, ih h.2 h'⟩

theorem Throughout.singleton {e : Effect} {w : World} (h : P w) (h' : P (w.apply e)) :
    Throughout P w [e] := ⟨h, h'⟩

theorem Throughout.ite {es es' : List Effect} {w : World} {b : Bool}
    (h : b = true → Throughout P w es) (h' : b = false → Throughout P w es') :
    Throughout P w (if b then es else es') := by
  cases b with
  | true => exact h rfl
  | false => exact h' rfl

section Actions

variable {rfc} {w w' : World}

theorem act_listJob (h : w.act rfc .listJob = some w') :
    ∃ job, w.job = some job ∧ job.terminal = none ∧
      w' = { w with job := some { job with listing := some (w.tick, w.contents) } } := by
  simp only [act] at h
  cases hj : w.job with
  | none => simp [hj] at h
  | some job =>
    simp only [hj, Option.ite_none_left_eq_some, Option.some.injEq] at h
    exact ⟨job, rfl, Option.not_isSome_iff_eq_none.mp h.1, h.2.symm⟩

theorem act_runJob {k : KopiaAnswers} {written : Bool} (h : w.act rfc (.runJob k written) = some w') :
    ∃ job, w.job = some job ∧ job.terminal = none ∧
      w' = { w with
        job := some (job.run w.tick k w.contents written)
        log := job.notes k ++ w.log } := by
  simp only [act] at h
  cases hj : w.job with
  | none => simp [hj] at h
  | some job =>
    simp only [hj, Option.ite_none_left_eq_some, Option.some.injEq] at h
    exact ⟨job, rfl, Option.not_isSome_iff_eq_none.mp h.1, h.2.symm⟩

theorem act_finishJob {terminal : MoverJobTerminal} (h : w.act rfc (.finishJob terminal) = some w') :
    ∃ job, w.job = some job ∧ job.terminal = none ∧ job.launch.time < w.now ∧
      (terminal = .complete → job.exit = some true) ∧
      w' = { w with job := some (job.finish w.now terminal) } := by
  simp only [act] at h
  cases hj : w.job with
  | none => simp [hj] at h
  | some job =>
    simp only [hj, Option.ite_none_left_eq_some, Option.some.injEq, not_or, not_and, not_le] at h
    obtain ⟨⟨hrunning, htime, hexit⟩, heq⟩ := h
    exact ⟨job, rfl, Option.not_isSome_iff_eq_none.mp hrunning, htime,
      fun hc => not_not.mp (hexit hc), heq.symm⟩

theorem act_reapJob (h : w.act rfc .reapJob = some w') :
    ∃ job, w.job = some job ∧ job.terminal.isSome = true ∧ w' = { w with job := none } := by
  simp only [act] at h
  cases hj : w.job with
  | none => simp [hj] at h
  | some job =>
    simp only [hj, Option.ite_none_right_eq_some, Option.some.injEq] at h
    exact ⟨job, rfl, h.1, h.2.symm⟩

theorem act_advance {t : DateTime} (h : w.act rfc (.advance t) = some w') :
    w.now ≤ t ∧ w' = { w with now := t } := by
  simp only [act, Option.ite_none_right_eq_some, Option.some.injEq] at h
  exact ⟨h.1, h.2.symm⟩

end Actions

theorem step_of_act {w w' : World} {a : RepoAction} (h : w.step rfc a = some w') :
    ∃ v, w.act rfc a = some v ∧ w' = { v with tick := w.tick + 1 } := by
  obtain ⟨v, hv, rfl⟩ := Option.map_eq_some_iff.mp h
  exact ⟨v, hv, rfl⟩

end World

def decimalTimes : Rfc3339 := ⟨parseInt, Int.repr⟩

def fullPass : RepoAction := .pass {} 10

def present (id : String) : KopiaAnswers := { status := .ok id }

def wiped (id : String) : KopiaAnswers :=
  { connect := some (.connect ⟨.notFound, true⟩), status := .ok id }

/-- A pass launches a Job, which runs and finishes at `t` seconds, and a pass
reads it. -/
def bootstrapRound (k : KopiaAnswers) (terminal : MoverJobTerminal) (t : Int) : List RepoAction :=
  [fullPass, .runJob k true, .advance (t * 1000000000), .finishJob terminal, fullPass]

end Kopiur
