import Mathlib.Data.Finset.Basic
import Mathlib.Data.Finset.Card
import Mathlib.Data.Finset.Image
import Mathlib.Logic.Function.Basic
import Kopiur.Controller.Jobs
import Kopiur.Lib.Runs

/-!
# Admission to a repository's pool

A capped repository admits a run against a LIST of its Jobs plus the
reservations of runs admitted but not yet seen. The second half runs any
number of such runs against one cluster, step by step.
-/

namespace Kopiur

open Lib

def repoPoolLabel : String := "kopiur.home-operations.com/repo-pool"

inductive PoolClass
  | backup
  | replication
  | restore
deriving DecidableEq

def PoolClass.parkable : PoolClass → Bool
  | .backup | .replication => true
  | .restore => false

structure PoolCaps where
  repo : Option Nat := none
  global : Option Nat := none
deriving DecidableEq

def PoolCaps.isUncapped (caps : PoolCaps) : Bool := caps.repo.isNone && caps.global.isNone

inductive PoolVerdict
  | admitted
  | park (repoLive globalLive : Nat)
deriving DecidableEq

def poolVerdict (cls : PoolClass) (repoLive globalLive : Nat) (caps : PoolCaps) : PoolVerdict :=
  match cls with
  | .restore => .admitted
  | .backup | .replication =>
    let atRepoCap := caps.repo.any fun c => decide (repoLive ≥ c)
    let atGlobalCap := caps.global.any fun c => decide (globalLive ≥ c)
    if atRepoCap || atGlobalCap then .park repoLive globalLive else .admitted

structure ObservedPool where
  repoLive : Nat := 0
  globalLive : Nat := 0
  seen : List String := []
deriving DecidableEq

def poolValue (job : Job) : Option String := job.metadata.labels.lookup repoPoolLabel

/-- One Job of the LIST. -/
def observeJob (repoPoolValue : String) (observed : ObservedPool) (job : Job) : ObservedPool :=
  match poolValue job with
  | none => observed
  | some value =>
    let observed :=
      match job.metadata.name with
      | some name => { observed with seen := observed.seen ++ [jobKey job.ns name] }
      | none => observed
    if !jobOccupiesSlot job then observed
    else
      { observed with
        globalLive := observed.globalLive + 1
        repoLive := if value = repoPoolValue then observed.repoLive + 1 else observed.repoLive }

def observePool (jobs : List Job) (repoPoolValue : String) : ObservedPool :=
  jobs.foldl (observeJob repoPoolValue) {}

/-- Reservations, as pairs of pool key and Job key. -/
abbrev Reservations := Finset (String × String)

def sweepObserved (held : Reservations) (seen : List String) : Reservations :=
  held.filter fun e => e.2 ∉ seen

def reservedIn (held : Reservations) (poolKey : String) : Nat :=
  (held.filter fun e => e.1 = poolKey).card

/-- Decide and reserve under one lock. -/
def ledgerAdmit (held : Reservations) (poolKey jobKey : String) (observed : ObservedPool)
    (cls : PoolClass) (caps : PoolCaps) : PoolVerdict × Reservations :=
  let held := sweepObserved held observed.seen
  let repoLive := observed.repoLive + reservedIn held poolKey
  let globalLive := observed.globalLive + held.card
  match poolVerdict cls repoLive globalLive caps with
  | .park repoLive globalLive => (.park repoLive globalLive, held)
  | .admitted => (.admitted, insert (poolKey, jobKey) held)

structure DeleteCaps where
  repo : Nat := 1
  global : Option Nat := none
deriving DecidableEq

/-- The same for delete batches: a reservation never counts against the Job it
was taken for. -/
def deleteLedgerAdmit (held : Reservations) (repoKey jobKey : String) (observed : ObservedPool)
    (caps : DeleteCaps) : PoolVerdict × Reservations :=
  let held := sweepObserved held observed.seen
  let others := held.filter fun e => e.2 ≠ jobKey
  let repoLive := observed.repoLive + reservedIn others repoKey
  let globalLive := observed.globalLive + others.card
  let atGlobalCap := caps.global.any fun c => decide (globalLive ≥ c)
  if decide (repoLive ≥ caps.repo) || atGlobalCap then (.park repoLive globalLive, held)
  else (.admitted, insert (repoKey, jobKey) held)

def release (held : Reservations) (poolKey jobKey : String) : Reservations :=
  held.erase (poolKey, jobKey)

def liveIn (poolKey : String) (job : Job) : Bool :=
  decide (poolValue job = some poolKey) && jobOccupiesSlot job

theorem observePool_repoLive (jobs : List Job) (poolKey : String) :
    (observePool jobs poolKey).repoLive = (jobs.filter (liveIn poolKey)).length := by
  suffices h : ∀ (jobs : List Job) (o : ObservedPool), (jobs.foldl (observeJob poolKey) o).repoLive =
      o.repoLive + (jobs.filter (liveIn poolKey)).length by
    simpa [observePool] using h jobs {}
  intro jobs
  induction jobs with
  | nil => intro o; simp
  | cons job rest ih =>
    intro o
    rw [List.foldl_cons, ih]
    cases hv : poolValue job with
    | none => simp [observeJob, liveIn, hv]
    | some value =>
      cases hn : job.metadata.name <;> cases ho : jobOccupiesSlot job <;>
        by_cases hk : value = poolKey <;> simp [observeJob, liveIn, hv, hn, ho, hk] <;> omega

theorem mem_observePool_seen {jobs : List Job} {poolKey k : String} :
    k ∈ (observePool jobs poolKey).seen ↔
      ∃ job ∈ jobs, (poolValue job).isSome ∧ ∃ name, job.metadata.name = some name ∧
        k = jobKey job.ns name := by
  suffices h : ∀ (jobs : List Job) (o : ObservedPool),
      k ∈ (jobs.foldl (observeJob poolKey) o).seen ↔ k ∈ o.seen ∨ ∃ job ∈ jobs,
        (poolValue job).isSome ∧ ∃ name, job.metadata.name = some name ∧ k = jobKey job.ns name by
    simpa [observePool] using h jobs {}
  intro jobs
  induction jobs with
  | nil => intro o; simp
  | cons job rest ih =>
    intro o
    rw [List.foldl_cons, ih]
    cases hv : poolValue job with
    | none => simp [observeJob, hv]
    | some value =>
      cases hn : job.metadata.name <;> cases ho : jobOccupiesSlot job <;>
        simp [observeJob, hv, hn, ho, or_assoc]

theorem sweepObserved_subset_ledgerAdmit (held : Reservations) (poolKey key : String)
    (observed : ObservedPool) (cls : PoolClass) (caps : PoolCaps) :
    sweepObserved held observed.seen ⊆ (ledgerAdmit held poolKey key observed cls caps).2 := by
  simp only [ledgerAdmit]
  split
  · exact Finset.Subset.refl _
  · exact Finset.subset_insert _ _

/-- An admitted parkable run finds room under its repository's cap, counting
the Jobs observed and the reservations left. -/
theorem ledgerAdmit_room {held held' : Reservations} {poolKey key : String} {observed : ObservedPool}
    {cls : PoolClass} {caps : PoolCaps} {cap : Nat} (hcls : cls.parkable = true)
    (hcap : caps.repo = some cap)
    (h : ledgerAdmit held poolKey key observed cls caps = (.admitted, held')) :
    observed.repoLive + reservedIn (sweepObserved held observed.seen) poolKey < cap ∧
      held' = insert (poolKey, key) (sweepObserved held observed.seen) := by
  unfold ledgerAdmit at h
  cases hv : poolVerdict cls (observed.repoLive + reservedIn (sweepObserved held observed.seen) poolKey)
      (observed.globalLive + (sweepObserved held observed.seen).card) caps with
  | park r g => simp [hv] at h
  | admitted =>
    simp only [hv, Prod.mk.injEq, true_and] at h
    refine ⟨?_, h.symm⟩
    by_contra hfull
    cases cls <;> simp_all [PoolClass.parkable, poolVerdict]

end Kopiur
