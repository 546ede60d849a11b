import Mathlib.Data.List.Basic
import Mathlib.Tactic.Common

/-!
# Status conditions

Conditions are upserted in place by type, so a reader that takes the first of
a type sees the last one written. Messages and transition times are not read
by any decision and are left out.
-/

namespace Kopiur

inductive ConditionStatus
  | true
  | false
  | unknown
deriving DecidableEq

structure Condition where
  type : String
  status : ConditionStatus
  reason : String
deriving DecidableEq

def findCondition (conditions : List Condition) (type : String) : Option Condition :=
  conditions.find? fun c => c.type == type

def reasonOf (conditions : List Condition) (type : String) : Option String :=
  (findCondition conditions type).map Condition.reason

def putCondition (updated : Condition) : List Condition → List Condition
  | [] => [updated]
  | c :: rest => if c.type = updated.type then updated :: rest else c :: putCondition updated rest

def upsertConditionStatus (existing : List Condition) (type : String) (status : ConditionStatus)
    (reason : String) : List Condition :=
  putCondition { type, status, reason } existing

def upsertCondition (existing : List Condition) (type : String) (status : Bool) (reason : String) :
    List Condition :=
  upsertConditionStatus existing type (if status then .true else .false) reason

theorem findCondition_put_same (updated : Condition) (conditions : List Condition) :
    findCondition (putCondition updated conditions) updated.type = some updated := by
  induction conditions with
  | nil => simp [putCondition, findCondition]
  | cons c rest ih =>
    rw [putCondition]
    split
    · simp [findCondition]
    · next h => simpa [findCondition, h] using ih

theorem findCondition_put_other {updated : Condition} {type : String} (h : updated.type ≠ type)
    (conditions : List Condition) :
    findCondition (putCondition updated conditions) type = findCondition conditions type := by
  induction conditions with
  | nil => simp [putCondition, findCondition, h]
  | cons c rest ih =>
    rw [putCondition]
    split
    · next hc => simp [findCondition, h, hc]
    · by_cases hc : c.type = type
      · simp [findCondition, hc]
      · simpa [findCondition, hc] using ih

section Upsert

variable (existing : List Condition) (status : Bool) (reason : String) {type other : String}

@[simp] theorem findCondition_upsert_same :
    findCondition (upsertCondition existing type status reason) type =
      some { type, status := if status then .true else .false, reason } :=
  findCondition_put_same _ _

theorem findCondition_upsert_other (h : type ≠ other) :
    findCondition (upsertCondition existing type status reason) other =
      findCondition existing other :=
  findCondition_put_other h _

@[simp] theorem reasonOf_upsert_same :
    reasonOf (upsertCondition existing type status reason) type = some reason := by
  simp [reasonOf]

theorem reasonOf_upsert_other (h : type ≠ other) :
    reasonOf (upsertCondition existing type status reason) other = reasonOf existing other := by
  simp [reasonOf, findCondition_upsert_other existing status reason h]

end Upsert

def readyCondition : String := "Ready"
def reconcilingCondition : String := "Reconciling"
def stalledCondition : String := "Stalled"
def bootstrappedCondition : String := "Bootstrapped"
def backendReachableCondition : String := "BackendReachable"

inductive ReadyOutcome
  | ready
  | reconciling
  | stalled
deriving DecidableEq

def setReady (existing : List Condition) (outcome : ReadyOutcome) (reason : String) :
    List Condition :=
  let reconciling := outcome == .reconciling
  let stalled := outcome == .stalled
  let conds := upsertCondition existing readyCondition (outcome == .ready) reason
  let conds := upsertCondition conds reconcilingCondition reconciling
    (if reconciling then reason else "Settled")
  upsertCondition conds stalledCondition stalled (if stalled then reason else "NotStalled")

@[simp] theorem reasonOf_setReady (existing : List Condition) (outcome : ReadyOutcome)
    (reason : String) : reasonOf (setReady existing outcome reason) readyCondition = some reason := by
  rw [setReady, reasonOf_upsert_other _ _ _ (by decide), reasonOf_upsert_other _ _ _ (by decide),
    reasonOf_upsert_same]

theorem findCondition_setReady (existing : List Condition) (outcome : ReadyOutcome) (reason : String)
    {type : String} (h : type ∉ [readyCondition, reconcilingCondition, stalledCondition]) :
    findCondition (setReady existing outcome reason) type = findCondition existing type := by
  simp only [List.mem_cons, List.not_mem_nil, or_false, not_or] at h
  obtain ⟨hr, hc, hs⟩ := h
  rw [setReady, findCondition_upsert_other _ _ _ (Ne.symm hs),
    findCondition_upsert_other _ _ _ (Ne.symm hc), findCondition_upsert_other _ _ _ (Ne.symm hr)]

@[simp] theorem findCondition_setReady_bootstrapped (existing : List Condition)
    (outcome : ReadyOutcome) (reason : String) :
    findCondition (setReady existing outcome reason) bootstrappedCondition =
      findCondition existing bootstrappedCondition :=
  findCondition_setReady existing outcome reason (by decide)

@[simp] theorem findCondition_setReady_backend (existing : List Condition)
    (outcome : ReadyOutcome) (reason : String) :
    findCondition (setReady existing outcome reason) backendReachableCondition =
      findCondition existing backendReachableCondition :=
  findCondition_setReady existing outcome reason (by decide)

@[simp] theorem reasonOf_setReady_bootstrapped (existing : List Condition)
    (outcome : ReadyOutcome) (reason : String) :
    reasonOf (setReady existing outcome reason) bootstrappedCondition =
      reasonOf existing bootstrappedCondition := by
  rw [reasonOf, findCondition_setReady_bootstrapped, reasonOf]

@[simp] theorem reasonOf_setReady_backend (existing : List Condition)
    (outcome : ReadyOutcome) (reason : String) :
    reasonOf (setReady existing outcome reason) backendReachableCondition =
      reasonOf existing backendReachableCondition := by
  rw [reasonOf, findCondition_setReady_backend, reasonOf]

end Kopiur
