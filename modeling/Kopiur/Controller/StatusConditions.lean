import Kopiur.Controller.Conditions
import Kopiur.Time

/-!
# Conditions as they are stored

Some writers compare the whole array with what is stored, so a condition here
has its message, its transition time and its generation.
-/

namespace Kopiur

structure StatusCondition where
  type : String
  status : ConditionStatus
  reason : String
  message : String
  lastTransitionTime : DateTime
  observedGeneration : Option Int
deriving DecidableEq

namespace StatusCondition

def find (conditions : List StatusCondition) (type : String) : Option StatusCondition :=
  conditions.find? fun c => c.type == type

@[simp] def put (updated : StatusCondition) : List StatusCondition → List StatusCondition
  | [] => [updated]
  | c :: rest => if c.type = updated.type then updated :: rest else c :: put updated rest

/-- The transition time stays while the status does. -/
def upsertStatus (now : DateTime) (existing : List StatusCondition) (type : String)
    (status : ConditionStatus) (reason message : String) (generation : Option Int) :
    List StatusCondition :=
  let lastTransitionTime := match find existing type with
    | some c => if c.status = status then c.lastTransitionTime else now
    | none => now
  put { type, status, reason, message, lastTransitionTime, observedGeneration := generation }
    existing

def upsert (now : DateTime) (existing : List StatusCondition) (type : String) (status : Bool)
    (reason message : String) (generation : Option Int) : List StatusCondition :=
  upsertStatus now existing type (if status then .true else .false) reason message generation

def setReady (now : DateTime) (existing : List StatusCondition) (generation : Option Int)
    (outcome : ReadyOutcome) (reason message : String) : List StatusCondition :=
  let reconciling := outcome == .reconciling
  let stalled := outcome == .stalled
  let conds := upsert now existing readyCondition (outcome == .ready) reason message generation
  let conds := upsert now conds reconcilingCondition reconciling
    (if reconciling then reason else "Settled") message generation
  upsert now conds stalledCondition stalled (if stalled then reason else "NotStalled") message
    generation

theorem find_put_same (updated : StatusCondition) (conditions : List StatusCondition) :
    find (put updated conditions) updated.type = some updated := by
  induction conditions with
  | nil => simp [put, find]
  | cons c rest ih =>
    rw [put]
    split
    · simp [find]
    · next h => simpa [find, h] using ih

theorem find_put_other {updated : StatusCondition} {type : String} (h : updated.type ≠ type)
    (conditions : List StatusCondition) :
    find (put updated conditions) type = find conditions type := by
  induction conditions with
  | nil => simp [put, find, h]
  | cons c rest ih =>
    rw [put]
    split
    · next hc => simp [find, h, hc]
    · by_cases hc : c.type = type
      · simp [find, hc]
      · simpa [find, hc] using ih

theorem find?_put {p : StatusCondition → Bool} {updated : StatusCondition}
    (h : ∀ c, c.type = updated.type → p c = false) (conditions : List StatusCondition) :
    (put updated conditions).find? p = conditions.find? p := by
  induction conditions with
  | nil => simp [put, h updated rfl]
  | cons c rest ih =>
    rw [put]
    split
    · next hc => simp [h updated rfl, h c hc]
    · simp [List.find?_cons, ih]

theorem put_of_find {updated : StatusCondition} {conditions : List StatusCondition}
    (h : find conditions updated.type = some updated) : put updated conditions = conditions := by
  induction conditions with
  | nil => simp [find] at h
  | cons c rest ih =>
    rw [put]
    split
    · next hc =>
      obtain rfl : c = updated := by simpa [find, hc] using h
      rfl
    · next hc => rw [ih (by simpa [find, hc] using h)]

section Upsert

variable {now later : DateTime} {existing : List StatusCondition} {type other : String}
  {status : ConditionStatus} {up : Bool} {reason message : String} {generation : Option Int}

theorem find_upsertStatus_same : ∃ t, find (upsertStatus now existing type status reason message
    generation) type = some ⟨type, status, reason, message, t, generation⟩ :=
  ⟨_, find_put_same _ _⟩

theorem find_upsertStatus_other (h : type ≠ other) :
    find (upsertStatus now existing type status reason message generation) other =
      find existing other :=
  find_put_other h _

theorem upsertStatus_of_find {t : DateTime}
    (h : find existing type = some ⟨type, status, reason, message, t, generation⟩) :
    upsertStatus later existing type status reason message generation = existing := by
  simp only [upsertStatus, h, if_true]
  exact put_of_find h

theorem upsertStatus_again :
    upsertStatus later (upsertStatus now existing type status reason message generation) type
      status reason message generation =
        upsertStatus now existing type status reason message generation := by
  obtain ⟨t, ht⟩ := @find_upsertStatus_same now existing type status reason message generation
  exact upsertStatus_of_find ht

theorem find_upsert_same : ∃ t, find (upsert now existing type up reason message generation) type =
    some ⟨type, if up then .true else .false, reason, message, t, generation⟩ :=
  find_upsertStatus_same

theorem find_upsert_other (h : type ≠ other) :
    find (upsert now existing type up reason message generation) other = find existing other :=
  find_upsertStatus_other h

theorem find_setReady {outcome : ReadyOutcome} : ∃ t,
    find (setReady now existing generation outcome reason message) readyCondition =
      some ⟨readyCondition, if outcome == .ready then .true else .false, reason, message, t,
        generation⟩ := by
  rw [setReady, find_upsert_other (by decide), find_upsert_other (by decide)]
  exact find_upsert_same

theorem find_setReady_other {outcome : ReadyOutcome} (hready : readyCondition ≠ other)
    (hreconciling : reconcilingCondition ≠ other) (hstalled : stalledCondition ≠ other) :
    find (setReady now existing generation outcome reason message) other = find existing other := by
  rw [setReady, find_upsert_other hstalled, find_upsert_other hreconciling,
    find_upsert_other hready]

theorem upsert_of_find {t : DateTime} (h : find existing type =
    some ⟨type, if up then .true else .false, reason, message, t, generation⟩) :
    upsert later existing type up reason message generation = existing :=
  upsertStatus_of_find h

theorem setReady_again {outcome : ReadyOutcome} :
    setReady later (setReady now existing generation outcome reason message) generation outcome
      reason message = setReady now existing generation outcome reason message := by
  obtain ⟨_, hready⟩ := @find_setReady now existing reason message generation outcome
  obtain ⟨_, hreconciling⟩ : ∃ t,
      find (setReady now existing generation outcome reason message) reconcilingCondition = some
        ⟨reconcilingCondition, if outcome == .reconciling then .true else .false,
          if outcome == .reconciling then reason else "Settled", message, t, generation⟩ := by
    rw [setReady, find_upsert_other (by decide)]
    exact find_upsert_same
  obtain ⟨_, hstalled⟩ : ∃ t,
      find (setReady now existing generation outcome reason message) stalledCondition = some
        ⟨stalledCondition, if outcome == .stalled then .true else .false,
          if outcome == .stalled then reason else "NotStalled", message, t, generation⟩ :=
    find_upsert_same
  generalize setReady now existing generation outcome reason message = conditions at *
  rw [setReady, upsert_of_find hready, upsert_of_find hreconciling, upsert_of_find hstalled]

theorem find?_setReady {p : StatusCondition → Bool} {outcome : ReadyOutcome}
    (h : ∀ c, c.type = readyCondition ∨ c.type = reconcilingCondition ∨ c.type = stalledCondition →
      p c = false) :
    (setReady now existing generation outcome reason message).find? p = existing.find? p := by
  simp only [setReady, upsert, upsertStatus]
  rw [find?_put fun c hc => h c (.inr (.inr hc)), find?_put fun c hc => h c (.inr (.inl hc)),
    find?_put fun c hc => h c (.inl hc)]

end Upsert

end StatusCondition

end Kopiur
