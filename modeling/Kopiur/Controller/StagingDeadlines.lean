import Kopiur.Api.Durations
import Kopiur.Api.Policy
import Kopiur.Chrono

/-!
# The deadlines of a staged source

A copy of the source is staged under a budget, counted from the creation of the
snapshot and of the claim. Before the Job exists the budget is the parsed
duration; while it runs, the watchdog reads back the seconds that were pinned in
status. The two agree except on a budget that the signed number cannot hold, and
either panics on one that ends beyond the calendar.
-/

namespace Kopiur.Staging

open DateTime

def defaultStagingTimeout : Nat := 600

/-- What admission says of `spec.staging.timeout`. -/
def validateStagingTimeout : Option String → List ValidationError
  | none => []
  | some t =>
    if (parseGoDuration t).isNone then
      [.invalidFieldValue "spec.staging.timeout"
        (debugStr t ++ " is not a valid duration. Fix: use a Go-style duration like 10m or 1h; " ++
          "omit for the default (10m), or 0 to wait forever")]
    else []

/-- Seconds of a budget; `none` waits for ever. -/
def resolveTimeout (spec : Option String) (default : Nat) : Option Nat :=
  match spec with
  | none => some default
  | some s =>
    match parseGoDuration s with
    | some d => if d = 0 then none else some d
    | none => some default

def stagingTimeout (spec : Option String) : Option Nat := resolveTimeout spec defaultStagingTimeout

/-- `as i64` of an unsigned 64-bit number. -/
def asI64 (n : Nat) : Int := if n < i64Limit then n else n - 2 ^ 64

def stagingTimeoutSeconds (timeout : Option Nat) : Int := (timeout.map asI64).getD 0

def stagedWatchdogBudget (pinnedSeconds : Option Int) : Option Nat :=
  match pinnedSeconds with
  | some s =>
    if s = 0 then none else if 0 < s then some s.toNat else some defaultStagingTimeout
  | none => some defaultStagingTimeout

def watchdogTimeout (spec : Option String) : Option Nat :=
  stagedWatchdogBudget (some (stagingTimeoutSeconds (stagingTimeout spec)))

def pad (width n : Nat) : String :=
  String.ofList (List.replicate (width - (Nat.repr n).length) '0') ++ Nat.repr n

def yearText (year : Int) : String :=
  if year < 0 then "-" ++ pad 4 year.natAbs
  else if 9999 < year then "+" ++ pad 4 year.natAbs
  else pad 4 year.natAbs

def rfc3339Seconds (t : DateTime) : String :=
  let date := civilFromDays (t.timestamp / 86400)
  let time := (t.timestamp % 86400).toNat
  yearText date.year ++ "-" ++ pad 2 date.month.toNat ++ "-" ++ pad 2 date.day.toNat ++ "T" ++
    pad 2 (time / 3600) ++ ":" ++ pad 2 (time / 60 % 60) ++ ":" ++ pad 2 (time % 60) ++ "Z"

example : rfc3339Seconds (fromTimestamp 1709210096) = "2024-02-29T12:34:56Z" := by decide

/-- When a wait ends, if it does: a budget too large for a span is without end.
`none` where adding it to the creation panics. -/
def deadline (timeout : Option Nat) (createdAt : Option DateTime) : Option (Option DateTime) :=
  match timeout, createdAt with
  | some t, some created =>
    match Duration.fromStd t with
    | some d => (created.addOrPanic d).map some
    | none => some none
  | _, _ => some none

def expired (deadline : Option DateTime) (now : DateTime) : Bool :=
  deadline.any fun d => decide (d ≤ now)

def deadlineClause (deadline : Option DateTime) (still : String) : String :=
  match deadline with
  | some d => "; staging fails at " ++ rfc3339Seconds d ++ " if still " ++ still
  | none => "; waiting indefinitely (spec.staging.timeout: 0)"

structure Timestamp where
  second : Int
  least : -377705023201 ≤ second
  greatest : second ≤ 253402207200

def Timestamp.dateTime (t : Timestamp) : Option DateTime := fromTimestampOpt t.second

def Timestamp.last : Timestamp := ⟨253402207200, by decide, by decide⟩

structure VsObservation where
  ready : Bool
  restoreSize : Option String
  error : Option String
  createdAt : Option DateTime
deriving DecidableEq

inductive VsWait
  | ready (restoreSize : Option String)
  | waiting (message : String)
  | failed (reason message : String)
deriving DecidableEq

/-- The failure after the budget, with the last error if there is one. -/
def vsFailed (obs : VsObservation) (ns vsName cls waited : String) : VsWait :=
  match obs.error with
  | some err =>
    .failed "VolumeSnapshotFailed"
      ("VolumeSnapshot `" ++ ns ++ "/" ++ vsName ++ "` was not readyToUse within " ++ waited ++
        " (spec.staging.timeout, default 10m); last error: " ++ err ++
        ". Fix: check VolumeSnapshotClass `" ++ cls ++
        "` and the CSI driver, or raise spec.staging.timeout. " ++
        "The next scheduled run (or a new Snapshot) retries")
  | none =>
    .failed "StagingTimedOut"
      ("VolumeSnapshot `" ++ ns ++ "/" ++ vsName ++ "` was not readyToUse within " ++ waited ++
        " (spec.staging.timeout, default 10m) and reported no error. Fix: check the CSI " ++
        "driver and snapshot-controller, or raise spec.staging.timeout. The next " ++
        "scheduled run (or a new Snapshot) retries")

/-- An error on its own never fails the wait. `none` where it panics. -/
def vsWaitOutcome (obs : VsObservation) (ns vsName cls : String) (timeout : Option Nat)
    (now : DateTime) : Option VsWait :=
  if obs.ready then some (.ready obs.restoreSize)
  else (deadline timeout obs.createdAt).map fun d =>
    if expired d now then vsFailed obs ns vsName cls (renderGoDuration (timeout.getD 0))
    else
      .waiting ("waiting for VolumeSnapshot `" ++ ns ++ "/" ++ vsName ++ "` to become readyToUse" ++
        (match obs.error with
          | some err => "; last error (retried automatically): " ++ err
          | none => "") ++
        deadlineClause d "not ready")

-- The claim

structure StagedPvc where
  phase : Option String
  creationTimestamp : Option Timestamp

structure StagedPvcObservation where
  phase : Option String
  createdAt : Option DateTime
deriving DecidableEq

def stagedPvcObservation (pvc : StagedPvc) : StagedPvcObservation where
  phase := pvc.phase
  createdAt := pvc.creationTimestamp.bind Timestamp.dateTime

inductive PvcBindWait
  | bound
  | waiting (message : String)
  | failed (reason message : String)
deriving DecidableEq

inductive PvcBindKind
  | bound
  | waiting
  | failed
deriving DecidableEq

def PvcBindWait.kind : PvcBindWait → PvcBindKind
  | .bound => .bound
  | .waiting _ => .waiting
  | .failed _ _ => .failed

def bindClassPhrase : Option String → String
  | some c => "StorageClass `" ++ c ++ "`"
  | none => "its StorageClass"

/-- A bound claim is usable and a lost one is not, whatever the clock says.
`none` where it panics. -/
def pvcBindOutcome (obs : StagedPvcObservation) (ns pvcName : String) (cls : Option String)
    (timeout : Option Nat) (now : DateTime) : Option PvcBindWait :=
  if obs.phase = some "Bound" then some .bound
  else if obs.phase = some "Lost" then
    some (.failed "StagedPvcLost"
      ("staged PVC `" ++ ns ++ "/" ++ pvcName ++
        "` is Lost (its PersistentVolume disappeared). " ++
        "Check the CSI driver. The next scheduled run (or a new Snapshot) retries"))
  else (deadline timeout obs.createdAt).map fun d =>
    if expired d now then
      .failed "StagedPvcBindTimeout"
        ("staged PVC `" ++ ns ++ "/" ++ pvcName ++ "` did not bind within " ++
          renderGoDuration (timeout.getD 0) ++ " (spec.staging.timeout, " ++
          "default 10m); the copy is still provisioning or " ++ bindClassPhrase cls ++
          " cannot provision it. Fix: check `kubectl describe pvc -n " ++ ns ++ " " ++ pvcName ++
          "`, raise spec.staging.timeout, or on CephFS " ++
          "set spec.staging.storageClassName to a `backingSnapshot: \"true\"` class. The next " ++
          "scheduled run (or a new Snapshot) retries")
    else
      .waiting ("waiting for staged PVC `" ++ ns ++ "/" ++ pvcName ++ "` (" ++
        bindClassPhrase cls ++ ") to bind" ++ deadlineClause d "unbound")

theorem stagingTimeout_pos {spec : Option String} {secs : Nat}
    (h : stagingTimeout spec = some secs) : 0 < secs ∧ secs ≤ u64Max := by
  unfold stagingTimeout resolveTimeout at h
  cases spec with
  | none =>
    obtain rfl := Option.some.inj h
    decide
  | some s =>
    cases hparse : parseGoDuration s with
    | none =>
      simp only [hparse, Option.some.injEq] at h
      subst h
      decide
    | some d =>
      simp only [hparse] at h
      split at h
      · cases h
      · next hzero =>
        obtain rfl := Option.some.inj h
        exact ⟨Nat.pos_of_ne_zero hzero, le_u64Max_of_parseGoDuration hparse⟩

theorem stagedWatchdogBudget_small {secs : Nat} (hpos : 0 < secs) (hsmall : secs < i64Limit) :
    stagedWatchdogBudget (some (stagingTimeoutSeconds (some secs))) = some secs := by
  have hpinned : stagingTimeoutSeconds (some secs) = secs := if_pos hsmall
  rw [hpinned]
  change (if (secs : Int) = 0 then none
    else if 0 < (secs : Int) then some (secs : Int).toNat else some defaultStagingTimeout) = _
  rw [if_neg (by omega), if_pos (by omega), Int.toNat_natCast]

theorem stagedWatchdogBudget_wrapped {secs : Nat} (hlarge : i64Limit ≤ secs)
    (hmax : secs ≤ u64Max) :
    stagedWatchdogBudget (some (stagingTimeoutSeconds (some secs))) =
      some defaultStagingTimeout := by
  have hpinned : stagingTimeoutSeconds (some secs) = secs - 2 ^ 64 :=
    if_neg (Nat.not_lt.mpr hlarge)
  have hneg : (secs : Int) - 2 ^ 64 < 0 := by
    unfold u64Max at hmax
    omega
  rw [hpinned]
  change (if (secs : Int) - 2 ^ 64 = 0 then none
    else if 0 < (secs : Int) - 2 ^ 64 then some ((secs : Int) - 2 ^ 64).toNat
    else some defaultStagingTimeout) = _
  rw [if_neg (by omega), if_neg (by omega)]

theorem watchdogTimeout_indefinite (spec : Option String) :
    watchdogTimeout spec = none ↔ stagingTimeout spec = none := by
  unfold watchdogTimeout
  cases hbudget : stagingTimeout spec with
  | none => exact ⟨fun _ => rfl, fun _ => rfl⟩
  | some secs =>
    obtain ⟨hpos, hmax⟩ := stagingTimeout_pos hbudget
    by_cases hsmall : secs < i64Limit
    · rw [stagedWatchdogBudget_small hpos hsmall]
    · rw [stagedWatchdogBudget_wrapped (Nat.not_lt.mp hsmall) hmax]
      exact iff_of_false (Option.some_ne_none _) (Option.some_ne_none _)

-- Agreement

/-- The waits of the two sides agree under a text, and their sums are instants. -/
structure DeadlinesAgree (spec : Option String) : Prop where
  indefinite : watchdogTimeout spec = none ↔ stagingTimeout spec = none
  same_kind : ∀ (pvc : StagedPvc) (ns pvcName : String) (cls recorded : Option String)
    (now : Int),
    (pvcBindOutcome (stagedPvcObservation pvc) ns pvcName recorded (watchdogTimeout spec)
        (fromTimestamp now)).map PvcBindWait.kind =
      (pvcBindOutcome (stagedPvcObservation pvc) ns pvcName cls (stagingTimeout spec)
        (fromTimestamp now)).map PvcBindWait.kind
  bound_wins : ∀ (obs : StagedPvcObservation) (ns pvcName : String) (cls : Option String)
    (now : DateTime), obs.phase = some "Bound" →
      pvcBindOutcome obs ns pvcName cls (stagingTimeout spec) now = some .bound ∧
      pvcBindOutcome obs ns pvcName cls (watchdogTimeout spec) now = some .bound
  ready_wins : ∀ (obs : VsObservation) (ns vsName cls : String) (now : DateTime),
    obs.ready = true →
      vsWaitOutcome obs ns vsName cls (stagingTimeout spec) now = some (.ready obs.restoreSize)
  in_range : ∀ (created : Timestamp) (t : DateTime) (secs : Nat) (d : Duration),
    created.dateTime = some t →
      (stagingTimeout spec = some secs ∨ watchdogTimeout spec = some secs) →
      Duration.fromStd secs = some d → Representable (t + d)

/-- A wait without end; or one too long for a span that still fits the signed
number, and so without end on both sides; or one that ends in the calendar from
every creation. -/
def BudgetFits (timeout : Option Nat) : Prop :=
  ∀ secs, timeout = some secs →
    (Duration.maxSecs < secs ∧ secs < i64Limit) ∨
      Representable (fromTimestamp Timestamp.last.second + Duration.seconds secs)

instance (timeout : Option Nat) : Decidable (BudgetFits timeout) :=
  match timeout with
  | none => .isTrue fun _ h => by cases h
  | some secs =>
    decidable_of_iff ((Duration.maxSecs < secs ∧ secs < i64Limit) ∨
        Representable (fromTimestamp Timestamp.last.second + Duration.seconds secs))
      ⟨fun h _ heq => Option.some.inj heq ▸ h, fun h => h secs rfl⟩

theorem last_add_representable_iff {secs : Nat} :
    Representable (fromTimestamp Timestamp.last.second + Duration.seconds secs) ↔
      secs < 7956864669600 := by
  rw [representable_iff]
  simp only [fromTimestamp, Timestamp.last, Duration.seconds]
  omega

theorem Timestamp.dateTime_eq (created : Timestamp) :
    created.dateTime = some (fromTimestamp created.second) := by
  have hleast := created.least
  have hgreatest := created.greatest
  refine if_pos (representable_iff.mpr ?_)
  simp only [fromTimestamp]
  omega

theorem representable_add {created : Timestamp} {secs : Nat}
    (h : Representable (fromTimestamp Timestamp.last.second + Duration.seconds secs)) :
    Representable (fromTimestamp created.second + Duration.seconds secs) := by
  have hleast := created.least
  have hgreatest := created.greatest
  rw [last_add_representable_iff] at h
  rw [representable_iff]
  simp only [fromTimestamp, Duration.seconds]
  omega

theorem fromStd_eq_some {secs : Nat} {d : Duration} (h : Duration.fromStd secs = some d) :
    (secs : Int) ≤ Duration.maxSecs ∧ d = Duration.seconds secs := by
  unfold Duration.fromStd at h
  split at h
  · next hle => exact ⟨hle, (Option.some.inj h).symm⟩
  · cases h

theorem BudgetFits.small {secs : Nat} (h : BudgetFits (some secs)) : secs < i64Limit := by
  obtain ⟨-, hsmall⟩ | hrange := h secs rfl
  · exact hsmall
  · rw [last_add_representable_iff] at hrange
    exact Nat.lt_trans hrange (by decide)

theorem BudgetFits.watchdogTimeout_eq {spec : Option String}
    (h : BudgetFits (stagingTimeout spec)) :
    watchdogTimeout spec = stagingTimeout spec := by
  unfold watchdogTimeout
  cases hbudget : stagingTimeout spec with
  | none => rfl
  | some secs =>
    rw [hbudget] at h
    exact stagedWatchdogBudget_small (stagingTimeout_pos hbudget).1 h.small

theorem pvcBindOutcome_kind (obs : StagedPvcObservation) (ns pvcName : String)
    (cls : Option String) (timeout : Option Nat) (now : DateTime) :
    (pvcBindOutcome obs ns pvcName cls timeout now).map PvcBindWait.kind =
      if obs.phase = some "Bound" then some .bound
      else if obs.phase = some "Lost" then some .failed
      else (deadline timeout obs.createdAt).map fun d =>
        if expired d now then .failed else .waiting := by
  unfold pvcBindOutcome
  by_cases hbound : obs.phase = some "Bound"
  · rw [if_pos hbound, if_pos hbound]
    rfl
  · rw [if_neg hbound, if_neg hbound]
    by_cases hlost : obs.phase = some "Lost"
    · rw [if_pos hlost, if_pos hlost]
      rfl
    · rw [if_neg hlost, if_neg hlost, Option.map_map]
      refine congrArg (fun f => Option.map f _) (funext fun d => ?_)
      exact apply_ite PvcBindWait.kind _ _ _

theorem pvcBindOutcome_bound {obs : StagedPvcObservation} (h : obs.phase = some "Bound")
    (ns pvcName : String) (cls : Option String) (timeout : Option Nat) (now : DateTime) :
    pvcBindOutcome obs ns pvcName cls timeout now = some .bound := if_pos h

theorem vsWaitOutcome_ready {obs : VsObservation} (h : obs.ready = true) (ns vsName cls : String)
    (timeout : Option Nat) (now : DateTime) :
    vsWaitOutcome obs ns vsName cls timeout now = some (.ready obs.restoreSize) := if_pos h

theorem BudgetFits.deadlinesAgree {spec : Option String} (h : BudgetFits (stagingTimeout spec)) :
    DeadlinesAgree spec where
  indefinite := watchdogTimeout_indefinite spec
  same_kind pvc ns pvcName cls recorded now := by
    rw [h.watchdogTimeout_eq, pvcBindOutcome_kind, pvcBindOutcome_kind]
  bound_wins _ _ _ _ _ hbound :=
    ⟨pvcBindOutcome_bound hbound _ _ _ _ _, pvcBindOutcome_bound hbound _ _ _ _ _⟩
  ready_wins _ _ _ _ _ hready := vsWaitOutcome_ready hready _ _ _ _ _
  in_range created t secs d hcreated hbudget hspan := by
    rw [h.watchdogTimeout_eq, or_self] at hbudget
    rw [created.dateTime_eq] at hcreated
    obtain rfl := Option.some.inj hcreated
    obtain ⟨hle, rfl⟩ := fromStd_eq_some hspan
    obtain ⟨hlarge, -⟩ | hrange := h secs hbudget
    · exact absurd hle (Int.not_le.mpr hlarge)
    · exact representable_add hrange

def lateClaim : StagedPvc where
  phase := some "Pending"
  creationTimestamp := some ⟨0, by decide, by decide⟩

theorem lateClaim_kinds {secs : Nat} (hlarge : Duration.maxSecs < secs) :
    (pvcBindOutcome (stagedPvcObservation lateClaim) "apps" "db-src" none (some secs)
        (fromTimestamp 600)).map PvcBindWait.kind = some .waiting ∧
      (pvcBindOutcome (stagedPvcObservation lateClaim) "apps" "db-src" none
        (some defaultStagingTimeout) (fromTimestamp 600)).map PvcBindWait.kind = some .failed := by
  have hspan : Duration.fromStd secs = none := if_neg (Int.not_le.mpr hlarge)
  have hobs : stagedPvcObservation lateClaim = ⟨some "Pending", some (fromTimestamp 0)⟩ := by
    decide
  have hrange : Representable (fromTimestamp 0 + Duration.seconds 600) :=
    representable_iff.mpr (by decide)
  have hlate : deadline (some defaultStagingTimeout) (some (fromTimestamp 0)) =
      some (some (fromTimestamp 600)) := by
    have hsum : (fromTimestamp 0).addOrPanic (Duration.seconds 600) = some (fromTimestamp 600) :=
      if_pos hrange
    change ((fromTimestamp 0).addOrPanic (Duration.seconds 600)).map some = _
    rw [hsum]
    rfl
  have hnever : deadline (some secs) (some (fromTimestamp 0)) = some none := by
    simp only [deadline, hspan]
  rw [hobs, pvcBindOutcome_kind, pvcBindOutcome_kind, hlate, hnever]
  exact ⟨rfl, rfl⟩

theorem DeadlinesAgree.budgetFits {spec : Option String} (h : DeadlinesAgree spec) :
    BudgetFits (stagingTimeout spec) := by
  intro secs hbudget
  by_cases hspan : (secs : Int) ≤ Duration.maxSecs
  · exact .inr (h.in_range Timestamp.last _ secs _ Timestamp.last.dateTime_eq (.inl hbudget)
      (if_pos hspan))
  · refine .inl ⟨Int.not_le.mp hspan, ?_⟩
    by_contra hlarge
    have hwatchdog : watchdogTimeout spec = some defaultStagingTimeout := by
      unfold watchdogTimeout
      rw [hbudget]
      exact stagedWatchdogBudget_wrapped (Nat.not_lt.mp hlarge) (stagingTimeout_pos hbudget).2
    obtain ⟨hwaiting, hfailed⟩ := lateClaim_kinds (Int.not_le.mp hspan)
    have hsame := h.same_kind lateClaim "apps" "db-src" none none 600
    rw [hwatchdog, hbudget, hwaiting, hfailed] at hsame
    cases hsame

/-- Under a text the two sides agree exactly if its budget fits. -/
theorem deadlinesAgree_iff (spec : Option String) :
    DeadlinesAgree spec ↔ BudgetFits (stagingTimeout spec) :=
  ⟨DeadlinesAgree.budgetFits, BudgetFits.deadlinesAgree⟩

/-- Admitted budgets past the calendar and past the signed number: creating the
sum panics under the one, and under the other the watchdog fails a claim that the
gate before the Job waits for. -/
theorem admitted_budgets_disagree :
    validateStagingTimeout (some "9000000000000s") = [] ∧
    ¬ DeadlinesAgree (some "9000000000000s") ∧
    validateStagingTimeout (some "9223372036854775808") = [] ∧
    ¬ DeadlinesAgree (some "9223372036854775808") := by
  refine ⟨by decide, fun h => ?_, by decide, fun h => ?_⟩
  · have hfits : ¬ BudgetFits (stagingTimeout (some "9000000000000s")) := by decide
    exact hfits h.budgetFits
  · have hfits : ¬ BudgetFits (stagingTimeout (some "9223372036854775808")) := by decide
    exact hfits h.budgetFits

end Kopiur.Staging
