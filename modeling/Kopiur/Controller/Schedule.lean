import Mathlib.Data.List.Sort
import Kopiur.Api.Jitter

/-!
# Deciding about a slot

When the next slot of a schedule is, whether the slot it pinned is still the
right one, and what to do with that slot now.
-/

namespace Kopiur

inductive ReconcileError
  | validation (reason : String)
  | invalidSchedule (reason : String)
  -- A read or write of the cluster failed.
  | kube
deriving DecidableEq

/-- The cron library and the time zone database. `findNextOccurrence` excludes
the instant it starts from. -/
structure CronEngine where
  Cron : Type
  parse : String → Except String Cron
  findNextOccurrence : Cron → DateTime → String → Except String DateTime
  parseTz : String → Option String

def CronEngine.Exclusive (engine : CronEngine) : Prop :=
  ∀ cron after tz slot, engine.findNextOccurrence cron after tz = .ok slot → after < slot

section Slots

variable (engine : CronEngine)

def maxOffsetSecs : Nat := 9223372036854775

def slotOffset (window : Option Nat) (seed : String) (slot : DateTime) : Duration :=
  let secs := (window.map (jitterOffset seed slot.timestamp)).getD 0
  if secs ≤ maxOffsetSecs then Duration.seconds secs else 0

/-- The next slot after an instant, spread inside the jitter window. -/
def nextFire (cronExpr : String) (window : Option Nat) (seed : String) (after : DateTime)
    (tz : String) : Except ReconcileError DateTime :=
  let resolved := substituteH cronExpr seed
  match engine.parse resolved with
  | .error e => .error (.invalidSchedule (resolved ++ ": " ++ e))
  | .ok cron =>
    match engine.findNextOccurrence cron after tz with
    | .error e => .error (.invalidSchedule ("no next occurrence for " ++ resolved ++ ": " ++ e))
    | .ok slot => .ok (slot + slotOffset window seed slot)

theorem slotOffset_nonneg (window : Option Nat) (seed : String) (slot : DateTime) :
    0 ≤ slotOffset window seed slot := by
  simp only [slotOffset]
  split
  case isTrue => exact Int.mul_nonneg (Int.natCast_nonneg _) (by decide)
  case isFalse => exact le_refl 0

theorem nextFire_gt {engine : CronEngine} (hcron : engine.Exclusive) {cronExpr seed tz : String}
    {window : Option Nat} {after slot : DateTime}
    (h : nextFire engine cronExpr window seed after tz = .ok slot) : after < slot := by
  simp only [nextFire] at h
  split at h
  case h_1 => cases h
  case h_2 cron _ =>
    split at h
    case h_1 => cases h
    case h_2 next hnext =>
      cases h
      exact Int.lt_of_lt_of_le (hcron _ _ _ _ hnext)
        (Int.le_add_of_nonneg_right (slotOffset_nonneg _ _ _))

/-- What a pin recorded about how its slot was computed. -/
structure PinnedSlot where
  timezone : Option String := none
  jitter : Option String := none
  cron : Option String := none
deriving DecidableEq

def normalizeCron (cron : String) : String := " ".intercalate (splitWhitespace cron)

def jitterWindow (raw : Option String) : Option Nat := raw.bind parseGoDuration

/-- A recorded input differs from the effective one. An absent record never
does. -/
def pinNeedsRecompute (effectiveCron : String) (pinned : PinnedSlot) (effectiveTz : String)
    (effectiveJitter : Option String) : Bool :=
  (pinned.timezone.any fun p => decide (p ≠ effectiveTz)) ||
    (pinned.jitter.any fun p => decide (jitterWindow (some p) ≠ jitterWindow effectiveJitter)) ||
    pinned.cron.any fun p => decide (normalizeCron p ≠ normalizeCron effectiveCron)

inductive ScheduleResolution
  | resolved (tz : String) (jitter : Option String)
  -- The referents could not be read; the schedule's own values still count.
  | degraded (ownTz : Option String) (ownJitter : Option String)
deriving DecidableEq

structure EffectiveSchedule where
  tz : String
  jitter : Option String
  cron : String
deriving DecidableEq

def EffectiveSchedule.window (eff : EffectiveSchedule) : Option Nat := jitterWindow eff.jitter

def resolveTz (name : Option String) : String := (name.bind engine.parseTz).getD "UTC"

def resolvePinnedSlot (cron : String) (pinned : PinnedSlot) :
    ScheduleResolution → EffectiveSchedule × Bool
  | .resolved tz jitter => (⟨tz, jitter, cron⟩, pinNeedsRecompute cron pinned tz jitter)
  | .degraded ownTz ownJitter =>
    let tz := ownTz.getD (resolveTz engine pinned.timezone)
    let jitter := ownJitter <|> pinned.jitter
    -- An input that could not be read must not move the pin.
    let masked : PinnedSlot :=
      { timezone := ownTz.bind fun _ => pinned.timezone
        jitter := ownJitter.bind fun _ => pinned.jitter
        cron := pinned.cron }
    (⟨tz, jitter, cron⟩, pinNeedsRecompute cron masked tz jitter)

def firstPin (cron : String) : ScheduleResolution → EffectiveSchedule
  | .resolved tz jitter => ⟨tz, jitter, cron⟩
  | .degraded ownTz ownJitter => ⟨ownTz.getD "UTC", ownJitter, cron⟩

end Slots

inductive ConcurrencyPolicy
  | forbid
  | allow
  | replace
deriving DecidableEq

structure ScheduleSpec where
  cron : String
  runOnCreate : Bool := false
  suspend : Bool := false
  concurrencyPolicy : ConcurrencyPolicy := .forbid
  startingDeadlineSeconds : Option Int := none
deriving DecidableEq

def shouldFireNow (slot now : DateTime) : Bool := decide (slot ≤ now)

def missedDeadline (slot now : DateTime) (startingDeadlineSeconds : Option Int) : Bool :=
  startingDeadlineSeconds.any fun d => decide (Duration.numSeconds (now - slot) > d)

def concurrencyAllows : ConcurrencyPolicy → Bool → Bool
  | .forbid, runActive => !runActive
  | .allow, _ | .replace, _ => true

inductive SlotDisposition
  | fire
  | skipExpired
  | wait
deriving DecidableEq

def slotDisposition (spec : ScheduleSpec) (slot now : DateTime) (runActive : Bool) :
    SlotDisposition :=
  if spec.suspend then .wait
  else if !shouldFireNow slot now then .wait
  else if missedDeadline slot now spec.startingDeadlineSeconds then .skipExpired
  else if concurrencyAllows spec.concurrencyPolicy runActive then .fire
  else .wait

def shouldRunOnCreate (spec : ScheduleSpec) (alreadyRan : Bool) : Bool :=
  spec.runOnCreate && !spec.suspend && !alreadyRan

structure UnreadableRun where
  snapshot : String
  phase : String
deriving DecidableEq

structure ActiveRuns where
  active : Bool := false
  unreadable : Option UnreadableRun := none
deriving DecidableEq

def unfinished : Option SnapshotPhase → Bool
  | none | some .pending | some .running | some (.unknown _) => true
  | some .succeeded | some .failed | some .deleting | some .discovered | some .unchanged => false

def Snapshot.phase (b : Snapshot) : Option SnapshotPhase := b.status.bind SnapshotStatus.phase

def unreadableRun (b : Snapshot) : Option UnreadableRun :=
  match b.phase with
  | some (.unknown raw) => some ⟨b.metadata.nameAny, raw⟩
  | _ => none

def classifyActiveRuns (items : List Snapshot) : ActiveRuns :=
  let items := items.filter fun b => b.metadata.deletionTimestamp.isNone
  { active := items.any fun b => unfinished b.phase
    unreadable := items.findSome? unreadableRun }

inductive ActiveRun
  | own (name : String)
  | foreign (name : String)
deriving DecidableEq

def ActiveRun.name : ActiveRun → String
  | .own name | .foreign name => name

def runsTargetPolicy (snapshot : Snapshot) (ns : String) (targets : List PolicyRef) : Bool :=
  snapshot.spec.policyRef.any fun pref =>
    let prefNs := (pref.ns <|> snapshot.metadata.ns).getD ns
    targets.any fun t => decide (t.name = pref.name) && decide (t.ns.getD ns = prefNs)

/-- Own runs block while unfinished, others only while they move data. -/
def slotBlocker (own : List Snapshot) (ns : String) (targets : List PolicyRef) (row : Snapshot) :
    Option ActiveRun :=
  let name := row.metadata.nameAny
  if row.metadata.ns ≠ some ns ∨ row.metadata.deletionTimestamp.isSome then none
  else if own.any fun o => decide (o.metadata.nameAny = name) then
    if unfinished row.phase then some (.own name) else none
  else if runsTargetPolicy row ns targets ∧ row.phase = some .running then some (.foreign name)
  else none

def slotBlockers (rows own : List Snapshot) (ns : String) (targets : List PolicyRef) :
    List ActiveRun :=
  (rows.filterMap (slotBlocker own ns targets)).insertionSort fun a b => a.name ≤ b.name

def firstForeignRun (blockers : List ActiveRun) : Option String :=
  blockers.findSome? fun
    | .own _ => none
    | .foreign name => some name

def needsOtherRunCheck : ConcurrencyPolicy → SlotDisposition → Bool
  | .allow, _ => false
  | .forbid, disposition | .replace, disposition => decide (disposition = .fire)

inductive ReplacePlan
  | clear
  | delete (victims : List String)
  | blockedUnreadable (run : UnreadableRun)
  | heldByParkedRun (name : String)
deriving DecidableEq

def createdBeforeSlot (snapshot : Snapshot) (slot : DateTime) : Bool :=
  snapshot.metadata.creationTimestamp.any fun t => decide (wholeSecond t < slot)

def parkedBehindSlot (snapshot : Snapshot) : Bool :=
  decide (("RepositorySlotAvailable", "False") ∈ (snapshot.status.map SnapshotStatus.conditions).getD [])

/-- What replacing does with the runs of earlier slots. One this build cannot
read, or one parked behind the repository's cap, holds the slot instead. -/
def replacePlan (items : List Snapshot) (slot : DateTime) : ReplacePlan :=
  let earlier := items.filter fun b =>
    b.metadata.deletionTimestamp.isNone && createdBeforeSlot b slot
  match earlier.findSome? unreadableRun with
  | some run => .blockedUnreadable run
  | none =>
    let victims := earlier.filter fun b => unfinished b.phase
    match victims.find? parkedBehindSlot with
    | some b => .heldByParkedRun b.metadata.nameAny
    | none =>
      if victims.isEmpty then .clear
      else .delete ((victims.map fun b => b.metadata.nameAny).insertionSort (· ≤ ·))

theorem slotDisposition_fire {spec : ScheduleSpec} {slot now : DateTime} {runActive : Bool}
    (h : slotDisposition spec slot now runActive = .fire) :
    spec.suspend = false ∧ slot ≤ now ∧
      missedDeadline slot now spec.startingDeadlineSeconds = false := by
  simp only [slotDisposition] at h
  split at h
  case isTrue => cases h
  case isFalse hsuspend =>
    split at h
    case isTrue => cases h
    case isFalse hdue =>
      split at h
      case isTrue => cases h
      case isFalse hmissed =>
        exact ⟨by simpa using hsuspend, by simpa [shouldFireNow] using hdue, by simpa using hmissed⟩

theorem slotDisposition_expired {spec : ScheduleSpec} {slot now : DateTime} {runActive : Bool}
    (hsuspend : spec.suspend = false) (hdue : slot ≤ now)
    (hmissed : missedDeadline slot now spec.startingDeadlineSeconds = true) :
    slotDisposition spec slot now runActive = .skipExpired := by
  simp [slotDisposition, hsuspend, shouldFireNow, hdue, hmissed]

end Kopiur
