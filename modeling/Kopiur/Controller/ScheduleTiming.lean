import Kopiur.Controller.Verification
import Kopiur.Lib.Canonical

/-!
# Effective timing of a schedule

A schedule's own timezone and jitter win. A half it does not set is inherited
from the repositories of its policies, if they agree.
-/

namespace Kopiur

open Lib

structure ScheduleDefaults where
  timezone : Option String := none
  jitter : Option String := none
deriving DecidableEq

structure OwnTiming where
  timezone : Option String := none
  jitter : Option String := none
deriving DecidableEq

inductive ScheduleJitterResolution
  | agreed (window : Option String)
  | disagreed (candidates : List String)
deriving DecidableEq

def resolveScheduleJitter (own : Option String) (candidates : List (Option String)) :
    ScheduleJitterResolution :=
  match own with
  | some own => .agreed (some own)
  | none =>
    match candidates with
    | [] => .agreed none
    | first :: _ =>
      if ∀ c ∈ candidates, c = first then .agreed first
      else .disagreed (canonical (candidates.map (Option.getD · "(none)")))

def inheritedJitter (own : Option String) (defaults : List ScheduleDefaults) :
    ScheduleJitterResolution :=
  resolveScheduleJitter own (defaults.map ScheduleDefaults.jitter)

section Timing

variable (engine : CronEngine)

/-- The zone, and the candidates where the repositories disagree. -/
def effectiveTimezone (own : Option String) (policyRepoDefaults : List (Option String)) :
    String × Option (List String) :=
  if own.isSome then (resolveTz engine own, none)
  else if policyRepoDefaults.isEmpty then ("UTC", none)
  else
    match canonical (policyRepoDefaults.map (resolveTz engine)) with
    | [zone] => (zone, none)
    | zones => ("UTC", some zones)

def inheritedTimezone (own : Option String) (defaults : List ScheduleDefaults) :
    String × Option (List String) :=
  effectiveTimezone engine own (defaults.map ScheduleDefaults.timezone)

/-- The resolution of one reconcile, from the defaults of the matched
repositories, if they could be read. -/
def resolveEffectiveSchedule (own : OwnTiming) (read : Option (List ScheduleDefaults)) :
    ScheduleResolution :=
  match own.timezone, own.jitter with
  | some tz, some jitter => .resolved (resolveTz engine (some tz)) (some jitter)
  | ownTz, ownJitter =>
    match read with
    | none => .degraded (ownTz.map fun t => resolveTz engine (some t)) ownJitter
    | some defaults =>
      .resolved (inheritedTimezone engine ownTz defaults).1
        (match inheritedJitter ownJitter defaults with
        | .agreed window => window
        | .disagreed _ => none)

end Timing

structure CronEngine.ParsesNames (engine : CronEngine) : Prop where
  parsed : ∀ name tz, engine.parseTz name = some tz → engine.parseTz tz = some tz
  utc : engine.parseTz "UTC" = some "UTC"

section Zones

variable {engine : CronEngine}

theorem resolveTz_resolveTz (h : engine.ParsesNames) (name : Option String) :
    resolveTz engine (some (resolveTz engine name)) = resolveTz engine name := by
  unfold resolveTz
  cases hz : name.bind engine.parseTz with
  | none => simp [h.utc]
  | some tz =>
    obtain ⟨n, -, hn⟩ := Option.bind_eq_some_iff.mp hz
    simp [h.parsed n tz hn]

theorem resolveTz_inheritedTimezone (h : engine.ParsesNames) (own : Option String)
    (defaults : List ScheduleDefaults) :
    resolveTz engine (some (inheritedTimezone engine own defaults).1) =
      (inheritedTimezone engine own defaults).1 := by
  have hutc : resolveTz engine (some "UTC") = "UTC" := by simp [resolveTz, h.utc]
  simp only [inheritedTimezone, effectiveTimezone]
  split
  case isTrue => exact resolveTz_resolveTz h own
  case isFalse =>
    split
    case isTrue => exact hutc
    case isFalse =>
      split
      case h_1 zone hzones =>
        have hmem : zone ∈ (defaults.map ScheduleDefaults.timezone).map (resolveTz engine) := by
          rw [← mem_canonical, hzones]
          exact List.mem_singleton_self zone
        obtain ⟨name, -, rfl⟩ := List.mem_map.mp hmem
        exact resolveTz_resolveTz h name
      case h_2 => exact hutc

end Zones

/-- A resolution has every half the schedule sets, and all of them unless the
referents could not be read. -/
inductive Resolves (engine : CronEngine) (own : OwnTiming) : ScheduleResolution → Prop
  | resolved {tz : String} {jitter : Option String}
    (zone : engine.ParsesNames → resolveTz engine (some tz) = tz)
    (ownTz : ∀ t ∈ own.timezone, tz = resolveTz engine (some t))
    (ownJitter : ∀ w ∈ own.jitter, jitter = some w) : Resolves engine own (.resolved tz jitter)
  | degraded : Resolves engine own
      (.degraded (own.timezone.map fun t => resolveTz engine (some t)) own.jitter)

theorem resolveEffectiveSchedule_resolves (engine : CronEngine) (own : OwnTiming)
    (read : Option (List ScheduleDefaults)) :
    Resolves engine own (resolveEffectiveSchedule engine own read) := by
  obtain ⟨ownTz, ownJitter⟩ := own
  -- A half the schedule sets is never inherited.
  have hzone : ∀ defaults, ∀ t ∈ ownTz,
      (inheritedTimezone engine ownTz defaults).1 = resolveTz engine (some t) := by
    rintro defaults t rfl
    rfl
  have hwindow : ∀ defaults, ∀ w ∈ ownJitter,
      inheritedJitter ownJitter defaults = .agreed (some w) := by
    rintro defaults w rfl
    rfl
  unfold resolveEffectiveSchedule
  split
  case h_1 tz jitter htz hjitter =>
    cases htz
    cases hjitter
    refine .resolved (fun h => resolveTz_resolveTz h _) ?_ ?_
    · rintro t ⟨⟩
      rfl
    · rintro w ⟨⟩
      rfl
  case h_2 =>
    cases read with
    | none => exact .degraded
    | some defaults =>
      refine .resolved (fun h => resolveTz_inheritedTimezone h _ _) (hzone defaults) ?_
      intro w hw
      rw [hwindow defaults w hw]

def firstLookback : Duration := Duration.seconds (365 * 86400)

def slotFor (engine : CronEngine) (seed : String) (spec : CronSpec) (after : DateTime)
    (defaults : Option ScheduleDefaults) : Except ReconcileError DateTime :=
  nextFire engine spec.cron
    (jitterWindow (spec.jitter <|> defaults.bind ScheduleDefaults.jitter)) seed after
    (resolveTz engine (spec.timezone <|> defaults.bind ScheduleDefaults.timezone))

end Kopiur
