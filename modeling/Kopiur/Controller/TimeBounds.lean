import Kopiur.Api.Policy
import Kopiur.Chrono
import Kopiur.Controller.Catalog
import Kopiur.Controller.Health
import Kopiur.Controller.Schedule

/-!
# Time arithmetic with admitted values

Admission bounds intervals, ages and deadlines from below only. Each consumer
converts its value to a span of the calendar library and adds it to a stamp. The
conversion answers for a value that is too large; the addition panics. These are
the functions with their panics.
-/

namespace Kopiur.Checked

open DateTime

-- Admission

inductive ForeignSnapshots
  | ignore
  | fallback
deriving DecidableEq

structure CatalogBounds where
  retain : Option CatalogRetain := none
  refreshInterval : Option String := none
  fallbackNamespace : Option String := none
  foreignSnapshots : Option ForeignSnapshots := none
deriving DecidableEq

def minCatalogRefreshInterval : Nat := 30

def defaultCatalogRefreshInterval : Nat := 3600

def refreshIntervalErrors (raw : String) : List ValidationError :=
  match parseGoDuration raw with
  | none =>
    [.invalidFieldValue "catalog.refreshInterval"
      (debugStr raw ++ " is not a valid duration. Fix: use a Go-style duration like 30s, 5m, or " ++
        "1h; omit the field for the default (1h)")]
  | some d =>
    if d < minCatalogRefreshInterval then
      [.invalidFieldValue "catalog.refreshInterval"
        (debugStr raw ++ " is shorter than the 30s minimum. Fix: use 30s or more (default 1h)")]
    else []

def perIdentityErrors (n : Int) : List ValidationError :=
  if n < 0 then
    [.invalidFieldValue "catalog.retain.perIdentity"
      (toString n ++ " is negative. Fix: use how many discovered Snapshots to keep per " ++
        "identity, 0 to keep none, or omit the field to keep all")]
  else []

def maxAgeDaysErrors (d : Int) : List ValidationError :=
  if d < 1 then
    [.invalidFieldValue "catalog.retain.maxAgeDays"
      (toString d ++ " is not a valid age. Fix: use a positive number of days, or omit the " ++
        "field for no limit")]
  else []

def foreignFallbackErrors (catalog : CatalogBounds) (clusterScoped : Bool) :
    List ValidationError :=
  if catalog.foreignSnapshots = some .fallback then
    (if catalog.fallbackNamespace.isNone then
      [.invalidFieldValue "catalog.foreignSnapshots"
        ("Fallback requires catalog.fallbackNamespace. Fix: set fallbackNamespace, or use " ++
          "Ignore")]
    else []) ++
    if clusterScoped then []
    else
      [.invalidFieldValue "catalog.foreignSnapshots"
        ("Fallback only applies to a ClusterRepository; a Repository always uses its own " ++
          "namespace. Fix: use Ignore or omit")]
  else []

def validateCatalogBounds (catalog : CatalogBounds) (clusterScoped : Bool) :
    List ValidationError :=
  (catalog.refreshInterval.map refreshIntervalErrors).getD [] ++
  ((catalog.retain.bind CatalogRetain.perIdentity).map perIdentityErrors).getD [] ++
  ((catalog.retain.bind CatalogRetain.maxAgeDays).map maxAgeDaysErrors).getD [] ++
  (if !clusterScoped && catalog.fallbackNamespace.isSome then
    [.invalidFieldValue "catalog.fallbackNamespace"
      ("only applies to a ClusterRepository; a Repository always puts discovered Snapshots in " ++
        "its own namespace. Fix: remove the field")]
  else []) ++
  foreignFallbackErrors catalog clusterScoped

/-- The deadline of `failurePolicy`, the part of its check a probe depends on. -/
def validateActiveDeadlineSeconds (activeDeadlineSeconds : Option Int) (context : String) :
    List ValidationError :=
  match activeDeadlineSeconds with
  | some d =>
    if d < 1 then
      [.invalidFieldValue (context ++ " failurePolicy.activeDeadlineSeconds")
        ("must be at least 1 (got " ++ toString d ++ ") — a non-positive deadline is rejected " ++
          "by the kubelet (or fails the pod immediately)")]
    else []
  | none => []

def maxJitter : Nat := 86400

def validateJitterBounds (field jitter : String) : List ValidationError :=
  match parseGoDuration jitter with
  | none =>
    [.invalidFieldValue field
      (debugStr jitter ++ " is not a valid duration. Fix: use a Go-style duration like 30s, 5m, " ++
        "or 1h")]
  | some parsed =>
    if maxJitter < parsed then
      [.invalidFieldValue field
        ("jitter of " ++ jitter ++ " exceeds the 24h maximum. Fix: use a window smaller than " ++
          "the cron period (e.g. 10m); put a fixed offset in the cron expression instead")]
    else []

/-- The settings that enter time arithmetic. -/
structure TimeSettings where
  catalog : CatalogBounds := {}
  activeDeadlineSeconds : Option Int := none
  jitter : Option String := none
deriving DecidableEq

def TimeSettings.errors (s : TimeSettings) (clusterScoped : Bool) : List ValidationError :=
  validateCatalogBounds s.catalog clusterScoped ++
  validateActiveDeadlineSeconds s.activeDeadlineSeconds
    ((if clusterScoped then "ClusterRepository" else "Repository") ++ " spec.bootstrap") ++
  (s.jitter.map (validateJitterBounds "spec.schedule.jitter")).getD []

def effectiveRefreshInterval (catalog : CatalogBounds) : Nat :=
  (catalog.refreshInterval.bind parseGoDuration).getD defaultCatalogRefreshInterval

def refreshDue (rfc : Rfc3339) (lastRefreshAt : Option String) (interval : Nat) (now : DateTime) :
    Option Bool :=
  match lastRefreshAt.bind rfc.parse, Duration.fromStd interval with
  | none, _ | some _, none => some true
  | some last, some interval => (addOrPanic last interval).map fun t => decide (t ≤ now)

def retainBounds (retain : Option CatalogRetain) (now : DateTime) : Option RetainBounds :=
  let perIdentity := ((retain.bind CatalogRetain.perIdentity).filter fun n => decide (0 ≤ n)).map
    Int.toNat
  match (retain.bind CatalogRetain.maxAgeDays).filter fun d => decide (1 ≤ d) with
  | none => some { maxAge := none, perIdentity, now }
  | some d => (Duration.daysOrPanic d).map fun a => { maxAge := some a, perIdentity, now }

def withinAge (b : RetainBounds) (endTime : DateTime) : Option Bool :=
  match b.maxAge with
  | none => some true
  | some a => (addOrPanic endTime a).map fun t => decide (b.now < t)

def probeAttemptTimeout (activeDeadlineSeconds : Int) : Nat :=
  (max (saturatingAdd activeDeadlineSeconds probeAttemptGraceSecs) 1).toNat

def probeAttemptPending (rfc : Rfc3339) (attemptAt : Option String) (timeout : Nat)
    (now : DateTime) : Option Bool :=
  match attemptAt.bind rfc.parse, Duration.fromStd timeout with
  | none, _ | some _, none => some false
  | some started, some timeout => (addOrPanic started timeout).map fun t => decide (now < t)

def nextFire (engine : CronEngine) (cronExpr : String) (window : Option Nat) (seed : String)
    (after : DateTime) (tz : String) : Option (Except ReconcileError DateTime) :=
  let resolved := substituteH cronExpr seed
  match engine.parse resolved with
  | .error e => some (.error (.invalidSchedule (resolved ++ ": " ++ e)))
  | .ok cron =>
    match engine.findNextOccurrence cron after tz with
    | .error e =>
      some (.error (.invalidSchedule ("no next occurrence for " ++ resolved ++ ": " ++ e)))
    | .ok slot =>
      let offset := (window.map (jitterOffset seed slot.timestamp)).getD 0
      (addOrPanic slot ((Duration.fromStd offset).getD 0)).map .ok

/-- The stamps of one pass, and its clock. -/
structure Stamps where
  lastRefreshAt : Option String := none
  attemptAt : Option String := none
  endTime : DateTime
  now : DateTime
deriving DecidableEq

/-- Stamps and clock lie between 1970 and 9999. -/
structure Stamps.Modern (rfc : Rfc3339) (i : Stamps) : Prop where
  lastRefreshAt : ∀ t, i.lastRefreshAt.bind rfc.parse = some t → DateTime.Modern t
  attemptAt : ∀ t, i.attemptAt.bind rfc.parse = some t → DateTime.Modern t
  endTime : DateTime.Modern i.endTime
  now : DateTime.Modern i.now

def EngineBounded (engine : CronEngine) : Prop :=
  ∀ cron after tz slot, DateTime.Modern after → engine.findNextOccurrence cron after tz = .ok slot →
    startOfYear 1970 ≤ slot ∧ slot < startOfYear 10001

section
variable (rfc : Rfc3339) (engine : CronEngine) (s : TimeSettings) (i : Stamps)

def TimeSettings.deadline : Int := bootstrapDeadlineSeconds s.activeDeadlineSeconds

/-- No consumer panics, and no shorter deadline keeps an attempt pending that
this one does not. -/
structure TimeCompletes : Prop where
  refresh : (refreshDue rfc i.lastRefreshAt (effectiveRefreshInterval s.catalog) i.now).isSome
  retain : ∃ b, retainBounds s.catalog.retain i.now = some b ∧ (withinAge b i.endTime).isSome
  probe : (probeAttemptPending rfc i.attemptAt (probeAttemptTimeout s.deadline) i.now).isSome
  pending : ∀ d, 1 ≤ d → d ≤ s.deadline →
    probeAttemptPending rfc i.attemptAt (probeAttemptTimeout d) i.now = some true →
      probeAttemptPending rfc i.attemptAt (probeAttemptTimeout s.deadline) i.now = some true
  fire : ∀ cronExpr seed tz,
    (nextFire engine cronExpr (s.jitter.bind parseGoDuration) seed i.now tz).isSome

/-- Each stamp and what is added to it stay in the calendar. An interval too large
for a span is not added. -/
structure TimeFits : Prop where
  refresh : ∀ last, i.lastRefreshAt.bind rfc.parse = some last →
    Duration.maxSecs < effectiveRefreshInterval s.catalog ∨
      Representable (last + Duration.seconds (effectiveRefreshInterval s.catalog))
  retain : ∀ days, s.catalog.retain.bind CatalogRetain.maxAgeDays = some days → 1 ≤ days →
    Representable (i.endTime + Duration.seconds (days * 86400))
  probe : ∀ started, i.attemptAt.bind rfc.parse = some started →
    Representable (started + Duration.seconds (probeAttemptTimeout s.deadline))

end

section
variable {rfc : Rfc3339} {engine : CronEngine}

theorem addOrPanic_isSome {t : DateTime} {d : Duration} :
    (addOrPanic t d).isSome = true ↔ Representable (t + d) := by
  unfold addOrPanic
  split <;> simp_all

theorem refreshDue_isSome {lastRefreshAt : Option String} {interval : Nat} {now : DateTime} :
    (refreshDue rfc lastRefreshAt interval now).isSome = true ↔
      ∀ last, lastRefreshAt.bind rfc.parse = some last →
        Duration.maxSecs < interval ∨ Representable (last + Duration.seconds interval) := by
  unfold refreshDue
  cases hlast : lastRefreshAt.bind rfc.parse with
  | none => simp
  | some last =>
    by_cases hspan : (interval : Int) ≤ Duration.maxSecs
    · have hstd : Duration.fromStd interval = some (.seconds interval) := if_pos hspan
      simp [hstd, addOrPanic_isSome, Int.not_lt.mpr hspan]
    · have hstd : Duration.fromStd interval = none := if_neg hspan
      simp [hstd, Int.not_le.mp hspan]

theorem probeAttemptPending_eq {attemptAt : Option String} {started now : DateTime} {timeout : Nat}
    (hattempt : attemptAt.bind rfc.parse = some started) :
    probeAttemptPending rfc attemptAt timeout now =
      if (timeout : Int) ≤ Duration.maxSecs then
        (addOrPanic started (.seconds timeout)).map fun t => decide (now < t)
      else some false := by
  unfold probeAttemptPending
  rw [hattempt]
  by_cases hspan : (timeout : Int) ≤ Duration.maxSecs
  · have hstd : Duration.fromStd timeout = some (.seconds timeout) := if_pos hspan
    simp [hstd, hspan]
  · have hstd : Duration.fromStd timeout = none := if_neg hspan
    simp [hstd, hspan]

theorem probeAttemptTimeout_mono {d d' : Int} (h : d ≤ d') :
    probeAttemptTimeout d ≤ probeAttemptTimeout d' := by
  simp only [probeAttemptTimeout, saturatingAdd, probeAttemptGraceSecs, i64Min]
  omega

theorem le_maxSecs_of_representable {t : DateTime} {secs : Int} (ht : DateTime.Modern t)
    (hrep : Representable (t + Duration.seconds secs)) : secs ≤ Duration.maxSecs := by
  have ht' := modern_iff.mp ht
  have hrep' := representable_iff.mp hrep
  simp only [Duration.seconds, Duration.maxSecs] at *
  omega

theorem representable_add_seconds {t secs : Int} (h0 : 0 ≤ t) (ht : t < startOfYear 10001)
    (hs0 : 0 ≤ secs) (hs : secs ≤ 7000000000000) : Representable (t + Duration.seconds secs) := by
  have hlast : startOfYear 10001 = fromTimestamp 253433923200 := by decide
  rw [hlast] at ht
  rw [representable_iff]
  simp only [Duration.seconds, fromTimestamp] at *
  omega

theorem seconds_le_seconds {a b : Int} (h : a ≤ b) : Duration.seconds a ≤ Duration.seconds b :=
  Int.mul_le_mul_of_nonneg_right h (by decide)

-- Each consumer

theorem retain_completes {retain : Option CatalogRetain} {endTime now : DateTime}
    (hend : DateTime.Modern endTime) :
    (∃ b, retainBounds retain now = some b ∧ (withinAge b endTime).isSome = true) ↔
      ∀ days, retain.bind CatalogRetain.maxAgeDays = some days → 1 ≤ days →
        Representable (endTime + Duration.seconds (days * 86400)) := by
  unfold retainBounds
  cases hdays : retain.bind CatalogRetain.maxAgeDays with
  | none => simp [withinAge]
  | some days =>
    by_cases hpos : 1 ≤ days
    · simp only [Option.filter, hpos, decide_true, if_true, Option.some.injEq, forall_eq',
        forall_const]
      constructor
      · rintro ⟨b, hb, hwithin⟩
        obtain ⟨a, ha, rfl⟩ := Option.map_eq_some_iff.mp hb
        unfold Duration.daysOrPanic at ha
        split at ha
        · cases ha
          simpa [withinAge, addOrPanic_isSome] using hwithin
        · cases ha
      · intro hrep
        have hmax := le_maxSecs_of_representable hend hrep
        have hspan : Duration.daysOrPanic days = some (.seconds (days * 86400)) := by
          refine if_pos ⟨?_, hmax⟩
          simp only [Duration.maxSecs]
          omega
        exact ⟨_, by rw [hspan]; rfl, by simpa [withinAge, addOrPanic_isSome] using hrep⟩
    · simp only [Option.filter, hpos, decide_false]
      simp only [Bool.false_eq_true, if_false, Option.some.injEq]
      refine iff_of_true ⟨_, rfl, rfl⟩ ?_
      rintro _ rfl h
      exact absurd h hpos

def longDeadline : Int := 300000000000

theorem pending_longDeadline {attemptAt : Option String} {started now : DateTime}
    (hattempt : attemptAt.bind rfc.parse = some started) (hstarted : DateTime.Modern started)
    (hnow : DateTime.Modern now) :
    probeAttemptPending rfc attemptAt (probeAttemptTimeout longDeadline) now = some true := by
  have htimeout : (probeAttemptTimeout longDeadline : Int) = 300000000060 := by decide
  have hstarted' := modern_iff.mp hstarted
  have hrep : Representable (started + Duration.seconds (probeAttemptTimeout longDeadline)) := by
    refine representable_add_seconds hstarted'.1 (Int.lt_trans hstarted'.2 (by decide)) ?_ ?_
    · rw [htimeout]
      decide
    · rw [htimeout]
      decide
  have hlater : now < started + Duration.seconds (probeAttemptTimeout longDeadline) := by
    rw [htimeout]
    exact Int.lt_of_lt_of_le (modern_iff.mp hnow).2
      (Int.le_trans (by decide) (Int.le_add_of_nonneg_left hstarted'.1))
  rw [probeAttemptPending_eq hattempt, if_pos (by rw [htimeout]; decide), addOrPanic, if_pos hrep,
    Option.map_some, decide_eq_true hlater]

theorem probe_completes {attemptAt : Option String} {now : DateTime} {deadline : Int}
    (hattempts : ∀ t, attemptAt.bind rfc.parse = some t → DateTime.Modern t)
    (hnow : DateTime.Modern now) :
    ((probeAttemptPending rfc attemptAt (probeAttemptTimeout deadline) now).isSome = true ∧
        ∀ d, 1 ≤ d → d ≤ deadline →
          probeAttemptPending rfc attemptAt (probeAttemptTimeout d) now = some true →
            probeAttemptPending rfc attemptAt (probeAttemptTimeout deadline) now = some true) ↔
      ∀ started, attemptAt.bind rfc.parse = some started →
        Representable (started + Duration.seconds (probeAttemptTimeout deadline)) := by
  cases hattempt : attemptAt.bind rfc.parse with
  | none => simp [probeAttemptPending, hattempt]
  | some started =>
    have hstarted := hattempts started hattempt
    simp only [Option.some.injEq, forall_eq']
    by_cases hspan : (probeAttemptTimeout deadline : Int) ≤ Duration.maxSecs
    · have hself : probeAttemptPending rfc attemptAt (probeAttemptTimeout deadline) now =
          (addOrPanic started (.seconds (probeAttemptTimeout deadline))).map
            fun t => decide (now < t) := by
        rw [probeAttemptPending_eq hattempt, if_pos hspan]
      constructor
      · rintro ⟨hsome, -⟩
        rw [hself, Option.isSome_map] at hsome
        exact addOrPanic_isSome.mp hsome
      · intro hrep
        have hvalue : probeAttemptPending rfc attemptAt (probeAttemptTimeout deadline) now =
            some (decide (now < started + Duration.seconds (probeAttemptTimeout deadline))) := by
          rw [hself, addOrPanic, if_pos hrep]
          rfl
        refine ⟨by rw [hvalue]; rfl, fun d _ hle hpending => ?_⟩
        have hmono : Duration.seconds (probeAttemptTimeout d) ≤
            Duration.seconds (probeAttemptTimeout deadline) :=
          seconds_le_seconds (by exact_mod_cast probeAttemptTimeout_mono hle)
        rw [probeAttemptPending_eq hattempt] at hpending
        split at hpending
        · obtain ⟨t, ht, hlt⟩ := Option.map_eq_some_iff.mp hpending
          unfold addOrPanic at ht
          split at ht
          · cases ht
            have hnow' := of_decide_eq_true hlt
            rw [hvalue, decide_eq_true (Int.lt_of_lt_of_le hnow' (Int.add_le_add_left hmono _))]
          · cases ht
        · cases hpending
    · constructor
      · rintro ⟨-, hpending⟩
        -- the largest deadlines are dropped, a shorter one is still pending
        have hlong := hpending longDeadline (by decide) ?_
          (pending_longDeadline hattempt hstarted hnow)
        · rw [probeAttemptPending_eq hattempt, if_neg hspan] at hlong
          cases hlong
        · by_contra hlt
          apply hspan
          have hle := probeAttemptTimeout_mono (Int.le_of_lt (Int.not_le.mp hlt))
          have hlong : probeAttemptTimeout longDeadline = 300000000060 := by decide
          simp only [Duration.maxSecs]
          omega
      · intro hrep
        exact absurd (le_maxSecs_of_representable hstarted hrep) hspan

theorem fire_completes (hengine : EngineBounded engine) {window : Option Nat}
    (hwindow : ∀ w, window = some w → w ≤ maxJitter) {after : DateTime}
    (hafter : DateTime.Modern after) (cronExpr seed tz : String) :
    (nextFire engine cronExpr window seed after tz).isSome = true := by
  unfold nextFire
  dsimp only
  split
  · rfl
  · next cron _ =>
    split
    · rfl
    · next slot hslot =>
      rw [Option.isSome_map, addOrPanic_isSome]
      have hrange := hengine cron after tz slot hafter hslot
      have hoffset : (window.map (jitterOffset seed slot.timestamp)).getD 0 ≤ maxJitter := by
        cases window with
        | none => simp
        | some w =>
          have hw := hwindow w rfl
          simp only [Option.map_some, Option.getD_some, jitterOffset]
          split
          · exact Nat.zero_le _
          · next hzero =>
            exact Nat.le_trans (Nat.le_of_lt (Nat.mod_lt _ (Nat.pos_of_ne_zero hzero))) hw
      generalize (window.map (jitterOffset seed slot.timestamp)).getD 0 = offset at hoffset
      have hspan : Duration.fromStd offset = some (.seconds offset) := by
        refine if_pos ?_
        simp only [maxJitter] at hoffset
        simp only [Duration.maxSecs]
        omega
      rw [hspan, Option.getD_some]
      rw [startOfYear_modern] at hrange
      refine representable_add_seconds hrange.1 hrange.2 (Int.natCast_nonneg _) ?_
      simp only [maxJitter] at hoffset
      omega

theorem TimeSettings.jitter_le {s : TimeSettings} {clusterScoped : Bool}
    (hadmitted : s.errors clusterScoped = []) :
    ∀ w, s.jitter.bind parseGoDuration = some w → w ≤ maxJitter := by
  intro w hw
  obtain ⟨text, htext, hparse⟩ := Option.bind_eq_some_iff.mp hw
  simp only [TimeSettings.errors, List.append_eq_nil_iff, htext, Option.map_some,
    Option.getD_some, validateJitterBounds, hparse] at hadmitted
  by_contra hlt
  rw [if_pos (Nat.not_le.mp hlt)] at hadmitted
  cases hadmitted.2

/-- When no admitted value makes a consumer panic or forget a pending attempt. -/
theorem timeCompletes_iff (hengine : EngineBounded engine) {s : TimeSettings}
    {clusterScoped : Bool} (hadmitted : s.errors clusterScoped = []) {i : Stamps}
    (hmodern : i.Modern rfc) : TimeCompletes rfc engine s i ↔ TimeFits rfc s i := by
  have hprobe : _ ↔ ∀ started, i.attemptAt.bind rfc.parse = some started →
      Representable (started + Duration.seconds (probeAttemptTimeout s.deadline)) :=
    probe_completes hmodern.attemptAt hmodern.now
  constructor
  · intro h
    exact ⟨refreshDue_isSome.mp h.refresh, (retain_completes hmodern.endTime).mp h.retain,
      hprobe.mp ⟨h.probe, h.pending⟩⟩
  · intro h
    obtain ⟨hsome, hpending⟩ := hprobe.mpr h.probe
    exact {
      refresh := refreshDue_isSome.mpr h.refresh
      retain := (retain_completes hmodern.endTime).mpr h.retain
      probe := hsome
      pending := hpending
      fire := fire_completes hengine (TimeSettings.jitter_le hadmitted) hmodern.now }

end

def newYear : Rfc3339 where
  parse s := if s = "2026-01-01T00:00:00+00:00" then some (fromTimestamp 1767225600) else none
  render _ := "2026-01-01T00:00:00+00:00"

/-- Every full hour. -/
def fullHours : CronEngine where
  Cron := Unit
  parse _ := .ok ()
  findNextOccurrence _ after _ := .ok ((after / 3600000000000 + 1) * 3600000000000)
  parseTz tz := some tz

theorem fullHours_bounded : EngineBounded fullHours := by
  intro _ after _ slot hafter hslot
  cases hslot
  obtain ⟨hlow, hhigh⟩ := modern_iff.mp hafter
  have hhour := Int.lt_ediv_add_one_mul_self after (show (0 : Int) < 3600000000000 by decide)
  have hback := Int.ediv_mul_le after (show (3600000000000 : Int) ≠ 0 by decide)
  have hlast : (253402300800000000000 : Int) + 3600000000000 ≤ startOfYear 10001 := by decide
  rw [startOfYear_modern]
  exact ⟨(hlow.trans_lt hhour).le, by linarith only [hhigh, hback, hlast]⟩

def newYearStamps : Stamps where
  lastRefreshAt := some "2026-01-01T00:00:00+00:00"
  attemptAt := some "2026-01-01T00:00:00+00:00"
  endTime := fromTimestamp 1767225600
  now := fromTimestamp 1767225600

theorem newYear_modern {text : String} {t : DateTime} (h : newYear.parse text = some t) :
    DateTime.Modern t := by
  simp only [newYear] at h
  split at h
  · cases h
    decide
  · cases h

theorem newYearStamps_modern : newYearStamps.Modern newYear where
  lastRefreshAt t ht := by
    obtain ⟨text, -, hparse⟩ := Option.bind_eq_some_iff.mp ht
    exact newYear_modern hparse
  attemptAt t ht := by
    obtain ⟨text, -, hparse⟩ := Option.bind_eq_some_iff.mp ht
    exact newYear_modern hparse
  endTime := by decide
  now := by decide

def hourly : TimeSettings where
  catalog := { refreshInterval := some "1h", retain := some { maxAgeDays := some 30 } }
  jitter := some "10m"

theorem hourly_completes : TimeCompletes newYear fullHours hourly newYearStamps :=
  have hadmitted : hourly.errors false = [] := by decide
  (timeCompletes_iff fullHours_bounded hadmitted newYearStamps_modern).mpr {
      refresh := by
        intro last hlast
        cases hlast
        exact .inr (by decide)
      retain := by
        intro days hdays _
        cases hdays
        decide
      probe := by
        intro started hstarted
        cases hstarted
        decide }

/-- An admitted interval that ends beyond the calendar. -/
theorem refreshDue_panics :
    ¬ ∀ rfc engine s i, EngineBounded engine → TimeSettings.errors s false = [] →
      Stamps.Modern rfc i → TimeCompletes rfc engine s i := by
  intro h
  have hcompletes := h newYear fullHours
    { catalog := { refreshInterval := some "2500000000h" } } newYearStamps
    fullHours_bounded (by decide) newYearStamps_modern
  exact absurd hcompletes.refresh (by decide)

end Kopiur.Checked
