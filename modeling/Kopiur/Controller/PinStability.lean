import Kopiur.Controller.ScheduleRuns
import Kopiur.Controller.ScheduleTiming

/-!
# Stable pins

A pin is not moved by passes that cannot read the referents, nor by passes that
read what it was computed from.
-/

namespace Kopiur

open Lib

def ScheduleStatus.pin (status : ScheduleStatus) : Option (NextSchedule × DateTime) :=
  status.nextSchedule.bind fun pin => pin.slot.map (pin, ·)

def asksRepin (cfg : ScheduleConfig) (status : ScheduleStatus) (i : Reconcile) : Bool :=
  status.pin.any fun p =>
    (resolvePinnedSlot cfg.engine i.spec.cron p.1.recorded i.resolution).2

def Pass.pins (pass : Pass) : Prop := pass.ending = .pinned ∨ pass.ending = .fired

/-- The inputs of the passes of a run that do not change. -/
structure SteadyTiming where
  cron : String
  own : OwnTiming
  -- What the repositories give whenever they can be read.
  inherited : List ScheduleDefaults

namespace SteadyTiming

variable (engine : CronEngine) (t : SteadyTiming)

def read : ScheduleResolution := resolveEffectiveSchedule engine t.own (some t.inherited)

def Holds (i : Reconcile) : Prop :=
  i.spec.cron = t.cron ∧
    (i.resolution = t.read engine ∨ i.resolution = resolveEffectiveSchedule engine t.own none)

end SteadyTiming

section Pins

variable {cfg : ScheduleConfig} {status : ScheduleStatus} {i : Reconcile}

theorem repin_pin (eff : EffectiveSchedule) :
    (repin cfg status i eff).status.pin = status.pin ∧ ¬ (repin cfg status i eff).pins ∨
      ∃ slot, (repin cfg status i eff).status.pin = some (pinOf cfg eff slot, slot) := by
  unfold repin
  split
  · exact .inl ⟨rfl, by simp [Pass.pins]⟩
  · next next _ =>
    split
    · exact .inr ⟨next, rfl⟩
    · exact .inl ⟨rfl, by simp [Pass.pins]⟩

theorem fireSlot_pin (eff : EffectiveSchedule) (slot : DateTime) (onCreate : Bool) :
    (fireSlot cfg status i eff slot onCreate).status.pin = status.pin ∧
        ¬ (fireSlot cfg status i eff slot onCreate).pins ∨
      ∃ next, (fireSlot cfg status i eff slot onCreate).status.pin =
        some (pinOf cfg eff next, next) := by
  simp only [fireSlot]
  split
  · exact .inl ⟨rfl, by simp [Pass.pins]⟩
  · split
    · exact .inl ⟨rfl, by simp [Pass.pins]⟩
    · split
      · exact .inl ⟨rfl, by simp [Pass.pins]⟩
      · next next _ =>
        split
        · exact .inr ⟨next, rfl⟩
        · exact .inl ⟨rfl, by simp [Pass.pins]⟩

def effectiveOf (cfg : ScheduleConfig) (status : ScheduleStatus) (i : Reconcile) :
    EffectiveSchedule :=
  match status.pin with
  | some (pin, _) => (resolvePinnedSlot cfg.engine i.spec.cron pin.recorded i.resolution).1
  | none => firstPin i.spec.cron i.resolution

theorem reconcilePinned_pin {pin : NextSchedule} {slot : DateTime}
    (hpin : status.pin = some (pin, slot)) :
    (reconcilePinned cfg status i pin slot).status.pin = status.pin ∧
        ¬ (reconcilePinned cfg status i pin slot).pins ∨
      ∃ slot', (reconcilePinned cfg status i pin slot).status.pin =
        some (pinOf cfg (effectiveOf cfg status i) slot', slot') := by
  have heff : effectiveOf cfg status i =
      (resolvePinnedSlot cfg.engine i.spec.cron pin.recorded i.resolution).1 := by
    simp [effectiveOf, hpin]
  have hkept : ∀ e, e ≠ .pinned ∧ e ≠ .fired → ¬ (Pass.mk status none e).pins := by
    intro e he
    simp [Pass.pins, he.1, he.2]
  rw [heff]
  simp only [reconcilePinned]
  split
  case isTrue => exact repin_pin _
  case isFalse =>
    split
    case h_1 => exact .inl ⟨rfl, hkept _ (by simp)⟩
    case h_2 =>
      split
      case h_1 => exact .inl ⟨rfl, hkept _ (by simp)⟩
      case h_2 =>
        split
        case h_1 => exact repin_pin _
        case h_2 => exact .inl ⟨rfl, hkept _ (by simp)⟩
        case h_3 => exact .inl ⟨rfl, hkept _ (by simp)⟩
        case h_4 => exact .inl ⟨rfl, hkept _ (by simp)⟩
        case h_5 =>
          split
          case isTrue => exact fireSlot_pin _ _ _
          case isFalse => exact .inl ⟨rfl, hkept _ (by simp)⟩
        case h_6 => exact fireSlot_pin _ _ _

theorem reconcileFirst_pin (hpin : status.pin = none) :
    (reconcileFirst cfg status i).status.pin = status.pin ∧ ¬ (reconcileFirst cfg status i).pins ∨
      ∃ slot, (reconcileFirst cfg status i).status.pin =
        some (pinOf cfg (effectiveOf cfg status i) slot, slot) := by
  have heff : effectiveOf cfg status i = firstPin i.spec.cron i.resolution := by
    simp [effectiveOf, hpin]
  rw [heff]
  simp only [reconcileFirst]
  split
  case h_1 => exact .inl ⟨rfl, by simp [Pass.pins]⟩
  case h_2 =>
    split
    case isFalse => exact repin_pin _
    case isTrue =>
      split
      case h_1 => exact .inl ⟨rfl, by simp [Pass.pins]⟩
      case h_2 => exact .inl ⟨rfl, by simp [Pass.pins]⟩
      case h_3 => exact fireSlot_pin _ _ _

theorem reconcile_pin (cfg : ScheduleConfig) (status : ScheduleStatus) (i : Reconcile) :
    (reconcile cfg status i).status.pin = status.pin ∧ ¬ (reconcile cfg status i).pins ∨
      ∃ slot, (reconcile cfg status i).status.pin =
        some (pinOf cfg (effectiveOf cfg status i) slot, slot) := by
  unfold reconcile
  split
  case h_1 => exact .inl ⟨rfl, by simp [Pass.pins]⟩
  case h_2 =>
    split
    case h_1 hnone => exact reconcileFirst_pin (by simp [ScheduleStatus.pin, hnone])
    case h_2 pin hsome =>
      split
      case h_1 hslot => exact reconcileFirst_pin (by simp [ScheduleStatus.pin, hsome, hslot])
      case h_2 slot hslot =>
        exact reconcilePinned_pin (by simp [ScheduleStatus.pin, hsome, hslot])

end Pins

-- Comparing a pin

def Moved (engine : CronEngine) (recorded : PinnedSlot) (cron : String) (own : OwnTiming) : Prop :=
  (∃ p ∈ recorded.cron, normalizeCron p ≠ normalizeCron cron) ∨
    (∃ z ∈ recorded.timezone, ∃ t ∈ own.timezone, z ≠ resolveTz engine (some t)) ∨
    ∃ p ∈ recorded.jitter, ∃ w ∈ own.jitter, jitterWindow (some p) ≠ jitterWindow (some w)

theorem pinNeedsRecompute_iff {cron tz : String} {recorded : PinnedSlot} {jitter : Option String} :
    pinNeedsRecompute cron recorded tz jitter = true ↔
      (∃ z ∈ recorded.timezone, z ≠ tz) ∨
        (∃ p ∈ recorded.jitter, jitterWindow (some p) ≠ jitterWindow jitter) ∨
        ∃ p ∈ recorded.cron, normalizeCron p ≠ normalizeCron cron := by
  simp [pinNeedsRecompute, Option.any_eq_true, or_assoc]

theorem pinNeedsRecompute_self (cfg : ScheduleConfig) (eff : EffectiveSchedule) (slot : DateTime) :
    pinNeedsRecompute eff.cron (pinOf cfg eff slot).recorded eff.tz eff.jitter = false := by
  rw [Bool.eq_false_iff, Ne, pinNeedsRecompute_iff]
  rintro (⟨z, ⟨⟩, hz⟩ | ⟨p, hp, hjitter⟩ | ⟨p, hp, hcron⟩)
  · exact hz rfl
  · rw [← show eff.jitter = some p from hp] at hjitter
    exact hjitter rfl
  · simp only [pinOf] at hp
    split at hp
    · cases hp
      exact hcron rfl
    · cases hp

section Resolutions

variable {engine : CronEngine} {own : OwnTiming} {recorded : PinnedSlot} {cron : String}
  {resolution : ScheduleResolution}

theorem resolvePinnedSlot_of_moved (hres : Resolves engine own resolution)
    (h : Moved engine recorded cron own) :
    (resolvePinnedSlot engine cron recorded resolution).2 = true := by
  cases hres with
  | resolved _ hownTz hownJitter =>
    refine pinNeedsRecompute_iff.mpr ?_
    rcases h with hcron | ⟨z, hz, t, ht, hne⟩ | ⟨p, hp, w, hw, hne⟩
    · exact .inr (.inr hcron)
    · exact .inl ⟨z, hz, hownTz t ht ▸ hne⟩
    · exact .inr (.inl ⟨p, hp, hownJitter w hw ▸ hne⟩)
  | degraded =>
    refine pinNeedsRecompute_iff.mpr ?_
    rcases h with hcron | ⟨z, hz, t, ht, hne⟩ | ⟨p, hp, w, hw, hne⟩
    · exact .inr (.inr hcron)
    · refine .inl ⟨z, ?_, ?_⟩
      · simpa [Option.mem_def.mp ht] using hz
      · simpa [Option.mem_def.mp ht] using hne
    · refine .inr (.inl ⟨p, ?_, ?_⟩)
      · simpa [Option.mem_def.mp hw] using hp
      · simpa [Option.mem_def.mp hw] using hne

theorem moved_of_unread
    (h : (resolvePinnedSlot engine cron recorded
      (resolveEffectiveSchedule engine own none)).2 = true) : Moved engine recorded cron own := by
  obtain ⟨ownTz, ownJitter⟩ := own
  have hdegraded : (resolvePinnedSlot engine cron recorded
      (.degraded (ownTz.map fun t => resolveTz engine (some t)) ownJitter)).2 = true →
      Moved engine recorded cron ⟨ownTz, ownJitter⟩ := by
    intro h
    rcases pinNeedsRecompute_iff.mp h with ⟨z, hz, hne⟩ | ⟨p, hp, hne⟩ | hcron
    · cases ownTz with
      | none => cases hz
      | some t => exact .inr (.inl ⟨z, hz, t, rfl, hne⟩)
    · cases ownJitter with
      | none => cases hp
      | some w => exact .inr (.inr ⟨p, hp, w, rfl, hne⟩)
    · exact .inl hcron
  cases ownTz with
  | none => exact hdegraded h
  | some t =>
    cases ownJitter with
    | none => exact hdegraded h
    | some w =>
      -- Both halves are the schedule's own.
      rcases pinNeedsRecompute_iff.mp h with ⟨z, hz, hne⟩ | ⟨p, hp, hne⟩ | hcron
      · exact .inr (.inl ⟨z, hz, t, rfl, hne⟩)
      · exact .inr (.inr ⟨p, hp, w, rfl, hne⟩)
      · exact .inl hcron

inductive Effective (cron : String) (eff : EffectiveSchedule) : ScheduleResolution → Prop
  | resolved (hcron : eff.cron = cron) : Effective cron eff (.resolved eff.tz eff.jitter)
  | degraded {ownTz ownJitter : Option String} (hcron : eff.cron = cron)
    (htz : ∀ t ∈ ownTz, eff.tz = t) (hjitter : ∀ w ∈ ownJitter, eff.jitter = some w) :
    Effective cron eff (.degraded ownTz ownJitter)

theorem effective_firstPin : Effective cron (firstPin cron resolution) resolution := by
  cases resolution with
  | resolved => exact .resolved rfl
  | degraded ownTz ownJitter =>
    refine .degraded rfl ?_ fun w hw => hw
    rintro t rfl
    rfl

theorem effective_resolvePinnedSlot :
    Effective cron (resolvePinnedSlot engine cron recorded resolution).1 resolution := by
  cases resolution with
  | resolved => exact .resolved rfl
  | degraded ownTz ownJitter =>
    refine .degraded rfl ?_ ?_
    · rintro t rfl
      rfl
    · rintro w rfl
      rfl

theorem Effective.again {cfg : ScheduleConfig} {eff : EffectiveSchedule}
    (h : Effective cron eff resolution) (slot : DateTime) :
    (resolvePinnedSlot engine cron (pinOf cfg eff slot).recorded resolution).2 = false := by
  have hself := pinNeedsRecompute_self cfg eff slot
  rw [Bool.eq_false_iff, Ne, pinNeedsRecompute_iff] at hself
  cases h with
  | resolved hcron =>
    subst hcron
    exact pinNeedsRecompute_self cfg eff slot
  | @degraded ownTz ownJitter hcron htz hjitter =>
    subst hcron
    rw [Bool.eq_false_iff]
    intro hask
    rcases pinNeedsRecompute_iff.mp hask with ⟨z, hz, hne⟩ | ⟨p, hp, hne⟩ | hc
    · cases ownTz with
      | none => cases hz
      | some t =>
        refine hself (.inl ⟨z, hz, ?_⟩)
        rw [htz t rfl]
        exact hne
    · cases ownJitter with
      | none => cases hp
      | some w =>
        refine hself (.inr (.inl ⟨p, hp, ?_⟩))
        rw [hjitter w rfl]
        exact hne
    · exact hself (.inr (.inr hc))

end Resolutions

theorem effectiveOf_effective (cfg : ScheduleConfig) (status : ScheduleStatus) (i : Reconcile) :
    Effective i.spec.cron (effectiveOf cfg status i) i.resolution := by
  unfold effectiveOf
  split
  · exact effective_resolvePinnedSlot
  · exact effective_firstPin

theorem not_asksRepin_of_pins {cfg : ScheduleConfig} {status : ScheduleStatus} {i i' : Reconcile}
    (hpins : (reconcile cfg status i).pins) (hcron : i'.spec.cron = i.spec.cron)
    (hres : i'.resolution = i.resolution) :
    asksRepin cfg (reconcile cfg status i).status i' = false := by
  rcases reconcile_pin cfg status i with ⟨-, hnone⟩ | ⟨slot, hpin⟩
  · exact absurd hpins hnone
  · rw [asksRepin, hpin, hcron, hres]
    exact (effectiveOf_effective cfg status i).again slot

-- Runs

namespace SteadyTiming

variable {cfg : ScheduleConfig} {t : SteadyTiming}

structure Full (engine : CronEngine) (t : SteadyTiming) (eff : EffectiveSchedule) : Prop where
  cron : eff.cron = t.cron
  read : t.read engine = .resolved eff.tz eff.jitter

def Pinned (cfg : ScheduleConfig) (t : SteadyTiming) (status : ScheduleStatus) : Prop :=
  ∃ eff slot, Full cfg.engine t eff ∧ status.pin = some (pinOf cfg eff slot, slot)

theorem exists_full (engine : CronEngine) (t : SteadyTiming) :
    ∃ tz jitter, t.read engine = .resolved tz jitter := by
  unfold read resolveEffectiveSchedule
  split <;> exact ⟨_, _, rfl⟩

theorem unread_cases (engine : CronEngine) (t : SteadyTiming) :
    resolveEffectiveSchedule engine t.own none = t.read engine ∨
      resolveEffectiveSchedule engine t.own none =
        .degraded (t.own.timezone.map fun t => resolveTz engine (some t)) t.own.jitter := by
  obtain ⟨cron, ⟨ownTz, ownJitter⟩, inherited⟩ := t
  cases ownTz with
  | none => exact .inr rfl
  | some tz =>
    cases ownJitter with
    | none => exact .inr rfl
    | some w => exact .inl rfl

theorem Full.held {eff : EffectiveSchedule} (hfull : Full cfg.engine t eff)
    (hparse : cfg.engine.ParsesNames) {resolution : ScheduleResolution}
    (hres : resolution = t.read cfg.engine ∨
      resolution = resolveEffectiveSchedule cfg.engine t.own none) (slot : DateTime) :
    resolvePinnedSlot cfg.engine t.cron (pinOf cfg eff slot).recorded resolution = (eff, false) := by
  obtain ⟨hcron, hread⟩ := hfull
  have hresolved : resolvePinnedSlot cfg.engine t.cron (pinOf cfg eff slot).recorded
      (t.read cfg.engine) = (eff, false) := by
    rw [hread, ← hcron]
    exact Prod.ext rfl (pinNeedsRecompute_self cfg eff slot)
  rcases hres with rfl | rfl
  · exact hresolved
  rcases unread_cases cfg.engine t with heq | heq
  · rw [heq]
    exact hresolved
  · have hown := resolveEffectiveSchedule_resolves cfg.engine t.own (some t.inherited)
    rw [show resolveEffectiveSchedule cfg.engine t.own (some t.inherited) =
      .resolved eff.tz eff.jitter from hread] at hown
    cases hown with
    | resolved hzone hownTz hownJitter =>
      rw [heq]
      refine Prod.ext ?_ ?_
      · obtain ⟨tz, jitter, cron⟩ := eff
        simp only [resolvePinnedSlot, pinOf, EffectiveSchedule.mk.injEq]
        refine ⟨?_, ?_, hcron.symm⟩
        · cases ht : t.own.timezone with
          | none => exact hzone hparse
          | some z => exact (hownTz z ht).symm
        · cases hw : t.own.jitter with
          | none => rfl
          | some w => exact (hownJitter w hw).symm
      · refine Effective.again (.degraded hcron ?_ hownJitter) slot
        intro z hz
        obtain ⟨u, hu, rfl⟩ := Option.map_eq_some_iff.mp hz
        exact hownTz u hu

theorem Pinned.not_asks {status : ScheduleStatus} {i : Reconcile} (h : Pinned cfg t status)
    (hparse : cfg.engine.ParsesNames) (hi : t.Holds cfg.engine i) :
    asksRepin cfg status i = false := by
  obtain ⟨eff, slot, hfull, hpin⟩ := h
  rw [asksRepin, hpin, hi.1]
  change (resolvePinnedSlot cfg.engine t.cron (pinOf cfg eff slot).recorded i.resolution).2 = false
  rw [hfull.held hparse hi.2]

theorem Pinned.reconcile {status : ScheduleStatus} {i : Reconcile} (h : Pinned cfg t status)
    (hparse : cfg.engine.ParsesNames) (hi : t.Holds cfg.engine i) :
    Pinned cfg t (reconcile cfg status i).status := by
  obtain ⟨eff, slot, hfull, hpin⟩ := h
  rcases reconcile_pin cfg status i with ⟨hkept, -⟩ | ⟨slot', hnew⟩
  · exact ⟨eff, slot, hfull, hkept.trans hpin⟩
  · have heff : effectiveOf cfg status i = eff := by
      unfold effectiveOf
      rw [hpin, hi.1]
      change (resolvePinnedSlot cfg.engine t.cron (pinOf cfg eff slot).recorded i.resolution).1 = eff
      rw [hfull.held hparse hi.2]
    rw [heff] at hnew
    exact ⟨eff, slot', hfull, hnew⟩

theorem Pinned.run {s s' : ScheduleState} (h : Pinned cfg t s.status)
    (hparse : cfg.engine.ParsesNames)
    (hrun : Reaches (ScheduleState.step cfg) (fun _ i => t.Holds cfg.engine i) s s') :
    Pinned cfg t s'.status := by
  refine hrun.invariant (fun u => Pinned cfg t u.status) h ?_
  intro u i v hu hi hstep
  unfold ScheduleState.step at hstep
  split at hstep
  · cases hstep
  · cases hstep
    exact hu.reconcile hparse hi

theorem pinned_of_pins {status : ScheduleStatus} {i : Reconcile} (hcron : i.spec.cron = t.cron)
    (hread : i.resolution = t.read cfg.engine) (hpins : (Kopiur.reconcile cfg status i).pins) :
    Pinned cfg t (Kopiur.reconcile cfg status i).status := by
  rcases reconcile_pin cfg status i with ⟨-, hnone⟩ | ⟨slot, hnew⟩
  · exact absurd hpins hnone
  · have heff := effectiveOf_effective cfg status i
    obtain ⟨tz, jitter, hfull⟩ := exists_full cfg.engine t
    refine ⟨effectiveOf cfg status i, slot, ?_, hnew⟩
    generalize effectiveOf cfg status i = eff at heff
    rw [hread, hfull, hcron] at heff
    cases heff with
    | resolved hc => exact ⟨hc, hfull⟩

end SteadyTiming

/-- A pin recorded by a pass that read the referents is never moved while what
they give, the cron expression and the schedule's own values stay; no pass asks
to move what another one with its inputs just pinned; and without the referents
a pin is moved exactly where the schedule itself now sets something else than
the pin recorded, which moves it in any pass. -/
theorem pins_stable (cfg : ScheduleConfig) (hparse : cfg.engine.ParsesNames) :
    (∀ (t : SteadyTiming) (s₀ s s' : ScheduleState) (i₀ i : Reconcile),
      ScheduleState.step cfg s₀ i₀ = some s → (reconcile cfg s₀.status i₀).pins →
      i₀.spec.cron = t.cron → i₀.resolution = t.read cfg.engine →
      Reaches (ScheduleState.step cfg) (fun _ j => t.Holds cfg.engine j) s s' →
      t.Holds cfg.engine i → asksRepin cfg s'.status i = false) ∧
    (∀ (status : ScheduleStatus) (i i' : Reconcile), (reconcile cfg status i).pins →
      i'.spec.cron = i.spec.cron → i'.resolution = i.resolution →
      asksRepin cfg (reconcile cfg status i).status i' = false) ∧
    ∀ (status : ScheduleStatus) (pin : NextSchedule) (slot : DateTime) (i : Reconcile)
      (own : OwnTiming) (read : Option (List ScheduleDefaults)), status.pin = some (pin, slot) →
      i.resolution = resolveEffectiveSchedule cfg.engine own read →
      (Moved cfg.engine pin.recorded i.spec.cron own → asksRepin cfg status i = true) ∧
      (read = none → asksRepin cfg status i = true →
        Moved cfg.engine pin.recorded i.spec.cron own) := by
  refine ⟨?_, ?_, ?_⟩
  · intro t s₀ s s' i₀ i hstep hpins hcron hread hrun hi
    have hpinned : SteadyTiming.Pinned cfg t s.status := by
      unfold ScheduleState.step at hstep
      split at hstep
      · cases hstep
      · cases hstep
        exact SteadyTiming.pinned_of_pins hcron hread hpins
    exact (hpinned.run hparse hrun).not_asks hparse hi
  · intro status i i' hpins hcron hres
    exact not_asksRepin_of_pins hpins hcron hres
  · intro status pin slot i own read hpin hres
    have hasks : asksRepin cfg status i =
        (resolvePinnedSlot cfg.engine i.spec.cron pin.recorded i.resolution).2 := by
      simp [asksRepin, hpin]
    rw [hasks, hres]
    refine ⟨resolvePinnedSlot_of_moved (resolveEffectiveSchedule_resolves _ _ _), ?_⟩
    rintro rfl h
    exact moved_of_unread h

theorem hourly_parsesNames : hourly.ParsesNames where
  parsed := by
    intro name tz h
    simp only [hourly] at h ⊢
    split at h
    · next hname =>
      cases h
      exact if_pos hname
    · cases h
  utc := rfl

def inheriting : SteadyTiming where
  cron := "0 * * * *"
  own := {}
  inherited := [{ timezone := some "UTC" }]

def inheritingReconcile (second : Int) (read : Option (List ScheduleDefaults)) : Reconcile :=
  { hourlyReconcile second false true with
    resolution := resolveEffectiveSchedule hourly {} read }

/-- The pin is recorded in one pass, its slot fired in one that cannot read the
referents, and kept in one that can. -/
theorem pins_stable_inheriting :
    ∃ s, runSteps (ScheduleState.step hourlySchedule) (fun _ _ => True)
        (ScheduleState.init hourlySchedule)
        [inheritingReconcile 10 (some inheriting.inherited), inheritingReconcile 3700 none] =
        some s ∧ s.attempts.length = 1 ∧
      asksRepin hourlySchedule s.status (inheritingReconcile 3800 (some inheriting.inherited)) =
        false := by
  have hpinned : (reconcile hourlySchedule {}
      (inheritingReconcile 10 (some inheriting.inherited))).ending = .pinned := by decide
  refine exists_runSteps_imp (P := fun s => s.attempts.length = 1) (by decide)
    fun s hs hfired => ⟨hfired, ?_⟩
  simp only [runSteps, if_true] at hs
  obtain ⟨s₁, hfirst, hs⟩ := Option.bind_eq_some_iff.mp hs
  obtain ⟨s₂, hsecond, hs⟩ := Option.bind_eq_some_iff.mp hs
  cases hs
  exact (pins_stable hourlySchedule hourly_parsesNames).1 inheriting _ s₁ s _ _ hfirst
    (.inl hpinned) rfl rfl (.tail .refl ⟨rfl, .inr rfl⟩ hsecond) ⟨rfl, .inl rfl⟩

def windowAdded (window : Option String) (second : Int) : Reconcile :=
  { hourlyReconcile second false true with
    resolution := resolveEffectiveSchedule hourly { timezone := some "UTC", jitter := window }
      (some []) }

/-- A window the schedule adds does not move a pin that recorded none. -/
theorem window_added_keeps_pin :
    (reconcile hourlySchedule {} (windowAdded none 10)).ending = .pinned ∧
      asksRepin hourlySchedule (reconcile hourlySchedule {} (windowAdded none 10)).status
        (windowAdded (some "30m") 20) = false ∧
      jitterWindow (some "30m") ≠ jitterWindow none := by
  decide

end Kopiur
