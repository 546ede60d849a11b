import Kopiur.Controller.Firing
import Kopiur.Controller.Schedule
import Kopiur.Lib.Runs

/-!
# Runs of a schedule

Reconciles of one schedule, one after the other, each from the status the last
one stored. Every read, child creation and status write can fail, and the
schedule can be edited in between. Slots are fired in increasing order, and a
slot is fired again only until its firing is recorded.
-/

namespace Kopiur

open Lib

-- One reconcile

structure NextSchedule where
  slot : Option DateTime
  recorded : PinnedSlot := {}
deriving DecidableEq

structure LastSchedule where
  slot : DateTime
  snapshotRef : Option String
deriving DecidableEq

structure ScheduleStatus where
  lastSchedule : Option LastSchedule := none
  nextSchedule : Option NextSchedule := none
deriving DecidableEq

def ScheduleStatus.pinnedSlot (status : ScheduleStatus) : Option DateTime :=
  status.nextSchedule.bind NextSchedule.slot

/-- The stored schedule, apart from what may be edited. -/
structure ScheduleConfig where
  engine : CronEngine
  name : String
  ns : String
  seed : String
  -- Seconds of the creation timestamp.
  created : Int
  -- Whether the served schema keeps the cron expression of a pin.
  keepsCron : Bool

/-- What one reconcile reads, and which of its writes go through. `none` is a
read that failed. -/
structure Reconcile where
  now : DateTime
  spec : ScheduleSpec
  specError : Option String := none
  -- Set for the form that names its policy by reference.
  policyRef : Option PolicyRef := none
  children : Option (List Snapshot)
  resolution : ScheduleResolution
  targets : Option (List PolicyRef)
  rows : Option (List Snapshot)
  victimsDeleted : Bool
  policies : Option (List (Option (SnapshotPolicy × (Nat → List PvcTargetRef))))
  creations : Nat
  patched : Bool

/-- One call of the fire loop. -/
structure FireAttempt where
  slot : DateTime
  now : DateTime
  deadline : Option Int
  onCreate : Bool
  firings : List Firing
  -- The children created before the first failure, if any.
  names : List String
  recorded : Bool

inductive PassEnd
  | failed (e : ReconcileError)
  | waiting
  | pinned
  | fired
deriving DecidableEq

structure Pass where
  status : ScheduleStatus
  attempt : Option FireAttempt := none
  ending : PassEnd

/-- Create the children of each target in turn. The result says whether the
children go by other names than the bare slot name. -/
def fireForTargets : List (Option Firing) → Nat → List String × Except ReconcileError Bool
  | [], _ => ([], .ok false)
  | none :: _, _ => ([], .error .kube)
  | some f :: rest, budget =>
    match f.plan with
    | .error e => ([], .error (.validation e.display))
    | .ok (.mint cells) =>
      let names := cells.map MintCell.name
      if names.length ≤ budget then
        let (more, fanned) := fireForTargets rest (budget - names.length)
        (names ++ more, fanned.map fun b => b || decide (names ≠ [f.baseName]))
      else (names.take budget, .error .kube)
    | .ok .nothingMatched | .ok (.capSkipped _) =>
      let (more, fanned) := fireForTargets rest budget
      (more, fanned.map fun _ => true)

section Reconciler

variable (cfg : ScheduleConfig)

def ScheduleConfig.anchor : DateTime := wholeSecond (DateTime.fromTimestamp cfg.created)

def pinOf (eff : EffectiveSchedule) (slot : DateTime) : NextSchedule where
  slot := some slot
  recorded :=
    { timezone := some eff.tz
      jitter := eff.jitter
      cron := if cfg.keepsCron then some eff.cron else none }

def nextSlot (i : Reconcile) (eff : EffectiveSchedule) : Except ReconcileError DateTime :=
  nextFire cfg.engine i.spec.cron eff.window cfg.seed i.now eff.tz

/-- Pin the next slot without firing. -/
def repin (status : ScheduleStatus) (i : Reconcile) (eff : EffectiveSchedule) : Pass :=
  match nextSlot cfg i eff with
  | .error e => { status, ending := .failed e }
  | .ok next =>
    if i.patched then
      { status := { status with nextSchedule := some (pinOf cfg eff next) }
        ending := .pinned }
    else { status, ending := .failed .kube }

/-- The targets of a slot. -/
def slotFirings (i : Reconcile) (slot : DateTime)
    (policies : List (Option (SnapshotPolicy × (Nat → List PvcTargetRef)))) :
    List (Option Firing) :=
  policies.map fun read => read.map fun p =>
    { schedule := cfg.name
      single := i.policyRef.isSome
      policy := p.1
      slot
      matched := p.2 }

/-- Fire a slot, then record it together with the next pin. -/
def fireSlot (status : ScheduleStatus) (i : Reconcile) (eff : EffectiveSchedule)
    (slot : DateTime) (onCreate : Bool) : Pass :=
  match i.policies with
  | none => { status, ending := .failed .kube }
  | some policies =>
    let firings := slotFirings cfg i slot policies
    let (names, outcome) := fireForTargets firings i.creations
    let attempt : FireAttempt :=
      { slot
        now := i.now
        deadline := i.spec.startingDeadlineSeconds
        onCreate
        firings := firings.filterMap id
        names
        recorded := false }
    match outcome with
    | .error e => { status, attempt := some attempt, ending := .failed e }
    | .ok fannedOut =>
      match nextSlot cfg i eff with
      | .error e => { status, attempt := some attempt, ending := .failed e }
      | .ok next =>
        if i.patched then
          { status :=
              { lastSchedule := some
                  { slot
                    snapshotRef :=
                      if i.policyRef.isSome ∧ fannedOut = false then
                        some (scheduledBackupName cfg.name slot)
                      else none }
                nextSchedule := some (pinOf cfg eff next) }
            attempt := some { attempt with recorded := true }
            ending := .fired }
        else { status, attempt := some attempt, ending := .failed .kube }

/-- The run of somebody else that holds a slot about to fire. -/
def otherRun (i : Reconcile) (own : Option (List Snapshot)) (disposition : SlotDisposition) :
    Except ReconcileError (Option String) :=
  if needsOtherRunCheck i.spec.concurrencyPolicy disposition then
    match own, i.targets, i.rows with
    | some own, some targets, some rows =>
      .ok (firstForeignRun (slotBlockers rows own cfg.ns targets))
    | _, _, _ => .error .kube
  else .ok none

def reconcilePinned (status : ScheduleStatus) (i : Reconcile) (pin : NextSchedule)
    (slot : DateTime) : Pass :=
  let (eff, needsRecompute) :=
    resolvePinnedSlot cfg.engine i.spec.cron pin.recorded i.resolution
  if needsRecompute then repin cfg status i eff
  else
    match i.children with
    | none => { status, ending := .failed .kube }
    | some items =>
      let runs := classifyActiveRuns items
      let due := slotDisposition i.spec slot i.now runs.active
      match otherRun cfg i (some items) due with
      | .error e => { status, ending := .failed e }
      | .ok other =>
        let due := if other.isSome then .wait else due
        let replace :=
          if i.spec.concurrencyPolicy = .replace ∧ due = .fire ∧ runs.active = true then
            replacePlan items slot
          else .clear
        match due, replace with
        | .skipExpired, _ => repin cfg status i eff
        | .wait, _ | .fire, .blockedUnreadable _ | .fire, .heldByParkedRun _ =>
          -- Only conditions are written.
          { status, ending := .waiting }
        | .fire, .delete _ =>
          if i.victimsDeleted then fireSlot cfg status i eff slot false
          else { status, ending := .failed .kube }
        | .fire, .clear => fireSlot cfg status i eff slot false

def reconcileFirst (status : ScheduleStatus) (i : Reconcile) : Pass :=
  let eff := firstPin i.spec.cron i.resolution
  match nextSlot cfg i eff with
  | .error e => { status, ending := .failed e }
  | .ok _ =>
    if shouldRunOnCreate i.spec status.lastSchedule.isSome then
      match otherRun cfg i i.children .fire with
      | .error e => { status, ending := .failed e }
      | .ok (some _) => { status, ending := .waiting }
      | .ok none => fireSlot cfg status i eff cfg.anchor true
    else repin cfg status i eff

def reconcile (status : ScheduleStatus) (i : Reconcile) : Pass :=
  match i.specError with
  | some e => { status, ending := .failed (.validation e) }
  | none =>
    match status.nextSchedule with
    | none => reconcileFirst cfg status i
    | some pin =>
      match pin.slot with
      | none => reconcileFirst cfg status i
      | some slot => reconcilePinned cfg status i pin slot

end Reconciler

-- What one reconcile can do

theorem mem_names_of_fireForTargets {firings : List (Option Firing)} {budget : Nat} {n : String}
    (h : n ∈ (fireForTargets firings budget).1) : ∃ f, some f ∈ firings ∧ n ∈ f.names := by
  induction firings generalizing budget with
  | nil => simp [fireForTargets] at h
  | cons target rest ih =>
    have hrest : ∀ {b : Nat}, n ∈ (fireForTargets rest b).1 →
        ∃ f, some f ∈ target :: rest ∧ n ∈ f.names := by
      intro b hb
      obtain ⟨f, hf, hn⟩ := ih hb
      exact ⟨f, List.mem_cons_of_mem _ hf, hn⟩
    cases target with
    | none => simp [fireForTargets] at h
    | some f =>
      simp only [fireForTargets] at h
      split at h
      case h_1 => simp at h
      case h_2 cells hplan =>
        have hf : ∀ m ∈ cells.map MintCell.name, m ∈ f.names := by
          intro m hm
          simpa [Firing.names, hplan] using hm
        split at h
        case isTrue =>
          rcases List.mem_append.mp h with hm | hm
          · exact ⟨f, List.mem_cons_self, hf n hm⟩
          · exact hrest hm
        case isFalse => exact ⟨f, List.mem_cons_self, hf n (List.mem_of_mem_take h)⟩
      case h_3 => exact hrest h
      case h_4 => exact hrest h

/-- A fire attempt as a reconcile may make it: of the pinned slot, due and not
past its deadline, or of the creation time while nothing is pinned. -/
structure FireAttempt.Due (cfg : ScheduleConfig) (status : ScheduleStatus) (i : Reconcile)
    (a : FireAttempt) : Prop where
  now : a.now = i.now
  firings : ∀ f ∈ a.firings, f.schedule = cfg.name ∧ f.slot = a.slot
  names : ∀ n ∈ a.names, ∃ f ∈ a.firings, n ∈ f.names
  slot : (a.onCreate = false ∧ status.pinnedSlot = some a.slot ∧ a.slot ≤ i.now ∧
      missedDeadline a.slot a.now a.deadline = false) ∨
    (a.onCreate = true ∧ status.pinnedSlot = none ∧ a.slot = cfg.anchor)

inductive PassCases (cfg : ScheduleConfig) (status : ScheduleStatus) (i : Reconcile) : Pass → Prop
  | kept {e : PassEnd} (hend : e ≠ .pinned ∧ e ≠ .fired) : PassCases cfg status i ⟨status, none, e⟩
  | repinned {recorded : PinnedSlot} {next : DateTime} (hnext : i.now < next) :
    PassCases cfg status i
      ⟨{ status with nextSchedule := some ⟨some next, recorded⟩ }, none, .pinned⟩
  | attempted {a : FireAttempt} {e : ReconcileError} (hdue : a.Due cfg status i)
    (hrec : a.recorded = false) : PassCases cfg status i ⟨status, some a, .failed e⟩
  | fired {a : FireAttempt} {last : LastSchedule} {recorded : PinnedSlot} {next : DateTime}
    (hdue : a.Due cfg status i) (hnext : i.now < next) :
    PassCases cfg status i ⟨⟨some last, some ⟨some next, recorded⟩⟩, some a, .fired⟩

section Cases

variable {cfg : ScheduleConfig} (hcron : cfg.engine.Exclusive) {status : ScheduleStatus}
  {i : Reconcile}

include hcron

theorem repin_cases (eff : EffectiveSchedule) : PassCases cfg status i (repin cfg status i eff) := by
  simp only [repin]
  split
  case h_1 => exact .kept (by simp)
  case h_2 next hnext =>
    split
    case isTrue => exact .repinned (nextFire_gt hcron hnext)
    case isFalse => exact .kept (by simp)

theorem fireSlot_cases (eff : EffectiveSchedule) {slot : DateTime} {onCreate : Bool}
    (hslot : (onCreate = false ∧ status.pinnedSlot = some slot ∧ slot ≤ i.now ∧
        missedDeadline slot i.now i.spec.startingDeadlineSeconds = false) ∨
      (onCreate = true ∧ status.pinnedSlot = none ∧ slot = cfg.anchor)) :
    PassCases cfg status i (fireSlot cfg status i eff slot onCreate) := by
  simp only [fireSlot]
  split
  case h_1 => exact .kept (by simp)
  case h_2 policies _ =>
    have hdue : ∀ recorded : Bool, FireAttempt.Due cfg status i
        { slot, now := i.now, deadline := i.spec.startingDeadlineSeconds, onCreate,
          firings := (slotFirings cfg i slot policies).filterMap id,
          names := (fireForTargets (slotFirings cfg i slot policies) i.creations).1,
          recorded } := by
      intro recorded
      refine ⟨rfl, fun f hf => ?_, fun n hn => ?_, hslot⟩
      · obtain ⟨_, hmem, rfl⟩ := List.mem_filterMap.mp hf
        obtain ⟨read, -, hread⟩ := List.mem_map.mp hmem
        obtain ⟨p, -, rfl⟩ := Option.map_eq_some_iff.mp hread
        exact ⟨rfl, rfl⟩
      · obtain ⟨f, hf, hn⟩ := mem_names_of_fireForTargets hn
        exact ⟨f, List.mem_filterMap.mpr ⟨some f, hf, rfl⟩, hn⟩
    split
    case h_1 => exact .attempted (hdue false) rfl
    case h_2 =>
      split
      case h_1 => exact .attempted (hdue false) rfl
      case h_2 next hnext =>
        split
        case isTrue => exact .fired (hdue true) (nextFire_gt hcron hnext)
        case isFalse => exact .attempted (hdue false) rfl

theorem reconcilePinned_cases {pin : NextSchedule} {slot : DateTime}
    (hpinned : status.pinnedSlot = some slot) :
    PassCases cfg status i (reconcilePinned cfg status i pin slot) := by
  simp only [reconcilePinned]
  split
  case isTrue => exact repin_cases hcron _
  case isFalse =>
    split
    case h_1 => exact .kept (by simp)
    case h_2 items _ =>
      split
      case h_1 => exact .kept (by simp)
      case h_2 other _ =>
        -- The slot is fired only as its disposition says, held or not.
        have hfire : ∀ eff, (if other.isSome then SlotDisposition.wait else
            slotDisposition i.spec slot i.now (classifyActiveRuns items).active) = .fire →
            PassCases cfg status i (fireSlot cfg status i eff slot false) := by
          intro eff hdue
          split at hdue
          case isTrue => cases hdue
          case isFalse =>
            obtain ⟨-, hle, hmissed⟩ := slotDisposition_fire hdue
            exact fireSlot_cases hcron eff (.inl ⟨rfl, hpinned, hle, hmissed⟩)
        split
        case h_1 => exact repin_cases hcron _
        case h_2 => exact .kept (by simp)
        case h_3 => exact .kept (by simp)
        case h_4 => exact .kept (by simp)
        case h_5 hdue _ =>
          split
          case isTrue => exact hfire _ hdue
          case isFalse => exact .kept (by simp)
        case h_6 hdue _ => exact hfire _ hdue

theorem reconcile_cases : PassCases cfg status i (reconcile cfg status i) := by
  have hfirst : status.pinnedSlot = none →
      PassCases cfg status i (reconcileFirst cfg status i) := by
    intro hnone
    simp only [reconcileFirst]
    split
    case h_1 => exact .kept (by simp)
    case h_2 =>
      split
      case isFalse => exact repin_cases hcron _
      case isTrue =>
        split
        case h_1 => exact .kept (by simp)
        case h_2 => exact .kept (by simp)
        case h_3 => exact fireSlot_cases hcron _ (.inr ⟨rfl, hnone, rfl⟩)
  simp only [reconcile]
  split
  case h_1 => exact .kept (by simp)
  case h_2 =>
    split
    case h_1 hnext => exact hfirst (by simp [ScheduleStatus.pinnedSlot, hnext])
    case h_2 pin hnext =>
      split
      case h_1 hslot => exact hfirst (by simp [ScheduleStatus.pinnedSlot, hnext, hslot])
      case h_2 slot hslot =>
        have hpinned : status.pinnedSlot = some slot := by
          simp [ScheduleStatus.pinnedSlot, hnext, hslot]
        exact reconcilePinned_cases hcron hpinned

end Cases

-- Runs

/-- The stored status, the clock of the last reconcile, and what was done. -/
structure ScheduleState where
  status : ScheduleStatus
  clock : DateTime
  attempts : List FireAttempt
  -- Each pin with the instant it was computed from.
  pins : List (DateTime × DateTime)

namespace ScheduleState

def init (cfg : ScheduleConfig) : ScheduleState where
  status := {}
  clock := DateTime.fromTimestamp cfg.created
  attempts := []
  pins := []

def newPins (i : Reconcile) (pass : Pass) : List (DateTime × DateTime) :=
  if pass.ending = .pinned ∨ pass.ending = .fired then
    pass.status.pinnedSlot.toList.map (i.now, ·)
  else []

theorem newPins_of_pin {i : Reconcile} {pass : Pass} {next : DateTime}
    (hend : pass.ending = .pinned ∨ pass.ending = .fired)
    (hslot : pass.status.pinnedSlot = some next) : newPins i pass = [(i.now, next)] := by
  simp [newPins, hend, hslot]

theorem newPins_of_kept {i : Reconcile} {pass : Pass}
    (hend : pass.ending ≠ .pinned ∧ pass.ending ≠ .fired) : newPins i pass = [] := by
  simp [newPins, hend.1, hend.2]

/-- The clock never goes back. -/
def step (cfg : ScheduleConfig) (s : ScheduleState) (i : Reconcile) : Option ScheduleState :=
  if i.now < s.clock then none
  else
    let pass := reconcile cfg s.status i
    some
      { status := pass.status
        clock := i.now
        attempts := s.attempts ++ pass.attempt.toList
        pins := s.pins ++ newPins i pass }

end ScheduleState

def FireAttempt.Before (a b : FireAttempt) : Prop :=
  a.slot < b.slot ∨ a.slot = b.slot ∧ a.recorded = false

def FireAttempt.Behind (cfg : ScheduleConfig) (status : ScheduleStatus) (a : FireAttempt) : Prop :=
  match status.pinnedSlot with
  | some slot => a.slot < slot ∨ a.slot = slot ∧ a.recorded = false
  | none => a.slot = cfg.anchor ∧ a.recorded = false

structure ScheduleInv (cfg : ScheduleConfig) (s : ScheduleState) : Prop where
  created : cfg.anchor ≤ s.clock
  pins : ∀ p ∈ s.pins, p.1 < p.2
  ordered : s.attempts.Pairwise FireAttempt.Before
  behind : ∀ a ∈ s.attempts, a.slot ≤ s.clock ∧ a.Behind cfg s.status
  firings : ∀ a ∈ s.attempts, ∀ f ∈ a.firings, f.schedule = cfg.name ∧ f.slot = a.slot
  names : ∀ a ∈ s.attempts, ∀ n ∈ a.names, ∃ f ∈ a.firings, n ∈ f.names
  deadline : ∀ a ∈ s.attempts, a.onCreate = false →
    missedDeadline a.slot a.now a.deadline = false

theorem anchor_eq (cfg : ScheduleConfig) : cfg.anchor = DateTime.fromTimestamp cfg.created := by
  simp only [ScheduleConfig.anchor, wholeSecond, asSecond, DateTime.fromTimestamp]
  rw [Int.mul_tdiv_cancel _ (by decide)]

theorem FireAttempt.Due.slot_le {cfg : ScheduleConfig} {status : ScheduleStatus} {i : Reconcile}
    {a : FireAttempt} (h : a.Due cfg status i) (hnow : cfg.anchor ≤ i.now) : a.slot ≤ i.now := by
  rcases h.slot with ⟨-, -, hle, -⟩ | ⟨-, -, heq⟩
  · exact hle
  · exact heq ▸ hnow

theorem FireAttempt.Behind.before {cfg : ScheduleConfig} {status : ScheduleStatus} {i : Reconcile}
    {a b : FireAttempt} (ha : a.Behind cfg status) (hb : b.Due cfg status i) : a.Before b := by
  rcases hb.slot with ⟨-, hpin, -⟩ | ⟨-, hpin, hslot⟩
  · simpa [Behind, hpin, Before] using ha
  · simp only [Behind, hpin] at ha
    exact .inr ⟨ha.1.trans hslot.symm, ha.2⟩

namespace ScheduleInv

variable {cfg : ScheduleConfig} {s : ScheduleState} {i : Reconcile}

theorem init (cfg : ScheduleConfig) : ScheduleInv cfg (ScheduleState.init cfg) where
  created := (anchor_eq cfg).le
  pins := by simp [ScheduleState.init]
  ordered := by simp [ScheduleState.init]
  behind := by simp [ScheduleState.init]
  firings := by simp [ScheduleState.init]
  names := by simp [ScheduleState.init]
  deadline := by simp [ScheduleState.init]

theorem quiet (h : ScheduleInv cfg s) (hclock : s.clock ≤ i.now) {status : ScheduleStatus}
    {pins : List (DateTime × DateTime)} (hpins : ∀ p ∈ pins, p.1 < p.2)
    (hbehind : ∀ a ∈ s.attempts, a.Behind cfg status) :
    ScheduleInv cfg ⟨status, i.now, s.attempts, pins⟩ where
  created := le_trans h.created hclock
  pins := hpins
  ordered := h.ordered
  behind := fun a ha => ⟨le_trans (h.behind a ha).1 hclock, hbehind a ha⟩
  firings := h.firings
  names := h.names
  deadline := h.deadline

theorem fire (h : ScheduleInv cfg s) (hclock : s.clock ≤ i.now) {a : FireAttempt}
    (hdue : a.Due cfg s.status i) {status : ScheduleStatus} {pins : List (DateTime × DateTime)}
    (hpins : ∀ p ∈ pins, p.1 < p.2) (hbehind : ∀ b ∈ s.attempts ++ [a], b.Behind cfg status) :
    ScheduleInv cfg ⟨status, i.now, s.attempts ++ [a], pins⟩ where
  created := le_trans h.created hclock
  pins := hpins
  ordered := by
    refine List.pairwise_append.mpr ⟨h.ordered, by simp, fun b hb c hc => ?_⟩
    rw [List.mem_singleton.mp hc]
    exact (h.behind b hb).2.before hdue
  behind := by
    intro b hb
    refine ⟨?_, hbehind b hb⟩
    rcases List.mem_append.mp hb with hb | hb
    · exact le_trans (h.behind b hb).1 hclock
    · exact List.mem_singleton.mp hb ▸ hdue.slot_le (le_trans h.created hclock)
  firings := by
    intro b hb
    rcases List.mem_append.mp hb with hb | hb
    · exact h.firings b hb
    · exact List.mem_singleton.mp hb ▸ hdue.firings
  names := by
    intro b hb
    rcases List.mem_append.mp hb with hb | hb
    · exact h.names b hb
    · exact List.mem_singleton.mp hb ▸ hdue.names
  deadline := by
    intro b hb hpinned
    rcases List.mem_append.mp hb with hb | hb
    · exact h.deadline b hb hpinned
    · rw [List.mem_singleton.mp hb] at hpinned ⊢
      rcases hdue.slot with ⟨-, -, -, hmissed⟩ | ⟨hcreate, -, -⟩
      · exact hmissed
      · simp [hcreate] at hpinned

theorem step (hcron : cfg.engine.Exclusive) (h : ScheduleInv cfg s) {s' : ScheduleState}
    (hstep : s.step cfg i = some s') : ScheduleInv cfg s' := by
  simp only [ScheduleState.step] at hstep
  split at hstep
  case isTrue => cases hstep
  case isFalse hnow =>
    have hclock : s.clock ≤ i.now := not_lt.mp hnow
    have hpinsNew : ∀ {next : DateTime}, i.now < next →
        ∀ p ∈ s.pins ++ [(i.now, next)], p.1 < p.2 := by
      intro next hnext p hp
      rcases List.mem_append.mp hp with hp | hp
      · exact h.pins p hp
      · rw [List.mem_singleton.mp hp]
        exact hnext
    cases hstep
    generalize hpass : reconcile cfg s.status i = pass
    have hcases : PassCases cfg s.status i pass := hpass ▸ reconcile_cases hcron
    cases hcases with
    | kept hend =>
      rw [ScheduleState.newPins_of_kept hend, List.append_nil, Option.toList_none, List.append_nil]
      exact h.quiet hclock h.pins fun a ha => (h.behind a ha).2
    | repinned hnext =>
      rw [ScheduleState.newPins_of_pin (.inl rfl) rfl, Option.toList_none, List.append_nil]
      refine h.quiet hclock (hpinsNew hnext) fun a ha => ?_
      exact .inl (lt_of_le_of_lt (le_trans (h.behind a ha).1 hclock) hnext)
    | @attempted a e hdue hrec =>
      rw [ScheduleState.newPins_of_kept (by simp), List.append_nil]
      refine h.fire hclock hdue h.pins fun b hb => ?_
      rcases List.mem_append.mp hb with hb | hb
      · exact (h.behind b hb).2
      · rw [List.mem_singleton.mp hb]
        rcases hdue.slot with ⟨-, hpin, -⟩ | ⟨-, hpin, hslot⟩
        · simp [FireAttempt.Behind, hpin, hrec]
        · simp [FireAttempt.Behind, hpin, hslot, hrec]
    | @fired a last recorded next hdue hnext =>
      rw [ScheduleState.newPins_of_pin (.inr rfl) rfl]
      refine h.fire hclock hdue (hpinsNew hnext) fun b hb => .inl ?_
      rcases List.mem_append.mp hb with hb | hb
      · exact lt_of_le_of_lt (le_trans (h.behind b hb).1 hclock) hnext
      · rw [List.mem_singleton.mp hb]
        exact lt_of_le_of_lt (hdue.slot_le (le_trans h.created hclock)) hnext

end ScheduleInv

-- Slots past their deadline

/-- The pinned slot is due and past its deadline, and the schedule is not
suspended. -/
def expiredPin (status : ScheduleStatus) (i : Reconcile) : Prop :=
  i.spec.suspend = false ∧ ∃ slot, status.pinnedSlot = some slot ∧ slot ≤ i.now ∧
    missedDeadline slot i.now i.spec.startingDeadlineSeconds = true

def canRepin (cfg : ScheduleConfig) (status : ScheduleStatus) (i : Reconcile) : Prop :=
  i.specError = none ∧ i.children.isSome = true ∧ i.patched = true ∧
    ∀ pin ∈ status.nextSchedule, ∃ next, nextSlot cfg i
      (resolvePinnedSlot cfg.engine i.spec.cron pin.recorded i.resolution).1 = .ok next

theorem reconcilePinned_expired {cfg : ScheduleConfig} {status : ScheduleStatus} {i : Reconcile}
    {pin : NextSchedule} {slot : DateTime} (hsuspend : i.spec.suspend = false)
    (hdue : slot ≤ i.now)
    (hmissed : missedDeadline slot i.now i.spec.startingDeadlineSeconds = true) :
    reconcilePinned cfg status i pin slot =
        repin cfg status i (resolvePinnedSlot cfg.engine i.spec.cron pin.recorded i.resolution).1 ∨
      i.children = none ∧ (reconcilePinned cfg status i pin slot).attempt = none := by
  have hother : ∀ own, otherRun cfg i own .skipExpired = .ok none := by
    intro own
    cases hp : i.spec.concurrencyPolicy <;> simp [otherRun, needsOtherRunCheck, hp]
  simp only [reconcilePinned]
  split
  case isTrue => exact .inl rfl
  case isFalse =>
    cases hchildren : i.children with
    | none => exact .inr ⟨rfl, rfl⟩
    | some items => simp [slotDisposition_expired hsuspend hdue hmissed, hother]

theorem reconcile_expired {cfg : ScheduleConfig} (hcron : cfg.engine.Exclusive)
    {status : ScheduleStatus} {i : Reconcile} (h : expiredPin status i) :
    (reconcile cfg status i).attempt = none ∧
      (canRepin cfg status i →
        ∃ next, (reconcile cfg status i).status.pinnedSlot = some next ∧ i.now < next) := by
  obtain ⟨hsuspend, slot, hpinned, hdue, hmissed⟩ := h
  obtain ⟨pin, hpin, hslot⟩ := Option.bind_eq_some_iff.mp hpinned
  -- Both the recompute and the expiry pin the next slot.
  have hrepin : ∀ eff, (repin cfg status i eff).attempt = none ∧
      ((∃ next, nextSlot cfg i eff = .ok next) → i.patched = true →
        ∃ next, (repin cfg status i eff).status.pinnedSlot = some next ∧ i.now < next) := by
    intro eff
    refine ⟨?_, fun ⟨next, hnext⟩ hpatched => ⟨next, ?_, nextFire_gt hcron hnext⟩⟩
    · simp only [repin]
      split
      case h_1 => rfl
      case h_2 => split <;> rfl
    · simp [repin, hnext, hpatched, ScheduleStatus.pinnedSlot, pinOf]
  cases hspec : i.specError with
  | some e => exact ⟨by simp [reconcile, hspec], fun hcan => by simp [canRepin, hspec] at hcan⟩
  | none =>
    have heq : reconcile cfg status i = reconcilePinned cfg status i pin slot := by
      simp [reconcile, hspec, hpin, hslot]
    rw [heq]
    have hexpired := @reconcilePinned_expired cfg status i pin slot hsuspend hdue hmissed
    rcases hexpired with hsame | ⟨hchildren, hnone⟩
    · rw [hsame]
      obtain ⟨hattempt, hpinNew⟩ := hrepin
        (resolvePinnedSlot cfg.engine i.spec.cron pin.recorded i.resolution).1
      exact ⟨hattempt, fun ⟨_, _, hpatched, hnext⟩ => hpinNew (hnext pin hpin) hpatched⟩
    · exact ⟨hnone, fun ⟨_, hsome, _⟩ => by simp [hchildren] at hsome⟩

theorem reconcilePinned_suspended {cfg : ScheduleConfig} {status : ScheduleStatus} {i : Reconcile}
    {pin : NextSchedule} {slot : DateTime} (hsuspend : i.spec.suspend = true)
    (hsame : (resolvePinnedSlot cfg.engine i.spec.cron pin.recorded i.resolution).2 = false) :
    (reconcilePinned cfg status i pin slot).status = status := by
  have hother : ∀ own, otherRun cfg i own .wait = .ok none := by
    intro own
    cases hp : i.spec.concurrencyPolicy <;> simp [otherRun, needsOtherRunCheck, hp]
  have hwait : ∀ active, slotDisposition i.spec slot i.now active = .wait := by
    simp [slotDisposition, hsuspend]
  simp only [reconcilePinned, hsame, Bool.false_eq_true, if_false]
  cases hchildren : i.children with
  | none => rfl
  | some items => simp [hwait, hother]

/-- Over every run of reconciles, with any edits of the schedule and any
failing reads and writes: every pin lies strictly after the instant it was
computed from; the slots fired increase, and a slot is fired again only until
its firing is recorded; two attempts at a slot give the child of a policy, PVC
and repository the same name; and a pinned slot past its deadline is never
fired, and is replaced by a future pin by the first reconcile of the schedule,
unless suspended, whose reads and status write succeed. -/
theorem schedule_fires_in_order (cfg : ScheduleConfig) (hcron : cfg.engine.Exclusive)
    (s : ScheduleState)
    (hrun : Reaches (ScheduleState.step cfg) (fun _ _ => True) (ScheduleState.init cfg) s) :
    (∀ p ∈ s.pins, p.1 < p.2) ∧
    (s.attempts.Pairwise fun a b => a.slot < b.slot ∨ a.slot = b.slot ∧ a.recorded = false) ∧
    (∀ a ∈ s.attempts, (∀ n ∈ a.names, ∃ f ∈ a.firings, n ∈ f.names) ∧
      ∀ b ∈ s.attempts, a.slot = b.slot → ∀ f ∈ a.firings, ∀ g ∈ b.firings,
        f.single = g.single → f.policy.nameAny = g.policy.nameAny → f.policy.ns = g.policy.ns →
          ∀ pvc repo, f.childName pvc repo = g.childName pvc repo) ∧
    (∀ a ∈ s.attempts, a.onCreate = false → missedDeadline a.slot a.now a.deadline = false) ∧
    ∀ i, expiredPin s.status i →
      (reconcile cfg s.status i).attempt = none ∧
      (canRepin cfg s.status i →
        ∃ next, (reconcile cfg s.status i).status.pinnedSlot = some next ∧ i.now < next) := by
  have hinv := hrun.invariant (ScheduleInv cfg) (ScheduleInv.init cfg)
    fun _ _ _ hinv _ hstep => hinv.step hcron hstep
  refine ⟨hinv.pins, hinv.ordered, fun a ha => ⟨hinv.names a ha, ?_⟩, hinv.deadline,
    fun i => reconcile_expired hcron⟩
  intro b hb hslot f hf g hg hsingle hname hns pvc repo
  obtain ⟨hfname, hfslot⟩ := hinv.firings a ha f hf
  obtain ⟨hgname, hgslot⟩ := hinv.firings b hb g hg
  have hbase : f.baseName = g.baseName := by
    simp only [Firing.baseName, hsingle, hfname, hgname, hfslot, hgslot, hslot, hname]
  simp only [Firing.childName, hbase, hns]

def hourly : CronEngine where
  Cron := Unit
  parse := fun expr => if expr = "0 * * * *" then .ok () else .error "not hourly"
  findNextOccurrence := fun _ after _ => .ok ((after / 3600000000000 + 1) * 3600000000000)
  parseTz := fun name => if name = "UTC" then some name else none

theorem hourly_exclusive : hourly.Exclusive := by
  intro cron after tz slot h
  cases h
  exact Int.lt_ediv_add_one_mul_self after (by decide)

def hourlySchedule : ScheduleConfig where
  engine := hourly
  name := "nightly"
  ns := "apps"
  seed := "uid"
  created := 0
  keepsCron := true

/-- A reconcile at a second of the clock that reads everything. -/
def hourlyReconcile (second : Int) (suspend patched : Bool) : Reconcile where
  now := DateTime.fromTimestamp second
  spec :=
    { cron := "0 * * * *"
      suspend
      startingDeadlineSeconds := some 600 }
  policyRef := some { name := "db" }
  children := some []
  resolution := .resolved "UTC" none
  targets := some [{ name := "db" }]
  rows := some []
  victimsDeleted := true
  policies := some
    [some ({
      metadata := { name := some "db" }
      spec := { sources := [{ pvc := some ⟨"data"⟩ }] } }, fun _ => [])]
  creations := 10
  patched := patched

/-- The first slot is fired twice, as the status write fails once; the second
one is missed by more than ten minutes. -/
theorem schedule_fires_in_order_retry :
    ∃ s, runSteps (ScheduleState.step hourlySchedule) (fun _ _ => True)
        (ScheduleState.init hourlySchedule)
        [hourlyReconcile 10 false true, hourlyReconcile 3605 false false,
          hourlyReconcile 3700 false true, hourlyReconcile 8000 false true] = some s ∧
      s.attempts.map (fun a => (a.slot.timestamp, a.names)) =
        [(3600, ["nightly-19700101010000"]), (3600, ["nightly-19700101010000"])] ∧
      s.pins.map (fun p => (p.1.timestamp, p.2.timestamp)) =
        [(10, 3600), (3700, 7200), (8000, 10800)] ∧
      s.attempts.Pairwise fun a b => a.slot < b.slot ∨ a.slot = b.slot ∧ a.recorded = false := by
  refine exists_runSteps_imp (P := fun s =>
    s.attempts.map (fun a => (a.slot.timestamp, a.names)) =
        [(3600, ["nightly-19700101010000"]), (3600, ["nightly-19700101010000"])] ∧
      s.pins.map (fun p => (p.1.timestamp, p.2.timestamp)) =
        [(10, 3600), (3700, 7200), (8000, 10800)]) (by decide) fun s hs h => ?_
  exact ⟨h.1, h.2,
    (schedule_fires_in_order hourlySchedule hourly_exclusive s (reaches_of_runSteps hs)).2.1⟩

/-- A suspended schedule keeps its pin, however long the slot is past its
deadline. -/
theorem suspended_schedule_keeps_expired_pin :
    ∃ s, runSteps (ScheduleState.step hourlySchedule) (fun _ _ => True)
        (ScheduleState.init hourlySchedule)
        [hourlyReconcile 10 false true, hourlyReconcile 8000 true true] = some s ∧
      s.status.pinnedSlot = some (DateTime.fromTimestamp 3600) ∧
      missedDeadline (DateTime.fromTimestamp 3600) s.clock (some 600) = true ∧
      ∀ second, (reconcile hourlySchedule s.status (hourlyReconcile second true true)).status =
        s.status := by
  refine exists_runSteps_imp (P := fun s => s.status = ⟨none, some ⟨some (DateTime.fromTimestamp 3600),
    ⟨some "UTC", none, some "0 * * * *"⟩⟩⟩ ∧ s.clock = DateTime.fromTimestamp 8000)
    (by decide) fun s hs h => ?_
  obtain ⟨hstatus, hclock⟩ := h
  refine ⟨by rw [hstatus]; rfl, by rw [hclock]; decide, fun second => ?_⟩
  have hsame : (resolvePinnedSlot hourly "0 * * * *" ⟨some "UTC", none, some "0 * * * *"⟩
      (.resolved "UTC" none)).2 = false := by decide
  rw [hstatus]
  exact reconcilePinned_suspended rfl hsame

end Kopiur
