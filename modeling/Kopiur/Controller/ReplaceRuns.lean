import Kopiur.Controller.ScheduleRuns

/-!
# Replacing the runs of earlier slots

Under `Replace` a slot cancels the unfinished runs of earlier slots before it
fires. The runs are told apart from the slot's own children, which a failed
attempt may have left, by their creation time alone. Children are created some
time after their reconcile read the clock.
-/

namespace Kopiur

open Lib

def stillReplaceable (live : Option Snapshot) : Bool :=
  live.any fun row => row.metadata.deletionTimestamp.isNone &&
    match row.phase with
    | none | some .pending | some .running => true
    | _ => false

/-- Cancel each victim that a live read still shows in flight. The first read
or delete that fails ends the pass. -/
def replaceActiveRuns (getOpt : String → Except ReconcileError (Option Snapshot))
    (cancel : String → Except ReconcileError Unit) :
    List String → Except ReconcileError (List String)
  | [] => .ok []
  | name :: rest =>
    match getOpt name with
    | .error e => .error e
    | .ok live =>
      if stillReplaceable live then
        match cancel name with
        | .error e => .error e
        | .ok () => (replaceActiveRuns getOpt cancel rest).map (name :: ·)
      else replaceActiveRuns getOpt cancel rest

theorem mem_replaceActiveRuns {getOpt : String → Except ReconcileError (Option Snapshot)}
    {cancel : String → Except ReconcileError Unit} {victims deleted : List String}
    (h : replaceActiveRuns getOpt cancel victims = .ok deleted) (name : String) :
    name ∈ deleted ↔ name ∈ victims ∧ ∃ live, getOpt name = .ok live ∧ stillReplaceable live := by
  induction victims generalizing deleted with
  | nil =>
    cases h
    simp
  | cons victim rest ih =>
    rw [replaceActiveRuns] at h
    split at h
    case h_1 => cases h
    case h_2 live hget =>
      split at h
      case isTrue hlive =>
        split at h
        case h_1 => cases h
        case h_2 =>
          cases hrest : replaceActiveRuns getOpt cancel rest with
          | error e => simp [hrest, Except.map] at h
          | ok more =>
            simp only [hrest, Except.map, Except.ok.injEq] at h
            subst h
            rw [List.mem_cons, ih hrest, List.mem_cons]
            constructor
            · rintro (rfl | ⟨hm, hl⟩)
              · exact ⟨.inl rfl, live, hget, hlive⟩
              · exact ⟨.inr hm, hl⟩
            · rintro ⟨rfl | hm, hl⟩
              · exact .inl rfl
              · exact .inr ⟨hm, hl⟩
      case isFalse hlive =>
        rw [ih h, List.mem_cons]
        constructor
        · rintro ⟨hm, hl⟩
          exact ⟨.inr hm, hl⟩
        · rintro ⟨rfl | hm, live', hget', hlive'⟩
          · rw [hget, Except.ok.injEq] at hget'
            exact absurd (hget' ▸ hlive') hlive
          · exact ⟨hm, live', hget', hlive'⟩

def WholeSecond (t : DateTime) : Prop := ∃ k : Int, t = DateTime.fromTimestamp k

def CronEngine.WholeSeconds (engine : CronEngine) : Prop :=
  ∀ cron after tz slot, engine.findNextOccurrence cron after tz = .ok slot → WholeSecond slot

theorem nextFire_wholeSecond {engine : CronEngine} (hwhole : engine.WholeSeconds)
    {cronExpr seed tz : String} {window : Option Nat} {after slot : DateTime}
    (h : nextFire engine cronExpr window seed after tz = .ok slot) : WholeSecond slot := by
  simp only [nextFire] at h
  split at h
  case h_1 => cases h
  case h_2 =>
    split at h
    case h_1 => cases h
    case h_2 next hnext =>
      cases h
      obtain ⟨k, rfl⟩ := hwhole _ _ _ _ hnext
      simp only [slotOffset]
      split
      case isTrue => exact ⟨k + _, (Int.add_mul _ _ _).symm⟩
      case isFalse => exact ⟨k, by simp⟩

def PinFrom (cfg : ScheduleConfig) (status : ScheduleStatus) (i : Reconcile) (pass : Pass) : Prop :=
  pass.status.pinnedSlot = status.pinnedSlot ∨
    ∃ eff next, nextSlot cfg i eff = .ok next ∧ pass.status.pinnedSlot = some next

section Pins

variable {cfg : ScheduleConfig} {status : ScheduleStatus} {i : Reconcile}

theorem repin_pinFrom (eff : EffectiveSchedule) : PinFrom cfg status i (repin cfg status i eff) := by
  simp only [repin]
  split
  case h_1 => exact .inl rfl
  case h_2 next hnext =>
    split
    case isTrue => exact .inr ⟨eff, next, hnext, rfl⟩
    case isFalse => exact .inl rfl

theorem fireSlot_pinFrom (eff : EffectiveSchedule) (slot : DateTime) (onCreate : Bool) :
    PinFrom cfg status i (fireSlot cfg status i eff slot onCreate) := by
  simp only [fireSlot]
  split
  case h_1 => exact .inl rfl
  case h_2 =>
    split
    case h_1 => exact .inl rfl
    case h_2 =>
      split
      case h_1 => exact .inl rfl
      case h_2 next hnext =>
        split
        case isTrue => exact .inr ⟨eff, next, hnext, rfl⟩
        case isFalse => exact .inl rfl

theorem reconcilePinned_pinFrom (pin : NextSchedule) (slot : DateTime) :
    PinFrom cfg status i (reconcilePinned cfg status i pin slot) := by
  simp only [reconcilePinned]
  split
  case isTrue => exact repin_pinFrom _
  case isFalse =>
    split
    case h_1 => exact .inl rfl
    case h_2 =>
      split
      case h_1 => exact .inl rfl
      case h_2 =>
        split
        case h_1 => exact repin_pinFrom _
        case h_2 => exact .inl rfl
        case h_3 => exact .inl rfl
        case h_4 => exact .inl rfl
        case h_5 =>
          split
          case isTrue => exact fireSlot_pinFrom _ _ _
          case isFalse => exact .inl rfl
        case h_6 => exact fireSlot_pinFrom _ _ _

theorem reconcile_pinFrom : PinFrom cfg status i (reconcile cfg status i) := by
  have hfirst : PinFrom cfg status i (reconcileFirst cfg status i) := by
    simp only [reconcileFirst]
    split
    case h_1 => exact .inl rfl
    case h_2 =>
      split
      case isFalse => exact repin_pinFrom _
      case isTrue =>
        split
        case h_1 => exact .inl rfl
        case h_2 => exact .inl rfl
        case h_3 => exact fireSlot_pinFrom _ _ _
  simp only [reconcile]
  split
  case h_1 => exact .inl rfl
  case h_2 =>
    split
    case h_1 => exact hfirst
    case h_2 =>
      split
      case h_1 => exact hfirst
      case h_2 => exact reconcilePinned_pinFrom _ _

end Pins

-- Runs and the children they create

/-- A child, the slot it was minted for and the instant it was created. -/
structure Minted where
  name : String
  slot : DateTime
  created : DateTime
deriving DecidableEq

structure MintState where
  run : ScheduleState
  minted : List Minted

theorem ScheduleState.step_spec {cfg : ScheduleConfig} {s s' : ScheduleState} {i : Reconcile}
    (h : s.step cfg i = some s') :
    s.clock ≤ i.now ∧ s'.status = (reconcile cfg s.status i).status := by
  simp only [ScheduleState.step] at h
  split at h
  case isTrue => cases h
  case isFalse hclock =>
    cases h
    exact ⟨not_lt.mp hclock, rfl⟩

namespace MintState

def init (cfg : ScheduleConfig) : MintState where
  run := ScheduleState.init cfg
  minted := []

def mintedBy (created : String → DateTime) (a : FireAttempt) : List Minted :=
  a.names.map fun n => { name := n, slot := a.slot, created := created n }

/-- A reconcile, and when each child it applies is created. -/
def step (cfg : ScheduleConfig) (s : MintState) (x : Reconcile × (String → DateTime)) :
    Option MintState :=
  (s.run.step cfg x.1).map fun run =>
    { run
      minted := s.minted ++
        (reconcile cfg s.run.status x.1).attempt.toList.flatMap (mintedBy x.2) }

/-- Reconciles of one schedule do not overlap, and a child is created after its
reconcile read the clock, by any delay. A fire that is recorded has created its
children before the slot it pins. -/
structure Timely (cfg : ScheduleConfig) (s : MintState) (x : Reconcile × (String → DateTime)) :
    Prop where
  serial : ∀ m ∈ s.minted, m.created ≤ x.1.now
  after : ∀ a ∈ (reconcile cfg s.run.status x.1).attempt, ∀ n ∈ a.names, x.1.now ≤ x.2 n
  pinned : (reconcile cfg s.run.status x.1).ending = .fired →
    ∀ a ∈ (reconcile cfg s.run.status x.1).attempt, ∀ n ∈ a.names,
      ∀ next ∈ (reconcile cfg s.run.status x.1).status.pinnedSlot, x.2 n < next

instance (cfg : ScheduleConfig) (s : MintState) (x : Reconcile × (String → DateTime)) :
    Decidable (s.Timely cfg x) :=
  decidable_of_iff
    ((∀ m ∈ s.minted, m.created ≤ x.1.now) ∧
      (∀ a ∈ (reconcile cfg s.run.status x.1).attempt, ∀ n ∈ a.names, x.1.now ≤ x.2 n) ∧
      ((reconcile cfg s.run.status x.1).ending = .fired →
        ∀ a ∈ (reconcile cfg s.run.status x.1).attempt, ∀ n ∈ a.names,
          ∀ next ∈ (reconcile cfg s.run.status x.1).status.pinnedSlot, x.2 n < next))
    ⟨fun h => ⟨h.1, h.2.1, h.2.2⟩, fun h => ⟨h.serial, h.after, h.pinned⟩⟩

end MintState

/-- The children of the pinned slot were created at or after it, those of
earlier slots before it. -/
structure MintInv (cfg : ScheduleConfig) (s : MintState) : Prop where
  run : ScheduleInv cfg s.run
  whole : ∀ slot ∈ s.run.status.pinnedSlot, WholeSecond slot
  delayed : ∀ m ∈ s.minted, m.slot ≤ m.created
  cut : ∀ slot ∈ s.run.status.pinnedSlot, ∀ m ∈ s.minted,
    m.slot = slot ∨ m.slot < slot ∧ m.created < slot

namespace MintInv

variable {cfg : ScheduleConfig} {s : MintState} {x : Reconcile × (String → DateTime)}

theorem init (cfg : ScheduleConfig) : MintInv cfg (MintState.init cfg) where
  run := ScheduleInv.init cfg
  whole := by simp [MintState.init, ScheduleState.init, ScheduleStatus.pinnedSlot]
  delayed := by simp [MintState.init]
  cut := by simp [MintState.init]

theorem cut_of_pin (h : MintInv cfg s) (htimely : s.Timely cfg x) {next : DateTime}
    (hnext : x.1.now < next) : ∀ m ∈ s.minted, m.slot = next ∨ m.slot < next ∧ m.created < next := by
  intro m hm
  have hcreated : m.created < next := lt_of_le_of_lt (htimely.serial m hm) hnext
  exact .inr ⟨lt_of_le_of_lt (h.delayed m hm) hcreated, hcreated⟩

theorem children (h : MintInv cfg s) (htimely : s.Timely cfg x) (hnow : cfg.anchor ≤ x.1.now)
    {pass : Pass} (hcases : PassCases cfg s.run.status x.1 pass)
    (hafter : ∀ a ∈ pass.attempt, ∀ n ∈ a.names, x.1.now ≤ x.2 n)
    (hpinned : pass.ending = .fired → ∀ a ∈ pass.attempt, ∀ n ∈ a.names,
      ∀ next ∈ pass.status.pinnedSlot, x.2 n < next) :
    ∀ m ∈ s.minted ++ pass.attempt.toList.flatMap (MintState.mintedBy x.2),
      m.slot ≤ m.created ∧ ∀ slot ∈ pass.status.pinnedSlot,
        m.slot = slot ∨ m.slot < slot ∧ m.created < slot := by
  intro m hmem
  rcases List.mem_append.mp hmem with hm | hm
  · refine ⟨h.delayed m hm, fun slot hslot => ?_⟩
    cases hcases with
    | kept => exact h.cut slot hslot m hm
    | repinned hnext =>
      cases hslot
      exact h.cut_of_pin htimely hnext m hm
    | attempted => exact h.cut slot hslot m hm
    | fired _ hnext =>
      cases hslot
      exact h.cut_of_pin htimely hnext m hm
  · obtain ⟨a, ha, hm⟩ := List.mem_flatMap.mp hm
    obtain ⟨n, hn, rfl⟩ := List.mem_map.mp hm
    have hattempt : a ∈ pass.attempt := Option.mem_toList.mp ha
    cases hcases with
    | kept => cases hattempt
    | repinned => cases hattempt
    | attempted hdue =>
      cases hattempt
      refine ⟨le_trans (hdue.slot_le hnow) (hafter a rfl n hn), fun slot hslot => .inl ?_⟩
      rcases hdue.slot with ⟨-, hpin, -⟩ | ⟨-, hpin, -⟩
      · exact Option.some.inj (hpin.symm.trans hslot)
      · rw [hpin] at hslot
        cases hslot
    | fired hdue hnext =>
      cases hattempt
      refine ⟨le_trans (hdue.slot_le hnow) (hafter a rfl n hn), fun slot hslot => .inr ⟨?_, ?_⟩⟩
      · cases hslot
        exact lt_of_le_of_lt (hdue.slot_le hnow) hnext
      · exact hpinned rfl a rfl n hn slot hslot

theorem step (hcron : cfg.engine.Exclusive) (hsecs : cfg.engine.WholeSeconds) (h : MintInv cfg s)
    (htimely : s.Timely cfg x) {s' : MintState} (hstep : s.step cfg x = some s') :
    MintInv cfg s' := by
  obtain ⟨run, hrun, rfl⟩ := Option.map_eq_some_iff.mp hstep
  obtain ⟨hclock, hstatus⟩ := ScheduleState.step_spec hrun
  have hchildren := h.children htimely (le_trans h.run.created hclock) (reconcile_cases hcron)
    htimely.after htimely.pinned
  refine ⟨h.run.step hcron hrun, fun slot hslot => ?_, fun m hm => (hchildren m hm).1,
    fun slot hslot m hm => ?_⟩
  · rw [hstatus] at hslot
    obtain hsame | ⟨eff, next, hnext, hpin⟩ := @reconcile_pinFrom cfg s.run.status x.1
    · exact h.whole slot (hsame ▸ hslot)
    · rw [hpin] at hslot
      cases hslot
      exact nextFire_wholeSecond hsecs hnext
  · rw [hstatus] at hslot
    exact (hchildren m hm).2 slot hslot

end MintInv

-- What is selected

/-- The object is the stored form of a minted child, with the whole seconds of
its creation time. -/
def Minted.Shows (m : Minted) (b : Snapshot) : Prop :=
  b.metadata.name = some m.name ∧
    b.metadata.creationTimestamp = some (DateTime.fromTimestamp m.created.timestamp)

theorem wholeSecond_fromTimestamp (k : Int) :
    wholeSecond (DateTime.fromTimestamp k) = DateTime.fromTimestamp k := by
  simp only [wholeSecond, asSecond, DateTime.fromTimestamp]
  rw [Int.mul_tdiv_cancel _ (by decide)]

theorem timestamp_lt_iff {t slot : DateTime} (hslot : WholeSecond slot) :
    DateTime.fromTimestamp t.timestamp < slot ↔ t < slot := by
  obtain ⟨k, rfl⟩ := hslot
  simp only [DateTime.fromTimestamp, DateTime.timestamp]
  exact (Int.mul_lt_mul_right (by decide)).trans (Int.ediv_lt_iff_lt_mul (by decide))

theorem MintInv.createdBeforeSlot_iff {cfg : ScheduleConfig} {s : MintState} (h : MintInv cfg s)
    {slot : DateTime} (hpin : s.run.status.pinnedSlot = some slot) {m : Minted} (hm : m ∈ s.minted)
    {b : Snapshot} (hshows : m.Shows b) : createdBeforeSlot b slot = true ↔ m.slot < slot := by
  rw [createdBeforeSlot, hshows.2, Option.any_some, decide_eq_true_eq, wholeSecond_fromTimestamp,
    timestamp_lt_iff (h.whole slot hpin)]
  rcases h.cut slot hpin m hm with rfl | ⟨hlt, hcreated⟩
  · exact ⟨fun hlt => absurd (h.delayed m hm) (not_le.mpr hlt), fun hlt => absurd hlt (lt_irrefl _)⟩
  · exact ⟨fun _ => hlt, fun _ => hcreated⟩

def earlierRuns (items : List Snapshot) (slot : DateTime) : List Snapshot :=
  items.filter fun b => b.metadata.deletionTimestamp.isNone && createdBeforeSlot b slot

/-- What each outcome says about the earlier runs. Only when none of them is
unreadable or parked are runs selected, and then exactly the unfinished ones. -/
def ReplacePlan.Selects (earlier : List Snapshot) : ReplacePlan → Prop
  | .clear => ∀ b ∈ earlier, unfinished b.phase = false
  | .delete victims => victims ≠ [] ∧ (∀ b ∈ earlier, unreadableRun b = none) ∧
      (∀ b ∈ earlier, unfinished b.phase = true → parkedBehindSlot b = false) ∧
      ∀ n, n ∈ victims ↔ ∃ b ∈ earlier, unfinished b.phase = true ∧ b.metadata.nameAny = n
  | .blockedUnreadable run => ∃ b ∈ earlier, unreadableRun b = some run
  | .heldByParkedRun n => ∃ b ∈ earlier, unfinished b.phase = true ∧ parkedBehindSlot b = true ∧
      b.metadata.nameAny = n

theorem replacePlan_selects (items : List Snapshot) (slot : DateTime) :
    (replacePlan items slot).Selects (earlierRuns items slot) := by
  have heq : (items.filter fun b => b.metadata.deletionTimestamp.isNone &&
      createdBeforeSlot b slot) = earlierRuns items slot := rfl
  simp only [replacePlan, heq]
  generalize earlierRuns items slot = earlier
  split
  case h_1 run hsome =>
    obtain ⟨b, hb, hrun⟩ := List.exists_of_findSome?_eq_some hsome
    exact ⟨b, hb, hrun⟩
  case h_2 hnone =>
    rw [List.findSome?_eq_none_iff] at hnone
    split
    case h_1 b hfind =>
      obtain ⟨hb, hun⟩ := List.mem_filter.mp (List.mem_of_find?_eq_some hfind)
      exact ⟨b, hb, hun, List.find?_some hfind, rfl⟩
    case h_2 hfind =>
      rw [List.find?_eq_none] at hfind
      split
      case isTrue hempty =>
        intro b hb
        rw [List.isEmpty_iff, List.filter_eq_nil_iff] at hempty
        simpa using hempty b hb
      case isFalse hne =>
        refine ⟨?_, hnone, fun b hb hun => ?_, fun n => ?_⟩
        · intro hnil
          rw [← List.length_eq_zero_iff, List.length_insertionSort, List.length_map,
            List.length_eq_zero_iff] at hnil
          exact hne (List.isEmpty_iff.mpr hnil)
        · simpa using hfind b (List.mem_filter.mpr ⟨hb, hun⟩)
        · rw [List.mem_insertionSort]
          simp only [List.mem_map, List.mem_filter, and_assoc]

/-- Over every run of reconciles in which a recorded fire has created its
children before the slot it pins: at the pinned slot, the runs `Replace` looks
at are exactly the children of earlier slots that are not being deleted, however
late each child was created, and never a child of the slot itself. The plan then
selects the unfinished ones, unless one of them is unreadable or parked, and of
those only the ones a live read still shows in flight are cancelled. -/
theorem replace_selects_earlier_slots (cfg : ScheduleConfig) (hcron : cfg.engine.Exclusive)
    (hsecs : cfg.engine.WholeSeconds) (s : MintState)
    (hrun : Reaches (MintState.step cfg) (MintState.Timely cfg) (MintState.init cfg) s)
    (slot : DateTime) (hpin : s.run.status.pinnedSlot = some slot) (items : List Snapshot)
    (hitems : ∀ b ∈ items, ∃ m ∈ s.minted, m.Shows b) :
    (replacePlan items slot).Selects (earlierRuns items slot) ∧
      (∀ b, b ∈ earlierRuns items slot ↔ b ∈ items ∧ b.metadata.deletionTimestamp = none ∧
        ∃ m ∈ s.minted, m.Shows b ∧ m.slot < slot) ∧
      (∀ b ∈ items, ∀ m ∈ s.minted, m.Shows b → m.slot = slot → b ∉ earlierRuns items slot) ∧
      ∀ victims getOpt cancel deleted, replacePlan items slot = .delete victims →
        replaceActiveRuns getOpt cancel victims = .ok deleted →
        ∀ n, n ∈ deleted ↔
          (∃ b ∈ earlierRuns items slot, unfinished b.phase = true ∧ b.metadata.nameAny = n) ∧
            ∃ live, getOpt n = .ok live ∧ stillReplaceable live := by
  have hinv := hrun.invariant (MintInv cfg) (MintInv.init cfg)
    fun _ _ _ hinv htimely hstep => hinv.step hcron hsecs htimely hstep
  have hmem : ∀ b, b ∈ earlierRuns items slot ↔
      b ∈ items ∧ b.metadata.deletionTimestamp = none ∧ createdBeforeSlot b slot = true := by
    intro b
    rw [earlierRuns, List.mem_filter, Bool.and_eq_true, Option.isNone_iff_eq_none]
  refine ⟨replacePlan_selects items slot, fun b => ?_, ?_, ?_⟩
  · rw [hmem]
    constructor
    · rintro ⟨hb, hlive, hcut⟩
      obtain ⟨m, hm, hshows⟩ := hitems b hb
      exact ⟨hb, hlive, m, hm, hshows, (hinv.createdBeforeSlot_iff hpin hm hshows).mp hcut⟩
    · rintro ⟨hb, hlive, m, hm, hshows, hlt⟩
      exact ⟨hb, hlive, (hinv.createdBeforeSlot_iff hpin hm hshows).mpr hlt⟩
  · intro b _ m hm hshows heq hb
    have hlt := (hinv.createdBeforeSlot_iff hpin hm hshows).mp ((hmem b).mp hb).2.2
    exact lt_irrefl slot (heq ▸ hlt)
  · intro victims getOpt cancel deleted hplan hdeleted n
    have hselects := replacePlan_selects items slot
    rw [hplan] at hselects
    rw [mem_replaceActiveRuns hdeleted, hselects.2.2.2]

theorem hourly_wholeSeconds : hourly.WholeSeconds := by
  intro cron after tz slot h
  cases h
  exact ⟨(after / 3600000000000 + 1) * 3600, by rw [DateTime.fromTimestamp, Int.mul_assoc]; rfl⟩

/-- A running child of the hourly schedule. -/
def hourlyChild (name : String) (created : Int) (phase : SnapshotPhase) : Snapshot where
  metadata :=
    { name := some name
      creationTimestamp := some (DateTime.fromTimestamp created) }
  spec := {}
  status := some { phase := some phase }

/-- The child of a slot fired twice is created late, and is an earlier run at
the next slot. -/
theorem replace_selects_earlier_slots_retry :
    ∃ s, runSteps (MintState.step hourlySchedule) (MintState.Timely hourlySchedule)
        (MintState.init hourlySchedule)
        [(hourlyReconcile 10 false true, fun _ => 0),
          (hourlyReconcile 3605 false false, fun _ => DateTime.fromTimestamp 3690),
          (hourlyReconcile 3700 false true, fun _ => DateTime.fromTimestamp 3702)] = some s ∧
      s.run.status.pinnedSlot = some (DateTime.fromTimestamp 7200) ∧
      replacePlan [hourlyChild "nightly-19700101010000" 3690 .running]
        (DateTime.fromTimestamp 7200) = .delete ["nightly-19700101010000"] ∧
      ∃ m ∈ s.minted, m.Shows (hourlyChild "nightly-19700101010000" 3690 .running) ∧
        m.slot < DateTime.fromTimestamp 7200 := by
  refine exists_runSteps_imp (P := fun s =>
    s.run.status.pinnedSlot = some (DateTime.fromTimestamp 7200) ∧ s.minted =
      [⟨"nightly-19700101010000", DateTime.fromTimestamp 3600, DateTime.fromTimestamp 3690⟩,
        ⟨"nightly-19700101010000", DateTime.fromTimestamp 3600, DateTime.fromTimestamp 3702⟩])
    (by decide) fun s hs h => ?_
  obtain ⟨hslot, hminted⟩ := h
  refine ⟨hslot, by decide, ?_⟩
  have hitems : ∀ b ∈ [hourlyChild "nightly-19700101010000" 3690 .running],
      ∃ m ∈ s.minted, m.Shows b := by
    intro b hb
    rw [List.mem_singleton.mp hb, hminted]
    exact ⟨_, List.mem_cons_self, rfl, rfl⟩
  have hselects := replace_selects_earlier_slots hourlySchedule hourly_exclusive hourly_wholeSeconds
    s (reaches_of_runSteps hs) _ hslot _ hitems
  exact ((hselects.2.1 _).mp (by decide)).2.2

/-- A reconcile of the hourly schedule while runs may overlap. -/
def hourlyOverlap (second : Int) (children : List Snapshot) : Reconcile :=
  let i := hourlyReconcile second false true
  { i with
    spec := { i.spec with concurrencyPolicy := .allow }
    children := some children
    rows := some children }

/-- One earlier run this build cannot read keeps every other from being
selected. -/
theorem unreadable_run_holds_replace :
    ∃ s, runSteps (MintState.step hourlySchedule) (MintState.Timely hourlySchedule)
        (MintState.init hourlySchedule)
        [(hourlyReconcile 10 false true, fun _ => 0),
          (hourlyOverlap 3605 [], fun _ => DateTime.fromTimestamp 3606),
          (hourlyOverlap 7205 [hourlyChild "nightly-19700101010000" 3606 .running],
            fun _ => DateTime.fromTimestamp 7206)] = some s ∧
      s.run.status.pinnedSlot = some (DateTime.fromTimestamp 10800) ∧
      (∀ b ∈ [hourlyChild "nightly-19700101010000" 3606 .running,
          hourlyChild "nightly-19700101020000" 7206 (.unknown "Verifying")],
        ∃ m ∈ s.minted, m.Shows b ∧ m.slot < DateTime.fromTimestamp 10800) ∧
      replacePlan [hourlyChild "nightly-19700101010000" 3606 .running,
          hourlyChild "nightly-19700101020000" 7206 (.unknown "Verifying")]
        (DateTime.fromTimestamp 10800) =
          .blockedUnreadable ⟨"nightly-19700101020000", "Verifying"⟩ := by
  refine exists_runSteps_imp (P := fun s =>
    s.run.status.pinnedSlot = some (DateTime.fromTimestamp 10800) ∧ s.minted =
      [⟨"nightly-19700101010000", DateTime.fromTimestamp 3600, DateTime.fromTimestamp 3606⟩,
        ⟨"nightly-19700101020000", DateTime.fromTimestamp 7200, DateTime.fromTimestamp 7206⟩])
    (by decide) fun s hs h => ?_
  obtain ⟨hslot, hminted⟩ := h
  refine ⟨hslot, ?_, by decide⟩
  rw [hminted]
  simp only [List.mem_cons, List.not_mem_nil, or_false]
  rintro b (rfl | rfl)
  · exact ⟨_, .inl rfl, ⟨rfl, rfl⟩, by decide⟩
  · exact ⟨_, .inr rfl, ⟨rfl, rfl⟩, by decide⟩

end Kopiur
