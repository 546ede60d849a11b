import Kopiur.Mover.ParametersDrift

/-!
# The parameters converge

Once kopia stored what a drift sent, nothing drifts: each flag stores the value
it was compared with. A size whose bytes do not fit a signed 64-bit number is not
stored as declared, and drifts for ever.
-/

namespace Kopiur.Parameters

theorem durDrift_some {text : String} {secs : Nat} {ns : Int}
    (hparse : parseGoDuration text = some secs) (hns : tryI64 (secs * nanosPerSec) = some ns)
    (haveNs : Int) : durDrift (some text) haveNs = if ns ≠ haveNs then some text else none := by
  unfold durDrift
  rw [Option.bind_eq_bind, Option.bind_some, hparse, Option.bind_eq_bind, Option.bind_some, hns]
  rfl

theorem StorableDuration.rendered {raw : String} (h : StorableDuration raw) :
    ∃ text secs ns, renderedDuration (some raw) = some text ∧ parseGoDuration text = some secs ∧
      tryI64 (secs * nanosPerSec) = some ns ∧ durationNanos raw = some ns ∧
      durationNanos text = some ns := by
  obtain ⟨secs, hparse, hle⟩ := h
  have hrender := parseGoDuration_render (le_u64Max_of_parseGoDuration hparse)
  have hbind : (some raw).bind parseGoDuration = some secs := hparse
  refine ⟨renderGoDuration secs, secs, (secs * nanosPerSec : Nat), ?_, hrender,
    tryI64_eq_some hle, ?_, ?_⟩
  · rw [renderedDuration, hbind, Option.map_some]
  · rw [durationNanos, hparse, Option.map_some]
  · rw [durationNanos, hrender, Option.map_some]

section
variable {raw : Option String} (hraw : ∀ text, raw = some text → StorableDuration text)
include hraw

theorem durDrift_eq_none_iff {haveNs : Int} :
    durDrift (renderedDuration raw) haveNs = none ↔
      ∀ text, raw = some text → durationNanos text = some haveNs := by
  cases raw with
  | none => simp [renderedDuration, durDrift]
  | some raw =>
    obtain ⟨text, secs, ns, hrendered, hparse, htry, hns, -⟩ := (hraw raw rfl).rendered
    rw [hrendered, durDrift_some hparse htry]
    simp [hns]

theorem durDrift_stored {haveNs : Int} {sent : Option String}
    (hsent : sent = durDrift (renderedDuration raw) haveNs ∨ sent = renderedDuration raw) :
    durDrift (renderedDuration raw) ((sent.bind durationNanos).getD haveNs) = none := by
  cases raw with
  | none => simp [renderedDuration, durDrift]
  | some raw =>
    obtain ⟨text, secs, ns, hrendered, hparse, htry, -, hns⟩ := (hraw raw rfl).rendered
    have hdrift := durDrift_some hparse htry
    rw [hrendered] at hsent ⊢
    rw [hdrift] at hsent
    by_cases heq : ns = haveNs
    · subst heq
      rcases hsent with rfl | rfl
      · simp [hdrift]
      · simp [hdrift, hns]
    · have hsome : sent = some text := by
        rcases hsent with h | h
        · rwa [if_pos heq] at h
        · exact h
      simp [hsome, hdrift, hns]

end

theorem numDrift_eq_none_iff {want : Option Int} {observed : Int} :
    numDrift want observed = none ↔ ∀ w, want = some w → w = observed := by
  cases want <;> simp [numDrift, Option.filter]

theorem numDrift_stored {want sent : Option Int} {observed : Int}
    (hsent : sent = numDrift want observed ∨ sent = want) :
    numDrift want (sent.getD observed) = none := by
  rw [numDrift_eq_none_iff]
  rintro w rfl
  by_cases heq : w = observed
  · subst heq
    rcases hsent with rfl | rfl <;> simp [numDrift, Option.filter]
  · rcases hsent with rfl | rfl <;> simp [numDrift, Option.filter, heq]

def SizeFits (w : Int) : Prop := i64Min ≤ w * mib ∧ w * mib < 2 ^ 63

def sizeDrift (want : Option Int) (observed : Int) : Option Int :=
  want.filter fun w => decide (saturatingMul w mib ≠ observed)

theorem saturatingMul_of_fits {w : Int} (h : SizeFits w) : saturatingMul w mib = w * mib := by
  obtain ⟨hlo, hhi⟩ := h
  simp only [saturatingMul]
  omega

theorem shiftedMib_of_fits {w : Int} (h : SizeFits w) : shiftedMib w = w * mib := by
  obtain ⟨hlo, hhi⟩ := h
  simp only [i64Min] at hlo
  simp only [shiftedMib, mib] at *
  exact Int.bmod_eq_of_le (by omega) (by omega)

theorem sizeDrift_eq_none_iff {want : Option Int} (hfits : ∀ w, want = some w → SizeFits w)
    {observed : Int} :
    sizeDrift want observed = none ↔ ∀ w, want = some w → w * mib = observed := by
  cases want with
  | none => simp [sizeDrift]
  | some w => simp [sizeDrift, Option.filter, saturatingMul_of_fits (hfits w rfl)]

theorem sizeDrift_stored {want sent : Option Int} (hfits : ∀ w, want = some w → SizeFits w)
    {observed : Int} (hsent : sent = sizeDrift want observed ∨ sent = want) :
    sizeDrift want ((sent.map shiftedMib).getD observed) = none := by
  rw [sizeDrift_eq_none_iff hfits]
  rintro w rfl
  have hw := hfits w rfl
  by_cases heq : w * mib = observed
  · subst heq
    rcases hsent with rfl | rfl <;>
      simp [sizeDrift, Option.filter, saturatingMul_of_fits hw, shiftedMib_of_fits hw]
  · rcases hsent with rfl | rfl <;>
      simp [sizeDrift, Option.filter, saturatingMul_of_fits hw, shiftedMib_of_fits hw, heq]

-- The flags

theorem flag_eq_nil {name : String} {value : Option String} :
    SetParametersArgs.flag name value = [] ↔ value = none := by
  cases value <;> simp [SetParametersArgs.flag]

theorem SetParametersArgs.isEmpty_iff {a : SetParametersArgs} : a.isEmpty = true ↔ a = {} := by
  obtain ⟨a1, a2, a3, a4, a5, a6, a7, a8⟩ := a
  simp [SetParametersArgs.isEmpty, SetParametersArgs.args, flag_eq_nil]

theorem EpochParametersSpec.isEmpty_iff {e : EpochParametersSpec} : e.isEmpty = true ↔ e = {} := by
  simp [EpochParametersSpec.isEmpty]

theorem epochArgs_empty (observed : Option KopiaEpoch) : epochArgs {} observed = {} := by
  cases observed <;> rfl

theorem epochDrift_getD (desired : EpochParametersSpec) (observed : Option KopiaEpoch) :
    (epochDrift desired observed).getD {} = epochArgs desired observed := by
  unfold epochDrift
  by_cases hempty : desired.isEmpty = true
  · rw [if_pos hempty, EpochParametersSpec.isEmpty_iff.mp hempty, epochArgs_empty]
    rfl
  · rw [if_neg hempty]
    cases observed with
    | none => rfl
    | some o =>
      dsimp only
      by_cases hargs : (epochArgs desired (some o)).isEmpty = true
      · rw [if_pos hargs, SetParametersArgs.isEmpty_iff.mp hargs]
        rfl
      · rw [if_neg hargs]
        rfl

theorem epochDrift_eq_none_iff {desired : EpochParametersSpec} {observed : Option KopiaEpoch} :
    epochDrift desired observed = none ↔ epochArgs desired observed = {} := by
  constructor
  · intro h
    rw [← epochDrift_getD, h]
    rfl
  · intro h
    unfold epochDrift
    by_cases hempty : desired.isEmpty = true
    · rw [if_pos hempty]
    · rw [if_neg hempty]
      cases observed with
      | none =>
        refine absurd (EpochParametersSpec.isEmpty_iff.mpr ?_) hempty
        obtain ⟨d1, d2, d3, d4, d5, d6⟩ := desired
        simpa [epochArgs] using h
      | some o =>
        dsimp only
        rw [if_pos (SetParametersArgs.isEmpty_iff.mpr h)]

theorem epochArgs_retention (desired : EpochParametersSpec) (observed : Option KopiaEpoch) :
    (epochArgs desired observed).retentionMode = none ∧
      (epochArgs desired observed).retentionPeriod = none := by
  cases observed <;> exact ⟨rfl, rfl⟩

def withRetention (a b : SetParametersArgs) : SetParametersArgs :=
  { a with retentionMode := b.retentionMode, retentionPeriod := b.retentionPeriod }

theorem blobRetentionDrift_epoch {desired : Option BlobRetentionSpec}
    {observed : Option KopiaRetention} {b : SetParametersArgs}
    (h : blobRetentionDrift desired observed = some b) : b = withRetention {} b := by
  cases desired with
  | none => cases h
  | some desired =>
    simp only [blobRetentionDrift, Option.bind_eq_bind, Option.bind_some] at h
    split at h
    · split at h
      · cases h
        rfl
      · cases h
    · obtain ⟨period, -, h⟩ := Option.bind_eq_some_iff.mp h
      obtain ⟨secs, -, h⟩ := Option.bind_eq_some_iff.mp h
      obtain ⟨ns, -, h⟩ := Option.bind_eq_some_iff.mp h
      split at h
      · cases h
      · cases h
        rfl

section
variable {e : EpochParametersSpec} {oe : Option KopiaEpoch}
variable {b : Option BlobRetentionSpec} {ob : Option KopiaRetention}

theorem parametersDrift_eq_none_iff : parametersDrift e oe b ob = none ↔
    epochArgs e oe = {} ∧ blobRetentionDrift b ob = none := by
  rw [← epochDrift_eq_none_iff]
  unfold parametersDrift
  cases epochDrift e oe <;> cases blobRetentionDrift b ob <;> simp

theorem parametersDrift_eq_some {a : SetParametersArgs} (h : parametersDrift e oe b ob = some a) :
    a = withRetention (epochArgs e oe) ((blobRetentionDrift b ob).getD {}) := by
  rw [← epochDrift_getD]
  have hepoch := epochArgs_retention e oe
  rw [← epochDrift_getD] at hepoch
  unfold parametersDrift at h
  cases hb : blobRetentionDrift b ob with
  | none =>
    rw [hb] at h
    cases he : epochDrift e oe with
    | none =>
      rw [he] at h
      cases h
    | some a' =>
      rw [he] at h hepoch
      cases h
      obtain ⟨a1, a2, a3, a4, a5, a6, a7, a8⟩ := a
      simp only [Option.getD_some] at hepoch
      simp only [Option.getD_some, Option.getD_none, withRetention, hepoch.1, hepoch.2]
  | some b' =>
    rw [hb] at h
    cases he : epochDrift e oe with
    | none =>
      rw [he] at h
      cases h
      exact blobRetentionDrift_epoch hb
    | some a' =>
      rw [he] at h
      cases h
      rfl

end

def RepositoryParameters.drift (p : RepositoryParameters) (epoch : Option KopiaEpoch)
    (retention : Option KopiaRetention) : Option SetParametersArgs :=
  parametersDrift (epochParametersSpec p) epoch (blobRetentionSpec p) retention

def RepositoryParameters.driftOf (p : RepositoryParameters) (k : KopiaParameters) :
    Option SetParametersArgs :=
  p.drift (some k.epoch) (some k.retention)

structure Observes (k : KopiaParameters) (epoch : Option KopiaEpoch)
    (retention : Option KopiaRetention) : Prop where
  epoch : epoch = none ∨ epoch = some k.epoch
  retention : retention = none ∨ retention = some k.retention

def Met {α : Type} (declared : Option α) (units : α → Option Int) (observed : Option Int) : Prop :=
  ∀ a, declared = some a → ∃ n, units a = some n ∧ observed = some n

/-- Each declared epoch field is the observed one. -/
structure EpochMet (e : EpochParameters) (o : Option KopiaEpoch) : Prop where
  minDuration : Met e.minDuration durationNanos (o.map (·.minEpochDurationNs))
  refreshFrequency : Met e.refreshFrequency durationNanos (o.map (·.epochRefreshFrequencyNs))
  advanceOnCount : Met e.advanceOnCount some (o.map (·.advanceOnCount))
  advanceOnSizeMb :
    Met e.advanceOnSizeMb (fun w => some (w * mib)) (o.map (·.advanceOnTotalSizeBytes))
  checkpointFrequency : Met e.checkpointFrequency some (o.map (·.checkpointFrequency))
  deleteParallelism : Met e.deleteParallelism some (o.map (·.deleteParallelism))

/-- The declared retention is the observed one, and a disabled one is not in force
in anything observed. -/
def RetentionMet : BlobRetention → Option KopiaRetention → Prop
  | .governance w, o =>
    ∃ r, o = some r ∧ r.mode = "GOVERNANCE" ∧ durationNanos w.period = some r.periodNs
  | .compliance w, o =>
    ∃ r, o = some r ∧ r.mode = "COMPLIANCE" ∧ durationNanos w.period = some r.periodNs
  | .disabled true, o => ∀ r, o = some r → r.isEnabled = false
  | .disabled false, _ => True

def BlobRetention.asks : BlobRetention → Bool
  | .disabled flag => flag
  | _ => true

/-- Arguments carry only flags that are declared. -/
structure OnlyDeclared (p : RepositoryParameters) (a : SetParametersArgs) : Prop where
  minDuration : a.epochMinDuration.isSome → (p.epoch.bind (·.minDuration)).isSome
  refreshFrequency : a.epochRefreshFrequency.isSome → (p.epoch.bind (·.refreshFrequency)).isSome
  advanceOnCount : a.epochAdvanceOnCount.isSome → (p.epoch.bind (·.advanceOnCount)).isSome
  advanceOnSizeMb : a.epochAdvanceOnSizeMb.isSome → (p.epoch.bind (·.advanceOnSizeMb)).isSome
  checkpointFrequency :
    a.epochCheckpointFrequency.isSome → (p.epoch.bind (·.checkpointFrequency)).isSome
  deleteParallelism :
    a.epochDeleteParallelism.isSome → (p.epoch.bind (·.deleteParallelism)).isSome
  retentionMode : a.retentionMode.isSome → ∃ r, p.blobRetention = some r ∧ r.asks = true
  retentionPeriod :
    a.retentionPeriod.isSome → ((p.blobRetention.bind (·.window)).map (·.period)).isSome

structure EpochParameters.Storable (e : EpochParameters) : Prop where
  minDuration : ∀ text, e.minDuration = some text → StorableDuration text
  refreshFrequency : ∀ text, e.refreshFrequency = some text → StorableDuration text
  advanceOnSizeMb : ∀ w, e.advanceOnSizeMb = some w → 1 ≤ w

theorem le_of_floorError {field why : String} {value : Option Int} {floor : Int}
    {refusesCall : Bool} (h : floorError field value floor why refusesCall = []) :
    ∀ v, value = some v → floor ≤ v := by
  rintro v rfl
  by_contra hlt
  simp [floorError, Int.not_le.mp hlt] at h

section
variable {p : RepositoryParameters} {mode : RepositoryMode} {backend : Storage.Backend}
  {context : String}
variable (h : validateRepositoryParameters (some p) mode backend context = [])
include h

theorem storable_of_admitted {e : EpochParameters} (he : p.epoch = some e) : e.Storable := by
  simp only [validateRepositoryParameters, he, List.append_eq_nil_iff, validateEpoch,
    epochFloorErrors] at h
  obtain ⟨-, ⟨⟨-, hmin⟩, hrefresh⟩, ⟨⟨⟨⟨-, hsize⟩, -⟩, -⟩, -⟩, -⟩ := h
  exact ⟨storable_of_durationError hmin, storable_of_durationError hrefresh,
    le_of_floorError hsize⟩

theorem period_of_admitted {r : BlobRetention} {w : RetentionWindow} (hr : p.blobRetention = some r)
    (hw : r.window = some w) : StorableDuration w.period := by
  simp only [validateRepositoryParameters, hr, validateBlobRetention, hw,
    List.append_eq_nil_iff] at h
  exact storable_of_periodError h.1.2

end

theorem met_none {α : Type} {declared : Option α} {units : α → Option Int} :
    Met declared units none ↔ declared = none := by
  cases declared <;> simp [Met]

theorem met_some {α : Type} {declared : Option α} {units : α → Option Int} {n : Int} :
    Met declared units (some n) ↔ ∀ a, declared = some a → units a = some n := by
  simp [Met]

theorem renderedDuration_eq_none_iff {raw : Option String}
    (hraw : ∀ text, raw = some text → StorableDuration text) :
    renderedDuration raw = none ↔ raw = none := by
  cases raw with
  | none => simp [renderedDuration]
  | some text =>
    obtain ⟨rendered, secs, ns, heq, -⟩ := (hraw text rfl).rendered
    simp [heq]

theorem epochArgs_some_eq_empty_iff {e : EpochParameters} {o : KopiaEpoch} :
    epochArgs (.fromApi e) (some o) = {} ↔
      durDrift (renderedDuration e.minDuration) o.minEpochDurationNs = none ∧
      durDrift (renderedDuration e.refreshFrequency) o.epochRefreshFrequencyNs = none ∧
      numDrift e.advanceOnCount o.advanceOnCount = none ∧
      sizeDrift e.advanceOnSizeMb o.advanceOnTotalSizeBytes = none ∧
      numDrift e.checkpointFrequency o.checkpointFrequency = none ∧
      numDrift e.deleteParallelism o.deleteParallelism = none := by
  simp only [epochArgs, EpochParametersSpec.fromApi, SetParametersArgs.mk.injEq, sizeDrift,
    and_true]

section
variable {e : EpochParameters} (he : e.Storable)
  (hfits : ∀ w, e.advanceOnSizeMb = some w → SizeFits w)
include he hfits

theorem epochArgs_eq_empty_iff (o : Option KopiaEpoch) :
    epochArgs (.fromApi e) o = {} ↔ EpochMet e o := by
  have hmin := he.minDuration
  have hrefresh := he.refreshFrequency
  cases o with
  | none =>
    constructor
    · intro h
      simp only [epochArgs, EpochParametersSpec.fromApi, SetParametersArgs.mk.injEq,
        renderedDuration_eq_none_iff hmin, renderedDuration_eq_none_iff hrefresh] at h
      obtain ⟨h1, h2, h3, h4, h5, h6, -⟩ := h
      exact ⟨met_none.mpr h1, met_none.mpr h2, met_none.mpr h3, met_none.mpr h4, met_none.mpr h5,
        met_none.mpr h6⟩
    · intro h
      simp only [epochArgs, EpochParametersSpec.fromApi, SetParametersArgs.mk.injEq,
        renderedDuration_eq_none_iff hmin, renderedDuration_eq_none_iff hrefresh]
      exact ⟨met_none.mp h.minDuration, met_none.mp h.refreshFrequency,
        met_none.mp h.advanceOnCount, met_none.mp h.advanceOnSizeMb,
        met_none.mp h.checkpointFrequency, met_none.mp h.deleteParallelism, trivial, trivial⟩
  | some o =>
    rw [epochArgs_some_eq_empty_iff, durDrift_eq_none_iff hmin, durDrift_eq_none_iff hrefresh,
      numDrift_eq_none_iff, sizeDrift_eq_none_iff hfits, numDrift_eq_none_iff,
      numDrift_eq_none_iff]
    constructor
    · rintro ⟨h1, h2, h3, h4, h5, h6⟩
      exact ⟨met_some.mpr h1, met_some.mpr h2, met_some.mpr fun w hw => congrArg some (h3 w hw),
        met_some.mpr fun w hw => congrArg some (h4 w hw),
        met_some.mpr fun w hw => congrArg some (h5 w hw),
        met_some.mpr fun w hw => congrArg some (h6 w hw)⟩
    · intro h
      exact ⟨met_some.mp h.minDuration, met_some.mp h.refreshFrequency,
        fun w hw => Option.some.inj (met_some.mp h.advanceOnCount w hw),
        fun w hw => Option.some.inj (met_some.mp h.advanceOnSizeMb w hw),
        fun w hw => Option.some.inj (met_some.mp h.checkpointFrequency w hw),
        fun w hw => Option.some.inj (met_some.mp h.deleteParallelism w hw)⟩

theorem epochArgs_stored {k : KopiaParameters} {o : Option KopiaEpoch}
    (ho : o = none ∨ o = some k.epoch) (b : SetParametersArgs) :
    epochArgs (.fromApi e)
      (some (setParameters (withRetention (epochArgs (.fromApi e) o) b) k).epoch) = {} := by
  rw [epochArgs_some_eq_empty_iff]
  refine ⟨durDrift_stored he.minDuration ?_, durDrift_stored he.refreshFrequency ?_,
    numDrift_stored ?_, sizeDrift_stored hfits ?_, numDrift_stored ?_, numDrift_stored ?_⟩
  all_goals
    rcases ho with rfl | rfl
    · exact Or.inr rfl
    · exact Or.inl rfl

end

-- Retention

theorem blobRetentionDrift_window {mode text : String} {secs : Nat} {ns : Int}
    (hmode : mode ≠ "none") (hparse : parseGoDuration text = some secs)
    (hns : tryI64 (secs * nanosPerSec) = some ns) (o : Option KopiaRetention) :
    blobRetentionDrift (some ⟨mode, some text⟩) o =
      if o.any fun r => r.mode == mode && r.periodNs == ns then none
      else some { retentionMode := some mode, retentionPeriod := some text } := by
  unfold blobRetentionDrift
  rw [Option.bind_eq_bind, Option.bind_some]
  dsimp only
  rw [if_neg hmode, Option.bind_eq_bind, Option.bind_some, hparse, Option.bind_eq_bind,
    Option.bind_some, hns]
  rfl

section
variable {mode raw : String} (hmode : mode ≠ "none") (hraw : StorableDuration raw)
include hmode hraw

theorem window_drift : ∃ text ns, renderedDuration (some raw) = some text ∧
    durationNanos raw = some ns ∧ durationNanos text = some ns ∧
    ∀ o, blobRetentionDrift (some ⟨mode, renderedDuration (some raw)⟩) o =
      if o.any fun r => r.mode == mode && r.periodNs == ns then none
      else some { retentionMode := some mode, retentionPeriod := some text } := by
  obtain ⟨text, secs, ns, hrendered, hparse, htry, hns, htext⟩ := hraw.rendered
  refine ⟨text, ns, hrendered, hns, htext, fun o => ?_⟩
  rw [hrendered]
  exact blobRetentionDrift_window hmode hparse htry o

theorem window_drift_eq_none_iff {o : Option KopiaRetention} :
    blobRetentionDrift (some ⟨mode, renderedDuration (some raw)⟩) o = none ↔
      ∃ r, o = some r ∧ r.mode = mode ∧ durationNanos raw = some r.periodNs := by
  obtain ⟨text, ns, -, hns, -, hdrift⟩ := window_drift hmode hraw
  rw [hdrift, hns]
  cases o with
  | none => simp
  | some r => simp [eq_comm (a := ns)]

theorem window_stored {o : Option KopiaRetention} {a : SetParametersArgs} {k : KopiaParameters}
    (ho : o = none ∨ o = some k.retention) :
    blobRetentionDrift (some ⟨mode, renderedDuration (some raw)⟩)
      (some (setParameters (withRetention a
        ((blobRetentionDrift (some ⟨mode, renderedDuration (some raw)⟩) o).getD {})) k).retention)
      = none := by
  obtain ⟨text, ns, -, -, htext, hdrift⟩ := window_drift hmode hraw
  rw [hdrift o]
  split
  · next hmet =>
    rcases ho with rfl | rfl
    · cases hmet
    · rw [hdrift]
      exact if_pos hmet
  · rw [hdrift]
    simp [setParameters, withRetention, hmode, htext]

end

theorem blobRetentionDrift_disabled (o : Option KopiaRetention) :
    blobRetentionDrift (some ⟨"none", none⟩) o =
      if o.any KopiaRetention.isEnabled then some { retentionMode := some "none" } else none := by
  simp only [blobRetentionDrift, Option.bind_eq_bind, Option.bind_some, if_pos]

section
variable {p : RepositoryParameters}
  (hperiod : ∀ r w, p.blobRetention = some r → r.window = some w → StorableDuration w.period)
include hperiod

theorem blobRetentionDrift_eq_none_iff (o : Option KopiaRetention) :
    blobRetentionDrift (blobRetentionSpec p) o = none ↔
      ∀ r, p.blobRetention = some r → RetentionMet r o := by
  cases hr : p.blobRetention with
  | none => simp [blobRetentionSpec, hr, blobRetentionDrift]
  | some r =>
    have hone : (∀ r', some r = some r' → RetentionMet r' o) ↔ RetentionMet r o := by simp
    rw [hone]
    simp only [blobRetentionSpec, hr, Option.bind_some]
    match r with
    | .governance w =>
      exact window_drift_eq_none_iff (by decide) (hperiod _ w hr rfl)
    | .compliance w =>
      exact window_drift_eq_none_iff (by decide) (hperiod _ w hr rfl)
    | .disabled true =>
      simp only [BlobRetentionSpec.fromApi, blobRetentionDrift_disabled, RetentionMet]
      cases o <;> simp
    | .disabled false => simp [BlobRetentionSpec.fromApi, blobRetentionDrift, RetentionMet]

theorem blobRetentionDrift_stored {o : Option KopiaRetention} {k : KopiaParameters}
    (ho : o = none ∨ o = some k.retention)
    (hunseen : p.blobRetention = some (.disabled true) → o = none → k.retention.isEnabled = false)
    (a : SetParametersArgs) :
    blobRetentionDrift (blobRetentionSpec p)
      (some (setParameters (withRetention a
        ((blobRetentionDrift (blobRetentionSpec p) o).getD {})) k).retention) = none := by
  cases hr : p.blobRetention with
  | none => simp [blobRetentionSpec, hr, blobRetentionDrift]
  | some r =>
    simp only [blobRetentionSpec, hr, Option.bind_some]
    match r with
    | .governance w => exact window_stored (by decide) (hperiod _ w hr rfl) ho
    | .compliance w => exact window_stored (by decide) (hperiod _ w hr rfl) ho
    | .disabled false => rfl
    | .disabled true =>
      simp only [BlobRetentionSpec.fromApi, blobRetentionDrift_disabled]
      rcases ho with rfl | rfl
      · simp [setParameters, withRetention, hunseen hr rfl]
      · by_cases hon : k.retention.isEnabled = true
        · have hany : (some k.retention).any KopiaRetention.isEnabled = true := hon
          rw [if_pos hany]
          rfl
        · simp [hon, setParameters, withRetention]

end

theorem blobRetentionDrift_declared {p : RepositoryParameters} {o : Option KopiaRetention}
    {b : SetParametersArgs} (h : blobRetentionDrift (blobRetentionSpec p) o = some b) :
    (∃ r, p.blobRetention = some r ∧ r.asks = true) ∧
      (b.retentionPeriod.isSome → ((p.blobRetention.bind (·.window)).map (·.period)).isSome) := by
  cases hr : p.blobRetention with
  | none =>
    simp only [blobRetentionSpec, hr, Option.bind_none] at h
    cases h
  | some r =>
    simp only [blobRetentionSpec, hr, Option.bind_some] at h
    match r with
    | .governance w => exact ⟨⟨_, rfl, rfl⟩, fun _ => rfl⟩
    | .compliance w => exact ⟨⟨_, rfl, rfl⟩, fun _ => rfl⟩
    | .disabled false => cases h
    | .disabled true =>
      simp only [BlobRetentionSpec.fromApi, blobRetentionDrift_disabled] at h
      refine ⟨⟨_, rfl, rfl⟩, fun hperiod => ?_⟩
      split at h
      · cases h
        cases hperiod
      · cases h

theorem declared_of_renderedDuration {raw : Option String} (h : (renderedDuration raw).isSome) :
    raw.isSome := by
  cases raw with
  | none => cases h
  | some text => rfl

theorem declared_of_durDrift {raw : Option String} {n : Int}
    (h : (durDrift (renderedDuration raw) n).isSome) : raw.isSome := by
  cases raw with
  | none => cases h
  | some text => rfl

theorem declared_of_filter {want : Option Int} {keep : Int → Bool}
    (h : (want.filter keep).isSome) : want.isSome := by
  cases want with
  | none => cases h
  | some w => rfl

theorem onlyDeclared_of_drift {p : RepositoryParameters} {oe : Option KopiaEpoch}
    {ob : Option KopiaRetention} {a : SetParametersArgs} (h : p.drift oe ob = some a) :
    OnlyDeclared p a := by
  have ha := parametersDrift_eq_some h
  subst ha
  have hretention : ∀ {α : Type} {f : SetParametersArgs → Option α}, f {} = none →
      (f ((blobRetentionDrift (blobRetentionSpec p) ob).getD {})).isSome →
        ∃ b, blobRetentionDrift (blobRetentionSpec p) ob = some b ∧ (f b).isSome := by
    intro α f hf hsome
    cases hb : blobRetentionDrift (blobRetentionSpec p) ob with
    | none =>
      rw [hb, Option.getD_none, hf] at hsome
      cases hsome
    | some b =>
      rw [hb] at hsome
      exact ⟨b, rfl, hsome⟩
  have hmode : ((blobRetentionDrift (blobRetentionSpec p) ob).getD {}).retentionMode.isSome →
      ∃ r, p.blobRetention = some r ∧ r.asks = true := by
    intro hsome
    obtain ⟨b, hb, -⟩ := hretention rfl hsome
    exact (blobRetentionDrift_declared hb).1
  have hperiod : ((blobRetentionDrift (blobRetentionSpec p) ob).getD {}).retentionPeriod.isSome →
      ((p.blobRetention.bind (·.window)).map (·.period)).isSome := by
    intro hsome
    obtain ⟨b, hb, hb'⟩ := hretention rfl hsome
    exact (blobRetentionDrift_declared hb).2 hb'
  cases hp : p.epoch with
  | none =>
    have hempty : epochArgs (epochParametersSpec p) oe = {} := by
      simp only [epochParametersSpec, hp, Option.map_none, Option.getD_none, epochArgs_empty]
    rw [hempty]
    exact ⟨nofun, nofun, nofun, nofun, nofun, nofun, hmode, hperiod⟩
  | some e =>
    have hspec : epochParametersSpec p = .fromApi e := by
      simp only [epochParametersSpec, hp, Option.map_some, Option.getD_some]
    rw [hspec]
    cases oe with
    | none =>
      refine ⟨fun hs => ?_, fun hs => ?_, fun hs => ?_, fun hs => ?_, fun hs => ?_, fun hs => ?_,
        hmode, hperiod⟩ <;> rw [hp, Option.bind_some]
      · exact declared_of_renderedDuration hs
      · exact declared_of_renderedDuration hs
      all_goals exact hs
    | some o =>
      refine ⟨fun hs => ?_, fun hs => ?_, fun hs => ?_, fun hs => ?_, fun hs => ?_, fun hs => ?_,
        hmode, hperiod⟩ <;> rw [hp, Option.bind_some]
      · exact declared_of_durDrift hs
      · exact declared_of_durDrift hs
      all_goals exact declared_of_filter hs

theorem epochDrift_stored {p : RepositoryParameters} {k : KopiaParameters} {o : Option KopiaEpoch}
    (hstore : ∀ e, p.epoch = some e → e.Storable)
    (hfits : ∀ e w, p.epoch = some e → e.advanceOnSizeMb = some w → SizeFits w)
    (ho : o = none ∨ o = some k.epoch) (b : SetParametersArgs) :
    epochArgs (epochParametersSpec p)
      (some (setParameters (withRetention (epochArgs (epochParametersSpec p) o) b) k).epoch)
      = {} := by
  cases hp : p.epoch with
  | none =>
    simp only [epochParametersSpec, hp, Option.map_none, Option.getD_none]
    exact epochArgs_empty _
  | some e =>
    simp only [epochParametersSpec, hp, Option.map_some, Option.getD_some]
    exact epochArgs_stored (hstore e hp) (fun w hw => hfits e w hp hw) ho b

theorem epochDrift_met_iff {p : RepositoryParameters} {o : Option KopiaEpoch}
    (hstore : ∀ e, p.epoch = some e → e.Storable)
    (hfits : ∀ e w, p.epoch = some e → e.advanceOnSizeMb = some w → SizeFits w) :
    epochArgs (epochParametersSpec p) o = {} ↔ ∀ e, p.epoch = some e → EpochMet e o := by
  cases hp : p.epoch with
  | none =>
    simp only [epochParametersSpec, hp, Option.map_none, Option.getD_none, epochArgs_empty,
      reduceCtorEq, false_implies, implies_true]
  | some e =>
    simp only [epochParametersSpec, hp, Option.map_some, Option.getD_some,
      epochArgs_eq_empty_iff (hstore e hp) (fun w hw => hfits e w hp hw), Option.some.injEq,
      forall_eq']

theorem sizeFits_of_lt {w : Int} (hpos : 1 ≤ w) (hlt : w < 2 ^ 43) : SizeFits w := by
  simp only [SizeFits, i64Min, mib]
  omega

/-- Admitted parameters converge: once the flags sent are stored nothing is left to
send, nothing is sent only when all that is declared is observed, and only what is
declared is sent. A size whose bytes no repository holds never converges, and a
retention declared disabled is not acted on unobserved. -/
theorem parameters_converge {p : RepositoryParameters} {mode : RepositoryMode}
    {backend : Storage.Backend} {context : String}
    (hadmitted : validateRepositoryParameters (some p) mode backend context = [])
    {k : KopiaParameters} {oe : Option KopiaEpoch} {ob : Option KopiaRetention}
    (hobserves : Observes k oe ob) :
    ((∀ e w, p.epoch = some e → e.advanceOnSizeMb = some w → w < 2 ^ 43) →
      ((p.blobRetention = some (.disabled true) → ob = none → k.retention.isEnabled = false) →
        ∀ a, p.drift oe ob = some a → p.driftOf (setParameters a k) = none) ∧
      (p.drift oe ob = none ↔
        (∀ e, p.epoch = some e → EpochMet e oe) ∧
          ∀ r, p.blobRetention = some r → RetentionMet r ob)) ∧
    ∀ a, p.drift oe ob = some a → OnlyDeclared p a := by
  refine ⟨fun hsize => ?_, fun a ha => onlyDeclared_of_drift ha⟩
  have hstore : ∀ e, p.epoch = some e → e.Storable := fun e => storable_of_admitted hadmitted
  have hfits : ∀ e w, p.epoch = some e → e.advanceOnSizeMb = some w → SizeFits w :=
    fun e w he hw => sizeFits_of_lt ((hstore e he).advanceOnSizeMb w hw) (hsize e w he hw)
  have hperiod := fun r w (hr : p.blobRetention = some r) (hw : r.window = some w) =>
    period_of_admitted hadmitted hr hw
  constructor
  · intro hunseen a ha
    rw [parametersDrift_eq_some ha]
    exact parametersDrift_eq_none_iff.mpr ⟨epochDrift_stored hstore hfits hobserves.epoch _,
      blobRetentionDrift_stored hperiod hobserves.retention hunseen _⟩
  · exact parametersDrift_eq_none_iff.trans (and_congr (epochDrift_met_iff hstore hfits)
      (blobRetentionDrift_eq_none_iff hperiod ob))

/-- A bucket whose parameters are as kopia creates them, but for the retention. -/
def lockedBucket : KopiaParameters where
  epoch :=
    { minEpochDurationNs := 86400000000000
      epochRefreshFrequencyNs := 1200000000000
      cleanupSafetyMarginNs := 14400000000000
      advanceOnCount := 20
      advanceOnTotalSizeBytes := 10485760
      checkpointFrequency := 7
      deleteParallelism := 4 }
  retention := ⟨"GOVERNANCE", 2592000000000000⟩

theorem parameters_converge_two_days :
    let p : RepositoryParameters :=
      ⟨some { minDuration := some "6h", advanceOnSizeMb := some 32 }, some (.governance ⟨"48h"⟩)⟩
    ∃ a, p.drift (some lockedBucket.epoch) none = some a ∧
      p.driftOf (setParameters a lockedBucket) = none := by
  intro p
  have hadmitted :
      validateRepositoryParameters (some p) .readWrite (.s3 { bucket := "b" }) "r" = [] := by decide
  have hobserves : Observes lockedBucket (some lockedBucket.epoch) none := ⟨Or.inr rfl, Or.inl rfl⟩
  obtain ⟨hconverge, -⟩ := (parameters_converge hadmitted hobserves).1 (by rintro e w ⟨⟩ ⟨⟩; decide)
  exact ⟨_, rfl, hconverge (by rintro ⟨⟩) _ rfl⟩

/-- A size of 2^43 MiB is admitted and sent again once stored; and a retention in force
that is declared disabled is left as it is when it was not observed. -/
theorem parameters_not_converging :
    (let p : RepositoryParameters := ⟨some { advanceOnSizeMb := some (2 ^ 43) }, none⟩
     validateRepositoryParameters (some p) .readWrite (.filesystem { path := "/r" }) "r" = [] ∧
      ∃ a, p.driftOf lockedBucket = some a ∧
        p.driftOf (setParameters a lockedBucket) ≠ none) ∧
    (let p : RepositoryParameters := ⟨none, some (.disabled true)⟩
     validateRepositoryParameters (some p) .readWrite (.s3 { bucket := "b" }) "r" = [] ∧
      p.drift (some lockedBucket.epoch) none = none ∧ lockedBucket.retention.isEnabled = true) := by
  refine ⟨⟨by decide, _, rfl, by decide⟩, by decide, rfl, by decide⟩

end Kopiur.Parameters
