import Kopiur.Controller.FinishedWrites
import Kopiur.Lib.Rest

/-!
# Passes over a Snapshot whose run is over, one after the other

When the passes come to rest.
-/

namespace Kopiur

open Lib

-- Coming to rest

section Resting

open StatusCondition (find has upsertStatus)

variable {env : FinishedInputs} {now : DateTime} {w : FinishedWorld}

def hasType (conditions : List StatusCondition) (type : String) : Bool :=
  conditions.any fun c => c.type == type

variable {reason message : String} {generation : Option Int}

theorem hasType_upsertStatus {existing : List StatusCondition} {type other : String}
    {status : ConditionStatus} :
    hasType (upsertStatus now existing other status reason message generation) type =
      (other == type || hasType existing type) := by
  have hput : ∀ (u : StatusCondition) (l : List StatusCondition),
      hasType (StatusCondition.put u l) type = (u.type == type || hasType l type) := by
    intro u l
    induction l with
    | nil => simp [StatusCondition.put, hasType]
    | cons c rest ih =>
      rw [StatusCondition.put]
      split
      · next hc => cases hu : u.type == type <;> simp_all [hasType]
      · simp only [hasType, List.any_cons] at ih ⊢
        rw [ih, ← Bool.or_assoc, ← Bool.or_assoc, Bool.or_comm (c.type == type)]
  exact hput _ existing

theorem mayExist_eq (backup : FinishedSnapshot) : backup.pinView.pinJobMayExist =
    (backup.pin || backup.pinned.isSome || hasType backup.conditions pinnedCondition) := by
  simp [PinnedSnapshot.pinJobMayExist, FinishedSnapshot.pinView, hasType, List.any_map,
    Function.comp_def]

def FinishedSnapshot.endDue (backup : FinishedSnapshot) : Bool :=
  if backup.phase = some .failed then !backup.snapshotStalled else !backup.ready

/-- What later conditions keep of those of the start. -/
structure ConditionsKept (backup : FinishedSnapshot)
    (conditions : List StatusCondition) : Prop where
  ending : FinishedSnapshot.endDue { backup with conditions := conditions } = true →
    backup.endDue = true
  incomplete : FinishedSnapshot.newlyIncomplete { backup with conditions := conditions } = true →
    backup.newlyIncomplete = true

variable {backup : FinishedSnapshot} {conditions : List StatusCondition}

theorem ConditionsKept.refl : ConditionsKept backup backup.conditions := ⟨id, id⟩

theorem noted_upsert_other {type : String} {status : ConditionStatus}
    (h : type ≠ securityContextCompatibleCondition) :
    FinishedSnapshot.newlyIncomplete
        { backup with
          conditions := upsertStatus now conditions type status reason message generation } =
      FinishedSnapshot.newlyIncomplete { backup with conditions := conditions } := by
  simp only [FinishedSnapshot.newlyIncomplete, FinishedSnapshot.noted,
    StatusCondition.find_upsertStatus_other h]

theorem endDue_upsert_other {type : String} {status : ConditionStatus}
    (hready : type ≠ readyCondition) (hstalled : type ≠ stalledCondition) :
    FinishedSnapshot.endDue
        { backup with
          conditions := upsertStatus now conditions type status reason message generation } =
      FinishedSnapshot.endDue { backup with conditions := conditions } := by
  simp only [FinishedSnapshot.endDue, ready_eq, snapshotStalled_eq,
    StatusCondition.has_upsertStatus_other hready, StatusCondition.has_upsertStatus_other hstalled]

theorem ConditionsKept.upsert_other {type : String} {status : ConditionStatus}
    (h : ConditionsKept backup conditions) (hready : type ≠ readyCondition)
    (hstalled : type ≠ stalledCondition) (hother : type ≠ securityContextCompatibleCondition) :
    ConditionsKept backup (upsertStatus now conditions type status reason message generation) where
  ending := by
    rw [endDue_upsert_other hready hstalled]
    exact h.ending
  incomplete := by
    rw [noted_upsert_other hother]
    exact h.incomplete

theorem newlyIncomplete_assessed :
    FinishedSnapshot.newlyIncomplete
      { backup with
        conditions := StatusCondition.upsert now backup.conditions
          securityContextCompatibleCondition false snapshotIncompleteReason
          (FinishedSnapshot.incompleteMessage backup.filesFailed) backup.generation } = false := by
  obtain ⟨t, ht⟩ := upsert_same now backup.conditions securityContextCompatibleCondition false
    snapshotIncompleteReason (FinishedSnapshot.incompleteMessage backup.filesFailed)
    backup.generation
  simp [FinishedSnapshot.newlyIncomplete, FinishedSnapshot.noted, ht]

theorem ConditionsKept.assessed : ConditionsKept backup (StatusCondition.upsert now
    backup.conditions securityContextCompatibleCondition false snapshotIncompleteReason
    (FinishedSnapshot.incompleteMessage backup.filesFailed) backup.generation) where
  ending := by
    rw [StatusCondition.upsert, endDue_upsert_other (by decide) (by decide)]
    exact id
  incomplete h := by
    rw [newlyIncomplete_assessed] at h
    cases h

theorem find_setReady_security {outcome : ReadyOutcome} :
    find (StatusCondition.setReady now conditions generation outcome reason message)
        securityContextCompatibleCondition =
      find conditions securityContextCompatibleCondition :=
  StatusCondition.find_setReady_other (by decide) (by decide) (by decide)

theorem newlyIncomplete_setReady {outcome : ReadyOutcome} :
    FinishedSnapshot.newlyIncomplete
        { backup with
          conditions := StatusCondition.setReady now backup.conditions backup.generation outcome
            reason message } = backup.newlyIncomplete := by
  simp only [FinishedSnapshot.newlyIncomplete, FinishedSnapshot.noted,
    find_setReady_security]

theorem endDue_healed (hphase : backup.phase ≠ some .failed) :
    FinishedSnapshot.endDue
      { backup with
        conditions := StatusCondition.setReady now backup.conditions backup.generation .ready
          reason message } = false := by
  simp [FinishedSnapshot.endDue, hphase, ready_eq, has_setReady_ready]

theorem endDue_stalled (now : DateTime) (reason message : String)
    (hphase : backup.phase = some .failed) :
    FinishedSnapshot.endDue
      { backup with
        conditions := StatusCondition.setReady now backup.conditions backup.generation .stalled
          reason message } = false := by
  simp [FinishedSnapshot.endDue, hphase, snapshotStalled_eq, has_setReady_stalled]

theorem ConditionsKept.setReady {outcome : ReadyOutcome}
    (h : FinishedSnapshot.endDue
      { backup with
        conditions := StatusCondition.setReady now backup.conditions backup.generation outcome
          reason message } = false) :
    ConditionsKept backup (StatusCondition.setReady now backup.conditions backup.generation outcome
      reason message) where
  ending hdue := by
    rw [h] at hdue
    cases hdue
  incomplete := by
    rw [newlyIncomplete_setReady]
    exact id

theorem hasType_setReady {outcome : ReadyOutcome} {type : String} (hready : readyCondition ≠ type)
    (hreconciling : reconcilingCondition ≠ type) (hstalled : stalledCondition ≠ type) :
    hasType (StatusCondition.setReady now conditions generation outcome reason message) type =
      hasType conditions type := by
  simp [StatusCondition.setReady, StatusCondition.upsert, hasType_upsertStatus,
    beq_eq_false_iff_ne.mpr hready, beq_eq_false_iff_ne.mpr hreconciling,
    beq_eq_false_iff_ne.mpr hstalled]

def hooksDue (env : FinishedInputs) (backup : FinishedSnapshot) : Bool :=
  (backup.postHooks env).any Except.isOk

def remaining (env : FinishedInputs) (w : FinishedWorld) : Nat :=
  2 * (hooksDue env w.backup).toNat + w.backup.endDue.toNat + w.backup.newlyIncomplete.toNat +
    w.backup.credsReapedAt.isNone.toNat + w.backup.credentialProjection.isNone.toNat +
    w.backup.repository.isNone.toNat + w.pinSteps env

/-- Nothing that is done is undone. -/
structure Forward (env : FinishedInputs) (w w' : FinishedWorld) : Prop where
  hooks : hooksDue env w'.backup = true → hooksDue env w.backup = true
  ending : w'.backup.endDue = true → w.backup.endDue = true
  incomplete : w'.backup.newlyIncomplete = true → w.backup.newlyIncomplete = true
  creds : w.backup.credsReapedAt.isSome → w'.backup.credsReapedAt.isSome
  projection : w.backup.credentialProjection.isSome → w'.backup.credentialProjection.isSome
  repository : w.backup.repository.isSome → w'.backup.repository.isSome
  pin : w'.pinSteps env ≤ w.pinSteps env

/-- Something is done. -/
def Advances (env : FinishedInputs) (w w' : FinishedWorld) : Prop :=
  (hooksDue env w.backup = true ∧ hooksDue env w'.backup = false) ∨
    (w.backup.endDue = true ∧ w'.backup.endDue = false) ∨
    (w.backup.newlyIncomplete = true ∧ w'.backup.newlyIncomplete = false) ∨
    (w.backup.credsReapedAt = none ∧ w'.backup.credsReapedAt.isSome) ∨
    (w.backup.credentialProjection = none ∧ w'.backup.credentialProjection.isSome) ∨
    (w.backup.repository = none ∧ w'.backup.repository.isSome) ∨
    w'.pinSteps env < w.pinSteps env

theorem isNone_toNat_le {α : Type} {a b : Option α} (h : a.isSome → b.isSome) :
    b.isNone.toNat ≤ a.isNone.toNat := by
  cases a <;> cases b <;> simp_all

theorem Forward.remaining_lt {w' : FinishedWorld} (h : Forward env w w')
    (hadvances : Advances env w w') : remaining env w' < remaining env w := by
  have hhooks := Bool.toNat_le_toNat (Bool.le_iff_imp.mpr h.hooks)
  have hover := Bool.toNat_le_toNat (Bool.le_iff_imp.mpr h.ending)
  have hincomplete := Bool.toNat_le_toNat (Bool.le_iff_imp.mpr h.incomplete)
  have hcreds := isNone_toNat_le h.creds
  have hprojection := isNone_toNat_le h.projection
  have hrepository := isNone_toNat_le h.repository
  have hpin := h.pin
  have hsome : ∀ {α : Type} {o : Option α}, o.isSome = true → o.isNone.toNat = 0 := by
    rintro α (_ | a) h
    · cases h
    · rfl
  unfold remaining
  rcases hadvances with ⟨h1, h2⟩ | ⟨h1, h2⟩ | ⟨h1, h2⟩ | ⟨h1, h2⟩ | ⟨h1, h2⟩ | ⟨h1, h2⟩ | h1
  · rw [h1, h2] at hhooks ⊢
    simp only [Bool.toNat_true, Bool.toNat_false]
    omega
  · rw [h1, h2] at hover ⊢
    simp only [Bool.toNat_true, Bool.toNat_false]
    omega
  · rw [h1, h2] at hincomplete ⊢
    simp only [Bool.toNat_true, Bool.toNat_false]
    omega
  · rw [hsome h2] at hcreds ⊢
    rw [h1]
    simp only [Option.isNone_none, Bool.toNat_true]
    omega
  · rw [hsome h2] at hprojection ⊢
    rw [h1]
    simp only [Option.isNone_none, Bool.toNat_true]
    omega
  · rw [hsome h2] at hrepository ⊢
    rw [h1]
    simp only [Option.isNone_none, Bool.toNat_true]
    omega
  · omega

-- One pass

variable {w' : FinishedWorld} {writes tail : List FinishedPatch} {calls : List PinCall}

theorem endDue_over {a b : FinishedSnapshot} (hphase : a.phase = b.phase) :
    a.endDue = FinishedSnapshot.endDue { b with conditions := a.conditions } := by
  simp only [FinishedSnapshot.endDue, ready_eq, snapshotStalled_eq, hphase]

theorem newlyIncomplete_over {a b : FinishedSnapshot} (hfailed : a.filesFailed = b.filesFailed)
    (hgeneration : a.generation = b.generation) :
    a.newlyIncomplete = FinishedSnapshot.newlyIncomplete { b with conditions := a.conditions } := by
  simp only [FinishedSnapshot.newlyIncomplete, FinishedSnapshot.noted, hfailed, hgeneration]

theorem postHooks_patched (h : (w.backup.patched writes).postCompletedAt.isSome =
    w.backup.postCompletedAt.isSome) :
    (w.backup.patched writes).postHooks env = w.backup.postHooks env := by
  simp only [FinishedSnapshot.postHooks, h, (patched_sameSpec _ writes).policyRef]

theorem hooksDue_patched (h : hooksDue env (w.backup.patched writes) = true) :
    hooksDue env w.backup = true := by
  cases hdone : w.backup.postCompletedAt.isSome with
  | true =>
    have hdone' : (w.backup.patched writes).postCompletedAt.isSome = true := by
      rw [patched_field_isSome (f := FinishedPatch.postCompletedAt) fun _ _ => rfl, hdone,
        Bool.or_true]
    simp [hooksDue, FinishedSnapshot.postHooks, hdone'] at h
  | false =>
    cases hdone' : (w.backup.patched writes).postCompletedAt.isSome with
    | true => simp [hooksDue, FinishedSnapshot.postHooks, hdone'] at h
    | false =>
      rw [hooksDue, postHooks_patched (hdone'.trans hdone.symm)] at h
      exact h

theorem patched_isSome_mono {α : Type} {f : FinishedPatch → Option α}
    {g : FinishedSnapshot → Option α} (hfg : ∀ p b, g (FinishedPatch.apply p b) = (f p <|> g b))
    (h : (g w.backup).isSome) : (g (w.backup.patched writes)).isSome := by
  rw [patched_field_isSome hfg, h, Bool.or_true]

theorem Forward.of_writes (hbackup : w'.backup = w.backup.patched writes)
    (hphase : w'.backup.phase = w.backup.phase)
    (hkept : ConditionsKept w.backup w'.backup.conditions)
    (hpin : w'.pinSteps env ≤ w.pinSteps env) : Forward env w w' where
  hooks := by
    rw [hbackup]
    exact hooksDue_patched
  ending h := by
    rw [endDue_over hphase] at h
    exact hkept.ending h
  incomplete h := by
    have hspec := patched_sameSpec w.backup writes
    rw [← hbackup] at hspec
    rw [newlyIncomplete_over hspec.filesFailed hspec.generation] at h
    exact hkept.incomplete h
  creds := by
    rw [hbackup]
    exact patched_isSome_mono (f := FinishedPatch.credsReapedAt) fun _ _ => rfl
  projection := by
    rw [hbackup]
    exact patched_isSome_mono (f := FinishedPatch.credentialProjection) fun _ _ => rfl
  repository := by
    rw [hbackup]
    exact patched_isSome_mono (f := FinishedPatch.repository) fun _ _ => rfl
  pin := hpin

theorem Stamps.advances {p : FinishedPatch} (h : Stamps w.backup p) (hp : p ∈ writes)
    (hbackup : w'.backup = w.backup.patched writes) : Advances env w w' := by
  have hset : ∀ {α : Type} (f : FinishedPatch → Option α) (g : FinishedSnapshot → Option α),
      (∀ p b, g (FinishedPatch.apply p b) = (f p <|> g b)) → (f p).isSome →
        (g w'.backup).isSome := by
    intro α f g hfg hsome
    rw [hbackup, patched_field_isSome hfg, Bool.or_eq_true_iff, List.any_eq_true]
    exact .inl ⟨p, hp, hsome⟩
  rcases h.sets with ⟨hnone, hsome⟩ | ⟨hnone, hsome⟩ | ⟨hnone, hsome⟩
  · exact .inr (.inr (.inr (.inl ⟨hnone,
      hset FinishedPatch.credsReapedAt _ (fun _ _ => rfl) hsome⟩)))
  · exact .inr (.inr (.inr (.inr (.inl ⟨hnone,
      hset FinishedPatch.credentialProjection _ (fun _ _ => rfl) hsome⟩))))
  · exact .inr (.inr (.inr (.inr (.inr (.inl ⟨hnone,
      hset FinishedPatch.repository _ (fun _ _ => rfl) hsome⟩)))))

theorem hooks_advance {p : FinishedPatch} (hdue : hooksDue env w.backup = true)
    (hp : p ∈ writes) (hsome : p.postCompletedAt.isSome)
    (hbackup : w'.backup = w.backup.patched writes) : Advances env w w' := by
  refine .inl ⟨hdue, ?_⟩
  have hdone : w'.backup.postCompletedAt.isSome = true := by
    rw [hbackup, patched_field_isSome (f := FinishedPatch.postCompletedAt) fun _ _ => rfl,
      Bool.or_eq_true_iff, List.any_eq_true]
    exact .inl ⟨p, hp, hsome⟩
  simp [hooksDue, FinishedSnapshot.postHooks, hdone]

theorem hookStamps_due (hhooks : w.backup.hooksPass env = true)
    (h : hookStamps env now w.backup ≠ []) : hooksDue env w.backup = true := by
  rcases hooksPass_iff.mp hhooks with hnone | hok
  · simp [hookStamps, hnone] at h
  · simp [hooksDue, hok, Except.isOk, Except.toBool]

theorem healing_conditions (htail : Tail env now backup tail) :
    let after := (backup.patched (hookStamps env now backup ++ healing now backup ++
      tail)).conditions
    (backup.newlyIncomplete = true ∧ after = StatusCondition.upsert now backup.conditions
        securityContextCompatibleCondition false snapshotIncompleteReason
        (FinishedSnapshot.incompleteMessage backup.filesFailed) backup.generation) ∨
      (backup.newlyIncomplete = false ∧ backup.ready = false ∧ ∃ reason message,
        after = StatusCondition.setReady now backup.conditions backup.generation .ready reason
          message) ∨
      (backup.newlyIncomplete = false ∧ backup.ready = true ∧ after = backup.conditions) := by
  have htailConditions := filterMap_conditions_nil fun p hp => (htail.stamps p hp).conditions
  simp only [patched_conditions, List.filterMap_append, healing, hookStamps_conditions,
    htailConditions, List.nil_append, List.append_nil, assessCompletedBackup_eq]
  cases hincomplete : backup.newlyIncomplete with
  | true => simp
  | false =>
    cases hready : backup.ready with
    | true => simp [FinishedSnapshot.healReady, hready]
    | false =>
      obtain ⟨reason, message, hheal⟩ := healReady_conditions now hready
      refine .inr (.inl ⟨rfl, rfl, reason, message, ?_⟩)
      simp [hheal]

theorem healing_kept (htail : Tail env now backup tail) (hphase : backup.phase ≠ some .failed) :
    ConditionsKept backup (backup.patched (hookStamps env now backup ++ healing now backup ++
      tail)).conditions := by
  rcases healing_conditions htail with ⟨-, h⟩ | ⟨-, -, reason, message, h⟩ | ⟨-, -, h⟩
  · rw [h]
    exact .assessed
  · rw [h]
    exact .setReady (endDue_healed hphase)
  · rw [h]
    exact .refl

theorem healing_hasType (htail : Tail env now backup tail) :
    hasType (backup.patched (hookStamps env now backup ++ healing now backup ++
      tail)).conditions pinnedCondition = hasType backup.conditions pinnedCondition := by
  rcases healing_conditions htail with ⟨-, h⟩ | ⟨-, -, reason, message, h⟩ | ⟨-, -, h⟩
  · rw [h, StatusCondition.upsert, hasType_upsertStatus]
    rfl
  · rw [h]
    exact hasType_setReady (by decide) (by decide) (by decide)
  · rw [h]

/-- The write leaves the phase as it is, and says nothing of the pin and the
projection. -/
structure Plain (backup : FinishedSnapshot) (p : FinishedPatch) : Prop where
  phase : p.phase = none ∨ p.phase = backup.phase
  pinned : p.pinned = none
  projection : p.credentialProjection = none
  repository : p.repository = none

theorem healing_plain (hphase : backup.phase = some .succeeded ∨ backup.phase = some .unchanged) :
    ∀ p ∈ hookStamps env now backup ++ healing now backup, Plain backup p := by
  rintro p hp
  rcases List.mem_append.mp hp with hp | hp
  · unfold hookStamps at hp
    split at hp
    · obtain rfl := List.mem_singleton.mp hp
      exact ⟨.inl rfl, rfl, rfl, rfl⟩
    · cases hp
  · rcases List.mem_append.mp hp with hp | hp
    · unfold FinishedSnapshot.healReady at hp
      split at hp
      · cases hp
      · split at hp
        · next hunchanged =>
          obtain rfl := List.mem_singleton.mp hp
          exact ⟨.inr hunchanged.symm, rfl, rfl, rfl⟩
        · next hother =>
          obtain rfl := List.mem_singleton.mp hp
          exact ⟨.inr (hphase.resolve_right hother).symm, rfl, rfl, rfl⟩
    · rw [assessCompletedBackup_eq] at hp
      split at hp
      · obtain rfl := List.mem_singleton.mp hp
        exact ⟨.inl rfl, rfl, rfl, rfl⟩
      · cases hp

theorem healing_fields (htail : Tail env now backup tail)
    (hphase : backup.phase = some .succeeded ∨ backup.phase = some .unchanged) :
    ∀ p ∈ hookStamps env now backup ++ healing now backup ++ tail,
      (p.phase = none ∨ p.phase = backup.phase) ∧ p.pinned = none := by
  rintro p hp
  rcases List.mem_append.mp hp with hp | hp
  · have hplain := healing_plain hphase p hp
    exact ⟨hplain.phase, hplain.pinned⟩
  · have hstamps := htail.stamps p hp
    exact ⟨.inl hstamps.phase, hstamps.pinned⟩

theorem tail_backfill (h : Tail env now backup tail) :
    (backup.backfillProjectionPin env).isOk = true ∨
      ∀ p ∈ tail, p.credentialProjection = none ∧ p.repository = none := by
  have hreap : ∀ p ∈ backup.reapBackupCredsOnce env now,
      p.credentialProjection = none ∧ p.repository = none := by
    rintro p hp
    unfold FinishedSnapshot.reapBackupCredsOnce at hp
    split at hp
    · cases hp
    · obtain rfl := List.mem_singleton.mp hp
      exact ⟨rfl, rfl⟩
  cases h with
  | none =>
    right
    rintro _ ⟨⟩
  | reap => exact .inr hreap
  | all hfilled =>
    left
    rw [hfilled]
    rfl

theorem next_backup : (w.next env now).backup = w.backup.patched (w.pass env now).1 := rfl

theorem pinSteps_same (hcalls : (w.pass env now).2 = [])
    (hpinned : ∀ p ∈ (w.pass env now).1, p.pinned = none) :
    (w.next env now).pinSteps env = w.pinSteps env ∧
      (w.next env now).pinSettles env = w.pinSettles env ∧
      (w.next env now).backup.pinned = w.backup.pinned := by
  have hspec := patched_sameSpec w.backup (w.pass env now).1
  have hsame : (w.next env now).backup.pinned = w.backup.pinned :=
    patched_field_eq (f := FinishedPatch.pinned) (fun _ _ => rfl) fun p hp => .inl (hpinned p hp)
  have hqueue : (w.next env now).queue = w.queue :=
    queue_same hspec.name (by simp [FinishedWorld.next, hcalls])
  refine ⟨?_, ?_, hsame⟩
  · rw [FinishedWorld.pinSteps, FinishedWorld.pinSteps, hsame, hqueue, next_backup, hspec.pin,
      hspec.known]
  · rw [FinishedWorld.pinSettles, FinishedWorld.pinSettles, hsame, hqueue, next_backup, hspec.pin,
      hspec.known]

theorem phase_same (hphase : ∀ p ∈ (w.pass env now).1, p.phase = none ∨ p.phase = w.backup.phase) :
    (w.next env now).backup.phase = w.backup.phase :=
  patched_field_eq (f := FinishedPatch.phase) (fun _ _ => rfl) hphase

theorem healing_progress (htail : Tail env now w.backup tail)
    (hhooks : w.backup.hooksPass env = true)
    (hphase : w.backup.phase = some .succeeded ∨ w.backup.phase = some .unchanged)
    (hbackup : w'.backup = w.backup.patched
      (hookStamps env now w.backup ++ healing now w.backup ++ tail))
    (hsame : w'.backup.phase = w.backup.phase) :
    hookStamps env now w.backup ++ healing now w.backup ++ tail = [] ∨ Advances env w w' := by
  have hspec := patched_sameSpec w.backup
    (hookStamps env now w.backup ++ healing now w.backup ++ tail)
  rw [← hbackup] at hspec
  have hnotFailed : w.backup.phase ≠ some .failed := by
    rcases hphase with h | h <;> simp [h]
  by_cases hstamps : hookStamps env now w.backup = []
  · rcases healing_conditions htail with ⟨hdue, hafter⟩ | ⟨-, hready, reason, message, hafter⟩ |
      ⟨hnone, hready, -⟩
    · refine .inr (.inr (.inr (.inl ⟨hdue, ?_⟩)))
      rw [← hbackup] at hafter
      rw [newlyIncomplete_over hspec.filesFailed hspec.generation, hafter]
      exact newlyIncomplete_assessed
    · refine .inr (.inr (.inl ⟨by simp [FinishedSnapshot.endDue, hnotFailed, hready], ?_⟩))
      rw [← hbackup] at hafter
      rw [endDue_over hsame, hafter]
      exact endDue_healed hnotFailed
    · have hhealing : healing now w.backup = [] := by
        simp [healing, FinishedSnapshot.healReady, hready, assessCompletedBackup_eq, hnone]
      rcases tail with _ | ⟨p, rest⟩
      · exact .inl (by simp [hstamps, hhealing])
      · exact .inr ((htail.stamps p (by simp)).advances (by simp) hbackup)
  · right
    refine hooks_advance (hookStamps_due hhooks hstamps) (p := { postCompletedAt := some now }) ?_
      rfl hbackup
    unfold hookStamps at hstamps ⊢
    split at hstamps
    · next h => simp [h]
    · exact absurd rfl hstamps

theorem pinPatch_plain {base : List StatusCondition} {p : FinishedPatch}
    (h : p ∈ calls.filterMap (backup.pinPatch now base)) :
    p.phase = none ∧ p.postCompletedAt = none ∧ p.credentialProjection = none ∧
      p.repository = none := by
  obtain ⟨call, -, hcall⟩ := List.mem_filterMap.mp h
  cases call with
  | create | delete => cases hcall
  | mark | record | markFailed =>
    obtain rfl := Option.some.inj hcall
    exact ⟨rfl, rfl, rfl, rfl⟩

theorem patched_pinned {base : List StatusCondition} {queue : List PinJob}
    (h : QueueStep env backup queue calls) (start : FinishedSnapshot) :
    (start.patched (calls.filterMap (backup.pinPatch now base))).pinned =
      (calls.findSome? PinCall.recorded <|> start.pinned) := by
  cases h <;> rfl

/-- The pass of a successful run whose hooks pass, and what it does of the pin. -/
inductive SucceededPass (env : FinishedInputs) (now : DateTime) (w : FinishedWorld)
    (tail : List FinishedPatch) : FinishedSnapshot.PassOutcome → Prop
  | bare (stops : (w.backup.reachesPin env && w.backup.pinView.pinJobMayExist) = false) :
      SucceededPass env now w tail
        (hookStamps env now w.backup ++ healing now w.backup ++ tail, [])
  | pins {base : List StatusCondition}
      (reaches : (w.backup.reachesPin env && w.backup.pinView.pinJobMayExist) = true)
      (live : base = (w.backup.patched (hookStamps env now w.backup ++ healing now w.backup ++
        tail)).conditions ∨ base = w.backup.conditions) :
      SucceededPass env now w tail
        (hookStamps env now w.backup ++ healing now w.backup ++ tail ++
          (queueCalls env w.backup w.queue).filterMap (w.backup.pinPatch now base),
          queueCalls env w.backup w.queue)

theorem succeeded_pass (now : DateTime) (hhooks : w.backup.hooksPass env = true)
    (hphase : w.backup.phase = some .succeeded ∨ w.backup.phase = some .unchanged) :
    ∃ tail, Tail env now w.backup tail ∧ SucceededPass env now w tail (w.pass env now) := by
  have hdecision : runDecision w.backup.phase = .succeededSteadyState := by
    rcases hphase with h | h <;> rw [h] <;> rfl
  simp only [FinishedWorld.pass, FinishedSnapshot.finishedPass, hdecision]
  obtain ⟨tail, htail, ⟨hstops, heq⟩ | ⟨hreach, heq⟩⟩ :=
    succeededPass_cases now hhooks w.getJob hphase
  · refine ⟨tail, htail, ?_⟩
    rw [heq]
    exact .bare (by simp [hstops])
  · refine ⟨tail, htail, ?_⟩
    simp only [heq, FinishedSnapshot.withPin, pinCalls_queue]
    cases hopen : w.backup.pinView.pinJobMayExist with
    | false =>
      simp only [Bool.false_eq_true, if_false, List.filterMap_nil, List.append_nil]
      exact .bare (by simp [hopen])
    | true =>
      simp only [if_true]
      refine .pins (by simp [hreach, hopen]) ?_
      split
      · exact .inl rfl
      · exact .inr rfl

theorem backfill_patched_isOk (h : ∀ p ∈ writes,
    (backup.backfillProjectionPin env).isOk = true ∨
      (p.credentialProjection = none ∧ p.repository = none)) :
    ((backup.patched writes).backfillProjectionPin env).isOk =
      (backup.backfillProjectionPin env).isOk := by
  have hspec := patched_sameSpec backup writes
  cases hok : (backup.backfillProjectionPin env).isOk with
  | true =>
    refine backfill_isOk_mono hspec.policyRef hspec.known ?_ ?_ hok
    · intro hsome
      rw [patched_field_isSome (f := FinishedPatch.credentialProjection) fun _ _ => rfl, hsome,
        Bool.or_true]
    · intro hsome
      rw [patched_field_isSome (f := FinishedPatch.repository) fun _ _ => rfl, hsome,
        Bool.or_true]
  | false =>
    have hnone : ∀ p ∈ writes, p.credentialProjection = none ∧ p.repository = none := by
      intro p hp
      refine (h p hp).resolve_left ?_
      rw [hok]
      exact Bool.false_ne_true
    have hprojection : (backup.patched writes).credentialProjection =
        backup.credentialProjection :=
      patched_field_eq (f := FinishedPatch.credentialProjection) (fun _ _ => rfl)
        fun p hp => .inl (hnone p hp).1
    have hrepository : (backup.patched writes).repository = backup.repository :=
      patched_field_eq (f := FinishedPatch.repository) (fun _ _ => rfl)
        fun p hp => .inl (hnone p hp).2
    rw [← hok]
    simp only [FinishedSnapshot.backfillProjectionPin, hspec.policyRef, hspec.known, hprojection,
      hrepository]

theorem hooksPass_patched (h : backup.hooksPass env = true) :
    (backup.patched writes).hooksPass env = true := by
  have hspec := patched_sameSpec backup writes
  cases hdone : (backup.patched writes).postCompletedAt.isSome with
  | true => simp [FinishedSnapshot.hooksPass, FinishedSnapshot.postHooks, hdone]
  | false =>
    have hleft : backup.postCompletedAt.isSome = false := by
      rw [patched_field_isSome (f := FinishedPatch.postCompletedAt) fun _ _ => rfl,
        Bool.or_eq_false_iff] at hdone
      exact hdone.2
    simp only [FinishedSnapshot.hooksPass, FinishedSnapshot.postHooks, hdone, hleft,
      hspec.policyRef] at h ⊢
    exact h

theorem succeeded_bare (hpass : SucceededPass env now w tail (w.pass env now))
    (hstops : (w.backup.reachesPin env &&
    w.backup.pinView.pinJobMayExist) = false) :
    w.pass env now = (hookStamps env now w.backup ++ healing now w.backup ++ tail, []) := by
  generalize w.pass env now = outcome at hpass
  cases hpass with
  | bare => rfl
  | pins hreaches =>
    rw [hreaches] at hstops
    cases hstops

theorem succeeded_pins (hpass : SucceededPass env now w tail (w.pass env now))
    (hreaches : (w.backup.reachesPin env && w.backup.pinView.pinJobMayExist) = true) :
    ∃ base, w.pass env now = (hookStamps env now w.backup ++ healing now w.backup ++ tail ++
      (queueCalls env w.backup w.queue).filterMap (w.backup.pinPatch now base),
      queueCalls env w.backup w.queue) := by
  generalize w.pass env now = outcome at hpass
  cases hpass with
  | bare hstops =>
    rw [hreaches] at hstops
    cases hstops
  | pins => exact ⟨_, rfl⟩

section Succeeded

variable (hphase : w.backup.phase = some .succeeded ∨ w.backup.phase = some .unchanged)
  (hhooks : w.backup.hooksPass env = true) (htail : Tail env now w.backup tail)
  (hpass : SucceededPass env now w tail (w.pass env now))

include hphase htail hpass

theorem succeeded_plain : ∀ p ∈ (w.pass env now).1,
    (p.phase = none ∨ p.phase = w.backup.phase) ∧
      ((w.backup.backfillProjectionPin env).isOk = true ∨
        (p.credentialProjection = none ∧ p.repository = none)) := by
  have hwrites : ∀ p ∈ hookStamps env now w.backup ++ healing now w.backup ++ tail,
      (p.phase = none ∨ p.phase = w.backup.phase) ∧
        ((w.backup.backfillProjectionPin env).isOk = true ∨
          (p.credentialProjection = none ∧ p.repository = none)) := by
    rintro p hp
    refine ⟨(healing_fields htail hphase p hp).1, ?_⟩
    rcases List.mem_append.mp hp with hp | hp
    · have hplain := healing_plain hphase p hp
      exact .inr ⟨hplain.projection, hplain.repository⟩
    · exact (tail_backfill htail).imp id fun h => h p hp
  generalize w.pass env now = outcome at hpass
  cases hpass with
  | bare => exact hwrites
  | pins =>
    rintro p hp
    rcases List.mem_append.mp hp with hp | hp
    · exact hwrites p hp
    · obtain ⟨hnone, -, hprojection, hrepository⟩ := pinPatch_plain hp
      exact ⟨.inl hnone, .inr ⟨hprojection, hrepository⟩⟩

theorem succeeded_phase : (w.next env now).backup.phase = w.backup.phase :=
  phase_same fun p hp => (succeeded_plain hphase htail hpass p hp).1

theorem succeeded_conditions :
    ConditionsKept w.backup (w.next env now).backup.conditions ∧
      hasType (w.next env now).backup.conditions pinnedCondition =
        (hasType w.backup.conditions pinnedCondition ||
          ((w.pass env now).2.any PinCall.writes)) := by
  have hnotFailed : w.backup.phase ≠ some .failed := by
    rcases hphase with h | h <;> simp [h]
  have hkept := healing_kept htail hnotFailed
  have htype := healing_hasType htail
  rw [next_backup]
  generalize w.pass env now = outcome at hpass
  cases hpass with
  | bare => exact ⟨hkept, by rw [htype]; simp⟩
  | @pins base hreaches hlive =>
    rw [patched_append, patched_conditions]
    rcases pin_conditions now base (queueCalls_step env w.backup w.queue) with
      ⟨hnone, hquiet⟩ | ⟨hnews, status, reason, message, hsome⟩
    · rw [hnone, hquiet, Bool.or_false]
      exact ⟨hkept, htype⟩
    · rw [hsome, hnews, Bool.or_true, List.getLastD_cons, List.getLastD_nil, hasType_upsertStatus,
        beq_self_eq_true, Bool.true_or]
      refine ⟨?_, rfl⟩
      rcases hlive with rfl | rfl
      · exact hkept.upsert_other (by decide) (by decide) (by decide)
      · exact ConditionsKept.refl.upsert_other (by decide) (by decide) (by decide)

theorem succeeded_pinned (hreaches : (w.backup.reachesPin env &&
    w.backup.pinView.pinJobMayExist) = true) :
    Pinned w (w.next env now) (queueCalls env w.backup w.queue) ∧
      (w.pass env now).2 = queueCalls env w.backup w.queue := by
  have hspec := patched_sameSpec w.backup (w.pass env now).1
  have hbefore : (w.backup.patched (hookStamps env now w.backup ++ healing now w.backup ++
      tail)).pinned = w.backup.pinned :=
    patched_field_eq (f := FinishedPatch.pinned) (fun _ _ => rfl)
      fun p hp => .inl (healing_fields htail hphase p hp).2
  have hcalls : (w.pass env now).2 = queueCalls env w.backup w.queue ∧
      (w.backup.patched (w.pass env now).1).pinned =
        ((queueCalls env w.backup w.queue).findSome? PinCall.recorded <|> w.backup.pinned) := by
    generalize w.pass env now = outcome at hpass
    cases hpass with
    | bare hstops =>
      rw [hreaches] at hstops
      cases hstops
    | pins =>
      refine ⟨rfl, ?_⟩
      rw [patched_append, patched_pinned (queueCalls_step env w.backup w.queue), hbefore]
  refine ⟨⟨hspec.name, hspec.pin, hspec.known, hcalls.2, ?_⟩, hcalls.1⟩
  rw [FinishedWorld.next, hcalls.1]

include hhooks

theorem succeeded_reachesPin :
    (w.next env now).backup.reachesPin env = w.backup.reachesPin env := by
  have hspec := patched_sameSpec w.backup (w.pass env now).1
  have hfilled := backfill_patched_isOk fun p hp => (succeeded_plain hphase htail hpass p hp).2
  have hsame := succeeded_phase hphase htail hpass
  rw [next_backup] at hsame
  simp only [FinishedSnapshot.reachesPin, hsame, next_backup, hooksPass_patched hhooks, hhooks,
    hspec.staged, hfilled]

theorem succeeded_mayExist :
    ((w.next env now).backup.reachesPin env && (w.next env now).backup.pinView.pinJobMayExist) =
      (w.backup.reachesPin env && w.backup.pinView.pinJobMayExist) := by
  rw [succeeded_reachesPin hphase hhooks htail hpass]
  cases hreach : w.backup.reachesPin env with
  | false => rfl
  | true =>
    have htype := (succeeded_conditions hphase htail hpass).2
    have hspec := patched_sameSpec w.backup (w.pass env now).1
    rw [Bool.true_and, Bool.true_and]
    cases hopen : w.backup.pinView.pinJobMayExist with
    | false =>
      have hstops : (w.backup.reachesPin env && w.backup.pinView.pinJobMayExist) = false := by
        rw [hopen, Bool.and_false]
      have hbare := succeeded_bare hpass hstops
      have hpinned := (pinSteps_same (congrArg Prod.snd hbare) fun p hp => by
        rw [hbare] at hp
        exact (healing_fields htail hphase p hp).2).2.2
      rw [hbare] at htype
      rw [mayExist_eq] at hopen ⊢
      rw [hpinned, htype, next_backup, hspec.pin]
      simpa using hopen
    | true =>
      rw [mayExist_eq] at hopen ⊢
      have hset : w.backup.pinned.isSome → (w.next env now).backup.pinned.isSome :=
        patched_isSome_mono (f := FinishedPatch.pinned) fun _ _ => rfl
      rw [htype, next_backup, hspec.pin, ← next_backup]
      rw [Bool.or_eq_true, Bool.or_eq_true] at hopen
      rcases hopen with (hpin | hpinned) | hnoted
      · simp [hpin]
      · simp [hset hpinned]
      · simp [hnoted]

theorem succeeded_progress (hbare : w.pass env now =
    (hookStamps env now w.backup ++ healing now w.backup ++ tail, [])) :
    (w.next env now).pinSettles env = w.pinSettles env ∧
      (w.pass env now = ([], []) ∨ remaining env (w.next env now) < remaining env w) := by
  have hkept := (succeeded_conditions hphase htail hpass).1
  have hsame := succeeded_phase hphase htail hpass
  obtain ⟨hsteps, hsettles, -⟩ := pinSteps_same (congrArg Prod.snd hbare) fun p hp => by
    rw [hbare] at hp
    exact (healing_fields htail hphase p hp).2
  refine ⟨hsettles, ?_⟩
  have hforward := Forward.of_writes next_backup hsame hkept hsteps.le
  have hbackup := congrArg (fun o => w.backup.patched (Prod.fst o)) hbare
  rcases healing_progress htail hhooks hphase hbackup hsame with hnone | hadvances
  · exact .inl (by rw [hbare, hnone])
  · exact .inr (hforward.remaining_lt hadvances)

theorem succeeded_settles : (w.next env now).PinSettles env = w.PinSettles env ∧
    (w.PinSettles env = true → w.pass env now = ([], []) ∨
      remaining env (w.next env now) < remaining env w) ∧
    (w.PinSettles env = false → (w.pass env now).1 ≠ [] ∨
      (w.next env now).queue.length < w.queue.length) := by
  have hgate := succeeded_mayExist hphase hhooks htail hpass
  have hopen : ∀ v : FinishedWorld, v.PinSettles env =
      (!(v.backup.reachesPin env && v.backup.pinView.pinJobMayExist) || v.pinSettles env) := by
    intro v
    simp [FinishedWorld.PinSettles, FinishedWorld.pinSettles]
  rw [hopen, hopen, hgate]
  cases hreaches : w.backup.reachesPin env && w.backup.pinView.pinJobMayExist with
  | false =>
    refine ⟨rfl, fun _ => ?_, fun h => Bool.noConfusion h⟩
    exact (succeeded_progress hphase hhooks htail hpass (succeeded_bare hpass hreaches)).2
  | true =>
    obtain ⟨hpinned, hcalls⟩ := succeeded_pinned hphase htail hpass hreaches
    obtain ⟨base, heq⟩ := succeeded_pins hpass hreaches
    obtain ⟨hsettles, hsteps, hbusy⟩ := hpinned.progress (queueCalls_step env w.backup w.queue)
    simp only [Bool.not_true, Bool.false_or]
    refine ⟨hsettles, fun hsettled => ?_, fun hstuck => (hbusy hstuck).imp ?_ id⟩
    · rcases hsteps hsettled with hnone | hless
      · rw [hnone, List.filterMap_nil, List.append_nil] at heq
        exact (succeeded_progress hphase hhooks htail hpass heq).2
      · have hforward := Forward.of_writes next_backup (succeeded_phase hphase htail hpass)
          (succeeded_conditions hphase htail hpass).1 hless.le
        exact .inr (hforward.remaining_lt (.inr (.inr (.inr (.inr (.inr (.inr hless)))))))
    · rintro ⟨call, hcall, hwrites⟩
      obtain ⟨p, hp⟩ : ∃ p, w.backup.pinPatch now base call = some p := by
        cases call with
        | create | delete => cases hwrites
        | mark | record | markFailed => exact ⟨_, rfl⟩
      rw [heq]
      exact List.ne_nil_of_mem (List.mem_append_right _ (List.mem_filterMap.mpr ⟨call, hcall, hp⟩))

end Succeeded

-- Hooks that fail, and failed runs

theorem pinSettles_of_not_reachesPin {v : FinishedWorld} (h : v.backup.reachesPin env = false) :
    v.PinSettles env = true := by
  rw [FinishedWorld.PinSettles, h]
  rfl

theorem reachesPin_failed (env : FinishedInputs) {b : FinishedSnapshot}
    (h : b.phase = some .failed) :
    b.reachesPin env = false := by
  rw [FinishedSnapshot.reachesPin, h]
  rfl

theorem reachesPin_of_hooks {b : FinishedSnapshot} (h : b.hooksPass env = false) :
    b.reachesPin env = false := by
  rw [FinishedSnapshot.reachesPin, h, Bool.and_false]
  rfl

theorem patchHookFailure_failed (hphase : backup.phase ≠ some .failed) :
    backup.patchHookFailure now message true =
      [{ phase := some .failed
         conditions := some (StatusCondition.upsert now backup.conditions hooksSucceededCondition
           false postHookFailedReason message backup.generation) }] := by
  unfold FinishedSnapshot.patchHookFailure FinishedSnapshot.patchStatusIfChanged
  rw [if_neg]
  · rfl
  · intro hsame
    exact hphase (congrArg FinishedSnapshot.phase hsame).symm

theorem hookFailure_step (now : DateTime)
    (hphase : w.backup.phase = some .succeeded ∨ w.backup.phase = some .unchanged)
    (hhooks : w.backup.postHooks env = some (.ok (some message))) :
    (w.next env now).backup.phase = some .failed ∧
      remaining env (w.next env now) < remaining env w := by
  have hnotFailed : w.backup.phase ≠ some .failed := by
    rcases hphase with h | h <;> simp [h]
  have hpass : w.pass env now = ([{ postCompletedAt := some now }, {
      phase := some .failed
      conditions := some (StatusCondition.upsert now w.backup.conditions hooksSucceededCondition
        false postHookFailedReason message w.backup.generation) }], []) := by
    have hdecision : runDecision w.backup.phase = .succeededSteadyState := by
      rcases hphase with h | h <;> rw [h] <;> rfl
    simp only [FinishedWorld.pass, FinishedSnapshot.finishedPass, hdecision,
      FinishedSnapshot.succeededPass, hhooks, patchHookFailure_failed hnotFailed]
    rfl
  have hbackup := congrArg (fun o => w.backup.patched (Prod.fst o)) hpass
  rw [← next_backup] at hbackup
  obtain ⟨hsteps, -, -⟩ := pinSteps_same (congrArg Prod.snd hpass) fun p hp => by
    rw [hpass] at hp
    rcases List.mem_pair.mp hp with rfl | rfl <;> rfl
  refine ⟨by rw [hbackup]; rfl, ?_⟩
  have hdue : hooksDue env w.backup = true := by
    simp [hooksDue, hhooks, Except.isOk, Except.toBool]
  have hdone : hooksDue env (w.next env now).backup = false := by
    rw [hbackup]
    rfl
  have hincomplete : (w.next env now).backup.newlyIncomplete = w.backup.newlyIncomplete := by
    rw [hbackup]
    exact noted_upsert_other (by decide)
  have hcreds : (w.next env now).backup.credsReapedAt = w.backup.credsReapedAt := by
    rw [hbackup]
    rfl
  have hprojection : (w.next env now).backup.credentialProjection =
      w.backup.credentialProjection := by
    rw [hbackup]
    rfl
  have hrepository : (w.next env now).backup.repository = w.backup.repository := by
    rw [hbackup]
    rfl
  have hover : (w.next env now).backup.endDue.toNat ≤ 1 := Bool.toNat_le _
  unfold remaining
  rw [hdue, hdone, hincomplete, hcreds, hprojection, hrepository, hsteps, Bool.toNat_true,
    Bool.toNat_false]
  omega

theorem failedHooks_cases (now : DateTime) (hhooks : ∀ u, backup.postHooks env ≠ some (.error u)) :
    failedHooks env now backup = [] ∨
      (hooksDue env backup = true ∧
        (failedHooks env now backup = [{ postCompletedAt := some now }] ∨
          ∃ message, failedHooks env now backup = [{ postCompletedAt := some now },
            { conditions := some (StatusCondition.upsert now backup.conditions
                hooksSucceededCondition false postHookFailedReason message
                backup.generation) }])) := by
  unfold failedHooks hooksDue
  rcases h : backup.postHooks env with _ | u | _ | message
  · exact .inl rfl
  · exact absurd h (hhooks u)
  · exact .inr ⟨rfl, .inl rfl⟩
  · refine .inr ⟨rfl, ?_⟩
    simp only [patchHookFailure_eq]
    split
    · exact .inl rfl
    · exact .inr ⟨message, rfl⟩

section Failed

variable (hphase : w.backup.phase = some .failed)
  (hhooks : ∀ u, w.backup.postHooks env ≠ some (.error u))
  (htail : Tail env now w.backup tail)
  (hpass : w.pass env now =
    (failedHooks env now w.backup ++ w.backup.healStalled now ++ tail, []))

include hphase hhooks htail hpass

theorem failed_fields : ∀ p ∈ (w.pass env now).1,
    (p.phase = none ∨ p.phase = w.backup.phase) ∧ p.pinned = none := by
  rw [hpass]
  rintro p hp
  rcases List.mem_append.mp hp with hp | hp
  · rcases List.mem_append.mp hp with hp | hp
    · rcases failedHooks_cases now hhooks with h | ⟨-, h | ⟨message, h⟩⟩ <;> rw [h] at hp
      · cases hp
      · obtain rfl := List.mem_singleton.mp hp
        exact ⟨.inl rfl, rfl⟩
      · rcases List.mem_pair.mp hp with rfl | rfl <;> exact ⟨.inl rfl, rfl⟩
    · rw [healStalled_eq] at hp
      split at hp
      · cases hp
      · obtain rfl := List.mem_singleton.mp hp
        exact ⟨.inr hphase.symm, rfl⟩
  · have hstamps := htail.stamps p hp
    exact ⟨.inl hstamps.phase, hstamps.pinned⟩

theorem failed_conditions : ConditionsKept w.backup (w.next env now).backup.conditions ∧
    (w.backup.snapshotStalled = false →
      FinishedSnapshot.endDue
        { w.backup with conditions := (w.next env now).backup.conditions } = false) := by
  have htailConditions := filterMap_conditions_nil fun p hp => (htail.stamps p hp).conditions
  rw [next_backup, hpass, patched_conditions]
  simp only [List.filterMap_append, htailConditions, List.append_nil, healStalled_eq]
  cases hstalled : w.backup.snapshotStalled with
  | false =>
    simp only [Bool.false_eq_true, if_false, List.filterMap_cons, List.filterMap_nil,
      FinishedSnapshot.snapshotReadyStatus, List.getLastD_concat]
    have hdone := endDue_stalled now "SnapshotFailed" w.backup.moverFailedMessage hphase
    exact ⟨.setReady hdone, fun _ => hdone⟩
  | true =>
    refine ⟨?_, fun h => Bool.noConfusion h⟩
    simp only [if_true, List.filterMap_nil, List.append_nil]
    rcases failedHooks_cases now hhooks with h | ⟨-, h | ⟨message, h⟩⟩ <;> rw [h]
    · exact .refl
    · exact .refl
    · exact ConditionsKept.refl.upsert_other (by decide) (by decide) (by decide)

theorem failed_step : (w.next env now).backup.phase = some .failed ∧
    (w.pass env now = ([], []) ∨ remaining env (w.next env now) < remaining env w) := by
  have hfields := failed_fields hphase hhooks htail hpass
  have hsame := phase_same fun p hp => (hfields p hp).1
  obtain ⟨hkept, hend⟩ := failed_conditions hphase hhooks htail hpass
  obtain ⟨hsteps, -, -⟩ := pinSteps_same (congrArg Prod.snd hpass) fun p hp => (hfields p hp).2
  have hforward := Forward.of_writes next_backup hsame hkept hsteps.le
  have hbackup : (w.next env now).backup = w.backup.patched
      (failedHooks env now w.backup ++ w.backup.healStalled now ++ tail) := by
    rw [next_backup, hpass]
  refine ⟨hsame.trans hphase, ?_⟩
  rcases failedHooks_cases now hhooks with hnone | ⟨hdue, hsome⟩
  · cases hstalled : w.backup.snapshotStalled with
    | false =>
      right
      refine hforward.remaining_lt (.inr (.inl ⟨?_, ?_⟩))
      · simp [FinishedSnapshot.endDue, hphase, hstalled]
      · rw [endDue_over hsame]
        exact hend hstalled
    | true =>
      rcases tail with _ | ⟨p, rest⟩
      · left
        rw [hpass, hnone, healStalled_eq, hstalled]
        rfl
      · have hp : p ∈ failedHooks env now w.backup ++ w.backup.healStalled now ++ p :: rest := by
          simp
        exact .inr (hforward.remaining_lt ((htail.stamps p (by simp)).advances hp hbackup))
  · right
    refine hforward.remaining_lt (hooks_advance hdue (p := { postCompletedAt := some now }) ?_ rfl
      hbackup)
    rcases hsome with h | ⟨message, h⟩ <;> simp [h]

end Failed

-- All passes

theorem pass_step (env : FinishedInputs) (now : DateTime) (hover : RunOver w.backup) :
    RunOver (w.next env now).backup ∧
    (w.next env now).PinSettles env = w.PinSettles env ∧
    (w.PinSettles env = true → w.pass env now = ([], []) ∨
      remaining env (w.next env now) < remaining env w) ∧
    (w.PinSettles env = false → (w.pass env now).1 ≠ [] ∨
      (w.next env now).queue.length < w.queue.length) := by
  have hidle (hpass : w.pass env now = ([], [])) : w.next env now = w := by
    simp only [FinishedWorld.next, hpass]
    rfl
  have hsucceeded (hphase : w.backup.phase = some .succeeded ∨
      w.backup.phase = some .unchanged) : RunOver (w.next env now).backup ∧
      (w.next env now).PinSettles env = w.PinSettles env ∧
      (w.PinSettles env = true → w.pass env now = ([], []) ∨
        remaining env (w.next env now) < remaining env w) ∧
      (w.PinSettles env = false → (w.pass env now).1 ≠ [] ∨
        (w.next env now).queue.length < w.queue.length) := by
    cases hhooks : w.backup.hooksPass env with
    | true =>
      obtain ⟨tail, htail, hpass⟩ := succeeded_pass now hhooks hphase
      refine ⟨?_, succeeded_settles hphase hhooks htail hpass⟩
      rw [RunOver, succeeded_phase hphase htail hpass]
      exact hover
    | false =>
      have hsettles := pinSettles_of_not_reachesPin (reachesPin_of_hooks hhooks)
      rcases hpost : w.backup.postHooks env with _ | u | _ | message
      · simp [FinishedSnapshot.hooksPass, hpost] at hhooks
      · have hdecision : runDecision w.backup.phase = .succeededSteadyState := by
          rcases hphase with h | h <;> rw [h] <;> rfl
        have hpass : w.pass env now = ([], []) := by
          simp only [FinishedWorld.pass, FinishedSnapshot.finishedPass, hdecision,
            FinishedSnapshot.succeededPass, hpost]
        rw [hidle hpass, hsettles]
        exact ⟨hover, rfl, fun _ => .inl hpass, fun h => Bool.noConfusion h⟩
      · simp [FinishedSnapshot.hooksPass, hpost] at hhooks
      · obtain ⟨hfailed, hless⟩ := hookFailure_step now hphase hpost
        rw [hsettles, pinSettles_of_not_reachesPin (reachesPin_failed env hfailed)]
        exact ⟨.inr (.inr hfailed), rfl, fun _ => .inr hless, fun h => Bool.noConfusion h⟩
  rcases hover with hphase | hphase | hphase
  · exact hsucceeded (.inl hphase)
  · exact hsucceeded (.inr hphase)
  · have hsettles := pinSettles_of_not_reachesPin (reachesPin_failed env hphase)
    have hdecision : runDecision w.backup.phase = .terminalFailed := by
      rw [hphase]
      rfl
    have heq : w.pass env now = w.backup.failedPass env now := by
      simp only [FinishedWorld.pass, FinishedSnapshot.finishedPass, hdecision]
    by_cases hhooks : ∃ u, w.backup.postHooks env = some (.error u)
    · obtain ⟨u, hpost⟩ := hhooks
      have hpass : w.pass env now = ([], []) := by
        rw [heq, FinishedSnapshot.failedPass, hpost]
      rw [hidle hpass, hsettles]
      exact ⟨.inr (.inr hphase), rfl, fun _ => .inl hpass, fun h => Bool.noConfusion h⟩
    · obtain ⟨tail, htail, hpass⟩ := failedPass_cases now (not_exists.mp hhooks)
      rw [← heq] at hpass
      obtain ⟨hfailed, hprogress⟩ := failed_step hphase (not_exists.mp hhooks) htail hpass
      rw [hsettles, pinSettles_of_not_reachesPin (reachesPin_failed env hfailed)]
      exact ⟨.inr (.inr hfailed), rfl, fun _ => hprogress, fun h => Bool.noConfusion h⟩

variable {clock : Nat → DateTime}

theorem after_keeps (clock : Nat → DateTime) (hover : RunOver w.backup) (n : Nat) :
    RunOver (w.after env clock n).backup ∧
      (w.after env clock n).PinSettles env = w.PinSettles env := by
  induction n with
  | zero => exact ⟨hover, rfl⟩
  | succ n ih =>
    obtain ⟨hstill, hsettles⟩ := ih
    obtain ⟨hnext, hsame, -⟩ := pass_step env (clock n) hstill
    exact ⟨hnext, hsame.trans hsettles⟩

theorem comesToRest_iff (hover : RunOver w.backup) :
    w.ComesToRest env clock ↔ w.PinSettles env = true := by
  constructor
  · rintro ⟨N, hquiet⟩
    by_contra hstuck
    -- Without writes the queue would get shorter for ever.
    have hshorter : ∀ n, N ≤ n → (w.after env clock (n + 1)).queue.length <
        (w.after env clock n).queue.length := by
      intro n hn
      obtain ⟨hstill, hsame⟩ := after_keeps clock hover n
      obtain ⟨-, -, -, hbusy⟩ := pass_step env (clock n) hstill
      exact (hbusy (hsame.trans (by simpa using hstuck))).resolve_left (not_not.mpr (hquiet n hn))
    obtain ⟨M, hM⟩ := Lib.eventually_const
      (μ := fun n => (w.after env clock (N + n)).queue.length)
      fun n => (hshorter (N + n) (Nat.le_add_right N n)).le
    exact absurd (hM (M + 1) (Nat.le_succ M)) (hshorter (N + M) (Nat.le_add_right N M)).ne
  · intro hsettles
    have hstep : ∀ n, (w.after env clock n).pass env (clock n) = ([], []) ∨
        remaining env (w.after env clock (n + 1)) < remaining env (w.after env clock n) := by
      intro n
      obtain ⟨hstill, hsame⟩ := after_keeps clock hover n
      exact (pass_step env _ hstill).2.2.1 (hsame.trans hsettles)
    have hidle : ∀ n, (w.after env clock n).pass env (clock n) = ([], []) →
        w.after env clock (n + 1) = w.after env clock n := by
      intro n hpass
      simp only [FinishedWorld.after, FinishedWorld.next, hpass]
      rfl
    have hconst : ∀ n, (∀ m, n ≤ m → remaining env (w.after env clock m) =
        remaining env (w.after env clock n)) → ∀ m, n ≤ m →
          (w.after env clock m).pass env (clock m) = ([], []) := by
      intro n hn m hm
      refine (hstep m).resolve_right ?_
      rw [hn (m + 1) (hm.trans (Nat.le_succ m)), hn m hm]
      exact lt_irrefl _
    refine Lib.comes_to_rest (μ := fun n => remaining env (w.after env clock n)) ?_ ?_ ?_
    · intro n
      rcases hstep n with hpass | hless
      · rw [hidle n hpass]
      · exact hless.le
    · intro n hn
      exact ⟨n, le_rfl, congrArg Prod.fst (hconst n hn n le_rfl)⟩
    · intro n hn _
      exact congrArg Prod.fst (hconst n hn (n + 1) (Nat.le_succ n))

/-- A pass over a Snapshot whose run is over keeps every condition it wrote, and
the passes come to rest, just when its writes keep together and the pin settles. -/
theorem finished_passes_settle (env : FinishedInputs) (w : FinishedWorld)
    (hover : RunOver w.backup) (clock : Nat → DateTime) :
    (¬ Reverts (conditionWrites w.backup (w.pass env (clock 0)).1) ∧ w.ComesToRest env clock) ↔
      w.KeepsWrites env = true ∧ w.PinSettles env = true := by
  rw [pass_reverts hover, comesToRest_iff hover, Bool.not_eq_false]

def quietInputs : FinishedInputs where
  policy := none
  stagedTeardownReady := true
  stagedCleanedUp := true
  credsReapSettled := true
  freshRead := true
  pinLaunch := .admitted

def endedSnapshot (phase : SnapshotPhase) : FinishedSnapshot where
  name := "nightly"
  generation := some 1
  pin := false
  policyRef := true
  phase := some phase
  observedGeneration := none
  conditions := []
  postCompletedAt := none
  credsReapedAt := none
  credentialProjection := none
  repository := none
  kopiaSnapshotId := some "k1"
  pinned := none
  filesFailed := 0
  staged := false
  moverFailedMessage := "the mover Job failed"

def everyMinute (n : Nat) : DateTime := 60 * n

def wantedPin : FinishedWorld := ⟨{ endedSnapshot .succeeded with pin := true }, []⟩

/-- A pinned snapshot: its Ready condition, its credentials and its pin. -/
theorem finished_passes_settle_pinned :
    ¬ Reverts (conditionWrites wantedPin.backup (wantedPin.pass quietInputs (everyMinute 0)).1) ∧
      wantedPin.ComesToRest quietInputs everyMinute := by
  have hkeeps : wantedPin.KeepsWrites quietInputs = true := by decide
  have hpin : wantedPin.PinSettles quietInputs = true := by decide
  exact (finished_passes_settle quietInputs wantedPin (.inl rfl) everyMinute).mpr ⟨hkeeps, hpin⟩

/-- The note of a hook that failed is gone once the failed run is Stalled, the
Ready condition is gone once skipped entries are noted, and a pin Job that
failed is written again on every pass. -/
theorem finished_passes_unsettled :
    let policy : FinishedPolicy := ⟨some (.ok (some "exit 1")), false, .ok none⟩
    let hook : FinishedWorld := ⟨endedSnapshot .failed, []⟩
    let incomplete : FinishedWorld := ⟨{ endedSnapshot .succeeded with filesFailed := 2 }, []⟩
    let failedPin : FinishedWorld := ⟨{ endedSnapshot .succeeded with pin := true },
      [⟨(pinJobNames "nightly").1, some "true", ⟨"k1", true⟩, some false, false⟩]⟩
    Reverts (conditionWrites hook.backup
        (hook.pass { quietInputs with policy := some policy } (everyMinute 0)).1) ∧
      Reverts (conditionWrites incomplete.backup (incomplete.pass quietInputs (everyMinute 0)).1) ∧
      ¬ failedPin.ComesToRest quietInputs everyMinute := by
  intro policy hook incomplete failedPin
  refine ⟨?_, ?_, ?_⟩
  · exact (pass_reverts (.inr (.inr rfl))).mpr (by decide)
  · exact (pass_reverts (.inl rfl)).mpr (by decide)
  · rw [comesToRest_iff (.inl rfl)]
    decide

end Resting

end Kopiur
