import Kopiur.Controller.FinishedPins

/-!
# The writes of a pass over a Snapshot whose run is over

When a pass takes back a condition that it wrote.
-/

namespace Kopiur

-- Conditions

namespace StatusCondition

variable {now : DateTime} {existing : List StatusCondition} {type other : String}
  {status : ConditionStatus} {reason message : String} {generation : Option Int}

theorem upsertStatus_eq_self_iff :
    upsertStatus now existing type status reason message generation = existing ↔
      (find existing type).any (fun c => c.status == status && c.reason == reason &&
        c.message == message && c.observedGeneration == generation) = true := by
  constructor
  · intro h
    obtain ⟨t, ht⟩ : ∃ t, find (upsertStatus now existing type status reason message generation)
        type = some ⟨type, status, reason, message, t, generation⟩ := find_upsertStatus_same
    rw [h] at ht
    simp [ht]
  · intro h
    obtain ⟨c, hc, hsame⟩ := (Option.any_eq_true _ _).mp h
    simp only [Bool.and_eq_true, beq_iff_eq] at hsame
    obtain ⟨⟨⟨rfl, rfl⟩, rfl⟩, rfl⟩ := hsame
    obtain rfl : c.type = type := by simpa using List.find?_some hc
    exact upsertStatus_of_find hc

def has (existing : List StatusCondition) (type : String) (status : ConditionStatus) : Bool :=
  existing.any fun c => c.type == type && c.status == status

theorem has_of_find {c : StatusCondition} (h : find existing type = some c) :
    has existing type c.status = true := by
  have htype := List.find?_some h
  exact List.any_eq_true.mpr ⟨c, List.mem_of_find?_eq_some h, by simpa using htype⟩

theorem has_upsertStatus_other (h : other ≠ type) :
    has (upsertStatus now existing other status reason message generation) type .true =
      has existing type .true := by
  have hfind : ∀ l : List StatusCondition, has l type .true =
      (l.find? fun c => c.type == type && c.status == .true).isSome := by
    intro l
    rw [has, Bool.eq_iff_iff, List.any_eq_true, List.find?_isSome]
  rw [hfind, hfind, upsertStatus, find?_put]
  intro c hc
  simp [show c.type = other from hc, h]

end StatusCondition

section Writes

open StatusCondition (find has upsertStatus)

variable {env : FinishedInputs} {now : DateTime} {backup : FinishedSnapshot}

theorem ready_eq : backup.ready = has backup.conditions readyCondition .true := rfl

theorem snapshotStalled_eq :
    backup.snapshotStalled = has backup.conditions stalledCondition .true := rfl

theorem find_ne_of_not_has {l : List StatusCondition} {type : String} {c : StatusCondition}
    (h : has l type .true = false) (htrue : c.status = .true) : find l type ≠ some c := by
  intro hfind
  have hhas := StatusCondition.has_of_find hfind
  rw [htrue, h] at hhas
  cases hhas

theorem apply_conditions_eq_self {conditions : List StatusCondition} :
    (FinishedPatch.apply { conditions := some conditions } backup = backup) ↔
      conditions = backup.conditions := by
  constructor
  · intro h
    exact congrArg FinishedSnapshot.conditions h
  · rintro rfl
    rfl

theorem assessCompletedBackup_eq : backup.assessCompletedBackup now =
    if backup.newlyIncomplete then
      [{ conditions := some (StatusCondition.upsert now backup.conditions
          securityContextCompatibleCondition false snapshotIncompleteReason
          (FinishedSnapshot.incompleteMessage backup.filesFailed) backup.generation) }]
    else [] := by
  unfold FinishedSnapshot.assessCompletedBackup FinishedSnapshot.newlyIncomplete
  by_cases hfailed : backup.filesFailed ≤ 0
  · simp [hfailed]
  · have hpos : 0 < backup.filesFailed := not_le.mp hfailed
    simp only [hfailed, if_false, hpos, decide_true, Bool.true_and,
      FinishedSnapshot.patchStatusIfChanged, apply_conditions_eq_self, StatusCondition.upsert,
      StatusCondition.upsertStatus_eq_self_iff]
    cases hnoted : backup.noted securityContextCompatibleCondition .false snapshotIncompleteReason
      (FinishedSnapshot.incompleteMessage backup.filesFailed) with
    | true =>
      rw [if_pos (by simpa [FinishedSnapshot.noted] using hnoted)]
      rfl
    | false =>
      rw [if_neg (by simpa [FinishedSnapshot.noted] using hnoted)]
      rfl

theorem patchHookFailure_eq {message : String} : backup.patchHookFailure now message false =
    if backup.noted hooksSucceededCondition .false postHookFailedReason message then []
    else
      [{ conditions := some (StatusCondition.upsert now backup.conditions hooksSucceededCondition
          false postHookFailedReason message backup.generation) }] := by
  simp only [FinishedSnapshot.patchHookFailure, Bool.false_eq_true, if_false,
    FinishedSnapshot.patchStatusIfChanged, apply_conditions_eq_self, StatusCondition.upsert,
    StatusCondition.upsertStatus_eq_self_iff]
  rfl

theorem upsert_same (now : DateTime) (existing : List StatusCondition) (type : String) (up : Bool)
    (reason message : String) (generation : Option Int) :
    ∃ t, find (StatusCondition.upsert now existing type up reason message generation) type =
      some ⟨type, if up then .true else .false, reason, message, t, generation⟩ :=
  StatusCondition.find_upsert_same

theorem setReady_same (now : DateTime) (existing : List StatusCondition) (generation : Option Int)
    (reason message : String) :
    ∃ t, find (StatusCondition.setReady now existing generation .ready reason message)
      readyCondition = some ⟨readyCondition, .true, reason, message, t, generation⟩ :=
  StatusCondition.find_setReady

theorem has_setReady_ready {l : List StatusCondition} {generation : Option Int}
    {reason message : String} :
    has (StatusCondition.setReady now l generation .ready reason message) readyCondition .true =
      true := by
  obtain ⟨t, ht⟩ := setReady_same now l generation reason message
  exact StatusCondition.has_of_find ht

theorem has_setReady_stalled {l : List StatusCondition} {generation : Option Int}
    {reason message : String} :
    has (StatusCondition.setReady now l generation .stalled reason message) stalledCondition
      .true = true := by
  obtain ⟨t, ht⟩ := upsert_same now (StatusCondition.upsert now
    (StatusCondition.upsert now l readyCondition false reason message generation)
    reconcilingCondition false "Settled" message generation) stalledCondition true reason message
    generation
  exact StatusCondition.has_of_find ht

theorem healStalled_eq : backup.healStalled now =
    if backup.snapshotStalled then []
    else
      [backup.snapshotReadyStatus now .failed "SnapshotFailed" backup.moverFailedMessage] := by
  unfold FinishedSnapshot.healStalled
  cases hstalled : backup.snapshotStalled with
  | true => rfl
  | false =>
    simp only [Bool.false_eq_true, if_false, FinishedSnapshot.patchStatusIfChanged]
    rw [if_neg]
    intro hsame
    have hconditions := congrArg FinishedSnapshot.snapshotStalled hsame
    rw [hstalled, snapshotStalled_eq] at hconditions
    simp [FinishedPatch.apply, FinishedSnapshot.snapshotReadyStatus,
      FinishedSnapshot.snapshotReadyOutcome, has_setReady_stalled] at hconditions

end Writes

section Patched

open StatusCondition (find has)

variable {env : FinishedInputs} {now : DateTime} {backup : FinishedSnapshot}
  {writes : List FinishedPatch}

theorem patched_append (a b : List FinishedPatch) :
    backup.patched (a ++ b) = (backup.patched a).patched b := List.foldl_append

/-- What no patch carries. -/
structure SameSpec (a b : FinishedSnapshot) : Prop where
  name : b.name = a.name
  generation : b.generation = a.generation
  pin : b.pin = a.pin
  policyRef : b.policyRef = a.policyRef
  known : b.kopiaSnapshotId = a.kopiaSnapshotId
  filesFailed : b.filesFailed = a.filesFailed
  staged : b.staged = a.staged

theorem patched_sameSpec (backup : FinishedSnapshot) (writes : List FinishedPatch) :
    SameSpec backup (backup.patched writes) := by
  induction writes generalizing backup with
  | nil => exact ⟨rfl, rfl, rfl, rfl, rfl, rfl, rfl⟩
  | cons p rest ih =>
    obtain ⟨h1, h2, h3, h4, h5, h6, h7⟩ := ih (p.apply backup)
    exact ⟨h1, h2, h3, h4, h5, h6, h7⟩

section Field

variable {α : Type} {f : FinishedPatch → Option α} {g : FinishedSnapshot → Option α}

theorem patched_field_eq (hfg : ∀ p b, g (FinishedPatch.apply p b) = (f p <|> g b))
    (h : ∀ p ∈ writes, f p = none ∨ f p = g backup) : g (backup.patched writes) = g backup := by
  induction writes generalizing backup with
  | nil => rfl
  | cons p rest ih =>
    have hfirst : g (p.apply backup) = g backup := by
      rcases h p (by simp) with hp | hp
      · rw [hfg, hp]
        rfl
      · rw [hfg, hp]
        cases g backup <;> rfl
    have hrest := @ih (p.apply backup) fun q hq => by
      rw [hfirst]
      exact h q (List.mem_cons_of_mem _ hq)
    exact hrest.trans hfirst

theorem patched_field_isSome (hfg : ∀ p b, g (FinishedPatch.apply p b) = (f p <|> g b)) :
    (g (backup.patched writes)).isSome =
      ((writes.any fun p => (f p).isSome) || (g backup).isSome) := by
  induction writes generalizing backup with
  | nil => rfl
  | cons p rest ih =>
    have hrest := @ih (p.apply backup)
    rw [show (p.apply backup).patched rest = backup.patched (p :: rest) from rfl] at hrest
    rw [hrest, hfg, List.any_cons]
    cases f p <;> simp

end Field

theorem patched_conditions : (backup.patched writes).conditions =
    (writes.filterMap FinishedPatch.conditions).getLastD backup.conditions := by
  induction writes generalizing backup with
  | nil => rfl
  | cons p rest ih =>
    have hrest := @ih (p.apply backup)
    rw [show (p.apply backup).patched rest = backup.patched (p :: rest) from rfl] at hrest
    rw [hrest, List.filterMap_cons]
    cases hp : p.conditions with
    | none => simp [FinishedPatch.apply, hp]
    | some conditions =>
      simp only [FinishedPatch.apply, hp, Option.getD_some, List.getLastD_cons]

theorem filterMap_conditions_nil (h : ∀ p ∈ writes, p.conditions = none) :
    writes.filterMap FinishedPatch.conditions = [] :=
  List.filterMap_eq_nil_iff.mpr h

end Patched

-- The passes, one after the other part

section Parts

variable (env : FinishedInputs) (now : DateTime) (backup : FinishedSnapshot)

def healing : List FinishedPatch := backup.healReady now ++ backup.assessCompletedBackup now

/-- The write stamps something that was not stamped, and nothing else. -/
structure Stamps (backup : FinishedSnapshot) (p : FinishedPatch) : Prop where
  phase : p.phase = none
  conditions : p.conditions = none
  hooks : p.postCompletedAt = none
  pinned : p.pinned = none
  sets : (backup.credsReapedAt = none ∧ p.credsReapedAt.isSome) ∨
    (backup.credentialProjection = none ∧ p.credentialProjection.isSome) ∨
    (backup.repository = none ∧ p.repository.isSome)

variable {env now backup}

theorem stamps_reap : ∀ p ∈ backup.reapBackupCredsOnce env now, Stamps backup p := by
  rintro p hp
  unfold FinishedSnapshot.reapBackupCredsOnce at hp
  split at hp
  · cases hp
  · next hdue =>
    obtain rfl := List.mem_singleton.mp hp
    have hnone : backup.credsReapedAt = none := by
      simp only [Bool.or_eq_true, not_or, Bool.not_eq_true, Option.isSome_eq_false_iff,
        Option.isNone_iff_eq_none] at hdue
      exact hdue.1.1
    exact ⟨rfl, rfl, rfl, rfl, .inl ⟨hnone, rfl⟩⟩

theorem stamps_backfill {pins : List FinishedPatch}
    (h : backup.backfillProjectionPin env = .ok pins) : ∀ p ∈ pins, Stamps backup p := by
  rintro p hp
  simp only [FinishedSnapshot.backfillProjectionPin] at h
  generalize hprojection : (backup.credentialProjection.isNone &&
    backup.kopiaSnapshotId.isSome) = needsProjection at h
  generalize hrepository : (backup.policyRef && backup.repository.isNone) = needsRepository at h
  cases hpolicy : env.policy with
  | none =>
    rw [hpolicy, ite_self] at h
    cases h
    cases hp
  | some policy =>
    simp only [hpolicy] at h
    split at h
    · cases h
      cases hp
    · cases hknown : policy.repository with
      | error =>
        rw [hknown] at h
        cases h
      | ok repository =>
        rw [hknown] at h
        simp only [Except.map, Except.ok.injEq] at h
        subst h
        cases needsProjection with
        | true =>
          obtain rfl : p = _ := by simpa using hp
          refine ⟨rfl, rfl, rfl, rfl, .inr (.inl ⟨?_, rfl⟩)⟩
          simpa using (Bool.and_eq_true_iff.mp hprojection).1
        | false =>
          cases needsRepository with
          | false => simp at hp
          | true =>
            cases repository with
            | none => simp at hp
            | some r =>
              obtain rfl : p = _ := by simpa using hp
              refine ⟨rfl, rfl, rfl, rfl, .inr (.inr ⟨?_, rfl⟩)⟩
              simpa using (Bool.and_eq_true_iff.mp hrepository).2

theorem backfill_isOk_mono {backup' : FinishedSnapshot}
    (hpolicyRef : backup'.policyRef = backup.policyRef)
    (hknown : backup'.kopiaSnapshotId = backup.kopiaSnapshotId)
    (hprojection : backup.credentialProjection.isSome → backup'.credentialProjection.isSome)
    (hrepository : backup.repository.isSome → backup'.repository.isSome)
    (h : (backup.backfillProjectionPin env).isOk = true) :
    (backup'.backfillProjectionPin env).isOk = true := by
  simp only [FinishedSnapshot.backfillProjectionPin, hpolicyRef, hknown] at h ⊢
  cases hpolicy : env.policy with
  | none => simp only [ite_self, Except.isOk, Except.toBool]
  | some policy =>
    cases hrepo : policy.repository with
    | ok repository =>
      simp only [hrepo, Except.map]
      split <;> rfl
    | error u =>
      simp only [hpolicy, hrepo, Except.map] at h ⊢
      split at h
      · next hdone =>
        rw [if_pos]
        · rfl
        · -- What was not missing is not missing now.
          revert hdone hprojection hrepository
          cases backup.credentialProjection <;> cases backup.repository <;>
            cases backup'.credentialProjection <;> cases backup'.repository <;>
            cases backup.kopiaSnapshotId <;> cases backup.policyRef <;> simp
      · cases h

/-- What ends the pass ahead of the pin, and what it has written by then besides
the conditions. -/
inductive Tail (env : FinishedInputs) (now : DateTime) (backup : FinishedSnapshot) :
    List FinishedPatch → Prop
  | none : Tail env now backup []
  | reap : Tail env now backup (backup.reapBackupCredsOnce env now)
  | all {pins : List FinishedPatch} (filled : backup.backfillProjectionPin env = .ok pins) :
      Tail env now backup (backup.reapBackupCredsOnce env now ++ pins)

theorem Tail.stamps {tail : List FinishedPatch} (h : Tail env now backup tail) :
    ∀ p ∈ tail, Stamps backup p := by
  cases h with
  | none => rintro _ ⟨⟩
  | reap => exact stamps_reap
  | all hpins =>
    rintro p hp
    rcases List.mem_append.mp hp with hp | hp
    · exact stamps_reap p hp
    · exact stamps_backfill hpins p hp

theorem hooksPass_iff : backup.hooksPass env = true ↔
    backup.postHooks env = none ∨ backup.postHooks env = some (.ok none) := by
  unfold FinishedSnapshot.hooksPass
  rcases backup.postHooks env with _ | _ | _ | _ <;> simp

def hookStamps (env : FinishedInputs) (now : DateTime) (backup : FinishedSnapshot) :
    List FinishedPatch :=
  if (backup.postHooks env).isSome then [{ postCompletedAt := some now }] else []

theorem reachesPin_iff : backup.reachesPin env = true ↔ backup.phase = some .succeeded ∧
    backup.hooksPass env = true ∧
      (!backup.staged || (env.stagedTeardownReady && env.stagedCleanedUp)) = true ∧
      (backup.backfillProjectionPin env).isOk = true := by
  simp only [FinishedSnapshot.reachesPin, Bool.and_eq_true, beq_iff_eq, and_assoc]

/-- The pass of a successful run whose hooks pass: it ends early, or it goes on
to the pin. -/
theorem succeededPass_cases (now : DateTime) (hhooks : backup.hooksPass env = true)
    (getJob : String → Option PinJob)
    (hphase : backup.phase = some .succeeded ∨ backup.phase = some .unchanged) :
    ∃ tail, Tail env now backup tail ∧
      ((backup.reachesPin env = false ∧ backup.succeededPass env now getJob =
          (hookStamps env now backup ++ healing now backup ++ tail, [])) ∨
        (backup.reachesPin env = true ∧ backup.succeededPass env now getJob =
          backup.withPin env now getJob
            (hookStamps env now backup ++ healing now backup ++ tail))) := by
  have hsame : backup.succeededPass env now getJob =
      backup.succeededRest env now getJob (hookStamps env now backup ++ healing now backup) := by
    rcases hooksPass_iff.mp hhooks with h | h <;>
      simp [FinishedSnapshot.succeededPass, hookStamps, healing, h]
  have hreaches : backup.reachesPin env = true ↔ backup.phase = some .succeeded ∧
      (!backup.staged || (env.stagedTeardownReady && env.stagedCleanedUp)) = true ∧
      (backup.backfillProjectionPin env).isOk = true := by
    rw [reachesPin_iff]
    simp [hhooks]
  rw [hsame]
  generalize hookStamps env now backup ++ healing now backup = writes
  unfold FinishedSnapshot.succeededRest FinishedSnapshot.tidyUp
  cases htidy : backup.staged && !(env.stagedTeardownReady && env.stagedCleanedUp) with
  | true =>
    refine ⟨[], .none, .inl ⟨?_, by simp only [if_true, List.append_nil]⟩⟩
    rw [Bool.eq_false_iff]
    intro hreach
    obtain ⟨-, hready, -⟩ := hreaches.mp hreach
    revert htidy hready
    cases backup.staged <;> cases env.stagedTeardownReady <;> cases env.stagedCleanedUp <;> simp
  | false =>
    simp only [Bool.false_eq_true, if_false]
    have hready : (!backup.staged || (env.stagedTeardownReady && env.stagedCleanedUp)) = true := by
      revert htidy
      cases backup.staged <;> cases env.stagedTeardownReady <;> cases env.stagedCleanedUp <;> simp
    cases hfilled : backup.backfillProjectionPin env with
    | error u =>
      refine ⟨_, .reap, .inl ⟨?_, rfl⟩⟩
      rw [Bool.eq_false_iff]
      intro hreach
      have hok := (hreaches.mp hreach).2.2
      rw [hfilled] at hok
      cases hok
    | ok pins =>
      refine ⟨_, .all hfilled, ?_⟩
      rcases hphase with hphase | hphase
      · exact .inr ⟨hreaches.mpr ⟨hphase, hready, by rw [hfilled]; rfl⟩, by simp [hphase]⟩
      · refine .inl ⟨?_, by simp [hphase]⟩
        rw [Bool.eq_false_iff]
        intro hreach
        have hother := (hreaches.mp hreach).1
        rw [hphase] at hother
        cases hother

/-- The writes for the hooks of a failed run. -/
def failedHooks (env : FinishedInputs) (now : DateTime) (backup : FinishedSnapshot) :
    List FinishedPatch :=
  match backup.postHooks env with
  | some (.ok (some message)) =>
    [{ postCompletedAt := some now }] ++ backup.patchHookFailure now message false
  | some _ => [{ postCompletedAt := some now }]
  | none => []

theorem failedPass_cases (now : DateTime) (hhooks : ∀ u, backup.postHooks env ≠ some (.error u)) :
    ∃ tail, Tail env now backup tail ∧ backup.failedPass env now =
      (failedHooks env now backup ++ backup.healStalled now ++ tail, []) := by
  have hsame : backup.failedPass env now =
      backup.failedRest env now (failedHooks env now backup ++ backup.healStalled now) := by
    unfold FinishedSnapshot.failedPass failedHooks
    rcases h : backup.postHooks env with _ | u | _ | message
    · rfl
    · exact absurd h (hhooks _)
    · rfl
    · rfl
  rw [hsame]
  generalize failedHooks env now backup ++ backup.healStalled now = writes
  unfold FinishedSnapshot.failedRest FinishedSnapshot.tidyUp
  cases backup.staged && !(env.stagedTeardownReady && env.stagedCleanedUp) with
  | true => exact ⟨[], .none, by simp only [if_true, List.append_nil]⟩
  | false =>
    simp only [Bool.false_eq_true, if_false]
    split
    · exact ⟨_, .reap, rfl⟩
    · cases hfilled : backup.backfillProjectionPin env with
      | error u => exact ⟨_, .reap, rfl⟩
      | ok pins => exact ⟨_, .all hfilled, by simp⟩

end Parts

-- What a pass takes back

section Reverting

open StatusCondition (find has upsertStatus)

variable {env : FinishedInputs} {now : DateTime} {backup : FinishedSnapshot}
  {before written last : List StatusCondition}

theorem reverts_triple : Reverts [before, written, last] ↔
    ∃ c, find before c.type ≠ some c ∧ find written c.type = some c ∧
      find last c.type ≠ some c := by simp [Reverts]

theorem heal_news (now : DateTime) (reason message : String) (hready : backup.ready = false) :
    ∃ c, c.type = readyCondition ∧ find backup.conditions c.type ≠ some c ∧
      find (StatusCondition.setReady now backup.conditions backup.generation .ready reason
        message) c.type = some c := by
  obtain ⟨t, ht⟩ := setReady_same now backup.conditions backup.generation reason message
  exact ⟨⟨readyCondition, .true, reason, message, t, backup.generation⟩, rfl,
    find_ne_of_not_has hready rfl, ht⟩

theorem upsert_news (now : DateTime) {type reason message : String}
    (hnoted : backup.noted type .false reason message = false) :
    ∃ c, c.type = type ∧ find backup.conditions c.type ≠ some c ∧
      find (StatusCondition.upsert now backup.conditions type false reason message
        backup.generation) c.type = some c := by
  obtain ⟨t, ht⟩ := upsert_same now backup.conditions type false reason message backup.generation
  refine ⟨⟨type, .false, reason, message, t, backup.generation⟩, rfl, ?_, ht⟩
  rintro (hold : find backup.conditions type = _)
  simp [FinishedSnapshot.noted, hold] at hnoted

theorem keeps_other {type reason message : String} {status : ConditionStatus}
    {generation : Option Int} (hwritten : find written type = find before type) :
    ¬ Reverts [before, written,
      upsertStatus now written type status reason message generation] := by
  rw [reverts_triple]
  rintro ⟨c, hbefore, hc, hlast⟩
  by_cases htype : type = c.type
  · rw [← htype] at hbefore hc
    exact hbefore (hwritten ▸ hc)
  · rw [StatusCondition.find_upsertStatus_other htype] at hlast
    exact hlast hc

theorem loses_other {type reason message : String} {status : ConditionStatus}
    {generation : Option Int} {c : StatusCondition} (hbefore : find before c.type ≠ some c)
    (hc : find written c.type = some c) (htype : type ≠ c.type) :
    Reverts [before, written, upsertStatus now before type status reason message generation] := by
  rw [reverts_triple]
  refine ⟨c, hbefore, hc, ?_⟩
  rw [StatusCondition.find_upsertStatus_other htype]
  exact hbefore

theorem healReady_conditions (now : DateTime) (hready : backup.ready = false) : ∃ reason message,
    (backup.healReady now).filterMap FinishedPatch.conditions =
      [StatusCondition.setReady now backup.conditions backup.generation .ready reason message] := by
  unfold FinishedSnapshot.healReady
  simp only [hready, Bool.false_eq_true, if_false]
  split <;> exact ⟨_, _, rfl⟩

theorem pin_conditions (now : DateTime) (base : List StatusCondition) {queue : List PinJob}
    {calls : List PinCall} (h : QueueStep env backup queue calls) :
    (calls.filterMap (backup.pinPatch now base)).filterMap FinishedPatch.conditions = [] ∧
        calls.any PinCall.writes = false ∨
      calls.any PinCall.writes = true ∧ ∃ status reason message,
        (calls.filterMap (backup.pinPatch now base)).filterMap FinishedPatch.conditions =
          [upsertStatus now base pinnedCondition status reason message backup.generation] := by
  cases h with
  | running | consume | stale | idle => exact .inl ⟨rfl, rfl⟩
  | record | wanted | rejected | launch => exact .inr ⟨rfl, _, _, _, rfl⟩

theorem hookStamps_conditions :
    (hookStamps env now backup).filterMap FinishedPatch.conditions = [] := by
  unfold hookStamps
  split <;> rfl

theorem succeeded_reverts {tail : List FinishedPatch} (htail : Tail env now backup tail) :
    Reverts (conditionWrites backup (hookStamps env now backup ++ healing now backup ++ tail)) ↔
      backup.ready = false ∧ backup.newlyIncomplete = true := by
  have htailConditions := filterMap_conditions_nil fun p hp => (htail.stamps p hp).conditions
  simp only [conditionWrites, healing, List.filterMap_append, hookStamps_conditions,
    htailConditions, List.nil_append, List.append_nil, assessCompletedBackup_eq]
  cases hready : backup.ready with
  | true =>
    cases hincomplete : backup.newlyIncomplete <;>
      simp [FinishedSnapshot.healReady, hready, Reverts]
  | false =>
    obtain ⟨reason, message, hheal⟩ := healReady_conditions now hready
    cases hincomplete : backup.newlyIncomplete with
    | false => simp [hheal, Reverts]
    | true =>
      simp only [hheal, if_true, List.filterMap_cons, List.filterMap_nil, List.singleton_append,
        and_self, iff_true]
      obtain ⟨c, htype, hbefore, hc⟩ := heal_news now _ _ hready
      exact loses_other hbefore hc (htype ▸ by decide)

theorem withPin_reverts {w : FinishedWorld} {tail : List FinishedPatch}
    (htail : Tail env now w.backup tail) (hreach : w.backup.reachesPin env = true) :
    Reverts (conditionWrites w.backup (w.backup.withPin env now w.getJob
        (hookStamps env now w.backup ++ healing now w.backup ++ tail)).1) ↔
      (w.backup.ready = false ∧ w.backup.newlyIncomplete = true) ∨
        (env.freshRead = false ∧ w.pinWrites env = true ∧
          ¬ (w.backup.ready = true ∧ w.backup.newlyIncomplete = false)) := by
  have htailConditions := filterMap_conditions_nil fun p hp => (htail.stamps p hp).conditions
  have hbare := succeeded_reverts htail
  simp only [FinishedSnapshot.withPin, pinCalls_queue, FinishedWorld.pinWrites, hreach,
    Bool.true_and]
  cases hopen : w.backup.pinView.pinJobMayExist with
  | false => simpa using hbare
  | true =>
    have hstep := queueCalls_step env w.backup w.queue
    simp only [if_true, Bool.true_and, hstep.news]
    generalize hbase : (if env.freshRead = true then
        (w.backup.patched (hookStamps env now w.backup ++ healing now w.backup ++
          tail)).conditions else w.backup.conditions) = base
    rcases pin_conditions now base hstep with
      ⟨hnone, hquiet⟩ | ⟨hnews, status, reason, message, hsome⟩
    · rw [hquiet]
      simp only [conditionWrites, List.filterMap_append, hnone, List.append_nil] at hbare ⊢
      simpa using hbare
    · rw [hnews]
      simp only [patched_conditions, List.filterMap_append, healing, hookStamps_conditions,
        htailConditions, List.nil_append, List.append_nil, assessCompletedBackup_eq] at hbase
      simp only [conditionWrites, List.filterMap_append, hsome, healing, hookStamps_conditions,
        htailConditions, List.nil_append, List.append_nil, assessCompletedBackup_eq]
      cases hready : w.backup.ready with
      | true =>
        have hheal : w.backup.healReady now = [] := by simp [FinishedSnapshot.healReady, hready]
        cases hincomplete : w.backup.newlyIncomplete with
        | false => simp [hheal, Reverts]
        | true =>
          simp only [hheal, hincomplete, List.filterMap_nil, if_true, List.filterMap_cons,
            List.nil_append, List.cons_append, List.getLastD_cons, List.getLastD_nil] at hbase ⊢
          cases hfresh : env.freshRead with
          | true =>
            simp only [hfresh, if_true] at hbase
            subst hbase
            refine iff_of_false (keeps_other ?_) (by simp)
            exact StatusCondition.find_upsert_other (by decide)
          | false =>
            simp only [hfresh, Bool.false_eq_true, if_false] at hbase
            subst hbase
            refine iff_of_true ?_ (by simp)
            have hnoted := (Bool.and_eq_true_iff.mp hincomplete).2
            obtain ⟨c, htype, hbefore, hc⟩ := upsert_news now (by simpa using hnoted)
            refine loses_other hbefore hc ?_
            rw [htype]
            decide
      | false =>
        obtain ⟨reason', message', hheal⟩ := healReady_conditions now hready
        obtain ⟨c, htype, hbefore, hc⟩ := heal_news now reason' message' hready
        cases hincomplete : w.backup.newlyIncomplete with
        | false =>
          simp only [hheal, hincomplete, Bool.false_eq_true, if_false, List.filterMap_nil,
            List.append_nil, List.cons_append, List.nil_append, List.getLastD_cons,
            List.getLastD_nil] at hbase ⊢
          cases hfresh : env.freshRead with
          | true =>
            simp only [hfresh, if_true] at hbase
            subst hbase
            refine iff_of_false (keeps_other ?_) (by simp)
            exact StatusCondition.find_setReady_other (by decide) (by decide) (by decide)
          | false =>
            simp only [hfresh, Bool.false_eq_true, if_false] at hbase
            subst hbase
            refine iff_of_true (loses_other hbefore hc ?_) (by simp)
            rw [htype]
            decide
        | true =>
          simp only [hheal, if_true, List.filterMap_cons, List.filterMap_nil, List.cons_append,
            List.nil_append]
          refine iff_of_true (.inl ⟨c, hbefore, hc, _, List.mem_cons_self, ?_⟩) (by simp)
          rw [StatusCondition.find_upsert_other (htype ▸ by decide)]
          exact hbefore

/-- A failed run's pass takes back the note of a hook failure when it goes on
to the Stalled condition. -/
theorem failed_reverts {tail : List FinishedPatch} (htail : Tail env now backup tail) :
    Reverts (conditionWrites backup
        (failedHooks env now backup ++ backup.healStalled now ++ tail)) ↔
      backup.snapshotStalled = false ∧ backup.newHookFailure env = true := by
  have htailConditions := filterMap_conditions_nil fun p hp => (htail.stamps p hp).conditions
  simp only [conditionWrites, List.filterMap_append, htailConditions, List.append_nil,
    healStalled_eq, failedHooks, FinishedSnapshot.newHookFailure]
  rcases hhooks : backup.postHooks env with _ | u | _ | message
  · cases hstalled : backup.snapshotStalled <;> simp [Reverts, FinishedSnapshot.snapshotReadyStatus]
  · cases hstalled : backup.snapshotStalled <;> simp [Reverts, FinishedSnapshot.snapshotReadyStatus]
  · cases hstalled : backup.snapshotStalled <;> simp [Reverts, FinishedSnapshot.snapshotReadyStatus]
  · cases hnoted : backup.noted hooksSucceededCondition .false postHookFailedReason message with
    | true =>
      cases hstalled : backup.snapshotStalled <;>
        simp [Reverts, FinishedSnapshot.snapshotReadyStatus, patchHookFailure_eq, hnoted]
    | false =>
      cases hstalled : backup.snapshotStalled with
      | true => simp [Reverts, patchHookFailure_eq, hnoted]
      | false =>
        refine iff_of_true ?_ (by simp [hnoted])
        obtain ⟨c, htype, hbefore, hc⟩ := upsert_news now hnoted
        simp only [patchHookFailure_eq, hnoted, Bool.false_eq_true, if_false,
          FinishedSnapshot.snapshotReadyStatus, List.cons_append, List.nil_append,
          List.filterMap_cons, List.filterMap_nil]
        refine .inl ⟨c, hbefore, hc, _, List.mem_singleton_self _, ?_⟩
        rw [StatusCondition.find_setReady_other (htype ▸ by decide) (htype ▸ by decide)
          (htype ▸ by decide)]
        exact hbefore

def RunOver (backup : FinishedSnapshot) : Prop :=
  backup.phase = some .succeeded ∨ backup.phase = some .unchanged ∨ backup.phase = some .failed

theorem patchStatusIfChanged_cases (backup : FinishedSnapshot) (p : FinishedPatch) :
    backup.patchStatusIfChanged p = [] ∨ backup.patchStatusIfChanged p = [p] := by
  unfold FinishedSnapshot.patchStatusIfChanged
  split
  · exact .inl rfl
  · exact .inr rfl

theorem patchHookFailure_conditions {message : String} (b : Bool) :
    ¬ Reverts (conditionWrites backup
      ([{ postCompletedAt := some now }] ++ backup.patchHookFailure now message b)) := by
  rcases h : backup.patchHookFailure now message b with _ | ⟨p, rest⟩
  · simp [conditionWrites, Reverts]
  · obtain rfl : rest = [] := by
      rcases patchStatusIfChanged_cases backup _ with hp | hp <;>
        rw [FinishedSnapshot.patchHookFailure, hp] at h <;> cases h
      rfl
    cases hp : p.conditions <;> simp [conditionWrites, Reverts, hp]

/-- A pass takes back a condition it wrote just when its writes do not keep
together. -/
theorem pass_reverts {w : FinishedWorld} (hover : RunOver w.backup) :
    Reverts (conditionWrites w.backup (w.pass env now).1) ↔ w.KeepsWrites env = false := by
  have hsucceeded (hphase : w.backup.phase = some .succeeded ∨
      w.backup.phase = some .unchanged) :
      Reverts (conditionWrites w.backup (w.pass env now).1) ↔ w.KeepsWrites env = false := by
    have hdecision : runDecision w.backup.phase = .succeededSteadyState := by
      rcases hphase with h | h <;> rw [h] <;> rfl
    simp only [FinishedWorld.pass, FinishedSnapshot.finishedPass, FinishedWorld.KeepsWrites,
      hdecision]
    by_cases hhooks : w.backup.hooksPass env = true
    · simp only [hhooks, Bool.not_true, Bool.false_or]
      obtain ⟨tail, htail, ⟨hstops, heq⟩ | ⟨hreach, heq⟩⟩ :=
        succeededPass_cases now hhooks w.getJob hphase
      · rw [heq, succeeded_reverts htail]
        have hquiet : w.pinWrites env = false := by simp [FinishedWorld.pinWrites, hstops]
        rw [hquiet]
        cases w.backup.ready <;> cases w.backup.newlyIncomplete <;> simp
      · rw [heq, withPin_reverts htail hreach]
        cases w.backup.ready <;> cases w.backup.newlyIncomplete <;> cases env.freshRead <;>
          cases w.pinWrites env <;> simp
    · have hkeeps : (!w.backup.hooksPass env) = true := by simpa using hhooks
      simp only [hkeeps, Bool.true_or, Bool.true_eq_false, iff_false]
      unfold FinishedSnapshot.succeededPass
      rcases h : w.backup.postHooks env with _ | u | _ | message
      · exact absurd (hooksPass_iff.mpr (.inl h)) hhooks
      · simp [conditionWrites, Reverts]
      · exact absurd (hooksPass_iff.mpr (.inr h)) hhooks
      · exact patchHookFailure_conditions true
  rcases hover with hphase | hphase | hphase
  · exact hsucceeded (.inl hphase)
  · exact hsucceeded (.inr hphase)
  · have hdecision : runDecision w.backup.phase = .terminalFailed := by
      rw [hphase]
      rfl
    simp only [FinishedWorld.pass, FinishedSnapshot.finishedPass, FinishedWorld.KeepsWrites,
      hdecision]
    by_cases hhooks : ∃ u, w.backup.postHooks env = some (.error u)
    · obtain ⟨u, h⟩ := hhooks
      simp [FinishedSnapshot.failedPass, FinishedSnapshot.newHookFailure, h, conditionWrites,
        Reverts]
    · obtain ⟨tail, htail, heq⟩ := failedPass_cases now (not_exists.mp hhooks)
      rw [heq, failed_reverts htail]
      cases w.backup.snapshotStalled <;> cases w.backup.newHookFailure env <;> simp

end Reverting

end Kopiur
