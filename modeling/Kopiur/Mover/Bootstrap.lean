import Kopiur.Kopia.Listing

/-!
# The bootstrap of a repository

The mover connects first and initializes a repository only where the grant it
was launched with and the backend's answer allow it. Its report is read by the
controller whether it succeeded or not.
-/

namespace Kopiur

-- The decision after the first connect

inductive CreateGrant
  | denied
  | enabled
  -- only because of a valid, armed `allow-reinitialize` acknowledgment
  | reinitAck
deriving DecidableEq

def CreateGrant.fromFlags (autoCreate viaReinitAck : Bool) : CreateGrant :=
  match autoCreate, viaReinitAck with
  | false, _ => .denied
  | true, false => .enabled
  | true, true => .reinitAck

inductive BootstrapInitAction
  | proceed
  | fail
  | create
  | seed
deriving DecidableEq

def createOrFail (grant : CreateGrant) (provenEmpty : Bool) : BootstrapInitAction :=
  match grant with
  | .enabled => .create
  | .reinitAck => if provenEmpty then .create else .fail
  | .denied => .fail

/-- `connectClass` is the class of a failed connect; `uninitialized` says that
the backend answered and holds no repository. -/
def bootstrapInitAction (seedArmed resume : Bool) (grant : CreateGrant)
    (connectClass : Option KopiaErrorClass) (uninitialized : Bool) : BootstrapInitAction :=
  match connectClass with
  | none => if seedArmed && resume then .seed else .proceed
  | some .authFailure | some .locked | some .accessDenied | some .permissionDenied => .fail
  | some .notFound =>
    if seedArmed then
      if uninitialized then .seed else .fail
    else createOrFail grant uninitialized
  | some .repositoryUnavailable | some .sourceError | some .unknown =>
    -- nothing is proven about a backend that has not answered
    if seedArmed then .fail else createOrFail grant false

def shouldAttemptCreate (grant : CreateGrant) (cls : KopiaErrorClass) (uninitialized : Bool) : Bool :=
  decide (bootstrapInitAction false false grant (some cls) uninitialized = .create)

/-- A repository is created over an acknowledgment only where the backend
proved empty. -/
theorem bootstrapInitAction_create {seedArmed resume uninitialized : Bool} {grant : CreateGrant}
    {cls : Option KopiaErrorClass}
    (h : bootstrapInitAction seedArmed resume grant cls uninitialized = .create) :
    grant ≠ .denied ∧ (grant = .reinitAck → cls = some .notFound ∧ uninitialized = true) := by
  cases cls with
  | none =>
    simp only [bootstrapInitAction] at h
    split at h <;> cases h
  | some c =>
    cases c <;> simp only [bootstrapInitAction] at h
    case authFailure | locked | accessDenied | permissionDenied => cases h
    all_goals
      split at h
      · first | cases h | (split at h <;> cases h)
      · cases grant <;> cases uninitialized <;> simp_all [createOrFail]

inductive CreateBlock
  | specDisabled
  | onceReadyPinned (alsoSpecDisabled : Bool)
deriving DecidableEq

structure SeedOp where
  resume : Bool
  -- the source is a repository to migrate from, not a backend to copy
  migrate : Bool := false
  allowEmptySource : Bool := false
deriving DecidableEq

/-- The work of a bootstrap Job. -/
structure BootstrapRepositoryOp where
  autoCreate : Bool
  createBlock : Option CreateBlock := none
  pinnedUniqueId : Option String := none
  createViaReinitAck : Bool := false
  probeOnly : Bool := false
  seed : Option SeedOp := none
deriving DecidableEq

def BootstrapRepositoryOp.grant (op : BootstrapRepositoryOp) : CreateGrant :=
  .fromFlags op.autoCreate op.createViaReinitAck

inductive SeedFailure
  | sourceNotFound
  | sourceEmpty
  | incomplete
  | leftEmpty
deriving DecidableEq

inductive FailureClass
  | kopia (cls : KopiaErrorClass)
  | repositoryNotInitialized
  | repositoryReinitializeBlocked
  | seed (failure : SeedFailure)
  | bootstrapInternalInconsistency
deriving DecidableEq

/-- What a bootstrap reports about the repository: its identity, the snapshots
it listed and the outcome of a seed, or why it failed. -/
structure BootstrapReport where
  success : Bool
  created : Bool := false
  uniqueId : Option String := none
  -- absent when the listing did not run
  snapshotCount : Option Nat := none
  snapshots : List String := []
  -- whether a seed was run, for a report that carries a seed outcome
  seed : Option Bool := none
  failure : Option FailureClass := none
deriving DecidableEq

def BootstrapReport.failed (failure : FailureClass) : BootstrapReport :=
  { success := false, failure := some failure }

-- One run of the mover

structure ConnectError where
  cls : KopiaErrorClass
  -- stderr says that the storage holds no repository
  uninitialized : Bool
deriving DecidableEq

inductive ConnectFailure
  | connect (e : ConnectError)
  -- connected, but the throttle could not be applied
  | throttle (cls : KopiaErrorClass)
deriving DecidableEq

/-- How kopia answers the calls of one bootstrap, in their order. -/
structure KopiaAnswers where
  connect : Option ConnectFailure := none
  create : Option KopiaErrorClass := none
  seedRun : Option FailureClass := none
  reconnect : Option KopiaErrorClass := none
  status : Except KopiaErrorClass String
  list : Option KopiaErrorClass := none

/-- What is done about initializing the repository; `none` when the throttle
ended the bootstrap. -/
def BootstrapRepositoryOp.initAction (op : BootstrapRepositoryOp) (k : KopiaAnswers) :
    Option BootstrapInitAction :=
  let decision := bootstrapInitAction op.seed.isSome (op.seed.any (·.resume)) op.grant
  match k.connect with
  | none => some (decision none false)
  | some (.connect e) => some (decision (some e.cls) e.uninitialized)
  | some (.throttle _) => none

def bootstrapDeclined (op : BootstrapRepositoryOp) (e : ConnectError) : BootstrapReport :=
  if !op.autoCreate && op.seed.isNone && e.cls == .notFound && e.uninitialized then
    match op.createBlock with
    | some (.onceReadyPinned _) => .failed .repositoryReinitializeBlocked
    | some .specDisabled | none => .failed .repositoryNotInitialized
  else .failed (.kopia e.cls)

/-- The identity and the listing of a repository that is connected. -/
def readRepository (op : BootstrapRepositoryOp) (k : KopiaAnswers) (contents : List String)
    (created : Bool) (seedOutcome : Option Bool) : BootstrapReport :=
  match k.status with
  | .error cls => .failed (.kopia cls)
  | .ok id =>
    if op.probeOnly && op.seed.isNone then
      { success := true, created, uniqueId := some id, seed := seedOutcome }
    else
      match k.list with
      | some cls => .failed (.kopia cls)
      | none =>
        if op.seed.any fun s => !s.allowEmptySource && contents.isEmpty then
          .failed (.seed .leftEmpty)
        else
          { success := true, created, uniqueId := some id, snapshotCount := some contents.length
            snapshots := contents, seed := seedOutcome }

/-- A bootstrap against a repository with the given snapshots. -/
def runBootstrap (op : BootstrapRepositoryOp) (k : KopiaAnswers) (contents : List String) :
    BootstrapReport :=
  match op.initAction k, k.connect with
  | none, some (.throttle cls) => .failed (.kopia cls)
  | some .fail, some (.connect e) => bootstrapDeclined op e
  | some .create, _ =>
    match k.create, k.reconnect with
    | some cls, _ | none, some cls => .failed (.kopia cls)
    | none, none => readRepository op k contents true none
  | some .seed, connect =>
    match op.seed, k.seedRun, k.reconnect with
    | none, _, _ => .failed .bootstrapInternalInconsistency
    | some _, some failure, _ => .failed failure
    | some _, none, some cls => .failed (.kopia cls)
    | some s, none, none => readRepository op k contents (s.migrate && connect.isSome) (some true)
  | _, _ =>
    -- a standing seed over a repository that exists is a no-op
    readRepository op k contents false
      (if op.seed.any fun s => !s.resume then some false else none)

section Reports

variable {op : BootstrapRepositoryOp} {k : KopiaAnswers} {contents : List String}

@[simp] theorem success_failed (f : FailureClass) : (BootstrapReport.failed f).success = false := rfl
@[simp] theorem snapshotCount_failed (f : FailureClass) :
    (BootstrapReport.failed f).snapshotCount = none := rfl

theorem readRepository_uniqueId {created : Bool} {seedOutcome : Option Bool}
    (h : (readRepository op k contents created seedOutcome).success = true) :
    ∃ id, k.status = .ok id ∧
      (readRepository op k contents created seedOutcome).uniqueId = some id := by
  revert h
  rw [readRepository]
  cases k.status with
  | error cls => simp
  | ok id =>
    dsimp only
    split
    · simp
    · cases k.list with
      | some cls => simp
      | none =>
        dsimp only
        split <;> simp

theorem readRepository_snapshots {created : Bool} {seedOutcome : Option Bool}
    (h : (readRepository op k contents created seedOutcome).snapshotCount.isSome = true) :
    (readRepository op k contents created seedOutcome).snapshots = contents := by
  revert h
  rw [readRepository]
  cases k.status with
  | error cls => simp
  | ok id =>
    dsimp only
    split
    · simp
    · cases k.list with
      | some cls => simp
      | none =>
        dsimp only
        split <;> simp

theorem runBootstrap_cases (op : BootstrapRepositoryOp) (k : KopiaAnswers) (contents : List String) :
    (∃ f, runBootstrap op k contents = .failed f) ∨
      ∃ created seedOutcome,
        runBootstrap op k contents = readRepository op k contents created seedOutcome := by
  rw [runBootstrap]
  split
  · exact .inl ⟨_, rfl⟩
  · rw [bootstrapDeclined]
    split
    · split <;> exact .inl ⟨_, rfl⟩
    · exact .inl ⟨_, rfl⟩
  · split
    · exact .inl ⟨_, rfl⟩
    · exact .inl ⟨_, rfl⟩
    · exact .inr ⟨_, _, rfl⟩
  · split
    · exact .inl ⟨_, rfl⟩
    · exact .inl ⟨_, rfl⟩
    · exact .inl ⟨_, rfl⟩
    · exact .inr ⟨_, _, rfl⟩
  · exact .inr ⟨_, _, rfl⟩

theorem runBootstrap_uniqueId (h : (runBootstrap op k contents).success = true) :
    ∃ id, k.status = .ok id ∧ (runBootstrap op k contents).uniqueId = some id := by
  rcases runBootstrap_cases op k contents with ⟨f, hf⟩ | ⟨created, seedOutcome, hr⟩
  · rw [hf] at h
    cases h
  · rw [hr] at h ⊢
    exact readRepository_uniqueId h

theorem runBootstrap_snapshots (h : (runBootstrap op k contents).snapshotCount.isSome = true) :
    (runBootstrap op k contents).snapshots = contents := by
  rcases runBootstrap_cases op k contents with ⟨f, hf⟩ | ⟨created, seedOutcome, hr⟩
  · rw [hf] at h
    cases h
  · rw [hr] at h ⊢
    exact readRepository_snapshots h

end Reports

end Kopiur
