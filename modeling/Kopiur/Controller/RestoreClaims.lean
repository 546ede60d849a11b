import Kopiur.Controller.StatusConditions
import Kopiur.Lib.MergePatch

/-!
# Claim records of a populator

A populator `Restore` keeps one record for each claiming PVC in a map on its
status. Each pass writes the map, the aggregate of the records and the mirror of a
lone claim in one merge patch. The movers write their own keys of a record, and the
patch names none of these but to reset them for a PVC that was created again.
-/

namespace Kopiur.Fanout

open Lib

def claimPhaseLabels : List String :=
  ["Pending", "Populating", "Rebinding", "Populated", "AlreadyBound", "Failed"]

inductive RestoreClaimPhase
  | pending
  | populating
  | rebinding
  | populated
  | alreadyBound
  | failed
  -- a phase of a newer operator
  | unknown (label : String) (other : label ∉ claimPhaseLabels)
deriving DecidableEq

def RestoreClaimPhase.label : RestoreClaimPhase → String
  | .pending => "Pending"
  | .populating => "Populating"
  | .rebinding => "Rebinding"
  | .populated => "Populated"
  | .alreadyBound => "AlreadyBound"
  | .failed => "Failed"
  | .unknown label _ => label

@[ext]
structure PlainObject where
  fields : List (String × Json)
  plain : (Json.object fields).Plain

/-- The pinned source and the failure are only carried, as they serialize. -/
structure RestoreClaimStatus where
  uid : Option String := none
  phase : Option RestoreClaimPhase := none
  reason : Option String := none
  message : Option String := none
  sourcePath : Option String := none
  resolved : Option PlainObject := none
  pvcPrime : Option String := none
  job : Option String := none
  waitStartedAt : Option String := none
  observedAt : Option String := none
  logTail : Option String := none
  failure : Option PlainObject := none

def PlainObject.toValue (o : PlainObject) : Json := .object o.fields

def present (entries : List (String × Option Json)) : List (String × Json) :=
  entries.filterMap fun (key, value) => value.map (key, ·)

namespace RestoreClaimStatus

/-- Every key of a record, in the order of the map it serializes to. -/
def entries (r : RestoreClaimStatus) : List (String × Option Json) :=
  [("failure", r.failure.map PlainObject.toValue),
    ("job", r.job.map .string),
    ("logTail", r.logTail.map .string),
    ("message", r.message.map .string),
    ("observedAt", r.observedAt.map .string),
    ("phase", r.phase.map fun p => .string p.label),
    ("pvcPrime", r.pvcPrime.map .string),
    ("reason", r.reason.map .string),
    ("resolved", r.resolved.map PlainObject.toValue),
    ("sourcePath", r.sourcePath.map .string),
    ("uid", r.uid.map .string),
    ("waitStartedAt", r.waitStartedAt.map .string)]

def fields (r : RestoreClaimStatus) : List (String × Json) := present r.entries

def toValue (r : RestoreClaimStatus) : Json := .object r.fields

end RestoreClaimStatus

def claimControllerKeys : List String :=
  ["uid", "phase", "reason", "message", "sourcePath", "pvcPrime", "job", "waitStartedAt"]

def claimMoverKeys : List String := ["observedAt", "logTail", "failure"]

def claimRearmResetKeys : List String := ["resolved", "failure", "logTail", "observedAt"]

def claimRearmed (prev next : RestoreClaimStatus) : Bool :=
  match prev.uid, next.uid with
  | some prevUid, some nextUid => prevUid != nextUid
  | _, _ => false

def nullMissing (keys : List String) (goes : String → Bool) (obj : List (String × Json)) :
    List (String × Json) :=
  keys.foldl
    (fun obj key =>
      if goes key && (obj.lookup key).isNone then putKey key .null obj else obj) obj

def claimMergeFields (prev : Option RestoreClaimStatus) (next : RestoreClaimStatus) :
    List (String × Json) :=
  let obj := claimMoverKeys.foldl (fun obj key => eraseKey key obj) next.fields
  match prev with
  | none => obj
  | some prev =>
    let obj := nullMissing claimControllerKeys (fun key => (prev.fields.lookup key).isSome) obj
    if claimRearmed prev next then nullMissing claimRearmResetKeys (fun _ => true) obj else obj

def claimMergeBody (prev : Option RestoreClaimStatus) (next : RestoreClaimStatus) : Json :=
  .object (claimMergeFields prev next)

@[ext]
structure Claims where
  entries : List (String × RestoreClaimStatus)
  sorted : SortedKeys entries

def Claims.get (claims : Claims) (claim : String) : Option RestoreClaimStatus :=
  claims.entries.lookup claim

inductive ClaimReason
  | awaitingPodSchedule
  | waitingForSnapshot
  | populatingPrimePvc
  | noSnapshotContinue
  | restoreSucceeded
  | targetAlreadyBound
  | claimRecreated
  | moverJobFailed
  | moverPodWedged
  | populateHijacked
  | snapshotNotFound
  | sourcePathAmbiguous
  | lostRebind
deriving DecidableEq

def ClaimReason.asStr : ClaimReason → String
  | .awaitingPodSchedule => "AwaitingPodSchedule"
  | .waitingForSnapshot => "WaitingForSnapshot"
  | .populatingPrimePvc => "PopulatingPrimePvc"
  | .noSnapshotContinue => "NoSnapshotContinue"
  | .restoreSucceeded => "RestoreSucceeded"
  | .targetAlreadyBound => "TargetAlreadyBound"
  | .claimRecreated => "ClaimRecreated"
  | .moverJobFailed => "MoverJobFailed"
  | .moverPodWedged => "MoverPodWedged"
  | .populateHijacked => "PopulateHijacked"
  | .snapshotNotFound => "SnapshotNotFound"
  | .sourcePathAmbiguous => "SourcePathAmbiguous"
  | .lostRebind => "LostRebind"

def RestoreClaimPhase.isTerminal : RestoreClaimPhase → Bool
  | .populated | .alreadyBound | .failed => true
  | .pending | .populating | .rebinding | .unknown .. => false

inductive ClaimDrive
  | drive
  | settled
  | reArm (staleUid : String)

def claimDrive (record : Option RestoreClaimStatus) (liveUid : String) : ClaimDrive :=
  match record with
  | none => .drive
  | some r =>
    match r.uid.filter (· != liveUid) with
    | some staleUid => .reArm staleUid
    | none => if r.phase.any RestoreClaimPhase.isTerminal then .settled else .drive

def PlainObject.text (o : PlainObject) (key : String) : Option String :=
  match o.fields.lookup key with
  | some (.string text) => some text
  | _ => none

/-- The pin of a claim that comes up empty. -/
def noSnapshotPin (pinnedAt : String) : PlainObject where
  fields := [("pinnedAt", .string pinnedAt), ("resolution", .string "NoSnapshot")]
  plain := by
    have hlt : "pinnedAt" < "resolution" := by decide
    refine .object (List.pairwise_pair.mpr hlt) (fun e he => ?_) fun e he => ?_
    all_goals rcases List.mem_pair.mp he with rfl | rfl
    exacts [rfl, rfl, plain_string _, plain_string _]

inductive PinnedDecision
  | snapshot (id : String)
  | empty

def claimPinnedDecision (record : RestoreClaimStatus) : Option PinnedDecision :=
  match record.resolved with
  | some pin =>
    if pin.text "resolution" = some "NoSnapshot" then some .empty
    else (pin.text "kopiaSnapshotID").map .snapshot
  | none => if record.phase = some .populated then some .empty else none

inductive JobNameReuse
  | fresh
  | legacyShared
deriving DecidableEq

def claimFinalizePin (reuse : JobNameReuse) (claimPin prevPin topLevel : Option PlainObject) :
    Option PlainObject :=
  let own := claimPin.or prevPin
  match reuse with
  | .fresh => own
  | .legacyShared => own.or topLevel

inductive OnMissingSnapshot
  | fail
  | continue_

/-- What the source of a claim resolves to. -/
inductive SourceFound
  | ambiguous
  -- the pin names a snapshot, the path is that of its identity
  | pinned (pin : PlainObject) (path : Option String)
  | deferred (path : Option String)
  | missing (waiting : Bool) (onMissing : OnMissingSnapshot)

inductive MoverOutcome
  | running
  | failed
  | wedged
  | succeeded

/-- What the pass sees of a claim that it drives. -/
inductive Handshake
  -- with the pins read afresh from the claim and from the top of the status
  | finalizeRebound (claimPin topLevel : Option PlainObject)
  | awaitingBind
  -- bound to a volume of its own, or to another than the one handed over
  | bound (lostRebind jobRuns : Bool)
  | populate (found : SourceFound) (awaitsPod : Bool) (mover : MoverOutcome) (issued : Bool)

/-- A claiming PVC in a pass. The texts it may report and the clock are given. -/
structure Claimant where
  name : String
  uid : String
  primeName : String
  populateJob : String
  legacyJob : String
  seen : Handshake
  message : ClaimReason → String
  now : String

namespace Claimant

variable (c : Claimant) (prev : Option RestoreClaimStatus)

def jobName : String := (prev.bind (·.job)).getD c.populateJob

def jobReuse : JobNameReuse := if c.jobName prev = c.legacyJob then .legacyShared else .fresh

def record (phase : RestoreClaimPhase) (reason : ClaimReason) : RestoreClaimStatus where
  uid := c.uid
  phase := phase
  reason := reason.asStr
  message := c.message reason
  sourcePath := prev.bind (·.sourcePath)
  resolved := prev.bind (·.resolved)
  pvcPrime := prev.bind (·.pvcPrime)
  job := prev.bind (·.job)
  waitStartedAt := prev.bind (·.waitStartedAt)

def finalizeRebound (claimPin topLevel : Option PlainObject) : RestoreClaimStatus :=
  let live := claimFinalizePin (c.jobReuse prev) claimPin (prev.bind (·.resolved)) topLevel
  let restored := live.bind (·.text "resolution") = some "Snapshot"
  let reason := if restored then .restoreSucceeded else .noSnapshotContinue
  { c.record prev .populated reason with resolved := live, pvcPrime := none, job := none }

def alreadyBound (lostRebind jobRuns : Bool) : RestoreClaimStatus :=
  if jobRuns then
    -- the Job is cancelled and the prime stays
    { c.record prev .failed .populateHijacked with job := none, pvcPrime := some c.primeName }
  else
    let reason := if lostRebind then .lostRebind else .targetAlreadyBound
    { c.record prev .alreadyBound reason with pvcPrime := none, job := none }

inductive Resolution
  | restore
  | emptyVolume
  | parked (phase : RestoreClaimPhase) (reason : ClaimReason)

/-- With the pin and the source path it leaves. -/
def resolveClaimSource (found : SourceFound) :
    Resolution × Option PlainObject × Option String :=
  let pin := prev.bind (·.resolved)
  let path := prev.bind (·.sourcePath)
  match prev.bind claimPinnedDecision with
  | some (.snapshot _) => (.restore, pin, path)
  | some .empty => (.emptyVolume, pin, path)
  | none =>
    match found with
    | .ambiguous => (.parked .failed .sourcePathAmbiguous, pin, path)
    | .pinned found foundPath => (.restore, some found, foundPath.or path)
    -- the mover resolves and pins it
    | .deferred foundPath => (.restore, pin, foundPath)
    | .missing true _ => (.parked .pending .waitingForSnapshot, pin, path)
    | .missing false .fail => (.parked .failed .snapshotNotFound, pin, path)
    | .missing false .continue_ => (.emptyVolume, some (noSnapshotPin c.now), path)

def populate (found : SourceFound) (awaitsPod : Bool) (mover : MoverOutcome) (issued : Bool) :
    RestoreClaimStatus :=
  let waitStartedAt := (prev.bind (·.waitStartedAt)).or (some c.now)
  let (resolution, resolved, sourcePath) := c.resolveClaimSource prev found
  let pinned := fun record : RestoreClaimStatus =>
    { record with resolved, sourcePath, waitStartedAt }
  let started := fun (job : Option String) (record : RestoreClaimStatus) =>
    pinned { record with pvcPrime := some c.primeName, job }
  let handed := fun record : RestoreClaimStatus =>
    if issued then { record with phase := some .rebinding } else record
  match resolution with
  | .parked phase reason => pinned (c.record prev phase reason)
  | .restore | .emptyVolume =>
    if awaitsPod then pinned (c.record prev .pending .awaitingPodSchedule)
    else
      match resolution, mover with
      | .restore, .running =>
        started (c.jobName prev) (c.record prev .populating .populatingPrimePvc)
      | .restore, .failed => started (c.jobName prev) (c.record prev .failed .moverJobFailed)
      | .restore, .wedged => started (c.jobName prev) (c.record prev .failed .moverPodWedged)
      | .restore, .succeeded =>
        handed (started (c.jobName prev) (c.record prev .rebinding .populatingPrimePvc))
      | _, _ => handed (started none (c.record prev .populating .noSnapshotContinue))

def driveClaim : RestoreClaimStatus :=
  match c.seen with
  | .finalizeRebound claimPin topLevel => c.finalizeRebound prev claimPin topLevel
  | .awaitingBind => c.record prev .rebinding .populatingPrimePvc
  | .bound lostRebind jobRuns => c.alreadyBound prev lostRebind jobRuns
  | .populate found awaitsPod mover issued => c.populate prev found awaitsPod mover issued

def driveOneClaim : RestoreClaimStatus :=
  match claimDrive prev c.uid with
  | .settled => prev.getD {}
  | .reArm _ =>
    { uid := some c.uid, phase := some .pending, reason := some ClaimReason.claimRecreated.asStr,
      message := some (c.message .claimRecreated) }
  | .drive => c.driveClaim prev

end Claimant

/-- The records of a pass. -/
def drivePopulatorFanout (prev : Claims) (live : List Claimant) : Claims where
  entries := putAll (live.map fun c => (c.name, c.driveOneClaim (prev.get c.name))) []
  sorted := sorted_putAll _ List.Pairwise.nil

structure ClaimTally where
  total : Nat
  populated : Nat := 0
  alreadyBound : Nat := 0
  inFlight : List String := []
  active : Nat := 0
  failed : List (String × String) := []
deriving DecidableEq

inductive ClaimsAggregate
  | noClaims
  | failed (tally : ClaimTally)
  | inFlight (tally : ClaimTally)
  | allSettled (tally : ClaimTally)
deriving DecidableEq

def claimIsActive : Option RestoreClaimPhase → Bool
  | some .populating | some .rebinding => true
  | _ => false

def ClaimTally.count (tally : ClaimTally) (claim : String) (phase : Option RestoreClaimPhase)
    (reason : Option String) : ClaimTally :=
  match phase with
  | some .populated => { tally with populated := tally.populated + 1 }
  | some .alreadyBound => { tally with alreadyBound := tally.alreadyBound + 1 }
  | some .failed =>
    { tally with failed := tally.failed ++ [(claim, reason.getD "Failed")] }
  -- a phase that cannot be read is never settled
  | _ =>
    { tally with
      inFlight := tally.inFlight ++ [claim]
      active := if claimIsActive phase then tally.active + 1 else tally.active }

def aggregateClaims (claims : List (String × RestoreClaimStatus)) : ClaimsAggregate :=
  if claims.isEmpty then .noClaims
  else
    let tally := claims.foldl (fun tally (claim, r) => tally.count claim r.phase r.reason)
      { total := claims.length }
    if !tally.failed.isEmpty then .failed tally
    else if !tally.inFlight.isEmpty then .inFlight tally
    else .allSettled tally

inductive RestorePhase
  | pending
  | resolving
  | restoring
  | completed
  | failed
deriving DecidableEq

def RestorePhase.label : RestorePhase → String
  | .pending => "Pending"
  | .resolving => "Resolving"
  | .restoring => "Restoring"
  | .completed => "Completed"
  | .failed => "Failed"

def restoreReadyOutcome : RestorePhase → ReadyOutcome
  | .completed => .ready
  | .failed => .stalled
  | .pending | .resolving | .restoring => .reconciling

def aggregatePhase : ClaimsAggregate → RestorePhase
  | .noClaims => .pending
  | .failed _ => .failed
  | .inFlight tally => if 0 < tally.active then .restoring else .pending
  | .allSettled _ => .completed

def claimsSummary (aggregate : ClaimsAggregate) : String × String :=
  let message := fun tally : ClaimTally =>
    let settled := tally.populated + tally.alreadyBound
    toString settled ++ "/" ++ toString tally.total ++ " claims settled" ++
    (if 0 < tally.populated then "; populated: " ++ toString tally.populated else "") ++
    (if 0 < tally.alreadyBound then "; already bound: " ++ toString tally.alreadyBound else "") ++
    (if tally.inFlight.isEmpty then "" else "; in flight: " ++ ", ".intercalate tally.inFlight) ++
    (if tally.failed.isEmpty then "" else
      "; failed: " ++
        ", ".intercalate (tally.failed.map fun (name, reason) => name ++ " (" ++ reason ++ ")") ++
        ". Other claims continue. Fix: resolve the cause, then re-create the failed claiming " ++
        "PVC to retry it.")
  match aggregate with
  | .noClaims =>
    ("AwaitingPvcDataSourceRef",
      "populator: no PVC references this Restore in spec.dataSourceRef yet, so the waitTimeout " ++
        "clock has not started. Fix: Create the claiming PVC.")
  | .failed tally => ("ClaimFailed", message tally)
  | .inFlight tally => ("PopulatingPrimePvc", message tally)
  | .allSettled tally => ("RestoreSucceeded", message tally)

inductive ClaimsMirror
  | noClaims
  | single (claim : String) (record : RestoreClaimStatus)
  | many

def claimsMirror : List (String × RestoreClaimStatus) → ClaimsMirror
  | [] => .noClaims
  | [(claim, record)] => .single claim record
  | _ :: _ :: _ => .many

def ClaimsMirror.isSingle : ClaimsMirror → Bool
  | .single _ _ => true
  | _ => false

def mirroredReport (mirror : ClaimsMirror) (claims : List (String × RestoreClaimStatus)) :
    String × String :=
  match mirror with
  | .single _ record =>
    match record.reason, record.message with
    | some reason, some message => (reason, message)
    | _, _ => claimsSummary (aggregateClaims claims)
  | .noClaims | .many => claimsSummary (aggregateClaims claims)

def resolvedReasons : List (String × Bool) :=
  [("NoSnapshotContinue", true), ("WaitingForSnapshot", false), ("SnapshotNotFound", false),
    ("SourcePathAmbiguous", false), ("RepositoryNotReady", false),
    ("RestoreReferentMissing", false), ("AwaitingPvcDataSourceRef", false)]

def mirroredResolvedCondition : ClaimsMirror → Option (Bool × String)
  | .single _ record =>
    record.reason.bind fun reason => (resolvedReasons.lookup reason).map fun met => (met, reason)
  | .noClaims | .many => none

def applyClaimsMirror (status : List (String × Json)) (mirror : ClaimsMirror) (prev : Claims)
    (gone : List String) : List (String × Json) :=
  match mirror with
  | .noClaims => status
  | .single claim record =>
    let status := match record.resolved with
      | some resolved => putKey "resolved" resolved.toValue status
      | none =>
        let rearmed := (prev.get claim).any fun p => claimRearmed p record
        if rearmed || !gone.isEmpty then putKey "resolved" .null status else status
    putKey "target"
      (.object [("pvcPrime", (record.pvcPrime.map .string).getD .null),
        ("pvcRef", .object [("name", .string claim)])]) status
  | .many =>
    let status :=
      if (claimsMirror prev.entries).isSingle then putKey "resolved" .null status else status
    putKey "target" .null status

def goneClaims (prev next : Claims) : List String :=
  (prev.entries.map Prod.fst).filter fun claim => (next.get claim).isNone

def claimsPatch (prev next : Claims) (gone : List String) : List (String × Json) :=
  gone.foldl (fun merges claim => putKey claim .null merges)
    (next.entries.map fun (claim, r) => (claim, claimMergeBody (prev.get claim) r))

section
variable (renderTime : DateTime → String)

def conditionValue (c : StatusCondition) : Json :=
  .object (present
    [("lastTransitionTime", some (.string (renderTime c.lastTransitionTime))),
      ("message", some (.string c.message)),
      ("observedGeneration", c.observedGeneration.map .int),
      ("reason", some (.string c.reason)),
      ("status", some (.string (match c.status with
        | .true => "True"
        | .false => "False"
        | .unknown => "Unknown"))),
      ("type", some (.string c.type))])

def conditionsValue (conditions : List StatusCondition) : Json :=
  .array (conditions.map (conditionValue renderTime))

/-- The conditions at the end of a pass, over those that stand. -/
def fanoutConditions (generation : Option Int) (now : DateTime) (base : List StatusCondition)
    (next : Claims) : List StatusCondition :=
  let mirror := claimsMirror next.entries
  let (reason, message) := mirroredReport mirror next.entries
  let conditions := StatusCondition.upsert now base "AwaitingClaim" false "ClaimsObserved"
    "at least one PVC references this Restore; see status.claims for each claim" generation
  let conditions := match mirroredResolvedCondition mirror with
    | some (met, resolvedReason) =>
      StatusCondition.upsert now conditions "Resolved" met resolvedReason message generation
    | none => conditions
  StatusCondition.setReady now conditions generation
    (restoreReadyOutcome (aggregatePhase (aggregateClaims next.entries))) reason message

def fanoutFields (generation : Option Int) (now : DateTime) (base : List StatusCondition)
    (prev next : Claims) (gone : List String) : List (String × Json) :=
  let status : List (String × Json) :=
    [("conditions", conditionsValue renderTime (fanoutConditions generation now base next)),
      ("observedGeneration", (generation.map .int).getD .null),
      ("phase", .string (aggregatePhase (aggregateClaims next.entries)).label)]
  let status := applyClaimsMirror status (claimsMirror next.entries) prev gone
  putKey "claims" (.object (claimsPatch prev next gone)) status

def fanoutStatus (generation : Option Int) (now : DateTime) (base : List StatusCondition)
    (prev next : Claims) (gone : List String) : Json :=
  .object (fanoutFields renderTime generation now base prev next gone)

end

def statusMergePatchIsNoop (current : Option Json) (desired : Json) : Prop :=
  ∃ status, current = some status ∧ status.merge desired = status

end Kopiur.Fanout
