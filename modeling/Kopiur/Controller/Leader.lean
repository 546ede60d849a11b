import Kopiur.Lib.Cas
import Kopiur.Time
import Mathlib.Data.String.Basic

/-!
# Leader election by a Lease

Replicas compete for one Lease object by compare-and-swap. A replica measures
time on its own monotonic clock only: how long it has seen the Lease of another
unchanged, and how long ago it last renewed its own. Every attempt is a read
followed by at most one write, each a request and a response that may take any
time or be lost; what an attempt does with a response is the code's, when it
arrives is not.
-/

namespace Kopiur

open Lib

/-- A reading of a replica's monotonic clock. -/
abbrev Instant := Int

structure LeaseTimings where
  leaseDuration : Duration := Duration.seconds 15
  renewDeadline : Duration := Duration.seconds 10
  renewPeriod : Duration := Duration.seconds 2
  retryPeriod : Duration := Duration.seconds 2
deriving DecidableEq

def maxLeaseDuration : Duration := Duration.seconds 300

def LeaseTimings.validate (t : LeaseTimings) : Bool :=
  decide (t.renewPeriod + t.renewDeadline < t.leaseDuration) &&
    decide (t.retryPeriod < t.renewDeadline) && decide (t.renewPeriod ≠ 0) &&
    decide (t.retryPeriod ≠ 0) && decide (t.leaseDuration ≤ maxLeaseDuration)

def renewAttemptTimeout : Duration := Duration.seconds 6

def campaignTimeout : Duration := Duration.seconds 10

def releaseTimeout : Duration := Duration.seconds 5

/-- Microseconds of a wall clock. -/
abbrev Timestamp := Int

structure LeaseSpec where
  holderIdentity : Option String := none
  renewTime : Option Timestamp := none
  leaseTransitions : Option Int := none
deriving DecidableEq

/-- The Lease with its `resourceVersion`. -/
abbrev Lease := Versioned (Option LeaseSpec)

abbrev LeaseWrite := CasWrite (Option LeaseSpec)

def specHolder (spec : Option LeaseSpec) : Option String := spec.bind LeaseSpec.holderIdentity

inductive LeaseDecision
  | claim
  | renew
  | standby
deriving DecidableEq

def decideLease (holder : Option String) (identity : String)
    (observedUnchangedFor leaseDuration : Duration) : LeaseDecision :=
  match holder with
  | some h =>
    if h = identity then .renew
    else if leaseDuration < observedUnchangedFor then .claim
    else .standby
  | none => .claim

abbrev LeaseView := Option String × Option Timestamp

structure Observation where
  seen : Option LeaseView := none
  since : Instant
deriving DecidableEq

def Observation.track (o : Observation) (current : LeaseView) (now : Instant) : Observation :=
  if o.seen ≠ some current then { seen := some current, since := now } else o

def leaseView (lease : Option Lease) : LeaseView :=
  match lease.bind Versioned.value with
  | some spec => (spec.holderIdentity, spec.renewTime)
  | none => (none, none)

def claimedSpec (identity : String) (now : Timestamp) (transitions : Int) : LeaseSpec where
  holderIdentity := some identity
  renewTime := some now
  leaseTransitions := some transitions

/-- The write an observation leads to, or none to stand by. -/
def actOnObservation (t : LeaseTimings) (identity : String) (observed : Option Lease)
    (unchangedFor : Duration) (now : Timestamp) : Option LeaseWrite :=
  match observed with
  | none => some (.create (some (claimedSpec identity now 1)))
  | some lease =>
    let spec := lease.value.getD {}
    match decideLease spec.holderIdentity identity unchangedFor t.leaseDuration with
    | .standby => none
    | .renew => some (.replace lease.version (some { spec with renewTime := some now }))
    | .claim =>
      let transitions := spec.leaseTransitions.getD 0 + 1
      some (.replace lease.version (some (claimedSpec identity now transitions)))

/-- How far an attempt has got. The requests and responses are on their way
until they are served or delivered. -/
inductive Stage
  | getting
  | got (lease : Option Lease)
  | writing (w : LeaseWrite)
  | wrote (ok : Bool)
deriving DecidableEq

structure Attempt where
  started : Instant
  bound : Duration
  -- The holder it read.
  holder : Option String := none
  stage : Stage := .getting
deriving DecidableEq

def Attempt.start (now : Instant) (bound : Duration) : Attempt where
  started := now
  bound

/-- `acquire`. -/
structure Campaign where
  observation : Observation
  wake : Instant
  attempt : Option Attempt := none
deriving DecidableEq

/-- `reconfirm`. -/
structure Reconfirm where
  safeUntil : Instant
  wake : Instant
  attempt : Option Attempt := none
deriving DecidableEq

inductive RenewalStage
  | sleeping (wake : Instant)
  | round (windowCloses wake : Instant) (attempt : Option Attempt)
deriving DecidableEq

/-- The task of `spawnRenewal`. -/
structure Renewal where
  observation : Observation
  lastRenewed : Instant
  stage : RenewalStage
deriving DecidableEq

inductive Main
  | exited
  | degraded
  | campaigning (c : Campaign)
  | leading
  | reconfirming (c : Reconfirm)
  | releasing (attempt : Option Attempt)
deriving DecidableEq

def Main.isReleasing : Main → Bool
  | releasing _ => true
  | exited | degraded | campaigning _ | leading | reconfirming _ => false

structure Replica where
  main : Main := .exited
  renewal : Option Renewal := none
deriving DecidableEq

inductive Task
  | main
  | renewal
deriving DecidableEq

def spawnRenewal (t : LeaseTimings) (now : Instant) : Renewal where
  observation := { since := now }
  lastRenewed := now
  stage := .sleeping (now + t.renewPeriod)

namespace Replica

def setRenewal (r : Replica) (rn : Renewal) : Replica := { r with renewal := some rn }

def attempt (r : Replica) : Task → Option Attempt
  | .main =>
    match r.main with
    | .campaigning c => c.attempt
    | .reconfirming c => c.attempt
    | .releasing attempt => attempt
    | .exited | .degraded | .leading => none
  | .renewal =>
    match r.renewal with
    | some { stage := .round _ _ attempt, .. } => attempt
    | _ => none

def setAttempt (r : Replica) (attempt : Option Attempt) : Task → Replica
  | .main =>
    match r.main with
    | .campaigning c => { r with main := .campaigning { c with attempt } }
    | .reconfirming c => { r with main := .reconfirming { c with attempt } }
    | .releasing _ => { r with main := .releasing attempt }
    | .exited | .degraded | .leading => r
  | .renewal =>
    match r.renewal with
    | some rn =>
      match rn.stage with
      | .round closes wake _ => r.setRenewal { rn with stage := .round closes wake attempt }
      | .sleeping _ => r
    | none => r

def safeUntil (t : LeaseTimings) (r : Replica) : Option Instant :=
  match r.main with
  | .leading => r.renewal.map fun rn => rn.lastRenewed + t.leaseDuration
  | .reconfirming c => some c.safeUntil
  | .exited | .degraded | .campaigning _ | .releasing _ => none

/-- The renewal task reports that a peer leads. Nobody listens once the process
is shutting down. -/
def lostToPeer (r : Replica) : Replica :=
  match r.main with
  | .leading => { main := .exited }
  | _ => { r with renewal := none }

def renewFailed (t : LeaseTimings) (now : Instant) (r : Replica) (rn : Renewal) : Replica :=
  match r.main with
  | .leading =>
    { main := .reconfirming { safeUntil := rn.lastRenewed + t.leaseDuration, wake := now } }
  | _ => { r with renewal := none }

def pauseUntil (t : LeaseTimings) (now closes : Instant) : Instant :=
  now + min t.retryPeriod (max (closes - now) 0)

/-- The head of a task's loop, once its sleep is over. -/
def resume (t : LeaseTimings) (now : Instant) (r : Replica) : Task → Option Replica
  | .main =>
    match r.main with
    | .campaigning c =>
      if c.attempt.isNone && decide (c.wake ≤ now) then
        some { r with main :=
          .campaigning { c with attempt := some (.start now campaignTimeout) } }
      else none
    | .reconfirming c =>
      if c.attempt.isNone && decide (c.wake ≤ now) then
        if c.safeUntil - now ≤ 0 then some { main := .exited }
        else
          let bound := min renewAttemptTimeout (c.safeUntil - now)
          some { r with main := .reconfirming { c with attempt := some (.start now bound) } }
      else none
    | .releasing none =>
      some { r with main := .releasing (some (.start now releaseTimeout)) }
    | .releasing (some _) | .exited | .degraded | .leading => none
  | .renewal =>
    r.renewal.bind fun rn =>
      match rn.stage with
      | .sleeping wake =>
        if wake ≤ now then
          some (r.setRenewal { rn with stage := .round (now + t.renewDeadline) now none })
        else none
      | .round closes wake none =>
        if wake ≤ now then
          if closes - now ≤ 0 then some (r.renewFailed t now rn)
          else
            let bound := min renewAttemptTimeout (closes - now)
            some (r.setRenewal { rn with stage := .round closes wake (some (.start now bound)) })
        else none
      | .round _ _ (some _) => none

section Deliver

variable (t : LeaseTimings) (identity : String) (now : Instant) (stamp : Timestamp) (r : Replica)

/-- An attempt of `acquire` gets a response. -/
def acquire (c : Campaign) (a : Attempt) : Option Replica :=
  match a.stage with
  | .got lease =>
    let observation := c.observation.track (leaseView lease) now
    match actOnObservation t identity lease (now - observation.since) stamp with
    | some w =>
      let a := { a with stage := .writing w }
      some { r with main := .campaigning { c with observation, attempt := some a } }
    | none =>
      let c := { observation, wake := now + t.retryPeriod }
      some { r with main := .campaigning c }
  | .wrote true => some { main := .leading, renewal := some (spawnRenewal t now) }
  | .wrote false =>
    let c := { c with wake := now + t.retryPeriod, attempt := none }
    some { r with main := .campaigning c }
  | .getting | .writing _ => none

/-- An attempt of `reconfirm` gets a response. -/
def reconfirm (c : Reconfirm) (a : Attempt) : Option Replica :=
  match a.stage with
  | .got none => some { main := .exited }
  | .got (some lease) =>
    if specHolder lease.value = some identity then
      let spec := { lease.value.getD {} with renewTime := some stamp }
      let a := { a with stage := .writing (.replace lease.version (some spec)) }
      some { r with main := .reconfirming { c with attempt := some a } }
    else some { main := .exited }
  | .wrote true => some { main := .leading, renewal := some (spawnRenewal t now) }
  | .wrote false =>
    let c := { c with wake := pauseUntil t now c.safeUntil, attempt := none }
    some { r with main := .reconfirming c }
  | .getting | .writing _ => none

/-- `release` gets a response. The process ends with it. -/
def release (a : Attempt) : Option Replica :=
  match a.stage with
  | .got none => some { main := .exited }
  | .got (some lease) =>
    if specHolder lease.value = some identity then
      let spec := { lease.value.getD {} with holderIdentity := none, renewTime := none }
      let a := { a with stage := .writing (.replace lease.version (some spec)) }
      some { r with main := .releasing (some a) }
    else some { main := .exited }
  | .wrote _ => some { main := .exited }
  | .getting | .writing _ => none

def rejected (rn : Renewal) (closes : Instant) (holder : Option String) : Replica :=
  if holder = some identity then
    r.setRenewal { rn with stage := .round closes (pauseUntil t now closes) none }
  else r.lostToPeer

/-- An attempt of `renew_attempt` gets a response. -/
def renewAttempt (rn : Renewal) (closes wake : Instant) (a : Attempt) : Option Replica :=
  match a.stage with
  | .got lease =>
    let observation := rn.observation.track (leaseView lease) now
    let holder := lease.bind fun l => specHolder l.value
    match actOnObservation t identity lease (now - observation.since) stamp with
    | some w =>
      let a := { a with holder, stage := .writing w }
      some (r.setRenewal { rn with observation, stage := .round closes wake (some a) })
    | none => some (r.rejected t identity now { rn with observation } closes holder)
  | .wrote true =>
    let stage := .sleeping (now + t.renewPeriod)
    some (r.setRenewal { rn with lastRenewed := now, stage })
  | .wrote false => some (r.rejected t identity now rn closes a.holder)
  | .getting | .writing _ => none

/-- A response arrives. -/
def deliver : Task → Option Replica
  | .main =>
    match r.main with
    | .campaigning c => c.attempt.bind (r.acquire t identity now stamp c)
    | .reconfirming c => c.attempt.bind (r.reconfirm t identity now stamp c)
    | .releasing attempt => attempt.bind (r.release identity)
    | .exited | .degraded | .leading => none
  | .renewal =>
    match r.renewal with
    | some rn =>
      match rn.stage with
      | .round closes wake attempt =>
        attempt.bind (r.renewAttempt t identity now stamp rn closes wake)
      | .sleeping _ => none
    | none => none

end Deliver

/-- An attempt ends without an outcome. -/
def abandon (t : LeaseTimings) (now : Instant) (r : Replica) : Task → Replica
  | .main =>
    match r.main with
    | .campaigning c =>
      let c := { c with wake := now + t.retryPeriod, attempt := none }
      { r with main := .campaigning c }
    | .reconfirming c =>
      let c := { c with wake := pauseUntil t now c.safeUntil, attempt := none }
      { r with main := .reconfirming c }
    | .releasing _ => { main := .exited }
    | .exited | .degraded | .leading => r
  | .renewal =>
    match r.renewal with
    | some rn =>
      match rn.stage with
      | .round closes _ _ =>
        r.setRenewal { rn with stage := .round closes (pauseUntil t now closes) none }
      | .sleeping _ => r
    | none => r

def requests (r : Replica) : List LeaseWrite :=
  [Task.main, Task.renewal].filterMap fun task => (r.attempt task).bind fun a =>
    match a.stage with
    | .writing w => some w
    | .getting | .got _ | .wrote _ => none

def answered (attempt : Option Attempt) : Bool :=
  attempt.any fun a => decide (a.stage = .wrote true)

/-- The confirmation of a write is on its way, and the replica leads from its
arrival on. -/
def awaiting (r : Replica) : Bool :=
  match r.main with
  | .campaigning _ | .reconfirming _ => answered (r.attempt .main)
  | .leading => answered (r.attempt .renewal)
  | .exited | .degraded | .releasing _ => false

def observation (r : Replica) : Task → Option Observation
  | .main =>
    match r.main with
    | .campaigning c => some c.observation
    | .exited | .degraded | .leading | .reconfirming _ | .releasing _ => none
  | .renewal => r.renewal.map Renewal.observation

/-- The holder whose Lease the next delivery takes for expired, and since when
the replica has been timing it. -/
def takeover (t : LeaseTimings) (identity : String) (now : Instant) (r : Replica) (task : Task) :
    Option (String × Instant) :=
  (r.attempt task).bind fun a => (r.observation task).bind fun o =>
    match a.stage with
    | .got lease =>
      let since := (o.track (leaseView lease) now).since
      (lease.bind fun l => specHolder l.value).bind fun h =>
        if h ≠ identity ∧ t.leaseDuration < now - since then some (h, since) else none
    | .getting | .writing _ | .wrote _ => none

end Replica

/-- What a replica does by itself. A write that it no longer waits for may
still arrive. -/
inductive LocalAction
  | start
  | crash
  | shutdown
  | forbidden
  | resume (task : Task)
  | deliver (task : Task) (stamp : Timestamp)
  | timeout (task : Task)
  | fail (task : Task)
deriving DecidableEq

def localStep (t : LeaseTimings) (identity : String) (now : Instant) (r : Replica) :
    LocalAction → Option Replica
  | .start =>
    match r.main with
    | .exited => some { main := .campaigning { observation := { since := now }, wake := now } }
    | _ => none
  | .crash => some {}
  | .shutdown =>
    match r.main with
    | .leading => some { r with main := .releasing none }
    | _ => none
  | .forbidden =>
    match r.main with
    | .campaigning { attempt := some _, .. } => some { main := .degraded }
    | _ => none
  | .resume task => r.resume t now task
  | .deliver task stamp => r.deliver t identity now stamp task
  | .timeout task =>
    (r.attempt task).bind fun a =>
      if a.started + a.bound ≤ now then some (r.abandon t now task) else none
  | .fail task => (r.attempt task).map fun _ => r.abandon t now task

end Kopiur
