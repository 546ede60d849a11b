import Kopiur.Lib.StampedCache
import Kopiur.Ui.Identity

/-!
# The cache of authorization decisions

A question is answered from the cache while the decision is fresh. Otherwise
one caller at a time posts the review; the others queue on a lock that is
registered for the question and torn down by its last user.
-/

namespace Kopiur.Ui

open Kopiur.Lib

def kopiurGroup : String := "kopiur.home-operations.com"

structure SarKey where
  user : String
  groups : List String
  extra : List (String × List String)
  verb : String
  group : String
  resource : String
  ns : Option String
  name : Option String
deriving DecidableEq

def SarKey.new (id : Identity) (verb resource : String) (ns name : Option String) : SarKey where
  user := id.user
  groups := canonical id.groups
  extra := id.extra
  verb := verb
  group := kopiurGroup
  resource := resource
  ns := ns
  name := name

/-! ## Decisions -/

structure Decisions where
  ttl : Nat
  size : Nat
  entries : StampedCache SarKey Bool
deriving DecidableEq

namespace Decisions

/-- An expired decision is dropped when it is read. -/
def get (d : Decisions) (now : Nat) (key : SarKey) : Decisions × Option Bool :=
  match d.entries.find key with
  | some s =>
    if StampedCache.fresh d.ttl now (key, s) then (d, some s.value)
    else ({ d with entries := d.entries.remove key }, none)
  | none => (d, none)

def put (d : Decisions) (now : Nat) (key : SarKey) (allowed : Bool) : Decisions :=
  let entries := d.entries.sweep d.ttl now
  if d.size = 0 then { d with entries }
  else { d with entries := (entries.makeRoom d.size).insert key allowed now }

def len (d : Decisions) (now : Nat) : Decisions × Nat :=
  let entries := d.entries.sweep d.ttl now
  ({ d with entries }, entries.length)

end Decisions

/-! ## Callers -/

/-- What a call of `allowed` asks. -/
structure Question where
  identity : Identity
  verb : String
  resource : String
  ns : Option String
  name : Option String
deriving DecidableEq

def Question.key (q : Question) : SarKey :=
  .new q.identity q.verb q.resource q.ns q.name

/-- Where a call stands. A guard is the lock of a question. -/
inductive Phase
  | entered
  | missed
  /-- It awaits the guard. -/
  | queued (guard : Nat)
  | holding (guard : Nat)
  /-- It awaits the reviewer. -/
  | reviewing (guard : Nat)
  | received (guard : Nat) (allowed : Bool)
  | stored (guard : Nat) (allowed : Bool)
  | releasing (guard : Nat) (result : Except String Bool)
  | leaving (guard : Nat) (result : Except String Bool)
  /-- The lock is dropped, the handle is not. -/
  | unlocked (guard : Nat) (result : Except String Bool)
  /-- Cancelled: the lock is dropped if it was held, the handle is not. -/
  | abandoned (guard : Nat)
deriving DecidableEq

namespace Phase

def guard : Phase → Option Nat
  | .entered | .missed => none
  | .queued g | .holding g | .reviewing g | .received g _ | .stored g _ | .releasing g _
  | .leaving g _ | .unlocked g _ | .abandoned g => some g

def holds : Phase → Bool
  | .entered | .missed | .queued _ | .unlocked _ _ | .abandoned _ => false
  | _ => true

def suspended : Phase → Bool
  | .entered | .queued _ | .reviewing _ => true
  | _ => false

end Phase

structure Caller where
  id : Nat
  question : Question
  phase : Phase
deriving DecidableEq

/-- An answer of the reviewer. -/
structure Review where
  question : Question
  allowed : Bool
  time : Nat
deriving DecidableEq

/-- What a call returned. -/
structure Answer where
  caller : Nat
  question : Question
  result : Except String Bool
  time : Nat
deriving DecidableEq

structure SarWorld where
  decisions : Decisions
  inFlight : List (SarKey × Nat)
  nextGuard : Nat
  callers : List Caller
  nextCaller : Nat
  clock : Nat
  /-- The reviews that were answered. -/
  reviews : List Review
  /-- The callers whose own review failed. -/
  failed : List Nat
  answers : List Answer
deriving DecidableEq

namespace SarWorld

def start (ttl size : Nat) : SarWorld where
  decisions := ⟨ttl, size, []⟩
  inFlight := []
  nextGuard := 0
  callers := []
  nextCaller := 0
  clock := 0
  reviews := []
  failed := []
  answers := []

def others (w : SarWorld) (c : Caller) : List Caller := w.callers.filter fun d => d.id ≠ c.id

def move (w : SarWorld) (c : Caller) (phase : Phase) : SarWorld :=
  { w with callers := { c with phase } :: w.others c }

def finish (w : SarWorld) (c : Caller) (result : Except String Bool) : SarWorld :=
  { w with
    callers := w.others c
    answers := ⟨c.id, c.question, result, w.clock⟩ :: w.answers }

def strongCount (w : SarWorld) (guard : Nat) : Nat :=
  (w.inFlight.filter fun e => e.2 = guard).length +
    (w.callers.filter fun c => c.phase.guard = some guard).length

def flightLock (w : SarWorld) (key : SarKey) : SarWorld × Nat :=
  match w.inFlight.lookup key with
  | some guard => (w, guard)
  | none =>
    ({ w with inFlight := (key, w.nextGuard) :: w.inFlight, nextGuard := w.nextGuard + 1 },
      w.nextGuard)

def releaseFlight (w : SarWorld) (key : SarKey) : SarWorld :=
  match w.inFlight.lookup key with
  | some guard =>
    if w.strongCount guard ≤ 2 then
      { w with inFlight := w.inFlight.filter fun e => e.1 ≠ key }
    else w
  | none => w

def isFree (w : SarWorld) (guard : Nat) : Bool :=
  w.callers.all fun c => !(c.phase.holds && c.phase.guard == some guard)

/-- The call runs up to its next access to something shared. -/
def advance (w : SarWorld) (c : Caller) : Option SarWorld :=
  let key := c.question.key
  match c.phase with
  | .entered =>
    let (decisions, cached) := w.decisions.get w.clock key
    match cached with
    | some allowed => some ({ w with decisions }.finish c (.ok allowed))
    | none => some ({ w with decisions }.move c .missed)
  | .missed =>
    let (w, guard) := w.flightLock key
    some (w.move c (.queued guard))
  | .queued guard => if w.isFree guard then some (w.move c (.holding guard)) else none
  | .holding guard =>
    let (decisions, cached) := w.decisions.get w.clock key
    match cached with
    | some allowed => some ({ w with decisions }.move c (.releasing guard (.ok allowed)))
    | none => some ({ w with decisions }.move c (.reviewing guard))
  | .reviewing _ => none
  | .received guard allowed =>
    let decisions := w.decisions.put w.clock key allowed
    some ({ w with decisions }.move c (.stored guard allowed))
  | .stored guard allowed =>
    let decisions := (w.decisions.len w.clock).1
    some ({ w with decisions }.move c (.releasing guard (.ok allowed)))
  | .releasing guard result => some ((w.releaseFlight key).move c (.leaving guard result))
  | .leaving guard result => some (w.move c (.unlocked guard result))
  | .unlocked _ result => some (w.finish c result)
  | .abandoned _ => some { w with callers := w.others c }

end SarWorld

inductive SarEvent
  | enter (question : Question)
  | run (caller : Nat)
  /-- The reviewer answers the caller, or fails. -/
  | review (caller : Nat) (result : Except String Bool)
  | cancel (caller : Nat)
  /-- Time passes while every call is at an await. -/
  | wait (time : Nat)
  /-- The map shows its entries in another order. -/
  | rehash (entries : StampedCache SarKey Bool)
deriving DecidableEq

def sarStep (w : SarWorld) : SarEvent → Option SarWorld
  | .enter question =>
    some { w with
      callers := ⟨w.nextCaller, question, .entered⟩ :: w.callers
      nextCaller := w.nextCaller + 1 }
  | .run caller => (w.callers.find? (·.id = caller)).bind w.advance
  | .review caller result =>
    (w.callers.find? (·.id = caller)).bind fun c =>
      match c.phase, result with
      | .reviewing guard, .ok allowed =>
        some ({ w with reviews := ⟨c.question, allowed, w.clock⟩ :: w.reviews }.move c
          (.received guard allowed))
      | .reviewing guard, .error e =>
        some ({ w with failed := c.id :: w.failed }.move c (.releasing guard (.error e)))
      | _, _ => none
  | .cancel caller =>
    (w.callers.find? (·.id = caller)).bind fun c =>
      if c.phase.suspended then
        match c.phase.guard with
        | some guard => some (w.move c (.abandoned guard))
        | none => some { w with callers := w.others c }
      else none
  | .wait time =>
    if w.callers.all (·.phase.suspended) then some { w with clock := w.clock + time } else none
  | .rehash entries =>
    if entries.Perm w.decisions.entries then
      some { w with decisions := { w.decisions with entries } }
    else none

end Kopiur.Ui
