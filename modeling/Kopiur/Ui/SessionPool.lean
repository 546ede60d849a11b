import Kopiur.Api.Resources
import Kopiur.Lib.Runs
import Kopiur.Lib.Semaphores

/-!
# The bounds of browse sessions

Sessions are created one at a time for a key and a few at a time overall. Calls
of `pods/exec` are bounded for one identity and overall; the semaphores of the
identities live in a map that is pruned when it has grown.
-/

namespace Kopiur.Ui

open Kopiur.Lib

structure SessionKey where
  ns : String
  kind : RepositoryKind
  repoNamespace : Option String
  repoName : String
deriving DecidableEq

structure SessionLimits where
  maxStarts : Nat
  maxExecPerIdentity : Nat
  maxExecGlobal : Nat
deriving DecidableEq

def identitySemaphorePruneAt : Nat := 64

/-! ## Calls -/

/-- Where a call of `ensure` stands, which has a handle on the lock of its key. -/
inductive EnsurePhase
  | called (lock : Nat)
  /-- It awaits the lock. -/
  | locking (lock : Nat)
  /-- It awaits the look for an existing session. -/
  | looking (lock : Nat)
  /-- It awaits a permit to start one. -/
  | starting (lock : Nat)
  /-- It awaits the creation. -/
  | creating (lock : Nat)
  /-- What is left to drop is the lock. -/
  | leaving (lock : Nat)
deriving DecidableEq

def EnsurePhase.lock : EnsurePhase → Nat
  | .called l | .locking l | .looking l | .starting l | .creating l | .leaving l => l

structure EnsureCall where
  key : SessionKey
  phase : EnsurePhase
deriving DecidableEq

/-- Where a call of `exec_permit` stands, and then the permit it returned. -/
inductive ExecPhase
  /-- It has the global permit. -/
  | admitted
  /-- It has a handle on the semaphore of its identity. -/
  | keyed (sem : Nat)
  /-- It returned both permits. -/
  | holding (sem : Nat)
  /-- The identity's permit was refused, the global one is not yet given back. -/
  | refused
  /-- Dropped: the global permit is given back, the other is not. -/
  | dropping (sem : Nat)
  /-- Both are given back, the handle is not dropped. -/
  | returned (sem : Nat)
deriving DecidableEq

def ExecPhase.sem : ExecPhase → Option Nat
  | .admitted | .refused => none
  | .keyed s | .holding s | .dropping s | .returned s => some s

structure ExecCall where
  user : String
  phase : ExecPhase
deriving DecidableEq

/-! ## The pool -/

structure IdentitySemaphore where
  permits : Semaphore
  handles : List Nat
deriving DecidableEq

structure SessionPool where
  starts : Semaphore
  inflight : List (SessionKey × Nat)
  locks : Nat → Semaphore
  nextLock : Nat
  execGlobal : Semaphore
  execPerIdentity : List (String × Nat)
  sems : Nat → IdentitySemaphore
  nextSem : Nat
  execInflight : Nat
  ensures : Nat → Option EnsureCall
  execs : Nat → Option ExecCall
  nextCall : Nat

namespace SessionPool

def new (limits : SessionLimits) : SessionPool where
  starts := .new limits.maxStarts
  inflight := []
  locks _ := .new 1
  nextLock := 0
  execGlobal := .new limits.maxExecGlobal
  execPerIdentity := []
  sems _ := ⟨.new limits.maxExecPerIdentity, []⟩
  nextSem := 0
  execInflight := 0
  ensures _ := none
  execs _ := none
  nextCall := 0

def setEnsure (p : SessionPool) (i : Nat) (call : Option EnsureCall) : SessionPool :=
  { p with ensures := Function.update p.ensures i call }

def setExec (p : SessionPool) (i : Nat) (call : Option ExecCall) : SessionPool :=
  { p with execs := Function.update p.execs i call }

def setLock (p : SessionPool) (l : Nat) (s : Semaphore) : SessionPool :=
  { p with locks := Function.update p.locks l s }

def setSem (p : SessionPool) (s : Nat) (sem : IdentitySemaphore) : SessionPool :=
  { p with sems := Function.update p.sems s sem }

def keyLock (p : SessionPool) (key : SessionKey) : SessionPool × Nat :=
  match p.inflight.lookup key with
  | some l => (p, l)
  | none => ({ p with inflight := (key, p.nextLock) :: p.inflight, nextLock := p.nextLock + 1 },
      p.nextLock)

def strongCount (p : SessionPool) (s : Nat) : Nat := 1 + (p.sems s).handles.length

def prune (p : SessionPool) (limits : SessionLimits) : SessionPool :=
  if identitySemaphorePruneAt < p.execPerIdentity.length then
    { p with
      execPerIdentity := p.execPerIdentity.filter fun e =>
        decide (1 < p.strongCount e.2) ||
          decide ((p.sems e.2).permits.available < limits.maxExecPerIdentity) }
  else p

/-- A handle on the semaphore of an identity, created on first use. -/
def identitySemaphore (p : SessionPool) (limits : SessionLimits) (user : String) :
    SessionPool × Nat :=
  let p := p.prune limits
  match p.execPerIdentity.lookup user with
  | some s => (p, s)
  | none =>
    ({ p with
        execPerIdentity := (user, p.nextSem) :: p.execPerIdentity
        sems := Function.update p.sems p.nextSem ⟨.new limits.maxExecPerIdentity, []⟩
        nextSem := p.nextSem + 1 },
      p.nextSem)

def takeHandle (p : SessionPool) (s i : Nat) : SessionPool :=
  p.setSem s { p.sems s with handles := i :: (p.sems s).handles }

def dropHandle (p : SessionPool) (s i : Nat) : SessionPool :=
  p.setSem s { p.sems s with handles := (p.sems s).handles.erase i }

end SessionPool

inductive PoolEvent
  /-- A call of `ensure` takes a handle on the lock of its key. -/
  | ensure (key : SessionKey)
  | lock (call : Nat)
  | locked (call : Nat)
  /-- The look ends: with a session or an error, or with nothing. -/
  | looked (call : Nat) (missed : Bool)
  | permitted (call : Nat)
  | created (call : Nat)
  | unlock (call : Nat)
  | cancel (call : Nat)
  /-- A call of `exec_permit` tries for the global permit. -/
  | exec (user : String)
  | key (call : Nat)
  | take (call : Nat)
  | giveBack (call : Nat)
  /-- The permit is dropped: its counter, then the global permit. -/
  | drop (call : Nat)
  | dropUser (call : Nat)
  | dropHandle (call : Nat)
deriving DecidableEq

open SessionPool

/-- One access of a call to something shared. Only a call that awaits is cancelled. -/
def poolStep (limits : SessionLimits) (p : SessionPool) : PoolEvent → Option SessionPool
  | .ensure key =>
    let (p, l) := p.keyLock key
    some { p.setEnsure p.nextCall (some ⟨key, .called l⟩) with nextCall := p.nextCall + 1 }
  | .lock i => (p.ensures i).bind fun c =>
    match c.phase with
    | .called l =>
      some ((p.setLock l ((p.locks l).poll i)).setEnsure i (some { c with phase := .locking l }))
    | _ => none
  | .locked i => (p.ensures i).bind fun c =>
    match c.phase with
    | .locking l =>
      if i ∈ (p.locks l).held then some (p.setEnsure i (some { c with phase := .looking l }))
      else none
    | _ => none
  | .looked i missed => (p.ensures i).bind fun c =>
    match c.phase with
    | .looking l =>
      if missed then
        some ({ p with starts := p.starts.poll i }.setEnsure i
          (some { c with phase := .starting l }))
      else some (p.setEnsure i (some { c with phase := .leaving l }))
    | _ => none
  | .permitted i => (p.ensures i).bind fun c =>
    match c.phase with
    | .starting l =>
      if i ∈ p.starts.held then some (p.setEnsure i (some { c with phase := .creating l }))
      else none
    | _ => none
  | .created i => (p.ensures i).bind fun c =>
    match c.phase with
    | .creating l =>
      some ({ p with starts := p.starts.release i }.setEnsure i
        (some { c with phase := .leaving l }))
    | _ => none
  | .unlock i => (p.ensures i).bind fun c =>
    match c.phase with
    | .leaving l => some ((p.setLock l ((p.locks l).release i)).setEnsure i none)
    | _ => none
  | .cancel i => (p.ensures i).bind fun c =>
    match c.phase with
    | .locking l => some ((p.setLock l ((p.locks l).abandon i)).setEnsure i none)
    | .looking l => some (p.setEnsure i (some { c with phase := .leaving l }))
    | .starting l =>
      some ({ p with starts := p.starts.abandon i }.setEnsure i
        (some { c with phase := .leaving l }))
    | .creating l =>
      some ({ p with starts := p.starts.release i }.setEnsure i
        (some { c with phase := .leaving l }))
    | _ => none
  | .exec user =>
    match p.execGlobal.tryAcquire p.nextCall with
    | some global =>
      some { { p with execGlobal := global }.setExec p.nextCall (some ⟨user, .admitted⟩) with
        nextCall := p.nextCall + 1 }
    | none => some { p with nextCall := p.nextCall + 1 }
  | .key i => (p.execs i).bind fun e =>
    match e.phase with
    | .admitted =>
      let (p, s) := p.identitySemaphore limits e.user
      some ((p.takeHandle s i).setExec i (some { e with phase := .keyed s }))
    | _ => none
  | .take i => (p.execs i).bind fun e =>
    match e.phase with
    | .keyed s =>
      match (p.sems s).permits.tryAcquire i with
      | some permits =>
        some { (p.setSem s { p.sems s with permits }).setExec i
          (some { e with phase := .holding s }) with execInflight := p.execInflight + 1 }
      | none => some ((p.dropHandle s i).setExec i (some { e with phase := .refused }))
    | _ => none
  | .giveBack i => (p.execs i).bind fun e =>
    match e.phase with
    | .refused => some ({ p with execGlobal := p.execGlobal.release i }.setExec i none)
    | _ => none
  | .drop i => (p.execs i).bind fun e =>
    match e.phase with
    | .holding s =>
      some ({ p with
        execInflight := p.execInflight - 1
        execGlobal := p.execGlobal.release i }.setExec i (some { e with phase := .dropping s }))
    | _ => none
  | .dropUser i => (p.execs i).bind fun e =>
    match e.phase with
    | .dropping s =>
      some ((p.setSem s { p.sems s with permits := (p.sems s).permits.release i }).setExec i
        (some { e with phase := .returned s }))
    | _ => none
  | .dropHandle i => (p.execs i).bind fun e =>
    match e.phase with
    | .returned s => some ((p.dropHandle s i).setExec i none)
    | _ => none

end Kopiur.Ui
