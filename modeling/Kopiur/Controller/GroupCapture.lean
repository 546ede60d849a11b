import Kopiur.Api.SourcePaths
import Kopiur.Controller.Hooks

/-!
# The shared capture of a group

The members of an invocation stage from one VolumeGroupSnapshot, which they find
by name and create where it is missing. It is reaped by a member that finds all
members done, and by a sweep that finds it named by no Snapshot.
-/

namespace Kopiur

open Lib

structure SiblingState where
  terminal : Bool
  stagedPvcPresent : Bool
deriving DecidableEq

def groupReapable : Option (List SiblingState) → Bool
  | none => false
  | some siblings => siblings.all fun s => s.terminal && !s.stagedPvcPresent

def siblingTerminal : Option SnapshotPhase → Bool
  | some .succeeded | some .failed | some .unchanged => true
  | some .pending | some .running | some .deleting | some .discovered | some (.unknown _)
  | none => false

abbrev ObjectName := String × String

structure GroupedSnapshot where
  /-- Namespace and name. -/
  key : ObjectName
  group : SnapshotSourceGroup
  phase : Option SnapshotPhase
  deleting : Bool
  /-- The capture in which its run has found the member snapshot of its PVC. -/
  observed : Option Nat
deriving DecidableEq

namespace GroupedSnapshot

def terminal (m : GroupedSnapshot) : Bool := siblingTerminal m.phase

def staging (m : GroupedSnapshot) : Bool := !m.deleting && runDecision m.phase = .run

end GroupedSnapshot

structure VolumeGroupSnapshot where
  key : SnapshotSourceGroup
  uid : Nat
  createdAt : Option Int
  ready : Bool
deriving DecidableEq

def groupMinAgeFloorSecs : Int := 15 * 60

def liveGroups (snapshots : List GroupedSnapshot) : List SnapshotSourceGroup :=
  snapshots.map GroupedSnapshot.group

def groupSnapshotCandidates (groups : List VolumeGroupSnapshot)
    (live : List SnapshotSourceGroup) (minAgeSecs now : Int) : List VolumeGroupSnapshot :=
  groups.filter fun g => !live.contains g.key &&
    g.createdAt.any fun t => decide (now - t ≥ max minAgeSecs groupMinAgeFloorSecs)

/-- A `cleanup_group_if_unused` under way: the members of its listing whose
staged PVC is yet to be read, and the states of the others. -/
structure GroupReap where
  group : SnapshotSourceGroup
  unread : List GroupedSnapshot
  states : List SiblingState
deriving DecidableEq

/-- A sweep under way: the groups its listing of Snapshots names and, once the
groups are listed, those yet to be deleted. -/
structure GroupSweep where
  live : List SnapshotSourceGroup
  victims : Option (List SnapshotSourceGroup)
deriving DecidableEq

structure GroupWorld where
  snapshots : List GroupedSnapshot
  groups : List VolumeGroupSnapshot
  /-- The captures whose member VolumeSnapshots exist. -/
  members : List (SnapshotSourceGroup × Nat)
  /-- The staged PVCs, by the Snapshot they are for, and their capture. -/
  pvcs : List (ObjectName × Nat)
  reaps : List GroupReap
  sweeps : List GroupSweep
  /-- The captures from which a member that succeeded was staged. -/
  succeeded : List (SnapshotSourceGroup × Nat)
  clock : Int
  nextUid : Nat
deriving DecidableEq

inductive GroupEvent
  | mint (key : ObjectName) (group : SnapshotSourceGroup)
  | ensureGroup (key : ObjectName)
  | ready (group : SnapshotSourceGroup)
  /-- The run finds its member snapshot in a group that is ready. -/
  | observe (key : ObjectName) (uid : Nat)
  | stage (key : ObjectName)
  | patchPhase (key : ObjectName) (phase : SnapshotPhase)
  | requestDelete (key : ObjectName)
  /-- The staged PVC goes, with the end of its Snapshot or after it. -/
  | release (key : ObjectName)
  | vanish (key : ObjectName)
  /-- A member VolumeSnapshot goes after its group. -/
  | collect (group : SnapshotSourceGroup) (uid : Nat)
  | reapList (key : ObjectName)
  | reapRead (i : Nat)
  | reapDelete (i : Nat)
  | reapDrop (i : Nat)
  | sweepList
  | sweepGroups (i : Nat) (minAgeSecs : Int)
  | sweepDelete (i : Nat) (ok : Bool)
  | sweepDrop (i : Nat)
  | tick (secs : Nat)
deriving DecidableEq

/-- A Snapshot whose run is over stays so until it is deleted. A run succeeds
with its staged PVC. -/
def GroupedSnapshot.turns (m : GroupedSnapshot) (pvc : Option Nat) (phase : SnapshotPhase) :
    Bool :=
  (!m.terminal || siblingTerminal phase || phase == .deleting) &&
    match phase with
    | .discovered => false
    | .deleting => m.deleting
    | .succeeded | .unchanged => pvc.isSome || m.phase == some phase
    | .pending | .running | .failed | .unknown _ => true

namespace GroupWorld

def snapshot? (w : GroupWorld) (key : ObjectName) : Option GroupedSnapshot :=
  w.snapshots.find? fun m => m.key == key

def group? (w : GroupWorld) (key : SnapshotSourceGroup) : Option VolumeGroupSnapshot :=
  w.groups.find? fun g => g.key == key

def uid? (w : GroupWorld) (key : SnapshotSourceGroup) : Option Nat :=
  (w.group? key).map VolumeGroupSnapshot.uid

def pvc? (w : GroupWorld) (key : ObjectName) : Option Nat :=
  (w.pvcs.find? fun p => p.1 == key).map Prod.snd

def update (w : GroupWorld) (key : ObjectName) (f : GroupedSnapshot → GroupedSnapshot) :
    GroupWorld :=
  { w with snapshots := w.snapshots.map fun m => if m.key = key then f m else m }

def ensureGroup (w : GroupWorld) (key : SnapshotSourceGroup) : GroupWorld :=
  if (w.group? key).isSome then w
  else
    { w with
      groups := w.groups ++ [⟨key, w.nextUid, some w.clock, false⟩]
      nextUid := w.nextUid + 1 }

def deleteGroup (w : GroupWorld) (key : SnapshotSourceGroup) : GroupWorld :=
  { w with groups := w.groups.filter fun g => g.key ≠ key }

def siblings (w : GroupWorld) (group : SnapshotSourceGroup) : List GroupedSnapshot :=
  w.snapshots.filter fun m => m.key.1 = group.ns ∧
    m.group.volumeGroupSnapshotName = group.volumeGroupSnapshotName

def siblingState (w : GroupWorld) (ns : String) (m : GroupedSnapshot) : SiblingState where
  terminal := m.terminal
  stagedPvcPresent := (w.pvc? (ns, m.key.2)).isSome

end GroupWorld

open GroupWorld

def groupStep (w : GroupWorld) : GroupEvent → Option GroupWorld
  | .mint key group =>
    if (w.snapshot? key).isNone then
      some { w with snapshots := w.snapshots ++ [⟨key, group, none, false, none⟩] }
    else none
  | .ensureGroup key => (w.snapshot? key).bind fun m =>
    if m.staging then some (w.ensureGroup m.group) else none
  | .ready group => (w.group? group).bind fun g =>
    some
      { w with
        groups := w.groups.map fun g => if g.key = group then { g with ready := true } else g
        members := (group, g.uid) :: w.members }
  | .observe key uid => (w.snapshot? key).bind fun m =>
    if m.staging ∧ (w.group? m.group).any VolumeGroupSnapshot.ready ∧
        (m.group, uid) ∈ w.members then
      some (w.update key fun m => { m with observed := some uid })
    else none
  | .stage key => (w.snapshot? key).bind fun m => m.observed.bind fun uid =>
    if m.staging ∧ (w.pvc? key).isNone then some { w with pvcs := (key, uid) :: w.pvcs }
    else none
  | .patchPhase key phase => (w.snapshot? key).bind fun m =>
    if m.turns (w.pvc? key) phase then
      let w' := w.update key fun m => { m with phase := some phase }
      match phase, w.pvc? key with
      | .succeeded, some uid | .unchanged, some uid =>
        some { w' with succeeded := (m.group, uid) :: w.succeeded }
      | _, _ => some w'
    else none
  | .requestDelete key => (w.snapshot? key).bind fun _ =>
    some (w.update key fun m => { m with deleting := true })
  | .release key =>
    if (w.snapshot? key).all fun m => m.terminal || m.deleting then
      some { w with pvcs := w.pvcs.filter fun p => p.1 ≠ key }
    else none
  | .vanish key => (w.snapshot? key).bind fun m =>
    if m.deleting then some { w with snapshots := w.snapshots.filter fun m => m.key ≠ key }
    else none
  | .collect group uid =>
    if w.uid? group ≠ some uid then
      some { w with members := w.members.filter fun c => c ≠ (group, uid) }
    else none
  | .reapList key => (w.snapshot? key).bind fun m =>
    if m.terminal || m.deleting then
      some { w with reaps := w.reaps ++ [⟨m.group, w.siblings m.group, []⟩] }
    else none
  | .reapRead i => w.reaps[i]?.bind fun r =>
    match r.unread with
    | [] => none
    | m :: rest =>
      let states := r.states ++ [w.siblingState r.group.ns m]
      some { w with reaps := w.reaps.set i { r with unread := rest, states := states } }
  | .reapDelete i => w.reaps[i]?.bind fun r =>
    if r.unread = [] ∧ groupReapable (some r.states) then
      some { w.deleteGroup r.group with reaps := w.reaps.eraseIdx i }
    else none
  | .reapDrop i => some { w with reaps := w.reaps.eraseIdx i }
  | .sweepList => some { w with sweeps := w.sweeps ++ [⟨liveGroups w.snapshots, none⟩] }
  | .sweepGroups i minAgeSecs => w.sweeps[i]?.bind fun s =>
    if s.victims = none then
      let victims := groupSnapshotCandidates w.groups s.live minAgeSecs w.clock
      some
        { w with
          sweeps := w.sweeps.set i { s with victims := victims.map VolumeGroupSnapshot.key } }
    else none
  | .sweepDelete i ok => w.sweeps[i]?.bind fun s =>
    match s.victims with
    | some (group :: rest) =>
      let w' := if ok then w.deleteGroup group else w
      some { w' with sweeps := w.sweeps.set i { s with victims := some rest } }
    | some [] | none => none
  | .sweepDrop i => some { w with sweeps := w.sweeps.eraseIdx i }
  | .tick secs => some { w with clock := w.clock + secs }

def noGroups : GroupWorld where
  snapshots := []
  groups := []
  members := []
  pvcs := []
  reaps := []
  sweeps := []
  succeeded := []
  clock := 0
  nextUid := 0

def GroupReap.unused (r : GroupReap) : Bool :=
  groupReapable (some r.states) && r.unread.all GroupedSnapshot.terminal

namespace GroupWorld

def condemned (w : GroupWorld) (group : SnapshotSourceGroup) : Bool :=
  (w.reaps.any fun r => r.group == group && r.unused) ||
    w.sweeps.any fun s => s.victims.any fun v => v.contains group

/-- The captures of which a Snapshot of this name and group would find
something: a sibling that succeeded, member snapshots or a staged PVC. -/
def remnants (w : GroupWorld) (key : ObjectName) (group : SnapshotSourceGroup) : List Nat :=
  ((w.succeeded ++ w.members).filter fun c => c.1 = group).map Prod.snd ++
    (w.pvcs.filter fun p => p.1 = key).map Prod.snd

end GroupWorld

/-- A child is minted in its group's namespace, not into a group that is
condemned, and where its siblings have left captures behind, these are the one
that is there. No run turns back, and no group is named anew, while a pass is
about to delete the group. -/
def mintedBeforeReap (w : GroupWorld) : GroupEvent → Bool
  | .mint key group =>
    key.1 == group.ns && !w.condemned group &&
      (w.remnants key group).all fun uid => w.uid? group == some uid
  | .patchPhase key phase =>
    (w.snapshot? key).all fun m =>
      !m.terminal || siblingTerminal (some phase) || !w.condemned m.group
  | .sweepGroups i minAgeSecs =>
    w.sweeps[i]?.all fun s =>
      (groupSnapshotCandidates w.groups s.live minAgeSecs w.clock).all fun g =>
        !(liveGroups w.snapshots).contains g.key
  | _ => true

abbrev MintedBeforeReap (w : GroupWorld) (e : GroupEvent) : Prop := mintedBeforeReap w e = true

end Kopiur
