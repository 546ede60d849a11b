import Mathlib.Data.List.Sort
import Kopiur.Controller.Hooks
import Kopiur.Kopia.Listing
import Kopiur.Lib.Lists

/-!
# The kopia snapshot a capture records

The mover reports the manifest it made, or that nothing changed, in a patch that
can be lost. When the Job is done and the pass sees no such report, it takes the
newest manifest of the identity for the one the run has made.
-/

namespace Kopiur

open Lib

structure MoverIdentity where
  username : String
  hostname : String
  sourcePath : String
deriving DecidableEq

def matchesSnapshotIdentity (entry : SnapshotListEntry) (identity : MoverIdentity) : Bool :=
  entry.source.path == identity.sourcePath && entry.source.userName == identity.username &&
    entry.source.host == identity.hostname

def SnapshotListEntry.info (e : SnapshotListEntry) : SnapshotInfo where
  kopiaSnapshotId := e.id
  identity :=
    { username := e.source.userName, hostname := e.source.host, sourcePath := some e.source.path }

def EndsLater (a b : SnapshotListEntry) : Prop := b.endTime ≤ a.endTime

instance : DecidableRel EndsLater := fun a b => inferInstanceAs (Decidable (b.endTime ≤ a.endTime))

def resolveSucceededSnapshot (listing : List SnapshotListEntry) (identity : MoverIdentity) :
    Option SnapshotInfo :=
  ((listing.insertionSort EndsLater).find? fun e => matchesSnapshotIdentity e identity).map
    SnapshotListEntry.info

def alreadyRecorded : Option SnapshotPhase → Bool
  | some .succeeded | some .unchanged | some (.unknown _) => true
  | some .pending | some .running | some .failed | some .deleting | some .discovered | none => false

structure CaptureStatus where
  phase : Option SnapshotPhase
  snapshot : Option SnapshotInfo
deriving DecidableEq

inductive MoverReport
  | succeeded (info : SnapshotInfo)
  | unchanged
  | failed
deriving DecidableEq

def CaptureStatus.report (s : CaptureStatus) : MoverReport → CaptureStatus
  | .succeeded info => { phase := some .succeeded, snapshot := some info }
  | .unchanged => { s with phase := some .unchanged }
  | .failed => { s with phase := some .failed }

def finalizeSucceeded (s : CaptureStatus) (snapshot : Option SnapshotInfo) : CaptureStatus :=
  { phase := some .succeeded, snapshot := snapshot <|> s.snapshot }

structure CaptureJob where
  repo : String
  identity : MoverIdentity
  terminal : Option Bool
deriving DecidableEq

structure Capture where
  name : String
  live : CaptureStatus
  cached : CaptureStatus
  job : Option CaptureJob
  /-- Patches under way. -/
  reports : List MoverReport
  /-- What a pass has looked up and is about to patch. -/
  resolved : Option (Option SnapshotInfo)
deriving DecidableEq

/-- A manifest in its repository; `run` is the capture that made it. -/
structure Manifest where
  repo : String
  entry : SnapshotListEntry
  run : Option String
deriving DecidableEq

structure CaptureWorld where
  captures : List Capture
  manifests : List Manifest
  /-- Every manifest that was ever made, and by which run. -/
  created : List (String × Option String)
deriving DecidableEq

inductive CaptureEvent
  | add (name : String)
  | sync (name : String)
  | launch (name repo : String) (identity : MoverIdentity)
  | running (name : String)
  | create (name : String) (entry : SnapshotListEntry)
  | unchanged (name : String)
  | fails (name : String)
  | deliver (name : String) (report : MoverReport)
  | lose (name : String) (report : MoverReport)
  | finish (name : String) (ok : Bool)
  | gone (name : String)
  /-- A pass finds the Job done; `source` is the repository it can list and the
  identity, if it can. -/
  | resolve (name : String) (source : Option (String × MoverIdentity))
  | finalize (name : String)
  | crash (name : String)
  | heal (name : String)
  | jobFailed (name : String)
  /-- Somebody else writes a manifest. -/
  | foreign (repo : String) (entry : SnapshotListEntry)
  | remove (id : String)
deriving DecidableEq

namespace CaptureWorld

def capture? (w : CaptureWorld) (name : String) : Option Capture :=
  w.captures.find? fun c => c.name == name

def update (w : CaptureWorld) (name : String) (f : Capture → Capture) : CaptureWorld :=
  { w with captures := w.captures.map fun c => if c.name = name then f c else c }

def write (w : CaptureWorld) (repo : String) (entry : SnapshotListEntry) (run : Option String) :
    CaptureWorld :=
  { w with
    manifests := w.manifests ++ [⟨repo, entry, run⟩]
    created := (entry.id, run) :: w.created }

def Fresh (w : CaptureWorld) (id : String) : Prop := id ∉ w.created.map Prod.fst

instance (w : CaptureWorld) (id : String) : Decidable (w.Fresh id) :=
  inferInstanceAs (Decidable (¬ _))

def listing (w : CaptureWorld) (repo : String) : List SnapshotListEntry :=
  (w.manifests.filter fun m => m.repo == repo).map Manifest.entry

end CaptureWorld

open CaptureWorld

def CaptureWorld.stepOf (w : CaptureWorld) (name : String) (guard : Capture → Bool)
    (f : Capture → Capture) : Option CaptureWorld :=
  (w.capture? name).bind fun c => if guard c then some (w.update name f) else none

def Capture.running (c : Capture) : Bool := c.job.any fun j => j.terminal.isNone

def captureStep (w : CaptureWorld) : CaptureEvent → Option CaptureWorld
  | .add name =>
    if (w.capture? name).isNone then
      some { w with captures := w.captures ++ [⟨name, ⟨none, none⟩, ⟨none, none⟩, none, [], none⟩] }
    else none
  | .sync name => w.stepOf name (fun _ => true) fun c => { c with cached := c.live }
  | .launch name repo identity =>
    w.stepOf name (fun c => runDecision c.cached.phase = .run ∧ c.job = none) fun c =>
      { c with job := some ⟨repo, identity, none⟩ }
  | .running name =>
    -- From the pass that launched the Job, or one that found it running.
    w.stepOf name (fun c => c.job.isSome) fun c =>
      { c with live := { c.live with phase := some .running } }
  | .create name entry => (w.capture? name).bind fun c => c.job.bind fun j =>
    if j.terminal = none ∧ w.Fresh entry.id ∧ matchesSnapshotIdentity entry j.identity then
      some ((w.write j.repo entry (some name)).update name fun c =>
        { c with reports := .succeeded entry.info :: c.reports })
    else none
  | .unchanged name =>
    w.stepOf name Capture.running fun c => { c with reports := .unchanged :: c.reports }
  | .fails name =>
    w.stepOf name Capture.running fun c => { c with reports := .failed :: c.reports }
  | .deliver name report =>
    w.stepOf name (fun c => report ∈ c.reports) fun c =>
      { c with live := c.live.report report, reports := c.reports.erase report }
  | .lose name report =>
    w.stepOf name (fun c => report ∈ c.reports) fun c =>
      { c with reports := c.reports.erase report }
  | .finish name ok =>
    w.stepOf name Capture.running fun c =>
      { c with job := c.job.map fun j => { j with terminal := some ok } }
  | .gone name => w.stepOf name (fun c => !c.running) fun c => { c with job := none }
  | .resolve name source =>
    let resolved := source.bind fun (repo, identity) =>
      resolveSucceededSnapshot (w.listing repo) identity
    w.stepOf name (fun c => runDecision c.cached.phase = .run ∧ !alreadyRecorded c.cached.phase ∧
        c.job.any fun j => j.terminal = some true) fun c =>
      { c with resolved := some resolved }
  | .finalize name =>
    w.stepOf name (fun c => c.resolved.isSome) fun c =>
      { c with live := finalizeSucceeded c.live (c.resolved.getD none), resolved := none }
  | .crash name => w.stepOf name (fun _ => true) fun c => { c with resolved := none }
  | .heal name =>
    w.stepOf name (fun c => runDecision c.cached.phase = .succeededSteadyState) fun c =>
      { c with live :=
          { c.live with
            phase := if c.cached.phase = some .unchanged then some .unchanged
              else some .succeeded } }
  | .jobFailed name =>
    w.stepOf name (fun c => c.job.any fun j => j.terminal = some false) fun c =>
      { c with live := { c.live with phase := some .failed } }
  | .foreign repo entry => if w.Fresh entry.id then some (w.write repo entry none) else none
  | .remove id => some { w with manifests := w.manifests.filter fun m => m.entry.id ≠ id }

def noCaptures : CaptureWorld := ⟨[], [], []⟩

def Precedes (manifests : List Manifest) (m m' : Manifest) : Prop :=
  m'.entry.endTime < m.entry.endTime ∨
    m.entry.endTime = m'.entry.endTime ∧ [m, m'].Sublist manifests

/-- Where a pass looks the id up, every manifest of the identity that another
run has made is behind one of the run itself. -/
def Attributed (w : CaptureWorld) : CaptureEvent → Prop
  | .resolve name (some (repo, identity)) => ∀ m ∈ w.manifests, m.repo = repo →
    matchesSnapshotIdentity m.entry identity = true → m.run ≠ some name →
    ∃ own ∈ w.manifests, own.repo = repo ∧ matchesSnapshotIdentity own.entry identity = true ∧
      own.run = some name ∧ Precedes w.manifests own m
  | _ => True

end Kopiur
