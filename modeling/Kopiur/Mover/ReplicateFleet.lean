import Mathlib.Logic.Function.Basic
import Kopiur.Mover.ReplicateConvergence

/-!
# Replications that share repositories

Several replications copy between repositories that others write to as well. A
run finds its copies by identity and start in the listing of the destination,
and its objects by labels in its namespace. What its migrations wrote it does
not remember.
-/

namespace Kopiur

open Lib

variable {ι : Type}

/-- Replications of distinct names; `store` is the kopia repository behind the
uid of a Repository. -/
structure Fleet (ι : Type) where
  party : ι → Replication
  sourceUid : ι → String
  store : String → String
  distinct : ∀ {i j}, (party i).ns = (party j).ns → (party i).replName = (party j).replName → i = j

namespace Fleet

variable (F : Fleet ι) (i : ι)

def home : String := (F.party i).ns

def source : String := F.store (F.sourceUid i)

def dest : String := F.store (F.party i).destRepo.uid

def crName (id : String) : String := copyCrName (F.party i).replName id

end Fleet

inductive FleetStage
  | copying
  | syncing (run : ReplRun) (destAfter : List SnapshotListEntry)
  | pruning (names : List String)
deriving DecidableEq

structure FleetRun where
  op : ReplicateOp
  source : List SnapshotListEntry
  selected : Finset IdentityTriple
  stage : FleetStage := .copying
deriving DecidableEq

/-- What `kopia snapshot migrate` brings over: complete snapshots whose identity
and start the destination lacks, of the given sources. -/
def FleetRun.migrates (run : FleetRun) (source dest : List SnapshotListEntry)
    (entry : SnapshotListEntry) : Bool :=
  entry.complete && decide (entryKey entry ∈ allKeys source) &&
    !decide (entryKey entry ∈ allKeys dest) &&
    (migrateSources run.op run.selected == .all || decide (entryTriple entry ∈ run.selected))

/-- A manifest that was written, with the replication that wrote it. -/
structure Written (ι : Type) where
  store : String
  id : String
  writer : Option ι
deriving DecidableEq

structure FleetWorld (ι : Type) where
  -- By kopia repository.
  manifests : String → List SnapshotListEntry := fun _ => []
  -- By namespace.
  objects : String → List CopySnapshot := fun _ => []
  runs : ι → Option FleetRun := fun _ => none
  written : List (Written ι) := []
  -- The objects that prunes deleted.
  pruned : List (ι × CopySnapshot) := []

inductive FleetStep (ι : Type)
  -- Somebody else: a backup, another operator, a human.
  | write (store : String) (entry : SnapshotListEntry)
  | forget (store id : String)
  -- Policies, adoptions and catalog scans give an object its labels.
  | place (ns : String) (row : CopySnapshot)
  | amend (ns : String) (row : CopySnapshot)
  | remove (ns name : String)
  -- The run of a replication, up to any point.
  | start (i : ι) (op : ReplicateOp)
  | copy (i : ι) (entry : SnapshotListEntry)
  | sync (i : ι)
  | call (i : ι) (task : Nat)
  | tolerate (i : ι) (task : Nat)
  | fail (i : ι) (task : Nat)
  | prune (i : ι)
  | pruneOne (i : ι) (deleted : Bool)
  | stop (i : ι)

namespace FleetWorld

variable (w : FleetWorld ι)

/-- A manifest under an id that was never used. -/
def add (store : String) (entry : SnapshotListEntry) (writer : Option ι) :
    Option (FleetWorld ι) :=
  if w.written.any fun x => x.store == store && x.id == entry.id then none
  else
    some
      { w with
        manifests := Function.update w.manifests store (w.manifests store ++ [entry])
        written := ⟨store, entry.id, writer⟩ :: w.written }

def setObjects (ns : String) (rows : List CopySnapshot) : FleetWorld ι :=
  { w with objects := Function.update w.objects ns rows }

variable [DecidableEq ι]

def setRun (i : ι) (run : Option FleetRun) : FleetWorld ι :=
  { w with runs := Function.update w.runs i run }

def setStage (i : ι) (run : FleetRun) (stage : FleetStage) : FleetWorld ι :=
  w.setRun i (some { run with stage })

end FleetWorld

section Step

variable [DecidableEq ι] (F : Fleet ι) (rfc : Rfc3339)

def fleetStep (w : FleetWorld ι) : FleetStep ι → Option (FleetWorld ι)
  | .write store entry => w.add store entry none
  | .forget store id =>
    some { w with
      manifests := Function.update w.manifests store ((w.manifests store).filter (·.id != id)) }
  | .place ns row =>
    -- Only a replication sets its label.
    if row.metadata.labels.lookup snapshotReplicationLabel = none then
      some (w.setObjects ns
        ((w.objects ns).filter (fun old => !old.named row.metadata.nameAny) ++ [row]))
    else none
  | .amend ns row =>
    some (w.setObjects ns
      ((w.objects ns).map fun old => if old.metadata = row.metadata then row else old))
  | .remove ns name => some (w.setObjects ns ((CopyCall.delete name).exec (w.objects ns)))
  | .start i op =>
    match w.runs i with
    | some _ => none
    | none =>
      let source := w.manifests (F.source i)
      let selected := selectIdentities op.incl op.excl source
      if selected = ∅ then none
      else some (w.setRun i (some { op := { op with repl := F.party i }, source, selected }))
  | .copy i entry =>
    (w.runs i).bind fun run =>
      match run.stage with
      | .copying =>
        if run.migrates (w.manifests (F.source i)) (w.manifests (F.dest i)) entry then
          w.add (F.dest i) entry (some i)
        else none
      | .syncing .. | .pruning _ => none
  | .sync i =>
    (w.runs i).bind fun run =>
      match run.stage with
      | .copying =>
        let destAfter := w.manifests (F.dest i)
        let items := correspondenceSet run.source run.selected destAfter
        some (w.setStage i run (.syncing
          (reconcileCopyCrs rfc (F.party i) (w.objects (F.home i)) items) destAfter))
      | .syncing .. | .pruning _ => none
  | .call i task =>
    (w.runs i).bind fun run =>
      match run.stage with
      | .syncing sync destAfter =>
        match sync.tasks[task]? with
        | some (item, c :: rest) =>
          some ((w.setObjects (F.home i) (c.exec (w.objects (F.home i)))).setStage i run
            (.syncing (advance sync task item rest) destAfter))
        | some (_, []) | none => none
      | .copying | .pruning _ => none
  | .tolerate i task =>
    (w.runs i).bind fun run =>
      match run.stage with
      | .syncing sync destAfter =>
        match sync.tasks[task]? with
        | some (item, .delete _ :: rest) =>
          some (w.setStage i run (.syncing (advance sync task item rest) destAfter))
        | some (_, .apply _ :: _) | some (_, .patchStatus .. :: _) | some (_, []) | none => none
      | .copying | .pruning _ => none
  | .fail i task =>
    (w.runs i).bind fun run =>
      match run.stage with
      | .syncing sync destAfter =>
        match sync.tasks[task]? with
        | some (item, _ :: _) =>
          some (w.setStage i run
            (.syncing { advance sync task item [] with failed := true } destAfter))
        | some (_, []) | none => none
      | .copying | .pruning _ => none
  | .prune i =>
    (w.runs i).bind fun run =>
      match run.stage with
      | .syncing sync destAfter =>
        if missingAfterMigrate run.source run.selected destAfter run.op.latestOnly = ∅ ∧
            sync.failed = false ∧ (∀ t ∈ sync.tasks, t.2 = []) then
          some (w.setStage i run (.pruning (pruneNames run.op.pruning
            (listCopyRows rfc (F.party i) (w.objects (F.home i))) (allKeys run.source))))
        else none
      | .copying | .pruning _ => none
  | .pruneOne i deleted =>
    (w.runs i).bind fun run =>
      match run.stage with
      | .pruning (name :: names) =>
        let rows := w.objects (F.home i)
        let w := w.setStage i run (.pruning names)
        if deleted then
          some
            { w.setObjects (F.home i) ((CopyCall.delete name).exec rows) with
              pruned := (rows.filter (CopySnapshot.named name)).map (i, ·) ++ w.pruned }
        else some w
      | .pruning [] | .copying | .syncing .. => none
  | .stop i => (w.runs i).map fun _ => w.setRun i none

end Step

def CopySnapshot.standsFor (F : Fleet ι) (store id : String) (row : CopySnapshot) : Bool :=
  !row.discovered && row.metadata.labels.lookup snapshotIdLabel == some id &&
    (row.metadata.labels.lookup repositoryUidLabel).any (F.store · == store)

namespace FleetWorld

variable (F : Fleet ι) (w : FleetWorld ι)

def Wrote (i : ι) (id : String) : Prop := ⟨F.dest i, id, some i⟩ ∈ w.written

def Pending (store id : String) : Prop :=
  ∃ i run sync destAfter, w.runs i = some run ∧ run.stage = .syncing sync destAfter ∧
    F.dest i = store ∧ ∃ t ∈ sync.tasks, t.1.destEntry.id = id ∧ ∃ snap, .apply snap ∈ t.2

def Unlisted (i : ι) (id : String) : Prop :=
  ∀ row ∈ w.objects (F.home i), row.listedAs (F.party i) id = true → row.discovered = true

end FleetWorld

/-- The conditions on the steps. A run that syncs finds, of what it takes for its
copies, nothing without an object in its namespace that another party wrote or
that has an object elsewhere. A manifest gets an object of another party only
when it has none and is about to get none. The names of copies are theirs. -/
def FleetOk (F : Fleet ι) (w : FleetWorld ι) : FleetStep ι → Prop
  | .sync i => ∀ run, w.runs i = some run →
    ∀ item ∈ correspondenceSet run.source run.selected (w.manifests (F.dest i)),
      w.Unlisted F i item.destEntry.id → w.Wrote F i item.destEntry.id ∧
        ∀ ns, ∀ row ∈ w.objects ns, row.standsFor F (F.dest i) item.destEntry.id = false
  | .copy i entry =>
    (∀ row ∈ w.objects (F.home i), row.named (F.crName i entry.id) = false) ∧
      ∀ x ∈ w.written, ∀ j, x.writer = some j → F.home j = F.home i →
        F.crName j x.id ≠ F.crName i entry.id
  | .place ns row =>
    (∀ x ∈ w.written, ∀ j, x.writer = some j → F.home j = ns →
      row.named (F.crName j x.id) = false) ∧
      ∀ store id, row.standsFor F store id = true → ¬ w.Pending F store id ∧
        ∀ ns', ∀ old ∈ w.objects ns', old.standsFor F store id = true →
          ns' = ns ∧ old.metadata.nameAny = row.metadata.nameAny
  | .write .. | .forget .. | .amend .. | .remove .. | .start .. | .call .. | .tolerate .. | .fail ..
  | .prune _ | .pruneOne .. | .stop _ => True

section Labels

variable {F : Fleet ι} {rfc : Rfc3339} {i : ι} {rows : List CopySnapshot} {row row' : CopySnapshot}
  {item : CopyCorrespondence}

/-- The object of a copy, as it was applied. -/
structure AppliedAs (F : Fleet ι) (i : ι) (id : String) (row : CopySnapshot) : Prop where
  name : row.metadata.nameAny = F.crName i id
  origin : row.metadata.labels.lookup originLabel = some Origin.replicated.labelValue
  snapshotId : row.metadata.labels.lookup snapshotIdLabel = some id
  repositoryUid : row.metadata.labels.lookup repositoryUidLabel = some (F.party i).destRepo.uid
  replication : row.metadata.labels.lookup snapshotReplicationLabel = some (F.party i).replName

theorem appliedAs_built :
    AppliedAs F i item.destEntry.id (buildCopySnapshot rfc (F.party i) item).1 := by
  constructor <;>
    simp [buildCopySnapshot, ObjectMeta.nameAny, Fleet.crName, List.lookup_cons, originLabel,
      snapshotIdLabel, repositoryUidLabel, snapshotReplicationLabel]

theorem lookup_append_some {labels more : List (String × String)} {key value : String}
    (h : labels.lookup key = some value) : (labels ++ more).lookup key = some value := by
  rw [List.lookup_append, h]
  rfl

theorem mem_apply (h : row' ∈ (CopyCall.apply (buildCopySnapshot rfc (F.party i) item).1).exec rows) :
    (row' ∈ rows ∧ row'.metadata.nameAny ≠ F.crName i item.destEntry.id) ∨
      AppliedAs F i item.destEntry.id row' := by
  have hbuilt := @appliedAs_built _ F rfc i item
  generalize (buildCopySnapshot rfc (F.party i) item).1 = snap at h hbuilt
  rw [CopyCall.exec] at h
  split at h
  · obtain ⟨row, hrow, rfl⟩ := List.mem_map.mp h
    split
    · next hnamed =>
      right
      exact
        { name := (named_iff.mp hnamed).trans hbuilt.name
          origin := lookup_append_some hbuilt.origin
          snapshotId := lookup_append_some hbuilt.snapshotId
          repositoryUid := lookup_append_some hbuilt.repositoryUid
          replication := lookup_append_some hbuilt.replication }
    · next hnamed => exact .inl ⟨hrow, fun hname => hnamed (named_iff.mpr (hname.trans hbuilt.name.symm))⟩
  · next hnone =>
    rcases List.mem_append.mp h with hrow | hrow
    · refine .inl ⟨hrow, fun hname => hnone (List.any_eq_true.mpr ⟨row', hrow, ?_⟩)⟩
      exact named_iff.mpr (hname.trans hbuilt.name.symm)
    · obtain rfl := List.mem_singleton.mp hrow
      exact .inr hbuilt

theorem AppliedAs.standsFor_iff {id store id' : String} (h : AppliedAs F i id row) :
    row.standsFor F store id' = true ↔ id' = id ∧ store = F.dest i := by
  have hreplicated : row.discovered = false := by
    simp [CopySnapshot.discovered, h.origin, Origin.labelValue, Origin.parse]
  simp only [CopySnapshot.standsFor, hreplicated, h.snapshotId, h.repositoryUid, Bool.not_false,
    Bool.true_and, Bool.and_eq_true, beq_iff_eq, Option.some.injEq, Option.any_some]
  exact and_congr eq_comm eq_comm

theorem SameMeta.standsFor (h : SameMeta row row') (store id : String) :
    row'.standsFor F store id = row.standsFor F store id := by
  unfold SameMeta at h
  simp [CopySnapshot.standsFor, CopySnapshot.discovered, h]

theorem SameMeta.isCopyOf (h : SameMeta row row') (r : Replication) :
    row'.isCopyOf r = row.isCopyOf r := by
  unfold SameMeta at h
  simp [CopySnapshot.isCopyOf, h]

end Labels

end Kopiur
