import Kopiur.Lib.Runs
import Kopiur.Mover.Replicate

/-!
# Interrupted replication runs

A run lists the Snapshot objects of the destination once and plans one task for
each copy that came over. The tasks run side by side, each making its calls in
order. A run may end at any call, and the next one plans from what it finds.
-/

namespace Kopiur

open Lib

-- Calls and tasks

inductive CopyCall
  | apply (snap : CopySnapshot)
  | patchStatus (name : String) (status : CopyStatus)
  | delete (name : String)
deriving DecidableEq

/-- Server-side apply onto an object that is there: labels and spec fields the
applied configuration names are taken over. -/
def mergeApplied (snap row : CopySnapshot) : CopySnapshot :=
  { row with
    metadata := { row.metadata with
      labels := snap.metadata.labels ++ row.metadata.labels }
    spec := { row.spec with
      repository := snap.spec.repository
      deletionPolicy := snap.spec.deletionPolicy } }

/-- The status body names every field but the conditions. -/
def mergeStatus (status : CopyStatus) (row : CopySnapshot) : CopySnapshot :=
  { row with
    status := some { status.status with
      conditions := (row.status.map SnapshotStatus.conditions).getD [] }
    copiedFrom := some status.copiedFrom
    sizeBytes := status.sizeBytes <|> row.sizeBytes }

def CopySnapshot.named (name : String) (row : CopySnapshot) : Bool := row.metadata.nameAny == name

/-- What a successful call does to the objects. -/
def CopyCall.exec (rows : List CopySnapshot) : CopyCall → List CopySnapshot
  | .apply snap =>
    if rows.any (CopySnapshot.named snap.metadata.nameAny) then
      rows.map fun row =>
        if row.named snap.metadata.nameAny then mergeApplied snap row else row
    else rows ++ [snap]
  | .patchStatus name status => rows.map fun row =>
    if row.named name then mergeStatus status row else row
  | .delete name => rows.filter fun row => !row.named name

section Plan

variable (rfc : Rfc3339) (r : Replication)

def CopySnapshot.listedAs (id : String) (row : CopySnapshot) : Bool :=
  row.metadata.labels.lookup repositoryUidLabel == some r.destRepo.uid &&
    row.metadata.labels.lookup snapshotIdLabel == some id

def CopySnapshot.discovered (row : CopySnapshot) : Bool :=
  (row.metadata.labels.lookup originLabel).bind Origin.parse == some .discovered

/-- One copy: the object unless one that is not discovered is listed, then the
discovered duplicates. -/
def syncOne (existing : List CopySnapshot) (item : CopyCorrespondence) : List CopyCall :=
  let rows := existing.filter (CopySnapshot.listedAs r item.destEntry.id)
  let replicatedExists := rows.any fun row => !row.discovered
  let dups := (rows.filter CopySnapshot.discovered).map fun row => row.metadata.nameAny
  let built := buildCopySnapshot rfc r item
  (if replicatedExists then []
    else [.apply built.1, .patchStatus built.1.metadata.nameAny built.2]) ++ dups.map .delete

structure ReplRun where
  tasks : List (CopyCorrespondence × List CopyCall)
  failed : Bool := false
deriving DecidableEq

def reconcileCopyCrs (existing : List CopySnapshot) (items : List CopyCorrespondence) : ReplRun :=
  { tasks := items.map fun item => (item, syncOne rfc r existing item) }

structure ReplWorld where
  rows : List CopySnapshot
  run : Option ReplRun := none
  -- The objects deleted so far, each with all objects just before.
  reaped : List (CopySnapshot × List CopySnapshot) := []
deriving DecidableEq

inductive ReplStep
  | start (source : List SnapshotListEntry) (selected : Finset IdentityTriple)
      (destAfter : List SnapshotListEntry)
  /-- The next call of a task succeeds. -/
  | call (task : Nat)
  /-- A delete finds nothing or another writer; the task goes on. -/
  | tolerate (task : Nat)
  /-- The next call of a task fails, which ends the task. -/
  | fail (task : Nat)
  /-- The run ends, done or not. -/
  | stop
  /-- A catalog scan finds a snapshot without an object. -/
  | discover (row : CopySnapshot)

def advance (run : ReplRun) (task : Nat) (item : CopyCorrespondence) (rest : List CopyCall) :
    ReplRun :=
  { run with tasks := run.tasks.set task (item, rest) }

def reapedBy (rows : List CopySnapshot) : CopyCall → List (CopySnapshot × List CopySnapshot)
  | .delete name => (rows.filter (CopySnapshot.named name)).map fun row => (row, rows)
  | _ => []

def replStep (s : ReplWorld) : ReplStep → Option ReplWorld
  | .start source selected destAfter =>
    match s.run with
    | some _ => none
    | none => some { s with
        run := some (reconcileCopyCrs rfc r s.rows (correspondenceSet source selected destAfter)) }
  | .call task => do
    let run ← s.run
    match ← run.tasks[task]? with
    | (_, []) => none
    | (item, c :: rest) =>
      some
        { rows := c.exec s.rows
          run := some (advance run task item rest)
          reaped := reapedBy s.rows c ++ s.reaped }
  | .tolerate task => do
    let run ← s.run
    match ← run.tasks[task]? with
    | (item, .delete _ :: rest) => some { s with run := some (advance run task item rest) }
    | _ => none
  | .fail task => do
    let run ← s.run
    match ← run.tasks[task]? with
    | (_, []) => none
    | (item, _ :: _) => some { s with run := some { advance run task item [] with failed := true } }
  | .stop => s.run.map fun _ => { s with run := none }
  | .discover row =>
    if s.rows.any (CopySnapshot.named row.metadata.nameAny) then none
    else some { s with rows := s.rows ++ [row] }

end Plan

-- Which objects stand for a copy

section Standing

variable (r : Replication)

def CopySnapshot.replicated (row : CopySnapshot) : Bool :=
  (row.metadata.labels.lookup originLabel).bind Origin.parse == some .replicated

/-- The status carries the id, the repository and the provenance of the copy. -/
structure CompleteFor (id : String) (row : CopySnapshot) : Prop where
  listed : row.listedAs r id = true
  origin : row.replicated = true
  snapshotId : ((row.status.bind SnapshotStatus.snapshot).map SnapshotInfo.kopiaSnapshotId) = some id
  repository : row.status.bind SnapshotStatus.resolvedRepository =
    some (destRepositoryRef r.destRepo)
  provenance : row.copiedFrom.isSome = true

/-- A complete object of the copy, or an object of another origin: of a run, of an
adoption or of an origin this version does not know. -/
def Stands (rows : List CopySnapshot) (id : String) : Prop :=
  ∃ row ∈ rows, CompleteFor r id row ∨
    (row.listedAs r id = true ∧ row.replicated = false ∧ row.discovered = false)

def copyName (item : CopyCorrespondence) : String := copyCrName r.replName item.destEntry.id

/-- No object but its own carries the name of a copy, copies have distinct names,
and no task is left between its apply and its status patch. -/
def ReplOk (s : ReplWorld) : ReplStep → Prop
  | .start source selected destAfter =>
    ((correspondenceSet source selected destAfter).map (copyName r)).Nodup ∧
      ∀ item ∈ correspondenceSet source selected destAfter, ∀ row ∈ s.rows,
        row.named (copyName r item) = true →
          row.listedAs r item.destEntry.id = true ∧ row.discovered = false
  | .call _ => True
  | .tolerate _ => True
  | .fail task => ∀ run, s.run = some run → ∀ t, run.tasks[task]? = some t → Unpatched t = false
  | .stop => ∀ run, s.run = some run → ∀ t ∈ run.tasks, Unpatched t = false
  | .discover row => row.discovered = true ∧
      ∀ run, s.run = some run → ∀ t ∈ run.tasks, row.named (copyName r t.1) = false
where
  /-- The object is applied, its status is not there yet. -/
  Unpatched (t : CopyCorrespondence × List CopyCall) : Bool :=
    match t.2 with
    | .patchStatus _ _ :: _ => true
    | _ => false

instance (s : ReplWorld) (a : ReplStep) : Decidable (ReplOk r s a) :=
  match a with
  | .start _ _ _ => inferInstanceAs (Decidable (_ ∧ _))
  | .call _ => inferInstanceAs (Decidable True)
  | .tolerate _ => inferInstanceAs (Decidable True)
  | .fail task =>
    inferInstanceAs (Decidable (∀ run ∈ s.run, ∀ t ∈ run.tasks[task]?, ReplOk.Unpatched t = false))
  | .stop => inferInstanceAs (Decidable (∀ run ∈ s.run, ∀ t ∈ run.tasks, ReplOk.Unpatched t = false))
  | .discover row => inferInstanceAs (Decidable (row.discovered = true ∧
      ∀ run ∈ s.run, ∀ t ∈ run.tasks, row.named (copyName r t.1) = false))

end Standing

section Rows

variable {r : Replication} {rows rows' : List CopySnapshot} {row row' : CopySnapshot} {id : String}

theorem CompleteFor.not_discovered (h : CompleteFor r id row) : row.discovered = false := by
  have horigin := h.origin
  simp only [CopySnapshot.replicated, CopySnapshot.discovered, beq_iff_eq, beq_eq_false_iff_ne]
    at horigin ⊢
  simp [horigin]

theorem listedAs_inj {id' : String} (h : row.listedAs r id = true) (h' : row.listedAs r id' = true) :
    id = id' := by
  simp only [CopySnapshot.listedAs, Bool.and_eq_true, beq_iff_eq] at h h'
  exact Option.some.inj (h.2.symm.trans h'.2)

def SameMeta (row row' : CopySnapshot) : Prop := row'.metadata = row.metadata

theorem SameMeta.listedAs (h : SameMeta row row') : row'.listedAs r id = row.listedAs r id := by
  unfold SameMeta at h
  simp [CopySnapshot.listedAs, h]

theorem SameMeta.discovered (h : SameMeta row row') : row'.discovered = row.discovered := by
  unfold SameMeta at h
  simp [CopySnapshot.discovered, h]

theorem SameMeta.replicated (h : SameMeta row row') : row'.replicated = row.replicated := by
  unfold SameMeta at h
  simp [CopySnapshot.replicated, h]

theorem SameMeta.named (h : SameMeta row row') (n : String) : row'.named n = row.named n := by
  unfold SameMeta at h
  simp [CopySnapshot.named, h]

/-- Every row but the named ones is still there, with its labels and, if it was
complete, complete. -/
def Persist (r : Replication) (gone : String → Prop) (rows rows' : List CopySnapshot) : Prop :=
  ∀ row ∈ rows, ¬gone row.metadata.nameAny →
    ∃ row' ∈ rows', SameMeta row row' ∧ ∀ id, CompleteFor r id row → CompleteFor r id row'

theorem Persist.stands {gone : String → Prop} (h : Persist r gone rows rows')
    (hgone : ∀ row ∈ rows, gone row.metadata.nameAny → row.discovered = true)
    (hstands : Stands r rows id) : Stands r rows' id := by
  obtain ⟨row, hrow, hstand⟩ := hstands
  have hkept : ¬gone row.metadata.nameAny := by
    intro hg
    have hdisc := hgone row hrow hg
    rcases hstand with hcomplete | ⟨-, -, hnot⟩
    · simp [hcomplete.not_discovered] at hdisc
    · simp [hnot] at hdisc
  obtain ⟨row', hrow', hmeta, hcomplete⟩ := h row hrow hkept
  refine ⟨row', hrow', ?_⟩
  rcases hstand with hc | ⟨hlisted, horigin, hdisc⟩
  · exact .inl (hcomplete id hc)
  · exact .inr ⟨hmeta.listedAs.trans hlisted, hmeta.replicated.trans horigin,
      hmeta.discovered.trans hdisc⟩

theorem named_iff {n : String} : row.named n = true ↔ row.metadata.nameAny = n := by
  simp [CopySnapshot.named]

def Distinct (rows : List CopySnapshot) : Prop := (rows.map fun row => row.metadata.nameAny).Nodup

theorem Distinct.eq (h : Distinct rows) (hrow : row ∈ rows) (hrow' : row' ∈ rows) {n : String}
    (hn : row.named n = true) (hn' : row'.named n = true) : row = row' :=
  List.inj_on_of_nodup_map h hrow hrow' ((named_iff.mp hn).trans (named_iff.mp hn').symm)

end Rows

section Exec

variable {rfc : Rfc3339} {r : Replication} {rows : List CopySnapshot} {item : CopyCorrespondence}

theorem exec_apply {snap : CopySnapshot}
    (hfree : ∀ row ∈ rows, row.named snap.metadata.nameAny = false) :
    (CopyCall.apply snap).exec rows = rows ++ [snap] := by
  refine if_neg ?_
  simp only [List.any_eq_true, not_exists, not_and, Bool.not_eq_true]
  exact hfree

theorem built_listedAs : (buildCopySnapshot rfc r item).1.listedAs r item.destEntry.id = true := by
  simp [CopySnapshot.listedAs, buildCopySnapshot, List.lookup_cons, originLabel, snapshotIdLabel,
    repositoryUidLabel]

theorem built_replicated : (buildCopySnapshot rfc r item).1.replicated = true := by
  rfl

theorem replicated_not_discovered {row : CopySnapshot} (h : row.replicated = true) :
    row.discovered = false := by
  simp only [CopySnapshot.replicated, CopySnapshot.discovered, beq_iff_eq,
    beq_eq_false_iff_ne] at h ⊢
  simp [h]

theorem mergeStatus_complete {row : CopySnapshot}
    (hlisted : row.listedAs r item.destEntry.id = true) (hreplicated : row.replicated = true) :
    CompleteFor r item.destEntry.id (mergeStatus (buildCopySnapshot rfc r item).2 row) where
  listed := hlisted
  origin := hreplicated
  snapshotId := rfl
  repository := rfl
  provenance := rfl

theorem persist_append (snap : CopySnapshot) :
    Persist r (fun _ => False) rows (rows ++ [snap]) := fun row hrow _ =>
  ⟨row, List.mem_append_left _ hrow, rfl, fun _ h => h⟩

theorem persist_patch (rfc : Rfc3339) (hown : ∀ row ∈ rows, row.named (copyName r item) = true →
      row.listedAs r item.destEntry.id = true ∧ row.replicated = true) :
    Persist r (fun _ => False) rows ((CopyCall.patchStatus (copyName r item)
      (buildCopySnapshot rfc r item).2).exec rows) := by
  intro row hrow _
  refine ⟨_, List.mem_map.mpr ⟨row, hrow, rfl⟩, ?_⟩
  split
  case isTrue hnamed =>
    obtain ⟨hlisted, hreplicated⟩ := hown row hrow hnamed
    refine ⟨rfl, fun id hcomplete => ?_⟩
    rw [listedAs_inj hcomplete.listed hlisted]
    exact mergeStatus_complete hlisted hreplicated
  case isFalse => exact ⟨rfl, fun _ h => h⟩

theorem persist_delete (n : String) :
    Persist r (· = n) rows ((CopyCall.delete n).exec rows) := by
  intro row hrow hkept
  refine ⟨row, List.mem_filter.mpr ⟨hrow, ?_⟩, rfl, fun _ h => h⟩
  simpa [CopySnapshot.named] using hkept

/-- The rows after a call are rows from before, with their labels, or the applied
object. -/
theorem mem_exec {c : CopyCall} {row' : CopySnapshot} (h : row' ∈ c.exec rows)
    (hfree : ∀ snap, c = .apply snap → ∀ row ∈ rows, row.named snap.metadata.nameAny = false) :
    (∃ row ∈ rows, SameMeta row row') ∨ c = .apply row' := by
  cases c with
  | apply snap =>
    rw [exec_apply (hfree snap rfl)] at h
    rcases List.mem_append.mp h with h | h
    · exact .inl ⟨row', h, rfl⟩
    · exact .inr (by rw [List.mem_singleton.mp h])
  | patchStatus name status =>
    obtain ⟨row, hrow, rfl⟩ := List.mem_map.mp h
    refine .inl ⟨row, hrow, ?_⟩
    split <;> rfl
  | delete name => exact .inl ⟨row', (List.mem_filter.mp h).1, rfl⟩

theorem Distinct.exec (h : Distinct rows) {c : CopyCall}
    (hfree : ∀ snap, c = .apply snap → ∀ row ∈ rows, row.named snap.metadata.nameAny = false) :
    Distinct (c.exec rows) := by
  cases c with
  | apply snap =>
    rw [exec_apply (hfree snap rfl), Distinct, List.map_append, List.map_singleton]
    refine List.Nodup.append h (List.nodup_singleton _) ?_
    rintro n hn hn'
    obtain ⟨row, hrow, rfl⟩ := List.mem_map.mp hn
    have hne := hfree snap rfl row hrow
    simp [CopySnapshot.named, List.mem_singleton.mp hn'] at hne
  | patchStatus name status =>
    have hnames : (CopyCall.exec rows (.patchStatus name status)).map
        (fun row => row.metadata.nameAny) = rows.map fun row => row.metadata.nameAny := by
      rw [CopyCall.exec, List.map_map]
      refine List.map_congr_left fun row _ => ?_
      simp only [Function.comp_apply]
      split <;> rfl
    rw [Distinct, hnames]
    exact h
  | delete name => exact h.sublist (List.filter_sublist.map _)

end Exec

section Tasks

variable (rfc : Rfc3339) (r : Replication)

structure Duplicates (rows : List CopySnapshot) (id : String) (dups : List String) : Prop where
  nodup : dups.Nodup
  rows : ∀ n ∈ dups, ∃ row ∈ rows, row.named n = true ∧ row.discovered = true ∧
    row.listedAs r id = true

/-- What is left of a task: all of it, the status patch and the deletes, or the
deletes only. -/
inductive TaskAt (rows : List CopySnapshot) (item : CopyCorrespondence) : List CopyCall → Prop
  | waiting {dups : List String} (hdups : Duplicates r rows item.destEntry.id dups)
      (hfree : ∀ row ∈ rows, row.named (copyName r item) = false) :
      TaskAt rows item (.apply (buildCopySnapshot rfc r item).1 ::
        .patchStatus (copyName r item) (buildCopySnapshot rfc r item).2 :: dups.map .delete)
  | applied {dups : List String} (hdups : Duplicates r rows item.destEntry.id dups)
      (hrow : ∃ row ∈ rows, row.named (copyName r item) = true ∧
        row.listedAs r item.destEntry.id = true ∧ row.replicated = true) :
      TaskAt rows item
        (.patchStatus (copyName r item) (buildCopySnapshot rfc r item).2 :: dups.map .delete)
  | deleting {dups : List String} (hdups : Duplicates r rows item.destEntry.id dups)
      (hstands : Stands r rows item.destEntry.id) : TaskAt rows item (dups.map .delete)

def Pending (s : ReplWorld) (row : CopySnapshot) : Prop :=
  ∃ run, s.run = some run ∧ ∃ t ∈ run.tasks, ∃ status rest,
    t.2 = .patchStatus row.metadata.nameAny status :: rest

structure ReplInv (s : ReplWorld) : Prop where
  distinct : Distinct s.rows
  /-- Every replicated object is complete or about to be. -/
  sound : ∀ row ∈ s.rows, ∀ id, row.listedAs r id = true → row.replicated = true →
    CompleteFor r id row ∨ Pending s row
  apart : ∀ run, s.run = some run → (run.tasks.map fun t => copyName r t.1).Nodup
  fresh : ∀ run, s.run = some run → ∀ t ∈ run.tasks, ∀ row ∈ s.rows,
    row.named (copyName r t.1) = true → row.discovered = false
  tasks : ∀ run, s.run = some run → ∀ t ∈ run.tasks,
    TaskAt rfc r s.rows t.1 t.2 ∨ (run.failed = true ∧ t.2 = [])
  reaped : ∀ p ∈ s.reaped, ∀ id, p.1.listedAs r id = true → Stands r p.2 id

variable {rfc r} {rows rows' : List CopySnapshot} {item : CopyCorrespondence}

theorem Duplicates.persist {id : String} {dups : List String} {gone : String → Prop}
    (h : Duplicates r rows id dups) (hkept : Persist r gone rows rows')
    (hgone : ∀ n ∈ dups, ¬gone n) : Duplicates r rows' id dups := by
  refine ⟨h.nodup, fun n hn => ?_⟩
  obtain ⟨row, hrow, hnamed, hdisc, hlisted⟩ := h.rows n hn
  have hstay : ¬gone row.metadata.nameAny := by
    rw [named_iff.mp hnamed]
    exact hgone n hn
  obtain ⟨row', hrow', hmeta, -⟩ := hkept row hrow hstay
  exact ⟨row', hrow', (hmeta.named n).trans hnamed, hmeta.discovered.trans hdisc,
    hmeta.listedAs.trans hlisted⟩

theorem TaskAt.persist {calls : List CopyCall} {gone : String → Prop}
    (h : TaskAt rfc r rows item calls) (hkept : Persist r gone rows rows')
    (hgone : ∀ row ∈ rows, gone row.metadata.nameAny → row.discovered = true ∧
      row.listedAs r item.destEntry.id = false)
    (hfree : ∀ row' ∈ rows', row'.named (copyName r item) = true →
      ∃ row ∈ rows, row.named (copyName r item) = true) : TaskAt rfc r rows' item calls := by
  have hdups : ∀ {dups}, Duplicates r rows item.destEntry.id dups →
      Duplicates r rows' item.destEntry.id dups := by
    intro dups hd
    refine hd.persist hkept fun n hn hg => ?_
    obtain ⟨row, hrow, hnamed, -, hlisted⟩ := hd.rows n hn
    have := (hgone row hrow (by rwa [named_iff.mp hnamed])).2
    simp [hlisted] at this
  cases h with
  | waiting hd hnone =>
    refine .waiting (hdups hd) fun row' hrow' => ?_
    rw [Bool.eq_false_iff]
    intro hnamed
    obtain ⟨row, hrow, hnamed⟩ := hfree row' hrow' hnamed
    simp [hnone row hrow] at hnamed
  | applied hd hrow =>
    obtain ⟨row, hrow, hnamed, hlisted, hreplicated⟩ := hrow
    have hstay : ¬gone row.metadata.nameAny := by
      intro hg
      have := (hgone row hrow hg).2
      simp [hlisted] at this
    obtain ⟨row', hrow', hmeta, -⟩ := hkept row hrow hstay
    exact .applied (hdups hd) ⟨row', hrow', (hmeta.named _).trans hnamed,
      hmeta.listedAs.trans hlisted, hmeta.replicated.trans hreplicated⟩
  | deleting hd hstands =>
    exact .deleting (hdups hd) (hkept.stands (fun row hrow hg => (hgone row hrow hg).1) hstands)

-- Every step keeps the invariant

section Advance

variable {run : ReplRun} {task : Nat} {calls rest : List CopyCall}
  {t : CopyCorrespondence × List CopyCall}

theorem advance_names (hget : run.tasks[task]? = some (item, calls)) :
    (advance run task item rest).tasks.map (fun t => copyName r t.1) =
      run.tasks.map fun t => copyName r t.1 := by
  obtain ⟨hlt, hget⟩ := List.getElem?_eq_some_iff.mp hget
  rw [advance, List.map_set]
  refine List.ext_getElem? fun j => ?_
  rw [List.getElem?_set]
  split
  case isTrue h =>
    subst h
    simp [hlt, hget]
  case isFalse => rfl

theorem mem_advance (hget : run.tasks[task]? = some (item, calls))
    (hapart : (run.tasks.map fun t => copyName r t.1).Nodup) :
    t ∈ (advance run task item rest).tasks ↔
      t = (item, rest) ∨ (t ∈ run.tasks ∧ copyName r t.1 ≠ copyName r item) := by
  obtain ⟨hlt, hget⟩ := List.getElem?_eq_some_iff.mp hget
  have hinj : ∀ j (hj : j < run.tasks.length), copyName r run.tasks[j].1 = copyName r item →
      j = task := by
    intro j hj heq
    have hitem : copyName r run.tasks[task].1 = copyName r item := by rw [hget]
    exact (@List.Nodup.getElem_inj_iff _ _ hapart j (by simpa using hj) task
      (by simpa using hlt)).mp (by simpa using heq.trans hitem.symm)
  constructor
  · intro ht
    obtain ⟨j, hj, rfl⟩ := List.getElem_of_mem ht
    simp only [advance, List.length_set] at hj
    by_cases hjt : task = j
    · subst hjt
      exact .inl (by simp [advance])
    · refine .inr ?_
      simp only [advance, List.getElem_set, if_neg hjt]
      exact ⟨List.getElem_mem hj, fun heq => hjt (hinj j hj heq).symm⟩
  · rintro (rfl | ⟨ht, hne⟩)
    · exact List.mem_set hlt _
    · obtain ⟨j, hj, rfl⟩ := List.getElem_of_mem ht
      have hjt : task ≠ j := by
        rintro rfl
        exact hne (by rw [hget])
      refine List.mem_iff_getElem.mpr ⟨j, by simpa [advance] using hj, ?_⟩
      simp [advance, hjt]

theorem eq_of_copyName (hget : run.tasks[task]? = some (item, calls))
    (hapart : (run.tasks.map fun t => copyName r t.1).Nodup) (ht : t ∈ run.tasks)
    (hname : copyName r t.1 = copyName r item) : t = (item, calls) :=
  List.inj_on_of_nodup_map hapart ht (List.mem_of_getElem? hget) hname

end Advance

theorem copyName_ne_of_id {item' : CopyCorrespondence}
    (h : copyName r item ≠ copyName r item') : item.destEntry.id ≠ item'.destEntry.id := by
  intro heq
  exact h (by rw [copyName, copyName, heq])

theorem TaskAt.plan {existing : List CopySnapshot} (hdistinct : Distinct existing)
    (hsound : ∀ row ∈ existing, ∀ id, row.listedAs r id = true → row.replicated = true →
      CompleteFor r id row)
    (hown : ∀ row ∈ existing, row.named (copyName r item) = true →
      row.listedAs r item.destEntry.id = true ∧ row.discovered = false) :
    TaskAt rfc r existing item (syncOne rfc r existing item) := by
  have hdups : Duplicates r existing item.destEntry.id
      (((existing.filter (CopySnapshot.listedAs r item.destEntry.id)).filter
        CopySnapshot.discovered).map fun row => row.metadata.nameAny) := by
    refine ⟨hdistinct.sublist ((List.filter_sublist.trans List.filter_sublist).map _), ?_⟩
    intro n hn
    obtain ⟨row, hrow, rfl⟩ := List.mem_map.mp hn
    obtain ⟨hrow, hdisc⟩ := List.mem_filter.mp hrow
    obtain ⟨hrow, hlisted⟩ := List.mem_filter.mp hrow
    exact ⟨row, hrow, named_iff.mpr rfl, hdisc, hlisted⟩
  simp only [syncOne]
  split
  case isTrue hexists =>
    obtain ⟨row, hrow, hnot⟩ := List.any_eq_true.mp hexists
    obtain ⟨hrow, hlisted⟩ := List.mem_filter.mp hrow
    refine .deleting hdups ⟨row, hrow, ?_⟩
    cases hreplicated : row.replicated with
    | true => exact .inl (hsound row hrow _ hlisted hreplicated)
    | false => exact .inr ⟨hlisted, rfl, by simpa using hnot⟩
  case isFalse hnone =>
    refine .waiting hdups fun row hrow => ?_
    rw [Bool.eq_false_iff]
    intro hnamed
    obtain ⟨hlisted, hdisc⟩ := hown row hrow hnamed
    exact hnone (List.any_eq_true.mpr ⟨row, List.mem_filter.mpr ⟨hrow, hlisted⟩, by simp [hdisc]⟩)

section Step

variable {s : ReplWorld} {run : ReplRun} {task : Nat} {c : CopyCall} {rest : List CopyCall}

theorem ReplInv.others (h : ReplInv rfc r s) (hrun : s.run = some run) {gone : String → Prop}
    (hkept : Persist r gone s.rows rows')
    (hgone : ∀ row ∈ s.rows, gone row.metadata.nameAny → row.discovered = true ∧
      row.listedAs r item.destEntry.id = true)
    (hnew : ∀ row' ∈ rows', (∃ row ∈ s.rows, SameMeta row row') ∨
      row'.named (copyName r item) = true)
    {t : CopyCorrespondence × List CopyCall} (ht : t ∈ run.tasks)
    (hne : copyName r t.1 ≠ copyName r item) :
    TaskAt rfc r rows' t.1 t.2 ∨ (run.failed = true ∧ t.2 = []) := by
  refine (h.tasks run hrun t ht).imp_left fun htask => htask.persist hkept ?_ ?_
  · intro row hrow hg
    obtain ⟨hdisc, hlisted⟩ := hgone row hrow hg
    refine ⟨hdisc, ?_⟩
    rw [Bool.eq_false_iff]
    intro hlisted'
    exact copyName_ne_of_id hne (listedAs_inj hlisted' hlisted)
  · intro row' hrow' hnamed
    rcases hnew row' hrow' with ⟨row, hrow, hmeta⟩ | hitem
    · exact ⟨row, hrow, (hmeta.named _).symm.trans hnamed⟩
    · exact absurd ((named_iff.mp hnamed).symm.trans (named_iff.mp hitem)) hne

theorem ReplInv.sound_other (h : ReplInv rfc r s) (hrun : s.run = some run)
    {calls : List CopyCall} (hget : run.tasks[task]? = some (item, calls)) (rest : List CopyCall)
    (rows' : List CopySnapshot) (reaped' : List (CopySnapshot × List CopySnapshot))
    {row : CopySnapshot} (hrow : row ∈ s.rows)
    (hnot : ∀ status rest', calls ≠ .patchStatus row.metadata.nameAny status :: rest') {id : String}
    (hlisted : row.listedAs r id = true) (hreplicated : row.replicated = true) :
    CompleteFor r id row ∨
      Pending { rows := rows', run := some (advance run task item rest), reaped := reaped' } row := by
  refine (h.sound row hrow id hlisted hreplicated).imp_right ?_
  rintro ⟨run', hrun', t, ht, status, rest', hpatch⟩
  obtain rfl : run = run' := Option.some.inj (hrun.symm.trans hrun')
  refine ⟨_, rfl, t, (mem_advance hget (h.apart run hrun)).mpr (.inr ⟨ht, ?_⟩), status, rest',
    hpatch⟩
  intro hname
  rw [eq_of_copyName hget (h.apart run hrun) ht hname] at hpatch
  exact hnot status rest' hpatch

theorem ReplInv.fresh_of (h : ReplInv rfc r s) (hrun : s.run = some run) {calls : List CopyCall}
    (hget : run.tasks[task]? = some (item, calls)) {t : CopyCorrespondence × List CopyCall}
    (ht : t ∈ (advance run task item rest).tasks) {row : CopySnapshot} (hrow : row ∈ s.rows)
    (hnamed : row.named (copyName r t.1) = true) : row.discovered = false := by
  rcases (mem_advance hget (h.apart run hrun)).mp ht with rfl | ⟨ht, -⟩
  · exact h.fresh run hrun _ (List.mem_of_getElem? hget) row hrow hnamed
  · exact h.fresh run hrun t ht row hrow hnamed

theorem ReplInv.apply (h : ReplInv rfc r s) (hrun : s.run = some run) {dups : List String}
    (hdups : Duplicates r s.rows item.destEntry.id dups)
    (hfree : ∀ row ∈ s.rows, row.named (copyName r item) = false)
    (hget : run.tasks[task]? = some (item, .apply (buildCopySnapshot rfc r item).1 ::
      .patchStatus (copyName r item) (buildCopySnapshot rfc r item).2 :: dups.map .delete)) :
    ReplInv rfc r
      { rows := s.rows ++ [(buildCopySnapshot rfc r item).1]
        run := some (advance run task item (.patchStatus (copyName r item)
          (buildCopySnapshot rfc r item).2 :: dups.map .delete))
        reaped := s.reaped } where
  distinct := by
    have := h.distinct.exec (c := .apply (buildCopySnapshot rfc r item).1) (by
      rintro snap ⟨⟩
      exact hfree)
    rwa [exec_apply hfree] at this
  sound row hrow id hlisted hreplicated := by
    rcases List.mem_append.mp hrow with hrow | hrow
    · exact h.sound_other hrun hget _ _ _ hrow (by simp) hlisted hreplicated
    · rw [List.mem_singleton] at hrow
      subst hrow
      exact .inr ⟨_, rfl, _, (mem_advance hget (h.apart run hrun)).mpr (.inl rfl), _, _, rfl⟩
  apart run' hrun' := by
    cases hrun'
    rw [advance_names hget]
    exact h.apart run hrun
  fresh run' hrun' t ht row hrow hnamed := by
    cases hrun'
    rcases List.mem_append.mp hrow with hrow | hrow
    · exact h.fresh_of hrun hget ht hrow hnamed
    · rw [List.mem_singleton.mp hrow]
      exact replicated_not_discovered built_replicated
  tasks run' hrun' t ht := by
    cases hrun'
    rcases (mem_advance hget (h.apart run hrun)).mp ht with rfl | ⟨ht, hne⟩
    · refine .inl (.applied (hdups.persist (persist_append _) fun _ _ hg => hg) ?_)
      exact ⟨_, List.mem_append_right _ (List.mem_singleton.mpr rfl), named_iff.mpr rfl,
        built_listedAs, built_replicated⟩
    · refine h.others hrun (persist_append _) (fun _ _ hg => hg.elim) ?_ ht hne
      intro row' hrow'
      rcases List.mem_append.mp hrow' with hrow' | hrow'
      · exact .inl ⟨row', hrow', rfl⟩
      · exact .inr (by rw [List.mem_singleton.mp hrow']; exact named_iff.mpr rfl)
  reaped := h.reaped

theorem ReplInv.patch (h : ReplInv rfc r s) (hrun : s.run = some run) {dups : List String}
    (hdups : Duplicates r s.rows item.destEntry.id dups)
    (hrow : ∃ row ∈ s.rows, row.named (copyName r item) = true ∧
      row.listedAs r item.destEntry.id = true ∧ row.replicated = true)
    (hget : run.tasks[task]? = some (item,
      .patchStatus (copyName r item) (buildCopySnapshot rfc r item).2 :: dups.map .delete)) :
    ReplInv rfc r
      { rows := (CopyCall.patchStatus (copyName r item) (buildCopySnapshot rfc r item).2).exec s.rows
        run := some (advance run task item (dups.map .delete))
        reaped := s.reaped } := by
  obtain ⟨own, hown, hnamed, hlisted, hreplicated⟩ := hrow
  have hall : ∀ row ∈ s.rows, row.named (copyName r item) = true →
      row.listedAs r item.destEntry.id = true ∧ row.replicated = true := by
    intro row hrow hn
    rw [h.distinct.eq hrow hown hn hnamed]
    exact ⟨hlisted, hreplicated⟩
  have hkept := persist_patch rfc hall
  have hmeta : ∀ row' ∈ (CopyCall.patchStatus (copyName r item)
      (buildCopySnapshot rfc r item).2).exec s.rows, ∃ row ∈ s.rows, SameMeta row row' := by
    intro row' hrow'
    exact (mem_exec hrow' (by simp)).resolve_right (by simp)
  exact {
    distinct := h.distinct.exec (c := .patchStatus _ _) fun _ hc => by cases hc
    sound := by
      intro row' hrow' id hlisted' hreplicated'
      obtain ⟨row, hrow, rfl⟩ := List.mem_map.mp hrow'
      by_cases hn : row.named (copyName r item) = true
      · simp only [hn, if_true] at hlisted' ⊢
        refine .inl ?_
        rw [listedAs_inj hlisted' (hall row hrow hn).1]
        exact mergeStatus_complete (hall row hrow hn).1 (hall row hrow hn).2
      · simp only [hn] at hlisted' hreplicated' ⊢
        refine h.sound_other hrun hget _ _ _ hrow ?_ hlisted' hreplicated'
        intro status rest' heq
        rw [List.cons.injEq, CopyCall.patchStatus.injEq] at heq
        exact hn (named_iff.mpr heq.1.1.symm)
    apart := by
      rintro run' ⟨⟩
      rw [advance_names hget]
      exact h.apart run hrun
    fresh := by
      rintro run' ⟨⟩ t ht row' hrow' hn
      obtain ⟨row, hrow, hsame⟩ := hmeta row' hrow'
      exact hsame.discovered.trans (h.fresh_of hrun hget ht hrow ((hsame.named _).symm.trans hn))
    tasks := by
      rintro run' ⟨⟩ t ht
      rcases (mem_advance hget (h.apart run hrun)).mp ht with rfl | ⟨ht, hne⟩
      · refine .inl (.deleting (hdups.persist hkept fun _ _ hg => hg) ⟨_, List.mem_map.mpr
          ⟨own, hown, rfl⟩, .inl ?_⟩)
        rw [if_pos hnamed]
        exact mergeStatus_complete hlisted hreplicated
      · exact h.others hrun hkept (fun _ _ hg => hg.elim)
          (fun row' hrow' => .inl (hmeta row' hrow')) ht hne
    reaped := h.reaped }

theorem ReplInv.delete (h : ReplInv rfc r s) (hrun : s.run = some run) {n : String}
    {dups : List String} (hdups : Duplicates r s.rows item.destEntry.id (n :: dups))
    (hstands : Stands r s.rows item.destEntry.id)
    (hget : run.tasks[task]? = some (item, (n :: dups).map .delete)) :
    ReplInv rfc r
      { rows := (CopyCall.delete n).exec s.rows
        run := some (advance run task item (dups.map .delete))
        reaped := reapedBy s.rows (.delete n) ++ s.reaped } := by
  obtain ⟨dup, hdup, hnamed, hdisc, hlisted⟩ := hdups.rows n List.mem_cons_self
  have hall : ∀ row ∈ s.rows, row.metadata.nameAny = n → row.discovered = true ∧
      row.listedAs r item.destEntry.id = true := by
    intro row hrow hn
    rw [h.distinct.eq hrow hdup (named_iff.mpr hn) hnamed]
    exact ⟨hdisc, hlisted⟩
  have hkept : Persist r (· = n) s.rows ((CopyCall.delete n).exec s.rows) := persist_delete n
  have hsub : ∀ row' ∈ (CopyCall.delete n).exec s.rows, row' ∈ s.rows := fun row' hrow' =>
    (List.mem_filter.mp hrow').1
  obtain ⟨hfirst, hnodup⟩ := List.nodup_cons.mp hdups.nodup
  exact {
    distinct := h.distinct.exec (c := .delete n) fun _ hc => by cases hc
    sound := by
      intro row hrow id hlisted' hreplicated'
      exact h.sound_other hrun hget _ _ _ (hsub row hrow) (by simp) hlisted' hreplicated'
    apart := by
      rintro run' ⟨⟩
      rw [advance_names hget]
      exact h.apart run hrun
    fresh := by
      rintro run' ⟨⟩ t ht row hrow hn
      exact h.fresh_of hrun hget ht (hsub row hrow) hn
    tasks := by
      rintro run' ⟨⟩ t ht
      rcases (mem_advance hget (h.apart run hrun)).mp ht with rfl | ⟨ht, hne⟩
      · have hrest : Duplicates r s.rows item.destEntry.id dups :=
          ⟨hnodup, fun m hm => hdups.rows m (List.mem_cons_of_mem _ hm)⟩
        refine .inl (.deleting (hrest.persist hkept ?_) ?_)
        · rintro m hm rfl
          exact hfirst hm
        · exact hkept.stands (fun row hrow hn => (hall row hrow hn).1) hstands
      · exact h.others hrun hkept hall
          (fun row' hrow' => .inl ⟨row', hsub row' hrow', rfl⟩) ht hne
    reaped := by
      intro p hp id hid
      rcases List.mem_append.mp hp with hp | hp
      · obtain ⟨row, hrow, rfl⟩ := List.mem_map.mp hp
        obtain ⟨hrow, hn⟩ := List.mem_filter.mp hrow
        rw [listedAs_inj hid (hall row hrow (named_iff.mp hn)).2]
        exact hstands
      · exact h.reaped p hp id hid }

theorem ReplInv.drop (h : ReplInv rfc r s) (hrun : s.run = some run) {calls rest : List CopyCall}
    (hget : run.tasks[task]? = some (item, calls)) {failed : Bool}
    (hfailed : run.failed = true → failed = true)
    (hnot : ∀ name status rest', calls ≠ .patchStatus name status :: rest')
    (hrest : TaskAt rfc r s.rows item rest ∨ (failed = true ∧ rest = [])) :
    ReplInv rfc r { s with run := some { advance run task item rest with failed } } where
  distinct := h.distinct
  sound row hrow id hlisted hreplicated := by
    rcases h.sound_other hrun hget rest s.rows s.reaped hrow (hnot _)
      hlisted hreplicated with hcomplete | ⟨run', ⟨⟩, t, ht, hpatch⟩
    · exact .inl hcomplete
    · exact .inr ⟨_, rfl, t, ht, hpatch⟩
  apart run' hrun' := by
    cases hrun'
    exact (advance_names hget).symm ▸ h.apart run hrun
  fresh run' hrun' t ht row hrow hn := by
    cases hrun'
    exact h.fresh_of hrun hget ht hrow hn
  tasks run' hrun' t ht := by
    cases hrun'
    rcases (mem_advance hget (h.apart run hrun)).mp ht with rfl | ⟨ht, -⟩
    · exact hrest
    · exact (h.tasks run hrun t ht).imp_right fun hf => ⟨hfailed hf.1, hf.2⟩
  reaped := h.reaped

theorem ReplInv.call (h : ReplInv rfc r s) (hrun : s.run = some run)
    (hget : run.tasks[task]? = some (item, c :: rest)) :
    ReplInv rfc r
      { rows := c.exec s.rows
        run := some (advance run task item rest)
        reaped := reapedBy s.rows c ++ s.reaped } := by
  have htask : TaskAt rfc r s.rows item (c :: rest) :=
    (h.tasks run hrun _ (List.mem_of_getElem? hget)).resolve_right (by simp)
  generalize hcalls : c :: rest = calls at htask
  cases htask with
  | waiting hdups hfree =>
    cases hcalls
    rw [exec_apply hfree]
    exact h.apply hrun hdups hfree hget
  | applied hdups hrow =>
    cases hcalls
    exact h.patch hrun hdups hrow hget
  | @deleting dups hdups hstands =>
    cases dups with
    | nil => cases hcalls
    | cons n dups =>
      cases hcalls
      exact h.delete hrun hdups hstands hget

theorem ReplInv.start (h : ReplInv rfc r s) (hidle : s.run = none)
    {items : List CopyCorrespondence} (hapart : (items.map (copyName r)).Nodup)
    (hown : ∀ item ∈ items, ∀ row ∈ s.rows, row.named (copyName r item) = true →
      row.listedAs r item.destEntry.id = true ∧ row.discovered = false) :
    ReplInv rfc r { s with run := some (reconcileCopyCrs rfc r s.rows items) } := by
  have hsound : ∀ row ∈ s.rows, ∀ id, row.listedAs r id = true → row.replicated = true →
      CompleteFor r id row := by
    intro row hrow id hlisted hreplicated
    refine (h.sound row hrow id hlisted hreplicated).resolve_right ?_
    rintro ⟨run, hrun, -⟩
    rw [hidle] at hrun
    cases hrun
  exact {
    distinct := h.distinct
    sound := fun row hrow id hlisted hreplicated =>
      .inl (hsound row hrow id hlisted hreplicated)
    apart := by
      rintro run ⟨⟩
      rwa [reconcileCopyCrs, List.map_map]
    fresh := by
      rintro run ⟨⟩ t ht row hrow hn
      obtain ⟨item, hitem, rfl⟩ := List.mem_map.mp ht
      exact (hown item hitem row hrow hn).2
    tasks := by
      rintro run ⟨⟩ t ht
      obtain ⟨item, hitem, rfl⟩ := List.mem_map.mp ht
      exact .inl (.plan h.distinct hsound (hown item hitem))
    reaped := h.reaped }

theorem ReplInv.stop (h : ReplInv rfc r s)
    (hpatched : ∀ run, s.run = some run → ∀ t ∈ run.tasks, ReplOk.Unpatched t = false) :
    ReplInv rfc r { s with run := none } where
  distinct := h.distinct
  sound row hrow id hlisted hreplicated := by
    refine .inl ((h.sound row hrow id hlisted hreplicated).resolve_right ?_)
    rintro ⟨run, hrun, t, ht, status, rest, hpatch⟩
    have := hpatched run hrun t ht
    simp [ReplOk.Unpatched, hpatch] at this
  apart run hrun := by cases hrun
  fresh run hrun := by cases hrun
  tasks run hrun := by cases hrun
  reaped := h.reaped

theorem ReplInv.discover (h : ReplInv rfc r s) {row : CopySnapshot}
    (hfree : ∀ row' ∈ s.rows, row'.named row.metadata.nameAny = false)
    (hdisc : row.discovered = true)
    (hname : ∀ run, s.run = some run → ∀ t ∈ run.tasks, row.named (copyName r t.1) = false) :
    ReplInv rfc r { s with rows := s.rows ++ [row] } where
  distinct := by
    have := h.distinct.exec (c := .apply row) (by
      rintro snap ⟨⟩
      exact hfree)
    rwa [exec_apply hfree] at this
  sound row' hrow' id hlisted hreplicated := by
    rcases List.mem_append.mp hrow' with hrow' | hrow'
    · exact h.sound row' hrow' id hlisted hreplicated
    · rw [List.mem_singleton.mp hrow'] at hreplicated
      rw [replicated_not_discovered hreplicated] at hdisc
      cases hdisc
  apart := h.apart
  fresh run hrun t ht row' hrow' hn := by
    rcases List.mem_append.mp hrow' with hrow' | hrow'
    · exact h.fresh run hrun t ht row' hrow' hn
    · rw [List.mem_singleton.mp hrow', hname run hrun t ht] at hn
      cases hn
  tasks run hrun t ht := by
    refine (h.tasks run hrun t ht).imp_left fun htask => htask.persist (persist_append row)
      (fun _ _ hg => hg.elim) ?_
    intro row' hrow' hn
    rcases List.mem_append.mp hrow' with hrow' | hrow'
    · exact ⟨row', hrow', hn⟩
    · rw [List.mem_singleton.mp hrow', hname run hrun t ht] at hn
      cases hn
  reaped := h.reaped

theorem ReplInv.step (h : ReplInv rfc r s) {a : ReplStep} (hok : ReplOk r s a) {s' : ReplWorld}
    (hstep : replStep rfc r s a = some s') : ReplInv rfc r s' := by
  cases a with
  | start source selected destAfter =>
    cases hrun : s.run with
    | some run => simp [replStep, hrun] at hstep
    | none =>
      simp only [replStep, hrun, Option.some.injEq] at hstep
      subst hstep
      exact h.start hrun hok.1 hok.2
  | call task =>
    simp only [replStep, Option.bind_eq_bind, Option.bind_eq_some_iff] at hstep
    obtain ⟨run, hrun, ⟨item, calls⟩, hget, hstep⟩ := hstep
    cases calls with
    | nil => cases hstep
    | cons c rest =>
      cases hstep
      exact h.call hrun hget
  | tolerate task =>
    simp only [replStep, Option.bind_eq_bind, Option.bind_eq_some_iff] at hstep
    obtain ⟨run, hrun, ⟨item, calls⟩, hget, hstep⟩ := hstep
    split at hstep
    · next item' n rest heq =>
      cases heq
      cases hstep
      refine h.drop hrun hget id (by simp) (.inl ?_)
      have htask : TaskAt rfc r s.rows item (.delete n :: rest) :=
        (h.tasks run hrun _ (List.mem_of_getElem? hget)).resolve_right (by simp)
      generalize hcalls : CopyCall.delete n :: rest = calls at htask
      cases htask with
      | waiting => cases hcalls
      | applied => cases hcalls
      | @deleting dups hdups hstands =>
        cases dups with
        | nil => cases hcalls
        | cons m dups =>
          cases hcalls
          exact .deleting ⟨(List.nodup_cons.mp hdups.nodup).2,
            fun k hk => hdups.rows k (List.mem_cons_of_mem _ hk)⟩ hstands
    · cases hstep
  | fail task =>
    simp only [replStep, Option.bind_eq_bind, Option.bind_eq_some_iff] at hstep
    obtain ⟨run, hrun, ⟨item, calls⟩, hget, hstep⟩ := hstep
    cases calls with
    | nil => cases hstep
    | cons c rest =>
      cases hstep
      refine h.drop hrun hget (fun _ => rfl) ?_ (.inr ⟨rfl, rfl⟩)
      intro name status rest' heq
      have := hok run hrun _ hget
      simp [ReplOk.Unpatched, heq] at this
  | stop =>
    cases hrun : s.run with
    | none => simp [replStep, hrun] at hstep
    | some run =>
      simp only [replStep, hrun, Option.map_some, Option.some.injEq] at hstep
      subst hstep
      exact h.stop hok
  | discover row =>
    simp only [replStep] at hstep
    split at hstep
    · cases hstep
    · next hfree =>
      cases hstep
      refine h.discover ?_ hok.1 hok.2
      simpa only [List.any_eq_true, not_exists, not_and, Bool.not_eq_true] using hfree

end Step

end Tasks

/-- Over replication runs that end anywhere but between the apply of an object and
its status: once the tasks of a run are through, every copy has a complete
object or one of another origin, and a discovered duplicate is deleted only
beside such an object. -/
theorem replication_runs_resumable (rfc : Rfc3339) (r : Replication) (rows : List CopySnapshot)
    (hnames : (rows.map fun row => row.metadata.nameAny).Nodup)
    (hcomplete : ∀ row ∈ rows, ∀ id, row.listedAs r id = true → row.replicated = true →
      CompleteFor r id row) (s : ReplWorld)
    (hrun : Reaches (replStep rfc r) (ReplOk r) { rows } s) :
    (∀ run, s.run = some run → run.failed = false → (∀ t ∈ run.tasks, t.2 = []) →
      ∀ t ∈ run.tasks, Stands r s.rows t.1.destEntry.id) ∧
    (∀ p ∈ s.reaped, ∀ id, p.1.listedAs r id = true → Stands r p.2 id) := by
  have hinit : ReplInv rfc r { rows } :=
    { distinct := hnames
      sound := fun row hrow id hlisted hreplicated =>
        .inl (hcomplete row hrow id hlisted hreplicated)
      apart := fun run hrun => by cases hrun
      fresh := fun run hrun => by cases hrun
      tasks := fun run hrun => by cases hrun
      reaped := fun p hp => by cases hp }
  have hinv := hrun.invariant (ReplInv rfc r) hinit fun _ _ _ h hok hstep => h.step hok hstep
  refine ⟨fun run hrun hfailed hdone t ht => ?_, hinv.reaped⟩
  rcases hinv.tasks run hrun t ht with htask | ⟨hf, -⟩
  · rw [hdone t ht] at htask
    generalize hcalls : ([] : List CopyCall) = calls at htask
    cases htask with
    | waiting => cases hcalls
    | applied => cases hcalls
    | deleting _ hstands => exact hstands
  · rw [hfailed] at hf
    cases hf

def epochTimes : Rfc3339 where
  parse text := if text = "1970-01-01T00:00:00+00:00" then some 0 else none
  render _ := "1970-01-01T00:00:00+00:00"

def offsiteCopy : Replication where
  replName := "offsite"
  ns := "media"
  destRepo := { kind := "Repository", name := "cloud", uid := "uid-cloud" }
  sourceRepo := { kind := "Repository", name := "nas" }

def epochManifest (id : String) : SnapshotListEntry where
  id
  source := { host := "media", userName := "db", path := "/data" }
  startTime := 0
  endTime := 0

/-- An object of the destination's snapshot `k1`. -/
def cloudRow (name origin : String) : CopySnapshot where
  metadata :=
    { name := some name
      ns := some "media"
      labels := [(originLabel, origin), (snapshotIdLabel, "k1"), (repositoryUidLabel, "uid-cloud")] }

/-- A run over the one snapshot that the source has as `s1`, the destination as `k1`. -/
def startCopy : ReplStep :=
  .start [epochManifest "s1"] {identityTriple "db" "media" "/data"} [epochManifest "k1"]

/-- The first run dies before it deletes the duplicate, the second deletes it. -/
theorem replication_runs_resumable_interrupted :
    ∃ s, runSteps (replStep epochTimes offsiteCopy) (ReplOk offsiteCopy)
        { rows := [cloudRow "cloud-k1" "discovered"] }
        [startCopy, .call 0, .call 0, .stop, startCopy, .call 0] = some s ∧
      s.reaped ≠ [] ∧ Stands offsiteCopy s.rows "k1" := by
  refine exists_runSteps_imp (P := fun s => s.reaped ≠ [] ∧ ∃ run ∈ s.run, run.failed = false ∧
    (∀ t ∈ run.tasks, t.2 = []) ∧ ∃ t ∈ run.tasks, t.1.destEntry.id = "k1")
    (by decide) fun s hrun h => ?_
  obtain ⟨hreaped, run, hs, hfailed, hdone, t, ht, hid⟩ := h
  refine ⟨hreaped, ?_⟩
  have hstands := (replication_runs_resumable epochTimes offsiteCopy
    [cloudRow "cloud-k1" "discovered"] (by decide) (by
      intro row hrow id _ hreplicated
      rw [List.mem_singleton] at hrow
      subst hrow
      exact absurd hreplicated (by decide)) s (reaches_of_runSteps hrun)).1 run hs hfailed hdone t ht
  rwa [hid] at hstands

/-- A run that dies between the apply and the status leaves an object without
status, which the next complete run takes for a copy and beside which it deletes
the discovered row. A run's own row of the destination is never replaced. -/
theorem replication_skips_object_without_status :
    ((runSteps (replStep epochTimes offsiteCopy) (fun _ _ => True)
      { rows := [cloudRow "cloud-k1" "discovered"] }
      [startCopy, .call 0, .stop, startCopy, .call 0]).any fun s =>
        (s.reaped.any fun p => p.1.listedAs offsiteCopy "k1") ∧
        (∀ row ∈ s.rows, row.status = none ∧ row.copiedFrom = none) ∧
        s.run.any fun run => run.failed = false ∧ (∀ t ∈ run.tasks, t.2 = []) ∧
          ∃ t ∈ run.tasks, t.1.destEntry.id = "k1") = true ∧
    ((runSteps (replStep epochTimes offsiteCopy) (fun _ _ => True)
      { rows := [cloudRow "db-backup" "manual"] } [startCopy]).any fun s =>
        (∀ row ∈ s.rows, row.replicated = false) ∧
        s.run.any fun run => run.failed = false ∧ (∀ t ∈ run.tasks, t.2 = []) ∧
          ∃ t ∈ run.tasks, t.1.destEntry.id = "k1") = true := by
  decide

end Kopiur
