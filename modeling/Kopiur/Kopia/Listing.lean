import Kopiur.Time

/-!
# What kopia lists and how its deletes fail

The entries of `kopia snapshot list --json`, the classes of a failed call, and
the two delete calls of the client. The kopia binary itself is a parameter: a
delete of some ids either removes them all or removes nothing.
-/

namespace Kopiur

structure SnapshotSource where
  host : String
  userName : String
  path : String
deriving DecidableEq

structure DirSummary where
  incomplete : Option String := none
deriving DecidableEq

structure RootEntry where
  summary : Option DirSummary := none
deriving DecidableEq

structure SnapshotListEntry where
  id : String
  source : SnapshotSource
  startTime : DateTime
  endTime : DateTime
  rootEntry : Option RootEntry := none
  incomplete : Option String := none
  -- `stats.totalSize`
  totalSize : Nat := 0
deriving DecidableEq

/-- Why a manifest is not a complete snapshot: the top-level marker, else the
one of the root summary; an empty text means complete. -/
def SnapshotListEntry.incompleteReason (e : SnapshotListEntry) : Option String :=
  let summ := (e.rootEntry.bind RootEntry.summary).bind DirSummary.incomplete
  ([e.incomplete, summ].filterMap fun r => r).find? fun r => !r.isEmpty

def SnapshotListEntry.complete (e : SnapshotListEntry) : Bool := e.incompleteReason.isNone

def completeOnly (entries : List SnapshotListEntry) : List SnapshotListEntry :=
  entries.filter SnapshotListEntry.complete

inductive KopiaErrorClass
  | repositoryUnavailable
  | authFailure
  | accessDenied
  | permissionDenied
  | notFound
  | locked
  | sourceError
  | unknown
deriving DecidableEq

def KopiaErrorClass.isRetryable : KopiaErrorClass → Bool
  | .repositoryUnavailable | .locked | .sourceError => true
  | _ => false

/-- A failed `kopia snapshot delete`. -/
structure DeleteFailure where
  /-- The error says "no snapshots matched". -/
  noSnapshotsMatched : Bool
  class_ : KopiaErrorClass
deriving DecidableEq

def listed (store : List SnapshotListEntry) (id : String) : Prop := ∃ e ∈ store, e.id = id

instance (store : List SnapshotListEntry) (id : String) : Decidable (listed store id) :=
  inferInstanceAs (Decidable (∃ e ∈ store, e.id = id))

def without (store : List SnapshotListEntry) (ids : List String) : List SnapshotListEntry :=
  store.filter fun e => e.id ∉ ids

/-- `kopia snapshot delete <id>... --delete` against the manifests of a
repository. An id it refuses is refused whatever else the repository holds. -/
structure KopiaDelete where
  run : List SnapshotListEntry → List String → Except DeleteFailure (List SnapshotListEntry)
  refuses : String → Option KopiaErrorClass
  succeeds : ∀ store ids, (∀ id ∈ ids, listed store id ∧ refuses id = none) →
    run store ids = .ok (without store ids)
  /-- The loop stops at the first id that fails, and nothing is flushed. -/
  fails : ∀ store ids, ¬ (∀ id ∈ ids, listed store id ∧ refuses id = none) →
    ∃ id ∈ ids, ∃ failure, run store ids = .error failure ∧
      ((¬ listed store id ∧ failure = ⟨true, .unknown⟩) ∨
        (listed store id ∧ ∃ c, refuses id = some c ∧ failure = ⟨false, c⟩))

/-- A kopia that refuses the ids it is told to. -/
def KopiaDelete.refusing (refuses : String → Option KopiaErrorClass) : KopiaDelete where
  run store ids :=
    match ids.find? fun id => ¬ (listed store id ∧ refuses id = none) with
    | none => .ok (without store ids)
    | some id => .error (if listed store id then ⟨false, (refuses id).getD .unknown⟩
        else ⟨true, .unknown⟩)
  refuses
  succeeds store ids h := by
    have hnone : ids.find? (fun id => decide ¬ (listed store id ∧ refuses id = none)) = none := by
      rw [List.find?_eq_none]
      intro id hid
      simp [h id hid]
    rw [hnone]
  fails store ids h := by
    cases hfind : ids.find? fun id => decide ¬ (listed store id ∧ refuses id = none) with
    | none =>
      rw [List.find?_eq_none] at hfind
      exact absurd (fun id hid => by simpa using hfind id hid) h
    | some id =>
      have hid := List.find?_some hfind
      refine ⟨id, List.mem_of_find?_eq_some hfind, _, rfl, ?_⟩
      by_cases hl : listed store id
      · cases hr : refuses id with
        | none => simp [hl, hr] at hid
        | some c => exact .inr ⟨hl, c, rfl, by simp [hl]⟩
      · exact .inl ⟨hl, by simp [hl]⟩

def KopiaDelete.snapshotDelete (k : KopiaDelete) (store : List SnapshotListEntry) (id : String) :
    Except KopiaErrorClass (List SnapshotListEntry) :=
  match k.run store [id] with
  | .ok store => .ok store
  | .error failure => if failure.noSnapshotsMatched then .ok store else .error failure.class_

def KopiaDelete.snapshotDeleteMany (k : KopiaDelete) (store : List SnapshotListEntry)
    (ids : List String) : Except KopiaErrorClass (List SnapshotListEntry) :=
  match k.run store ids with
  | .ok store => .ok store
  | .error failure => .error failure.class_

theorem mem_without {store : List SnapshotListEntry} {ids : List String} {e : SnapshotListEntry} :
    e ∈ without store ids ↔ e ∈ store ∧ e.id ∉ ids := by
  simp [without]

theorem without_without (store : List SnapshotListEntry) (ids ids' : List String) :
    without (without store ids) ids' = without store (ids ++ ids') := by
  simp only [without, List.filter_filter, List.mem_append, not_or]
  congr 1
  funext e
  simp [Bool.and_comm]

theorem without_nil (store : List SnapshotListEntry) : without store [] = store := by
  simp [without]

theorem without_congr {store : List SnapshotListEntry} {ids ids' : List String}
    (h : ∀ id, listed store id → (id ∈ ids ↔ id ∈ ids')) : without store ids = without store ids' := by
  apply List.filter_congr
  intro e he
  simp [h e.id ⟨e, he, rfl⟩]

theorem listed_without {store : List SnapshotListEntry} {ids : List String} {id : String} :
    listed (without store ids) id ↔ listed store id ∧ id ∉ ids := by
  constructor
  · rintro ⟨e, he, rfl⟩
    exact ⟨⟨e, (mem_without.mp he).1, rfl⟩, (mem_without.mp he).2⟩
  · rintro ⟨⟨e, he, rfl⟩, hid⟩
    exact ⟨e, mem_without.mpr ⟨he, hid⟩, rfl⟩

namespace KopiaDelete

variable (k : KopiaDelete) (store : List SnapshotListEntry)

theorem snapshotDelete_refused {id : String} {c : KopiaErrorClass} (hl : listed store id)
    (hr : k.refuses id = some c) : k.snapshotDelete store id = .error c := by
  have hnot : ¬ ∀ i ∈ [id], listed store i ∧ k.refuses i = none := by simp [hr]
  obtain ⟨i, hi, failure, hrun, h⟩ := k.fails store [id] hnot
  obtain rfl := List.mem_singleton.mp hi
  obtain ⟨hnl, -⟩ | ⟨-, c', hc', rfl⟩ := h
  · exact absurd hl hnl
  · rw [hr, Option.some.injEq] at hc'
    simp [snapshotDelete, hrun, hc']

theorem snapshotDelete_ok {id : String} (h : listed store id → k.refuses id = none) :
    k.snapshotDelete store id = .ok (without store [id]) := by
  by_cases hl : listed store id
  · have hrun := k.succeeds store [id] (by simp [hl, h hl])
    simp [snapshotDelete, hrun]
  · have hnot : ¬ ∀ i ∈ [id], listed store i ∧ k.refuses i = none := by simp [hl]
    obtain ⟨i, hi, failure, hrun, hcause⟩ := k.fails store [id] hnot
    obtain rfl := List.mem_singleton.mp hi
    obtain ⟨-, rfl⟩ | ⟨hl', -⟩ := hcause
    · have hsame : without store [i] = store := by
        rw [← without_nil store, without_without]
        apply without_congr
        intro i' hi'
        have hne : i' ≠ i := fun heq => hl (heq ▸ hi')
        simp [hne]
      simp [snapshotDelete, hrun, hsame]
    · exact absurd hl' hl

theorem snapshotDeleteMany_cases (hclass : ∀ id c, k.refuses id = some c → c.isRetryable = false)
    (ids : List String) :
    ((∀ id ∈ ids, k.refuses id = none) ∧
        k.snapshotDeleteMany store ids = .ok (without store ids)) ∨
      ∃ c, k.snapshotDeleteMany store ids = .error c ∧ c.isRetryable = false := by
  by_cases hall : ∀ id ∈ ids, listed store id ∧ k.refuses id = none
  · have hrun := k.succeeds store ids hall
    exact .inl ⟨fun id hid => (hall id hid).2, by simp [snapshotDeleteMany, hrun]⟩
  · obtain ⟨i, -, failure, hrun, h⟩ := k.fails store ids hall
    refine .inr ⟨failure.class_, by simp [snapshotDeleteMany, hrun], ?_⟩
    obtain ⟨-, rfl⟩ | ⟨-, c, hc, rfl⟩ := h
    · rfl
    · exact hclass i c hc

end KopiaDelete

end Kopiur
