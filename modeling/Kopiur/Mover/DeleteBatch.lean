import Mathlib.Data.Finset.Card
import Kopiur.Lib.Chunks
import Kopiur.Mover.BatchDelete

/-!
# Deleting a batch and deleting one by one

The batch path plans against one listing and deletes chunk by chunk, falling
back to single deletes when a chunk fails. The single path deletes a member's
recorded id, lists again and deletes what the anchor then resolves to.
-/

namespace Kopiur

open Kopiur.Lib (chunks zip_chunks length_eq_of_mem_zip_chunks)

def resolveLiveId (rfc : Rfc3339) (store : List SnapshotListEntry) (anchor : SnapshotAnchor) :
    Option String :=
  if anchor.sourcePath.isEmpty then none
  else
    (matchCurrentManifest (completeOnly store) anchor.sourcePath (anchor.startInstant rfc)
      anchor.identityFilter).map SnapshotListEntry.id

/-- Delete one member; the error of a failed delete, and the manifests left. -/
def deleteOne (k : KopiaDelete) (rfc : Rfc3339) (store : List SnapshotListEntry)
    (item : SnapshotDeleteItem) : Except KopiaErrorClass Unit × List SnapshotListEntry :=
  match k.snapshotDelete store item.snapshotId with
  | .error e => (.error e, store)
  | .ok store =>
    if !anchorSelfHealAllowed item.anchor then (.ok (), store)
    else
      match resolveLiveId rfc store item.anchor with
      | none => (.ok (), store)
      | some live =>
        if live ≠ item.snapshotId then
          match k.snapshotDelete store live with
          | .error e => (.error e, store)
          | .ok store => (.ok (), store)
        else (.ok (), store)

/-- The single path over the members in order, each against the manifests the
one before left. -/
def deleteInOrder (k : KopiaDelete) (rfc : Rfc3339) :
    List SnapshotListEntry → List SnapshotDeleteItem →
      List (Except KopiaErrorClass Unit) × List SnapshotListEntry
  | store, [] => ([], store)
  | store, item :: rest =>
    let (outcome, store) := deleteOne k rfc store item
    let (outcomes, store) := deleteInOrder k rfc store rest
    (outcome :: outcomes, store)

def snapshotDeleteChunk : Nat := 500

/-- Each id alone; the members whose delete failed. -/
def deleteEach (k : KopiaDelete) :
    List SnapshotListEntry → List (String × List Nat) → List Nat × List SnapshotListEntry
  | store, [] => ([], store)
  | store, (id, served) :: rest =>
    match k.snapshotDelete store id with
    | .ok store => deleteEach k store rest
    | .error _ =>
      let (failed, store) := deleteEach k store rest
      (served ++ failed, store)

/-- One chunk in a single call; a retryable failure fails the whole chunk. -/
def deleteChunk (k : KopiaDelete) (store : List SnapshotListEntry) (ids : List String)
    (members : List (List Nat)) : List Nat × List SnapshotListEntry :=
  match k.snapshotDeleteMany store ids with
  | .ok store => ([], store)
  | .error e =>
    if e.isRetryable then (members.flatten, store) else deleteEach k store (ids.zip members)

def deleteChunks (k : KopiaDelete) :
    List SnapshotListEntry → List (List String × List (List Nat)) →
      List Nat × List SnapshotListEntry
  | store, [] => ([], store)
  | store, (ids, members) :: rest =>
    let (failed, store) := deleteChunk k store ids members
    let (failed', store) := deleteChunks k store rest
    (failed ++ failed', store)

structure BatchDeleted where
  failed : Finset Nat
  store : List SnapshotListEntry
deriving DecidableEq

def deleteBatchIn (size : Nat) (k : KopiaDelete) (rfc : Rfc3339) (store : List SnapshotListEntry)
    (items : List SnapshotDeleteItem) : BatchDeleted :=
  let plan := planBatchDelete rfc items store
  let (failed, store) := deleteChunks k store ((chunks size plan.ids).zip (chunks size plan.membersOf))
  { failed := failed.toFinset, store }

-- What the batch leaves

def refusedMembers (k : KopiaDelete) (store : List SnapshotListEntry)
    (entries : List (String × List Nat)) : List Nat :=
  (entries.filter fun p => listed store p.1 ∧ k.refuses p.1 ≠ none).flatMap Prod.snd

def deletable (k : KopiaDelete) (ids : List String) : List String :=
  ids.filter fun id => k.refuses id = none

theorem mem_deletable {k : KopiaDelete} {ids : List String} {id : String} :
    id ∈ deletable k ids ↔ id ∈ ids ∧ k.refuses id = none := by
  simp [deletable]

theorem deletable_append (k : KopiaDelete) (ids ids' : List String) :
    deletable k (ids ++ ids') = deletable k ids ++ deletable k ids' := by
  simp [deletable]

theorem refusedMembers_without (k : KopiaDelete) (store : List SnapshotListEntry)
    (ids : List String) (entries : List (String × List Nat)) :
    refusedMembers k (without store (deletable k ids)) entries = refusedMembers k store entries := by
  have hfilter : entries.filter (fun p => decide (listed (without store (deletable k ids)) p.1 ∧
        k.refuses p.1 ≠ none)) =
      entries.filter fun p => decide (listed store p.1 ∧ k.refuses p.1 ≠ none) := by
    apply List.filter_congr
    intro p _
    simp only [listed_without, mem_deletable, decide_eq_decide]
    constructor
    · rintro ⟨⟨hl, -⟩, hr⟩
      exact ⟨hl, hr⟩
    · rintro ⟨hl, hr⟩
      exact ⟨⟨hl, fun h => hr h.2⟩, hr⟩
  rw [refusedMembers, hfilter, refusedMembers]

theorem refusedMembers_append (k : KopiaDelete) (store : List SnapshotListEntry)
    (entries entries' : List (String × List Nat)) :
    refusedMembers k store (entries ++ entries') =
      refusedMembers k store entries ++ refusedMembers k store entries' := by
  simp [refusedMembers]

theorem deleteEach_eq (k : KopiaDelete) (store : List SnapshotListEntry)
    (entries : List (String × List Nat)) :
    deleteEach k store entries =
      (refusedMembers k store entries, without store (deletable k (entries.map Prod.fst))) := by
  induction entries generalizing store with
  | nil => simp [deleteEach, refusedMembers, deletable, without_nil]
  | cons entry rest ih =>
    obtain ⟨id, served⟩ := entry
    by_cases hok : listed store id → k.refuses id = none
    · have hserved : refusedMembers k store ((id, served) :: rest) = refusedMembers k store rest := by
        have hnot : ¬ (listed store id ∧ k.refuses id ≠ none) := fun h => h.2 (hok h.1)
        simp [refusedMembers, hnot]
      have hone : without store [id] = without store (deletable k [id]) := by
        apply without_congr
        intro i hl
        simp only [List.mem_singleton, mem_deletable]
        exact ⟨fun h => ⟨h, h ▸ hok (h ▸ hl)⟩, And.left⟩
      rw [deleteEach, k.snapshotDelete_ok store hok]
      simp only
      rw [hone, ih, refusedMembers_without, hserved, without_without, ← deletable_append]
      rfl
    · rw [Classical.not_imp] at hok
      obtain ⟨hl, hr⟩ := hok
      obtain ⟨c, hc⟩ := Option.ne_none_iff_exists'.mp hr
      rw [deleteEach, k.snapshotDelete_refused store hl hc]
      simp only [ih]
      simp [refusedMembers, deletable, hl, hc]

theorem deleteChunk_eq {k : KopiaDelete}
    (hclass : ∀ id c, k.refuses id = some c → c.isRetryable = false)
    (store : List SnapshotListEntry) {ids : List String} {members : List (List Nat)}
    (hlen : ids.length = members.length) :
    deleteChunk k store ids members =
      (refusedMembers k store (ids.zip members),
        without store (deletable k ((ids.zip members).map Prod.fst))) := by
  rw [deleteChunk]
  obtain ⟨hfree, hok⟩ | ⟨c, herr, hc⟩ := k.snapshotDeleteMany_cases store hclass ids
  · have hids : deletable k ids = ids := by
      rw [deletable, List.filter_eq_self]
      intro id hid
      simp [hfree id hid]
    have hnone : refusedMembers k store (ids.zip members) = [] := by
      rw [refusedMembers, List.flatMap_eq_nil_iff]
      rintro ⟨id, served⟩ hm
      rw [List.mem_filter] at hm
      have := hfree id (List.of_mem_zip hm.1).1
      simp [this] at hm
    rw [hok, List.map_fst_zip (Nat.le_of_eq hlen), hids, hnone]
  · rw [herr]
    simp only [hc, Bool.false_eq_true, if_false]
    rw [deleteEach_eq]

theorem deleteChunks_eq {k : KopiaDelete}
    (hclass : ∀ id c, k.refuses id = some c → c.isRetryable = false)
    (store : List SnapshotListEntry) {cs : List (List String × List (List Nat))}
    (hlen : ∀ c ∈ cs, c.1.length = c.2.length) :
    deleteChunks k store cs =
      (refusedMembers k store (cs.flatMap fun c => c.1.zip c.2),
        without store (deletable k ((cs.flatMap fun c => c.1.zip c.2).map Prod.fst))) := by
  induction cs generalizing store with
  | nil => simp [deleteChunks, refusedMembers, deletable, without_nil]
  | cons c rest ih =>
    obtain ⟨ids, members⟩ := c
    rw [deleteChunks, deleteChunk_eq hclass store (hlen _ List.mem_cons_self)]
    simp only
    rw [ih _ fun c hc => hlen c (List.mem_cons_of_mem _ hc), refusedMembers_without,
      without_without, ← deletable_append, List.flatMap_cons, refusedMembers_append, List.map_append]

def TargetRefused (k : KopiaDelete) (rfc : Rfc3339) (store : List SnapshotListEntry)
    (item : SnapshotDeleteItem) : Prop :=
  ∃ id ∈ planTargets rfc store item, k.refuses id ≠ none

/-- In chunks of any size, the batch deletes the planned ids that kopia does
not refuse and fails the members that target a refused one. -/
theorem deleteBatchIn_spec {k : KopiaDelete}
    (hclass : ∀ id c, k.refuses id = some c → c.isRetryable = false) {size : Nat} (hsize : 0 < size)
    (rfc : Rfc3339) (store : List SnapshotListEntry) (items : List SnapshotDeleteItem) :
    (deleteBatchIn size k rfc store items).store =
        without store (deletable k (planBatchDelete rfc items store).ids) ∧
      ∀ m, m ∈ (deleteBatchIn size k rfc store items).failed ↔
        ∃ item, items[m]? = some item ∧ TargetRefused k rfc store item := by
  obtain ⟨⟨index, hplan⟩, -⟩ := planBatchDelete_attributes rfc items store
  have hlen : (planBatchDelete rfc items store).ids.length =
      (planBatchDelete rfc items store).membersOf.length := by
    rw [hplan.rows, List.length_map]
  have hchunks := deleteChunks_eq hclass store
    fun c (hc : c ∈ (chunks size (planBatchDelete rfc items store).ids).zip
      (chunks size (planBatchDelete rfc items store).membersOf)) =>
        length_eq_of_mem_zip_chunks hlen hc
  rw [zip_chunks hsize hlen, List.map_fst_zip (Nat.le_of_eq hlen)] at hchunks
  simp only [deleteBatchIn, hchunks, true_and, List.mem_toFinset]
  intro m
  rw [hplan.rows, ← List.map_prod_left_eq_zip]
  simp only [refusedMembers, List.mem_flatMap, List.mem_filter, List.mem_map, decide_eq_true_eq]
  constructor
  · rintro ⟨_, ⟨⟨id, -, rfl⟩, -, hr⟩, hm⟩
    obtain ⟨item, hitem, hid⟩ := mem_attributions.mp (mem_attributed.mp hm)
    exact ⟨item, List.mem_zipIdx_iff_getElem?.mp hitem, id, hid, hr⟩
  · rintro ⟨item, hitem, id, hid, hr⟩
    refine ⟨(id, _), ⟨⟨id, ?_, rfl⟩, planTargets_listed hid, hr⟩, ?_⟩
    · exact mem_planBatchDelete_ids.mpr ⟨item, List.mem_of_getElem? hitem, hid⟩
    · exact mem_attributed.mpr
        (mem_attributions.mpr ⟨item, List.mem_zipIdx_iff_getElem?.mpr hitem, hid⟩)

/-- What a member resolves to once the ids of `gone` are deleted. -/
def healNow (rfc : Rfc3339) (store : List SnapshotListEntry) (gone : List String)
    (item : SnapshotDeleteItem) : Option SnapshotListEntry :=
  if healOpen item then unique ((healCandidates rfc store item).filter fun e => e.id ∉ gone) else none

theorem healNow_eq_some {rfc : Rfc3339} {store : List SnapshotListEntry} {gone : List String}
    {item : SnapshotDeleteItem} {e : SnapshotListEntry} :
    healNow rfc store gone item = some e ↔ healOpen item = true ∧
      (healCandidates rfc store item).filter (fun e => e.id ∉ gone) = [e] := by
  rw [healNow]
  split
  case isTrue hopen => simp [hopen, unique_eq_some]
  case isFalse hopen => simp [hopen]

theorem resolveLiveId_without {rfc : Rfc3339} {store : List SnapshotListEntry} {gone : List String}
    {item : SnapshotDeleteItem} (hgate : anchorSelfHealAllowed item.anchor = true) :
    resolveLiveId rfc (without store (gone ++ [item.snapshotId])) item.anchor =
      (healNow rfc store gone item).map SnapshotListEntry.id := by
  have hcand : (completeOnly (without store (gone ++ [item.snapshotId]))).filter
      (item.anchor.fits rfc) = (healCandidates rfc store item).filter fun e => e.id ∉ gone := by
    simp only [completeOnly, without, healCandidates, List.filter_filter]
    apply List.filter_congr
    intro e _
    by_cases hrec : e.id = item.snapshotId
    · simp [hrec]
    · cases item.anchor.fits rfc e <;> cases e.complete <;> simp [hrec]
  rw [resolveLiveId, healNow, healOpen, hgate]
  cases hpath : item.anchor.sourcePath.isEmpty with
  | true => rfl
  | false => simp [matchCurrentManifest_eq, hpath, hcand]

/-- What one delete of the single path can do, where the ids of `gone` have
been deleted before. -/
theorem deleteOne_cases (k : KopiaDelete) (rfc : Rfc3339) (store : List SnapshotListEntry)
    (gone : List String) (item : SnapshotDeleteItem) :
    (∃ c, listed store item.snapshotId ∧ item.snapshotId ∉ gone ∧
        k.refuses item.snapshotId = some c ∧
        deleteOne k rfc (without store gone) item = (.error c, without store gone)) ∨
      (listed store item.snapshotId → item.snapshotId ∉ gone →
          k.refuses item.snapshotId = none) ∧
        ((healNow rfc store gone item = none ∧
            deleteOne k rfc (without store gone) item =
              (.ok (), without store (gone ++ [item.snapshotId]))) ∨
          (∃ e, healNow rfc store gone item = some e ∧ k.refuses e.id = none ∧
            deleteOne k rfc (without store gone) item =
              (.ok (), without store (gone ++ [item.snapshotId] ++ [e.id]))) ∨
          (∃ e c, healNow rfc store gone item = some e ∧ k.refuses e.id = some c ∧
            deleteOne k rfc (without store gone) item =
              (.error c, without store (gone ++ [item.snapshotId])))) := by
  by_cases hrec : listed (without store gone) item.snapshotId → k.refuses item.snapshotId = none
  · refine .inr ⟨fun hl hg => hrec (listed_without.mpr ⟨hl, hg⟩), ?_⟩
    have hdel := k.snapshotDelete_ok (without store gone) hrec
    rw [without_without] at hdel
    rw [deleteOne, hdel]
    simp only
    cases hgate : anchorSelfHealAllowed item.anchor with
    | false => exact .inl ⟨by simp [healNow, healOpen, hgate], by simp⟩
    | true =>
      simp only [Bool.not_true, Bool.false_eq_true, if_false, resolveLiveId_without hgate]
      cases hheal : healNow rfc store gone item with
      | none => exact .inl ⟨rfl, rfl⟩
      | some e =>
        obtain ⟨-, hleft⟩ := healNow_eq_some.mp hheal
        have he : e ∈ (healCandidates rfc store item).filter fun e => e.id ∉ gone := by
          rw [hleft]
          exact List.mem_singleton_self e
        obtain ⟨hc, hgone⟩ := List.mem_filter.mp he
        have hne : e.id ≠ item.snapshotId := (mem_healCandidates.mp hc).2.2.1
        simp only [Option.map_some, hne, ne_eq, not_false_eq_true, if_true]
        cases hr : k.refuses e.id with
        | none =>
          have hdel' := k.snapshotDelete_ok (without store (gone ++ [item.snapshotId])) fun _ => hr
          rw [without_without] at hdel'
          exact .inr (.inl ⟨e, rfl, hr, by rw [hdel']⟩)
        | some c =>
          have hl : listed (without store (gone ++ [item.snapshotId])) e.id := by
            refine listed_without.mpr ⟨⟨e, (mem_healCandidates.mp hc).1, rfl⟩, ?_⟩
            simpa [hne] using hgone
          exact .inr (.inr ⟨e, c, rfl, hr, by rw [k.snapshotDelete_refused _ hl hr]⟩)
  · rw [Classical.not_imp] at hrec
    obtain ⟨hl, hr⟩ := hrec
    obtain ⟨c, hc⟩ := Option.ne_none_iff_exists'.mp hr
    refine .inl ⟨c, (listed_without.mp hl).1, (listed_without.mp hl).2, hc, ?_⟩
    rw [deleteOne, k.snapshotDelete_refused _ hl hc]

-- Runs of the single path

def Removable (k : KopiaDelete) (rfc : Rfc3339) (store : List SnapshotListEntry)
    (items : List SnapshotDeleteItem) (id : String) : Prop :=
  (∃ item ∈ items, id ∈ planTargets rfc store item) ∧ k.refuses id = none

instance (k : KopiaDelete) (rfc : Rfc3339) (store : List SnapshotListEntry)
    (items : List SnapshotDeleteItem) (id : String) : Decidable (Removable k rfc store items id) :=
  inferInstanceAs (Decidable ((∃ item ∈ items, id ∈ planTargets rfc store item) ∧ _))

def StopsClean (k : KopiaDelete) (rfc : Rfc3339) (store : List SnapshotListEntry)
    (item : SnapshotDeleteItem) : Prop :=
  listed store item.snapshotId → k.refuses item.snapshotId ≠ none →
    ∀ id ∈ planTargets rfc store item, id = item.snapshotId

instance (k : KopiaDelete) (rfc : Rfc3339) (store : List SnapshotListEntry)
    (item : SnapshotDeleteItem) : Decidable (StopsClean k rfc store item) :=
  inferInstanceAs (Decidable (_ → _ → ∀ id ∈ _, _))

/-- Where a member's anchor does not match exactly one entry, the entries it
matches do not come down to one by the deletes of the batch. -/
def StaysAmbiguous (k : KopiaDelete) (rfc : Rfc3339) (store : List SnapshotListEntry)
    (items : List SnapshotDeleteItem) (item : SnapshotDeleteItem) : Prop :=
  healOpen item = true → (healCandidates rfc store item).length ≠ 1 →
    ((healCandidates rfc store item).filter fun e => ¬ Removable k rfc store items e.id).length ≠ 1

instance (k : KopiaDelete) (rfc : Rfc3339) (store : List SnapshotListEntry)
    (items : List SnapshotDeleteItem) (item : SnapshotDeleteItem) :
    Decidable (StaysAmbiguous k rfc store items item) :=
  inferInstanceAs (Decidable (_ → _ → _))

section Run

variable {k : KopiaDelete} {rfc : Rfc3339} {store : List SnapshotListEntry}
  {items : List SnapshotDeleteItem} {gone : List String} {item : SnapshotDeleteItem}

def Within (k : KopiaDelete) (rfc : Rfc3339) (store : List SnapshotListEntry)
    (items : List SnapshotDeleteItem) (gone : List String) : Prop :=
  ∀ id ∈ gone, listed store id → Removable k rfc store items id

theorem Within.append (h : Within k rfc store items gone) {id : String}
    (hid : listed store id → Removable k rfc store items id) :
    Within k rfc store items (gone ++ [id]) := by
  intro i hi hl
  rcases List.mem_append.mp hi with hi | hi
  · exact h i hi hl
  · obtain rfl := List.mem_singleton.mp hi
    exact hid hl

theorem StaysAmbiguous.removable (h : StaysAmbiguous k rfc store items item)
    (hwithin : Within k rfc store items gone) {e : SnapshotListEntry}
    (hheal : healNow rfc store gone item = some e)
    (hnot : (healCandidates rfc store item).length ≠ 1) : Removable k rfc store items e.id := by
  obtain ⟨hopen, hleft⟩ := healNow_eq_some.mp hheal
  by_contra hrem
  apply h hopen hnot
  have hsub : ((healCandidates rfc store item).filter fun e => ¬ Removable k rfc store items e.id) =
      ((healCandidates rfc store item).filter fun e => e.id ∉ gone).filter
        fun e => ¬ Removable k rfc store items e.id := by
    rw [List.filter_filter]
    apply List.filter_congr
    intro x hx
    have hl : listed store x.id := ⟨x, (mem_healCandidates.mp hx).1, rfl⟩
    by_cases hg : x.id ∈ gone
    · simp [hwithin x.id hg hl]
    · simp [hg]
  rw [hsub, hleft]
  simp [hrem]

theorem mem_planTargets_heal (hopen : healOpen item = true) {e : SnapshotListEntry}
    (hc : healCandidates rfc store item = [e]) : e.id ∈ planTargets rfc store item :=
  mem_planTargets.mpr (.inr ⟨hopen, e, hc, rfl⟩)

theorem covers_of_gone (hstep : ∀ e, healOpen item = true → healCandidates rfc store item = [e] →
      k.refuses e.id = none → e.id ∈ gone) (hrec : item.snapshotId ∈ gone) :
    ∀ id ∈ planTargets rfc store item, k.refuses id = none → id ∈ gone := by
  intro id hid hr
  obtain ⟨rfl, -⟩ | ⟨hopen, e, hc, rfl⟩ := mem_planTargets.mp hid
  · exact hrec
  · exact hstep e hopen hc hr

theorem healNow_of_single (hopen : healOpen item = true) {e : SnapshotListEntry}
    (hc : healCandidates rfc store item = [e]) (hg : e.id ∉ gone) :
    healNow rfc store gone item = some e := by
  rw [healNow_eq_some, hc]
  exact ⟨hopen, by simp [hg]⟩

theorem eq_of_healNow_single {e e' : SnapshotListEntry} (hheal : healNow rfc store gone item = some e)
    (hc : healCandidates rfc store item = [e']) : e = e' := by
  obtain ⟨-, hleft⟩ := healNow_eq_some.mp hheal
  rw [hc] at hleft
  have he : e ∈ [e'].filter fun e => e.id ∉ gone := by
    rw [hleft]
    exact List.mem_singleton_self e
  exact List.mem_singleton.mp (List.mem_filter.mp he).1

theorem Within.recorded (hwithin : Within k rfc store items gone) (hitem : item ∈ items)
    (hrec : listed store item.snapshotId → item.snapshotId ∉ gone →
      k.refuses item.snapshotId = none)
    (hl : listed store item.snapshotId) : Removable k rfc store items item.snapshotId := by
  by_cases hg : item.snapshotId ∈ gone
  · exact hwithin _ hg hl
  · exact ⟨⟨item, hitem, mem_planTargets.mpr (.inl ⟨rfl, hl⟩)⟩, hrec hl hg⟩

theorem targetRefused_iff (hrec : listed store item.snapshotId → k.refuses item.snapshotId = none) :
    TargetRefused k rfc store item ↔ healOpen item = true ∧
      ∃ e, healCandidates rfc store item = [e] ∧ k.refuses e.id ≠ none := by
  constructor
  · rintro ⟨id, hid, hr⟩
    obtain ⟨rfl, hl⟩ | ⟨hopen, e, hc, rfl⟩ := mem_planTargets.mp hid
    · exact absurd (hrec hl) hr
    · exact ⟨hopen, e, hc, hr⟩
  · rintro ⟨hopen, e, hc, hr⟩
    exact ⟨e.id, mem_planTargets_heal hopen hc, hr⟩

/-- One delete of the single path. It leaves the member's targets gone; where
the batch leaves no anchor with a single match, it deletes nothing the batch
does not, and fails when the batch fails the member. -/
theorem deleteOne_step (items : List SnapshotDeleteItem) (gone : List String)
    (hstops : StopsClean k rfc store item) :
    ∃ r gone', deleteOne k rfc (without store gone) item = (r, without store gone') ∧
      (∀ id ∈ gone, id ∈ gone') ∧
      (∀ id ∈ planTargets rfc store item, k.refuses id = none → id ∈ gone') ∧
      (Within k rfc store items gone → item ∈ items → StaysAmbiguous k rfc store items item →
        Within k rfc store items gone' ∧ (r = .ok () ↔ ¬ TargetRefused k rfc store item)) := by
  obtain ⟨c, hl, hg, hc, heq⟩ | ⟨hrec, hcases⟩ := deleteOne_cases k rfc store gone item
  · refine ⟨_, _, heq, fun _ h => h, ?_, ?_⟩
    · intro id hid hr
      rw [hstops hl (by simp [hc]) id hid, hc] at hr
      cases hr
    · intro hwithin _ _
      have hrefused : TargetRefused k rfc store item :=
        ⟨item.snapshotId, mem_planTargets.mpr (.inl ⟨rfl, hl⟩), by simp [hc]⟩
      exact ⟨hwithin, by simp [hrefused]⟩
  · obtain ⟨hheal, heq⟩ | ⟨e, hheal, hr, heq⟩ | ⟨e, c, hheal, hr, heq⟩ := hcases
    · -- The anchor resolves to nothing any more.
      have hsingle : ∀ e, healOpen item = true → healCandidates rfc store item = [e] →
          e.id ∈ gone := by
        intro e hopen hc
        by_contra hg
        simp [healNow_of_single hopen hc hg] at hheal
      refine ⟨_, _, heq, fun _ h => List.mem_append_left _ h, ?_, ?_⟩
      · exact covers_of_gone (fun e hopen hc _ => List.mem_append_left _ (hsingle e hopen hc))
          (by simp)
      · intro hwithin hitem _
        have hremovable := hwithin.recorded hitem hrec
        refine ⟨hwithin.append hremovable, ?_⟩
        rw [targetRefused_iff fun hl => (hremovable hl).2]
        simp only [true_iff]
        rintro ⟨hopen, e, hc, hr⟩
        have he : e ∈ healCandidates rfc store item := by simp [hc]
        exact hr (hwithin _ (hsingle e hopen hc) ⟨e, (mem_healCandidates.mp he).1, rfl⟩).2
    · -- The anchor resolves to an entry that is deleted.
      refine ⟨_, _, heq, fun _ h => List.mem_append_left _ (List.mem_append_left _ h), ?_, ?_⟩
      · refine covers_of_gone (fun e' hopen hc _ => ?_) (by simp)
        simp [eq_of_healNow_single hheal hc]
      · intro hwithin hitem hstays
        have hremovable := hwithin.recorded hitem hrec
        refine ⟨(hwithin.append hremovable).append fun _ => ?_, ?_⟩
        · by_cases hone : (healCandidates rfc store item).length = 1
          · obtain ⟨e', hc⟩ := List.length_eq_one_iff.mp hone
            obtain rfl := eq_of_healNow_single hheal hc
            exact ⟨⟨item, hitem, mem_planTargets_heal (healNow_eq_some.mp hheal).1 hc⟩, hr⟩
          · exact hstays.removable hwithin hheal hone
        · rw [targetRefused_iff fun hl => (hremovable hl).2]
          simp only [true_iff]
          rintro ⟨hopen, e', hc, hr'⟩
          rw [← eq_of_healNow_single hheal hc] at hr'
          exact hr' hr
    · -- The anchor resolves to an entry that kopia refuses.
      refine ⟨_, _, heq, fun _ h => List.mem_append_left _ h, ?_, ?_⟩
      · refine covers_of_gone (fun e' hopen hc hr' => ?_) (by simp)
        rw [← eq_of_healNow_single hheal hc, hr] at hr'
        cases hr'
      · intro hwithin hitem hstays
        have hremovable := hwithin.recorded hitem hrec
        refine ⟨hwithin.append hremovable, ?_⟩
        have hone : (healCandidates rfc store item).length = 1 := by
          by_contra hone
          have := (hstays.removable hwithin hheal hone).2
          simp [hr] at this
        obtain ⟨e', hc⟩ := List.length_eq_one_iff.mp hone
        obtain rfl := eq_of_healNow_single hheal hc
        have hrefused : TargetRefused k rfc store item :=
          ⟨e.id, mem_planTargets_heal (healNow_eq_some.mp hheal).1 hc, by simp [hr]⟩
        simp [hrefused]

theorem deleteInOrder_run (items : List SnapshotDeleteItem) {turns : List SnapshotDeleteItem}
    (hstops : ∀ item ∈ turns, StopsClean k rfc store item) (gone : List String) :
    ∃ gone', (deleteInOrder k rfc (without store gone) turns).2 = without store gone' ∧
      (∀ id ∈ gone, id ∈ gone') ∧
      (∀ item ∈ turns, ∀ id ∈ planTargets rfc store item, k.refuses id = none → id ∈ gone') ∧
      (Within k rfc store items gone → (∀ item ∈ turns, item ∈ items) →
        (∀ item ∈ turns, StaysAmbiguous k rfc store items item) →
        Within k rfc store items gone' ∧
          List.Forall₂ (fun r item => r = .ok () ↔ ¬ TargetRefused k rfc store item)
            (deleteInOrder k rfc (without store gone) turns).1 turns) := by
  induction turns generalizing gone with
  | nil => exact ⟨gone, rfl, fun _ h => h, by simp, fun h _ _ => ⟨h, .nil⟩⟩
  | cons item rest ih =>
    obtain ⟨r, mid, heq, hmid, hcovers, hstep⟩ :=
      deleteOne_step items gone (hstops item List.mem_cons_self)
    obtain ⟨gone', hend, hgone, hrest, hrun⟩ :=
      ih (fun item h => hstops item (List.mem_cons_of_mem _ h)) mid
    rw [deleteInOrder, heq]
    refine ⟨gone', hend, fun id h => hgone id (hmid id h), ?_, ?_⟩
    · intro item' hitem' id hid hr
      rcases List.mem_cons.mp hitem' with rfl | hitem'
      · exact hgone id (hcovers id hid hr)
      · exact hrest item' hitem' id hid hr
    · intro hwithin hmem hstays
      obtain ⟨hwithin', hr⟩ := hstep hwithin (hmem item List.mem_cons_self)
        (hstays item List.mem_cons_self)
      obtain ⟨hlast, hall⟩ := hrun hwithin' (fun i h => hmem i (List.mem_cons_of_mem _ h))
        fun i h => hstays i (List.mem_cons_of_mem _ h)
      exact ⟨hlast, .cons hr hall⟩

theorem mem_deletable_plan {id : String} :
    id ∈ deletable k (planBatchDelete rfc items store).ids ↔ Removable k rfc store items id := by
  rw [mem_deletable, mem_planBatchDelete_ids, Removable]

theorem deleteInOrder_subset (hstops : ∀ item ∈ items, StopsClean k rfc store item)
    {e : SnapshotListEntry} (he : e ∈ (deleteInOrder k rfc store items).2) :
    e ∈ without store (deletable k (planBatchDelete rfc items store).ids) := by
  obtain ⟨gone', hend, -, hcovers, -⟩ := deleteInOrder_run items hstops []
  rw [without_nil] at hend
  rw [hend] at he
  obtain ⟨hstore, hgone⟩ := mem_without.mp he
  refine mem_without.mpr ⟨hstore, fun hid => hgone ?_⟩
  obtain ⟨⟨item, hitem, hid⟩, hr⟩ := mem_deletable_plan.mp hid
  exact hcovers item hitem e.id hid hr

theorem deleteInOrder_eq {turns : List SnapshotDeleteItem} (hturns : turns.Perm items)
    (hstops : ∀ item ∈ items, StopsClean k rfc store item)
    (hstays : ∀ item ∈ items, StaysAmbiguous k rfc store items item) :
    (deleteInOrder k rfc store turns).2 =
        without store (deletable k (planBatchDelete rfc items store).ids) ∧
      List.Forall₂ (fun r item => r = .ok () ↔ ¬ TargetRefused k rfc store item)
        (deleteInOrder k rfc store turns).1 turns := by
  have hmem : ∀ item ∈ turns, item ∈ items := fun item h => hturns.mem_iff.mp h
  obtain ⟨gone', hend, -, hcovers, hrun⟩ :=
    deleteInOrder_run items (fun item h => hstops item (hmem item h)) []
  rw [without_nil] at hend hrun
  obtain ⟨hwithin, hall⟩ := hrun (by simp [Within]) hmem fun item h => hstays item (hmem item h)
  refine ⟨?_, hall⟩
  rw [hend]
  apply without_congr
  intro id hl
  rw [mem_deletable_plan]
  constructor
  · intro hid
    exact hwithin id hid hl
  · rintro ⟨⟨item, hitem, hid⟩, hr⟩
    exact hcovers item (hturns.mem_iff.mpr hitem) id hid hr

theorem deleteInOrder_concat (turns : List SnapshotDeleteItem) (last : SnapshotDeleteItem) :
    (deleteInOrder k rfc store (turns ++ [last])).2 =
      (deleteOne k rfc (deleteInOrder k rfc store turns).2 last).2 := by
  induction turns generalizing store with
  | nil => rfl
  | cons item rest ih => exact ih

/-- A member whose matches come down to one entry deletes that entry when its
turn comes last. -/
theorem deleteInOrder_ne_of_last (hfree : ∀ id, k.refuses id = none) (hitem : item ∈ items)
    (hstays : ¬ StaysAmbiguous k rfc store items item) :
    ∃ turns, turns.Perm items ∧ (deleteInOrder k rfc store turns).2 ≠
      without store (deletable k (planBatchDelete rfc items store).ids) := by
  simp only [StaysAmbiguous, Classical.not_imp, ne_eq, not_not] at hstays
  obtain ⟨hopen, hnot, hone⟩ := hstays
  obtain ⟨e, he⟩ := List.length_eq_one_iff.mp hone
  have hmem : e ∈ healCandidates rfc store item ∧ ¬ Removable k rfc store items e.id := by
    have : e ∈ (healCandidates rfc store item).filter
        fun e => ¬ Removable k rfc store items e.id := by
      rw [he]
      exact List.mem_singleton_self e
    simpa using this
  have hstore : e ∈ store := (mem_healCandidates.mp hmem.1).1
  refine ⟨items.erase item ++ [item], ?_, fun heq => ?_⟩
  · exact (List.perm_append_singleton item _).trans (List.perm_cons_erase hitem).symm
  have hkept : e ∈ (deleteInOrder k rfc store (items.erase item ++ [item])).2 := by
    rw [heq]
    exact mem_without.mpr ⟨hstore, fun h => hmem.2 (mem_deletable_plan.mp h)⟩
  have hstops : ∀ i, StopsClean k rfc store i := fun _ _ h => absurd (hfree _) h
  obtain ⟨gone, hend, -, hcovers, -⟩ := deleteInOrder_run items
    (fun i (_ : i ∈ items.erase item) => hstops i) []
  rw [without_nil] at hend
  rw [deleteInOrder_concat, hend] at hkept
  by_cases hg : e.id ∈ gone
  · -- An earlier member has already taken it.
    obtain ⟨r, gone', hstep, hgone, -⟩ := deleteOne_step items gone (hstops item)
    rw [hstep] at hkept
    exact (mem_without.mp hkept).2 (hgone _ hg)
  · -- Every other match is a target of an earlier member.
    have hleft : (healCandidates rfc store item).filter (fun e => e.id ∉ gone) = [e] := by
      rw [← he]
      apply List.filter_congr
      intro x hx
      rw [decide_eq_decide]
      constructor
      · rintro hxg ⟨⟨item', hitem', hid⟩, hr⟩
        have hne : item' ≠ item := by
          rintro rfl
          obtain ⟨hrec, -⟩ | ⟨-, e', hc, -⟩ := mem_planTargets.mp hid
          · exact (mem_healCandidates.mp hx).2.2.1 hrec
          · exact hnot (by simp [hc])
        exact hxg (hcovers item' ((List.mem_erase_of_ne hne).mpr hitem') x.id hid hr)
      · intro hx'
        have : x ∈ (healCandidates rfc store item).filter
            fun e => ¬ Removable k rfc store items e.id := by
          simpa using ⟨hx, hx'⟩
        rw [he] at this
        rw [List.mem_singleton.mp this]
        exact hg
    have hheal : healNow rfc store gone item = some e := healNow_eq_some.mpr ⟨hopen, hleft⟩
    obtain ⟨c, -, -, hc, -⟩ | ⟨-, ⟨hnone, -⟩ | ⟨e', hsome, -, heq'⟩ | ⟨e', c, -, hc, -⟩⟩ :=
      deleteOne_cases k rfc store gone item
    · simp [hfree] at hc
    · simp [hheal] at hnone
    · obtain rfl := Option.some.inj (hheal.symm.trans hsome)
      rw [heq'] at hkept
      exact (mem_without.mp hkept).2 (by simp)
    · simp [hfree] at hc

theorem deleteOne_ok (hfree : ∀ id, k.refuses id = none) :
    (deleteOne k rfc store item).1 = .ok () := by
  have hcases := deleteOne_cases k rfc store [] item
  rw [without_nil] at hcases
  obtain ⟨c, -, -, hc, -⟩ | ⟨-, ⟨-, heq⟩ | ⟨e, -, -, heq⟩ | ⟨e, c, -, hc, -⟩⟩ := hcases
  · simp [hfree] at hc
  · rw [heq]
  · rw [heq]
  · simp [hfree] at hc

theorem deleteInOrder_ok (hfree : ∀ id, k.refuses id = none) {turns : List SnapshotDeleteItem} :
    ∀ r ∈ (deleteInOrder k rfc store turns).1, r = .ok () := by
  induction turns generalizing store with
  | nil => simp [deleteInOrder]
  | cons item rest ih =>
    intro r hr
    rcases List.mem_cons.mp hr with rfl | hr
    · exact deleteOne_ok hfree
    · exact ih r hr

end Run

/-- The batch path against the single path, where no refusal is retryable and
a refused recorded id has no second target. The single path removes all that
the batch removes. Both remove the same, with the same outcome for each member,
when no ambiguous anchor comes down to one match; and where nothing is refused
this is exactly when the order of the members does not matter. -/
theorem batch_delete_refines_delete_one (k : KopiaDelete)
    (hclass : ∀ id c, k.refuses id = some c → c.isRetryable = false) (size : Nat)
    (hsize : 0 < size) (rfc : Rfc3339) (store : List SnapshotListEntry)
    (items : List SnapshotDeleteItem) (hstops : ∀ item ∈ items, StopsClean k rfc store item) :
    let batch := deleteBatchIn size k rfc store items
    let single := deleteInOrder k rfc store items
    (∀ e ∈ single.2, e ∈ batch.store) ∧
      ((∀ item ∈ items, StaysAmbiguous k rfc store items item) →
        single.2 = batch.store ∧ single.1.length = items.length ∧
          ∀ (m : Nat) r, single.1[m]? = some r → (r = .ok () ↔ m ∉ batch.failed)) ∧
      ((∀ id, k.refuses id = none) →
        batch.failed = ∅ ∧ (∀ r ∈ single.1, r = .ok ()) ∧
          ((∀ turns, turns.Perm items → (deleteInOrder k rfc store turns).2 = batch.store) ↔
            ∀ item ∈ items, StaysAmbiguous k rfc store items item)) := by
  obtain ⟨hbatch, hfailed⟩ := deleteBatchIn_spec hclass hsize rfc store items
  simp only [hbatch]
  refine ⟨fun e he => deleteInOrder_subset hstops he, fun hstays => ?_, fun hfree => ⟨?_, ?_, ?_⟩⟩
  · obtain ⟨heq, hall⟩ := deleteInOrder_eq (List.Perm.refl items) hstops hstays
    refine ⟨heq, hall.length_eq, fun m r hr => ?_⟩
    obtain ⟨hm, rfl⟩ := List.getElem?_eq_some_iff.mp hr
    have hm' : m < items.length := hall.length_eq ▸ hm
    have houtcome := (List.forall₂_iff_get.mp hall).2 m hm hm'
    simp only [List.get_eq_getElem] at houtcome
    rw [houtcome, hfailed]
    simp [List.getElem?_eq_getElem hm']
  · ext m
    simp [hfailed, TargetRefused, hfree]
  · exact deleteInOrder_ok hfree
  · constructor
    · intro hall item hitem
      by_contra hnot
      obtain ⟨turns, hperm, hne⟩ := deleteInOrder_ne_of_last hfree hitem hnot
      exact hne (hall turns hperm)
    · intro hstays turns hperm
      exact (deleteInOrder_eq hperm hstops hstays).1

/-- Kopia refuses the manifest of one member, which a stale member heals to as well. -/
theorem batch_delete_refines_delete_one_stale :
    let k := KopiaDelete.refusing fun id => if id = "held" then some .accessDenied else none
    let store := [exampleManifest "held", { exampleManifest "free" with startTime := 0 }]
    let items := [exampleItem "stale" (some "2026-06-19T05:54:19Z"), exampleItem "held" none,
      exampleItem "free" none]
    (∀ id c, k.refuses id = some c → c.isRetryable = false) ∧ 0 < snapshotDeleteChunk ∧
      (∀ item ∈ items, StopsClean k exampleRfc store item) ∧
      (∀ item ∈ items, StaysAmbiguous k exampleRfc store items item) ∧
      (deleteInOrder k exampleRfc store items).2 = [exampleManifest "held"] ∧
      (deleteInOrder k exampleRfc store items).2 =
        (deleteBatchIn snapshotDeleteChunk k exampleRfc store items).store := by
  intro k store items
  have hclass : ∀ id c, k.refuses id = some c → c.isRetryable = false := by
    intro id c h
    obtain ⟨-, hc⟩ := Option.ite_none_right_eq_some.mp h
    cases hc
    rfl
  have hstops : ∀ item ∈ items, StopsClean k exampleRfc store item := by decide
  have hstays : ∀ item ∈ items, StaysAmbiguous k exampleRfc store items item := by decide
  exact ⟨hclass, by decide, hstops, hstays, by decide,
    ((batch_delete_refines_delete_one k hclass _ (by decide) exampleRfc store items hstops).2.1
      hstays).1⟩

/-- Two manifests fit a stale anchor. The batch leaves the second alone; one by
one, the delete of the first makes the anchor match the second only. -/
theorem single_path_heals_once_unambiguous :
    let k := KopiaDelete.refusing fun _ => none
    let store := [exampleManifest "x", exampleManifest "y"]
    let items := [exampleItem "x" none, exampleItem "stale" (some "2026-06-19T05:54:19Z")]
    (deleteBatchIn snapshotDeleteChunk k exampleRfc store items).store = [exampleManifest "y"] ∧
      (deleteInOrder k exampleRfc store items).2 = [] := by
  decide

end Kopiur
