import Mathlib.Data.List.Induction
import Mathlib.Data.List.Nodup
import Kopiur.Lib.Groups
import Kopiur.Mover.Resolve

/-!
# Planning a batch delete

A batch is planned against one listing. Each member targets its recorded id
when the listing holds it, and the manifest its anchor resolves to when a pin
rewrote the recorded one. Members that target nothing are already done.
-/

namespace Kopiur

open Kopiur.Lib (groups lookup_groups)

structure SnapshotDeleteItem where
  snapshotId : String
  anchor : SnapshotAnchor
deriving DecidableEq

def anchorSelfHealAllowed (anchor : SnapshotAnchor) : Bool := anchor.startTime.isSome

structure HealedId where
  member : Nat
  recorded : String
  live : String
deriving DecidableEq

structure BatchDeletePlan where
  ids : List String := []
  membersOf : List (List Nat) := []
  alreadyAbsent : List Nat := []
  healed : List HealedId := []
deriving DecidableEq

/-- Attribute a member to an id. The index gives the position of every id
planned so far. -/
def BatchDeletePlan.target (plan : BatchDeletePlan) (index : List (String × Nat)) (id : String)
    (member : Nat) : BatchDeletePlan × List (String × Nat) :=
  let (plan, index, pos) :=
    match index.lookup id with
    | some pos => (plan, index, pos)
    | none =>
      ({ plan with ids := plan.ids ++ [id], membersOf := plan.membersOf ++ [[]] },
        (id, plan.ids.length) :: index, plan.ids.length)
  let push := fun members : List Nat =>
    if members.getLast? = some member then members else members ++ [member]
  ({ plan with membersOf := plan.membersOf.modify pos push }, index)

def byPath (listing : List SnapshotListEntry) : List (String × List SnapshotListEntry) :=
  groups ((completeOnly listing).map fun e => (e.source.path, e))

def selfHealTarget (rfc : Rfc3339) (item : SnapshotDeleteItem)
    (byPath : List (String × List SnapshotListEntry)) : Option String :=
  let anchor := item.anchor
  if !anchorSelfHealAllowed anchor then none
  else do
    let entries ← byPath.lookup anchor.sourcePath
    let candidates := entries.filter fun e => e.id != item.snapshotId
    let e ← matchCurrentManifest candidates anchor.sourcePath (anchor.startInstant rfc)
      anchor.identityFilter
    pure e.id

/-- One turn of the planning loop. -/
def planMember (rfc : Rfc3339) (listing : List SnapshotListEntry)
    (state : BatchDeletePlan × List (String × Nat)) (entry : SnapshotDeleteItem × Nat) :
    BatchDeletePlan × List (String × Nat) :=
  let (item, member) := entry
  let present := listing.any fun e => e.id == item.snapshotId
  let (plan, index) := if present then state.1.target state.2 item.snapshotId member else state
  match selfHealTarget rfc item (byPath listing) with
  | some live =>
    let (plan, index) := plan.target index live member
    ({ plan with
        healed := plan.healed ++ [{ member, recorded := item.snapshotId, live }] }, index)
  | none =>
    if present then (plan, index)
    else ({ plan with alreadyAbsent := plan.alreadyAbsent ++ [member] }, index)

def planBatchDelete (rfc : Rfc3339) (items : List SnapshotDeleteItem)
    (listing : List SnapshotListEntry) : BatchDeletePlan :=
  (items.zipIdx.foldl (planMember rfc listing) ({}, [])).1

-- What one member targets

/-- The complete entries, other than the recorded one, that a member's anchor
matches. -/
def healCandidates (rfc : Rfc3339) (listing : List SnapshotListEntry) (item : SnapshotDeleteItem) :
    List SnapshotListEntry :=
  listing.filter fun e => e.complete && e.id != item.snapshotId && item.anchor.fits rfc e

def healOpen (item : SnapshotDeleteItem) : Bool :=
  anchorSelfHealAllowed item.anchor && !item.anchor.sourcePath.isEmpty

def planTargets (rfc : Rfc3339) (listing : List SnapshotListEntry) (item : SnapshotDeleteItem) :
    List String :=
  (if listing.any fun e => e.id == item.snapshotId then [item.snapshotId] else []) ++
    (selfHealTarget rfc item (byPath listing)).toList

theorem lookup_byPath (listing : List SnapshotListEntry) (path : String)
    (vs : List SnapshotListEntry) :
    (byPath listing).lookup path = some vs ↔
      vs = listing.filter (fun e => e.complete && e.source.path == path) ∧ vs ≠ [] := by
  have hfilter : (((completeOnly listing).map fun e => (e.source.path, e)).filter
      fun e => e.1 = path).map Prod.snd =
        listing.filter fun e => e.complete && e.source.path == path := by
    simp only [completeOnly, List.filter_map, List.map_map, List.filter_filter, Function.comp_def,
      List.map_id']
    congr 1
    funext e
    rw [Bool.and_comm]
    rfl
  rw [byPath, lookup_groups, hfilter]

theorem selfHealTarget_eq (rfc : Rfc3339) (listing : List SnapshotListEntry)
    (item : SnapshotDeleteItem) :
    selfHealTarget rfc item (byPath listing) =
      if healOpen item then (unique (healCandidates rfc listing item)).map SnapshotListEntry.id
      else none := by
  rw [selfHealTarget, healOpen]
  cases anchorSelfHealAllowed item.anchor with
  | false => rfl
  | true =>
    cases hlook : (byPath listing).lookup item.anchor.sourcePath with
    | none =>
      -- No complete entry under the path, hence no candidate.
      have hnil : healCandidates rfc listing item = [] := by
        rw [healCandidates, List.filter_eq_nil_iff]
        intro e he hc
        simp only [Bool.and_eq_true] at hc
        have hm : listing.filter
            (fun e => e.complete && e.source.path == item.anchor.sourcePath) ≠ [] := by
          intro hnil
          rw [List.filter_eq_nil_iff] at hnil
          exact hnil e he (by simp [hc.1.1, SnapshotAnchor.fits_path hc.2])
        simp [(lookup_byPath listing _ _).mpr ⟨rfl, hm⟩] at hlook
      simp [hnil, unique]
    | some vs =>
      obtain ⟨rfl, -⟩ := (lookup_byPath listing _ _).mp hlook
      have hcand : ((listing.filter fun e => e.complete && e.source.path == item.anchor.sourcePath).filter
          fun e => e.id != item.snapshotId).filter (item.anchor.fits rfc) =
            healCandidates rfc listing item := by
        rw [healCandidates, List.filter_filter, List.filter_filter]
        apply List.filter_congr
        intro e _
        cases hfit : item.anchor.fits rfc e with
        | false => simp
        | true => simp [SnapshotAnchor.fits_path hfit, Bool.and_comm]
      simp only [Bool.not_true, Bool.false_eq_true, if_false, Option.bind_eq_bind, Option.bind_some,
        matchCurrentManifest_eq, hcand, Bool.true_and]
      cases item.anchor.sourcePath.isEmpty with
      | true => simp
      | false => simp [Option.map_eq_bind]

variable {rfc : Rfc3339} {listing : List SnapshotListEntry} {item : SnapshotDeleteItem}
  {id : String}

theorem mem_planTargets :
    id ∈ planTargets rfc listing item ↔
      (id = item.snapshotId ∧ listed listing id) ∨
        (healOpen item = true ∧ ∃ e, healCandidates rfc listing item = [e] ∧ e.id = id) := by
  have hheal : id ∈ (selfHealTarget rfc item (byPath listing)).toList ↔
      healOpen item = true ∧ ∃ e, healCandidates rfc listing item = [e] ∧ e.id = id := by
    rw [selfHealTarget_eq]
    cases healOpen item with
    | false => simp
    | true => simp [unique_eq_some]
  rw [planTargets, List.mem_append, hheal]
  apply or_congr_left
  by_cases hp : listing.any fun e => e.id == item.snapshotId
  · rw [if_pos hp, List.mem_singleton]
    have hl : listed listing item.snapshotId := by simpa [listed] using hp
    exact ⟨fun h => ⟨h, h ▸ hl⟩, And.left⟩
  · rw [if_neg hp]
    have hl : ¬ listed listing item.snapshotId := by simpa [listed] using hp
    exact ⟨fun h => absurd h List.not_mem_nil, fun h => absurd (h.1 ▸ h.2) hl⟩

theorem mem_healCandidates {e : SnapshotListEntry} :
    e ∈ healCandidates rfc listing item ↔
      e ∈ listing ∧ e.complete = true ∧ e.id ≠ item.snapshotId ∧ item.anchor.fits rfc e = true := by
  simp [healCandidates, and_assoc]

theorem planTargets_listed (h : id ∈ planTargets rfc listing item) :
    listed listing id := by
  obtain ⟨-, h⟩ | ⟨-, e, hc, rfl⟩ := mem_planTargets.mp h
  · exact h
  · have he : e ∈ healCandidates rfc listing item := by simp [hc]
    exact ⟨e, (mem_healCandidates.mp he).1, rfl⟩

theorem selfHealTarget_ne {live : String}
    (h : selfHealTarget rfc item (byPath listing) = some live) :
    item.snapshotId ≠ live := by
  rw [selfHealTarget_eq] at h
  cases hopen : healOpen item with
  | false => simp [hopen] at h
  | true =>
    obtain ⟨e, hc, rfl⟩ := Option.map_eq_some_iff.mp (by simpa [hopen] using h)
    have he : e ∈ healCandidates rfc listing item := by simp [unique_eq_some.mp hc]
    exact (mem_healCandidates.mp he).2.2.1.symm

-- The planning loop

def attributed (pairs : List (Nat × String)) (id : String) : List Nat :=
  (pairs.filter fun p => p.2 == id).map Prod.fst

variable {pairs : List (Nat × String)}

theorem mem_attributed {member : Nat} :
    member ∈ attributed pairs id ↔ (member, id) ∈ pairs := by
  simp [attributed]

theorem attributed_append (pairs : List (Nat × String)) (member : Nat) (id id' : String) :
    attributed (pairs ++ [(member, id)]) id' =
      attributed pairs id' ++ if id = id' then [member] else [] := by
  by_cases h : id = id' <;> simp [attributed, List.filter_append, h]

/-- The plan attributes exactly the given pairs of member and id. -/
structure Attributes (pairs : List (Nat × String)) (plan : BatchDeletePlan)
    (index : List (String × Nat)) : Prop where
  distinct : plan.ids.Nodup
  mem_ids : ∀ id, id ∈ plan.ids ↔ ∃ member, (member, id) ∈ pairs
  rows : plan.membersOf = plan.ids.map (attributed pairs)
  lookup : ∀ id pos, index.lookup id = some pos ↔ plan.ids[pos]? = some id

theorem modify_attributed {ids : List String} {member pos : Nat} (distinct : ids.Nodup)
    (hid : ids[pos]? = some id) (fresh : (member, id) ∉ pairs) :
    ((ids.map (attributed pairs)).modify pos fun members =>
        if members.getLast? = some member then members else members ++ [member]) =
      ids.map (attributed (pairs ++ [(member, id)])) := by
  have hlast : (attributed pairs id).getLast? ≠ some member := fun hl =>
    fresh (mem_attributed.mp (List.mem_of_getLast? hl))
  apply List.ext_getElem?
  intro j
  rw [List.getElem?_modify, List.getElem?_map, List.getElem?_map]
  by_cases hj : pos = j
  · subst hj
    simp [hid, attributed_append, hlast]
  · cases hj' : ids[j]? with
    | none => simp [hj]
    | some id' =>
      have hne : id ≠ id' := by
        rintro rfl
        exact hj ((List.getElem?_inj (List.getElem?_eq_some_iff.mp hid).1 distinct).mp
          (hid.trans hj'.symm))
      simp [hj, attributed_append, hne]

theorem Attributes.target_known {plan : BatchDeletePlan} {index : List (String × Nat)}
    (h : Attributes pairs plan index) {member pos : Nat} (fresh : (member, id) ∉ pairs)
    (hpos : index.lookup id = some pos) :
    Attributes (pairs ++ [(member, id)]) (plan.target index id member).1
      (plan.target index id member).2 := by
  have hid : plan.ids[pos]? = some id := (h.lookup id pos).mp hpos
  simp only [BatchDeletePlan.target, hpos]
  refine ⟨h.distinct, fun id' => ?_, ?_, h.lookup⟩
  · rw [h.mem_ids]
    constructor
    · rintro ⟨m, hm⟩
      exact ⟨m, List.mem_append_left _ hm⟩
    · rintro ⟨m, hm⟩
      rcases List.mem_append.mp hm with hm | hm
      · exact ⟨m, hm⟩
      · obtain ⟨rfl, rfl⟩ := Prod.mk.inj (List.mem_singleton.mp hm)
        exact (h.mem_ids _).mp (List.mem_of_getElem? hid)
  · rw [h.rows, modify_attributed h.distinct hid fresh]

theorem Attributes.target_new {plan : BatchDeletePlan} {index : List (String × Nat)}
    (h : Attributes pairs plan index) {member : Nat} (fresh : (member, id) ∉ pairs)
    (hnew : index.lookup id = none) :
    Attributes (pairs ++ [(member, id)]) (plan.target index id member).1
      (plan.target index id member).2 := by
  have hid : id ∉ plan.ids := by
    intro hm
    obtain ⟨pos, hpos⟩ := List.mem_iff_getElem?.mp hm
    simp [(h.lookup id pos).mpr hpos] at hnew
  have hdistinct : (plan.ids ++ [id]).Nodup := by
    rw [List.nodup_append]
    refine ⟨h.distinct, by simp, ?_⟩
    rintro a ha b hb rfl
    exact hid (List.mem_singleton.mp hb ▸ ha)
  have hrows : plan.membersOf ++ [[]] = (plan.ids ++ [id]).map (attributed pairs) := by
    have hnone : attributed pairs id = [] := by
      rw [List.eq_nil_iff_forall_not_mem]
      intro m hm
      exact hid ((h.mem_ids id).mpr ⟨m, mem_attributed.mp hm⟩)
    rw [List.map_append, List.map_singleton, hnone, h.rows]
  have hpos : ∀ id' pos, (plan.ids ++ [id])[pos]? = some id' ↔
      ((id, plan.ids.length) :: index).lookup id' = some pos := by
    intro id' pos
    rw [List.lookup_cons, List.getElem?_append]
    by_cases heq : id' = id
    · subst heq
      have hout : plan.ids[pos]? ≠ some id' := fun hget => hid (List.mem_of_getElem? hget)
      rw [beq_self_eq_true]
      grind
    · rw [beq_eq_false_iff_ne.mpr heq, h.lookup]
      grind
  simp only [BatchDeletePlan.target, hnew]
  refine ⟨hdistinct, fun id' => ?_, ?_, fun id' pos => (hpos id' pos).symm⟩
  · simp only [List.mem_append, List.mem_singleton, h.mem_ids, Prod.mk.injEq, exists_or,
      exists_eq_left]
  · rw [hrows, modify_attributed hdistinct (by simp) fresh]

theorem Attributes.target {plan : BatchDeletePlan} {index : List (String × Nat)}
    (h : Attributes pairs plan index) {member : Nat} (fresh : (member, id) ∉ pairs) :
    Attributes (pairs ++ [(member, id)]) (plan.target index id member).1
      (plan.target index id member).2 := by
  cases hlook : index.lookup id with
  | none => exact h.target_new fresh hlook
  | some pos => exact h.target_known fresh hlook

theorem target_alreadyAbsent (plan : BatchDeletePlan) (index : List (String × Nat)) (id : String)
    (member : Nat) : (plan.target index id member).1.alreadyAbsent = plan.alreadyAbsent := by
  rw [BatchDeletePlan.target]
  cases index.lookup id <;> rfl

theorem planMember_spec (rfc : Rfc3339) (listing : List SnapshotListEntry) {plan : BatchDeletePlan}
    {index : List (String × Nat)} (h : Attributes pairs plan index) (item : SnapshotDeleteItem)
    {member : Nat} (fresh : ∀ id, (member, id) ∉ pairs) :
    let next := planMember rfc listing (plan, index) (item, member)
    Attributes (pairs ++ (planTargets rfc listing item).map (member, ·)) next.1 next.2 ∧
      next.1.alreadyAbsent =
        plan.alreadyAbsent ++ if planTargets rfc listing item = [] then [member] else [] := by
  have htargets := planTargets.eq_1 rfc listing item
  generalize planTargets rfc listing item = targets at htargets ⊢
  simp only [planMember]
  cases hheal : selfHealTarget rfc item (byPath listing) with
  | none =>
    by_cases hp : (listing.any fun e => e.id == item.snapshotId) = true
    · simp only [hp, if_true, hheal, Option.toList_none, List.append_nil] at htargets ⊢
      subst htargets
      exact ⟨h.target (fresh item.snapshotId), by simp [target_alreadyAbsent]⟩
    · simp only [hp, Bool.false_eq_true, if_false, hheal, Option.toList_none,
        List.append_nil] at htargets ⊢
      subst htargets
      exact ⟨⟨h.distinct, by simpa using h.mem_ids, by simpa using h.rows, h.lookup⟩, by simp⟩
  | some live =>
    by_cases hp : (listing.any fun e => e.id == item.snapshotId) = true
    · simp only [hp, if_true, hheal, Option.toList_some] at htargets ⊢
      subst htargets
      have hfresh : (member, live) ∉ pairs ++ [(member, item.snapshotId)] := by
        simp [fresh, (selfHealTarget_ne hheal).symm]
      have ht := (h.target (fresh item.snapshotId)).target hfresh
      refine ⟨⟨ht.distinct, ?_, ?_, ht.lookup⟩, by simp [target_alreadyAbsent]⟩
      · simpa using ht.mem_ids
      · simpa using ht.rows
    · simp only [hp, Bool.false_eq_true, if_false, hheal, Option.toList_some,
        List.nil_append] at htargets ⊢
      subst htargets
      have ht := h.target (fresh live)
      exact ⟨⟨ht.distinct, ht.mem_ids, ht.rows, ht.lookup⟩, by simp [target_alreadyAbsent]⟩

def attributions (rfc : Rfc3339) (listing : List SnapshotListEntry)
    (entries : List (SnapshotDeleteItem × Nat)) : List (Nat × String) :=
  entries.flatMap fun entry => (planTargets rfc listing entry.1).map (entry.2, ·)

theorem mem_attributions {entries : List (SnapshotDeleteItem × Nat)} {member : Nat} :
    (member, id) ∈ attributions rfc listing entries ↔
      ∃ item, (item, member) ∈ entries ∧ id ∈ planTargets rfc listing item := by
  simp only [attributions, List.mem_flatMap, List.mem_map, Prod.mk.injEq, Prod.exists]
  constructor
  · rintro ⟨item, m, hm, id', hid, rfl, rfl⟩
    exact ⟨item, hm, hid⟩
  · rintro ⟨item, hm, hid⟩
    exact ⟨item, member, hm, id, hid, rfl, rfl⟩

def absentMembers (rfc : Rfc3339) (listing : List SnapshotListEntry)
    (entries : List (SnapshotDeleteItem × Nat)) : List Nat :=
  (entries.filter fun entry => planTargets rfc listing entry.1 = []).map Prod.snd

theorem planLoop_spec (rfc : Rfc3339) (listing : List SnapshotListEntry)
    (entries : List (SnapshotDeleteItem × Nat)) (distinct : (entries.map Prod.snd).Nodup) :
    let last := entries.foldl (planMember rfc listing) ({}, [])
    Attributes (attributions rfc listing entries) last.1 last.2 ∧
      last.1.alreadyAbsent = absentMembers rfc listing entries := by
  induction entries using List.reverseRecOn with
  | nil => exact ⟨⟨List.nodup_nil, by simp [attributions], rfl, by simp⟩, rfl⟩
  | append_singleton entries entry ih =>
    obtain ⟨item, member⟩ := entry
    rw [List.map_append, List.nodup_append] at distinct
    obtain ⟨hattr, habsent⟩ := ih distinct.1
    have fresh : ∀ id, (member, id) ∉ attributions rfc listing entries := by
      intro id hm
      obtain ⟨item', hm, -⟩ := mem_attributions.mp hm
      exact distinct.2.2 member (List.mem_map.mpr ⟨_, hm, rfl⟩) member (by simp) rfl
    rw [List.foldl_append, List.foldl_cons, List.foldl_nil]
    obtain ⟨hstep, hdone⟩ := planMember_spec rfc listing hattr item fresh
    refine ⟨by simpa [attributions] using hstep, ?_⟩
    rw [hdone, habsent]
    by_cases hnil : planTargets rfc listing item = [] <;>
      simp [absentMembers, List.filter_append, hnil]

theorem planBatchDelete_attributes (rfc : Rfc3339) (items : List SnapshotDeleteItem)
    (listing : List SnapshotListEntry) :
    (∃ index, Attributes (attributions rfc listing items.zipIdx) (planBatchDelete rfc items listing)
        index) ∧
      (planBatchDelete rfc items listing).alreadyAbsent =
        absentMembers rfc listing items.zipIdx := by
  have distinct : (items.zipIdx.map Prod.snd).Nodup := by
    rw [List.zipIdx_map_snd]
    exact List.nodup_range'
  obtain ⟨hattr, habsent⟩ := planLoop_spec rfc listing items.zipIdx distinct
  exact ⟨⟨_, hattr⟩, habsent⟩

theorem mem_planBatchDelete_ids {items : List SnapshotDeleteItem} :
    id ∈ (planBatchDelete rfc items listing).ids ↔
      ∃ item ∈ items, id ∈ planTargets rfc listing item := by
  obtain ⟨⟨index, h⟩, -⟩ := planBatchDelete_attributes rfc items listing
  rw [h.mem_ids]
  constructor
  · rintro ⟨m, hm⟩
    obtain ⟨item, hitem, hid⟩ := mem_attributions.mp hm
    exact ⟨item, List.fst_mem_of_mem_zipIdx hitem, hid⟩
  · rintro ⟨item, hitem, hid⟩
    obtain ⟨m, hm⟩ := List.mem_iff_getElem?.mp hitem
    exact ⟨m, mem_attributions.mpr ⟨item, List.mem_zipIdx_iff_getElem?.mpr hm, hid⟩⟩

-- What a readable anchor resolves to

def SnapshotAnchor.Readable (rfc : Rfc3339) (anchor : SnapshotAnchor) : Prop :=
  ∀ s, anchor.startTime = some s → ∃ t, rfc.parse s = some t

/-- A complete entry other than the recorded one that has the member's source
path, start instant and, where both are recorded, user and host. -/
structure Anchored (rfc : Rfc3339) (item : SnapshotDeleteItem) (e : SnapshotListEntry) : Prop where
  complete : e.incompleteReason = none
  other : e.id ≠ item.snapshotId
  path : e.source.path = item.anchor.sourcePath
  nonempty : item.anchor.sourcePath ≠ ""
  start : item.anchor.startInstant rfc = some e.startTime
  identity : ∀ u h, item.anchor.username = some u → item.anchor.hostname = some h →
    e.source.userName = u ∧ e.source.host = h

theorem matchesSource_iff {anchor : SnapshotAnchor} {e : SnapshotListEntry} :
    matchesSource e anchor.sourcePath anchor.identityFilter = true ↔
      e.source.path = anchor.sourcePath ∧ ∀ u h, anchor.username = some u →
        anchor.hostname = some h → e.source.userName = u ∧ e.source.host = h := by
  cases hu : anchor.username <;> cases hh : anchor.hostname <;>
    simp [matchesSource, SnapshotAnchor.identityFilter, hu, hh]

theorem healOpen_iff :
    healOpen item = true ↔ (∃ s, item.anchor.startTime = some s) ∧ item.anchor.sourcePath ≠ "" := by
  simp [healOpen, anchorSelfHealAllowed, Option.isSome_iff_exists]

theorem filter_eq_singleton {α : Type} {l : List α} (h : l.Nodup) {p : α → Bool} {a : α} :
    l.filter p = [a] ↔ a ∈ l ∧ p a = true ∧ ∀ b ∈ l, p b = true → b = a := by
  rw [← List.perm_singleton,
    List.perm_ext_iff_of_nodup (List.Nodup.filter p h) (List.nodup_singleton a)]
  simp only [List.mem_filter, List.mem_singleton]
  constructor
  · intro hall
    exact ⟨((hall a).mpr rfl).1, ((hall a).mpr rfl).2, fun b hb hp => (hall b).mp ⟨hb, hp⟩⟩
  · rintro ⟨ha, hp, hall⟩ b
    exact ⟨fun hb => hall b hb.1 hb.2, by rintro rfl; exact ⟨ha, hp⟩⟩

theorem anchored_iff {e : SnapshotListEntry} (readable : item.anchor.Readable rfc)
    (hopen : healOpen item = true) :
    (e.complete && e.id != item.snapshotId && item.anchor.fits rfc e) = true ↔
      Anchored rfc item e := by
  obtain ⟨⟨s, hs⟩, hpath⟩ := healOpen_iff.mp hopen
  obtain ⟨t, ht⟩ := readable s hs
  have hstart : item.anchor.startInstant rfc = some t := by
    simp [SnapshotAnchor.startInstant, hs, ht]
  simp only [SnapshotAnchor.fits, hstart, Bool.and_eq_true, SnapshotListEntry.complete,
    Option.isNone_iff_eq_none, bne_iff_ne, beq_iff_eq, matchesSource_iff]
  constructor
  · rintro ⟨⟨hcomplete, hother⟩, ⟨hp, hidentity⟩, htime⟩
    exact ⟨hcomplete, hother, hp, hpath, by rw [hstart, htime], hidentity⟩
  · intro h
    have htime := h.start
    rw [hstart, Option.some.injEq] at htime
    exact ⟨⟨h.complete, h.other⟩, ⟨h.path, h.identity⟩, htime.symm⟩

theorem mem_planTargets_readable (distinct : (listing.map SnapshotListEntry.id).Nodup)
    (readable : item.anchor.Readable rfc) :
    id ∈ planTargets rfc listing item ↔
      (id = item.snapshotId ∧ listed listing id) ∨
        ∃ e ∈ listing, e.id = id ∧ Anchored rfc item e ∧
          ∀ e' ∈ listing, Anchored rfc item e' → e' = e := by
  rw [mem_planTargets]
  apply or_congr_right
  constructor
  · rintro ⟨hopen, e, hc, rfl⟩
    rw [healCandidates, filter_eq_singleton distinct.of_map] at hc
    simp only [anchored_iff readable hopen] at hc
    exact ⟨e, hc.1, rfl, hc.2.1, hc.2.2⟩
  · rintro ⟨e, he, rfl, ha, huniq⟩
    have hopen : healOpen item = true := by
      rw [healOpen_iff]
      have hstart := ha.start
      rw [SnapshotAnchor.startInstant, Option.bind_eq_some_iff] at hstart
      obtain ⟨s, hs, -⟩ := hstart
      exact ⟨⟨s, hs⟩, ha.nonempty⟩
    refine ⟨hopen, e, ?_, rfl⟩
    rw [healCandidates, filter_eq_singleton distinct.of_map]
    simp only [anchored_iff readable hopen]
    exact ⟨he, ha, huniq⟩

/-- The plan deletes what its members resolve to: their recorded ids and, for a
readable anchor, the one other complete entry the anchor describes. Each member
is either attributed to its ids or already done. -/
theorem plan_batch_delete_sound (rfc : Rfc3339) (items : List SnapshotDeleteItem)
    (listing : List SnapshotListEntry) (distinct : (listing.map SnapshotListEntry.id).Nodup) :
    let plan := planBatchDelete rfc items listing
    plan.ids.Nodup ∧ (∀ id ∈ plan.ids, listed listing id) ∧
      plan.membersOf.length = plan.ids.length ∧
      (∀ (pos : Nat) id members, plan.ids[pos]? = some id → plan.membersOf[pos]? = some members →
        members ≠ [] ∧ ∀ m : Nat, m ∈ members ↔
          ∃ item, items[m]? = some item ∧ id ∈ planTargets rfc listing item) ∧
      (∀ m < items.length,
        (m ∈ plan.alreadyAbsent ∧ ∀ members ∈ plan.membersOf, m ∉ members) ∨
          (m ∉ plan.alreadyAbsent ∧ ∃ members ∈ plan.membersOf, m ∈ members)) ∧
      (∀ item ∈ items, item.anchor.Readable rfc → ∀ id, id ∈ planTargets rfc listing item ↔
        (id = item.snapshotId ∧ listed listing id) ∨
          ∃ e ∈ listing, e.id = id ∧ Anchored rfc item e ∧
            ∀ e' ∈ listing, Anchored rfc item e' → e' = e) ∧
      (∀ item ∈ items, item.anchor.startTime = none → ∀ id ∈ planTargets rfc listing item,
        id = item.snapshotId) := by
  intro plan
  obtain ⟨⟨index, h⟩, habsent⟩ := planBatchDelete_attributes rfc items listing
  have hmem : ∀ id m, m ∈ attributed (attributions rfc listing items.zipIdx) id ↔
      ∃ item, items[m]? = some item ∧ id ∈ planTargets rfc listing item := by
    intro id m
    simp only [mem_attributed, mem_attributions, List.mem_zipIdx_iff_getElem?]
  refine ⟨h.distinct, ?_, ?_, ?_, ?_, ?_, ?_⟩
  · intro id hid
    obtain ⟨item, -, ht⟩ := mem_planBatchDelete_ids.mp hid
    exact planTargets_listed ht
  · rw [h.rows, List.length_map]
  · intro pos id members hid hmembers
    rw [h.rows, List.getElem?_map, hid, Option.map_some, Option.some.injEq] at hmembers
    subst hmembers
    refine ⟨?_, hmem id⟩
    obtain ⟨m, hm⟩ := (h.mem_ids id).mp (List.mem_of_getElem? hid)
    exact List.ne_nil_of_mem (mem_attributed.mpr hm)
  · intro m hm
    have hitem : items[m]? = some items[m] := List.getElem?_eq_getElem hm
    have hdone : m ∈ plan.alreadyAbsent ↔ planTargets rfc listing items[m] = [] := by
      rw [habsent, absentMembers]
      simp [List.mem_zipIdx_iff_getElem?, hitem]
    have hrows : (∃ members ∈ plan.membersOf, m ∈ members) ↔
        planTargets rfc listing items[m] ≠ [] := by
      rw [show plan.membersOf = _ from h.rows]
      simp only [List.mem_map, exists_exists_and_eq_and, hmem, hitem, Option.some.injEq,
        exists_eq_left']
      constructor
      · rintro ⟨id, -, hid⟩
        exact List.ne_nil_of_mem hid
      · intro hne
        obtain ⟨id, hid⟩ := List.exists_mem_of_ne_nil _ hne
        exact ⟨id, mem_planBatchDelete_ids.mpr ⟨items[m], List.getElem_mem hm, hid⟩, hid⟩
    by_cases hnil : planTargets rfc listing items[m] = []
    · refine .inl ⟨hdone.mpr hnil, fun members hmembers hin => ?_⟩
      exact hrows.mp ⟨members, hmembers, hin⟩ hnil
    · exact .inr ⟨fun hin => hnil (hdone.mp hin), hrows.mpr hnil⟩
  · intro item _ readable id
    exact mem_planTargets_readable distinct readable
  · intro item _ hnone id hid
    obtain ⟨rfl, -⟩ | ⟨hopen, -⟩ := mem_planTargets.mp hid
    · rfl
    · obtain ⟨⟨s, hs⟩, -⟩ := healOpen_iff.mp hopen
      simp [hnone] at hs

def exampleRfc : Rfc3339 :=
  ⟨fun s => if s = "2026-06-19T05:54:19Z" then some (DateTime.fromTimestamp 1781848459) else none,
    fun _ => "2026-06-19T05:54:19Z"⟩

def exampleManifest (id : String) : SnapshotListEntry :=
  { id
    source := { host := "prod", userName := "mydb", path := "/pvc/db" }
    startTime := DateTime.fromTimestamp 1781848459
    endTime := DateTime.fromTimestamp 1781848459 }

def exampleItem (id : String) (startTime : Option String) : SnapshotDeleteItem :=
  { snapshotId := id
    anchor :=
      { sourcePath := "/pvc/db"
        startTime
        username := some "mydb"
        hostname := some "prod" } }

theorem plan_batch_delete_sound_stale :
    let listing := [exampleManifest "live"]
    let items := [exampleItem "stale" (some "2026-06-19T05:54:19Z")]
    (listing.map SnapshotListEntry.id).Nodup ∧
      ∀ id ∈ (planBatchDelete exampleRfc items listing).ids, listed listing id :=
  ⟨by decide, (plan_batch_delete_sound exampleRfc _ _ (by decide)).2.1⟩

/-- With the recorded manifest still listed, its rewrite is deleted as well. -/
theorem listed_recorded_id_also_heals :
    let listing := [exampleManifest "rec", exampleManifest "live"]
    let items := [exampleItem "rec" (some "2026-06-19T05:54:19Z")]
    (listing.map SnapshotListEntry.id).Nodup ∧
      "live" ∈ (planBatchDelete exampleRfc items listing).ids ∧
      ∀ item ∈ items, item.snapshotId ≠ "live" ∧ listed listing item.snapshotId := by
  intro listing items
  refine ⟨by decide, mem_planBatchDelete_ids.mpr ⟨_, List.mem_singleton_self _, ?_⟩, by decide⟩
  exact mem_planTargets.mpr (.inr ⟨by decide, exampleManifest "live", by decide, rfl⟩)

end Kopiur
