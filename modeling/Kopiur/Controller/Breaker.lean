import Kopiur.Controller.Batch

/-!
# Peers and acknowledgments

Two facts about the pending deletions of a repository. A peer that rides
another snapshot's batch would be deleted by its own reconcile as well. And
acknowledging the newest pending deletion releases what is pending, no more.
-/

namespace Kopiur

-- Peers

/-- The facts a reconcile of `selfUid` filters its peers with. -/
def peerEligibility (selfUid : String) (threshold : Nat) (ack : Option DateTime)
    (onNamespaceDelete : NamespaceDeletePolicy) (confirmed unreadable : Finset String)
    (cache : ScheduleCache) : FireEligibility where
  selfUid := selfUid
  threshold := threshold
  ack := ack
  onNamespaceDelete := onNamespaceDelete
  terminatingNamespaces := confirmed ∪ unreadable
  unreadableNamespaces := unreadable
  scheduleSynced := cache.synced

/-- The cached owner of a peer the fire set admits leads to the same plan as
the owner its own reconcile resolves. -/
theorem planDeletion_owner_agree {cache : ScheduleCache}
    (live : String → String → Option ObjectMeta) {b : Snapshot} {ns : String}
    (hns : b.metadata.ns = some ns)
    (hsched : cache.synced = true ∨ breakerRelevant (prunedBy b.metadata.annotations) = false ∨
      scheduleOwnerRef b = none) (nsTerminating : Bool) (nsPolicy : Option NamespaceDeletePolicy)
    (breaker : BreakerState) :
    planDeletion (deletionFacts b (resolveOwnerState cache live b ns) nsTerminating nsPolicy breaker) =
      planDeletion (deletionFacts b (scheduleOwnerLookup cache b) nsTerminating nsPolicy breaker) := by
  cases hp : prunedBy b.metadata.annotations with
  | some p =>
    exact planDeletion_owner_of_pruned (f := deletionFacts b (scheduleOwnerLookup cache b)
      nsTerminating nsPolicy breaker) (by simp [deletionFacts, hp]) _
  | none =>
    have howner : resolveOwnerState cache live b ns = scheduleOwnerLookup cache b := by
      simp only [resolveOwnerState, scheduleOwnerLookup, hp, Option.isSome_none,
        Bool.false_eq_true, if_false, hns, Option.getD_some]
      cases href : scheduleOwnerRef b with
      | none => rfl
      | some owner =>
        have hsync : cache.synced = true := by simpa [hp, href, breakerRelevant] using hsched
        obtain ⟨store, hstore⟩ := Option.isSome_iff_exists.mp (cache.published hsync)
        simp [ScheduleCache.trusted, hsync, hstore]
    rw [howner]

theorem breakerState_of_fireBreakerOk {m : PendingMember} {unacked threshold : Nat}
    {ack : Option DateTime} (hext : m.external = true)
    (h : fireBreakerOk m (decide (threshold > 0) && decide (unacked ≥ threshold)) ack = true) :
    breakerState unacked threshold m.deletionTimestamp ack = .allowed := by
  cases hstate : breakerState unacked threshold m.deletionTimestamp ack with
  | allowed => rfl
  | held =>
    obtain ⟨hpos, hcount, hack⟩ := breakerState_held_iff.mp hstate
    cases ack with
    | none => simp [fireBreakerOk, hpos, hcount, hext] at h
    | some a =>
      have hle : m.deletionTimestamp ≤ a := by simpa [fireBreakerOk, hpos, hcount, hext] using h
      exact absurd hle (not_le.mpr (hack a rfl))

/-- A peer in the fired batch would itself be planned for deletion, on its own
facts and the same breaker count, threshold and acknowledgment. -/
theorem fireEligible_peer_plans_delete (snapshots : List Snapshot) (key selfUid : String)
    (cache : ScheduleCache) (live : String → String → Option ObjectMeta)
    (confirmed unreadable : Finset String) (onNamespaceDelete : NamespaceDeletePolicy)
    (threshold : Nat) (ack : Option DateTime) (now : DateTime) (m : PendingMember)
    (hm : m ∈ fireEligible
      (pendingMembers snapshots key (scheduleOwnerLookup cache) confirmed onNamespaceDelete)
      (peerEligibility selfUid threshold ack onNamespaceDelete confirmed unreadable cache))
    (hpeer : m.uid ≠ selfUid) :
    ∃ b ∈ snapshots,
      pendingMemberFor key (scheduleOwnerLookup cache) confirmed onNamespaceDelete b = some m ∧
      gatherDeletionPlan b (resolveOwnerState cache live b m.ns) (decide (m.ns ∈ confirmed))
        (some onNamespaceDelete)
        (unackedBreakerCount
          (pendingMembers snapshots key (scheduleOwnerLookup cache) confirmed onNamespaceDelete) ack)
        threshold ack now = .deleteSnapshot := by
  obtain ⟨hpending, hok⟩ := List.mem_filter.mp hm
  obtain ⟨b, hb, hmember⟩ := List.mem_filterMap.mp hpending
  obtain ⟨hts, hns, -, -, -, hext, -, howned, hplan⟩ := pendingMemberFor_spec hmember
  simp only [peerEligibility, hpeer, decide_false, Bool.false_or, Bool.and_eq_true] at hok
  obtain ⟨⟨⟨⟨-, hsched⟩, -⟩, -⟩, hbreaker⟩ := hok
  refine ⟨b, hb, hmember, ?_⟩
  have hsched' : cache.synced = true ∨ breakerRelevant (prunedBy b.metadata.annotations) = false ∨
      scheduleOwnerRef b = none := by
    simpa [fireScheduleOk, hext, howned, or_assoc] using hsched
  have hallowed : planDeletion (deletionFacts b (resolveOwnerState cache live b m.ns)
      (decide (m.ns ∈ confirmed)) (some onNamespaceDelete) .allowed) = .deleteSnapshot :=
    (planDeletion_owner_agree live hns hsched' _ _ _).trans hplan
  unfold gatherDeletionPlan
  cases hrel : breakerRelevant (prunedBy b.metadata.annotations) with
  | false =>
    -- An operator prune is never held.
    simp [countsTowardBreaker, deletionFacts, hrel] at hallowed ⊢
    exact hallowed
  | true =>
    have hstate := breakerState_of_fireBreakerOk (hext.trans hrel) hbreaker
    simp only [hts, Option.getD_some, hstate, ite_self]
    exact hallowed

/-- Two retention prunes of one repository: the second rides the first's
batch. -/
theorem fireEligible_peer_plans_delete_pair :
    let prune := fun (name uid : String) (t : Int) =>
      ({ metadata :=
          { name := some name
            ns := some "apps"
            uid := some uid
            deletionTimestamp := some (DateTime.fromTimestamp t)
            finalizers := [snapshotCleanupFinalizer]
            annotations := [( prunedByAnnotation, "retention")] }
         status := some
          { snapshot := some ⟨name, { username := "u", hostname := "h" }⟩
            resolvedRepository := some { name := "nas", ns := some "apps" } } } : Snapshot)
    let cache : ScheduleCache := ⟨none, false, by simp⟩
    let pending := pendingMembers [prune "a" "uid-a" 1, prune "b" "uid-b" 2] "repository:apps/nas"
      (scheduleOwnerLookup cache) ∅ .orphan
    ∃ m ∈ fireEligible pending (peerEligibility "uid-a" 1 none .orphan ∅ ∅ cache),
      m.uid = "uid-b" ∧
      ∃ b ∈ [prune "a" "uid-a" 1, prune "b" "uid-b" 2],
        gatherDeletionPlan b (resolveOwnerState cache (fun _ _ => none) b m.ns)
          (decide (m.ns ∈ (∅ : Finset String))) (some .orphan) (unackedBreakerCount pending none) 1
          none 0 = .deleteSnapshot := by
  intro prune cache pending
  obtain ⟨m, hm, huid⟩ : ∃ m ∈ fireEligible pending
      (peerEligibility "uid-a" 1 none .orphan ∅ ∅ cache), m.uid = "uid-b" := by decide
  obtain ⟨b, hb, -, hplan⟩ := fireEligible_peer_plans_delete
    [prune "a" "uid-a" 1, prune "b" "uid-b" 2] "repository:apps/nas" "uid-a" cache
    (fun _ _ => none) ∅ ∅ .orphan 1 none 0 m hm (by rw [huid]; decide)
  exact ⟨m, hm, huid, b, hb, hplan⟩

-- Acknowledgment

theorem unackedBreakerCount_append (p q : List PendingMember) (ack : Option DateTime) :
    unackedBreakerCount (p ++ q) ack = unackedBreakerCount p ack + unackedBreakerCount q ack := by
  simp [unackedBreakerCount]

theorem le_newestPendingDeletion {pending : List PendingMember} {t : DateTime}
    (h : newestPendingDeletion pending = some t) {m : PendingMember} (hm : m ∈ pending)
    (hext : m.external = true) : m.deletionTimestamp ≤ t := by
  have hle := (List.max?_eq_some_iff.mp h).2
  exact hle _ (List.mem_map.mpr ⟨m, List.mem_filter.mpr ⟨hm, hext⟩, rfl⟩)

theorem unackedBreakerCount_newest {pending : List PendingMember} {t : DateTime}
    (h : newestPendingDeletion pending = some t) : unackedBreakerCount pending (some t) = 0 := by
  simp only [unackedBreakerCount, List.length_eq_zero_iff, List.filter_eq_nil_iff]
  intro m hm
  cases hext : m.external with
  | false => simp
  | true => simpa using le_newestPendingDeletion h hm hext

theorem unackedBreakerCount_later {later : List PendingMember} {t : DateTime}
    (h : ∀ m ∈ later, t < m.deletionTimestamp) :
    unackedBreakerCount later (some t) = (later.filter PendingMember.external).length := by
  simp only [unackedBreakerCount]
  congr 1
  apply List.filter_congr
  intro m hm
  simp [h m hm]

theorem unackedBreakerCount_anti {pending : List PendingMember} {ack : Option DateTime}
    {now : DateTime} (h : ∀ a, ack = some a → a ≤ now) :
    unackedBreakerCount pending (some now) ≤ unackedBreakerCount pending ack := by
  simp only [unackedBreakerCount]
  apply List.Sublist.length_le
  apply List.monotone_filter_right
  intro m
  cases ack with
  | none => cases m.external <;> simp
  | some a =>
    cases m.external with
    | false => simp
    | true =>
      intro hm
      simp only [Bool.true_and, Option.all_some, gt_iff_lt, decide_eq_true_eq] at hm ⊢
      exact lt_of_le_of_lt (h a rfl) hm

theorem parseMassDeletionAck_le {rfc : Rfc3339} {raw : Option String} {now a : DateTime}
    (h : (parseMassDeletionAck rfc raw now).1 = some a) : a ≤ now := by
  cases raw with
  | none => simp [parseMassDeletionAck] at h
  | some v =>
    cases hv : rfc.parse v with
    | none => simp [parseMassDeletionAck, hv] at h
    | some dt =>
      simp only [parseMassDeletionAck, hv, clampAck, Option.map_some, Option.some.injEq] at h
      exact h ▸ min_le_right _ _

/-- Acknowledging the reported timestamp releases the pending deletions and
nothing after them; an acknowledgment never releases what one clamped to the
clock would hold. -/
theorem mass_deletion_ack_drains_wave (rfc : Rfc3339) (repo : RepositoryRef) (threshold : Nat)
    (pending : List PendingMember) (t : DateTime)
    (hnewest : newestPendingDeletion pending = some t)
    (hround : rfc.parse (rfc.render t) = some t) :
    (∀ now, t ≤ now →
      parseMassDeletionAck rfc (some (rfc.render t)) now = (some t, false)) ∧
    unackedBreakerCount pending (some t) = 0 ∧
    (repoMassDeletionCondition repo (unackedBreakerCount pending (some t)) threshold none).held =
      false ∧
    (∀ m ∈ pending, breakerState (unackedBreakerCount pending (some t)) threshold
      m.deletionTimestamp (some t) = .allowed) ∧
    (∀ m ∈ pending, m.external = true → ∀ count,
      breakerState count threshold m.deletionTimestamp (some t) = .allowed) ∧
    (∀ later : List PendingMember, (∀ m ∈ later, t < m.deletionTimestamp) →
      unackedBreakerCount (pending ++ later) (some t) =
        (later.filter PendingMember.external).length ∧
      ∀ m ∈ later, ∀ count,
        breakerState count threshold m.deletionTimestamp (some t) = .held ↔
          0 < threshold ∧ threshold ≤ count) ∧
    (∀ (raw : Option String) (now : DateTime) (all : List PendingMember), ∀ m ∈ all,
      breakerState (unackedBreakerCount all (some now)) threshold m.deletionTimestamp (some now) =
        .held →
      breakerState (unackedBreakerCount all (parseMassDeletionAck rfc raw now).1) threshold
        m.deletionTimestamp (parseMassDeletionAck rfc raw now).1 = .held) := by
  have hzero := unackedBreakerCount_newest hnewest
  refine ⟨?_, hzero, ?_, ?_, ?_, ?_, ?_⟩
  · intro now hnow
    simp [parseMassDeletionAck, hround, clampAck, min_eq_left hnow]
  · rw [hzero]
    cases threshold <;> simp [repoMassDeletionCondition]
  · intro m _
    rw [hzero]
    cases hstate : breakerState 0 threshold m.deletionTimestamp (some t) with
    | allowed => rfl
    | held =>
      obtain ⟨hpos, hle, -⟩ := breakerState_held_iff.mp hstate
      omega
  · intro m hm hext count
    exact breakerState_of_acked rfl (le_newestPendingDeletion hnewest hm hext)
  · intro later hlater
    refine ⟨?_, ?_⟩
    · rw [unackedBreakerCount_append, hzero, unackedBreakerCount_later hlater, Nat.zero_add]
    · intro m hm count
      rw [breakerState_held_iff]
      refine ⟨fun h => ⟨h.1, h.2.1⟩, fun h => ⟨h.1, h.2, ?_⟩⟩
      intro a ha
      cases ha
      exact hlater m hm
  · intro raw now all m _ hheld
    obtain ⟨hpos, hcount, hack⟩ := breakerState_held_iff.mp hheld
    have hle : ∀ a, (parseMassDeletionAck rfc raw now).1 = some a → a ≤ now :=
      fun a ha => parseMassDeletionAck_le ha
    refine breakerState_held_iff.mpr ⟨hpos, hcount.trans (unackedBreakerCount_anti hle), ?_⟩
    intro a ha
    exact lt_of_le_of_lt (hle a ha) (hack now rfl)

/-- Two external deletions at seconds 3 and 5 against a threshold of 1. -/
theorem mass_deletion_ack_drains_wave_pair :
    let text := "1970-01-01T00:00:05+00:00"
    let rfc : Rfc3339 :=
      ⟨fun s => if s = text then some (DateTime.fromTimestamp 5) else none, fun _ => text⟩
    let member := fun (uid : String) (t : Int) =>
      (⟨"apps", uid, uid, uid, ⟨"/data", none, none, none⟩, true, DateTime.fromTimestamp t, true,
        false⟩ : PendingMember)
    let pending := [member "a" 3, member "b" 5]
    breakerState (unackedBreakerCount pending none) 1 (DateTime.fromTimestamp 3) none = .held ∧
      unackedBreakerCount pending (parseMassDeletionAck rfc (some text)
        (DateTime.fromTimestamp 9)).1 = 0 := by
  intro text rfc member pending
  have hdrain := mass_deletion_ack_drains_wave rfc { name := "nas" } 1 pending
    (DateTime.fromTimestamp 5) (by decide) (by simp [rfc])
  refine ⟨by decide, ?_⟩
  have hparse : parseMassDeletionAck rfc (some text) (DateTime.fromTimestamp 9) = _ :=
    hdrain.1 (DateTime.fromTimestamp 9) (by decide)
  rw [hparse]
  exact hdrain.2.1

end Kopiur
