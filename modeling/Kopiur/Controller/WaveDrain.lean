import Mathlib.Algebra.Order.BigOperators.Group.List
import Mathlib.Data.List.Nodup
import Mathlib.Data.List.Dedup
import Kopiur.Controller.BatchJobs
import Kopiur.Lib.Lists
import Kopiur.Lib.Runs

/-!
# Draining a backlog of deletions

A wave is the oldest part of the pending members that fits its caps, whatever
order they are listed in. Waves fired, finished, drained and reaped in any order
delete each pending member once, and come to an end.
-/

namespace Kopiur

open Lib

-- The next wave

section Wave

variable {itemBytes : PendingMember → Nat} {budget cap : Nat} {fireable : List PendingMember}

theorem OldestFirst.antisymm {a b : PendingMember} (h : OldestFirst a b) (h' : OldestFirst b a) :
    a.uid = b.uid := by
  rcases h with h | ⟨ht, h⟩
  · rcases h' with h' | ⟨ht', -⟩
    · exact absurd (h.trans h') (lt_irrefl _)
    · exact absurd (ht' ▸ h) (lt_irrefl _)
  · rcases h' with h' | ⟨-, h'⟩
    · exact absurd (ht ▸ h') (lt_irrefl _)
    · exact le_antisymm h h'

theorem oldest_first_unique {l l' : List PendingMember} (hnodup : (l.map PendingMember.uid).Nodup)
    (hperm : l.Perm l') (hl : l.Pairwise OldestFirst) (hl' : l'.Pairwise OldestFirst) : l = l' :=
  hperm.eq_of_pairwise (fun _ _ ha hb h h' =>
    List.inj_on_of_nodup_map hnodup ha (hperm.mem_iff.mpr hb) (h.antisymm h')) hl hl'

theorem insertionSort_oldest_eq {sorted : List PendingMember}
    (hnodup : (fireable.map PendingMember.uid).Nodup) (hperm : sorted.Perm fireable)
    (hsorted : sorted.Pairwise OldestFirst) : fireable.insertionSort OldestFirst = sorted :=
  oldest_first_unique ((((List.perm_insertionSort OldestFirst fireable).map _).nodup_iff).mpr hnodup)
    ((List.perm_insertionSort _ _).trans hperm.symm) (List.pairwise_insertionSort OldestFirst fireable)
    hsorted

theorem totalBytes_fit (used : Nat) (sorted : List PendingMember) (hused : used ≤ budget) :
    used + totalBytes itemBytes (sorted.take (fitCountIn itemBytes budget used sorted)) ≤ budget := by
  induction sorted generalizing used with
  | nil => simpa [fitCountIn, totalBytes] using hused
  | cons m rest ih =>
    rw [fitCountIn]
    split
    · next hfits =>
      have hrest := ih _ hfits
      rw [List.take_succ_cons, totalBytes]
      omega
    · simpa [totalBytes] using hused

theorem waveWithin_perm {fireable' : List PendingMember}
    (hnodup : (fireable.map PendingMember.uid).Nodup) (hperm : fireable.Perm fireable') :
    waveWithin itemBytes budget fireable cap = waveWithin itemBytes budget fireable' cap := by
  unfold waveWithin
  rw [insertionSort_oldest_eq hnodup ((List.perm_insertionSort OldestFirst fireable').trans hperm.symm)
    (List.pairwise_insertionSort OldestFirst fireable')]

theorem fireDecisionWithin_perm {fireable' : List PendingMember} (now : DateTime)
    (quietWindow : Duration) (hnodup : (fireable.map PendingMember.uid).Nodup)
    (hperm : fireable.Perm fireable') :
    fireDecisionWithin itemBytes budget fireable now quietWindow cap =
      fireDecisionWithin itemBytes budget fireable' now quietWindow cap := by
  have hmin : (fireable.map PendingMember.deletionTimestamp).min? =
      (fireable'.map PendingMember.deletionTimestamp).min? := by
    have hmap := hperm.map PendingMember.deletionTimestamp
    refine Option.ext fun t => ?_
    simp only [List.min?_eq_some_iff, hmap.mem_iff]
  unfold fireDecisionWithin
  rw [hmin, hperm.length_eq, waveWithin_perm hnodup hperm]

theorem length_waveWithin_le : (waveWithin itemBytes budget fireable cap).length ≤ cap := by
  simp only [waveWithin, withinByteBudget, List.length_take]
  omega

theorem waveWithin_bytes : totalBytes itemBytes (waveWithin itemBytes budget fireable cap) ≤ budget ∨
    (waveWithin itemBytes budget fireable cap).length ≤ 1 := by
  simp only [waveWithin, withinByteBudget]
  generalize (fireable.insertionSort OldestFirst).take cap = sorted
  rcases Nat.lt_or_ge (fitCountIn itemBytes budget 0 sorted) 1 with hnone | hsome
  · right
    rw [max_eq_right (Nat.le_of_lt hnone), List.length_take]
    exact Nat.min_le_left _ _
  · left
    have hfit : 0 + totalBytes itemBytes (sorted.take (fitCountIn itemBytes budget 0 sorted)) ≤
        budget := totalBytes_fit 0 sorted (Nat.zero_le budget)
    rw [max_eq_left hsome]
    omega

theorem exists_fire (quietWindow : Duration) (hne : fireable ≠ []) :
    ∃ now, fireDecisionWithin itemBytes budget fireable now quietWindow cap =
      .fire (waveWithin itemBytes budget fireable cap) := by
  have hsome : (fireable.map PendingMember.deletionTimestamp).min?.isSome := by
    rw [List.isSome_min?_iff]
    simpa using hne
  obtain ⟨oldest, hmin⟩ := Option.isSome_iff_exists.mp hsome
  refine ⟨quietWindow + oldest, ?_⟩
  have hage : max (quietWindow + oldest - oldest) 0 ≥ quietWindow := by
    rw [Int.add_sub_cancel]
    exact le_max_left _ _
  unfold fireDecisionWithin
  rw [hmin]
  exact if_pos (.inr hage)

end Wave

-- Waves in turn

structure DrainConfig where
  repo : RepositoryRef
  itemBytes : PendingMember → Nat
  budget : Nat
  cap : Nat

/-- The members that hold their finalizer, the batch Jobs, and every deletion
in kopia. -/
structure DrainState where
  pending : List PendingMember
  jobs : List BatchJobView
  deleted : List String

inductive DrainAction
  -- Fire the next wave of what no Job covers.
  | fire (now : DateTime)
  -- A Job deletes its members.
  | finish (name : String) (t : DateTime)
  -- A member sees the success and lets go of its finalizer.
  | drain (uid : String)
  | reap (name : String) (now : DateTime)

namespace DrainState

def fireable (s : DrainState) : List PendingMember := fireableMembers s.pending (coveredUids s.jobs)

def liveJob (s : DrainState) (name : String) : Option BatchJobView :=
  s.jobs.find? fun j => decide (j.name = name) && decide (j.state = .live)

def markSucceeded (name : String) (t : DateTime) (j : BatchJobView) : BatchJobView :=
  if j.name = name then { j with state := .succeeded, terminalAt := some t } else j

def step (cfg : DrainConfig) (s : DrainState) : DrainAction → Option DrainState
  | .fire now =>
    match fireDecisionWithin cfg.itemBytes cfg.budget s.fireable now batchQuietWindow cfg.cap with
    | .accumulate _ => none
    | .fire members =>
      let name := batchJobName cfg.repo members
      -- A Job of that name answers `AlreadyExists`.
      if name ∈ s.jobs.map BatchJobView.name then none
      else some { s with jobs := s.jobs ++ [⟨name, sortedUids members, .live, none⟩] }
  | .finish name t =>
    match s.liveJob name with
    | none => none
    | some j =>
      some { s with
        jobs := s.jobs.map (markSucceeded name t)
        deleted := s.deleted ++ j.members }
  | .drain uid =>
    if uid ∈ s.pending.map PendingMember.uid ∧ memberDisposition uid s.jobs = .succeededMember then
      some { s with pending := s.pending.filter fun m => decide (m.uid ≠ uid) }
    else none
  | .reap name now =>
    if name ∈ reapTargets s.jobs (s.pending.map PendingMember.uid) now failedBatchReapAge then
      some { s with jobs := s.jobs.filter fun j => decide (j.name ≠ name) }
    else none

end DrainState

/-- Every Job covers members of its own: a live one members still to be deleted,
a succeeded one members that were. -/
structure DrainInv (start : List PendingMember) (s : DrainState) : Prop where
  pending : s.pending.Sublist start
  names : (s.jobs.map BatchJobView.name).Nodup
  states : ∀ j ∈ s.jobs, j.state = .live ∨ j.state = .succeeded
  members : (s.jobs.flatMap BatchJobView.members).Nodup
  filled : ∀ j ∈ s.jobs, j.members ≠ []
  live : ∀ j ∈ s.jobs, j.state = .live → ∀ u ∈ j.members,
    u ∈ s.pending.map PendingMember.uid ∧ u ∉ s.deleted
  succeeded : ∀ j ∈ s.jobs, j.state = .succeeded → ∀ u ∈ j.members, u ∈ s.deleted
  once : s.deleted.Nodup
  known : ∀ u ∈ s.deleted, u ∈ start.map PendingMember.uid
  -- A deleted member that is still pending is on its way out.
  leaving : ∀ u ∈ s.deleted, u ∈ s.pending.map PendingMember.uid →
    ∃ j ∈ s.jobs, j.state = .succeeded ∧ u ∈ j.members
  drained : ∀ u ∈ start.map PendingMember.uid, u ∉ s.pending.map PendingMember.uid → u ∈ s.deleted

namespace DrainInv

variable {start : List PendingMember} {cfg : DrainConfig} {s s' : DrainState}

theorem init (start : List PendingMember) : DrainInv start ⟨start, [], []⟩ where
  pending := .refl start
  names := .nil
  states := by simp
  members := .nil
  filled := by simp
  live := by simp
  succeeded := by simp
  once := .nil
  known := by simp
  leaving := by simp
  drained := fun u hu hout => absurd hu hout

theorem fireable_not_deleted (h : DrainInv start s) {m : PendingMember} (hm : m ∈ s.fireable) :
    m.uid ∈ s.pending.map PendingMember.uid ∧ m.uid ∉ s.deleted ∧
      m.uid ∉ s.jobs.flatMap BatchJobView.members := by
  obtain ⟨hpending, huncovered⟩ := List.mem_filter.mp hm
  have huncovered : m.uid ∉ coveredUids s.jobs := of_decide_eq_true huncovered
  have huid := List.mem_map_of_mem (f := PendingMember.uid) hpending
  have hcovers : ∀ j ∈ s.jobs, m.uid ∉ j.members := by
    intro j hj hmem
    refine huncovered (mem_coveredUids.mpr ⟨j, hj, ?_, hmem⟩)
    rcases h.states j hj with hs | hs <;> rw [hs] <;> rfl
  refine ⟨huid, ?_, ?_⟩
  · intro hdel
    obtain ⟨j, hj, -, hmem⟩ := h.leaving _ hdel huid
    exact hcovers j hj hmem
  · intro hmem
    obtain ⟨j, hj, hin⟩ := List.mem_flatMap.mp hmem
    exact hcovers j hj hin

theorem fire (h : DrainInv start s) {members : List PendingMember} {name : String}
    (hname : name ∉ s.jobs.map BatchJobView.name)
    (hsub : ∀ m ∈ members, m ∈ s.fireable) (hnodup : (members.map PendingMember.uid).Nodup)
    (hne : members ≠ []) :
    DrainInv start { s with jobs := s.jobs ++ [⟨name, sortedUids members, .live, none⟩] } := by
  have huids : ∀ u ∈ sortedUids members, u ∈ s.pending.map PendingMember.uid ∧ u ∉ s.deleted ∧
      u ∉ s.jobs.flatMap BatchJobView.members := by
    intro u hu
    obtain ⟨m, hm, rfl⟩ := mem_sortedUids.mp hu
    exact h.fireable_not_deleted (hsub m hm)
  have hsorted : (sortedUids members).Nodup :=
    ((List.perm_insertionSort (· ≤ ·) _).nodup_iff).mpr hnodup
  have hjobs : ∀ {p : BatchJobView → Prop}, (∀ j ∈ s.jobs, p j) →
      p ⟨name, sortedUids members, .live, none⟩ →
      ∀ j ∈ s.jobs ++ [⟨name, sortedUids members, .live, none⟩], p j := by
    intro p hall hnew j hj
    rcases List.mem_append.mp hj with hj | hj
    · exact hall j hj
    · exact List.mem_singleton.mp hj ▸ hnew
  exact {
    pending := h.pending
    names := by
      rw [List.map_append, List.nodup_append]
      refine ⟨h.names, List.nodup_singleton _, ?_⟩
      rintro n hn _ hnew rfl
      have heq : n = name := List.mem_singleton.mp hnew
      exact hname (heq ▸ hn)
    states := hjobs h.states (.inl rfl)
    members := by
      rw [List.flatMap_append, List.nodup_append]
      refine ⟨h.members, by simpa using hsorted, ?_⟩
      rintro u hu _ hnew rfl
      exact (huids u (by simpa using hnew)).2.2 hu
    filled := by
      refine hjobs h.filled fun hnil => ?_
      have hlen := congrArg List.length hnil
      simp only [sortedUids, List.length_insertionSort, List.length_map, List.length_nil] at hlen
      exact hne (List.length_eq_zero_iff.mp hlen)
    live := hjobs h.live fun _ u hu => ⟨(huids u hu).1, (huids u hu).2.1⟩
    succeeded := hjobs h.succeeded nofun
    once := h.once
    known := h.known
    leaving := by
      intro u hu hpending
      obtain ⟨j, hj, hs, hmem⟩ := h.leaving u hu hpending
      exact ⟨j, List.mem_append_left _ hj, hs, hmem⟩
    drained := h.drained }

theorem eq_of_name (h : DrainInv start s) {j k : BatchJobView} (hj : j ∈ s.jobs) (hk : k ∈ s.jobs)
    (hname : j.name = k.name) : j = k :=
  List.inj_on_of_nodup_map h.names hj hk hname

theorem eq_of_member (h : DrainInv start s) {j k : BatchJobView} (hj : j ∈ s.jobs)
    (hk : k ∈ s.jobs) {u : String} (huj : u ∈ j.members) (huk : u ∈ k.members) : j = k := by
  by_contra hne
  have hdisjoint := (List.nodup_flatMap.mp h.members).2
  rcases rel_of_pairwise hdisjoint hj hk hne with hd | hd
  · exact hd huj huk
  · exact hd huk huj

theorem markSucceeded_of_ne {name : String} {t : DateTime} {j : BatchJobView} (h : j.name ≠ name) :
    DrainState.markSucceeded name t j = j := if_neg h

theorem markSucceeded_name (name : String) (t : DateTime) (j : BatchJobView) :
    (DrainState.markSucceeded name t j).name = j.name := by
  unfold DrainState.markSucceeded
  split <;> rfl

theorem markSucceeded_members (name : String) (t : DateTime) (j : BatchJobView) :
    (DrainState.markSucceeded name t j).members = j.members := by
  unfold DrainState.markSucceeded
  split <;> rfl

theorem markSucceeded_self (t : DateTime) (j : BatchJobView) :
    (DrainState.markSucceeded j.name t j).state = .succeeded := by
  rw [DrainState.markSucceeded, if_pos rfl]

theorem finish (h : DrainInv start s) {j : BatchJobView} (hj : j ∈ s.jobs) (hlive : j.state = .live)
    (t : DateTime) :
    DrainInv start { s with
      jobs := s.jobs.map (DrainState.markSucceeded j.name t)
      deleted := s.deleted ++ j.members } := by
  -- The Job itself, or one the step leaves alone.
  have hcases : ∀ k ∈ s.jobs, k = j ∨ DrainState.markSucceeded j.name t k = k := by
    intro k hk
    rcases eq_or_ne k.name j.name with heq | hne
    · exact .inl (h.eq_of_name hk hj heq)
    · exact .inr (markSucceeded_of_ne hne)
  have hmembers : (s.jobs.map (DrainState.markSucceeded j.name t)).flatMap BatchJobView.members =
      s.jobs.flatMap BatchJobView.members := by
    rw [List.flatMap_map]
    exact List.flatMap_congr fun k _ => markSucceeded_members _ _ k
  have hnames : (s.jobs.map (DrainState.markSucceeded j.name t)).map BatchJobView.name =
      s.jobs.map BatchJobView.name := by
    rw [List.map_map]
    exact List.map_congr_left fun k _ => markSucceeded_name _ _ k
  exact {
    pending := h.pending
    names := hnames ▸ h.names
    states := by
      refine List.forall_mem_map.mpr fun k hk => ?_
      rcases hcases k hk with rfl | heq
      · exact .inr (markSucceeded_self t k)
      · exact heq.symm ▸ h.states k hk
    members := hmembers ▸ h.members
    filled := by
      refine List.forall_mem_map.mpr fun k hk => ?_
      rw [markSucceeded_members]
      exact h.filled k hk
    live := by
      refine List.forall_mem_map.mpr fun k hk hs u hu => ?_
      rcases hcases k hk with rfl | heq
      · rw [markSucceeded_self] at hs
        cases hs
      · rw [heq] at hs hu
        obtain ⟨hpending, hnot⟩ := h.live k hk hs u hu
        refine ⟨hpending, fun hdel => ?_⟩
        rcases List.mem_append.mp hdel with hdel | hdel
        · exact hnot hdel
        · obtain rfl := h.eq_of_member hk hj hu hdel
          rw [← heq, markSucceeded_self] at hs
          cases hs
    succeeded := by
      refine List.forall_mem_map.mpr fun k hk hs u hu => ?_
      rw [markSucceeded_members] at hu
      rcases hcases k hk with rfl | heq
      · exact List.mem_append_right _ hu
      · rw [heq] at hs
        exact List.mem_append_left _ (h.succeeded k hk hs u hu)
    once := by
      refine List.nodup_append.mpr ⟨h.once, (List.nodup_flatMap.mp h.members).1 j hj, ?_⟩
      rintro u hu _ hmem rfl
      exact (h.live j hj hlive u hmem).2 hu
    known := by
      intro u hu
      rcases List.mem_append.mp hu with hu | hu
      · exact h.known u hu
      · exact (h.pending.map _).subset (h.live j hj hlive u hu).1
    leaving := by
      intro u hu hpending
      rcases List.mem_append.mp hu with hu | hu
      · obtain ⟨k, hk, hs, hmem⟩ := h.leaving u hu hpending
        refine ⟨_, List.mem_map_of_mem hk, ?_, (markSucceeded_members _ _ k).symm ▸ hmem⟩
        rcases hcases k hk with rfl | heq
        · exact markSucceeded_self t k
        · exact heq.symm ▸ hs
      · exact ⟨_, List.mem_map_of_mem hj, markSucceeded_self t j,
          (markSucceeded_members _ _ j).symm ▸ hu⟩
    drained := fun u hu hout => List.mem_append_left _ (h.drained u hu hout) }

theorem mem_uids_filter {l : List PendingMember} {u uid : String} :
    u ∈ (l.filter fun m => decide (m.uid ≠ uid)).map PendingMember.uid ↔
      u ∈ l.map PendingMember.uid ∧ u ≠ uid := by
  simp only [List.mem_map, List.mem_filter, decide_eq_true_eq]
  constructor
  · rintro ⟨m, ⟨hm, hne⟩, rfl⟩
    exact ⟨⟨m, hm, rfl⟩, hne⟩
  · rintro ⟨⟨m, hm, rfl⟩, hne⟩
    exact ⟨m, ⟨hm, hne⟩, rfl⟩

theorem drain (h : DrainInv start s) {uid : String}
    (hdone : memberDisposition uid s.jobs = .succeededMember) :
    DrainInv start { s with pending := s.pending.filter fun m => decide (m.uid ≠ uid) } := by
  obtain ⟨j, hj, hs, hmem⟩ := memberDisposition_succeeded_iff.mp hdone
  have hdel := h.succeeded j hj hs uid hmem
  exact {
    pending := List.filter_sublist.trans h.pending
    names := h.names
    states := h.states
    members := h.members
    filled := h.filled
    live := by
      intro k hk hlive u hu
      obtain ⟨hpending, hnot⟩ := h.live k hk hlive u hu
      refine ⟨mem_uids_filter.mpr ⟨hpending, ?_⟩, hnot⟩
      rintro rfl
      exact hnot hdel
    succeeded := h.succeeded
    once := h.once
    known := h.known
    leaving := fun u hu hpending => h.leaving u hu (mem_uids_filter.mp hpending).1
    drained := by
      intro u hu hout
      rcases eq_or_ne u uid with rfl | hne
      · exact hdel
      · exact h.drained u hu fun hpending => hout (mem_uids_filter.mpr ⟨hpending, hne⟩) }

theorem of_mem_reapTargets (h : DrainInv start s) {name : String} {now : DateTime}
    (hreap : name ∈ reapTargets s.jobs (s.pending.map PendingMember.uid) now failedBatchReapAge) :
    ∃ j ∈ s.jobs, j.name = name ∧ ∀ u ∈ j.members, u ∉ s.pending.map PendingMember.uid := by
  obtain ⟨j, hj, hverdict⟩ := List.mem_filterMap.mp hreap
  rcases h.states j hj with hlive | hs
  · simp [hlive] at hverdict
  · simp only [hs, Option.ite_none_right_eq_some, Option.some.injEq, List.all_eq_true,
      decide_eq_true_eq] at hverdict
    exact ⟨j, hj, hverdict.2, hverdict.1⟩

theorem reap (h : DrainInv start s) {name : String} {now : DateTime}
    (hreap : name ∈ reapTargets s.jobs (s.pending.map PendingMember.uid) now failedBatchReapAge) :
    DrainInv start { s with jobs := s.jobs.filter fun j => decide (j.name ≠ name) } := by
  have hsub : (s.jobs.filter fun j => decide (j.name ≠ name)).Sublist s.jobs := List.filter_sublist
  have hdrained : ∀ j ∈ s.jobs, j.name = name → ∀ u ∈ j.members,
      u ∉ s.pending.map PendingMember.uid := by
    obtain ⟨k, hk, rfl, hout⟩ := h.of_mem_reapTargets hreap
    intro j hj hname
    exact h.eq_of_name hk hj hname.symm ▸ hout
  exact {
    pending := h.pending
    names := (hsub.map _).nodup h.names
    states := fun j hj => h.states j (hsub.subset hj)
    members := by
      obtain ⟨heach, hpairwise⟩ := List.nodup_flatMap.mp h.members
      exact List.nodup_flatMap.mpr ⟨fun j hj => heach j (hsub.subset hj), hpairwise.sublist hsub⟩
    filled := fun j hj => h.filled j (hsub.subset hj)
    live := fun j hj => h.live j (hsub.subset hj)
    succeeded := fun j hj => h.succeeded j (hsub.subset hj)
    once := h.once
    known := h.known
    leaving := by
      intro u hu hpending
      obtain ⟨j, hj, hs, hmem⟩ := h.leaving u hu hpending
      refine ⟨j, List.mem_filter.mpr ⟨hj, decide_eq_true fun hname => ?_⟩, hs, hmem⟩
      exact hdrained j hj hname u hmem hpending
    drained := h.drained }

end DrainInv

inductive DrainStep (cfg : DrainConfig) (s : DrainState) : DrainState → Prop
  | fire {members : List PendingMember} (hne : s.fireable ≠ [])
    (hwave : members = waveWithin cfg.itemBytes cfg.budget s.fireable cfg.cap)
    (hname : batchJobName cfg.repo members ∉ s.jobs.map BatchJobView.name) :
    DrainStep cfg s
      { s with jobs := s.jobs ++ [⟨batchJobName cfg.repo members, sortedUids members, .live, none⟩] }
  | finish {j : BatchJobView} (hj : j ∈ s.jobs) (hlive : j.state = .live) (t : DateTime) :
    DrainStep cfg s
      { s with
        jobs := s.jobs.map (DrainState.markSucceeded j.name t)
        deleted := s.deleted ++ j.members }
  | drain {uid : String} (hpending : uid ∈ s.pending.map PendingMember.uid)
    (hdone : memberDisposition uid s.jobs = .succeededMember) :
    DrainStep cfg s { s with pending := s.pending.filter fun m => decide (m.uid ≠ uid) }
  | reap {name : String} {now : DateTime}
    (hreap : name ∈ reapTargets s.jobs (s.pending.map PendingMember.uid) now failedBatchReapAge) :
    DrainStep cfg s { s with jobs := s.jobs.filter fun j => decide (j.name ≠ name) }

namespace DrainState

variable {cfg : DrainConfig} {s s' : DrainState}

theorem liveJob_eq_some {name : String} {j : BatchJobView} (h : s.liveJob name = some j) :
    j ∈ s.jobs ∧ j.name = name ∧ j.state = .live := by
  have hprop := List.find?_some h
  rw [Bool.and_eq_true, decide_eq_true_eq, decide_eq_true_eq] at hprop
  exact ⟨List.mem_of_find?_eq_some h, hprop⟩

theorem step_cases {a : DrainAction} (h : step cfg s a = some s') : DrainStep cfg s s' := by
  cases a with
  | fire now =>
    simp only [step] at h
    split at h
    · cases h
    · next members hfire =>
      obtain ⟨hne, hwave⟩ := eq_waveWithin_of_fire hfire
      split at h
      · cases h
      · next hname =>
        cases h
        exact .fire hne hwave hname
  | finish name t =>
    simp only [step] at h
    split at h
    · cases h
    · next j hj =>
      cases h
      obtain ⟨hmem, rfl, hlive⟩ := liveJob_eq_some hj
      exact .finish hmem hlive t
  | drain uid =>
    simp only [step] at h
    split at h
    · next hok =>
      cases h
      exact .drain hok.1 hok.2
    · cases h
  | reap name now =>
    simp only [step] at h
    split at h
    · next hreap =>
      cases h
      exact .reap hreap
    · cases h

end DrainState

namespace DrainInv

variable {start : List PendingMember} {cfg : DrainConfig} {s s' : DrainState}

theorem step (h : DrainInv start s) (hstart : (start.map PendingMember.uid).Nodup)
    (hcap : 0 < cfg.cap) (hstep : DrainStep cfg s s') : DrainInv start s' := by
  cases hstep with
  | @fire members hne hwave hname =>
    subst hwave
    refine h.fire hname (fun m hm => mem_of_mem_waveWithin hm) ?_ (waveWithin_ne_nil hne hcap)
    have hfireable : (s.fireable.map PendingMember.uid).Nodup :=
      ((List.filter_sublist.trans h.pending).map _).nodup hstart
    have hsorted := (((List.perm_insertionSort OldestFirst s.fireable).map _).nodup_iff).mpr hfireable
    exact (waveWithin_front.sublist.map _).nodup hsorted
  | finish hj hlive t => exact h.finish hj hlive t
  | drain hpending hdone => exact h.drain hdone
  | reap hreap => exact h.reap hreap

end DrainInv

-- The work left

namespace DrainState

variable {start : List PendingMember} {cfg : DrainConfig} {s s' : DrainState}

def weight (j : BatchJobView) : Nat :=
  match j.state with
  | .live => 2
  | .succeeded | .failed => 1

def work (s : DrainState) : Nat :=
  s.pending.length + 3 * s.fireable.length + (s.jobs.map weight).sum

theorem weight_pos (j : BatchJobView) : 0 < weight j := by
  unfold weight
  split <;> decide

theorem sum_filter_lt {l : List BatchJobView} {p : BatchJobView → Bool} {j : BatchJobView}
    (hj : j ∈ l) (hp : p j = false) : ((l.filter p).map weight).sum < (l.map weight).sum := by
  induction l with
  | nil => cases hj
  | cons k rest ih =>
    rw [List.map_cons, List.sum_cons]
    rcases List.mem_cons.mp hj with rfl | hrest
    · have hle := ((List.filter_sublist (p := p) (l := rest)).map weight).sum_le_sum
        fun _ _ => Nat.zero_le _
      rw [List.filter_cons_of_neg (by simp [hp])]
      have hpos := weight_pos j
      omega
    · have hlt := ih hrest
      rw [List.filter_cons]
      split
      · rw [List.map_cons, List.sum_cons]
        omega
      · omega

theorem sum_markSucceeded_lt {l : List BatchJobView} {j : BatchJobView} (hj : j ∈ l)
    (hlive : j.state = .live) (t : DateTime) :
    ((l.map (markSucceeded j.name t)).map weight).sum < (l.map weight).sum := by
  rw [List.map_map]
  refine List.sum_lt_sum _ _ ?_ ⟨j, hj, ?_⟩
  · intro k _
    simp only [Function.comp_apply, markSucceeded]
    split
    · exact weight_pos k
    · exact le_refl _
  · simp [markSucceeded, weight, hlive]

theorem length_filter_lt {α : Type} {p q : α → Bool} {l : List α} {a : α}
    (hpq : ∀ x ∈ l, p x = true → q x = true) (ha : a ∈ l ∧ q a = true) (hp : ¬ p a = true) :
    (l.filter p).length < (l.filter q).length := by
  have htwice : l.filter p = (l.filter q).filter p := by
    rw [List.filter_filter]
    refine List.filter_congr fun x hx => ?_
    cases hx' : p x with
    | true => simp [hpq x hx hx']
    | false => rfl
  rw [htwice]
  exact List.length_filter_lt_length_iff_exists.mpr ⟨a, List.mem_filter.mpr ha, hp⟩

theorem fireable_congr {jobs : List BatchJobView}
    (h : ∀ m ∈ s.pending, m.uid ∈ coveredUids jobs ↔ m.uid ∈ coveredUids s.jobs) :
    fireableMembers s.pending (coveredUids jobs) = s.fireable := by
  refine List.filter_congr fun m hm => ?_
  simp only [h m hm]

theorem work_lt (h : DrainInv start s) (hcap : 0 < cfg.cap) (hstep : DrainStep cfg s s') :
    s'.work < s.work := by
  cases hstep with
  | @fire members hne hwave hname =>
    -- The wave leaves the members to fire, and there is one in it.
    have hfewer : (fireableMembers s.pending (coveredUids (s.jobs ++
        [⟨batchJobName cfg.repo members, sortedUids members, .live, none⟩]))).length <
        s.fireable.length := by
      obtain ⟨m, hm⟩ := List.exists_mem_of_ne_nil _
        (hwave ▸ waveWithin_ne_nil hne hcap : members ≠ [])
      have hfire : m ∈ s.fireable := mem_of_mem_waveWithin (hwave ▸ hm)
      have hcovered : ∀ u, u ∈ coveredUids (s.jobs ++
          [⟨batchJobName cfg.repo members, sortedUids members, .live, none⟩]) ↔
          u ∈ coveredUids s.jobs ∨ u ∈ sortedUids members := by
        simp [coveredUids, covers]
      refine length_filter_lt (fun x _ => ?_) (List.mem_filter.mp hfire) ?_
      · simp only [decide_eq_true_eq, hcovered, not_or]
        exact And.left
      · simp only [decide_eq_true_eq, hcovered, not_not]
        exact .inr (mem_sortedUids.mpr ⟨m, hm, rfl⟩)
    simp only [work, fireable, List.map_append, List.sum_append, List.map_singleton,
      List.sum_singleton, weight] at *
    omega
  | @finish j hj hlive t =>
    have hsame : fireableMembers s.pending (coveredUids (s.jobs.map (markSucceeded j.name t))) =
        s.fireable := by
      refine fireable_congr fun m _ => ?_
      simp only [mem_coveredUids, List.mem_map, exists_exists_and_eq_and,
        DrainInv.markSucceeded_members]
      refine exists_congr fun k => and_congr_right fun hk => and_congr_left fun _ => ?_
      unfold markSucceeded
      split
      · next hname =>
        obtain rfl := h.eq_of_name hk hj hname
        simp [hlive, covers]
      · rfl
    have hsum := sum_markSucceeded_lt hj hlive t
    have hlen := congrArg List.length hsame
    simp only [work, fireable] at *
    omega
  | @drain uid hpending hdone =>
    have hfewer : (s.pending.filter fun m => decide (m.uid ≠ uid)).length < s.pending.length := by
      obtain ⟨m, hm, rfl⟩ := List.mem_map.mp hpending
      exact List.length_filter_lt_length_iff_exists.mpr ⟨m, hm, by simp⟩
    have hfireable : (fireable { s with
        pending := s.pending.filter fun m => decide (m.uid ≠ uid) }).length ≤ s.fireable.length :=
      (List.filter_sublist.filter _).length_le
    simp only [work] at *
    omega
  | @reap name now hreap =>
    obtain ⟨k, hk, rfl, hout⟩ := h.of_mem_reapTargets hreap
    have hsum := sum_filter_lt hk (p := fun j => decide (j.name ≠ k.name)) (by simp)
    have hsame : fireableMembers s.pending
        (coveredUids (s.jobs.filter fun j => decide (j.name ≠ k.name))) = s.fireable := by
      refine fireable_congr fun m hm => ?_
      simp only [mem_coveredUids, List.mem_filter, decide_eq_true_eq]
      constructor
      · rintro ⟨j, ⟨hj, -⟩, hcov, hmem⟩
        exact ⟨j, hj, hcov, hmem⟩
      · rintro ⟨j, hj, hcov, hmem⟩
        refine ⟨j, ⟨hj, fun hname => ?_⟩, hcov, hmem⟩
        obtain rfl := h.eq_of_name hj hk hname
        exact hout _ hmem (List.mem_map_of_mem hm)
    have hlen := congrArg List.length hsame
    simp only [work, fireable] at *
    omega

theorem exists_step (h : DrainInv start s) (hleft : s.pending ≠ [] ∨ s.jobs ≠ []) :
    ∃ a s', step cfg s a = some s' := by
  by_cases hjobs : s.jobs = []
  · -- Nothing is covered: the members are fired once they are old enough.
    have hall : s.fireable = s.pending := by simp [fireable, fireableMembers, coveredUids, hjobs]
    have hne := hleft.resolve_right (not_not.mpr hjobs)
    obtain ⟨now, hfire⟩ : ∃ now, fireDecisionWithin cfg.itemBytes cfg.budget s.fireable now
        batchQuietWindow cfg.cap =
          .fire (waveWithin cfg.itemBytes cfg.budget s.fireable cfg.cap) :=
      exists_fire batchQuietWindow (hall ▸ hne)
    have hfresh : batchJobName cfg.repo (waveWithin cfg.itemBytes cfg.budget s.fireable cfg.cap) ∉
        s.jobs.map BatchJobView.name := by simp [hjobs]
    refine ⟨.fire now, { s with jobs := s.jobs ++ [⟨batchJobName cfg.repo
      (waveWithin cfg.itemBytes cfg.budget s.fireable cfg.cap), sortedUids
      (waveWithin cfg.itemBytes cfg.budget s.fireable cfg.cap), .live, none⟩] }, ?_⟩
    simp only [step, hfire, if_neg hfresh]
  · obtain ⟨j, hj⟩ := List.exists_mem_of_ne_nil _ hjobs
    rcases h.states j hj with hlive | hdone
    · have hfound : (s.liveJob j.name).isSome := by
        rw [liveJob, List.find?_isSome]
        exact ⟨j, hj, by simp [hlive]⟩
      obtain ⟨k, hk⟩ := Option.isSome_iff_exists.mp hfound
      refine ⟨.finish j.name 0, { s with
        jobs := s.jobs.map (markSucceeded j.name 0)
        deleted := s.deleted ++ k.members }, ?_⟩
      simp only [step, hk]
    · by_cases hheld : ∃ u ∈ j.members, u ∈ s.pending.map PendingMember.uid
      · obtain ⟨u, hu, hpending⟩ := hheld
        have hsucceeded := memberDisposition_succeeded_iff.mpr ⟨j, hj, hdone, hu⟩
        exact ⟨.drain u, _, if_pos ⟨hpending, hsucceeded⟩⟩
      · refine ⟨.reap j.name 0, _, if_pos (List.mem_filterMap.mpr ⟨j, hj, ?_⟩)⟩
        simp only [hdone, List.all_eq_true, decide_eq_true_eq, ite_eq_left_iff]
        intro hsome
        exact absurd (fun u hu hpending => hheld ⟨u, hu, hpending⟩) hsome

theorem runSteps_inv (hstart : (start.map PendingMember.uid).Nodup) (hcap : 0 < cfg.cap)
    {actions : List DrainAction} (h : DrainInv start s)
    (hrun : runSteps (step cfg) (fun _ _ => True) s actions = some s') :
    DrainInv start s' ∧ actions.length + s'.work ≤ s.work := by
  induction actions generalizing s with
  | nil =>
    cases hrun
    exact ⟨h, by simp⟩
  | cons a rest ih =>
    simp only [runSteps, if_true] at hrun
    obtain ⟨u, hu, hrest⟩ := Option.bind_eq_some_iff.mp hrun
    have hstep := step_cases hu
    obtain ⟨hinv, hwork⟩ := ih (h.step hstart hcap hstep) hrest
    have hlt := work_lt h hcap hstep
    refine ⟨hinv, ?_⟩
    rw [List.length_cons]
    omega

theorem work_start (start : List PendingMember) :
    work ⟨start, [], []⟩ = 4 * start.length := by
  have hall : fireable ⟨start, [], []⟩ = start := by simp [fireable, fireableMembers, coveredUids]
  simp only [work, hall, List.map_nil, List.sum_nil]
  omega

end DrainState

/-- The next wave does not depend on how the members are listed; it is a
non-empty start of the oldest-first order within the cap, and within the budget
unless it is a single member. From any members, waves fired, finished, drained
and reaped in any order come to an end, with each member deleted once. -/
theorem batch_waves_drain (cfg : DrainConfig) (hcap : 0 < cfg.cap) (start : List PendingMember)
    (hne : start ≠ []) (hstart : (start.map PendingMember.uid).Nodup) :
    (∀ (listed : List PendingMember) (now : DateTime) (quietWindow : Duration), listed.Perm start →
      fireDecisionWithin cfg.itemBytes cfg.budget listed now quietWindow cfg.cap =
        fireDecisionWithin cfg.itemBytes cfg.budget start now quietWindow cfg.cap ∧
      batchJobName cfg.repo (waveWithin cfg.itemBytes cfg.budget listed cfg.cap) =
        batchJobName cfg.repo (waveWithin cfg.itemBytes cfg.budget start cfg.cap)) ∧
    (∀ (now : DateTime) (quietWindow : Duration) (members : List PendingMember),
      fireDecisionWithin cfg.itemBytes cfg.budget start now quietWindow cfg.cap = .fire members →
      members ≠ [] ∧
      (∀ sorted : List PendingMember, sorted.Perm start → sorted.Pairwise OldestFirst →
        members <+: sorted) ∧
      members.length ≤ cfg.cap ∧
      (totalBytes cfg.itemBytes members ≤ cfg.budget ∨ members.length = 1)) ∧
    ∀ (actions : List DrainAction) (s : DrainState),
      runSteps (DrainState.step cfg) (fun _ _ => True) ⟨start, [], []⟩ actions = some s →
      s.deleted.Nodup ∧ (∀ u ∈ s.deleted, u ∈ start.map PendingMember.uid) ∧
      actions.length ≤ 4 * start.length ∧
      ((∀ a, DrainState.step cfg s a = none) →
        s.pending = [] ∧ s.deleted.Perm (start.map PendingMember.uid)) := by
  refine ⟨?_, ?_, ?_⟩
  · intro listed now quietWindow hperm
    have hlisted : (listed.map PendingMember.uid).Nodup := ((hperm.map _).nodup_iff).mpr hstart
    exact ⟨fireDecisionWithin_perm now quietWindow hlisted hperm,
      by rw [waveWithin_perm hlisted hperm]⟩
  · intro now quietWindow members hfire
    obtain ⟨-, rfl⟩ := eq_waveWithin_of_fire hfire
    have hpos : 0 < (waveWithin cfg.itemBytes cfg.budget start cfg.cap).length :=
      List.length_pos_iff.mpr (waveWithin_ne_nil hne hcap)
    refine ⟨waveWithin_ne_nil hne hcap, ?_, length_waveWithin_le,
      waveWithin_bytes.imp_right fun hle => by omega⟩
    intro sorted hperm hsorted
    rw [← insertionSort_oldest_eq hstart hperm hsorted]
    exact waveWithin_front
  · intro actions s hrun
    obtain ⟨hinv, hwork⟩ := DrainState.runSteps_inv hstart hcap (DrainInv.init start) hrun
    rw [DrainState.work_start] at hwork
    refine ⟨hinv.once, hinv.known, by omega, fun hstuck => ?_⟩
    have hdone : s.pending = [] := by
      by_contra hleft
      obtain ⟨a, s', hstep⟩ : ∃ a s', DrainState.step cfg s a = some s' :=
        DrainState.exists_step hinv (.inl hleft)
      rw [hstuck a] at hstep
      cases hstep
    refine ⟨hdone, (List.perm_ext_iff_of_nodup hinv.once hstart).mpr fun u => ⟨hinv.known u, ?_⟩⟩
    intro hu
    exact hinv.drained u hu (by simp [hdone])

def deletedMember (uid : String) (second : Int) : PendingMember where
  ns := "apps"
  name := uid
  uid
  snapshotId := uid
  anchor := { sourcePath := "", startTime := none, username := none, hostname := none }
  external := false
  deletionTimestamp := DateTime.fromTimestamp second
  pinned := true
  scheduleOwned := false

def oneByOne : DrainConfig where
  repo := { name := "nas" }
  itemBytes := fun _ => 50
  budget := 80
  cap := 2

def jobOf (uid : String) : String := batchJobName oneByOne.repo [deletedMember uid 10]

/-- Two members that do not fit one wave, deleted in two. -/
theorem batch_waves_drain_two :
    ∃ s, runSteps (DrainState.step oneByOne) (fun _ _ => True)
        ⟨[deletedMember "b" 10, deletedMember "a" 10], [], []⟩
        [.fire (DateTime.fromTimestamp 30), .fire (DateTime.fromTimestamp 30), .finish (jobOf "b") 0,
          .finish (jobOf "a") 0, .drain "a", .reap (jobOf "a") 0, .drain "b", .reap (jobOf "b") 0] =
        some s ∧ s.pending = [] ∧ s.deleted = ["b", "a"] ∧ s.deleted.Nodup := by
  refine exists_runSteps_imp (P := fun s => s.pending = [] ∧ s.deleted = ["b", "a"]) (by decide)
    fun s hs h => ?_
  exact ⟨h.1, h.2,
    ((batch_waves_drain oneByOne (by decide) [deletedMember "b" 10, deletedMember "a" 10]
      (by decide) (by decide)).2.2 _ s hs).1⟩

/-- A cap of no members fires a wave of no members. -/
theorem no_cap_fires_no_member :
    batchFireDecision (fun _ => 1) [deletedMember "a" 10] (DateTime.fromTimestamp 30)
      batchQuietWindow 0 = .fire [] := by
  decide

end Kopiur
