import Kopiur.Controller.Pool

/-!
# Guards of the delete ledger

Reservations for delete Jobs are a set of keys, while guards are handed out one
for each admission. Two waves that name the same Job hold two guards of one
reservation, and the first guard to drop takes the reservation along. As long
as no guard drops beside another one whose Job no LIST has shown yet, every
admitted Job stays counted until it is seen.
-/

namespace Kopiur

open Lib

/-- An admission guard that has not dropped. -/
structure AdmissionGuard where
  poolKey : String
  jobKey : String
  -- A LIST has shown the Job since the admission.
  seen : Bool := false
deriving DecidableEq

namespace AdmissionGuard

def reservation (g : AdmissionGuard) : String × String := (g.poolKey, g.jobKey)

def note (seen : List String) (g : AdmissionGuard) : AdmissionGuard :=
  { g with seen := g.seen || decide (g.jobKey ∈ seen) }

end AdmissionGuard

structure DeleteLedger where
  held : Reservations
  guards : List AdmissionGuard
deriving DecidableEq

inductive LedgerCall
  | admission (repoKey jobKey : String) (observed : ObservedPool) (caps : DeleteCaps)
  | drop (i : Nat)
deriving DecidableEq

namespace DeleteLedger

def empty : DeleteLedger := ⟨∅, []⟩

def step (s : DeleteLedger) : LedgerCall → Option DeleteLedger
  | .admission repoKey jobKey observed caps =>
    let guards := s.guards.map (AdmissionGuard.note observed.seen)
    match deleteLedgerAdmit s.held repoKey jobKey observed caps with
    | (.admitted, held) => some ⟨held, guards ++ [{ poolKey := repoKey, jobKey }]⟩
    | (.park _ _, held) => some ⟨held, guards⟩
  | .drop i =>
    match s.guards[i]? with
    | some g => some ⟨release s.held g.poolKey g.jobKey, s.guards.eraseIdx i⟩
    | none => none

/-- No guard drops beside another one of the same reservation that is still
waiting for its Job to be seen. -/
def Sole (s : DeleteLedger) : LedgerCall → Prop
  | .admission .. => True
  | .drop i => ∀ g, s.guards[i]? = some g → ∀ g' ∈ s.guards.eraseIdx i,
      g'.reservation = g.reservation → g'.seen = true

instance (s : DeleteLedger) (c : LedgerCall) : Decidable (s.Sole c) :=
  match c with
  | .admission .. => isTrue trivial
  | .drop i =>
    match h : s.guards[i]? with
    | none => isTrue fun g hg => by rw [h] at hg; cases hg
    | some g => decidable_of_iff (∀ g' ∈ s.guards.eraseIdx i,
        g'.reservation = g.reservation → g'.seen = true)
        ⟨fun hall g' hg' => by rw [h] at hg'; cases hg'; exact hall, fun hall => hall g h⟩

def Accounted (s : DeleteLedger) : Prop :=
  ∀ g ∈ s.guards, g.seen = false → g.reservation ∈ s.held

/-- Jobs of other waves that are admitted and that neither an earlier LIST nor
this one shows. -/
def unseenJobs (s : DeleteLedger) (jobKey : String) (observed : ObservedPool) : Reservations :=
  ((s.guards.filter fun g => g.jobKey ≠ jobKey ∧ g.seen = false ∧
    g.jobKey ∉ observed.seen).map AdmissionGuard.reservation).toFinset

def countedJobs (s : DeleteLedger) (jobKey : String) (observed : ObservedPool) : Reservations :=
  (sweepObserved s.held observed.seen).filter fun e => e.2 ≠ jobKey

end DeleteLedger

theorem mem_sweepObserved {held : Reservations} {seen : List String} {e : String × String} :
    e ∈ sweepObserved held seen ↔ e ∈ held ∧ e.2 ∉ seen := by
  simp [sweepObserved]

theorem deleteLedgerAdmit_cases (held : Reservations) (repoKey jobKey : String)
    (observed : ObservedPool) (caps : DeleteCaps) :
    (∃ repoLive globalLive, deleteLedgerAdmit held repoKey jobKey observed caps =
      (.park repoLive globalLive, sweepObserved held observed.seen)) ∨
    deleteLedgerAdmit held repoKey jobKey observed caps =
      (.admitted, insert (repoKey, jobKey) (sweepObserved held observed.seen)) := by
  unfold deleteLedgerAdmit
  dsimp only
  split
  · exact .inl ⟨_, _, rfl⟩
  · exact .inr rfl

namespace DeleteLedger

variable {s s' : DeleteLedger}

theorem step_cases {c : LedgerCall} (h : s.step c = some s') :
    (∃ repoKey jobKey observed caps, c = .admission repoKey jobKey observed caps ∧
      (s' = ⟨sweepObserved s.held observed.seen,
          s.guards.map (AdmissionGuard.note observed.seen)⟩ ∨
        s' = ⟨insert (repoKey, jobKey) (sweepObserved s.held observed.seen),
          s.guards.map (AdmissionGuard.note observed.seen) ++
            [{ poolKey := repoKey, jobKey }]⟩)) ∨
    ∃ i g, c = .drop i ∧ s.guards[i]? = some g ∧
      s' = ⟨s.held.erase g.reservation, s.guards.eraseIdx i⟩ := by
  cases c with
  | admission repoKey jobKey observed caps =>
    refine .inl ⟨repoKey, jobKey, observed, caps, rfl, ?_⟩
    simp only [step] at h
    rcases deleteLedgerAdmit_cases s.held repoKey jobKey observed caps with ⟨r, g, heq⟩ | heq
    · rw [heq] at h
      exact .inl (Option.some.inj h).symm
    · rw [heq] at h
      exact .inr (Option.some.inj h).symm
  | drop i =>
    simp only [step] at h
    split at h
    · next g hg => exact .inr ⟨i, g, rfl, hg, (Option.some.inj h).symm⟩
    · cases h

theorem Accounted.note (h : s.Accounted) (observed : ObservedPool) :
    ∀ g ∈ s.guards.map (AdmissionGuard.note observed.seen), g.seen = false →
      g.reservation ∈ sweepObserved s.held observed.seen := by
  intro g hg hunseen
  obtain ⟨g₀, hg₀, rfl⟩ := List.mem_map.mp hg
  obtain ⟨hseen, hlisted⟩ : g₀.seen = false ∧ g₀.jobKey ∉ observed.seen := by
    simpa [AdmissionGuard.note] using hunseen
  exact mem_sweepObserved.mpr ⟨h g₀ hg₀ hseen, hlisted⟩

/-- One call keeps every admitted Job counted just when it is no drop beside a
guard of the same reservation that is still waiting. -/
theorem Accounted.step_iff (h : s.Accounted) {c : LedgerCall} (hstep : s.step c = some s') :
    s'.Accounted ↔ s.Sole c := by
  obtain ⟨repoKey, jobKey, observed, caps, rfl, rfl | rfl⟩ | ⟨i, g, rfl, hg, rfl⟩ :=
    step_cases hstep
  · exact iff_of_true (h.note observed) trivial
  · refine iff_of_true (fun g hg hunseen => ?_) trivial
    rcases List.mem_append.mp hg with hg | hg
    · exact Finset.mem_insert_of_mem (h.note observed g hg hunseen)
    · obtain rfl := List.mem_singleton.mp hg
      exact Finset.mem_insert_self _ _
  · constructor
    · intro hkept g' hg' other hother hsame
      obtain rfl : g = g' := Option.some.inj (hg.symm.trans hg')
      by_contra hwaiting
      have hmem := hkept other hother (Bool.eq_false_of_not_eq_true hwaiting)
      exact absurd hsame (Finset.ne_of_mem_erase hmem)
    · intro hsole other hother hwaiting
      have hmem := h other (List.mem_of_mem_eraseIdx hother) hwaiting
      refine Finset.mem_erase.mpr ⟨fun hsame => ?_, hmem⟩
      exact absurd (hsole g hg other hother hsame) (by simp [hwaiting])

def Guarded (s : DeleteLedger) : Prop := ∀ e ∈ s.held, ∃ g ∈ s.guards, g.reservation = e

theorem Guarded.step (h : s.Guarded) {c : LedgerCall} (hstep : s.step c = some s') :
    s'.Guarded := by
  have hnoted : ∀ seen, ∀ e ∈ s.held, ∃ g ∈ s.guards.map (AdmissionGuard.note seen),
      g.reservation = e := by
    intro seen e he
    obtain ⟨g, hg, rfl⟩ := h e he
    exact ⟨g.note seen, List.mem_map_of_mem hg, rfl⟩
  obtain ⟨repoKey, jobKey, observed, caps, rfl, rfl | rfl⟩ | ⟨i, g, rfl, hg, rfl⟩ :=
    step_cases hstep
  · exact fun e he => hnoted _ e (mem_sweepObserved.mp he).1
  · intro e he
    rcases Finset.mem_insert.mp he with rfl | he
    · exact ⟨{ poolKey := repoKey, jobKey }, by simp, rfl⟩
    · obtain ⟨g, hg, hres⟩ := hnoted observed.seen e (mem_sweepObserved.mp he).1
      exact ⟨g, List.mem_append_left _ hg, hres⟩
  · intro e he
    obtain ⟨hne, he⟩ := Finset.mem_erase.mp he
    obtain ⟨g', hg', rfl⟩ := h e he
    refine ⟨g', ?_, rfl⟩
    obtain ⟨j, hj⟩ := List.mem_iff_getElem?.mp hg'
    refine List.mem_eraseIdx_iff_getElem?.mpr ⟨j, fun hij => ?_, hj⟩
    subst hij
    exact hne (congrArg AdmissionGuard.reservation (Option.some.inj (hj.symm.trans hg)))

theorem Accounted.unseenJobs_subset (h : s.Accounted) (jobKey : String)
    (observed : ObservedPool) : s.unseenJobs jobKey observed ⊆ s.countedJobs jobKey observed := by
  intro e he
  obtain ⟨g, hg, rfl⟩ := List.mem_map.mp (List.mem_toFinset.mp he)
  obtain ⟨hmem, hconds⟩ := List.mem_filter.mp hg
  obtain ⟨hjob, hwaiting, hunlisted⟩ := of_decide_eq_true hconds
  have hheld := mem_sweepObserved.mpr ⟨h g hmem hwaiting, hunlisted⟩
  exact Finset.mem_filter.mpr ⟨hheld, hjob⟩

end DeleteLedger

/-- A wave is admitted only where the Jobs observed and those not yet seen
leave room. -/
theorem DeleteLedger.Accounted.room {s : DeleteLedger} (h : s.Accounted)
    {repoKey jobKey : String} {observed : ObservedPool} {caps : DeleteCaps} {held : Reservations}
    (hanswer : deleteLedgerAdmit s.held repoKey jobKey observed caps = (.admitted, held)) :
    observed.repoLive + reservedIn (s.unseenJobs jobKey observed) repoKey < caps.repo ∧
      ∀ cap, caps.global = some cap →
        observed.globalLive + (s.unseenJobs jobKey observed).card < cap := by
  have hsub := h.unseenJobs_subset jobKey observed
  have hrepo : reservedIn (s.unseenJobs jobKey observed) repoKey ≤
      reservedIn (s.countedJobs jobKey observed) repoKey :=
    Finset.card_le_card (Finset.filter_subset_filter _ hsub)
  have hglobal := Finset.card_le_card hsub
  unfold deleteLedgerAdmit at hanswer
  dsimp only at hanswer
  split at hanswer
  · cases hanswer
  · next hroom =>
    simp only [Bool.or_eq_true, decide_eq_true_eq, not_or, ge_iff_le, Nat.not_le,
      Option.any_eq_true, not_exists, not_and] at hroom
    refine ⟨lt_of_le_of_lt (Nat.add_le_add_left hrepo _) hroom.1, fun cap hcap => ?_⟩
    exact lt_of_le_of_lt (Nat.add_le_add_left hglobal _) (hroom.2 cap hcap)

/-- Over every sequence of admissions and drops in which no guard drops beside
another one of its reservation that is still waiting, every waiting guard keeps
its reservation and every admission leaves room for all Jobs not yet seen; the first
drop that breaks the rule takes a reservation that is still needed. Whatever
the sequence, the ledger is empty once all guards have dropped. -/
theorem delete_reservations_kept (s : DeleteLedger) :
    (Reaches DeleteLedger.step DeleteLedger.Sole .empty s →
      s.Accounted ∧
      (∀ repoKey jobKey observed caps held,
        deleteLedgerAdmit s.held repoKey jobKey observed caps = (.admitted, held) →
        observed.repoLive + reservedIn (s.unseenJobs jobKey observed) repoKey < caps.repo ∧
        ∀ cap, caps.global = some cap →
          observed.globalLive + (s.unseenJobs jobKey observed).card < cap) ∧
      ∀ c s', s.step c = some s' → (s'.Accounted ↔ s.Sole c)) ∧
    (Reaches DeleteLedger.step (fun _ _ => True) .empty s → s.guards = [] → s.held = ∅) := by
  constructor
  · intro hrun
    have haccounted := hrun.invariant DeleteLedger.Accounted (by simp [DeleteLedger.Accounted,
      DeleteLedger.empty]) fun t c u h hsole hstep => (h.step_iff hstep).mpr hsole
    exact ⟨haccounted, fun repoKey jobKey observed caps held hanswer => haccounted.room hanswer,
      fun c s' hstep => haccounted.step_iff hstep⟩
  · intro hrun hnone
    have hguarded := hrun.invariant DeleteLedger.Guarded (by simp [DeleteLedger.Guarded,
      DeleteLedger.empty]) fun t c u h _ hstep => h.step hstep
    refine Finset.eq_empty_of_forall_notMem fun e he => ?_
    obtain ⟨g, hg, -⟩ := hguarded e he
    rw [hnone] at hg
    cases hg

/-- Two reconciles of one wave, whose Job a third wave's LIST shows before
either guard drops. -/
theorem delete_reservations_kept_seen :
    (∃ s, runSteps DeleteLedger.step DeleteLedger.Sole .empty
        [.admission "nas" "apps/wave" {} {}, .admission "nas" "apps/wave" {} {},
          .admission "nas" "apps/late" ⟨1, 1, ["apps/wave"]⟩ {}, .drop 0] = some s ∧
      s.guards = [⟨"nas", "apps/wave", true⟩] ∧ s.Accounted) ∧
    ∃ s, runSteps DeleteLedger.step (fun _ _ => True) .empty
        [.admission "nas" "apps/wave" {} {}, .admission "nas" "apps/wave" {} {}, .drop 1,
          .drop 0] = some s ∧ s.held = ∅ := by
  constructor
  · refine exists_runSteps_imp (P := fun s => s.guards = [⟨"nas", "apps/wave", true⟩]) (by decide)
      fun s hs hguards => ?_
    exact ⟨hguards, ((delete_reservations_kept s).1 (reaches_of_runSteps hs)).1⟩
  · refine exists_runSteps_imp (P := fun s => s.guards = []) (by decide) fun s hs hnone => ?_
    exact (delete_reservations_kept s).2 (reaches_of_runSteps hs) hnone

/-- Two reconciles of one wave; the create of the first fails. Its guard takes
the reservation that the second still holds, and another wave is admitted
beside the second's Job, under a cap of one. -/
theorem delete_reservation_dropped_by_sibling :
    ∃ s, runSteps DeleteLedger.step (fun _ _ => True) .empty
        [.admission "nas" "apps/wave" {} {}, .admission "nas" "apps/wave" {} {},
          .drop 0] = some s ∧
      s.guards = [⟨"nas", "apps/wave", false⟩] ∧ s.held = ∅ ∧
      (deleteLedgerAdmit s.held "nas" "apps/other" {} { repo := 1 }).1 = .admitted :=
  ⟨_, rfl, by decide, by decide, by decide⟩

end Kopiur
