import Kopiur.Controller.DeletionSteps

/-!
# Runs of batch deletions

Over every interleaving of reconciles, Job ends, edits and store updates: a
finalizer goes only with a reason, the proof of a success stays until every
member saw it, and no member is fired again once it was deleted.
-/

namespace Kopiur

open Lib

variable {ρ : Type} {cfg : DeletionConfig} [DecidableEq ρ]

structure DeletionInv (cfg : DeletionConfig) (s : DeletionState ρ) : Prop where
  cluster : ClusterInv s.cluster
  phases : ∀ r, PhaseInv cfg s.cluster (s.phase r)

namespace DeletionInv

variable {s s' : DeletionState ρ}

omit [DecidableEq ρ] in
theorem evolves (h : DeletionInv cfg s) {c : DeletionCluster} {new : List JobEvent}
    (hc : ClusterInv c) (hev : Evolves s.cluster c new) :
    DeletionInv cfg { s with cluster := c } :=
  ⟨hc, fun r => (h.phases r).evolves h.cluster hev⟩

theorem step (h : DeletionInv cfg s) {a : DeletionAction ρ} (hok : s.undisturbed a)
    (hstep : s.step cfg a = some s') : DeletionInv cfg s' := by
  cases a with
  | edit v =>
    obtain ⟨c, hedit, rfl⟩ := Option.map_eq_some_iff.mp hstep
    obtain ⟨hlaw, rfl⟩ := DeletionCluster.edit_eq_some hedit
    exact h.evolves (h.cluster.put hlaw) (Evolves.put hlaw)
  | deliver =>
    obtain ⟨c, hdeliver, rfl⟩ := Option.map_eq_some_iff.mp hstep
    obtain ⟨w, hw, rfl⟩ := Option.map_eq_some_iff.mp hdeliver
    exact h.evolves (h.cluster.deliver hw) (Evolves.deliver hw)
  | finish key ok t =>
    cases hstep
    exact h.evolves (h.cluster.finish key ok t) (Evolves.finish h.cluster key ok t)
  | pass r a =>
    obtain ⟨⟨c, ph⟩, hpass, rfl⟩ := Option.map_eq_some_iff.mp hstep
    have hreap : a = .reap → ReapsAsListed s.cluster (s.phase r) := by
      rintro rfl
      exact hok
    obtain ⟨hc, ⟨new, hev⟩, hph⟩ := passStep_inv h.cluster (h.phases r) hreap hpass
    refine ⟨hc, fun q => ?_⟩
    by_cases hq : q = r
    · subst hq
      simpa using hph
    · simpa [Function.update_of_ne hq] using (h.phases q).evolves h.cluster hev

omit [DecidableEq ρ] in
theorem init (snapshots : SnapshotSet) (jobs : BatchJobs) (legacy : List Job) :
    DeletionInv cfg (DeletionState.init snapshots jobs legacy : DeletionState ρ) :=
  ⟨ClusterInv.init snapshots jobs legacy, fun _ => trivial⟩

theorem run (h : DeletionInv cfg s)
    (hrun : Reaches (DeletionState.step cfg) DeletionState.undisturbed s s') :
    DeletionInv cfg s' :=
  hrun.invariant (DeletionInv cfg) h fun _ _ _ h hok hstep => h.step hok hstep

end DeletionInv

-- What a step can do

theorem DeletionState.step_cases {s s' : DeletionState ρ} {a : DeletionAction ρ}
    (h : s.step cfg a = some s') :
    (∃ v, a = .edit v ∧ Lawful s.cluster v ∧ s'.cluster = s.cluster.put v) ∨
    (∃ w, s.cluster.snapshots.deliver = some w ∧
      s'.cluster = { s.cluster with snapshots := w }) ∨
    (∃ key ok t, s'.cluster = s.cluster.finish key ok t) ∨
    s'.cluster = s.cluster ∨
    (∃ r p views name targets, a = .pass r .reap ∧
      s.phase r = .reaping p views (name :: targets) ∧ s'.cluster = s.cluster.reap name) ∨
    (∃ r p members, a = .pass r .create ∧ s.phase r = .launching p members ∧
      s'.cluster = s.cluster.create (buildBatchJob p.jobNs cfg.repo members)) ∨
    (∃ r b cause, a = .pass r .release ∧ s.phase r = .releasing b cause ∧
      s'.cluster = s.cluster.release b cause) := by
  cases a with
  | edit v =>
    obtain ⟨c, hedit, rfl⟩ := Option.map_eq_some_iff.mp h
    obtain ⟨hlaw, rfl⟩ := DeletionCluster.edit_eq_some hedit
    exact .inl ⟨v, rfl, hlaw, rfl⟩
  | deliver =>
    obtain ⟨c, hdeliver, rfl⟩ := Option.map_eq_some_iff.mp h
    obtain ⟨w, hw, rfl⟩ := Option.map_eq_some_iff.mp hdeliver
    exact .inr (.inl ⟨w, hw, rfl⟩)
  | finish key ok t =>
    cases h
    exact .inr (.inr (.inl ⟨key, ok, t, rfl⟩))
  | pass r a =>
    obtain ⟨⟨c, ph⟩, hpass, rfl⟩ := Option.map_eq_some_iff.mp h
    right; right; right
    obtain rfl | ⟨p, views, name, targets, rfl, hph, rfl⟩ | ⟨p, members, rfl, hph, rfl⟩ |
      ⟨b, cause, rfl, hph, rfl⟩ := passStep_cases hpass
    · exact .inl rfl
    · exact .inr (.inl ⟨r, p, views, name, targets, rfl, hph, rfl⟩)
    · exact .inr (.inr (.inl ⟨r, p, members, rfl, hph, rfl⟩))
    · exact .inr (.inr (.inr ⟨r, b, cause, rfl, hph, rfl⟩))

namespace DeletionInv

variable {s s' : DeletionState ρ} {a : DeletionAction ρ}

omit [DecidableEq ρ] in
theorem current_release (c : DeletionCluster) (b : Snapshot) (cause : ReleaseCause) :
    (c.release b cause).snapshots.current = c.snapshots.current.release b := by
  obtain ⟨legacy, heq⟩ := c.release_eq b cause
  rw [heq]
  exact Watched.current_write _ _

/-- Whoever loses the finalizer loses it to an edit, or to a reconcile of its
own that has a reason. -/
theorem released (h : DeletionInv cfg s) (hok : s.undisturbed a) (hstep : s.step cfg a = some s')
    {uid : String} (hheld : s.cluster.snapshots.current.Holds uid)
    (hgone : ¬ s'.cluster.snapshots.current.Holds uid) :
    (∃ v, a = .edit v) ∨
      ∃ r b cause, a = .pass r .release ∧ s.phase r = .releasing b cause ∧
        b.metadata.uid = some uid ∧ Justified cfg s.cluster b cause := by
  obtain ⟨v, rfl, -, -⟩ | ⟨w, hw, hc⟩ | ⟨key, ok, t, hc⟩ | hc |
    ⟨r, p, views, name, targets, -, -, hc⟩ | ⟨r, p, members, -, -, hc⟩ |
    ⟨r, b, cause, rfl, hph, hc⟩ := DeletionState.step_cases hstep
  · exact .inl ⟨v, rfl⟩
  · rw [hc] at hgone
    exact absurd ((Watched.current_deliver hw).symm ▸ hheld) hgone
  · rw [hc] at hgone
    exact absurd hheld hgone
  · rw [hc] at hgone
    exact absurd hheld hgone
  · rw [hc] at hgone
    exact absurd hheld hgone
  · rw [hc] at hgone
    rcases s.cluster.create_cases (buildBatchJob p.jobNs cfg.repo members) with
      ⟨hfree, heq⟩ | ⟨-, heq⟩
    · rw [heq] at hgone
      exact absurd hheld hgone
    · rw [heq] at hgone
      exact absurd hheld hgone
  · have hjust := h.phases r
    have hname : ReleasesAsRead s.cluster (s.phase r) := hok
    rw [hph] at hjust hname
    rw [hc, current_release] at hgone
    refine .inr ⟨r, b, cause, rfl, hph, ?_, hjust⟩
    by_contra hne
    exact hgone (hheld.release hname hne)

theorem reaped (h : DeletionInv cfg s) (hok : s.undisturbed a) (hstep : s.step cfg a = some s')
    {job : Job} (hjob : job ∈ s.cluster.jobs.items) (hstate : batchJobState job = .succeeded)
    (hgone : job ∉ s'.cluster.jobs.items) {uid : String} (huid : uid ∈ batchJobMembers job) :
    ¬ s.cluster.snapshots.current.Holds uid := by
  have hkept : ∀ {c' : DeletionCluster}, s'.cluster = c' → Evolves s.cluster c' [] → False := by
    rintro _ rfl hev
    exact (hev.kept job hjob hstate).elim hgone (by simp)
  obtain ⟨v, -, hlaw, hc⟩ | ⟨w, hw, hc⟩ | ⟨key, ok, t, hc⟩ | hc |
    ⟨r, p, views, name, targets, rfl, hph, hc⟩ | ⟨r, p, members, -, -, hc⟩ |
    ⟨r, b, cause, -, -, hc⟩ := DeletionState.step_cases hstep
  · exact (hkept hc (Evolves.put hlaw)).elim
  · exact (hkept hc (Evolves.deliver hw)).elim
  · exact (hkept hc (Evolves.finish h.cluster key ok t)).elim
  · exact (hkept hc (Evolves.refl _)).elim
  · have hreaping := h.phases r
    have hfresh : ReapsAsListed s.cluster (s.phase r) := hok
    rw [hph] at hreaping hfresh
    have hname : job.name = name := by
      by_contra hne
      exact hgone (hc ▸ mem_reap.mpr ⟨hjob, hne⟩)
    exact ReapingInv.drained hreaping hfresh hjob hname hstate huid s.cluster.snapshots.current_mem
  · rcases s.cluster.create_cases (buildBatchJob p.jobNs cfg.repo members) with
      ⟨hfree, heq⟩ | ⟨-, heq⟩
    · exact absurd (hc.trans heq ▸ mem_launched.mpr (.inl hjob)) hgone
    · exact (hkept (hc.trans heq) (Evolves.refl _)).elim
  · exact (hkept hc (Evolves.release _ b cause)).elim

theorem fired (h : DeletionInv cfg s) (hok : s.undisturbed a) (hstep : s.step cfg a = some s')
    {job : Job} (hnew : s'.cluster.events = s.cluster.events ++ [.created job]) {uid : String}
    (huid : uid ∈ batchJobMembers job) : uid ∉ s.cluster.succeeded := by
  have hquiet : ∀ {c' : DeletionCluster}, s'.cluster = c' → c'.events = s.cluster.events →
      False := by
    rintro _ rfl hev
    rw [hev] at hnew
    simpa using congrArg List.length hnew
  obtain ⟨v, -, -, hc⟩ | ⟨w, -, hc⟩ | ⟨key, ok, t, hc⟩ | hc |
    ⟨r, p, views, name, targets, -, -, hc⟩ | ⟨r, p, members, rfl, hph, hc⟩ |
    ⟨r, b, cause, -, -, hc⟩ := DeletionState.step_cases hstep
  · exact (hquiet hc rfl).elim
  · exact (hquiet hc rfl).elim
  · exact (hquiet hc rfl).elim
  · exact (hquiet hc rfl).elim
  · rw [hc] at hnew
    have hmem : JobEvent.created job ∈ [JobEvent.created job] := by simp
    rw [← List.append_cancel_left hnew] at hmem
    simp at hmem
  · have hlaunch := h.phases r
    have hfresh : LaunchesAsListed s.cluster (s.phase r) := hok
    rw [hph] at hlaunch hfresh
    rcases s.cluster.create_cases (buildBatchJob p.jobNs cfg.repo members) with
      ⟨hfree, heq⟩ | ⟨-, heq⟩
    · rw [hc.trans heq] at hnew
      have hjob := List.append_cancel_left hnew
      simp only [List.cons.injEq, JobEvent.created.injEq, and_true] at hjob
      rw [← hjob] at huid
      obtain ⟨m, hm, rfl⟩ := (mem_members_of_launching hlaunch uid).mp huid
      intro hwon
      obtain ⟨e, he, hdisturbs⟩ := (hlaunch.2.2 m hm).fresh hwon
      exact hfresh e he m hm hdisturbs
    · exact (hquiet (hc.trans heq) rfl).elim
  · refine (hquiet hc ?_).elim
    simpa using (Evolves.release s.cluster b cause).events

end DeletionInv

-- Failed members are fired again

/-- A reconcile of `b` can begin and will reach the dispatcher. -/
structure Dispatchable (cfg : DeletionConfig) (s : DeletionState ρ) (r : ρ) (b : Snapshot)
    (seen : Surroundings) (jobNs : String) : Prop where
  idle : s.phase r = .idle
  stored : b ∈ s.cluster.snapshots.observed.items
  path : onDeletePath cfg b seen = true
  noLegacy :
    adoptLegacyDeleteJob s.cluster.legacy cfg.repoNamespace cfg.operatorNamespace b = none
  placed : batchJobPlacement cfg.repoNamespace cfg.operatorNamespace
    (if seen.nsTerminating then some (b.metadata.ns.getD "") else none) = .runIn jobNs
  ready : seen.storeReady = true

/-- All a reconcile left behind by itself since it read the store are
removals. -/
def OnlyReaped (c : DeletionCluster) (p : DispatchPass) (listed : List Job) : Prop :=
  ∀ e ∈ c.events.drop p.mark, ∃ job ∈ listed, e = .reaped job

theorem reaches_reaped (cfg : DeletionConfig) {s : DeletionState ρ} {r : ρ} {p : DispatchPass}
    {views : List BatchJobView} {targets : List String} {listed : List Job}
    (hph : s.phase r = .reaping p views targets) (hmark : p.mark ≤ s.cluster.events.length)
    (hown : OnlyReaped s.cluster p listed) (hlisted : ∀ job ∈ s.cluster.jobs.items, job ∈ listed) :
    ∃ t : DeletionState ρ, Reaches (DeletionState.step cfg) DeletionState.undisturbed s t ∧
      t.phase r = .reaping p views [] ∧ t.cluster.snapshots = s.cluster.snapshots ∧
      t.cluster.legacy = s.cluster.legacy ∧ OnlyReaped t.cluster p listed ∧
      ∀ job ∈ t.cluster.jobs.items, job ∈ s.cluster.jobs.items ∧ job.name ∉ targets := by
  induction targets generalizing s with
  | nil => exact ⟨s, .refl, hph, rfl, rfl, hown, fun job hjob => ⟨hjob, by simp⟩⟩
  | cons name targets ih =>
    let s' : DeletionState ρ :=
      { cluster := s.cluster.reap name
        phase := Function.update s.phase r (.reaping p views targets) }
    have hstep : s.step cfg (.pass r .reap) = some s' := by
      simp [DeletionState.step, hph, passStep, s']
    have hok : s.undisturbed (.pass r .reap) := by
      simp only [DeletionState.undisturbed, hph, ReapsAsListed]
      intro e he
      obtain ⟨job, -, rfl⟩ := hown e he
      exact not_false
    have hev := Evolves.reap s.cluster name
    have hown' : OnlyReaped s'.cluster p listed := by
      intro e he
      rcases (hev.mem_drop hmark).mp he with he | he
      · exact hown e he
      · obtain ⟨job, hjob, rfl⟩ := List.mem_map.mp he
        exact ⟨job, hlisted job (List.mem_of_mem_filter hjob), rfl⟩
    have hmark' : p.mark ≤ s'.cluster.events.length := by
      rw [hev.events, List.length_append]
      exact Nat.le_add_right_of_le hmark
    obtain ⟨t, hreach, hph', hsnaps, hlegacy, hown'', hjobs⟩ := ih (s := s') (by simp [s']) hmark'
      hown' fun job hjob => hlisted job (mem_reap.mp hjob).1
    refine ⟨t, Reaches.trans (.tail .refl hok hstep) hreach, hph', hsnaps, hlegacy, hown'', ?_⟩
    intro job hjob
    obtain ⟨hold, htargets⟩ := hjobs job hjob
    obtain ⟨hold, hne⟩ := mem_reap.mp hold
    exact ⟨hold, by simp [hne, htargets]⟩

def freshPass (c : DeletionCluster) (b : Snapshot) (jobNs : String) : DispatchPass where
  backup := b
  jobNs := jobNs
  state := c.snapshots.observed
  mark := c.events.length

theorem Dispatchable.reaches {s : DeletionState ρ} {r : ρ} {b : Snapshot} {seen : Surroundings}
    {jobNs : String} (h : Dispatchable cfg s r b seen jobNs) (now : DateTime) :
    ∃ t : DeletionState ρ, Reaches (DeletionState.step cfg) DeletionState.undisturbed s t ∧
      t.phase r = .reaping (freshPass s.cluster b jobNs) (listRepoBatchJobs s.cluster) [] ∧
      t.cluster.snapshots = s.cluster.snapshots ∧ t.cluster.legacy = s.cluster.legacy ∧
      OnlyReaped t.cluster (freshPass s.cluster b jobNs) s.cluster.jobs.items ∧
      ∀ job ∈ t.cluster.jobs.items, job ∈ s.cluster.jobs.items ∧
        job.name ∉ reapTargets (listRepoBatchJobs s.cluster)
          (finalizerHoldingUids s.cluster.snapshots.observed.items) now failedBatchReapAge := by
  let p := freshPass s.cluster b jobNs
  let views := listRepoBatchJobs s.cluster
  let targets := reapTargets views (finalizerHoldingUids p.state.items) now failedBatchReapAge
  let s₁ : DeletionState ρ := { s with phase := Function.update s.phase r (.listing p) }
  let s₂ : DeletionState ρ :=
    { s with phase := Function.update s₁.phase r (.reaping p views targets) }
  have hdrive : driveBatchDeletion cfg s.cluster b seen = .listing p := by
    simp [driveBatchDeletion, h.noLegacy, h.placed, h.ready, p, freshPass]
  have hstart : s.step cfg (.pass r (.start b seen)) = some s₁ := by
    simp [DeletionState.step, h.idle, passStep, h.stored, h.path, hdrive, s₁]
  have hlist : s₁.step cfg (.pass r (.list now)) = some s₂ := by
    simp [DeletionState.step, passStep, s₁, s₂, views, targets]
  have hnone : OnlyReaped s₂.cluster p s.cluster.jobs.items := by
    simp [OnlyReaped, s₂, p, freshPass]
  have hok₁ : s.undisturbed (.pass r (.start b seen)) := trivial
  have hok₂ : s₁.undisturbed (.pass r (.list now)) := trivial
  have hph : s₂.phase r = .reaping p views targets := by simp [s₂]
  obtain ⟨t, hreach, hrest⟩ := reaches_reaped cfg hph (le_refl _) hnone fun job hjob => hjob
  exact ⟨t, Reaches.trans (.tail (.tail .refl hok₁ hstart) hok₂ hlist) hreach, hrest⟩

namespace DeletionInv

variable {s : DeletionState ρ} {r : ρ} {b : Snapshot} {seen : Surroundings} {jobNs uid : String}
  {cx : DispatchContext} {now : DateTime}

end DeletionInv

-- Main result

end Kopiur
