import Kopiur.Controller.DeletionCluster

/-!
# Reconciles under batch deletions

What a reconcile knows at each of its stages, that this survives the steps of
the others, and that its own steps lead from stage to stage.
-/

namespace Kopiur

open Lib

variable {cfg : DeletionConfig} {c c' : DeletionCluster}

-- Invariants of a reconcile

def Disturbed (c : DeletionCluster) (p : DispatchPass) (uid : String) : Prop :=
  ∃ e ∈ c.events.drop p.mark, e.Disturbs uid

def CreatedSince (c : DeletionCluster) (p : DispatchPass) (name : String) : Prop :=
  ∃ e ∈ c.events.drop p.mark, e.Creates name

structure PassInv (c : DeletionCluster) (p : DispatchPass) : Prop where
  marked : p.mark ≤ c.events.length
  settled : ∀ uid, p.state.Terminates uid → Settled c uid
  -- For the members of a Job the pass can know, the store it read is behind no
  -- version that is still around.
  behind : ∀ job ∈ c.jobs.items, ¬ CreatedSince c p job.name →
    ∀ uid ∈ batchJobMembers job, ∀ v ∈ c.snapshots.versions, v.Holds uid → p.state.Holds uid

def Dispensable (p : DispatchPass) (job : Job) : Prop :=
  batchJobState job ≠ .live ∧
    (batchJobState job = .succeeded → ∀ uid ∈ batchJobMembers job, ¬ p.state.Holds uid)

structure ReapingInv (c : DeletionCluster) (p : DispatchPass) (views : List BatchJobView)
    (targets : List String) : Prop where
  pass : PassInv c p
  won : ∀ view ∈ views, view.state = .succeeded → ∀ uid ∈ view.members, uid ∈ c.succeeded
  targets : ∀ job ∈ c.jobs.items, job.name ∈ targets →
    CreatedSince c p job.name ∨ Dispensable p job
  covered : ∀ uid, p.state.Holds uid → uid ∈ c.succeeded →
    uid ∈ coveredUids views ∨ Disturbed c p uid
  running : ∀ job ∈ c.jobs.items, batchJobState job ≠ .failed → ∀ uid ∈ batchJobMembers job,
    uid ∈ coveredUids views ∨ Disturbed c p uid

structure MemberInv (c : DeletionCluster) (p : DispatchPass) (uid : String) : Prop where
  valid : validUid uid = true
  terminates : p.state.Terminates uid
  fresh : uid ∈ c.succeeded → Disturbed c p uid
  alone : ∀ job ∈ c.jobs.items, batchJobState job ≠ .failed → uid ∈ batchJobMembers job →
    Disturbed c p uid

/-- Why a finalizer may go. -/
def Justified (cfg : DeletionConfig) (c : DeletionCluster) (b : Snapshot) : ReleaseCause → Prop
  | .batchJob => b.metadata.uid.getD "" ∈ c.succeeded
  | .legacyJob legacy =>
    jobTerminalState legacy.job = some true ∧
      ∃ jobs, adoptLegacyDeleteJob jobs cfg.repoNamespace cfg.operatorNamespace b = some legacy
  | .orphaned reason =>
    ∃ terminatingNs, batchJobPlacement cfg.repoNamespace cfg.operatorNamespace terminatingNs =
      .orphanFallback reason

def PhaseInv (cfg : DeletionConfig) (c : DeletionCluster) : DeletionPhase → Prop
  | .idle => True
  | .listing p =>
    PassInv c p ∧ ∀ uid, p.state.Holds uid → uid ∈ c.succeeded →
      SucceededJob c uid ∨ Disturbed c p uid
  | .reaping p views targets => ReapingInv c p views targets
  | .launching p members =>
    PassInv c p ∧ members ≠ [] ∧ ∀ m ∈ members, MemberInv c p m.uid
  | .releasing b cause => Justified cfg c b cause

section Evolution

variable {new : List JobEvent} {p : DispatchPass}

theorem Evolves.mem_drop (h : Evolves c c' new) (hmark : p.mark ≤ c.events.length)
    {e : JobEvent} : e ∈ c'.events.drop p.mark ↔ e ∈ c.events.drop p.mark ∨ e ∈ new := by
  rw [h.events, List.drop_append_of_le_length hmark, List.mem_append]

theorem Disturbed.evolves {uid : String} (h : Evolves c c' new) (hmark : p.mark ≤ c.events.length)
    (hd : Disturbed c p uid) : Disturbed c' p uid := by
  obtain ⟨e, he, hdisturbs⟩ := hd
  exact ⟨e, (h.mem_drop hmark).mpr (.inl he), hdisturbs⟩

theorem CreatedSince.evolves {name : String} (h : Evolves c c' new)
    (hmark : p.mark ≤ c.events.length) (hd : CreatedSince c p name) : CreatedSince c' p name := by
  obtain ⟨e, he, hcreates⟩ := hd
  exact ⟨e, (h.mem_drop hmark).mpr (.inl he), hcreates⟩

theorem Evolves.job_cases (h : Evolves c c' new) (hmark : p.mark ≤ c.events.length) {job' : Job}
    (hjob' : job' ∈ c'.jobs.items) :
    (∃ job ∈ c.jobs.items, job.name = job'.name ∧ batchJobMembers job = batchJobMembers job' ∧
      (batchJobState job = .live ∨ batchJobState job = batchJobState job')) ∨
    (CreatedSince c' p job'.name ∧ ∀ uid ∈ batchJobMembers job', Disturbed c' p uid) := by
  refine (h.jobs job' hjob').imp id fun hnew => ?_
  have he := (h.mem_drop hmark).mpr (.inr hnew)
  exact ⟨⟨_, he, rfl⟩, fun uid huid => ⟨_, he, huid⟩⟩

theorem Evolves.ne_failed {job job' : Job}
    (h : batchJobState job = .live ∨ batchJobState job = batchJobState job')
    (hne : batchJobState job' ≠ .failed) : batchJobState job ≠ .failed := by
  rcases h with hlive | hsame
  · simp [hlive]
  · rw [hsame]
    exact hne

theorem SucceededJob.evolves {uid : String} (h : Evolves c c' new)
    (hmark : p.mark ≤ c.events.length) (hs : SucceededJob c uid) :
    SucceededJob c' uid ∨ Disturbed c' p uid := by
  obtain ⟨job, hjob, hstate, huid⟩ := hs
  rcases h.kept job hjob hstate with hkept | hreaped
  · exact .inl ⟨job, hkept, hstate, huid⟩
  · exact .inr ⟨_, (h.mem_drop hmark).mpr (.inr hreaped), hstate, huid⟩

theorem PassInv.evolves (hp : PassInv c p) (hc : ClusterInv c) (h : Evolves c c' new) :
    PassInv c' p where
  marked := by
    rw [h.events, List.length_append]
    exact Nat.le_add_right_of_le hp.marked
  settled := fun uid hterm => h.settled uid (hp.settled uid hterm)
  behind := by
    intro job' hjob' hcreated uid huid v' hv' hheld
    rcases h.job_cases hp.marked hjob' with ⟨job, hjob, hname, hmembers, -⟩ | hnew
    · rw [← hmembers] at huid
      obtain ⟨v, hv, hheld⟩ := h.held uid (hc.members job hjob uid huid) v' hv' hheld
      refine hp.behind job hjob (fun hold => hcreated ?_) uid huid v hv hheld
      exact hname ▸ hold.evolves h hp.marked
    · exact absurd hnew.1 hcreated

theorem ReapingInv.evolves {views : List BatchJobView} {targets : List String}
    (hr : ReapingInv c p views targets) (hc : ClusterInv c) (h : Evolves c c' new) :
    ReapingInv c' p views targets where
  pass := hr.pass.evolves hc h
  won := fun view hview hstate uid huid => h.succeeded (hr.won view hview hstate uid huid)
  targets := by
    intro job' hjob' htarget
    rcases h.job_cases hr.pass.marked hjob' with ⟨job, hjob, hname, hmembers, hstate⟩ | hnew
    · rw [← hname] at htarget ⊢
      refine (hr.targets job hjob htarget).imp (fun hold => hold.evolves h hr.pass.marked) ?_
      rintro ⟨hended, hdrained⟩
      have hsame := hstate.resolve_left hended
      exact ⟨hsame ▸ hended, by rw [← hsame, ← hmembers]; exact hdrained⟩
    · exact .inl hnew.1
  covered := by
    intro uid hheld huid
    have hlift : ∀ {u}, u ∈ coveredUids views ∨ Disturbed c p u →
        u ∈ coveredUids views ∨ Disturbed c' p u :=
      fun hor => hor.imp id fun hd => hd.evolves h hr.pass.marked
    rcases h.won uid huid with hold | ⟨-, job, hjob, hlive, hmem⟩
    · exact hlift (hr.covered uid hheld hold)
    · exact hlift (hr.running job hjob (by simp [hlive]) uid hmem)
  running := by
    intro job' hjob' hne uid huid
    rcases h.job_cases hr.pass.marked hjob' with ⟨job, hjob, -, hmembers, hstate⟩ | hnew
    · exact (hr.running job hjob (Evolves.ne_failed hstate hne) uid (hmembers ▸ huid)).imp id
        fun hd => hd.evolves h hr.pass.marked
    · exact .inr (hnew.2 uid huid)

theorem MemberInv.evolves {uid : String} (hm : MemberInv c p uid)
    (hmark : p.mark ≤ c.events.length) (h : Evolves c c' new) : MemberInv c' p uid where
  valid := hm.valid
  terminates := hm.terminates
  fresh := by
    intro huid
    rcases h.won uid huid with hold | ⟨-, job, hjob, hlive, hmem⟩
    · exact (hm.fresh hold).evolves h hmark
    · exact (hm.alone job hjob (by simp [hlive]) hmem).evolves h hmark
  alone := by
    intro job' hjob' hne huid
    rcases h.job_cases hmark hjob' with ⟨job, hjob, -, hmembers, hstate⟩ | hnew
    · exact (hm.alone job hjob (Evolves.ne_failed hstate hne) (hmembers ▸ huid)).evolves h hmark
    · exact hnew.2 uid huid

theorem PhaseInv.evolves {ph : DeletionPhase} (hph : PhaseInv cfg c ph) (hc : ClusterInv c)
    (h : Evolves c c' new) : PhaseInv cfg c' ph := by
  cases ph with
  | idle => trivial
  | listing p =>
    obtain ⟨hp, hproof⟩ := hph
    refine ⟨hp.evolves hc h, fun uid hheld huid => ?_⟩
    rcases h.won uid huid with hold | hnew
    · rcases hproof uid hheld hold with hjob | hd
      · exact hjob.evolves h hp.marked
      · exact .inr (hd.evolves h hp.marked)
    · exact .inl hnew.1
  | reaping p views targets => exact ReapingInv.evolves hph hc h
  | launching p members =>
    obtain ⟨hp, hne, hmembers⟩ := hph
    exact ⟨hp.evolves hc h, hne, fun m hm => (hmembers m hm).evolves hp.marked h⟩
  | releasing b cause =>
    cases cause with
    | batchJob => exact h.succeeded hph
    | legacyJob legacy => exact hph
    | orphaned reason => exact hph

end Evolution

-- The steps of a reconcile

theorem driveBatchDeletion_inv (hc : ClusterInv c) (b : Snapshot) (seen : Surroundings) :
    PhaseInv cfg c (driveBatchDeletion cfg c b seen) := by
  unfold driveBatchDeletion
  split
  case h_1 legacy hlegacy =>
    split
    case h_1 hstate => exact ⟨hstate, c.legacy, hlegacy⟩
    case h_2 => trivial
    case h_3 => trivial
  case h_2 =>
    split
    case h_1 reason hplace => exact ⟨_, hplace⟩
    case h_2 =>
      split
      case isFalse => trivial
      case isTrue =>
        refine ⟨⟨le_refl _, ?_, ?_⟩, ?_⟩
        · intro uid hterm
          exact ⟨hc.doomed _ c.snapshots.observed_mem uid hterm, hc.marks.observed hterm⟩
        · intro job hjob _ uid huid v hv hheld
          exact (hc.members job hjob uid huid).2.held_observed hv hheld
        · intro uid hheld huid
          refine .inl ((hc.proof uid huid).resolve_right ?_)
          rintro ⟨-, hgone⟩
          exact hgone _ c.snapshots.observed_mem hheld

theorem batchJobView_eq_some {job : Job} {view : BatchJobView} (h : batchJobView job = some view) :
    view = ⟨job.name, batchJobMembers job, batchJobState job, jobTerminalAt job⟩ := by
  unfold batchJobView at h
  simp only at h
  split at h
  case isTrue => cases h
  case isFalse =>
    cases h
    rfl

theorem mem_listRepoBatchJobs {view : BatchJobView} (h : view ∈ listRepoBatchJobs c) :
    ∃ job ∈ c.jobs.items,
      view = ⟨job.name, batchJobMembers job, batchJobState job, jobTerminalAt job⟩ := by
  obtain ⟨job, hjob, hview⟩ := List.mem_filterMap.mp h
  exact ⟨job, hjob, batchJobView_eq_some hview⟩

theorem view_of_job {job : Job} (hjob : job ∈ c.jobs.items) {uid : String}
    (huid : uid ∈ batchJobMembers job) :
    ⟨job.name, batchJobMembers job, batchJobState job, jobTerminalAt job⟩ ∈
      listRepoBatchJobs c := by
  refine List.mem_filterMap.mpr ⟨job, hjob, ?_⟩
  have hne : ¬ (batchJobMembers job).isEmpty = true := by
    intro hempty
    rw [List.isEmpty_iff.mp hempty] at huid
    cases huid
  simp [batchJobView, hne]

theorem covered_of_job {job : Job} (hjob : job ∈ c.jobs.items)
    (hne : batchJobState job ≠ .failed) {uid : String} (huid : uid ∈ batchJobMembers job) :
    uid ∈ coveredUids (listRepoBatchJobs c) := by
  refine mem_coveredUids.mpr ⟨_, view_of_job hjob huid, ?_, huid⟩
  cases hstate : batchJobState job with
  | live => rfl
  | succeeded => rfl
  | failed => exact absurd hstate hne

theorem mem_reapTargets {views : List BatchJobView} {holding : List String} {now : DateTime}
    {age : Duration} {name : String} (h : name ∈ reapTargets views holding now age) :
    ∃ view ∈ views, view.name = name ∧ view.state ≠ .live ∧
      (view.state = .succeeded → ∀ uid ∈ view.members, uid ∉ holding) := by
  obtain ⟨view, hview, hname⟩ := List.mem_filterMap.mp h
  refine ⟨view, hview, ?_⟩
  cases hstate : view.state with
  | live => simp [hstate] at hname
  | succeeded =>
    simp only [hstate, Option.ite_none_right_eq_some, Option.some.injEq] at hname
    exact ⟨hname.2, by simp, fun _ => by simpa using hname.1⟩
  | failed =>
    simp only [hstate, Option.ite_none_right_eq_some, Option.some.injEq] at hname
    exact ⟨hname.2, by simp, by simp⟩

theorem ReapingInv.list (hc : ClusterInv c) {p : DispatchPass} (h : PhaseInv cfg c (.listing p))
    (now : DateTime) :
    ReapingInv c p (listRepoBatchJobs c) (reapTargets (listRepoBatchJobs c)
      (finalizerHoldingUids p.state.items) now failedBatchReapAge) where
  pass := h.1
  won := by
    intro view hview hstate uid huid
    obtain ⟨job, hjob, rfl⟩ := mem_listRepoBatchJobs hview
    exact hc.won uid ⟨job, hjob, hstate, huid⟩
  targets := by
    intro job hjob htarget
    obtain ⟨view, hview, hname, hended, hdrained⟩ := mem_reapTargets htarget
    obtain ⟨job', hjob', rfl⟩ := mem_listRepoBatchJobs hview
    obtain rfl := c.jobs.eq_of_name hjob' hjob hname
    exact .inr ⟨hended, hdrained⟩
  covered := by
    intro uid hheld huid
    refine (h.2 uid hheld huid).imp ?_ id
    rintro ⟨job, hjob, hstate, hmem⟩
    exact covered_of_job hjob (by simp [hstate]) hmem
  running := fun job hjob hne uid huid => .inl (covered_of_job hjob hne huid)

theorem ReapingInv.rest {p : DispatchPass} {views : List BatchJobView} {name : String}
    {targets : List String} (h : ReapingInv c p views (name :: targets)) :
    ReapingInv c p views targets where
  pass := h.pass
  won := h.won
  targets := fun job hjob hname => h.targets job hjob (List.mem_cons_of_mem _ hname)
  covered := h.covered
  running := h.running

theorem ReapingInv.drained {p : DispatchPass} {views : List BatchJobView} {name : String}
    {targets : List String} (h : ReapingInv c p views (name :: targets))
    (hfresh : ReapsAsListed c (.reaping p views (name :: targets))) {job : Job}
    (hjob : job ∈ c.jobs.items) (hname : job.name = name) (hstate : batchJobState job = .succeeded)
    {uid : String} (huid : uid ∈ batchJobMembers job) {v : SnapshotSet}
    (hv : v ∈ c.snapshots.versions) : ¬ v.Holds uid := by
  intro hheld
  have hnew : ¬ CreatedSince c p job.name := by
    rintro ⟨e, he, hcreates⟩
    exact hfresh e he (hname ▸ hcreates)
  have hdisp := (h.targets job hjob (by simp [hname])).resolve_left hnew
  exact hdisp.2 hstate uid huid (h.pass.behind job hjob hnew uid huid v hv hheld)

theorem DispatchContext.held_of_eligible {cx : DispatchContext} {m : PendingMember}
    {v : SnapshotSet} (hv : cx.snapshots = v.items) (h : m ∈ cx.eligible) :
    validUid m.uid = true ∧ v.Terminates m.uid ∧ v.Holds m.uid := by
  obtain ⟨b, hb, hmember⟩ := List.mem_filterMap.mp ((fireEligible_sublist _ _).subset h)
  rw [hv] at hb
  obtain ⟨hdel, -, huid, hfin, -⟩ := pendingMemberFor_spec hmember
  refine ⟨v.validUid_of_mem hb huid, mem_terminatingUids.mpr ⟨b, hb, ?_, huid⟩,
    mem_finalizerHoldingUids.mpr ⟨b, hb, by simpa [holdsFinalizer] using hfin, huid⟩⟩
  simp only [deletionTimestampUtc, Option.map_eq_some_iff] at hdel
  obtain ⟨t, ht, -⟩ := hdel
  simp [ht]

theorem dispatchBatchForMember_inv {p : DispatchPass} {views : List BatchJobView}
    (h : ReapingInv c p views []) (cx : DispatchContext) :
    PhaseInv cfg c (dispatchBatchForMember cfg p views cx) := by
  unfold dispatchBatchForMember
  split
  case h_1 => trivial
  case h_2 hdisp =>
    obtain ⟨view, hview, hstate, huid⟩ := memberDisposition_succeeded_iff.mp hdisp
    exact h.won view hview hstate p.uid huid
  case h_3 => trivial
  case h_4 =>
    split
    case h_2 => trivial
    case h_1 members hwave =>
      refine ⟨h.pass, DispatchContext.wave_ne_nil hwave, fun m hm => ?_⟩
      obtain ⟨helig, hcov⟩ := DispatchContext.mem_wave hwave hm
      obtain ⟨hvalid, hterm, hheld⟩ := DispatchContext.held_of_eligible rfl helig
      refine ⟨hvalid, hterm, fun huid => (h.covered m.uid hheld huid).resolve_left hcov, ?_⟩
      exact fun job hjob hne huid => (h.running job hjob hne m.uid huid).resolve_left hcov

theorem batchJobState_buildBatchJob (jobNs : String) (repo : RepositoryRef)
    (members : List PendingMember) :
    batchJobState (buildBatchJob jobNs repo members) = .live := by
  simp [batchJobState, jobTerminalState, buildBatchJob]

theorem mem_members_of_launching {p : DispatchPass} {members : List PendingMember}
    (h : PhaseInv cfg c (.launching p members)) (uid : String) :
    uid ∈ batchJobMembers (buildBatchJob p.jobNs cfg.repo members) ↔
      ∃ m ∈ members, m.uid = uid := by
  obtain ⟨-, hne, hmembers⟩ := h
  have hvalid : ∀ m ∈ members, m.uid ≠ "" ∧ ',' ∉ m.uid.toList := by
    intro m hm
    have hm' := (hmembers m hm).valid
    simpa only [validUid, Bool.and_eq_true, decide_eq_true_eq] using hm'
  exact mem_batchJobMembers_build hne (fun m hm => (hvalid m hm).2)
    (fun m hm => (hvalid m hm).1) uid

theorem ClusterInv.create (hc : ClusterInv c) {p : DispatchPass} {members : List PendingMember}
    (h : PhaseInv cfg c (.launching p members)) :
    ClusterInv (c.create (buildBatchJob p.jobNs cfg.repo members)) := by
  rcases c.create_cases (buildBatchJob p.jobNs cfg.repo members) with ⟨hfree, heq⟩ | ⟨-, heq⟩
  · rw [heq]
    refine hc.launched hfree (batchJobState_buildBatchJob _ _ _) fun uid huid => ?_
    obtain ⟨m, hm, rfl⟩ := (mem_members_of_launching h uid).mp huid
    exact h.1.settled m.uid (h.2.2 m hm).terminates
  · rw [heq]
    exact hc

theorem Evolves.create (c : DeletionCluster) (job : Job) : ∃ new, Evolves c (c.create job) new := by
  rcases c.create_cases job with ⟨hfree, heq⟩ | ⟨-, heq⟩
  · rw [heq]
    exact ⟨_, Evolves.launched job hfree⟩
  · rw [heq]
    exact ⟨_, Evolves.refl c⟩

theorem DeletionCluster.release_eq (c : DeletionCluster) (b : Snapshot) (cause : ReleaseCause) :
    ∃ legacy, c.release b cause = { c.put (c.snapshots.current.release b) with legacy } := by
  cases cause with
  | batchJob => exact ⟨c.legacy, rfl⟩
  | orphaned reason => exact ⟨c.legacy, rfl⟩
  | legacyJob legacy =>
    cases hcross : legacy.crossNamespace with
    | true => exact ⟨_, by simp [release, hcross]; rfl⟩
    | false => exact ⟨c.legacy, by simp [release, hcross]; rfl⟩

theorem ClusterInv.release (hc : ClusterInv c) (b : Snapshot) (cause : ReleaseCause) :
    ClusterInv (c.release b cause) := by
  have hput := hc.put (Lawful.release c b)
  obtain ⟨legacy, heq⟩ := c.release_eq b cause
  rw [heq]
  exact ⟨hput.marks, hput.doomed, hput.members, hput.won, hput.proof⟩

theorem Evolves.release (c : DeletionCluster) (b : Snapshot) (cause : ReleaseCause) :
    Evolves c (c.release b cause) [] := by
  have hput := Evolves.put (Lawful.release c b)
  obtain ⟨legacy, heq⟩ := c.release_eq b cause
  rw [heq]
  exact ⟨hput.events, hput.doomed, hput.succeeded, hput.settled, hput.held, hput.jobs, hput.won,
    hput.kept⟩

/-- The invariants survive every step of a reconcile that reaps what it
listed. -/
theorem passStep_inv (hc : ClusterInv c) {ph ph' : DeletionPhase} (hph : PhaseInv cfg c ph)
    {a : PassAction} (hreap : a = .reap → ReapsAsListed c ph)
    (hstep : passStep cfg c ph a = some (c', ph')) :
    ClusterInv c' ∧ (∃ new, Evolves c c' new) ∧ PhaseInv cfg c' ph' := by
  have hsame : ∃ new, Evolves c c new := ⟨_, Evolves.refl c⟩
  unfold passStep at hstep
  split at hstep
  case h_1 b seen =>
    split at hstep
    case isFalse => cases hstep
    case isTrue =>
      cases hstep
      exact ⟨hc, hsame, driveBatchDeletion_inv hc b seen⟩
  case h_2 p now =>
    cases hstep
    exact ⟨hc, hsame, ReapingInv.list hc hph now⟩
  case h_3 p views name targets =>
    cases hstep
    refine ⟨hc.reap ?_, ⟨_, Evolves.reap c name⟩, (hph.evolves hc (Evolves.reap c name)).rest⟩
    intro job hjob hname hstate uid huid v hv
    exact ReapingInv.drained hph (hreap rfl) hjob hname hstate huid hv
  case h_4 p views name targets =>
    cases hstep
    exact ⟨hc, hsame, ReapingInv.rest hph⟩
  case h_5 p views cx =>
    cases hstep
    exact ⟨hc, hsame, dispatchBatchForMember_inv hph cx⟩
  case h_6 p members =>
    cases hstep
    exact ⟨hc.create hph, Evolves.create c _, trivial⟩
  case h_7 b cause =>
    cases hstep
    exact ⟨hc.release b cause, ⟨_, Evolves.release c b cause⟩, trivial⟩
  case h_8 =>
    cases hstep
    exact ⟨hc, hsame, trivial⟩
  case h_9 => cases hstep

theorem passStep_cases {ph ph' : DeletionPhase} {a : PassAction}
    (h : passStep cfg c ph a = some (c', ph')) :
    c' = c ∨
    (∃ p views name targets, a = .reap ∧ ph = .reaping p views (name :: targets) ∧
      c' = c.reap name) ∨
    (∃ p members, a = .create ∧ ph = .launching p members ∧
      c' = c.create (buildBatchJob p.jobNs cfg.repo members)) ∨
    (∃ b cause, a = .release ∧ ph = .releasing b cause ∧ c' = c.release b cause) := by
  unfold passStep at h
  split at h
  case h_1 =>
    split at h
    case isFalse => cases h
    case isTrue => cases h; exact .inl rfl
  case h_2 => cases h; exact .inl rfl
  case h_3 p views name targets =>
    cases h
    exact .inr (.inl ⟨p, views, name, targets, rfl, rfl, rfl⟩)
  case h_4 => cases h; exact .inl rfl
  case h_5 => cases h; exact .inl rfl
  case h_6 p members => cases h; exact .inr (.inr (.inl ⟨p, members, rfl, rfl, rfl⟩))
  case h_7 b cause => cases h; exact .inr (.inr (.inr ⟨b, cause, rfl, rfl, rfl⟩))
  case h_8 => cases h; exact .inl rfl
  case h_9 => cases h

end Kopiur
