import Kopiur.Controller.Deletions

/-!
# The cluster under batch deletions

What holds of snapshots and batch Jobs at any time, and what a step of anyone
may change about them.
-/

namespace Kopiur

open Lib

variable {c c' : DeletionCluster}

def Settled (c : DeletionCluster) (uid : String) : Prop :=
  uid ∈ c.doomed ∧ Drains SnapshotSet.Holds uid c.snapshots.versions

def SucceededJob (c : DeletionCluster) (uid : String) : Prop :=
  ∃ job ∈ c.jobs.items, batchJobState job = .succeeded ∧ uid ∈ batchJobMembers job

structure ClusterInv (c : DeletionCluster) : Prop where
  marks : MarksDrain SnapshotSet.Terminates SnapshotSet.Holds c.snapshots
  doomed : ∀ v ∈ c.snapshots.versions, ∀ uid, v.Terminates uid → uid ∈ c.doomed
  members : ∀ job ∈ c.jobs.items, ∀ uid ∈ batchJobMembers job, Settled c uid
  won : ∀ uid, SucceededJob c uid → uid ∈ c.succeeded
  -- The proof of a success goes only when no version shows the finalizer.
  proof : ∀ uid ∈ c.succeeded,
    SucceededJob c uid ∨ (uid ∈ c.doomed ∧ ∀ v ∈ c.snapshots.versions, ¬ v.Holds uid)

/-- What a step of anyone does to the cluster, as others may rely on it. -/
structure Evolves (c c' : DeletionCluster) (new : List JobEvent) : Prop where
  events : c'.events = c.events ++ new
  doomed : c.doomed ⊆ c'.doomed
  succeeded : c.succeeded ⊆ c'.succeeded
  settled : ∀ uid, Settled c uid → Settled c' uid
  held : ∀ uid, Settled c uid → ∀ v' ∈ c'.snapshots.versions, v'.Holds uid →
    ∃ v ∈ c.snapshots.versions, v.Holds uid
  jobs : ∀ job' ∈ c'.jobs.items,
    (∃ job ∈ c.jobs.items, job.name = job'.name ∧ batchJobMembers job = batchJobMembers job' ∧
      (batchJobState job = .live ∨ batchJobState job = batchJobState job')) ∨
    .created job' ∈ new
  won : ∀ uid ∈ c'.succeeded, uid ∈ c.succeeded ∨
    (SucceededJob c' uid ∧
      ∃ job ∈ c.jobs.items, batchJobState job = .live ∧ uid ∈ batchJobMembers job)
  kept : ∀ job ∈ c.jobs.items, batchJobState job = .succeeded →
    job ∈ c'.jobs.items ∨ .reaped job ∈ new

theorem Evolves.refl (c : DeletionCluster) : Evolves c c [] where
  events := by simp
  doomed := List.Subset.refl _
  succeeded := List.Subset.refl _
  settled := fun _ h => h
  held := fun _ _ v hv hheld => ⟨v, hv, hheld⟩
  jobs := fun job hjob => .inl ⟨job, hjob, rfl, rfl, .inr rfl⟩
  won := fun _ h => .inl h
  kept := fun _ hjob _ => .inl hjob

theorem ClusterInv.init (snapshots : SnapshotSet) (jobs : BatchJobs) (legacy : List Job) :
    ClusterInv (.init snapshots jobs legacy) where
  marks := MarksDrain.synced snapshots
  doomed := by
    intro v hv uid hterm
    simp only [DeletionCluster.init, Watched.versions_synced, List.mem_singleton] at hv
    subst hv
    exact List.mem_append.mpr (.inl hterm)
  members := by
    intro job hjob uid huid
    refine ⟨?_, Drains.singleton snapshots⟩
    exact List.mem_append.mpr (.inr (List.mem_flatMap.mpr ⟨job, hjob, huid⟩))
  won := fun uid h => mem_succeededMembers.mpr h
  proof := fun uid h => .inl (mem_succeededMembers.mp h)

def Lawful (c : DeletionCluster) (v : SnapshotSet) : Prop :=
  ∀ uid ∈ c.doomed, v.Holds uid → c.snapshots.current.Holds uid

theorem mem_versions_put {v x : SnapshotSet} :
    x ∈ (c.put v).snapshots.versions ↔ x ∈ c.snapshots.versions ∨ x = v := by
  simp [DeletionCluster.put]

theorem Settled.put {uid : String} {v : SnapshotSet} (h : Settled c uid) (hlaw : Lawful c v) :
    Settled (c.put v) uid :=
  ⟨List.mem_append.mpr (.inl h.1), h.2.write (hlaw uid h.1)⟩

theorem Evolves.put {v : SnapshotSet} (hlaw : Lawful c v) : Evolves c (c.put v) [] where
  events := by simp [DeletionCluster.put]
  doomed := List.subset_append_left _ _
  succeeded := List.Subset.refl _
  settled := fun _ h => h.put hlaw
  held := by
    intro uid h v' hv' hheld
    rcases mem_versions_put.mp hv' with hv' | rfl
    · exact ⟨v', hv', hheld⟩
    · exact ⟨c.snapshots.current, c.snapshots.current_mem, hlaw uid h.1 hheld⟩
  jobs := fun job hjob => .inl ⟨job, hjob, rfl, rfl, .inr rfl⟩
  won := fun _ h => .inl h
  kept := fun _ hjob _ => .inl hjob

theorem ClusterInv.put (h : ClusterInv c) {v : SnapshotSet} (hlaw : Lawful c v) :
    ClusterInv (c.put v) where
  marks := h.marks.write fun x hx uid hterm => hlaw uid (h.doomed x hx uid hterm)
  doomed := by
    intro x hx uid hterm
    rcases mem_versions_put.mp hx with hx | rfl
    · exact List.mem_append.mpr (.inl (h.doomed x hx uid hterm))
    · exact List.mem_append.mpr (.inr hterm)
  members := fun job hjob uid huid => (h.members job hjob uid huid).put hlaw
  won := h.won
  proof := by
    intro uid huid
    refine (h.proof uid huid).imp id ?_
    rintro ⟨hdoomed, hgone⟩
    refine ⟨List.mem_append.mpr (.inl hdoomed), fun x hx hheld => ?_⟩
    rcases mem_versions_put.mp hx with hx | rfl
    · exact hgone x hx hheld
    · exact hgone _ c.snapshots.current_mem (hlaw uid hdoomed hheld)

theorem DeletionCluster.edit_eq_some {v : SnapshotSet} (h : c.edit v = some c') :
    Lawful c v ∧ c' = c.put v := by
  unfold edit at h
  split at h
  case isTrue hlaw =>
    cases h
    exact ⟨hlaw, rfl⟩
  case isFalse => cases h

theorem Lawful.release (c : DeletionCluster) (b : Snapshot) :
    Lawful c (c.snapshots.current.release b) := fun _ _ => SnapshotSet.Holds.of_release

theorem Settled.deliver {uid : String} {w : Watched SnapshotSet} (h : Settled c uid)
    (hd : c.snapshots.deliver = some w) : Settled { c with snapshots := w } uid :=
  ⟨h.1, h.2.deliver hd⟩

theorem mem_versions_deliver {w w' : Watched SnapshotSet} (hd : w.deliver = some w')
    {v : SnapshotSet} (hv : v ∈ w'.versions) : v ∈ w.versions := by
  rw [Watched.versions_deliver hd]
  exact List.mem_cons_of_mem _ hv

theorem Evolves.deliver {w : Watched SnapshotSet} (hd : c.snapshots.deliver = some w) :
    Evolves c { c with snapshots := w } [] where
  events := by simp
  doomed := List.Subset.refl _
  succeeded := List.Subset.refl _
  settled := fun _ h => h.deliver hd
  held := fun _ _ v hv hheld => ⟨v, mem_versions_deliver hd hv, hheld⟩
  jobs := fun job hjob => .inl ⟨job, hjob, rfl, rfl, .inr rfl⟩
  won := fun _ h => .inl h
  kept := fun _ hjob _ => .inl hjob

theorem ClusterInv.deliver (h : ClusterInv c) {w : Watched SnapshotSet}
    (hd : c.snapshots.deliver = some w) : ClusterInv { c with snapshots := w } where
  marks := h.marks.deliver hd
  doomed := fun v hv => h.doomed v (mem_versions_deliver hd hv)
  members := fun job hjob uid huid => (h.members job hjob uid huid).deliver hd
  won := h.won
  proof := by
    intro uid huid
    refine (h.proof uid huid).imp id ?_
    rintro ⟨hdoomed, hgone⟩
    exact ⟨hdoomed, fun v hv => hgone v (mem_versions_deliver hd hv)⟩

@[simp] theorem batchJobMembers_finishJob (key : String) (ok : Bool) (t : DateTime) (job : Job) :
    batchJobMembers (finishJob key ok t job) = batchJobMembers job := by
  simp [batchJobMembers]

theorem live_or_finishJob_eq (key : String) (ok : Bool) (t : DateTime) (job : Job) :
    batchJobState job = .live ∨ finishJob key ok t job = job := by
  cases hstate : jobTerminalState job with
  | none => exact .inl (by simp [batchJobState, hstate])
  | some ended => exact .inr (by simp [finishJob, hstate])

theorem SucceededJob.finish {uid : String} (h : SucceededJob c uid) (key : String) (ok : Bool)
    (t : DateTime) : SucceededJob (c.finish key ok t) uid := by
  obtain ⟨job, hjob, hstate, huid⟩ := h
  have heq : finishJob key ok t job = job :=
    (live_or_finishJob_eq key ok t job).resolve_left (by simp [hstate])
  exact ⟨job, List.mem_map.mpr ⟨job, hjob, heq⟩, hstate, huid⟩

theorem Evolves.finish (h : ClusterInv c) (key : String) (ok : Bool) (t : DateTime) :
    Evolves c (c.finish key ok t) [] where
  events := by simp [DeletionCluster.finish]
  doomed := List.Subset.refl _
  succeeded := List.subset_append_left _ _
  settled := fun _ h => h
  held := fun _ _ v hv hheld => ⟨v, hv, hheld⟩
  jobs := by
    intro job' hjob'
    obtain ⟨job, hjob, rfl⟩ := List.mem_map.mp hjob'
    refine .inl ⟨job, hjob, by simp [Job.name], by simp, ?_⟩
    exact (live_or_finishJob_eq key ok t job).imp id fun heq => by rw [heq]
  won := by
    intro uid huid
    rcases List.mem_append.mp huid with huid | huid
    · exact .inl huid
    · obtain ⟨job', hjob', hstate, hmem⟩ := mem_succeededMembers.mp huid
      obtain ⟨job, hjob, rfl⟩ := List.mem_map.mp hjob'
      rcases live_or_finishJob_eq key ok t job with hlive | heq
      · exact .inr ⟨mem_succeededMembers.mp huid, job, hjob, hlive, by simpa using hmem⟩
      · rw [heq] at hstate hmem
        exact .inl (h.won uid ⟨job, hjob, hstate, hmem⟩)
  kept := by
    intro job hjob hstate
    have heq := (live_or_finishJob_eq key ok t job).resolve_left (by simp [hstate])
    exact .inl (List.mem_map.mpr ⟨job, hjob, heq⟩)

theorem ClusterInv.finish (h : ClusterInv c) (key : String) (ok : Bool) (t : DateTime) :
    ClusterInv (c.finish key ok t) where
  marks := h.marks
  doomed := h.doomed
  members := by
    intro job' hjob' uid huid
    obtain ⟨job, hjob, rfl⟩ := List.mem_map.mp hjob'
    exact h.members job hjob uid (by simpa using huid)
  won := fun uid hwon => List.mem_append.mpr (.inr (mem_succeededMembers.mpr hwon))
  proof := by
    intro uid huid
    rcases List.mem_append.mp huid with huid | huid
    · exact (h.proof uid huid).imp (fun hjob => hjob.finish key ok t) id
    · exact .inl (mem_succeededMembers.mp huid)

def DeletionCluster.launched (c : DeletionCluster) (job : Job)
    (h : c.jobs.taken job.name = false) : DeletionCluster :=
  { c with
    jobs := c.jobs.add job h
    events := c.events ++ [.created job] }

theorem DeletionCluster.create_cases (c : DeletionCluster) (job : Job) :
    (∃ h, c.create job = c.launched job h) ∨
      (c.jobs.taken job.name = true ∧ c.create job = c) := by
  unfold create
  split
  case isTrue h => exact .inl ⟨h, rfl⟩
  case isFalse h => exact .inr ⟨by simpa using h, rfl⟩

theorem mem_launched {job x : Job} {h : c.jobs.taken job.name = false} :
    x ∈ (c.launched job h).jobs.items ↔ x ∈ c.jobs.items ∨ x = job := by
  simp [DeletionCluster.launched, BatchJobs.add]

theorem Evolves.launched (job : Job) (h : c.jobs.taken job.name = false) :
    Evolves c (c.launched job h) [.created job] where
  events := rfl
  doomed := List.Subset.refl _
  succeeded := List.Subset.refl _
  settled := fun _ h => h
  held := fun _ _ v hv hheld => ⟨v, hv, hheld⟩
  jobs := by
    intro job' hjob'
    rcases mem_launched.mp hjob' with hjob' | rfl
    · exact .inl ⟨job', hjob', rfl, rfl, .inr rfl⟩
    · exact .inr (by simp)
  won := fun _ h => .inl h
  kept := fun job' hjob' _ => .inl (mem_launched.mpr (.inl hjob'))

theorem ClusterInv.launched (h : ClusterInv c) {job : Job} (hfree : c.jobs.taken job.name = false)
    (hlive : batchJobState job = .live) (hsettled : ∀ uid ∈ batchJobMembers job, Settled c uid) :
    ClusterInv (c.launched job hfree) where
  marks := h.marks
  doomed := h.doomed
  members := by
    intro job' hjob' uid huid
    rcases mem_launched.mp hjob' with hjob' | rfl
    · exact h.members job' hjob' uid huid
    · exact hsettled uid huid
  won := by
    rintro uid ⟨job', hjob', hstate, huid⟩
    rcases mem_launched.mp hjob' with hjob' | rfl
    · exact h.won uid ⟨job', hjob', hstate, huid⟩
    · simp [hlive] at hstate
  proof := by
    intro uid huid
    refine (h.proof uid huid).imp ?_ id
    rintro ⟨job', hjob', hstate, hmem⟩
    exact ⟨job', mem_launched.mpr (.inl hjob'), hstate, hmem⟩

theorem mem_reap {name : String} {x : Job} :
    x ∈ (c.reap name).jobs.items ↔ x ∈ c.jobs.items ∧ x.name ≠ name := by
  simp [DeletionCluster.reap, BatchJobs.remove]

theorem Evolves.reap (c : DeletionCluster) (name : String) :
    Evolves c (c.reap name)
      ((c.jobs.items.filter fun job => decide (job.name = name)).map JobEvent.reaped) where
  events := rfl
  doomed := List.Subset.refl _
  succeeded := List.Subset.refl _
  settled := fun _ h => h
  held := fun _ _ v hv hheld => ⟨v, hv, hheld⟩
  jobs := fun job hjob => .inl ⟨job, (mem_reap.mp hjob).1, rfl, rfl, .inr rfl⟩
  won := fun _ h => .inl h
  kept := by
    intro job hjob _
    by_cases hname : job.name = name
    · exact .inr (by simp [hjob, hname])
    · exact .inl (mem_reap.mpr ⟨hjob, hname⟩)

/-- A Job may go once no version shows a member of a success with the
finalizer. -/
theorem ClusterInv.reap (h : ClusterInv c) {name : String}
    (hdrained : ∀ job ∈ c.jobs.items, job.name = name → batchJobState job = .succeeded →
      ∀ uid ∈ batchJobMembers job, ∀ v ∈ c.snapshots.versions, ¬ v.Holds uid) :
    ClusterInv (c.reap name) where
  marks := h.marks
  doomed := h.doomed
  members := fun job hjob => h.members job (mem_reap.mp hjob).1
  won := by
    rintro uid ⟨job, hjob, hstate, huid⟩
    exact h.won uid ⟨job, (mem_reap.mp hjob).1, hstate, huid⟩
  proof := by
    intro uid huid
    rcases h.proof uid huid with ⟨job, hjob, hstate, hmem⟩ | hgone
    · by_cases hname : job.name = name
      · exact .inr ⟨(h.members job hjob uid hmem).1, hdrained job hjob hname hstate uid hmem⟩
      · exact .inl ⟨job, mem_reap.mpr ⟨hjob, hname⟩, hstate, hmem⟩
    · exact .inr hgone

end Kopiur
