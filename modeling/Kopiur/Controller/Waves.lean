import Mathlib.Data.Fintype.Basic
import Kopiur.Controller.BatchJobs
import Kopiur.Controller.Pool

/-!
# Interleaved waves of batch deletions

Reconciles of a repository's terminating snapshots read the batch Jobs and the
snapshots, decide on a wave, pass the delete ledger, create the batch Job and
drop their guard, in any interleaving. A uid rides at most one live Job as
long as every wave is admitted on a LIST that shows the live Jobs and while no
other wave is on its way.
-/

namespace Kopiur

open Lib

structure WaveConfig where
  jobNs : String
  repo : RepositoryRef
  caps : DeleteCaps
  itemBytes : PendingMember → Nat

inductive WavePhase
  | idle
  -- The LIST, the wave, and the counts and keys of a cluster-wide LIST.
  | decided (views : List BatchJobView) (members : List PendingMember)
      (clusterLive : Nat) (clusterSeen : List String)
  | admitted (members : List PendingMember)
  | created (members : List PendingMember)
deriving DecidableEq

structure WaveState (ρ : Type) where
  jobs : List Job
  held : Reservations
  phase : ρ → WavePhase

inductive WaveAction (ρ : Type)
  | read (r : ρ) (cx : DispatchContext)
  | listCluster (r : ρ) (others : List Job)
  | admission (r : ρ)
  | create (r : ρ)
  | abandon (r : ρ)
  | drop (r : ρ)
  | finish (key : String) (ok : Bool) (t : DateTime)
  | remove (key : String)

def validUid (uid : String) : Bool := decide (uid ≠ "") && decide (',' ∉ uid.toList)

def validUids (snapshots : List Snapshot) : Bool :=
  snapshots.all fun b => b.metadata.uid.all validUid

def batchLive (job : Job) : Bool := (jobTerminalState job).isNone

namespace WaveState

variable {ρ : Type} [DecidableEq ρ]

def setPhase (s : WaveState ρ) (r : ρ) (p : WavePhase) : WaveState ρ :=
  { s with phase := Function.update s.phase r p }

def observedOf (cfg : WaveConfig) (views : List BatchJobView) (clusterLive : Nat)
    (clusterSeen : List String) : ObservedPool where
  repoLive := (views.filter fun v => decide (v.state = .live)).length
  globalLive := clusterLive
  seen := views.map (fun v => jobKey cfg.jobNs v.name) ++ clusterSeen

def ledgerVerdict (cfg : WaveConfig) (held : Reservations) (views : List BatchJobView)
    (members : List PendingMember) (clusterLive : Nat) (clusterSeen : List String) :
    PoolVerdict × Reservations :=
  deleteLedgerAdmit held (repoLabel cfg.repo) (jobKey cfg.jobNs (batchJobName cfg.repo members))
    (observedOf cfg views clusterLive clusterSeen) cfg.caps

def dropGuard (cfg : WaveConfig) (held : Reservations) (members : List PendingMember) :
    Reservations :=
  release held (repoLabel cfg.repo) (jobKey cfg.jobNs (batchJobName cfg.repo members))

def step (cfg : WaveConfig) (s : WaveState ρ) : WaveAction ρ → Option (WaveState ρ)
  | .read r cx =>
    match s.phase r with
    | .idle =>
      if !validUids cx.snapshots then none
      else
        let views := s.jobs.filterMap batchJobView
        match memberDisposition cx.selfUid views with
        | .notAMember _ =>
          match { cx with repo := cfg.repo }.wave cfg.itemBytes views with
          | some members => some (s.setPhase r (.decided views members 0 []))
          | none => some s
        | _ => some s
    | _ => none
  | .listCluster r others =>
    match s.phase r with
    | .decided views members _ _ =>
      -- Only taken when a cluster-wide cap is configured.
      if cfg.caps.global.isNone then none
      else
        let jobs := s.jobs ++ others
        some (s.setPhase r (.decided views members (jobs.filter batchLive).length
          (jobs.map Job.key)))
    | _ => none
  | .admission r =>
    match s.phase r with
    | .decided views members clusterLive clusterSeen =>
      match ledgerVerdict cfg s.held views members clusterLive clusterSeen with
      | (.admitted, held) => some ({ s with held }.setPhase r (.admitted members))
      | (.park _ _, held) => some ({ s with held }.setPhase r .idle)
    | _ => none
  | .create r =>
    match s.phase r with
    | .admitted members =>
      -- A Job of that name answers `AlreadyExists`: nothing is created.
      if s.jobs.any fun job => decide (job.name = batchJobName cfg.repo members) then
        some (s.setPhase r (.created members))
      else
        some ({ s with jobs := s.jobs ++ [buildBatchJob cfg.jobNs cfg.repo members] }.setPhase r
          (.created members))
    | _ => none
  | .abandon r =>
    match s.phase r with
    | .admitted members =>
      some ({ s with held := dropGuard cfg s.held members }.setPhase r .idle)
    | _ => none
  | .drop r =>
    match s.phase r with
    | .created members =>
      some ({ s with held := dropGuard cfg s.held members }.setPhase r .idle)
    | _ => none
  | .finish key ok t => some { s with jobs := s.jobs.map (finishJob key ok t) }
  | .remove key => some { s with jobs := s.jobs.filter fun job => job.key ≠ key }

def init : WaveState ρ where
  jobs := []
  held := ∅
  phase := fun _ => .idle

def inFlight (cfg : WaveConfig) : WavePhase → Option String
  | .admitted members => some (batchJobName cfg.repo members)
  | _ => none

/-- The LIST of a wave the ledger would admit now. -/
def admissible (cfg : WaveConfig) (s : WaveState ρ) (r : ρ) :
    Option (List BatchJobView × String) :=
  match s.phase r with
  | .decided views members clusterLive clusterSeen =>
    match ledgerVerdict cfg s.held views members clusterLive clusterSeen with
    | (.admitted, _) => some (views, batchJobName cfg.repo members)
    | (.park _ _, _) => none
  | _ => none

/-- Whenever a wave is admitted, its LIST shows every live batch Job, and any
other wave between admission and create goes by the same Job name. -/
def exclusive (cfg : WaveConfig) (s : WaveState ρ) : WaveAction ρ → Prop
  | .admission r =>
    ∀ d ∈ admissible cfg s r,
      (∀ job ∈ s.jobs, batchLive job = true →
        ∃ v ∈ d.1, v.state = .live ∧ v.members = batchJobMembers job) ∧
      ∀ r', ∀ name ∈ inFlight cfg (s.phase r'), name = d.2
  | _ => True

instance [Fintype ρ] (cfg : WaveConfig) (s : WaveState ρ) :
    (a : WaveAction ρ) → Decidable (s.exclusive cfg a)
  | .admission r => inferInstanceAs (Decidable (∀ d ∈ admissible cfg s r,
      (∀ job ∈ s.jobs, batchLive job = true →
        ∃ v ∈ d.1, v.state = .live ∧ v.members = batchJobMembers job) ∧
      ∀ r', ∀ name ∈ inFlight cfg (s.phase r'), name = d.2))
  | .read .. | .listCluster .. | .create _ | .abandon _ | .drop _ | .finish .. | .remove _ =>
    inferInstanceAs (Decidable True)

end WaveState

def NoOverlap (a b : Job) : Prop :=
  batchLive a = true → batchLive b = true → ∀ u ∈ batchJobMembers a, u ∉ batchJobMembers b

def WellFormedWave (members : List PendingMember) : Prop :=
  members ≠ [] ∧ ∀ m ∈ members, validUid m.uid = true

def Avoids (cfg : WaveConfig) (members : List PendingMember) (job : Job) : Prop :=
  batchLive job = true → job.name = batchJobName cfg.repo members ∨
    ∀ m ∈ members, m.uid ∉ batchJobMembers job

structure WaveInv {ρ : Type} (cfg : WaveConfig) (s : WaveState ρ) : Prop where
  overlap : s.jobs.Pairwise NoOverlap
  decided : ∀ r views members n seen, s.phase r = .decided views members n seen →
    WellFormedWave members ∧ ∀ m ∈ members, m.uid ∉ coveredUids views
  sent : ∀ r members, s.phase r = .admitted members →
    WellFormedWave members ∧ ∀ job ∈ s.jobs, Avoids cfg members job
  single : ∀ r r' members members', s.phase r = .admitted members → s.phase r' = .admitted members' →
    batchJobName cfg.repo members = batchJobName cfg.repo members'

namespace WaveInv

variable {ρ : Type} [DecidableEq ρ] {cfg : WaveConfig} {s : WaveState ρ}

omit [DecidableEq ρ] in
theorem init : WaveInv cfg (WaveState.init : WaveState ρ) where
  overlap := by simp [WaveState.init]
  decided := by simp [WaveState.init]
  sent := by simp [WaveState.init]
  single := by simp [WaveState.init]

omit [DecidableEq ρ] in
theorem ofJobs (h : WaveInv cfg s) {jobs : List Job} (hpair : jobs.Pairwise NoOverlap)
    (hfrom : ∀ job ∈ jobs, batchLive job = true → job ∈ s.jobs) :
    WaveInv cfg { s with jobs } where
  overlap := hpair
  decided := h.decided
  sent := by
    intro r members hr
    obtain ⟨hwf, havoid⟩ := h.sent r members hr
    exact ⟨hwf, fun job hjob hl => havoid job (hfrom job hjob hl) hl⟩
  single := h.single

theorem move (h : WaveInv cfg s) {r : ρ} {p : WavePhase} {held : Reservations}
    (hadm : ∀ members, p ≠ .admitted members)
    (hdec : ∀ views members n seen, p = .decided views members n seen →
      WellFormedWave members ∧ ∀ m ∈ members, m.uid ∉ coveredUids views) :
    WaveInv cfg ({ s with held }.setPhase r p) := by
  have hold : ∀ {q : ρ} {members : List PendingMember},
      Function.update s.phase r p q = .admitted members → s.phase q = .admitted members := by
    intro q members hq
    by_cases hqr : q = r
    · subst hqr
      exact absurd (by simpa using hq) (hadm members)
    · simpa [Function.update_of_ne hqr] using hq
  constructor
  case overlap => exact h.overlap
  case decided =>
    intro q views members n seen hq
    by_cases hqr : q = r
    · subst hqr
      exact hdec views members n seen (by simpa [WaveState.setPhase] using hq)
    · exact h.decided q views members n seen
        (by simpa [WaveState.setPhase, Function.update_of_ne hqr] using hq)
  case sent => exact fun q members hq => h.sent q members (hold hq)
  case single => exact fun q q' members members' hq hq' => h.single q q' _ _ (hold hq) (hold hq')

theorem read (h : WaveInv cfg s) {r : ρ} {cx : DispatchContext} {views : List BatchJobView}
    {members : List PendingMember} (hvalid : validUids cx.snapshots = true)
    (hwave : cx.wave cfg.itemBytes views = some members) :
    WaveInv cfg (s.setPhase r (.decided views members 0 [])) := by
  refine h.move (by simp) ?_
  intro views' members' n seen heq
  cases heq
  refine ⟨⟨cx.wave_ne_nil hwave, fun m hm => ?_⟩, fun m hm => (cx.mem_wave hwave hm).2⟩
  obtain ⟨b, hb, huid⟩ := cx.uid_of_eligible (cx.mem_wave hwave hm).1
  have hall := List.all_eq_true.mp hvalid b hb
  simpa [huid] using hall

/-- A wave is admitted on a LIST that shows every live Job, with no other wave
on its way. -/
theorem admitted (h : WaveInv cfg s) {r : ρ} {views : List BatchJobView}
    {members : List PendingMember} {n : Nat} {seen : List String} {held : Reservations}
    (hr : s.phase r = .decided views members n seen)
    (hlist : ∀ job ∈ s.jobs, batchLive job = true →
      ∃ v ∈ views, v.state = .live ∧ v.members = batchJobMembers job)
    (hsingle : ∀ r', ∀ name ∈ WaveState.inFlight cfg (s.phase r'),
      name = batchJobName cfg.repo members) :
    WaveInv cfg ({ s with held }.setPhase r (.admitted members)) := by
  obtain ⟨hwf, hcov⟩ := h.decided r views members n seen hr
  have hold : ∀ {q : ρ} {p : WavePhase}, q ≠ r →
      Function.update s.phase r (.admitted members) q = p → s.phase q = p := by
    intro q p hqr hq
    simpa [Function.update_of_ne hqr] using hq
  have hname : ∀ {q : ρ} {ms : List PendingMember},
      Function.update s.phase r (.admitted members) q = .admitted ms →
      batchJobName cfg.repo ms = batchJobName cfg.repo members := by
    intro q ms hq
    by_cases hqr : q = r
    · subst hqr
      simp only [Function.update_self, WavePhase.admitted.injEq] at hq
      rw [hq]
    · exact hsingle q _ (by simp [hold hqr hq, WaveState.inFlight])
  constructor
  case overlap => exact h.overlap
  case decided =>
    intro q views' members' n' seen' hq
    by_cases hqr : q = r
    · subst hqr
      simp [WaveState.setPhase] at hq
    · exact h.decided q views' members' n' seen' (hold hqr hq)
  case sent =>
    intro q ms hq
    by_cases hqr : q = r
    · subst hqr
      simp only [WaveState.setPhase, Function.update_self, WavePhase.admitted.injEq] at hq
      subst hq
      refine ⟨hwf, fun job hjob hl => Or.inr fun m hm hmem => hcov m hm ?_⟩
      obtain ⟨v, hv, hstate, hmembers⟩ := hlist job hjob hl
      exact mem_coveredUids.mpr ⟨v, hv, by simp [hstate, covers], hmembers ▸ hmem⟩
    · exact h.sent q ms (hold hqr hq)
  case single => exact fun q q' ms ms' hq hq' => (hname hq).trans (hname hq').symm

theorem create (h : WaveInv cfg s) {r : ρ} {members : List PendingMember}
    (hr : s.phase r = .admitted members)
    (hfree : ∀ job ∈ s.jobs, job.name ≠ batchJobName cfg.repo members) :
    WaveInv cfg ({ s with jobs := s.jobs ++ [buildBatchJob cfg.jobNs cfg.repo members] }.setPhase r
      (.created members)) := by
  obtain ⟨⟨hne, hvalid⟩, havoid⟩ := h.sent r members hr
  have hmembers : ∀ u ∈ batchJobMembers (buildBatchJob cfg.jobNs cfg.repo members),
      ∃ m ∈ members, m.uid = u := by
    intro u hu
    refine (mem_batchJobMembers_build hne ?_ ?_ u).mp hu
    · intro m hm
      have hv := hvalid m hm
      simp only [validUid, Bool.and_eq_true, decide_eq_true_eq] at hv
      exact hv.2
    · intro m hm
      have hv := hvalid m hm
      simp only [validUid, Bool.and_eq_true, decide_eq_true_eq] at hv
      exact hv.1
  have hjobs : WaveInv cfg
      { s with jobs := s.jobs ++ [buildBatchJob cfg.jobNs cfg.repo members] } := by
    refine ⟨?_, h.decided, ?_, h.single⟩
    · refine List.pairwise_append.mpr ⟨h.overlap, by simp, ?_⟩
      intro a ha b hb hla _ u hu hub
      rw [List.mem_singleton.mp hb] at hub
      obtain ⟨m, hm, rfl⟩ := hmembers u hub
      exact ((havoid a ha hla).resolve_left (hfree a ha)) m hm hu
    · intro q ms hq
      obtain ⟨hwf, hav⟩ := h.sent q ms hq
      refine ⟨hwf, fun job hjob => ?_⟩
      rcases List.mem_append.mp hjob with hjob | hjob
      · exact hav job hjob
      · intro _
        rw [List.mem_singleton.mp hjob, buildBatchJob_name]
        exact Or.inl (h.single r q members ms hr hq)
  exact hjobs.move (by simp) (by simp)

theorem step (h : WaveInv cfg s) {a : WaveAction ρ} {s' : WaveState ρ}
    (hex : s.exclusive cfg a) (hstep : s.step cfg a = some s') : WaveInv cfg s' := by
  cases a with
  | read r cx =>
    simp only [WaveState.step] at hstep
    split at hstep
    case h_2 => cases hstep
    case h_1 =>
      split at hstep
      case isTrue => cases hstep
      case isFalse hvalid =>
        split at hstep
        case h_2 => cases hstep; exact h
        case h_1 =>
          split at hstep
          case h_2 => cases hstep; exact h
          case h_1 members hwave =>
            cases hstep
            refine h.read ?_ hwave
            simpa using hvalid
  | listCluster r others =>
    simp only [WaveState.step] at hstep
    split at hstep
    case h_2 => cases hstep
    case h_1 views members n seen hr =>
      split at hstep
      case isTrue => cases hstep
      case isFalse =>
        cases hstep
        refine h.move (by simp) ?_
        intro views' members' n' seen' heq
        cases heq
        exact h.decided r views members n seen hr
  | admission r =>
    simp only [WaveState.step] at hstep
    split at hstep
    case h_2 => cases hstep
    case h_1 views members n seen hr =>
      split at hstep
      case h_2 => cases hstep; exact h.move (by simp) (by simp)
      case h_1 held hverdict =>
        cases hstep
        have hadm : (views, batchJobName cfg.repo members) ∈ WaveState.admissible cfg s r := by
          simp [WaveState.admissible, hr, hverdict]
        obtain ⟨hlist, hsingle⟩ := hex _ hadm
        dsimp only at hlist hsingle
        exact h.admitted hr hlist hsingle
  | create r =>
    simp only [WaveState.step] at hstep
    split at hstep
    case h_2 => cases hstep
    case h_1 members hr =>
      split at hstep
      case isTrue => cases hstep; exact h.move (by simp) (by simp)
      case isFalse hfree =>
        have hfree' : ∀ job ∈ s.jobs, job.name ≠ batchJobName cfg.repo members := by
          intro job hjob hname
          exact hfree (List.any_eq_true.mpr ⟨job, hjob, decide_eq_true hname⟩)
        cases hstep
        exact h.create hr hfree'
  | abandon r =>
    simp only [WaveState.step] at hstep
    split at hstep
    case h_2 => cases hstep
    case h_1 => cases hstep; exact h.move (by simp) (by simp)
  | drop r =>
    simp only [WaveState.step] at hstep
    split at hstep
    case h_2 => cases hstep
    case h_1 => cases hstep; exact h.move (by simp) (by simp)
  | finish key ok t =>
    cases hstep
    have hrun : ∀ job : Job, batchLive (finishJob key ok t job) = true →
        finishJob key ok t job = job := by
      intro job hl
      exact finishJob_running (by simpa [batchLive] using hl)
    refine h.ofJobs ?_ ?_
    · refine List.pairwise_map.mpr (h.overlap.imp fun {a b} hab hla hlb => ?_)
      have ha := hrun a hla
      have hb := hrun b hlb
      rw [ha] at hla
      rw [hb] at hlb
      rw [ha, hb]
      exact hab hla hlb
    · intro job hjob hl
      obtain ⟨old, hold, rfl⟩ := List.mem_map.mp hjob
      exact (hrun old hl).symm ▸ hold
  | remove key =>
    cases hstep
    exact h.ofJobs (h.overlap.sublist List.filter_sublist)
      fun job hjob _ => List.mem_of_mem_filter hjob

end WaveInv

/-- Over every interleaving in which each wave is admitted on a LIST that shows
all live batch Jobs, with no differently named wave between admission and
create, no uid is a member of two live batch Jobs. -/
theorem batch_jobs_never_overlap {ρ : Type} [DecidableEq ρ] (cfg : WaveConfig) (s : WaveState ρ)
    (hrun : Reaches (WaveState.step cfg) (WaveState.exclusive cfg) WaveState.init s) :
    (s.jobs.filter batchLive).Pairwise
      fun a b => ∀ u ∈ batchJobMembers a, u ∉ batchJobMembers b := by
  have hinv := hrun.invariant (WaveInv cfg) WaveInv.init
    fun _ _ _ hinv hex hstep => hinv.step hex hstep
  refine List.pairwise_filter.mpr (hinv.overlap.imp fun {a b} hab ha hb => hab ha hb)

/-- A retention prune of one repository, waiting for its batch. -/
def prunedSnapshot (uid : String) (t : Int) : Snapshot where
  metadata :=
    { name := some uid
      ns := some "apps"
      uid := some uid
      deletionTimestamp := some (DateTime.fromTimestamp t)
      finalizers := [snapshotCleanupFinalizer]
      annotations := [( prunedByAnnotation, "retention")] }
  status := some
    { snapshot := some ⟨uid, { username := "u", hostname := "h" }⟩
      resolvedRepository := some { name := "nas", ns := some "apps" } }

def nasWaves : WaveConfig where
  jobNs := "apps"
  repo := { name := "nas", ns := some "apps" }
  caps := { repo := 1 }
  itemBytes := fun _ => 100

/-- A reconcile of `uid` that sees these snapshots. -/
def nasContext (uid : String) (snapshots : List Snapshot) : DispatchContext where
  selfUid := uid
  repo := nasWaves.repo
  snapshots := snapshots
  cache := ⟨none, false, by simp⟩
  confirmed := ∅
  unreadable := ∅
  onNamespaceDelete := .orphan
  threshold := 0
  ack := none
  now := DateTime.fromTimestamp 60

/-- The second wave reads after the first created its Job. -/
theorem batch_jobs_never_overlap_sequential :
    let a := prunedSnapshot "a" 1
    let b := prunedSnapshot "b" 2
    ∃ s, runSteps (WaveState.step nasWaves) (WaveState.exclusive nasWaves)
        (WaveState.init : WaveState (Fin 2))
        [.read 0 (nasContext "a" [a]), .admission 0, .create 0, .drop 0,
          .read 1 (nasContext "b" [a, b]), .admission 1] = some s ∧
      s.jobs.map batchJobMembers = [["a"]] ∧
      (s.jobs.filter batchLive).Pairwise
        fun a b => ∀ u ∈ batchJobMembers a, u ∉ batchJobMembers b := by
  intro a b
  refine exists_runSteps_imp (P := fun s => s.jobs.map batchJobMembers = [["a"]]) (by decide)
    fun s hs hjobs => ?_
  exact ⟨hjobs, batch_jobs_never_overlap nasWaves s (reaches_of_runSteps hs)⟩

/-- Both waves read before either creates; the first one's guard is gone when
the second is admitted. -/
theorem batch_jobs_overlap_on_stale_list :
    let a := prunedSnapshot "a" 1
    let b := prunedSnapshot "b" 2
    ∃ s, runSteps (WaveState.step nasWaves) (fun _ _ => True) (WaveState.init : WaveState (Fin 2))
        [.read 0 (nasContext "a" [a]), .read 1 (nasContext "b" [a, b]), .admission 0, .create 0,
          .drop 0, .admission 1, .create 1] = some s ∧
      s.jobs.map (fun job => (batchLive job, batchJobMembers job)) =
        [(true, ["a"]), (true, ["a", "b"])] := by
  intro a b
  exact exists_runSteps (by decide)

end Kopiur
