import Kopiur.Controller.Pool

/-!
# Interleaved runs of a capped pool

Each run LISTs the Jobs, asks the ledger, creates its Job and drops its guard;
the steps of different runs interleave freely and Jobs end at any time. The
cap holds as long as no run is admitted on a LIST that misses a live Job whose
reservation is already gone.
-/

namespace Kopiur

open Lib

/-- A pooled run, named by the Job it creates. -/
structure RunId where
  ns : String
  name : String
  valid : '/' ∉ ns.toList
deriving DecidableEq

def RunId.key (r : RunId) : String := jobKey r.ns r.name

theorem RunId.key_injective : Function.Injective RunId.key := by
  intro r r' h
  obtain ⟨hns, hname⟩ := cut_first (c := '/') (by simp) r.valid r'.valid h
  cases r
  cases r'
  simp_all

inductive RunPhase
  | waiting
  | observed (observed : ObservedPool)
  | admitted
  | created
  | done
deriving DecidableEq

structure PoolState where
  jobs : List Job
  held : Reservations
  phase : RunId → RunPhase

structure PoolConfig where
  pool : RunId → String
  cls : RunId → PoolClass
  caps : String → PoolCaps

inductive PoolAction
  | list (r : RunId)
  | admission (r : RunId)
  | create (r : RunId)
  -- The launch fails before the Job exists; the guard is dropped.
  | abandon (r : RunId)
  -- The create returned; the guard is dropped.
  | drop (r : RunId)
  | finish (key : String) (ok : Bool) (t : DateTime)
  | remove (key : String)

def RunId.job (cfg : PoolConfig) (r : RunId) : Job where
  metadata :=
    { name := some r.name
      ns := some r.ns
      labels := [(repoPoolLabel, cfg.pool r)] }

namespace PoolState

def setPhase (s : PoolState) (r : RunId) (p : RunPhase) : PoolState :=
  { s with phase := Function.update s.phase r p }

def step (cfg : PoolConfig) (s : PoolState) : PoolAction → Option PoolState
  | .list r =>
    match s.phase r with
    | .waiting =>
      -- Without any cap neither the LIST nor the ledger is touched.
      if (cfg.caps (cfg.pool r)).isUncapped then some (s.setPhase r .admitted)
      else some (s.setPhase r (.observed (observePool s.jobs (cfg.pool r))))
    | _ => none
  | .admission r =>
    match s.phase r with
    | .observed o =>
      match ledgerAdmit s.held (cfg.pool r) r.key o (cfg.cls r) (cfg.caps (cfg.pool r)) with
      | (.admitted, held) => some ({ s with held }.setPhase r .admitted)
      | (.park _ _, held) => some ({ s with held }.setPhase r .waiting)
    | _ => none
  | .create r =>
    match s.phase r with
    | .admitted => some ({ s with jobs := s.jobs ++ [r.job cfg] }.setPhase r .created)
    | _ => none
  | .abandon r =>
    match s.phase r with
    | .admitted =>
      some ({ s with held := release s.held (cfg.pool r) r.key }.setPhase r .waiting)
    | _ => none
  | .drop r =>
    match s.phase r with
    | .created => some ({ s with held := release s.held (cfg.pool r) r.key }.setPhase r .done)
    | _ => none
  | .finish key ok t => some { s with jobs := s.jobs.map (finishJob key ok t) }
  | .remove key => some { s with jobs := s.jobs.filter fun job => job.key ≠ key }

def init : PoolState where
  jobs := []
  held := ∅
  phase := fun _ => .waiting

/-- Whether the LIST a run was observed with still accounts for every live Job
of its pool: the Job is in the LIST, or its reservation is still held. -/
def fresh (cfg : PoolConfig) (poolKey : String) (s : PoolState) : PoolAction → Bool
  | .admission r =>
    match s.phase r with
    | .observed o =>
      decide (cfg.pool r ≠ poolKey) || s.jobs.all fun job =>
        !liveIn poolKey job || decide (job.key ∈ o.seen) || decide ((poolKey, job.key) ∈ s.held)
    | _ => true
  | _ => true

end PoolState

def RunPhase.started (p : RunPhase) : Prop := p = .created ∨ p = .done

/-- At most `cap` slots hold every live Job and every admitted run; the other
fields say what reservations and observations stand for. -/
structure PoolInv (cfg : PoolConfig) (poolKey : String) (cap : Nat) (s : PoolState) : Prop where
  slots : ∃ slots : Finset String, slots.card ≤ cap ∧
    (∀ job ∈ s.jobs, liveIn poolKey job = true → job.key ∈ slots) ∧
    ∀ r, cfg.pool r = poolKey → s.phase r = .admitted → r.key ∈ slots
  reserved : ∀ r, cfg.pool r = poolKey → s.phase r = .admitted → (poolKey, r.key) ∈ s.held
  launched : ∀ job ∈ s.jobs, ∃ r : RunId, r.key = job.key ∧ (s.phase r).started
  listed : ∀ q o, s.phase q = .observed o → ∀ k ∈ o.seen, ∃ r : RunId, r.key = k ∧ (s.phase r).started
  counted : ∀ q o, cfg.pool q = poolKey → s.phase q = .observed o →
    ∃ slots : Finset String, slots.card ≤ o.repoLive ∧
      ∀ job ∈ s.jobs, liveIn poolKey job = true → job.key ∈ o.seen → job.key ∈ slots
  distinct : (s.jobs.map Job.key).Nodup

namespace PoolInv

variable {cfg : PoolConfig} {poolKey : String} {cap : Nat} {s : PoolState}

theorem init : PoolInv cfg poolKey cap PoolState.init where
  slots := ⟨∅, by simp, by simp [PoolState.init], by simp [PoolState.init]⟩
  reserved := by simp [PoolState.init]
  launched := by simp [PoolState.init]
  listed := by simp [PoolState.init]
  counted := by simp [PoolState.init]
  distinct := by simp [PoolState.init]

theorem ofJobs (h : PoolInv cfg poolKey cap s) {jobs : List Job}
    (hfrom : ∀ job ∈ jobs, ∃ old ∈ s.jobs, old.key = job.key ∧
      (liveIn poolKey job = true → liveIn poolKey old = true))
    (hnd : (jobs.map Job.key).Nodup) : PoolInv cfg poolKey cap { s with jobs } where
  slots := by
    obtain ⟨slots, hcard, hlive, hadm⟩ := h.slots
    refine ⟨slots, hcard, ?_, hadm⟩
    intro job hjob hl
    obtain ⟨old, hold, hkey, hrev⟩ := hfrom job hjob
    exact hkey ▸ hlive old hold (hrev hl)
  reserved := h.reserved
  launched := by
    intro job hjob
    obtain ⟨old, hold, hkey, -⟩ := hfrom job hjob
    exact hkey ▸ h.launched old hold
  listed := h.listed
  counted := by
    intro q o hq ho
    obtain ⟨slots, hcard, hseen⟩ := h.counted q o hq ho
    refine ⟨slots, hcard, ?_⟩
    intro job hjob hl hs
    obtain ⟨old, hold, hkey, hrev⟩ := hfrom job hjob
    exact hkey ▸ hseen old hold (hrev hl) (hkey ▸ hs)
  distinct := hnd

theorem move (h : PoolInv cfg poolKey cap s) {r : RunId} {p : RunPhase} {held : Reservations}
    (hadm : p = .admitted → cfg.pool r ≠ poolKey)
    (hstart : (s.phase r).started → p.started)
    (hheld : ∀ q, q ≠ r → cfg.pool q = poolKey → s.phase q = .admitted → (poolKey, q.key) ∈ held)
    (hlisted : ∀ o, p = .observed o → ∀ k ∈ o.seen, ∃ q : RunId, q.key = k ∧ (s.phase q).started)
    (hcounted : ∀ o, cfg.pool r = poolKey → p = .observed o →
      ∃ slots : Finset String, slots.card ≤ o.repoLive ∧
        ∀ job ∈ s.jobs, liveIn poolKey job = true → job.key ∈ o.seen → job.key ∈ slots) :
    PoolInv cfg poolKey cap ({ s with held }.setPhase r p) := by
  have hkeeps : ∀ q : RunId, (s.phase q).started →
      (Function.update s.phase r p q).started := by
    intro q hq
    by_cases hqr : q = r
    · subst hqr
      simpa using hstart hq
    · simpa [Function.update_of_ne hqr] using hq
  have hold : ∀ q, cfg.pool q = poolKey → Function.update s.phase r p q = .admitted →
      q ≠ r ∧ s.phase q = .admitted := by
    intro q hpool hq
    by_cases hqr : q = r
    · subst hqr
      exact absurd hpool (hadm (by simpa using hq))
    · exact ⟨hqr, by simpa [Function.update_of_ne hqr] using hq⟩
  constructor
  case slots =>
    obtain ⟨slots, hcard, hlive, hslots⟩ := h.slots
    exact ⟨slots, hcard, hlive, fun q hpool hq => hslots q hpool (hold q hpool hq).2⟩
  case reserved =>
    intro q hpool hq
    exact hheld q (hold q hpool hq).1 hpool (hold q hpool hq).2
  case launched =>
    intro job hjob
    obtain ⟨q, hkey, hq⟩ := h.launched job hjob
    exact ⟨q, hkey, hkeeps q hq⟩
  case listed =>
    intro q o hq k hk
    obtain ⟨q', hkey, hq'⟩ : ∃ q' : RunId, q'.key = k ∧ (s.phase q').started := by
      by_cases hqr : q = r
      · subst hqr
        exact hlisted o (by simpa [PoolState.setPhase] using hq) k hk
      · exact h.listed q o (by simpa [PoolState.setPhase, Function.update_of_ne hqr] using hq) k hk
    exact ⟨q', hkey, hkeeps q' hq'⟩
  case counted =>
    intro q o hpool hq
    by_cases hqr : q = r
    · subst hqr
      exact hcounted o hpool (by simpa [PoolState.setPhase] using hq)
    · exact h.counted q o hpool (by simpa [PoolState.setPhase, Function.update_of_ne hqr] using hq)
  case distinct => exact h.distinct

theorem key_unused (h : PoolInv cfg poolKey cap s) {r : RunId} (hr : ¬ (s.phase r).started) :
    (∀ job ∈ s.jobs, job.key ≠ r.key) ∧
      ∀ q o, s.phase q = .observed o → r.key ∉ o.seen := by
  constructor
  · intro job hjob hkey
    obtain ⟨q, hq, hstarted⟩ := h.launched job hjob
    exact hr (RunId.key_injective (hq.trans hkey) ▸ hstarted)
  · intro q o ho hseen
    obtain ⟨q', hq', hstarted⟩ := h.listed q o ho _ hseen
    exact hr (RunId.key_injective hq' ▸ hstarted)

theorem create (h : PoolInv cfg poolKey cap s) {r : RunId} (hr : s.phase r = .admitted) :
    PoolInv cfg poolKey cap ({ s with jobs := s.jobs ++ [r.job cfg] }.setPhase r .created) := by
  have hns : ¬ (s.phase r).started := by simp [hr, RunPhase.started]
  obtain ⟨hunused, hunseen⟩ := h.key_unused hns
  have hkey : (r.job cfg).key = r.key := rfl
  have hlabel : liveIn poolKey (r.job cfg) = true → cfg.pool r = poolKey := by
    intro hl
    simp only [liveIn, Bool.and_eq_true, decide_eq_true_eq] at hl
    simpa [poolValue, RunId.job] using hl.1
  have hkeeps : ∀ q : RunId, (s.phase q).started →
      (Function.update s.phase r .created q).started := by
    intro q hq
    by_cases hqr : q = r
    · simp [hqr, RunPhase.started]
    · simpa [Function.update_of_ne hqr] using hq
  have hother : ∀ {q : RunId} {p : RunPhase}, Function.update s.phase r .created q = p →
      p ≠ .created → s.phase q = p := by
    intro q p hq hne
    by_cases hqr : q = r
    · subst hqr
      exact absurd (by simpa using hq.symm) hne
    · simpa [Function.update_of_ne hqr] using hq
  constructor
  case slots =>
    obtain ⟨slots, hcard, hlive, hadm⟩ := h.slots
    refine ⟨slots, hcard, ?_, fun q hpool hq => hadm q hpool (hother hq (by simp))⟩
    intro job hjob hl
    rcases List.mem_append.mp hjob with hjob | hjob
    · exact hlive job hjob hl
    · rw [List.mem_singleton.mp hjob] at hl ⊢
      exact hadm r (hlabel hl) hr
  case reserved => exact fun q hpool hq => h.reserved q hpool (hother hq (by simp))
  case launched =>
    intro job hjob
    rcases List.mem_append.mp hjob with hjob | hjob
    · obtain ⟨q, hq, hstarted⟩ := h.launched job hjob
      exact ⟨q, hq, hkeeps q hstarted⟩
    · rw [List.mem_singleton.mp hjob]
      exact ⟨r, hkey.symm, by simp [PoolState.setPhase, RunPhase.started]⟩
  case listed =>
    intro q o hq k hk
    obtain ⟨q', hq', hstarted⟩ := h.listed q o (hother hq (by simp)) k hk
    exact ⟨q', hq', hkeeps q' hstarted⟩
  case counted =>
    intro q o hpool hq
    have hq' := hother hq (by simp)
    obtain ⟨slots, hcard, hseen⟩ := h.counted q o hpool hq'
    refine ⟨slots, hcard, ?_⟩
    intro job hjob hl hs
    rcases List.mem_append.mp hjob with hjob | hjob
    · exact hseen job hjob hl hs
    · rw [List.mem_singleton.mp hjob, hkey] at hs
      exact absurd hs (hunseen q o hq')
  case distinct =>
    simp only [PoolState.setPhase, List.map_append, List.map_cons, List.map_nil]
    refine List.nodup_append.mpr ⟨h.distinct, by simp, ?_⟩
    intro k hk k' hk' heq
    obtain ⟨job, hjob, rfl⟩ := List.mem_map.mp hk
    rw [List.mem_singleton.mp hk', hkey] at heq
    exact hunused job hjob heq

theorem admitted (h : PoolInv cfg poolKey cap s) {r : RunId} {o : ObservedPool}
    {held : Reservations} (hphase : s.phase r = .observed o) (hpool : cfg.pool r = poolKey)
    (hcls : (cfg.cls r).parkable = true) (hcap : (cfg.caps poolKey).repo = some cap)
    (hgrant : ledgerAdmit s.held poolKey r.key o (cfg.cls r) (cfg.caps poolKey) = (.admitted, held))
    (hfresh : ∀ job ∈ s.jobs, liveIn poolKey job = true →
      job.key ∈ o.seen ∨ (poolKey, job.key) ∈ s.held) :
    PoolInv cfg poolKey cap ({ s with held }.setPhase r .admitted) := by
  obtain ⟨hroom, rfl⟩ := ledgerAdmit_room hcls hcap hgrant
  obtain ⟨listedSlots, hlcard, hlslots⟩ := h.counted r o hpool hphase
  have hns : ¬ (s.phase r).started := by simp [hphase, RunPhase.started]
  have hkept : ∀ {k : String}, (poolKey, k) ∈ s.held → k ∉ o.seen →
      (poolKey, k) ∈ sweepObserved s.held o.seen := by
    intro k hk hseen
    exact Finset.mem_filter.mpr ⟨hk, hseen⟩
  have hphaseOf : ∀ q : RunId, q ≠ r → Function.update s.phase r .admitted q = s.phase q :=
    fun q hqr => Function.update_of_ne hqr _ _
  have hkeeps : ∀ q : RunId, (s.phase q).started →
      (Function.update s.phase r .admitted q).started := by
    intro q hq
    rw [hphaseOf q fun hqr => hns (hqr ▸ hq)]
    exact hq
  have hother : ∀ {q : RunId} {p : RunPhase}, Function.update s.phase r .admitted q = p →
      p ≠ .admitted → s.phase q = p := by
    intro q p hq hne
    by_cases hqr : q = r
    · subst hqr
      exact absurd (by simpa using hq.symm) hne
    · rwa [hphaseOf q hqr] at hq
  have hreserved : ∀ q, q ≠ r → cfg.pool q = poolKey →
      Function.update s.phase r .admitted q = .admitted →
      (poolKey, q.key) ∈ sweepObserved s.held o.seen := by
    intro q hqr hqpool hq
    rw [hphaseOf q hqr] at hq
    exact hkept (h.reserved q hqpool hq)
      ((h.key_unused (by simp [hq, RunPhase.started])).2 r o hphase)
  constructor
  case slots =>
    set promised := ((sweepObserved s.held o.seen).filter fun e => e.1 = poolKey).image Prod.snd
      with hpromised
    have hmem : ∀ {k : String}, (poolKey, k) ∈ sweepObserved s.held o.seen → k ∈ promised :=
      fun hk => Finset.mem_image.mpr ⟨_, Finset.mem_filter.mpr ⟨hk, rfl⟩, rfl⟩
    refine ⟨insert r.key (listedSlots ∪ promised), ?_, ?_, ?_⟩
    · have h1 := Finset.card_insert_le r.key (listedSlots ∪ promised)
      have h2 := Finset.card_union_le listedSlots promised
      have h3 : promised.card ≤ reservedIn (sweepObserved s.held o.seen) poolKey :=
        Finset.card_image_le
      omega
    · intro job hjob hl
      apply Finset.mem_insert_of_mem
      by_cases hs : job.key ∈ o.seen
      · exact Finset.mem_union_left _ (hlslots job hjob hl hs)
      · exact Finset.mem_union_right _ (hmem (hkept ((hfresh job hjob hl).resolve_left hs) hs))
    · intro q hqpool hq
      by_cases hqr : q = r
      · exact hqr ▸ Finset.mem_insert_self _ _
      · exact Finset.mem_insert_of_mem (Finset.mem_union_right _ (hmem (hreserved q hqr hqpool hq)))
  case reserved =>
    intro q hqpool hq
    by_cases hqr : q = r
    · exact hqr ▸ Finset.mem_insert_self _ _
    · exact Finset.mem_insert_of_mem (hreserved q hqr hqpool hq)
  case launched =>
    intro job hjob
    obtain ⟨q, hq, hstarted⟩ := h.launched job hjob
    exact ⟨q, hq, hkeeps q hstarted⟩
  case listed =>
    intro q o' hq k hk
    obtain ⟨q', hq', hstarted⟩ := h.listed q o' (hother hq (by simp)) k hk
    exact ⟨q', hq', hkeeps q' hstarted⟩
  case counted => exact fun q o' hqpool hq => h.counted q o' hqpool (hother hq (by simp))
  case distinct => exact h.distinct

theorem list (h : PoolInv cfg poolKey cap s) {r : RunId} (hr : s.phase r = .waiting) :
    PoolInv cfg poolKey cap
      (s.setPhase r (.observed (observePool s.jobs (cfg.pool r)))) := by
  refine h.move (by simp) (by simp [hr, RunPhase.started]) (fun q _ => h.reserved q) ?_ ?_
  · intro o ho k hk
    cases ho
    obtain ⟨job, hjob, -, name, hname, rfl⟩ := mem_observePool_seen.mp hk
    obtain ⟨q, hq, hstarted⟩ := h.launched job hjob
    exact ⟨q, hq.trans (by simp [Job.key, Job.name, ObjectMeta.nameAny, hname]), hstarted⟩
  · intro o hpool ho
    cases ho
    refine ⟨((s.jobs.filter (liveIn poolKey)).map Job.key).toFinset, ?_, ?_⟩
    · rw [hpool, observePool_repoLive]
      exact (List.toFinset_card_le _).trans (by simp)
    · intro job hjob hl _
      exact List.mem_toFinset.mpr (List.mem_map.mpr ⟨job, List.mem_filter.mpr ⟨hjob, hl⟩, rfl⟩)

theorem reserved_admit (h : PoolInv cfg poolKey cap s) {r q : RunId} {o : ObservedPool}
    (hr : s.phase r = .observed o) (hpool : cfg.pool q = poolKey) (hq : s.phase q = .admitted) :
    (poolKey, q.key) ∈
      (ledgerAdmit s.held (cfg.pool r) r.key o (cfg.cls r) (cfg.caps (cfg.pool r))).2 := by
  have hns : ¬ (s.phase q).started := by simp [hq, RunPhase.started]
  exact sweepObserved_subset_ledgerAdmit _ _ _ _ _ _
    (Finset.mem_filter.mpr ⟨h.reserved q hpool hq, (h.key_unused hns).2 r o hr⟩)

theorem reserved_release (h : PoolInv cfg poolKey cap s) {r q : RunId} (hqr : q ≠ r)
    (hpool : cfg.pool q = poolKey) (hq : s.phase q = .admitted) :
    (poolKey, q.key) ∈ release s.held (cfg.pool r) r.key :=
  Finset.mem_erase.mpr
    ⟨fun heq => hqr (RunId.key_injective (Prod.mk.inj heq).2), h.reserved q hpool hq⟩

theorem finish (h : PoolInv cfg poolKey cap s) (key : String) (ok : Bool) (t : DateTime) :
    PoolInv cfg poolKey cap { s with jobs := s.jobs.map (finishJob key ok t) } := by
  refine h.ofJobs ?_ ?_
  · intro job hjob
    obtain ⟨old, hold, rfl⟩ := List.mem_map.mp hjob
    refine ⟨old, hold, by simp, fun hl => ?_⟩
    have hrun : jobTerminalState (finishJob key ok t old) = none := by
      cases hterm : jobTerminalState (finishJob key ok t old) with
      | none => rfl
      | some _ => simp [liveIn, jobOccupiesSlot, hterm] at hl
    exact finishJob_running hrun ▸ hl
  · rw [List.map_map, show (Job.key ∘ finishJob key ok t) = Job.key from funext (by simp)]
    exact h.distinct

theorem step (h : PoolInv cfg poolKey cap s) (hcap : (cfg.caps poolKey).repo = some cap)
    (hcls : ∀ r, cfg.pool r = poolKey → (cfg.cls r).parkable = true) {a : PoolAction}
    {s' : PoolState} (hfresh : s.fresh cfg poolKey a = true) (hstep : s.step cfg a = some s') :
    PoolInv cfg poolKey cap s' := by
  cases a with
  | list r =>
    simp only [PoolState.step] at hstep
    split at hstep
    case h_2 => cases hstep
    case h_1 hr =>
      split at hstep
      case isFalse =>
        cases hstep
        exact h.list hr
      case isTrue huncapped =>
        cases hstep
        refine h.move (fun _ hpool => ?_) (by simp [hr, RunPhase.started]) (fun q _ => h.reserved q)
          (by simp) (by simp)
        simp [PoolCaps.isUncapped, hpool, hcap] at huncapped
  | admission r =>
    simp only [PoolState.step] at hstep
    split at hstep
    case h_2 => cases hstep
    case h_1 o hr =>
      have hreserved : ∀ q, q ≠ r → cfg.pool q = poolKey → s.phase q = .admitted → _ :=
        fun q _ => h.reserved_admit hr
      split at hstep
      case h_1 held hgrant =>
        cases hstep
        by_cases hpool : cfg.pool r = poolKey
        · subst hpool
          refine h.admitted hr rfl (hcls r rfl) hcap hgrant (fun job hjob hl => ?_)
          have hseen := hfresh
          simp only [PoolState.fresh, hr, ne_eq, not_true, decide_false, Bool.false_or,
            List.all_eq_true] at hseen
          simpa [hl] using hseen job hjob
        · rw [hgrant] at hreserved
          exact h.move (fun _ => hpool) (by simp [hr, RunPhase.started]) hreserved (by simp)
            (by simp)
      case h_2 repoLive globalLive held hpark =>
        cases hstep
        rw [hpark] at hreserved
        exact h.move (by simp) (by simp [hr, RunPhase.started]) hreserved (by simp) (by simp)
  | create r =>
    simp only [PoolState.step] at hstep
    split at hstep
    case h_2 => cases hstep
    case h_1 hr =>
      cases hstep
      exact h.create hr
  | abandon r =>
    simp only [PoolState.step] at hstep
    split at hstep
    case h_2 => cases hstep
    case h_1 hr =>
      cases hstep
      exact h.move (by simp) (by simp [hr, RunPhase.started]) (fun q => h.reserved_release)
        (by simp) (by simp)
  | drop r =>
    simp only [PoolState.step] at hstep
    split at hstep
    case h_2 => cases hstep
    case h_1 hr =>
      cases hstep
      exact h.move (by simp) (by simp [RunPhase.started]) (fun q => h.reserved_release)
        (by simp) (by simp)
  | finish key ok t =>
    cases hstep
    exact h.finish key ok t
  | remove key =>
    cases hstep
    refine h.ofJobs ?_ (h.distinct.sublist (List.filter_sublist.map _))
    intro job hjob
    exact ⟨job, List.mem_of_mem_filter hjob, rfl, id⟩

end PoolInv

end Kopiur
