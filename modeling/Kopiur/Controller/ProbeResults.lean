import Kopiur.Controller.Reinitialize

/-!
# The results of health probes

A probe Job carries a launch stamp in the status. While the stamp is fresh, the
finished Job is read as the probe's result: it is folded into the health once,
and only then deleted.
-/

namespace Kopiur

open Lib

def foldsOf (n : Nat) (log : List Event) : List Bool :=
  log.filterMap fun e =>
    match e with
    | .folded k probe => if k = n then some probe else none
    | _ => none

def RemovalsFollowFolds : List Event → Prop
  | [] => True
  | .removed n :: rest =>
    (.stamped n ∈ rest → .folded n true ∈ rest) ∧ RemovalsFollowFolds rest
  | _ :: rest => RemovalsFollowFolds rest

theorem foldsOf_append (n : Nat) (notes log : List Event) :
    foldsOf n (notes ++ log) = foldsOf n notes ++ foldsOf n log := by
  simp [foldsOf]

theorem mem_foldsOf {n : Nat} {b : Bool} {log : List Event} :
    b ∈ foldsOf n log ↔ .folded n b ∈ log := by
  simp only [foldsOf, List.mem_filterMap]
  constructor
  · rintro ⟨e, he, hb⟩
    split at hb
    · next k probe =>
      split at hb
      · next hk =>
        cases hb
        rwa [← hk]
      · cases hb
    · cases hb
  · intro he
    exact ⟨_, he, by simp⟩

def Event.plain : Event → Bool
  | .connected _ | .pinned _ | .verdict | .recreated .. | .created .. | .honored .. => true
  | .stamped _ | .folded .. | .removed _ => false

section Notes

variable {notes log : List Event}

theorem foldsOf_plain (h : ∀ e ∈ notes, e.plain = true) (n : Nat) : foldsOf n notes = [] := by
  rw [List.eq_nil_iff_forall_not_mem]
  intro b hb
  exact absurd (h _ (mem_foldsOf.mp hb)) (by simp [Event.plain])

def QuietNotes (notes : List Event) : Prop :=
  ∀ e ∈ notes, (∀ n, e ≠ .stamped n) ∧ ∀ n, e ≠ .removed n

theorem quiet_plain (h : ∀ e ∈ notes, e.plain = true) : QuietNotes notes := by
  intro e he
  constructor <;> rintro n rfl <;> exact absurd (h _ he) (by simp [Event.plain])

theorem stamped_quiet (h : QuietNotes notes) {n : Nat} :
    .stamped n ∈ notes ++ log ↔ .stamped n ∈ log := by
  rw [List.mem_append, or_iff_right]
  exact fun hn => (h _ hn).1 n rfl

theorem removals_quiet (h : QuietNotes notes) (hlog : RemovalsFollowFolds log) :
    RemovalsFollowFolds (notes ++ log) := by
  induction notes with
  | nil => exact hlog
  | cons e rest ih =>
    obtain ⟨he, hrest⟩ := List.forall_mem_cons.mp h
    have hih := ih hrest
    cases e with
    | removed n => exact absurd rfl (he.2 n)
    | stamped | folded | connected | pinned | verdict | recreated | created | honored => exact hih

end Notes

theorem plain_connectedNotes (inProcess created : Bool) (id : Option String) (grant : CreateGrant)
    (ack : Option String) :
    ∀ e ∈ World.connectedNotes inProcess id created grant ack, e.plain = true := by
  intro e he
  simp only [World.connectedNotes, List.mem_append, List.mem_singleton, Option.mem_toList] at he
  rcases he with (he | he) | rfl
  · split at he
    · obtain ⟨a, -, he⟩ := Option.bind_eq_some_iff.mp (Option.mem_toList.mp he)
      obtain ⟨i, -, rfl⟩ := Option.map_eq_some_iff.mp he
      rfl
    · cases he
  · obtain ⟨i, -, rfl⟩ := Option.map_eq_some_iff.mp he
    rfl
  · rfl

-- The invariant

/-- A stamped Job whose result is awaited. -/
structure InFlight (rfc : Rfc3339) (w : World) (job : DiscoveryJob) : Prop where
  unfolded : foldsOf job.launch.number w.log = []
  ready : w.status.phase = some .ready
  pinned : w.status.uniqueId.isSome = true
  observed : w.status.observedGeneration = some w.repo.generation
  enabled : w.repo.spec.probeEnabled = true
  launched : job.generation = some w.repo.generation.repr
  refreshed : ∀ s, w.status.lastRefreshAt = some s → ∃ t, rfc.parse s = some t ∧ t ≤ job.launch.time
  completed : job.terminal = some .complete → ∃ c, job.completionTime = some c ∧ job.launch.time < c

/-- A stamped Job whose success was folded; it stays when the scan of its
listing failed, and its success changes the health no more. -/
structure ReadOnce (w : World) (job : DiscoveryJob) : Prop where
  folded : foldsOf job.launch.number w.log = [true]
  ready : w.status.phase = some .ready
  pinned : w.status.uniqueId.isSome = true
  finished : job.terminal.isSome = true
  success : ∃ r, job.report = some r ∧ r.success = true
  calm : ∀ now, successFold false w.status.health (backendReachableTrue w.status.conditions) now =
    none

structure ProbeInv (rfc : Rfc3339) (m : Nat) (w : World) : Prop where
  asked : w.repo.reverifyToken = none
  known : ∀ n, .stamped n ∈ w.log ∨ foldsOf n w.log ≠ [] → n ≤ m
  numbered : ∀ job, w.job = some job → job.launch.number ≤ m
  active : ∀ job, w.job = some job →
    w.repo.spec.suspend = false ∧ w.repo.spec.backend.barePath = false
  refreshed : ∀ s, w.status.lastRefreshAt = some s → ∃ t, rfc.parse s = some t ∧ t ≤ w.now
  stamp : w.status.health.probeAttemptAt.isSome = true →
    ∃ job, w.job = some job ∧ .stamped job.launch.number ∈ w.log ∧ InFlight rfc w job
  jobs : ∀ job, w.job = some job → .stamped job.launch.number ∈ w.log →
    w.status.health.probeAttemptAt.isSome = true ∨ ReadOnce w job
  strict : ∀ n, .stamped n ∉ w.log → true ∉ foldsOf n w.log
  once : ∀ n, .stamped n ∈ w.log → foldsOf n w.log = [] ∨ foldsOf n w.log = [true]
  removals : RemovalsFollowFolds w.log

variable {rfc : Rfc3339} {m : Nat} {w : World}

theorem ProbeInv.fresh (now : DateTime) {repo : Repository} (h : repo.reverifyToken = none)
    (contents : List String) : ProbeInv rfc 0 (.fresh now repo contents) where
  asked := h
  known n hn := by rcases hn with hn | hn <;> simp [World.fresh, foldsOf] at hn
  numbered job hj := by cases hj
  active job hj := by cases hj
  refreshed s hs := by cases hs
  stamp hs := by cases hs
  jobs job hj := by cases hj
  strict n _ hn := by simp [World.fresh, foldsOf] at hn
  once n hn := by cases hn
  removals := trivial

namespace ProbeInv

theorem mono (h : ProbeInv rfc m w) {k : Nat} (hle : m ≤ k) : ProbeInv rfc k w :=
  ⟨h.asked, fun n hn => (h.known n hn).trans hle, fun j hj => (h.numbered j hj).trans hle, h.active,
    h.refreshed, h.stamp, h.jobs, h.strict, h.once, h.removals⟩

theorem patch (h : ProbeInv rfc m w) {p : StatusPatch} {notes : List Event}
    (hrefresh : p.lastRefreshAt = .keep ∨
      ∃ s, p.lastRefreshAt = .value s ∧ ∃ t, rfc.parse s = some t ∧ t ≤ w.now)
    (hattempt : p.health.probeAttemptAt.merge w.status.health.probeAttemptAt = none)
    (hquiet : QuietNotes notes) (hknown : ∀ n, foldsOf n notes ≠ [] → n ≤ m)
    (hstrict : ∀ n, .stamped n ∉ w.log → true ∉ foldsOf n notes)
    (honce : ∀ n, .stamped n ∈ w.log → foldsOf n (notes ++ w.log) = [] ∨
      foldsOf n (notes ++ w.log) = [true])
    (hread : ∀ job, w.job = some job → .stamped job.launch.number ∈ w.log →
      ReadOnce (w.apply (.patchStatus p notes)) job) :
    ProbeInv rfc m (w.apply (.patchStatus p notes)) where
  asked := h.asked
  known n hn := by
    rcases hn with hn | hn
    · exact h.known n (.inl ((stamped_quiet hquiet).mp hn))
    · rw [show foldsOf n (w.apply (.patchStatus p notes)).log = _ from foldsOf_append n notes w.log]
        at hn
      by_cases hnotes : foldsOf n notes = []
      · rw [hnotes] at hn
        exact h.known n (.inr hn)
      · exact hknown n hnotes
  numbered := h.numbered
  active := h.active
  refreshed s hs := by
    change p.lastRefreshAt.merge w.status.lastRefreshAt = some s at hs
    rcases hrefresh with hk | ⟨s', hv, ht⟩
    · rw [hk] at hs
      exact h.refreshed s hs
    · rw [hv] at hs
      cases hs
      exact ht
  stamp hs := by
    rw [show (w.apply (.patchStatus p notes)).status.health.probeAttemptAt = none from hattempt]
      at hs
    cases hs
  jobs job hj hs := .inr (hread job hj ((stamped_quiet hquiet).mp hs))
  strict n hn := by
    intro ht
    rw [show foldsOf n (w.apply (.patchStatus p notes)).log = _ from foldsOf_append n notes w.log,
      List.mem_append] at ht
    have hn : .stamped n ∉ w.log := fun hm => hn ((stamped_quiet hquiet).mpr hm)
    exact ht.elim (hstrict n hn) (h.strict n hn)
  once n hn := honce n ((stamped_quiet hquiet).mp hn)
  removals := removals_quiet hquiet h.removals

theorem deleteJob (h : ProbeInv rfc m w) (hstamp : w.status.health.probeAttemptAt = none) :
    ProbeInv rfc m (w.apply .deleteJob) := by
  cases hj : w.job with
  | none =>
    have hsame : w.apply .deleteJob = w := by
      cases w
      cases hj
      rfl
    rw [hsame]
    exact h
  | some job =>
    have hlog : (w.apply .deleteJob).log = .removed job.launch.number :: w.log := by
      simp [World.apply, hj]
    have hfolds : ∀ n, foldsOf n (w.apply .deleteJob).log = foldsOf n w.log := fun n => by
      rw [hlog]
      rfl
    have hstamped : ∀ n, .stamped n ∈ (w.apply .deleteJob).log ↔ .stamped n ∈ w.log := fun n => by
      rw [hlog, List.mem_cons]
      exact or_iff_right (by simp)
    refine ⟨h.asked, ?_, ?_, ?_, h.refreshed, ?_, ?_, ?_, ?_, ?_⟩
    · intro n hn
      rw [hfolds, hstamped] at hn
      exact h.known n hn
    · rintro j ⟨⟩
    · rintro j ⟨⟩
    · intro hs
      rw [show (w.apply .deleteJob).status.health.probeAttemptAt = none from hstamp] at hs
      cases hs
    · rintro j ⟨⟩
    · intro n hn
      rw [hfolds]
      exact h.strict n fun hm => hn ((hstamped n).mpr hm)
    · intro n hn
      rw [hfolds]
      exact h.once n ((hstamped n).mp hn)
    · rw [hlog]
      refine ⟨fun hs => ?_, h.removals⟩
      rcases h.jobs job hj hs with hp | hread
      · rw [hstamp] at hp
        cases hp
      · exact mem_foldsOf.mp (by rw [hread.folded]; exact List.mem_singleton_self _)

theorem frame (h : ProbeInv rfc m w) {w' : World} (hnow : w.now ≤ w'.now)
    (hstatus : w'.status = w.status) (hgen : w'.repo.generation = w.repo.generation)
    (hspec : w'.repo.spec = w.repo.spec) (hasked : w'.repo.reverifyToken = none)
    (hjob : w'.job = w.job) {notes : List Event} (hplain : ∀ e ∈ notes, e.plain = true)
    (hlog : w'.log = notes ++ w.log) : ProbeInv rfc m w' := by
  have hstamped : ∀ n, .stamped n ∈ w'.log ↔ .stamped n ∈ w.log := fun n => by
    rw [hlog, stamped_quiet (quiet_plain hplain)]
  have hfolds : ∀ n, foldsOf n w'.log = foldsOf n w.log := fun n => by
    rw [hlog, foldsOf_append, foldsOf_plain hplain, List.nil_append]
  refine ⟨hasked, ?_, ?_, ?_, ?_, ?_, ?_, ?_, ?_, ?_⟩
  · intro n
    rw [hstamped, hfolds]
    exact h.known n
  · rw [hjob]
    exact h.numbered
  · rw [hjob, hspec]
    exact h.active
  · rw [hstatus]
    intro s hs
    obtain ⟨t, ht, hle⟩ := h.refreshed s hs
    exact ⟨t, ht, le_trans hle hnow⟩
  · rw [hstatus]
    intro hs
    obtain ⟨job, hj, hmem, hf⟩ := h.stamp hs
    refine ⟨job, hjob.trans hj, (hstamped _).mpr hmem, ?_⟩
    exact ⟨(hfolds _).trans hf.unfolded, hstatus ▸ hf.ready, hstatus ▸ hf.pinned,
      by rw [hstatus, hgen]; exact hf.observed, hspec ▸ hf.enabled, hgen ▸ hf.launched,
      hstatus ▸ hf.refreshed, hf.completed⟩
  · rw [hjob, hstatus]
    intro job hj hs
    refine (h.jobs job hj ((hstamped _).mp hs)).imp id fun hr => ?_
    exact ⟨(hfolds _).trans hr.folded, hstatus ▸ hr.ready, hstatus ▸ hr.pinned, hr.finished,
      hr.success, hstatus ▸ hr.calm⟩
  · intro n
    rw [hstamped, hfolds]
    exact h.strict n
  · intro n
    rw [hstamped, hfolds]
    exact h.once n
  · rw [hlog]
    exact removals_quiet (quiet_plain hplain) h.removals

theorem changeJob (h : ProbeInv rfc m w) {job job' : DiscoveryJob} (hj : w.job = some job)
    (hrunning : job.terminal = none) (hlaunch : job'.launch = job.launch)
    (hgen : job'.generation = job.generation)
    (hcompleted : job'.terminal = some .complete →
      ∃ c, job'.completionTime = some c ∧ job.launch.time < c) :
    ProbeInv rfc m { w with job := some job' } := by
  refine ⟨h.asked, h.known, ?_, fun _ _ => h.active job hj, h.refreshed, ?_, ?_, h.strict, h.once,
    h.removals⟩
  · rintro j ⟨⟩
    rw [hlaunch]
    exact h.numbered job hj
  · intro hs
    obtain ⟨j, hj', hmem, hf⟩ := h.stamp hs
    cases hj.symm.trans hj'
    refine ⟨job', rfl, hlaunch ▸ hmem, ?_⟩
    exact ⟨hlaunch ▸ hf.unfolded, hf.ready, hf.pinned, hf.observed, hf.enabled,
      hgen.trans hf.launched, hlaunch ▸ hf.refreshed, hlaunch ▸ hcompleted⟩
  · rintro j ⟨⟩ hs
    refine .inl ((h.jobs job hj (hlaunch ▸ hs)).resolve_right fun hr => ?_)
    have := hr.finished
    rw [hrunning] at this
    cases this

end ProbeInv

-- Jobs that were not stamped

/-- No stamp stands and the Job at hand, if there is one, has none. -/
structure Unstamped (rfc : Rfc3339) (m n : Nat) (w : World) : Prop extends ProbeInv rfc m w where
  idle : w.status.health.probeAttemptAt = none
  small : n ≤ m
  fresh : .stamped n ∉ w.log
  plain : ∀ job, w.job = some job → job.launch.number = n

/-- A call of a strict bootstrap with the given number. -/
def Effect.Strict (rfc : Rfc3339) (now : DateTime) (n : Nat) : Effect → Prop
  | .deleteJob | .createRepository .. | .requestScan _ => True
  | .patchStatus p notes =>
    (p.lastRefreshAt = .keep ∨ p.lastRefreshAt = .value (rfc.render now)) ∧
      p.health.probeAttemptAt.merge none = none ∧
      ∀ e ∈ notes, e.plain = true ∨ e = .folded n false
  | .applyJob _ => False

theorem notes_folded {n : Nat} {notes : List Event}
    (hnotes : ∀ e ∈ notes, e.plain = true ∨ e = .folded n false) :
    QuietNotes notes ∧ (∀ k, foldsOf k notes ≠ [] → k = n) ∧ ∀ k, true ∉ foldsOf k notes := by
  refine ⟨?_, ?_, ?_⟩
  · intro e he
    rcases hnotes e he with hp | rfl
    · constructor <;> rintro k rfl <;> exact absurd hp (by simp [Event.plain])
    · simp
  · intro k hk
    obtain ⟨b, hb⟩ := List.exists_mem_of_ne_nil _ hk
    rcases hnotes _ (mem_foldsOf.mp hb) with hp | he
    · exact absurd hp (by simp [Event.plain])
    · cases he
      rfl
  · intro k hk
    rcases hnotes _ (mem_foldsOf.mp hk) with hp | he
    · exact absurd hp (by simp [Event.plain])
    · cases he

theorem Unstamped.apply {n : Nat} (h : Unstamped rfc m n w)
    (hrfc : ∀ t, rfc.parse (rfc.render t) = some t) {e : Effect} (he : e.Strict rfc w.now n) :
    Unstamped rfc m n (w.apply e) := by
  cases e with
  | deleteJob =>
    refine ⟨h.deleteJob h.idle, h.idle, h.small, ?_, ?_⟩
    · intro hs
      rcases List.mem_append.mp hs with hs | hs
      · obtain ⟨j, -, hj⟩ := Option.map_eq_some_iff.mp (Option.mem_toList.mp hs)
        cases hj
      · exact h.fresh hs
    · rintro job ⟨⟩
  | createRepository l g a =>
    have hplain : ∀ e ∈ [Event.created l g a], e.plain = true := by simp [Event.plain]
    refine ⟨h.frame le_rfl rfl rfl rfl h.asked rfl hplain rfl, h.idle, h.small, ?_, h.plain⟩
    exact fun hs => h.fresh ((stamped_quiet (quiet_plain hplain)).mp hs)
  | requestScan token =>
    exact ⟨h.frame le_rfl rfl rfl rfl h.asked rfl (by simp) (List.nil_append _).symm, h.idle, h.small,
      h.fresh, h.plain⟩
  | patchStatus p notes =>
    obtain ⟨hrefresh, hattempt, hnotes⟩ := he
    obtain ⟨hquiet, hown, hstrict⟩ := notes_folded hnotes
    have hattempt : p.health.probeAttemptAt.merge w.status.health.probeAttemptAt = none := by
      rw [h.idle]
      exact hattempt
    refine ⟨h.patch ?_ hattempt hquiet ?_ (fun k _ => hstrict k) ?_ ?_, hattempt, h.small, ?_, h.plain⟩
    · exact hrefresh.imp id fun hv => ⟨_, hv, w.now, hrfc w.now, le_rfl⟩
    · intro k hk
      rw [hown k hk]
      exact h.small
    · intro k hk
      have hempty : foldsOf k notes = [] := by
        by_contra hne
        exact h.fresh (hown k hne ▸ hk)
      rw [foldsOf_append, hempty]
      exact h.once k hk
    · intro job hj hs
      rw [h.plain job hj] at hs
      exact absurd hs h.fresh
    · rw [show (w.apply (.patchStatus p notes)).log = notes ++ w.log from rfl, stamped_quiet hquiet]
      exact h.fresh
  | applyJob job => exact he.elim

theorem Unstamped.calls {n : Nat} (hrfc : ∀ t, rfc.parse (rfc.render t) = some t) {es : List Effect}
    (h : Unstamped rfc m n w) (hes : ∀ e ∈ es, e.Strict rfc w.now n) :
    w.Throughout (Unstamped rfc m n) es := by
  induction es generalizing w with
  | nil => exact h
  | cons e rest ih =>
    obtain ⟨he, hrest⟩ := List.forall_mem_cons.mp hes
    refine ⟨h, ih (h.apply hrfc he) ?_⟩
    rw [show (w.apply e).now = w.now by cases e <;> rfl]
    exact hrest

section Strict

variable {n : Nat}

theorem strict_patch {p : StatusPatch} {notes : List Event} {now : DateTime}
    (hrefresh : p.lastRefreshAt = .keep) (hattempt : p.health.probeAttemptAt.merge none = none)
    (hnotes : ∀ e ∈ notes, e.plain = true ∨ e = .folded n false) :
    (Effect.patchStatus p notes).Strict rfc now n :=
  ⟨.inl hrefresh, hattempt, hnotes⟩

theorem runCatalogScan_strict (listedAt : Nat) (listing : List String) (scanned : Bool) :
    ∀ e ∈ w.runCatalogScan rfc listedAt listing scanned, e.Strict rfc w.now n := by
  intro e he
  rw [World.runCatalogScan] at he
  split at he
  · rw [List.mem_singleton.mp he]
    refine ⟨.inr rfl, rfl, fun note hnote => .inl ?_⟩
    obtain ⟨t, -, rfl⟩ := Option.map_eq_some_iff.mp (Option.mem_toList.mp hnote)
    rfl
  · obtain ⟨t, -, rfl⟩ := List.mem_map.mp he
    trivial

theorem successFold_attempt {probeRun reachable : Bool} {health : HealthStatus} {now : String} :
    ((successFold probeRun health reachable now).getD {}).probeAttemptAt.merge none = none := by
  rw [successFold]
  split <;> rfl

theorem finalizeBootstrap_strict {job : DiscoveryJob} (hrun : w.probeRun rfc = false)
    (terminal : MoverJobTerminal) (scanned : Bool) :
    ∀ e ∈ w.finalizeBootstrap rfc job terminal scanned, e.Strict rfc w.now job.launch.number := by
  rw [World.finalizeBootstrap]
  split
  · simp
  · next failure _ =>
    rw [World.finalizeBootstrapFailure, hrun, if_neg (by simp)]
    split
    · rw [World.recycleBootstrapOutage]
      refine List.forall_mem_cons.mpr ⟨trivial, List.forall_mem_singleton.mpr ?_⟩
      exact strict_patch rfl rfl (by simp)
    · rw [World.recycleFailedBootstrap]
      refine List.forall_mem_cons.mpr ⟨trivial, List.forall_mem_singleton.mpr ?_⟩
      exact strict_patch rfl rfl (by simp)
    · rw [World.recycleFailedBootstrap]
      refine List.forall_mem_cons.mpr ⟨trivial, List.forall_mem_singleton.mpr ?_⟩
      exact strict_patch rfl rfl (by simp)
    · refine List.forall_mem_singleton.mpr (strict_patch rfl rfl ?_)
      split <;> simp [Event.plain]
  · next r _ =>
    intro e he
    simp only [World.finalizeBootstrapSuccess, hrun, List.mem_append, List.mem_singleton] at he
    rcases he with (rfl | he) | he
    · refine strict_patch rfl successFold_attempt fun note hnote => ?_
      rcases List.mem_append.mp hnote with hnote | hnote
      · split at hnote
        · exact .inr (List.mem_singleton.mp hnote)
        · cases hnote
      · exact .inl (plain_connectedNotes _ _ _ _ _ note hnote)
    · split at he
      · exact runCatalogScan_strict _ _ _ e he
      · cases he
    · split at he
      · rw [List.mem_singleton.mp he]
        trivial
      · cases he

theorem bootstrapInProcess_strict (i : PassInput) :
    ∀ e ∈ w.bootstrapInProcess rfc i, e.Strict rfc w.now n := by
  have hready : ∀ created, ∀ e ∈ w.inProcessReady rfc i created, e.Strict rfc w.now n := by
    intro created e he
    rw [World.inProcessReady] at he
    split at he
    · cases he
    · rcases List.mem_append.mp he with he | he
      · rw [List.mem_singleton.mp he]
        exact strict_patch rfl rfl fun note hnote => .inl (plain_connectedNotes _ _ _ _ _ note hnote)
      · split at he
        · exact runCatalogScan_strict _ _ _ e he
        · cases he
  have hfailed : ∀ a, ∀ e ∈ w.inProcessFailed i a, e.Strict rfc w.now n := by
    intro a
    refine List.forall_mem_singleton.mpr (strict_patch rfl rfl ?_)
    split <;> simp [Event.plain]
  rw [World.bootstrapInProcess]
  split
  · simp
  · split
    · exact hready false
    · exact hready false
    · split
      · refine List.forall_mem_cons.mpr ⟨trivial, ?_⟩
        split
        · exact hfailed _
        · exact hfailed _
        · exact hready true
      · exact hfailed _

end Strict

theorem probeRun_unstamped (h : w.status.health.probeAttemptAt = none) : w.probeRun rfc = false := by
  have haction : (w.probe rfc).awaitsResult = false := by
    simp only [World.probe, probeAction, h, probeAttemptPending, Option.bind_none,
      Bool.false_eq_true, if_false]
    split
    · rfl
    · split <;> rfl
  simp [World.probeRun, haction]

-- A launch

theorem Unstamped.applyJob {n : Nat} (h : Unstamped rfc m n w) {job : DiscoveryJob}
    (hnumber : job.launch.number = n)
    (hspec : w.repo.spec.suspend = false ∧ w.repo.spec.backend.barePath = false) :
    Unstamped rfc m n (w.apply (.applyJob job)) := by
  refine ⟨⟨h.asked, h.known, ?_, fun _ _ => hspec, h.refreshed, ?_, ?_, h.strict, h.once, h.removals⟩,
    h.idle, h.small, h.fresh, ?_⟩
  · rintro j ⟨⟩
    rw [hnumber]
    exact h.small
  · intro hs
    rw [show (w.apply (.applyJob job)).status.health.probeAttemptAt = none from h.idle] at hs
    cases hs
  · rintro j ⟨⟩ hs
    rw [hnumber] at hs
    exact absurd hs h.fresh
  · rintro j ⟨⟩
    exact hnumber

theorem Unstamped.stampLaunch {job : DiscoveryJob} (h : Unstamped rfc m job.launch.number w)
    (hj : w.job = some job) (hfolds : foldsOf job.launch.number w.log = [])
    (hgen : job.generation = some w.repo.generation.repr) (htime : job.launch.time = w.now)
    (hrunning : job.terminal = none) (hready : w.status.phase = some .ready)
    (hpinned : w.status.uniqueId.isSome = true)
    (hobserved : w.status.observedGeneration = some w.repo.generation)
    (henabled : w.repo.spec.probeEnabled = true) {p : StatusPatch} {s : String}
    (hs : p.health.probeAttemptAt = .value s)
    (hp : p.phase = .keep ∧ p.uniqueId = .keep ∧ p.observedGeneration = .keep ∧
      p.lastRefreshAt = .keep) :
    ProbeInv rfc m (w.apply (.patchStatus p [.stamped job.launch.number])) := by
  obtain ⟨hphase, hid, hobs, hrefresh⟩ := hp
  have hfolds' : ∀ n, foldsOf n (.stamped job.launch.number :: w.log) = foldsOf n w.log :=
    fun _ => rfl
  have hstamped : ∀ n, .stamped n ∈ Event.stamped job.launch.number :: w.log ↔
      n = job.launch.number ∨ .stamped n ∈ w.log := by simp
  have hkept : (w.apply (.patchStatus p [.stamped job.launch.number])).status.lastRefreshAt =
      w.status.lastRefreshAt := by
    show p.lastRefreshAt.merge w.status.lastRefreshAt = _
    rw [hrefresh]
    rfl
  refine ⟨h.asked, ?_, h.numbered, h.active, ?_, fun _ => ?_, ?_, ?_, ?_, h.removals⟩
  · intro n hn
    rcases hn with hn | hn
    · rcases (hstamped n).mp hn with rfl | hn
      · exact h.small
      · exact h.known n (.inl hn)
    · exact h.known n (.inr hn)
  · rw [hkept]
    exact h.refreshed
  · refine ⟨job, hj, (hstamped _).mpr (.inl rfl), hfolds, ?_, ?_, ?_, henabled, hgen, ?_, ?_⟩
    · show p.phase.merge w.status.phase = _
      rw [hphase]
      exact hready
    · show (p.uniqueId.merge w.status.uniqueId).isSome = true
      rw [hid]
      exact hpinned
    · show p.observedGeneration.merge w.status.observedGeneration = _
      rw [hobs]
      exact hobserved
    · rw [hkept, htime]
      exact h.refreshed
    · rw [hrunning]
      rintro ⟨⟩
  · intro j hj' _
    left
    show (p.health.probeAttemptAt.merge w.status.health.probeAttemptAt).isSome = true
    rw [hs]
    rfl
  · intro n hn
    exact h.strict n fun hm => hn ((hstamped n).mpr (.inr hm))
  · intro n hn
    rcases (hstamped n).mp hn with rfl | hn
    · exact .inl hfolds
    · exact h.once n hn

def SeedOnly (w v : World) : Prop :=
  ∃ seed, v = { w with repo := { w.repo with status := { w.repo.status with seed } } }

theorem launchBootstrap_probeInv (hrfc : ∀ t, rfc.parse (rfc.render t) = some t)
    (h : Unstamped rfc w.tick w.tick w) (hfolds : foldsOf w.tick w.log = [])
    (hspec : w.repo.spec.suspend = false ∧ w.repo.spec.backend.barePath = false) :
    w.Throughout (ProbeInv rfc w.tick) (w.launchBootstrap rfc) := by
  have hseed : w.Throughout (fun v => Unstamped rfc w.tick w.tick v ∧ SeedOnly w v)
      ((if w.seedPlan.clearStatus then
        [.patchStatus { seedStartedAt := .null, seededAt := .null } []] else []) ++
        w.seedMarker rfc) := by
    refine .append ?_ fun h' => ?_
    · refine .ite (fun _ => .singleton ⟨h, _, rfl⟩ ⟨h.apply hrfc ?_, _, rfl⟩) (fun _ => ⟨h, _, rfl⟩)
      exact strict_patch rfl rfl (by simp)
    · refine .ite (fun _ => h') (fun _ => .singleton h' ⟨h'.1.apply hrfc ?_, ?_⟩)
      · exact strict_patch rfl rfl (by simp)
      · obtain ⟨-, seed, hv⟩ := h'
        rw [hv]
        exact ⟨_, rfl⟩
  refine World.Throughout.append (hseed.mono fun _ h => h.1.toProbeInv) fun _ => ?_
  obtain ⟨h', seed, hv⟩ := hseed.last
  rw [hv] at h' ⊢
  have happly : Unstamped rfc w.tick w.tick (World.apply _ (.applyJob (w.bootstrapJob rfc))) :=
    h'.applyJob rfl hspec
  refine ⟨h'.toProbeInv, happly.toProbeInv, ?_⟩
  cases hstyle : w.probeStyleLaunch with
  | false =>
    refine (happly.apply hrfc (strict_patch ?_ ?_ (by simp))).toProbeInv
    · rfl
    · simp only [World.launchPatch, hstyle]
      split <;> rfl
  | true =>
    have hparts := hstyle
    simp only [World.probeStyleLaunch, Bool.and_eq_true, Bool.not_eq_true'] at hparts
    obtain ⟨⟨⟨⟨henabled, hpinned⟩, hready⟩, -⟩, hobserved⟩ := hparts
    have hobserved : w.status.observedGeneration = some w.repo.generation := by
      rw [World.specChanged, bne_eq_false_iff_eq] at hobserved
      exact hobserved.symm
    have hstamp : (w.launchPatch rfc).health.probeAttemptAt = .value (w.nowStr rfc) := by
      simp [World.launchPatch, hstyle, henabled, probeAttemptHealthPatch]
    refine @Unstamped.stampLaunch rfc _ _ (w.bootstrapJob rfc) happly rfl hfolds rfl rfl rfl
      (eq_of_beq hready) hpinned hobserved henabled _ _ hstamp ?_
    simp [World.launchPatch, hstyle]

-- A Job that is read already

/-- No stamp stands, and the Job at hand is a probe's whose success was folded. -/
structure Reread (rfc : Rfc3339) (m : Nat) (job : DiscoveryJob) (w : World) : Prop
    extends ProbeInv rfc m w where
  idle : w.status.health.probeAttemptAt = none
  held : w.job = some job
  read : ReadOnce w job

namespace Reread

variable {job : DiscoveryJob}

theorem patch (h : Reread rfc m job w) {p : StatusPatch} {notes : List Event}
    (hrefresh : p.lastRefreshAt = .keep ∨
      ∃ s, p.lastRefreshAt = .value s ∧ ∃ t, rfc.parse s = some t ∧ t ≤ w.now)
    (hplain : ∀ e ∈ notes, e.plain = true) (hphase : p.phase.merge w.status.phase = some .ready)
    (hid : (p.uniqueId.merge w.status.uniqueId).isSome = true) (hhealth : p.health = {})
    (hreach : backendReachableTrue (p.conditions.getD w.status.conditions) =
      backendReachableTrue w.status.conditions) :
    Reread rfc m job (w.apply (.patchStatus p notes)) := by
  have hfolds : ∀ n, foldsOf n (notes ++ w.log) = foldsOf n w.log := fun n => by
    rw [foldsOf_append, foldsOf_plain hplain, List.nil_append]
  have hread : ReadOnce (w.apply (.patchStatus p notes)) job := by
    refine ⟨(hfolds _).trans h.read.folded, hphase, hid, h.read.finished, h.read.success, ?_⟩
    intro now
    show successFold false (w.status.health.merge p.health)
      (backendReachableTrue (p.conditions.getD w.status.conditions)) now = none
    rw [hhealth, hreach]
    exact h.read.calm now
  have hattempt : p.health.probeAttemptAt.merge w.status.health.probeAttemptAt = none := by
    rw [hhealth]
    exact h.idle
  refine ⟨h.toProbeInv.patch hrefresh hattempt (quiet_plain hplain) ?_ ?_ ?_ ?_, hattempt, h.held,
    hread⟩
  · intro n hn
    exact absurd (foldsOf_plain hplain n) hn
  · intro n _
    simp [foldsOf_plain hplain]
  · intro n hn
    rw [hfolds]
    exact h.once n hn
  · intro j hj _
    cases h.held.symm.trans hj
    exact hread

theorem runCatalogScan (h : Reread rfc m job w) (hrfc : ∀ t, rfc.parse (rfc.render t) = some t)
    {v : World} (hnow : v.now = w.now) (listedAt : Nat) (listing : List String) (scanned : Bool) :
    w.Throughout (Reread rfc m job) (v.runCatalogScan rfc listedAt listing scanned) := by
  refine .ite (fun _ => .singleton h (h.patch ?_ ?_ h.read.ready h.read.pinned rfl rfl)) (fun _ => ?_)
  · exact .inr ⟨_, rfl, v.now, hrfc v.now, hnow.le⟩
  · intro note hnote
    obtain ⟨t, -, rfl⟩ := Option.map_eq_some_iff.mp (Option.mem_toList.mp hnote)
    rfl
  · generalize rescanTokenAfterFailedScan rfc _ _ _ = token
    cases token with
    | none => exact h
    | some t =>
      refine .singleton h ⟨h.frame le_rfl rfl rfl rfl h.asked rfl (by simp) (List.nil_append _).symm,
        h.idle, h.held, ?_⟩
      exact ⟨h.read.folded, h.read.ready, h.read.pinned, h.read.finished, h.read.success, h.read.calm⟩

end Reread

theorem seedPlan_ready (hready : w.status.phase = some .ready)
    (hpin : ∀ u, w.status.uniqueId = some u → u ≠ "") (hpinned : w.status.uniqueId.isSome = true) :
    w.seedPlan.armed = false := by
  obtain ⟨u, hu⟩ := Option.isSome_iff_exists.mp hpinned
  have hreq : w.reinitRequested = false := by
    simp [World.reinitRequested, reinitRequestedBy, reinitRequested, World.alreadyReady, hready]
  simp [World.seedPlan, reinitSeedPlan, hreq, seedArmed, nonEmpty_eq_some.mpr ⟨hu, hpin u hu⟩]

theorem bootstrapOutcome_success {r : BootstrapReport} (hs : r.success = true)
    (terminal : MoverJobTerminal) (deadlineSecs : Int) :
    bootstrapOutcome (some r) terminal false deadlineSecs = .succeeded r := by
  simp [bootstrapOutcome, hs]

theorem reachable_finalized {conditions : List Condition} {outcome : ReadyOutcome}
    {status : Bool} {reason reason' : String} :
    backendReachableTrue
        (setReady (upsertCondition conditions bootstrappedCondition status reason) outcome reason') =
      backendReachableTrue conditions := by
  rw [backendReachableTrue, findCondition_setReady_backend,
    findCondition_upsert_other _ _ _ (by decide), backendReachableTrue]

theorem Reread.finalizeBootstrap {job : DiscoveryJob} (h : Reread rfc m job w)
    (hrfc : ∀ t, rfc.parse (rfc.render t) = some t) (hr : ReinitInv w)
    (terminal : MoverJobTerminal) (scanned : Bool) :
    w.Throughout (ProbeInv rfc m) (w.finalizeBootstrap rfc job terminal scanned) := by
  obtain ⟨r, hreport, hs⟩ := h.read.success
  obtain ⟨id, hid, -⟩ := hr.reports job r h.held hreport hs
  have harmed := seedPlan_ready h.read.ready (fun u hu => (hr.pin u hu).1) h.read.pinned
  have hrun : w.probeRun rfc = false := probeRun_unstamped h.idle
  rw [World.finalizeBootstrap, hreport, harmed, bootstrapOutcome_success hs]
  simp only [World.finalizeBootstrapSuccess, hrun, hid, Bool.false_and, Bool.false_eq_true, if_false,
    List.append_nil, h.read.calm]
  have hpatch : ∀ p : StatusPatch, p.lastRefreshAt = .keep → p.phase = .value .ready →
      p.uniqueId = .value id → p.health = {} →
      p.conditions = some (setReady (w.bootstrapCondition true "Bootstrapped") .ready "Bootstrapped") →
      Reread rfc m job (w.apply (.patchStatus p ([] ++ World.connectedNotes false (some id) r.created
        job.op.grant job.launch.ack))) := by
    intro p hrefresh hphase huid hhealth hconds
    refine h.patch (.inl hrefresh) (plain_connectedNotes _ _ _ _ _) ?_ ?_ hhealth ?_
    · rw [hphase]
      rfl
    · rw [huid]
      rfl
    · rw [hconds]
      exact reachable_finalized
  suffices hreread : w.Throughout (Reread rfc m job) _ from hreread.mono fun _ h => h.toProbeInv
  refine .append (.singleton h (hpatch _ rfl rfl rfl rfl rfl)) fun h' => ?_
  exact .ite (fun _ => h'.runCatalogScan hrfc rfl _ _ _) (fun _ => h')

-- A result that is awaited

def World.probePending (rfc : Rfc3339) (w : World) : Bool :=
  probeAttemptPending rfc w.status.health.probeAttemptAt (probeAttemptTimeout w.deadlineSecs) w.now

structure Consumed (rfc : Rfc3339) (m n : Nat) (w : World) : Prop extends ProbeInv rfc m w where
  idle : w.status.health.probeAttemptAt = none
  folded : .folded n true ∈ w.log

theorem Reread.consumed {job : DiscoveryJob} (h : Reread rfc m job w) :
    Consumed rfc m job.launch.number w :=
  ⟨h.toProbeInv, h.idle, mem_foldsOf.mp (by rw [h.read.folded]; exact List.mem_singleton_self _)⟩

theorem Reread.consumes {job : DiscoveryJob} {e : Effect} {es : List Effect}
    (h : Reread rfc m job (w.apply e))
    (hes : Reread rfc m job (w.apply e) →
      (w.apply e).Throughout (Consumed rfc m job.launch.number) es) :
    Consumed rfc m job.launch.number (w.applyAll ([e] ++ es)) :=
  (hes h).last

theorem Consumed.deleteJob {n : Nat} (h : Consumed rfc m n w) :
    Consumed rfc m n (w.apply .deleteJob) :=
  ⟨h.toProbeInv.deleteJob h.idle, h.idle, List.mem_append_right _ h.folded⟩

namespace InFlight

variable {job : DiscoveryJob}

theorem probe_awaits (hf : InFlight rfc w job) (hpending : w.probePending rfc = true) :
    w.probe rfc = .awaitingResult := by
  rw [World.probePending] at hpending
  simp [World.probe, probeAction, hf.enabled, World.bootstrappedBefore, hf.pinned,
    World.alreadyReady, hf.ready, hpending]

theorem probeRun (hf : InFlight rfc w job) (hasked : w.repo.reverifyToken = none)
    (hpending : w.probePending rfc = true) : w.probeRun rfc = true := by
  simp [World.probeRun, hf.probe_awaits hpending, ProbeAction.awaitsResult, World.specChanged,
    hf.observed, World.reverify, reverifyDue, hasked]

theorem unconsumed (hf : InFlight rfc w job) (hrfc : ∀ t, rfc.parse (rfc.render t) = some t)
    (hcomplete : job.terminal = some .complete) :
    resultAlreadyConsumed rfc w.status.lastRefreshAt (job.completionTime.map rfc.render) =
      false := by
  obtain ⟨c, hc, hlt⟩ := hf.completed hcomplete
  simp only [resultAlreadyConsumed, hc, Option.map_some, Option.bind_some, hrfc]
  cases hl : w.status.lastRefreshAt with
  | none => rfl
  | some s =>
    obtain ⟨t, ht, hle⟩ := hf.refreshed s hl
    simp only [Option.bind_some, ht, decide_eq_false_iff_not, not_le]
    exact lt_of_le_of_lt hle hlt

theorem recycles_eq_false (hf : InFlight rfc w job)
    (hrfc : ∀ t, rfc.parse (rfc.render t) = some t) (hasked : w.repo.reverifyToken = none)
    (hpending : w.probePending rfc = true)
    (hack : w.launchReinitAck = none ∨ w.launchReinitAck = job.reinitAck)
    (hwork : job.terminal = some .complete ∨ w.catalogTiming.workDue rfc w.now = false) :
    w.recycles rfc job = false := by
  have hstale : staleBootstrapJob job.generation (some w.repo.generation) job.reinitAck
      w.launchReinitAck = false := by
    rcases hack with hn | he <;>
      simp [staleBootstrapJob, hf.launched, parseInt_repr, *]
  have hgen : w.catalogTiming.generation = w.catalogTiming.observedGeneration := hf.observed.symm
  have hcatalog : w.catalogTiming.bootstrapRecycleDue rfc w.now w.alreadyReady
      (job.completionTime.map rfc.render) = false :=
    hwork.elim (fun hc => CatalogTiming.recycle_unconsumed hgen (hf.unconsumed hrfc hc))
      (CatalogTiming.recycle_idle hgen)
  simp [World.recycles, hstale, World.reverify, reverifyDue, hasked, hf.probe_awaits hpending,
    ProbeAction.launches, hcatalog]

theorem consume_failure (h : ProbeInv rfc m w) (hj : w.job = some job)
    (hstamped : .stamped job.launch.number ∈ w.log) (hf : InFlight rfc w job)
    (failure : BootstrapFailure) :
    Consumed rfc m job.launch.number (w.applyAll (w.finalizeProbeFailure rfc job failure)) := by
  -- all that matters of the two calls is the stamp and the records
  obtain ⟨p, extra, hplain, hrefresh, hattempt, heffects⟩ : ∃ (p : StatusPatch) (extra : List Event),
      (∀ e ∈ extra, e.plain = true) ∧ p.lastRefreshAt = .keep ∧ p.health.probeAttemptAt = .null ∧
      w.finalizeProbeFailure rfc job failure =
        [.patchStatus p (.folded job.launch.number true :: extra), .deleteJob] := by
    refine ⟨_, _, ?_, rfl, rfl, rfl⟩
    split <;> simp [Event.plain]
  rw [heffects]
  generalize hv : w.applyAll [.patchStatus p (.folded job.launch.number true :: extra), .deleteJob] = v
  have hjob : v.job = none := by rw [← hv]; rfl
  have hrepo : v.repo = { w.repo with status := w.repo.status.merge p } := by rw [← hv]; rfl
  have hnow : v.now = w.now := by rw [← hv]; rfl
  have hlog : v.log = .removed job.launch.number :: .folded job.launch.number true ::
      (extra ++ w.log) := by
    rw [← hv]
    simp [World.applyAll, World.apply, hj]
  have hidle : v.status.health.probeAttemptAt = none := by
    rw [World.status, hrepo]
    show p.health.probeAttemptAt.merge _ = none
    rw [hattempt]
    rfl
  have hmem : ∀ n, .stamped n ∈ v.log ↔ .stamped n ∈ w.log := fun n => by
    rw [hlog, List.mem_cons, List.mem_cons, stamped_quiet (quiet_plain hplain)]
    simp
  have hfolds : ∀ n, foldsOf n v.log =
      (if job.launch.number = n then [true] else []) ++ foldsOf n w.log := fun n => by
    have hsplit : foldsOf n (extra ++ w.log) = foldsOf n w.log := by
      rw [foldsOf_append, foldsOf_plain hplain, List.nil_append]
    rw [hlog, ← hsplit]
    by_cases hn : job.launch.number = n <;> simp [foldsOf, hn]
  refine ⟨⟨?_, ?_, ?_, ?_, ?_, ?_, ?_, ?_, ?_, ?_⟩, hidle, ?_⟩
  · rw [hrepo]
    exact h.asked
  · intro n hn
    rw [hmem, hfolds] at hn
    by_cases heq : job.launch.number = n
    · exact heq ▸ h.numbered job hj
    · rw [if_neg heq, List.nil_append] at hn
      exact h.known n hn
  · rw [hjob]
    rintro j ⟨⟩
  · rw [hjob]
    rintro j ⟨⟩
  · rw [World.status, hrepo, hnow]
    intro s hs
    change p.lastRefreshAt.merge w.status.lastRefreshAt = some s at hs
    rw [hrefresh] at hs
    exact h.refreshed s hs
  · rw [hidle]
    rintro ⟨⟩
  · rw [hjob]
    rintro j ⟨⟩
  · intro n hn
    rw [hmem] at hn
    have hne : job.launch.number ≠ n := by
      rintro rfl
      exact hn hstamped
    rw [hfolds, if_neg hne]
    exact h.strict n hn
  · intro n hn
    rw [hmem] at hn
    rw [hfolds]
    by_cases heq : job.launch.number = n
    · subst heq
      rw [if_pos rfl, hf.unfolded]
      exact .inr rfl
    · rw [if_neg heq]
      exact h.once n hn
  · rw [hlog]
    refine ⟨fun _ => List.mem_cons_self, ?_⟩
    exact removals_quiet (quiet_plain hplain) h.removals
  · rw [hlog]
    exact List.mem_cons_of_mem _ List.mem_cons_self

theorem reread (h : ProbeInv rfc m w) (hj : w.job = some job)
    (hstamped : .stamped job.launch.number ∈ w.log) (hf : InFlight rfc w job)
    (hfinished : job.terminal.isSome = true) {r : BootstrapReport} (hreport : job.report = some r)
    (hs : r.success = true) {p : StatusPatch} {u now : String} (hrefresh : p.lastRefreshAt = .keep)
    (hphase : p.phase = .value .ready) (huid : p.uniqueId = .value u)
    (hhealth : p.health = probeSuccessHealthPatch now) {conditions : List Condition}
    (hconds : p.conditions = some (setReady (reconcileProbeSuccess conditions) .ready "Bootstrapped"))
    {notes : List Event} (hplain : ∀ e ∈ notes, e.plain = true) :
    Reread rfc m job
      (w.apply (.patchStatus p ([.folded job.launch.number true] ++ notes))) := by
  have hquiet : QuietNotes ([.folded job.launch.number true] ++ notes) :=
    List.forall_mem_cons.mpr ⟨by simp, quiet_plain hplain⟩
  have hfolds : ∀ n, foldsOf n ([.folded job.launch.number true] ++ notes) =
      if job.launch.number = n then [true] else [] := fun n => by
    rw [foldsOf_append, foldsOf_plain hplain, List.append_nil]
    by_cases hn : job.launch.number = n <;> simp [foldsOf, hn]
  have hattempt : p.health.probeAttemptAt.merge w.status.health.probeAttemptAt = none := by
    rw [hhealth]
    rfl
  have hreach : backendReachableTrue
      (setReady (reconcileProbeSuccess conditions) .ready "Bootstrapped") = true := by
    rw [backendReachableTrue, findCondition_setReady_backend, reconcileProbeSuccess,
      findCondition_upsert_same]
    rfl
  have hread : ReadOnce (w.apply (.patchStatus p ([.folded job.launch.number true] ++ notes)))
      job := by
    refine ⟨?_, ?_, ?_, hfinished, ⟨r, hreport, hs⟩, fun now => ?_⟩
    · show foldsOf _ (([.folded job.launch.number true] ++ notes) ++ w.log) = [true]
      rw [foldsOf_append, hfolds, hf.unfolded]
      simp
    · show p.phase.merge _ = some .ready
      rw [hphase]
      rfl
    · show (p.uniqueId.merge _).isSome = true
      rw [huid]
      rfl
    · show successFold false (w.status.health.merge p.health)
        (backendReachableTrue (p.conditions.getD w.status.conditions)) now = none
      rw [hhealth, hconds, Option.getD_some, hreach]
      rfl
  refine ⟨h.patch (.inl hrefresh) hattempt hquiet ?_ ?_ ?_ ?_, hattempt, hj, hread⟩
  · intro n hn
    rw [hfolds] at hn
    by_cases heq : job.launch.number = n
    · exact heq ▸ h.numbered job hj
    · rw [if_neg heq] at hn
      exact absurd rfl hn
  · intro n hn
    have hne : job.launch.number ≠ n := by
      rintro rfl
      exact hn hstamped
    rw [hfolds, if_neg hne]
    exact List.not_mem_nil
  · intro n hn
    rw [foldsOf_append, hfolds]
    by_cases heq : job.launch.number = n
    · subst heq
      rw [if_pos rfl, hf.unfolded]
      exact .inr rfl
    · rw [if_neg heq]
      exact h.once n hn
  · intro j hj' _
    cases hj.symm.trans hj'
    exact hread

theorem consume_success (h : ProbeInv rfc m w) (hrfc : ∀ t, rfc.parse (rfc.render t) = some t)
    (hj : w.job = some job) (hstamped : .stamped job.launch.number ∈ w.log)
    (hf : InFlight rfc w job) (hfinished : job.terminal.isSome = true)
    (hpending : w.probePending rfc = true) {r : BootstrapReport} (hreport : job.report = some r)
    (hs : r.success = true) (scanned : Bool) :
    Consumed rfc m job.launch.number
      (w.applyAll (w.finalizeBootstrapSuccess rfc job r scanned)) := by
  have hrun := hf.probeRun h.asked hpending
  obtain ⟨u, hu⟩ := Option.isSome_iff_exists.mp hf.pinned
  have hfold : successFold true w.status.health (backendReachableTrue w.status.conditions)
      (w.nowStr rfc) = some (probeSuccessHealthPatch (w.nowStr rfc)) := rfl
  simp only [World.finalizeBootstrapSuccess, hrun, hfold, Option.isSome_some, if_true, Option.getD_some,
    Bool.true_and, World.bootstrappedBefore, hu]
  rw [List.append_assoc]
  refine Reread.consumes (reread h hj hstamped hf hfinished hreport hs rfl rfl rfl rfl rfl
    (plain_connectedNotes false r.created (some u) job.op.grant job.launch.ack)) fun hread => ?_
  refine .append (.ite (fun _ => ?_) (fun _ => hread.consumed)) fun h' => ?_
  · exact (hread.runCatalogScan hrfc rfl _ _ _).mono fun _ h => h.consumed
  · exact .ite (fun _ => .singleton h' h'.deleteJob) (fun _ => h')

theorem finalizeBootstrap (h : ProbeInv rfc m w) (hrfc : ∀ t, rfc.parse (rfc.render t) = some t)
    (hj : w.job = some job) (hstamped : .stamped job.launch.number ∈ w.log)
    (hf : InFlight rfc w job) {terminal : MoverJobTerminal} (hfinished : job.terminal = some terminal)
    (hpending : w.probePending rfc = true) (scanned : Bool) :
    (bootstrapOutcome job.report terminal w.seedPlan.armed job.deadlineSecs = .resultPending ∧
      w.finalizeBootstrap rfc job terminal scanned = []) ∨
    Consumed rfc m job.launch.number
      (w.applyAll (w.finalizeBootstrap rfc job terminal scanned)) := by
  rw [World.finalizeBootstrap]
  cases hout : bootstrapOutcome job.report terminal w.seedPlan.armed job.deadlineSecs with
  | resultPending => exact .inl ⟨rfl, rfl⟩
  | failed failure =>
    simp only [World.finalizeBootstrapFailure, hf.probeRun h.asked hpending, if_true]
    exact .inr (consume_failure h hj hstamped hf failure)
  | succeeded r =>
    obtain ⟨hreport, hs⟩ := bootstrapOutcome_succeeded hout
    exact .inr (consume_success h hrfc hj hstamped hf (by rw [hfinished]; rfl) hpending hreport hs
      scanned)

end InFlight

-- A pass

/-- A pass comes in time for the finished Job: its stamp is fresh, no newly
valid acknowledgment makes it stale, and the Job completed or no catalog work
is due. -/
def World.readsInTime (rfc : Rfc3339) (w : World) (job : DiscoveryJob) : Bool :=
  w.probePending rfc && (w.launchReinitAck.isNone || w.launchReinitAck == job.reinitAck) &&
    (job.terminal == some .complete || !w.catalogTiming.workDue rfc w.now)

/-- The spec and the reverify request stay, a stamped Job is not reaped, and
a pass that finds it finished comes in time and is not cut off. -/
def World.probesTimely (rfc : Rfc3339) (w : World) : RepoAction → Bool
  | .pass i calls =>
    w.job.all fun job =>
      job.terminal.isNone || w.status.health.probeAttemptAt.isNone ||
        (w.readsInTime rfc job && decide ((w.reconcileInner rfc i).length ≤ calls))
  | .reapJob => w.status.health.probeAttemptAt.isNone
  | .requestReverify token => token.isNone
  | .editSpec _ => false
  | .listJob | .runJob .. | .finishJob _ | .acknowledge _ | .requestScan _ | .clearRequest
  | .store _ | .advance _ => true

namespace ProbeInv

theorem unstamped (h : ProbeInv rfc m w) (hm : m < w.tick)
    (hidle : w.status.health.probeAttemptAt = none) (hjob : w.job = none) :
    Unstamped rfc w.tick w.tick w where
  toProbeInv := h.mono hm.le
  idle := hidle
  small := le_rfl
  fresh hs := absurd (h.known _ (.inl hs)) (not_le.mpr hm)
  plain job hj := by
    rw [hjob] at hj
    cases hj

theorem idle_pass (h : ProbeInv rfc m w) (hm : m < w.tick) (hr : ReinitInv w)
    (hrfc : ∀ t, rfc.parse (rfc.render t) = some t)
    (hidle : w.status.health.probeAttemptAt = none) (i : PassInput) :
    w.Throughout (ProbeInv rfc w.tick) (w.reconcileInner rfc i) := by
  have h' := h.mono hm.le
  -- a Job means that the spec is one that launches Jobs
  have hnoJob : w.repo.spec.suspend = true ∨ w.repo.spec.backend.barePath = true → w.job = none := by
    intro hspec
    cases hj : w.job with
    | none => rfl
    | some job => simp [h.active job hj] at hspec
  have hcalls : ∀ n es, Unstamped rfc w.tick n w → (∀ e ∈ es, Effect.Strict rfc w.now n e) →
      w.Throughout (ProbeInv rfc w.tick) es := fun n es hu hes =>
    (hu.calls hrfc hes).mono fun _ h => h.toProbeInv
  refine .ite (fun _ => h') (fun _ => .ite (fun hsuspend => ?_) (fun hactive =>
    .ite (fun hbare => ?_) (fun hmover => ?_)))
  · refine hcalls _ _ (h.unstamped hm hidle (hnoJob (.inl hsuspend))) ?_
    exact List.forall_mem_singleton.mpr (strict_patch rfl rfl (by simp))
  · exact hcalls _ _ (h.unstamped hm hidle (hnoJob (.inr hbare))) (bootstrapInProcess_strict i)
  · rw [World.bootstrapViaMover]
    cases hj : w.job with
    | none =>
      have hu := h.unstamped hm hidle hj
      refine .ite (fun _ => h') (fun _ => .ite (fun _ => h') (fun _ => ?_))
      refine launchBootstrap_probeInv hrfc hu ?_ ⟨hactive, hmover⟩
      by_contra hne
      exact absurd (h.known _ (.inr hne)) (not_le.mpr hm)
    | some job =>
      have hread : .stamped job.launch.number ∈ w.log → ReadOnce w job := fun hs =>
        (h.jobs job hj hs).resolve_left (by simp [hidle])
      have hplain : .stamped job.launch.number ∉ w.log →
          Unstamped rfc w.tick job.launch.number w := fun hs =>
        ⟨h', hidle, h'.numbered job hj, hs, fun j hj' => by cases hj.symm.trans hj'; rfl⟩
      cases ht : job.terminal with
      | none =>
        simp only [ht]
        refine .ite (fun _ => h') (fun _ => hcalls _ _ (hplain fun hs => ?_) ?_)
        · have := (hread hs).finished
          rw [ht] at this
          cases this
        · exact List.forall_mem_singleton.mpr (strict_patch rfl rfl (by simp))
      | some terminal =>
        simp only [ht]
        refine .ite (fun _ => .singleton h' (h'.deleteJob hidle)) (fun _ => ?_)
        by_cases hs : .stamped job.launch.number ∈ w.log
        · exact Reread.finalizeBootstrap ⟨h', hidle, hj, hread hs⟩ hrfc hr terminal i.scanned
        · exact hcalls _ _ (hplain hs)
            (finalizeBootstrap_strict (probeRun_unstamped hidle) terminal i.scanned)

end ProbeInv

theorem InFlight.reconcileInner_eq {job : DiscoveryJob} (hf : InFlight rfc w job)
    (h : ProbeInv rfc m w) (hrfc : ∀ t, rfc.parse (rfc.render t) = some t) (hj : w.job = some job)
    {terminal : MoverJobTerminal} (ht : job.terminal = some terminal)
    (hin : w.readsInTime rfc job = true) (i : PassInput) :
    w.probePending rfc = true ∧
      w.reconcileInner rfc i = w.finalizeBootstrap rfc job terminal i.scanned := by
  simp only [World.readsInTime, Bool.and_eq_true, Bool.or_eq_true, Option.isNone_iff_eq_none,
    beq_iff_eq, Bool.not_eq_true'] at hin
  obtain ⟨⟨hpending, hack⟩, hwork⟩ := hin
  have hrecycle := hf.recycles_eq_false hrfc h.asked hpending hack hwork
  refine ⟨hpending, ?_⟩
  simp [World.reconcileInner, h.active job hj, World.bootstrapViaMover, hj, ht, hrecycle]

theorem ProbeInv.pass (h : ProbeInv rfc m w) (hm : m < w.tick) (hr : ReinitInv w)
    (hrfc : ∀ t, rfc.parse (rfc.render t) = some t) {i : PassInput} {calls : Nat}
    (htimely : w.probesTimely rfc (.pass i calls) = true) :
    ProbeInv rfc w.tick (w.applyAll ((w.reconcileInner rfc i).take calls)) := by
  cases hs : w.status.health.probeAttemptAt with
  | none => exact (h.idle_pass hm hr hrfc hs i).applyAll_take calls
  | some s =>
    have hsome : w.status.health.probeAttemptAt.isSome = true := by rw [hs]; rfl
    obtain ⟨job, hj, hstamped, hf⟩ := h.stamp hsome
    cases ht : job.terminal with
    | none =>
      have hnothing : w.reconcileInner rfc i = [] := by
        simp [World.reconcileInner, h.active job hj, World.bootstrapViaMover, hj, ht,
          World.alreadyReady, hf.ready]
      rw [hnothing, List.take_nil]
      exact h.mono hm.le
    | some terminal =>
      simp only [World.probesTimely, hj, Option.all_some, ht, hs, Option.isNone_some, Bool.false_or,
        Bool.and_eq_true, decide_eq_true_eq] at htimely
      obtain ⟨hpending, heq⟩ := hf.reconcileInner_eq h hrfc hj ht htimely.1 i
      rw [List.take_of_length_le htimely.2, heq]
      rcases InFlight.finalizeBootstrap (h.mono hm.le) hrfc hj hstamped hf ht hpending i.scanned with
        ⟨-, hnothing⟩ | hconsumed
      · rw [hnothing]
        exact h.mono hm.le
      · exact hconsumed.toProbeInv

-- A run

theorem ProbeInv.act (h : ProbeInv rfc m w) (hm : m < w.tick) (hr : ReinitInv w)
    (hrfc : ∀ t, rfc.parse (rfc.render t) = some t) {a : RepoAction}
    (htimely : w.probesTimely rfc a = true) {w' : World} (hstep : w.act rfc a = some w') :
    ProbeInv rfc w.tick w' := by
  have h' := h.mono hm.le
  have hnone : ∀ e ∈ ([] : List Event), e.plain = true := by simp
  cases a with
  | pass i calls =>
    cases hstep
    exact h.pass hm hr hrfc htimely
  | listJob =>
    obtain ⟨job, hj, hrunning, rfl⟩ := World.act_listJob hstep
    exact h'.changeJob hj hrunning rfl rfl (by simp [hrunning])
  | runJob k written =>
    obtain ⟨job, hj, hrunning, rfl⟩ := World.act_runJob hstep
    have hjob : ProbeInv rfc w.tick { w with job := some (job.run w.tick k w.contents written) } :=
      h'.changeJob hj hrunning rfl rfl (by simp [DiscoveryJob.run, hrunning])
    refine hjob.frame le_rfl rfl rfl rfl hjob.asked rfl (fun e he => ?_) rfl
    rw [DiscoveryJob.notes] at he
    split at he
    · rw [List.mem_singleton.mp he]
      rfl
    · cases he
  | finishJob terminal =>
    obtain ⟨job, hj, hrunning, htime, -, rfl⟩ := World.act_finishJob hstep
    refine h'.changeJob hj hrunning rfl rfl fun hc => ⟨w.now, ?_, htime⟩
    simp only [DiscoveryJob.finish, Option.some.injEq] at hc ⊢
    rw [if_pos hc]
  | reapJob =>
    obtain ⟨job, -, -, rfl⟩ := World.act_reapJob hstep
    have hidle : w.status.health.probeAttemptAt = none := by
      simpa [World.probesTimely] using htimely
    refine ⟨h.asked, h'.known, ?_, ?_, h.refreshed, fun hs => ?_, ?_, h.strict, h.once, h.removals⟩
    · rintro j ⟨⟩
    · rintro j ⟨⟩
    · rw [show ({ w with job := none } : World).status.health.probeAttemptAt = none from hidle] at hs
      cases hs
    · rintro j ⟨⟩
  | acknowledge ack | requestScan token | clearRequest | store contents =>
    cases hstep
    exact h'.frame le_rfl rfl rfl rfl h.asked rfl hnone rfl
  | requestReverify token =>
    cases hstep
    refine h'.frame le_rfl rfl rfl rfl ?_ rfl hnone rfl
    simpa [World.probesTimely] using htimely
  | editSpec spec => cases htimely
  | advance t =>
    obtain ⟨hle, rfl⟩ := World.act_advance hstep
    exact h'.frame hle rfl rfl rfl h.asked rfl hnone rfl

theorem probeInv_of_run {now : DateTime} {repo : Repository} {contents : List String}
    (hrfc : ∀ t, rfc.parse (rfc.render t) = some t) (hasked : repo.reverifyToken = none)
    (run : Reaches (World.step rfc) (fun w a => a.reportsId = true ∧ w.probesTimely rfc a = true)
      (.fresh now repo contents) w) : (∃ m < w.tick, ProbeInv rfc m w) ∧ ReinitInv w := by
  refine run.invariant (fun w => (∃ m < w.tick, ProbeInv rfc m w) ∧ ReinitInv w)
    ⟨⟨0, Nat.one_pos, .fresh now hasked contents⟩, .fresh now repo contents⟩ ?_
  rintro w a w' ⟨⟨m, hm, h⟩, hr⟩ ⟨hid, htimely⟩ hstep
  refine ⟨?_, hr.step hid hstep⟩
  obtain ⟨v, hv, rfl⟩ := World.step_of_act rfc hstep
  have hv := h.act hm hr hrfc htimely hv
  refine ⟨w.tick, Nat.lt_succ_self _, ?_⟩
  exact hv.frame le_rfl rfl rfl rfl hv.asked rfl (by simp) (List.nil_append _).symm

/-- A stamped probe Job is deleted only after its result was folded, and it is
folded once and as a probe; no other Job is folded as a probe. A stamp that
stands belongs to a Job that is not folded, and a pass in time that finds the
result folds it and clears the stamp. -/
theorem probe_results_consumed_once (rfc : Rfc3339)
    (hrfc : ∀ t, rfc.parse (rfc.render t) = some t) (now : DateTime) (repo : Repository)
    (hasked : repo.reverifyToken = none) (contents : List String) {w : World}
    (run : Reaches (World.step rfc) (fun w a => a.reportsId = true ∧ w.probesTimely rfc a = true)
      (.fresh now repo contents) w) :
    RemovalsFollowFolds w.log ∧
    (∀ n, .stamped n ∈ w.log → foldsOf n w.log = [] ∨ foldsOf n w.log = [true]) ∧
    (∀ n, .folded n true ∈ w.log → .stamped n ∈ w.log) ∧
    (w.status.health.probeAttemptAt.isSome = true →
      ∃ job, w.job = some job ∧ .stamped job.launch.number ∈ w.log ∧
        foldsOf job.launch.number w.log = []) ∧
    ∀ job terminal i calls w', w.job = some job → job.terminal = some terminal →
      .stamped job.launch.number ∈ w.log → foldsOf job.launch.number w.log = [] →
      bootstrapOutcome job.report terminal w.seedPlan.armed job.deadlineSecs ≠ .resultPending →
      w.probesTimely rfc (.pass i calls) = true → w.step rfc (.pass i calls) = some w' →
      .folded job.launch.number true ∈ w'.log ∧ w'.status.health.probeAttemptAt = none := by
  obtain ⟨⟨m, hm, h⟩, hr⟩ := probeInv_of_run hrfc hasked run
  refine ⟨h.removals, h.once, ?_, ?_, ?_⟩
  · intro n hn
    by_contra hs
    exact h.strict n hs (mem_foldsOf.mpr hn)
  · intro hs
    obtain ⟨job, hj, hstamped, hf⟩ := h.stamp hs
    exact ⟨job, hj, hstamped, hf.unfolded⟩
  · intro job terminal i calls w' hj ht hstamped hunfolded hout htimely hstep
    have hsome : w.status.health.probeAttemptAt.isSome = true := by
      refine (h.jobs job hj hstamped).resolve_right fun hread => ?_
      rw [hread.folded] at hunfolded
      cases hunfolded
    obtain ⟨job', hj', -, hf⟩ := h.stamp hsome
    cases hj.symm.trans hj'
    have hnotNone := Option.isNone_eq_false_iff.mpr hsome
    simp only [World.probesTimely, hj, Option.all_some, ht, hnotNone, Option.isNone_some,
      Bool.false_or, Bool.and_eq_true, decide_eq_true_eq] at htimely
    obtain ⟨hpending, heq⟩ := hf.reconcileInner_eq h hrfc hj ht htimely.1 i
    obtain ⟨v, hv, rfl⟩ := World.step_of_act rfc hstep
    cases hv
    rw [List.take_of_length_le htimely.2, heq]
    rcases InFlight.finalizeBootstrap h hrfc hj hstamped hf ht hpending i.scanned with
      ⟨hnone, -⟩ | hconsumed
    · exact absurd hnone hout
    · exact ⟨hconsumed.folded, hconsumed.idle⟩

/-- A repository is bootstrapped, and probed half an hour later. -/
theorem probe_results_consumed_once_run :
    ∃ w, runSteps (World.step decimalTimes)
        (fun w a => a.reportsId = true ∧ w.probesTimely decimalTimes a = true)
        (.fresh 0 { generation := 1, spec := {} } [])
        (bootstrapRound (present "u") .complete 10 ++ [.advance 2000000000000, fullPass] ++
          bootstrapRound (present "u") .complete 2010) = some w ∧
      .stamped 8 ∈ w.log ∧ .removed 8 ∈ w.log ∧ foldsOf 8 w.log = [true] ∧
      RemovalsFollowFolds w.log := by
  refine exists_runSteps_imp (P := fun w => .stamped 8 ∈ w.log ∧ .removed 8 ∈ w.log ∧
    foldsOf 8 w.log = [true]) (by decide) fun w hw h => ?_
  obtain ⟨hstamped, hremoved, hfolded⟩ := h
  exact ⟨hstamped, hremoved, hfolded, (probe_results_consumed_once decimalTimes
    (fun t => parseInt_repr t) 0 _ rfl [] (reaches_of_runSteps hw)).1⟩

/-- Two probe Jobs that are deleted unread. The first completed in ten seconds,
and the next pass comes half an hour later, when a probe is due again. The
second failed while a periodic refresh was due. -/
theorem probe_results_deleted_unread :
    (∃ w, runSteps (World.step decimalTimes) (fun _ _ => True)
        (.fresh 0 { generation := 1, spec := {} } [])
        (bootstrapRound (present "u") .complete 10 ++
          [.advance 2000000000000, fullPass, fullPass, .runJob (present "u") true,
            .advance 2010000000000, .finishJob .complete, .advance 4000000000000, fullPass]) =
          some w ∧
      .stamped 8 ∈ w.log ∧ .removed 8 ∈ w.log ∧ foldsOf 8 w.log = []) ∧
    ∃ w, runSteps (World.step decimalTimes) (fun _ _ => True)
        (.fresh 0 { generation := 1, spec := { periodicRefresh := true } } [])
        (bootstrapRound (present "u") .complete 10 ++
          [.advance 4000000000000, fullPass, fullPass,
            .runJob { connect := some (.connect ⟨.repositoryUnavailable, false⟩), status := .ok "u" }
              true,
            .advance 4010000000000, .finishJob (.failed false), fullPass]) = some w ∧
      .stamped 8 ∈ w.log ∧ .removed 8 ∈ w.log ∧ foldsOf 8 w.log = [] := by
  exact ⟨exists_runSteps (by decide), exists_runSteps (by decide)⟩

end Kopiur
