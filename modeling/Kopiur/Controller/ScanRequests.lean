import Kopiur.Controller.RepositoryRuns

/-!
# Catalog-scan requests and the listings that retire them

A scan retires whatever token it finds. A listing taken before that token was
stamped can still be scanned, unless its Job is deleted unread: because it was
launched for another generation, or because the token makes a fresh run due.
-/

namespace Kopiur

open Lib

def DiscoveryJob.isCurrent (job : DiscoveryJob) (repo : Repository) : Bool :=
  job.generation == some repo.generation.repr

def World.recyclesForCatalog (rfc : Rfc3339) (w : World) (token : Option String)
    (job : DiscoveryJob) : Bool :=
  job.terminal.isSome && { w.catalogTiming with token }.bootstrapRecycleDue rfc w.now w.alreadyReady
    (job.completionTime.map rfc.render)

def World.stampsSafely (rfc : Rfc3339) (w : World) (token : String) : Bool :=
  w.job.all fun job =>
    (job.listing.isNone && job.listedAt.isNone) || !job.isCurrent w.repo ||
      w.recyclesForCatalog rfc (some token) job

/-- Requests are stamped safely, and no pass stamps one on top of a Job's
listing: it scans the listing, or a request is pending anyway. -/
def World.requestsSafely (rfc : Rfc3339) (w : World) : RepoAction → Bool
  | .requestScan token => w.stampsSafely rfc token
  | .pass i _ =>
    i.scanned || w.repo.spec.backend.barePath ||
      scanRequestedPending w.repo.scanToken w.status.scanRequestHonored
  | .listJob | .runJob .. | .finishJob _ | .reapJob | .acknowledge _ | .requestReverify _
  | .clearRequest | .editSpec _ | .store _ | .advance _ => true

-- The invariant

/-- A token was retired by a listing taken after it was stamped, with every
snapshot that was there all the time. -/
def Event.Honest : Event → Prop
  | .honored _ stampedAt listedAt held listed => stampedAt < listedAt ∧ ∀ s ∈ held, s ∈ listed
  | .connected _ | .pinned _ | .verdict | .recreated .. | .created .. | .stamped _ | .folded ..
  | .removed _ => True

def DiscoveryJob.Lists (job : DiscoveryJob) (listedAt : Nat) (snapshots : List String) : Prop :=
  job.listing = some (listedAt, snapshots) ∨
    ∃ r, job.report = some r ∧ r.snapshotCount.isSome = true ∧ job.listedAt = some listedAt ∧
      r.snapshots = snapshots

def World.Answers (w : World) (listedAt : Nat) (snapshots : List String) : Prop :=
  w.repo.scanToken.isSome = true → w.tokenAt < listedAt ∧ ∀ s ∈ w.held, s ∈ snapshots

def World.Answered (w : World) : Prop :=
  ∀ job l snapshots, w.job = some job → job.isCurrent w.repo = true → job.Lists l snapshots →
    w.Answers l snapshots

structure ScanInv (rfc : Rfc3339) (n : Nat) (w : World) : Prop where
  stamped : w.tokenAt ≤ n
  held : ∀ s ∈ w.held, s ∈ w.contents
  launched : ∀ job, w.job = some job → ∃ g, job.generation = some g.repr ∧ g ≤ w.repo.generation ∧
    (g = w.repo.generation →
      w.repo.spec.suspend = false ∧ w.repo.spec.backend.barePath = false)
  dated : ∀ job r, w.job = some job → job.report = some r → r.snapshotCount.isSome = true →
    job.listedAt.isSome = true
  listings : ∀ job l snapshots, w.job = some job → job.isCurrent w.repo = true →
    job.Lists l snapshots →
      w.Answers l snapshots ∨ w.recyclesForCatalog rfc w.repo.scanToken job = true
  honest : ∀ e ∈ w.log, e.Honest

variable {rfc : Rfc3339} {n : Nat} {w : World}

theorem ScanInv.fresh (now : DateTime) (repo : Repository) (contents : List String) :
    ScanInv rfc 0 (.fresh now repo contents) where
  stamped := le_rfl
  held := fun _ hs => hs
  launched job hj := by cases hj
  dated job r hj := by cases hj
  listings job l snapshots hj := by cases hj
  honest e he := by cases he

theorem ScanInv.mono (h : ScanInv rfc n w) {m : Nat} (hle : n ≤ m) : ScanInv rfc m w :=
  ⟨h.stamped.trans hle, h.held, h.launched, h.dated, h.listings, h.honest⟩

structure AnsweredInv (rfc : Rfc3339) (n : Nat) (w : World) : Prop extends ScanInv rfc n w where
  answered : w.Answered

namespace AnsweredInv

theorem patch (h : AnsweredInv rfc n w) (p : StatusPatch) {notes : List Event}
    (hnotes : ∀ e ∈ notes, e.Honest) : AnsweredInv rfc n (w.apply (.patchStatus p notes)) where
  stamped := h.stamped
  held := h.held
  launched := h.launched
  dated := h.dated
  listings job l snapshots hj hc hl := .inl (h.answered job l snapshots hj hc hl)
  honest e he := (List.mem_append.mp he).elim (hnotes e) (h.honest e)
  answered := h.answered

theorem createRepository (h : AnsweredInv rfc n w) (l : Launch) (g : CreateGrant)
    (a : ConnectError) : AnsweredInv rfc n (w.apply (.createRepository l g a)) where
  stamped := h.stamped
  held := h.held
  launched := h.launched
  dated := h.dated
  listings := h.listings
  honest e he := by
    rcases List.mem_cons.mp he with rfl | he
    · trivial
    · exact h.honest e he
  answered := h.answered

theorem applyJob (h : AnsweredInv rfc n w) {job : DiscoveryJob}
    (hgen : job.generation = some w.repo.generation.repr)
    (hspec : w.repo.spec.suspend = false ∧ w.repo.spec.backend.barePath = false)
    (hlisting : job.listing = none) (hreport : job.report = none) :
    AnsweredInv rfc n (w.apply (.applyJob job)) := by
  have hnone : ∀ l snapshots, ¬ job.Lists l snapshots := by
    rintro l snapshots (hl | ⟨r, hr, -⟩)
    · rw [hlisting] at hl
      cases hl
    · rw [hreport] at hr
      cases hr
  refine ⟨⟨h.stamped, h.held, ?_, ?_, ?_, h.honest⟩, ?_⟩
  · rintro j ⟨⟩
    exact ⟨_, hgen, le_rfl, fun _ => hspec⟩
  · rintro j r ⟨⟩ hr
    rw [hreport] at hr
    cases hr
  · rintro j l snapshots ⟨⟩ - hl
    exact absurd hl (hnone l snapshots)
  · rintro j l snapshots ⟨⟩ - hl
    exact absurd hl (hnone l snapshots)

end AnsweredInv

theorem ScanInv.deleteJob (h : ScanInv rfc n w) : AnsweredInv rfc n (w.apply .deleteJob) := by
  refine ⟨⟨h.stamped, h.held, ?_, ?_, ?_, ?_⟩, ?_⟩
  · rintro j ⟨⟩
  · rintro j r ⟨⟩
  · rintro j l snapshots ⟨⟩
  · intro e he
    rcases List.mem_append.mp he with he | he
    · obtain ⟨j, -, rfl⟩ := Option.map_eq_some_iff.mp (Option.mem_toList.mp he)
      trivial
    · exact h.honest e he
  · rintro j l snapshots ⟨⟩

theorem ScanInv.stampToken (h : ScanInv rfc n w) (token : String) (hn : w.tick ≤ n)
    (hsafe : ∀ job l snapshots, w.job = some job → job.isCurrent w.repo = true →
      job.Lists l snapshots → w.recyclesForCatalog rfc (some token) job = true) :
    ScanInv rfc n (w.stampToken token) where
  stamped := hn
  held := fun _ hs => hs
  launched := h.launched
  dated := h.dated
  listings job l snapshots hj hc hl := .inr (hsafe job l snapshots hj hc hl)
  honest := h.honest

def Effect.Reads : Effect → Prop
  | .deleteJob | .createRepository .. => True
  | .patchStatus _ notes => ∀ e ∈ notes, e.Honest
  | .applyJob _ | .requestScan _ => False

theorem AnsweredInv.reads {es : List Effect} (h : AnsweredInv rfc n w) (hes : ∀ e ∈ es, e.Reads) :
    w.Throughout (AnsweredInv rfc n) es := by
  induction es generalizing w with
  | nil => exact h
  | cons e rest ih =>
    obtain ⟨he, hrest⟩ := List.forall_mem_cons.mp hes
    refine ⟨h, ih ?_ hrest⟩
    cases e with
    | deleteJob => exact h.deleteJob
    | createRepository l g a => exact h.createRepository l g a
    | patchStatus p notes => exact h.patch p he
    | applyJob job => exact he.elim
    | requestScan token => exact he.elim

theorem honest_connectedNotes (inProcess created : Bool) (id : Option String) (grant : CreateGrant)
    (ack : Option String) : ∀ e ∈ World.connectedNotes inProcess id created grant ack, e.Honest := by
  intro e he
  simp only [World.connectedNotes, List.mem_append, List.mem_singleton, Option.mem_toList] at he
  rcases he with (he | he) | rfl
  · split at he
    · obtain ⟨a, -, he⟩ := Option.bind_eq_some_iff.mp (Option.mem_toList.mp he)
      obtain ⟨i, -, rfl⟩ := Option.map_eq_some_iff.mp he
      trivial
    · cases he
  · obtain ⟨i, -, rfl⟩ := Option.map_eq_some_iff.mp he
    trivial
  · trivial

theorem runCatalogScan_reads {listedAt : Nat} {listing : List String} {scanned : Bool}
    (hanswers : w.Answers listedAt listing)
    (hscan : scanned = true ∨
      scanRequestedPending w.repo.scanToken w.status.scanRequestHonored = true) :
    ∀ e ∈ w.runCatalogScan rfc listedAt listing scanned, e.Reads := by
  intro e he
  rw [World.runCatalogScan] at he
  split at he
  · rw [List.mem_singleton.mp he]
    intro note hnote
    obtain ⟨t, ht, rfl⟩ := Option.map_eq_some_iff.mp (Option.mem_toList.mp hnote)
    exact hanswers (by rw [ht]; rfl)
  · next hs => simp [rescanTokenAfterFailedScan, hscan.resolve_left hs] at he

theorem finalizeBootstrapFailure_reads (job : DiscoveryJob) (failure : BootstrapFailure) :
    ∀ e ∈ w.finalizeBootstrapFailure rfc job failure, e.Reads := by
  rw [World.finalizeBootstrapFailure]
  split
  · simp only [World.finalizeProbeFailure, List.forall_mem_cons, List.not_mem_nil, Effect.Reads]
    split <;> simp [Event.Honest]
  · split
    · simp [World.recycleBootstrapOutage, Effect.Reads, Event.Honest]
    · simp [World.recycleFailedBootstrap, Effect.Reads, Event.Honest]
    · simp [World.recycleFailedBootstrap, Effect.Reads]
    · simp only [World.parkTerminalBootstrap, List.forall_mem_cons, List.not_mem_nil, Effect.Reads]
      split <;> simp [Event.Honest]

theorem finalizeBootstrapSuccess_reads {job : DiscoveryJob} {r : BootstrapReport} {scanned : Bool}
    (hanswers : r.snapshotCount.isSome = true → w.Answers (job.listedAt.getD 0) r.snapshots)
    (hscan : scanned = true ∨
      scanRequestedPending w.repo.scanToken w.status.scanRequestHonored = true) :
    ∀ e ∈ w.finalizeBootstrapSuccess rfc job r scanned, e.Reads := by
  intro e he
  simp only [World.finalizeBootstrapSuccess, List.mem_append, List.mem_singleton] at he
  rcases he with (rfl | he) | he
  · intro note hnote
    rcases List.mem_append.mp hnote with hnote | hnote
    · split at hnote
      · rw [List.mem_singleton.mp hnote]
        trivial
      · cases hnote
    · exact honest_connectedNotes _ _ _ _ _ note hnote
  · split at he
    · next hs =>
      exact runCatalogScan_reads (hanswers (Bool.and_eq_true_iff.mp hs).1) hscan e he
    · cases he
  · split at he
    · rw [List.mem_singleton.mp he]
      trivial
    · cases he

-- A pass

namespace ScanInv

theorem answeredInv (h : ScanInv rfc n w)
    (hkept : ∀ job, w.job = some job → job.isCurrent w.repo = true →
      w.recyclesForCatalog rfc w.repo.scanToken job = false) : AnsweredInv rfc n w where
  toScanInv := h
  answered job l snapshots hj hc hl := by
    refine (h.listings job l snapshots hj hc hl).resolve_right fun hr => ?_
    rw [hkept job hj hc] at hr
    cases hr

theorem current_spec (h : ScanInv rfc n w) {job : DiscoveryJob} (hj : w.job = some job)
    (hc : job.isCurrent w.repo = true) :
    w.repo.spec.suspend = false ∧ w.repo.spec.backend.barePath = false := by
  obtain ⟨g, hg, -, hspec⟩ := h.launched job hj
  have heq : some g.repr = some w.repo.generation.repr := hg ▸ eq_of_beq hc
  exact hspec (int_repr_inj (Option.some.inj heq))

theorem finalizeBootstrap (h : AnsweredInv rfc n w) {job : DiscoveryJob} (hj : w.job = some job)
    (hc : job.isCurrent w.repo = true) (terminal : MoverJobTerminal) {scanned : Bool}
    (hscan : scanned = true ∨
      scanRequestedPending w.repo.scanToken w.status.scanRequestHonored = true) :
    w.Throughout (AnsweredInv rfc n) (w.finalizeBootstrap rfc job terminal scanned) := by
  rw [World.finalizeBootstrap]
  split
  case h_1 => exact h
  case h_2 failure _ => exact h.reads (finalizeBootstrapFailure_reads job failure)
  case h_3 r hout =>
    obtain ⟨hr, -⟩ := bootstrapOutcome_succeeded hout
    refine h.reads (finalizeBootstrapSuccess_reads (fun hcount => ?_) hscan)
    obtain ⟨l, hl⟩ := Option.isSome_iff_exists.mp (h.dated job r hj hr hcount)
    rw [hl]
    exact h.answered job l r.snapshots hj hc (.inr ⟨r, hr, hcount, hl, rfl⟩)

theorem launchBootstrap (h : AnsweredInv rfc n w)
    (hspec : w.repo.spec.suspend = false ∧ w.repo.spec.backend.barePath = false) :
    w.Throughout (AnsweredInv rfc n) (w.launchBootstrap rfc) := by
  -- the two patches before the launch keep the spec and the generation
  have hclear : w.Throughout (fun v => AnsweredInv rfc n v ∧ v.repo.spec = w.repo.spec ∧
      v.repo.generation = w.repo.generation)
      ((if w.seedPlan.clearStatus then
        [.patchStatus { seedStartedAt := .null, seededAt := .null } []] else []) ++
        w.seedMarker rfc) := by
    refine .append ?_ fun h' => ?_
    · exact .ite (fun _ => .singleton ⟨h, rfl, rfl⟩ ⟨h.patch _ (by simp), rfl, rfl⟩)
        (fun _ => ⟨h, rfl, rfl⟩)
    · exact .ite (fun _ => h') (fun _ => .singleton h' ⟨h'.1.patch _ (by simp), h'.2⟩)
  refine World.Throughout.append (hclear.mono fun _ h => h.1) fun h' => ?_
  obtain ⟨-, hsame, hgen⟩ := hclear.last
  have happly : AnsweredInv rfc n (World.apply _ (.applyJob (w.bootstrapJob rfc))) :=
    h'.applyJob (by rw [hgen]; rfl) (by rw [hsame]; exact hspec) rfl rfl
  refine ⟨h', happly, happly.patch _ ?_⟩
  split <;> simp [Event.Honest]

theorem bootstrapViaMover (h : ScanInv rfc n w)
    (hspec : w.repo.spec.suspend = false ∧ w.repo.spec.backend.barePath = false) {scanned : Bool}
    (hscan : scanned = true ∨
      scanRequestedPending w.repo.scanToken w.status.scanRequestHonored = true) :
    w.Throughout (ScanInv rfc n) (w.bootstrapViaMover rfc scanned) := by
  rw [World.bootstrapViaMover]
  cases hj : w.job with
  | none =>
    have h' : AnsweredInv rfc n w := h.answeredInv fun job hj' => by simp [hj] at hj'
    refine .ite (fun _ => h) (fun _ => .ite (fun _ => h) (fun _ => ?_))
    exact (launchBootstrap h' hspec).mono fun _ h => h.toScanInv
  | some job =>
    cases ht : job.terminal with
    | none =>
      have h' : AnsweredInv rfc n w := h.answeredInv fun j hj' _ => by
        cases hj.symm.trans hj'
        simp [World.recyclesForCatalog, ht]
      simp only [ht]
      exact .ite (fun _ => h) (fun _ => .singleton h (h'.patch _ (by simp)).toScanInv)
    | some terminal =>
      simp only [ht]
      refine .ite (fun _ => .singleton h h.deleteJob.toScanInv) (fun hkept => ?_)
      simp only [World.recycles, Bool.or_eq_false_iff] at hkept
      obtain ⟨⟨⟨hstale, -⟩, -⟩, hrecycle⟩ := hkept
      have h' : AnsweredInv rfc n w := h.answeredInv fun j hj' _ => by
        cases hj.symm.trans hj'
        rw [World.recyclesForCatalog, ht]
        exact hrecycle
      obtain ⟨g, hg, -, -⟩ := h.launched job hj
      refine (finalizeBootstrap h' hj ?_ terminal hscan).mono fun _ h => h.toScanInv
      have heq : g = w.repo.generation := by
        by_contra hne
        have : staleBootstrapJob job.generation (some w.repo.generation) job.reinitAck
            w.launchReinitAck = true := by
          simp [staleBootstrapJob, hg, parseInt_repr, hne]
        rw [this] at hstale
        cases hstale
      simp [DiscoveryJob.isCurrent, hg, heq]

theorem abandoned (h : ScanInv rfc n w) (hbare : w.repo.spec.backend.barePath = true)
    {job : DiscoveryJob} (hj : w.job = some job) : job.isCurrent w.repo = false := by
  rw [Bool.eq_false_iff]
  intro hc
  rw [(h.current_spec hj hc).2] at hbare
  cases hbare

theorem inProcessReady (h : AnsweredInv rfc n w) {v : World} (hn : w.tick ≤ n)
    (hstale : ∀ job, w.job = some job → job.isCurrent w.repo = false)
    (hanswers : v.Answers v.tick v.contents) (i : PassInput) (created : Bool) :
    w.Throughout (ScanInv rfc n) (v.inProcessReady rfc i created) := by
  rw [World.inProcessReady]
  split
  case h_1 => exact h.toScanInv
  case h_2 id _ =>
    have h' : ∀ p, AnsweredInv rfc n (w.apply (.patchStatus p (World.connectedNotes true (some id)
        created v.effectiveCreate.grant v.repo.reinitAck))) := fun p =>
      h.patch p (honest_connectedNotes _ _ _ _ _)
    refine .append (.singleton h.toScanInv (h' _).toScanInv)
      fun h'' => .ite (fun _ => ?_) (fun _ => h'')
    cases hs : (i.scanned && i.kopia.list.isNone) with
    | true =>
      exact ((h' _).reads (runCatalogScan_reads hanswers (.inl rfl))).mono fun _ h => h.toScanInv
    | false =>
      simp only [World.runCatalogScan, Bool.false_eq_true, if_false]
      cases rescanTokenAfterFailedScan rfc v.repo.scanToken v.status.scanRequestHonored v.now with
      | none => exact h''
      | some t =>
        refine .singleton h'' (h''.stampToken t hn fun job l snapshots hj hc _ => ?_)
        exact absurd (hc.symm.trans (hstale job hj)) (by simp)

theorem bootstrapInProcess (h : ScanInv rfc n w) (hn : w.tick ≤ n) (hstamp : w.tokenAt < w.tick)
    (hbare : w.repo.spec.backend.barePath = true) (i : PassInput) :
    w.Throughout (ScanInv rfc n) (w.bootstrapInProcess rfc i) := by
  have hstale : ∀ job, w.job = some job → job.isCurrent w.repo = false := fun _ hj =>
    h.abandoned hbare hj
  have hanswers : w.Answers w.tick w.contents := fun _ => ⟨hstamp, h.held⟩
  have h' : AnsweredInv rfc n w := h.answeredInv fun job hj hc => by simp [hstale job hj] at hc
  have hfailed : ∀ (v : World), AnsweredInv rfc n v → ∀ e,
      v.Throughout (ScanInv rfc n) (w.inProcessFailed i e) := by
    intro v hv e
    refine .singleton hv.toScanInv (hv.patch _ ?_).toScanInv
    split <;> simp [Event.Honest]
  refine .ite (fun _ => h) (fun _ => ?_)
  split
  · exact inProcessReady h' hn hstale hanswers i false
  · exact inProcessReady h' hn hstale hanswers i false
  · split
    · next e _ _ =>
      have hcreate := h'.createRepository (w.launchRecord false) w.effectiveCreate.grant e
      refine ⟨h, ?_⟩
      split
      · exact hfailed _ hcreate _
      · exact hfailed _ hcreate _
      · exact inProcessReady hcreate hn hstale hanswers i true
    · exact hfailed w h' _

theorem pass (h : ScanInv rfc n w) (hn : w.tick ≤ n) (hstamp : w.tokenAt < w.tick) {i : PassInput}
    {calls : Nat} (hsafe : w.requestsSafely rfc (.pass i calls) = true) :
    w.Throughout (ScanInv rfc n) (w.reconcileInner rfc i) := by
  refine .ite (fun _ => h) (fun _ => .ite (fun hsuspend => ?_) (fun hactive => ?_))
  · have h' : AnsweredInv rfc n w := h.answeredInv fun job hj hc => by
      rw [(h.current_spec hj hc).1] at hsuspend
      cases hsuspend
    exact .singleton h (h'.patch _ (by simp)).toScanInv
  · refine .ite (fun hbare => h.bootstrapInProcess hn hstamp hbare i) (fun hmover => ?_)
    refine h.bootstrapViaMover ⟨hactive, hmover⟩ ?_
    simpa [World.requestsSafely, hmover] using hsafe

-- A run

theorem runJob (h : ScanInv rfc n w) (hstamp : w.tokenAt < w.tick) {job : DiscoveryJob}
    (hj : w.job = some job) (hrunning : job.terminal = none) (k : KopiaAnswers) (written : Bool) :
    ScanInv rfc n { w with
      job := some (job.run w.tick k w.contents written)
      log := job.notes k ++ w.log } := by
  -- the listing that this run reports answers the token
  have hlisted : job.isCurrent w.repo = true →
      w.Answers (job.listed w.tick w.contents).1 (job.listed w.tick w.contents).2 := by
    intro hc
    cases hl : job.listing with
    | none =>
      rw [DiscoveryJob.listed, hl]
      exact fun _ => ⟨hstamp, h.held⟩
    | some l =>
      rw [DiscoveryJob.listed, hl]
      exact (h.listings job l.1 l.2 hj hc (.inl hl)).resolve_right
        (by simp [World.recyclesForCatalog, hrunning])
  refine ⟨h.stamped, h.held, ?_, ?_, ?_, ?_⟩
  · rintro j ⟨⟩
    exact h.launched job hj
  · rintro j r ⟨⟩ hr hcount
    cases written with
    | false => exact h.dated job r hj hr hcount
    | true =>
      cases hr
      simp only [DiscoveryJob.run, if_pos hcount, if_true, Option.isSome_some]
  · rintro j l snapshots ⟨⟩ hc (hl | ⟨r, hr, hcount, hl, rfl⟩)
    · cases hl
    · cases written with
      | false =>
        refine .inl ((h.listings job l _ hj hc (.inr ⟨r, hr, hcount, hl, rfl⟩)).resolve_right ?_)
        simp [World.recyclesForCatalog, hrunning]
      | true =>
        cases hr
        simp only [DiscoveryJob.run, if_pos hcount, if_true, Option.some.injEq] at hl
        rw [runBootstrap_snapshots hcount, ← hl]
        exact .inl (hlisted hc)
  · intro e he
    rcases List.mem_append.mp he with he | he
    · rw [DiscoveryJob.notes] at he
      split at he
      · rw [List.mem_singleton.mp he]
        trivial
      · cases he
    · exact h.honest e he

theorem act (h : ScanInv rfc n w) (hn : w.tick ≤ n) (hstamp : w.tokenAt < w.tick) {a : RepoAction}
    (hsafe : w.requestsSafely rfc a = true) {w' : World} (hstep : w.act rfc a = some w') :
    ScanInv rfc n w' := by
  cases a with
  | pass i calls =>
    cases hstep
    exact (h.pass hn hstamp hsafe).applyAll_take calls
  | listJob =>
    obtain ⟨job, hj, hrunning, rfl⟩ := World.act_listJob hstep
    refine ⟨h.stamped, h.held, ?_, ?_, ?_, h.honest⟩
    · rintro j ⟨⟩
      exact h.launched job hj
    · rintro j r ⟨⟩
      exact h.dated job r hj
    · rintro j l snapshots ⟨⟩ hc (hl | hl)
      · cases hl
        exact .inl fun _ => ⟨hstamp, h.held⟩
      · exact h.listings job l snapshots hj hc (.inr hl)
  | runJob k written =>
    obtain ⟨job, hj, hrunning, rfl⟩ := World.act_runJob hstep
    exact h.runJob hstamp hj hrunning k written
  | finishJob terminal =>
    obtain ⟨job, hj, hrunning, -, -, rfl⟩ := World.act_finishJob hstep
    refine ⟨h.stamped, h.held, ?_, ?_, ?_, h.honest⟩
    · rintro j ⟨⟩
      exact h.launched job hj
    · rintro j r ⟨⟩
      exact h.dated job r hj
    · rintro j l snapshots ⟨⟩ hc hl
      exact .inl ((h.listings job l snapshots hj hc hl).resolve_right
        (by simp [World.recyclesForCatalog, hrunning]))
  | reapJob =>
    obtain ⟨job, -, -, rfl⟩ := World.act_reapJob hstep
    refine ⟨h.stamped, h.held, ?_, ?_, ?_, h.honest⟩
    · rintro j ⟨⟩
    · rintro j r ⟨⟩
    · rintro j l snapshots ⟨⟩
  | acknowledge ack =>
    cases hstep
    exact ⟨h.stamped, h.held, h.launched, h.dated, h.listings, h.honest⟩
  | requestReverify token =>
    cases hstep
    exact ⟨h.stamped, h.held, h.launched, h.dated, h.listings, h.honest⟩
  | requestScan token =>
    cases hstep
    refine h.stampToken token hn fun job l snapshots hj hc hl => ?_
    have hjob : (job.listing.isNone && job.listedAt.isNone || !job.isCurrent w.repo ||
        w.recyclesForCatalog rfc (some token) job) = true := by
      simpa [World.requestsSafely, World.stampsSafely, hj] using hsafe
    rcases hl with hl | ⟨r, -, -, hl, -⟩ <;> simpa [hl, hc] using hjob
  | clearRequest =>
    cases hstep
    refine ⟨h.stamped, h.held, h.launched, h.dated, ?_, h.honest⟩
    rintro job l snapshots - - - 
    exact .inl fun ht => by cases ht
  | editSpec spec =>
    cases hstep
    have hstale : ∀ job, w.job = some job → ∃ g : Int, job.generation = some g.repr ∧
        g < w.repo.generation + 1 := by
      intro job hj
      obtain ⟨g, hg, hle, -⟩ := h.launched job hj
      exact ⟨g, hg, Int.lt_add_one_of_le hle⟩
    refine ⟨h.stamped, h.held, ?_, h.dated, ?_, h.honest⟩
    · intro job hj
      obtain ⟨g, hg, hlt⟩ := hstale job hj
      exact ⟨g, hg, hlt.le, fun heq => absurd heq hlt.ne⟩
    · intro job l snapshots hj hc
      obtain ⟨g, hg, hlt⟩ := hstale job hj
      have heq : some g.repr = some (w.repo.generation + 1).repr := hg ▸ eq_of_beq hc
      exact absurd (int_repr_inj (Option.some.inj heq)) hlt.ne
  | store contents =>
    cases hstep
    refine ⟨h.stamped, ?_, h.launched, h.dated, ?_, h.honest⟩
    · intro s hs
      exact of_decide_eq_true (List.mem_filter.mp hs).2
    · intro job l snapshots hj hc hl
      refine (h.listings job l snapshots hj hc hl).imp (fun ha ht => ?_) id
      exact (ha ht).imp id fun hheld s hs => hheld s (List.mem_filter.mp hs).1
  | advance t =>
    obtain ⟨hle, rfl⟩ := World.act_advance hstep
    refine ⟨h.stamped, h.held, h.launched, h.dated, ?_, h.honest⟩
    intro job l snapshots hj hc hl
    refine (h.listings job l snapshots hj hc hl).imp id fun hr => ?_
    simp only [World.recyclesForCatalog, Bool.and_eq_true] at hr ⊢
    exact hr.imp id (CatalogTiming.bootstrapRecycleDue_mono hle)

end ScanInv

theorem scanInv_of_run {now : DateTime} {repo : Repository} {contents : List String}
    (run : Reaches (World.step rfc) (fun w a => w.requestsSafely rfc a = true)
      (.fresh now repo contents) w) : ∃ n < w.tick, ScanInv rfc n w := by
  refine run.invariant (fun w => ∃ n < w.tick, ScanInv rfc n w) ⟨0, Nat.one_pos, .fresh _ _ _⟩ ?_
  rintro w a w' ⟨n, hn, h⟩ hsafe hstep
  obtain ⟨v, hv, rfl⟩ := World.step_of_act rfc hstep
  have hv := (h.mono hn.le).act le_rfl (h.stamped.trans_lt hn) hsafe hv
  exact ⟨w.tick, Nat.lt_succ_self _,
    ⟨hv.stamped, hv.held, hv.launched, hv.dated, hv.listings, hv.honest⟩⟩

/-- In a run whose requests are stamped safely, a request is retired only by a
listing taken after the stamp, with every snapshot that was there since. -/
theorem scan_requests_honored_fresh (rfc : Rfc3339) (now : DateTime) (repo : Repository)
    (contents : List String) {w : World}
    (run : Reaches (World.step rfc) (fun w a => w.requestsSafely rfc a = true)
      (.fresh now repo contents) w)
    {token : String} {stampedAt listedAt : Nat} {held listed : List String}
    (honored : .honored token stampedAt listedAt held listed ∈ w.log) :
    stampedAt < listedAt ∧ ∀ s ∈ held, s ∈ listed := by
  obtain ⟨n, -, h⟩ := scanInv_of_run run
  exact h.honest _ honored

/-- A request made while a Job is about to list is retired by that listing. -/
theorem scan_requests_honored_fresh_run :
    ∃ w, Reaches (World.step decimalTimes) (fun w a => w.requestsSafely decimalTimes a = true)
        (.fresh 0 { generation := 1, spec := {} } ["s1"]) w ∧
      .honored "t1" 2 3 ["s1"] ["s1"] ∈ w.log ∧ 2 < 3 ∧ ∀ s ∈ ["s1"], s ∈ ["s1"] := by
  obtain ⟨w, hreach, hhonored⟩ : ∃ w, Reaches (World.step decimalTimes)
      (fun w a => w.requestsSafely decimalTimes a = true)
      (.fresh 0 { generation := 1, spec := {} } ["s1"]) w ∧
        .honored "t1" 2 3 ["s1"] ["s1"] ∈ w.log :=
    exists_reaches [fullPass, .requestScan "t1", .runJob (present "u") true, .advance 9000000000,
      .finishJob .complete, fullPass] (by decide)
  exact ⟨w, hreach, hhonored,
    scan_requests_honored_fresh decimalTimes 0 _ ["s1"] hreach hhonored⟩

/-- A snapshot is stored and a scan requested after a running Job has listed
the repository. The Job's listing retires the request without the snapshot. -/
theorem scan_request_honored_by_older_listing :
    ∃ w, Reaches (World.step decimalTimes) (fun _ _ => True)
        (.fresh 0 { generation := 1, spec := {} } []) w ∧
      .honored "t1" 4 2 ["s1"] [] ∈ w.log ∧ w.status.scanRequestHonored = some "t1" := by
  exact exists_reaches [fullPass, .listJob, .store ["s1"], .requestScan "t1",
    .runJob (present "u") true, .advance 9000000000, .finishJob .complete, fullPass] (by decide)

end Kopiur
