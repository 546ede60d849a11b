import Kopiur.Lib.Runs
import Kopiur.Mover.StreamExec

/-!
# Feeding a dump to kopia

A producer runs in a workload pod and its stdout is copied into kopia's stdin.
Kopia finishes a snapshot at the end of its input, so the runner alone closes
the pipe: at once when the producer succeeded and wrote something, otherwise
only after kopia is killed.
-/

namespace Kopiur

open Lib

inductive StdinOutcome
  | commit (bytes : Nat)
  | abort
deriving DecidableEq

inductive AbortReason
  | producerFailed
  | wroteNothing
  | producerError (error : String)
deriving DecidableEq

inductive FedVerdict
  | commit (bytes : Nat)
  | abort (reason : AbortReason)
deriving DecidableEq

def classifyFed : Except String StdinOutcome → FedVerdict
  | .ok (.commit 0) => .abort .wroteNothing
  | .ok (.commit bytes) => .commit bytes
  | .ok .abort => .abort .producerFailed
  | .error e => .abort (.producerError e)

theorem classifyFed_eq_commit {fed : Except String StdinOutcome} {bytes : Nat}
    (h : classifyFed fed = .commit bytes) : fed = .ok (.commit bytes) ∧ 0 < bytes := by
  unfold classifyFed at h
  split at h
  case h_1 => cases h
  case h_2 n hn =>
    cases h
    exact ⟨rfl, Nat.pos_of_ne_zero fun h0 => hn (h0 ▸ rfl)⟩
  case h_3 => cases h
  case h_4 => cases h

inductive StdinEnd
  | committed
  | dropped
deriving DecidableEq

/-- A kopia that no longer runs: killed, or exited by itself, and whether its
stdin was open then. -/
structure ProcessEnd where
  code : Option Int
  stdinOpen : Bool
deriving DecidableEq

structure KopiaStdin (α : Type) where
  closed : Option StdinEnd := none
  stopped : Option ProcessEnd := none
  -- How much of what was written it has read.
  consumed : Nat := 0
  manifest : Option (List α) := none
deriving DecidableEq

namespace KopiaStdin

variable {α : Type}

def stop (k : KopiaStdin α) (code : Option Int) : KopiaStdin α :=
  match k.stopped with
  | some _ => k
  | none => { k with stopped := some ⟨code, k.closed.isNone⟩ }

end KopiaStdin

-- The run

inductive StdinError
  | aborted (reason : AbortReason)
  | timeout
  | spawn
deriving DecidableEq

inductive FeedPhase
  | starting
  | transferring (hasStderr hasStatus : Bool)
  | awaiting (bytes : Nat) (hasStatus : Bool)
  | fed (outcome : StdinOutcome)
  | killed (reason : AbortReason)
  | finalizing
  | returned (result : Except StdinError (Option Int))
deriving DecidableEq

def FeedPhase.holdsPipe : FeedPhase → Bool
  | .finalizing | .returned _ => false
  | _ => true

structure StreamBackup (α : Type) where
  exec : Exec α := {}
  pump : Pump α := {}
  -- The drain of stderr has reached its end.
  drained : Bool := false
  phase : FeedPhase := .starting
  kopia : KopiaStdin α := {}
deriving DecidableEq

inductive BackupEvent (α : Type)
  | exec (e : ExecEvent α)
  -- No pod, no upgrade, or no answer in time.
  | refuse
  | attach (hasStdout hasStderr hasStatus : Bool)
  | copy (e : PumpEvent)
  | drained
  | transferTimeout
  | joined
  | verdict
  | statusTimeout
  | kill
  | release
  | close
  | reap
  | finalizeTimeout
  | waitFailed
  | kopiaRead (n : Nat)
  | kopiaWrite
  | kopiaExit (code : Option Int)
deriving DecidableEq

namespace StreamBackup

variable {α : Type}

/-- `feed_from_pod` and the runner around it, with everything that happens
beside them. -/
def step (w : StreamBackup α) : BackupEvent α → Option (StreamBackup α)
  | .exec e => (w.exec.step w.pump e).map fun (exec, pump) => { w with exec, pump }
  | .refuse => if w.phase = .starting then some { w with phase := .fed .abort } else none
  | .attach hasStdout hasStderr hasStatus =>
    if w.phase = .starting then
      some { w with
        phase := if hasStdout then .transferring hasStderr hasStatus else .fed .abort }
    else none
  | .copy e =>
    match w.phase with
    | .transferring _ _ =>
      -- A write into the pipe of a kopia that is gone fails.
      match e, w.kopia.stopped with
      | .write _, some _ => none
      | _, _ => (w.pump.step e).map fun pump => { w with pump }
    | _ => none
  | .drained =>
    match w.phase with
    | .transferring _ _ =>
      if w.exec.closed && w.exec.diagnostics.isEmpty then some { w with drained := true } else none
    | _ => none
  | .transferTimeout =>
    match w.phase with
    | .transferring _ _ => some { w with phase := .fed .abort }
    | _ => none
  | .joined =>
    match w.phase, w.pump.result with
    | .transferring hasStderr hasStatus, some result =>
      if w.drained || !hasStderr then
        some { w with
          phase := match result with
            | .ok bytes => .awaiting bytes hasStatus
            | .error () => .fed .abort }
      else none
    | _, _ => none
  | .verdict =>
    match w.phase with
    | .awaiting bytes hasStatus =>
      (if hasStatus then w.exec.verdict else some .noStatus).map fun verdict =>
        { w with
          phase := .fed (match verdict with
            | .success => .commit bytes
            | .failed _ | .noStatus => .abort) }
    | _ => none
  | .statusTimeout =>
    match w.phase with
    | .awaiting _ _ => some { w with phase := .fed .abort }
    | _ => none
  | .kill =>
    match w.phase with
    | .fed outcome =>
      match classifyFed (.ok outcome) with
      | .abort reason => some { w with phase := .killed reason, kopia := w.kopia.stop none }
      | .commit _ => none
    | _ => none
  | .release =>
    match w.phase with
    | .killed reason =>
      some { w with
        phase := .returned (.error (.aborted reason))
        kopia := { w.kopia with closed := some .dropped } }
    | _ => none
  | .close =>
    match w.phase with
    | .fed outcome =>
      match classifyFed (.ok outcome) with
      | .commit _ =>
        some { w with phase := .finalizing, kopia := { w.kopia with closed := some .committed } }
      | .abort _ => none
    | _ => none
  | .reap =>
    match w.phase, w.kopia.stopped with
    | .finalizing, some stopped => some { w with phase := .returned (.ok stopped.code) }
    | _, _ => none
  | .finalizeTimeout =>
    if w.phase = .finalizing then
      some { w with phase := .returned (.error .timeout), kopia := w.kopia.stop none }
    else none
  | .waitFailed =>
    if w.phase = .finalizing then some { w with phase := .returned (.error .spawn) } else none
  | .kopiaRead n =>
    if w.kopia.stopped.isNone && w.kopia.consumed + n ≤ w.pump.sink.length then
      some { w with kopia := { w.kopia with consumed := w.kopia.consumed + n } }
    else none
  -- Kopia writes its manifest at the end of its input, from what it read.
  | .kopiaWrite =>
    if w.kopia.stopped.isNone && w.kopia.closed.isSome &&
        w.kopia.consumed == w.pump.sink.length then
      some { w with kopia := { w.kopia with manifest := some w.pump.sink } }
    else none
  | .kopiaExit code =>
    if w.kopia.stopped.isNone then some { w with kopia := w.kopia.stop code } else none

def Whole (w : StreamBackup α) : Prop :=
  w.pump.sink = w.exec.output ∧ w.exec.output ≠ [] ∧ w.exec.Succeeded

def StoppedOpen (w : StreamBackup α) : Prop :=
  ∃ stopped, w.kopia.stopped = some stopped ∧ stopped.stdinOpen = true

-- The invariant

structure Inv (w : StreamBackup α) : Prop where
  ordered : w.exec.Ordered w.pump
  kept : w.pump.Kept
  pipe : w.kopia.closed.isNone = w.phase.holdsPipe
  awaiting : ∀ bytes hasStatus, w.phase = .awaiting bytes hasStatus →
    w.pump.result = some (.ok bytes)
  fed : ∀ bytes, w.phase = .fed (.commit bytes) →
    w.pump.result = some (.ok bytes) ∧ w.exec.Succeeded
  killed : ∀ reason, w.phase = .killed reason → w.StoppedOpen
  committed : w.kopia.closed = some .committed → w.Whole ∧ ∃ n, w.pump.result = some (.ok n)
  dropped : w.kopia.closed = some .dropped → w.StoppedOpen
  early : w.kopia.closed = none → ∀ stopped, w.kopia.stopped = some stopped →
    stopped.stdinOpen = true
  manifest : ∀ b, w.kopia.manifest = some b →
    b = w.pump.sink ∧ w.kopia.closed = some .committed

theorem Inv.init : ({} : StreamBackup α).Inv where
  ordered := Exec.Ordered.init
  kept := Pump.Kept.init
  pipe := rfl
  awaiting := nofun
  fed := nofun
  killed := nofun
  committed := nofun
  dropped := nofun
  early := nofun
  manifest := nofun

variable {w : StreamBackup α}

theorem Inv.pipe_open (h : w.Inv) (hp : w.phase.holdsPipe = true) :
    w.kopia.closed = none := by
  simpa [hp] using h.pipe

theorem Inv.execStep (h : w.Inv) {e : ExecEvent α} {exec : Exec α} {pump : Pump α}
    (hstep : w.exec.step w.pump e = some (exec, pump)) :
    ({ w with exec, pump } : StreamBackup α).Inv := by
  obtain ⟨hordered, hkept⟩ := h.ordered.step h.kept hstep
  obtain ⟨hsink, hresult⟩ := Exec.step_copy hstep
  have hsucceeded : w.exec.Succeeded → exec.output = w.exec.output ∧ exec.Succeeded := by
    rintro ⟨s, hs, hv⟩
    obtain ⟨hout, hreported⟩ := h.ordered.settled hs hstep
    exact ⟨hout, s, hreported, hv⟩
  refine ⟨hordered, hkept, h.pipe, fun b s hp => ?_, fun b hp => ?_, h.killed, fun hc => ?_,
    h.dropped, h.early, fun b hb => ?_⟩
  · exact hresult.trans (h.awaiting b s hp)
  · obtain ⟨hr, hs⟩ := h.fed b hp
    exact ⟨hresult.trans hr, (hsucceeded hs).2⟩
  · obtain ⟨⟨hs, hne, hok⟩, n, hn⟩ := h.committed hc
    obtain ⟨hout, hok'⟩ := hsucceeded hok
    refine ⟨⟨?_, ?_, hok'⟩, n, hresult.trans hn⟩
    · change pump.sink = exec.output
      rw [hsink, hs, hout]
    · change exec.output ≠ []
      rwa [hout]
  · obtain ⟨hb', hc⟩ := h.manifest b hb
    exact ⟨hb'.trans hsink.symm, hc⟩

theorem Inv.goto (h : w.Inv) (hp : w.phase.holdsPipe = true) {phase : FeedPhase}
    (hholds : phase.holdsPipe = true)
    (hawaiting : ∀ b s, phase = .awaiting b s → w.pump.result = some (.ok b))
    (hfed : ∀ b, phase = .fed (.commit b) → w.pump.result = some (.ok b) ∧ w.exec.Succeeded)
    (hkilled : ∀ r, phase ≠ .killed r) : ({ w with phase } : StreamBackup α).Inv where
  ordered := h.ordered
  kept := h.kept
  pipe := by rw [h.pipe_open hp, hholds]; rfl
  awaiting := hawaiting
  fed := hfed
  killed r hr := absurd hr (hkilled r)
  committed hc := by rw [h.pipe_open hp] at hc; cases hc
  dropped hc := by rw [h.pipe_open hp] at hc; cases hc
  early := h.early
  manifest b hb := by
    have hc := (h.manifest b hb).2
    rw [h.pipe_open hp] at hc
    cases hc

theorem Inv.aborts (h : w.Inv) (hp : w.phase.holdsPipe = true) :
    ({ w with phase := .fed .abort } : StreamBackup α).Inv :=
  h.goto hp rfl nofun nofun nofun

theorem Inv.copyStep (h : w.Inv) {hasStderr hasStatus : Bool}
    (hp : w.phase = .transferring hasStderr hasStatus) {e : PumpEvent} {pump : Pump α}
    (hstep : w.pump.step e = some pump) : ({ w with pump } : StreamBackup α).Inv := by
  have hopen := h.pipe_open (by rw [hp]; rfl)
  obtain ⟨hinput, hended⟩ := Pump.step_source hstep
  refine ⟨h.ordered.of_source hinput hended, h.kept.step hstep, h.pipe, fun b s hq => ?_,
    fun b hq => ?_, h.killed, fun hc => ?_, h.dropped, h.early, fun b hb => ?_⟩
  · rw [hp] at hq; cases hq
  · rw [hp] at hq; cases hq
  · rw [hopen] at hc; cases hc
  · have hc := (h.manifest b hb).2
    rw [hopen] at hc; cases hc

theorem Inv.stop (h : w.Inv) (code : Option Int) :
    ({ w with kopia := w.kopia.stop code } : StreamBackup α).Inv := by
  cases hs : w.kopia.stopped with
  | some stopped =>
    have hsame : w.kopia.stop code = w.kopia := by simp [KopiaStdin.stop, hs]
    rw [hsame]
    exact h
  | none =>
    have hstop : w.kopia.stop code =
        { w.kopia with stopped := some ⟨code, w.kopia.closed.isNone⟩ } := by
      simp [KopiaStdin.stop, hs]
    have hnot : ¬ w.StoppedOpen := by
      rintro ⟨stopped, hstopped, -⟩
      rw [hs] at hstopped
      cases hstopped
    rw [hstop]
    refine ⟨h.ordered, h.kept, h.pipe, h.awaiting, h.fed, fun r hr => absurd (h.killed r hr) hnot,
      h.committed, fun hc => absurd (h.dropped hc) hnot, fun hc stopped hstopped => ?_,
      h.manifest⟩
    cases hstopped
    exact Option.isNone_iff_eq_none.mpr hc

theorem stopped_stop (k : KopiaStdin α) (code : Option Int) :
    ∃ stopped, (k.stop code).stopped = some stopped := by
  cases hs : k.stopped <;> simp [KopiaStdin.stop, hs]

theorem Inv.kill (h : w.Inv) (hp : w.phase.holdsPipe = true) (reason : AbortReason) :
    ({ w with phase := .killed reason, kopia := w.kopia.stop none } : StreamBackup α).Inv := by
  have hstop := h.stop none
  obtain ⟨stopped, hstopped⟩ := stopped_stop w.kopia none
  have hopen := hstop.pipe_open hp
  have hkilled : ({ w with kopia := w.kopia.stop none } : StreamBackup α).StoppedOpen :=
    ⟨stopped, hstopped, hstop.early hopen stopped hstopped⟩
  refine ⟨hstop.ordered, hstop.kept, ?_, nofun, nofun, fun _ _ => hkilled, fun hc => ?_,
    fun hc => ?_, hstop.early, fun b hb => ?_⟩
  · exact Option.isNone_iff_eq_none.mpr hopen
  · rw [hopen] at hc; cases hc
  · rw [hopen] at hc; cases hc
  · have hc := (hstop.manifest b hb).2
    rw [hopen] at hc; cases hc

theorem Inv.release (h : w.Inv) {reason : AbortReason} (hp : w.phase = .killed reason)
    (result : Except StdinError (Option Int)) :
    ({ w with phase := .returned result, kopia := { w.kopia with closed := some .dropped } } :
      StreamBackup α).Inv where
  ordered := h.ordered
  kept := h.kept
  pipe := rfl
  awaiting := nofun
  fed := nofun
  killed := nofun
  committed := nofun
  dropped _ := h.killed reason hp
  early := nofun
  manifest b hb := by
    have hc := (h.manifest b hb).2
    rw [h.pipe_open (by rw [hp]; rfl)] at hc
    cases hc

theorem Inv.close (h : w.Inv) {bytes : Nat} (hp : w.phase = .fed (.commit bytes))
    (hbytes : 0 < bytes) :
    ({ w with phase := .finalizing, kopia := { w.kopia with closed := some .committed } } :
      StreamBackup α).Inv := by
  obtain ⟨hresult, s, hs, hv⟩ := h.fed bytes hp
  obtain ⟨-, hsink, hlen⟩ := h.kept.whole bytes hresult
  obtain ⟨-, -, hall⟩ := h.ordered.reported s hs
  have hwhole : w.pump.sink = w.exec.output := hsink.trans hall
  have hne : w.exec.output ≠ [] := by
    rw [← hall]
    rintro hnil
    rw [hnil, List.length_nil] at hlen
    omega
  refine ⟨h.ordered, h.kept, rfl, nofun, nofun, nofun,
    fun _ => ⟨⟨hwhole, hne, s, hs, hv⟩, bytes, hresult⟩, nofun, nofun, fun b hb => ?_⟩
  have hc := (h.manifest b hb).2
  rw [h.pipe_open (by rw [hp]; rfl)] at hc
  cases hc

theorem Inv.finish (h : w.Inv) (hp : w.phase = .finalizing)
    (result : Except StdinError (Option Int)) :
    ({ w with phase := .returned result } : StreamBackup α).Inv where
  ordered := h.ordered
  kept := h.kept
  pipe := by rw [h.pipe, hp]; rfl
  awaiting := nofun
  fed := nofun
  killed := nofun
  committed := h.committed
  dropped := h.dropped
  early := h.early
  manifest := h.manifest

theorem Inv.of_drained (h : w.Inv) (drained : Bool) :
    ({ w with drained } : StreamBackup α).Inv :=
  ⟨h.ordered, h.kept, h.pipe, h.awaiting, h.fed, h.killed, h.committed, h.dropped, h.early,
    h.manifest⟩

-- One step

variable {w' : StreamBackup α}

theorem Inv.step_attach {hasStdout hasStderr hasStatus : Bool} (h : w.Inv)
    (hstep : w.step (.attach hasStdout hasStderr hasStatus) = some w') : w'.Inv := by
  obtain ⟨hp, hw⟩ := Option.ite_none_right_eq_some.mp hstep
  cases hw
  have hholds : w.phase.holdsPipe = true := by rw [hp]; rfl
  cases hasStdout with
  | true => exact h.goto hholds rfl nofun nofun nofun
  | false => exact h.aborts hholds

theorem Inv.step_copy {e : PumpEvent} (h : w.Inv)
    (hstep : w.step (.copy e) = some w') : w'.Inv := by
  unfold StreamBackup.step at hstep
  dsimp only at hstep
  split at hstep
  case h_2 => cases hstep
  case h_1 hp =>
    split at hstep
    case h_1 => cases hstep
    case h_2 =>
      obtain ⟨pump, he, rfl⟩ := Option.map_eq_some_iff.mp hstep
      exact h.copyStep hp he

theorem Inv.step_drained (h : w.Inv) (hstep : w.step .drained = some w') : w'.Inv := by
  unfold StreamBackup.step at hstep
  dsimp only at hstep
  split at hstep
  case h_2 => cases hstep
  case h_1 hp =>
    obtain ⟨-, hw⟩ := Option.ite_none_right_eq_some.mp hstep
    cases hw
    exact h.of_drained true

theorem Inv.step_transferTimeout (h : w.Inv)
    (hstep : w.step .transferTimeout = some w') : w'.Inv := by
  unfold StreamBackup.step at hstep
  dsimp only at hstep
  split at hstep
  case h_2 => cases hstep
  case h_1 hp =>
    cases hstep
    exact h.aborts (by rw [hp]; rfl)

theorem Inv.step_joined (h : w.Inv) (hstep : w.step .joined = some w') : w'.Inv := by
  unfold StreamBackup.step at hstep
  dsimp only at hstep
  split at hstep
  case h_2 => cases hstep
  case h_1 hasStderr hasStatus result hp hresult =>
    obtain ⟨-, hw⟩ := Option.ite_none_right_eq_some.mp hstep
    cases hw
    have hholds : w.phase.holdsPipe = true := by rw [hp]; rfl
    cases result with
    | error u => exact h.aborts hholds
    | ok bytes =>
      refine h.goto hholds rfl (fun b s hb => ?_) nofun nofun
      cases hb
      exact hresult

theorem Inv.step_verdict (h : w.Inv) (hstep : w.step .verdict = some w') : w'.Inv := by
  unfold StreamBackup.step at hstep
  dsimp only at hstep
  split at hstep
  case h_2 => cases hstep
  case h_1 bytes hasStatus hp =>
    obtain ⟨verdict, hv, rfl⟩ := Option.map_eq_some_iff.mp hstep
    have hholds : w.phase.holdsPipe = true := by rw [hp]; rfl
    cases verdict with
    | failed detail => exact h.aborts hholds
    | noStatus => exact h.aborts hholds
    | success =>
      refine h.goto hholds rfl nofun (fun b hb => ?_) nofun
      cases hb
      refine ⟨h.awaiting bytes hasStatus hp, ?_⟩
      cases hasStatus with
      | true => exact Exec.succeeded_of_verdict hv
      | false => cases hv

theorem Inv.step_statusTimeout (h : w.Inv) (hstep : w.step .statusTimeout = some w') : w'.Inv := by
  unfold StreamBackup.step at hstep
  dsimp only at hstep
  split at hstep
  case h_2 => cases hstep
  case h_1 hp =>
    cases hstep
    exact h.aborts (by rw [hp]; rfl)

theorem Inv.step_kill (h : w.Inv) (hstep : w.step .kill = some w') : w'.Inv := by
  unfold StreamBackup.step at hstep
  dsimp only at hstep
  split at hstep
  case h_2 => cases hstep
  case h_1 outcome hp =>
    split at hstep
    case h_2 => cases hstep
    case h_1 reason _ =>
      cases hstep
      exact h.kill (by rw [hp]; rfl) reason

theorem Inv.step_release (h : w.Inv) (hstep : w.step .release = some w') : w'.Inv := by
  unfold StreamBackup.step at hstep
  dsimp only at hstep
  split at hstep
  case h_2 => cases hstep
  case h_1 reason hp =>
    cases hstep
    exact h.release hp _

theorem Inv.step_close (h : w.Inv) (hstep : w.step .close = some w') : w'.Inv := by
  unfold StreamBackup.step at hstep
  dsimp only at hstep
  split at hstep
  case h_2 => cases hstep
  case h_1 outcome hp =>
    split at hstep
    case h_2 => cases hstep
    case h_1 bytes hfed =>
      cases hstep
      obtain ⟨houtcome, hpos⟩ := classifyFed_eq_commit hfed
      cases houtcome
      exact h.close hp hpos

theorem Inv.step_reap (h : w.Inv) (hstep : w.step .reap = some w') : w'.Inv := by
  unfold StreamBackup.step at hstep
  dsimp only at hstep
  split at hstep
  case h_2 => cases hstep
  case h_1 hp _ =>
    cases hstep
    exact h.finish hp _

theorem Inv.step_kopiaWrite (h : w.Inv) (hstep : w.step .kopiaWrite = some w') : w'.Inv := by
  obtain ⟨hguard, hw⟩ := Option.ite_none_right_eq_some.mp hstep
  cases hw
  simp only [Bool.and_eq_true] at hguard
  obtain ⟨⟨hruns, hclosed⟩, -⟩ := hguard
  refine ⟨h.ordered, h.kept, h.pipe, h.awaiting, h.fed, h.killed, h.committed, h.dropped, h.early,
    fun b hb => ?_⟩
  cases hb
  refine ⟨rfl, ?_⟩
  cases hc : w.kopia.closed with
  | none => rw [hc] at hclosed; cases hclosed
  | some reason =>
    cases reason with
    | committed => rfl
    | dropped =>
      -- Kopia ended before the pipe of a failed run was closed.
      obtain ⟨stopped, hstopped, -⟩ := h.dropped hc
      rw [hstopped] at hruns
      cases hruns

theorem Inv.step {e : BackupEvent α} (h : w.Inv) (hstep : w.step e = some w') : w'.Inv := by
  cases e with
  | exec e =>
    obtain ⟨⟨exec, pump⟩, he, rfl⟩ := Option.map_eq_some_iff.mp hstep
    exact h.execStep he
  | refuse =>
    obtain ⟨hp, hw⟩ := Option.ite_none_right_eq_some.mp hstep
    cases hw
    exact h.aborts (by rw [hp]; rfl)
  | attach hasStdout hasStderr hasStatus => exact h.step_attach hstep
  | copy e => exact h.step_copy hstep
  | drained => exact h.step_drained hstep
  | transferTimeout => exact h.step_transferTimeout hstep
  | joined => exact h.step_joined hstep
  | verdict => exact h.step_verdict hstep
  | statusTimeout => exact h.step_statusTimeout hstep
  | kill => exact h.step_kill hstep
  | release => exact h.step_release hstep
  | close => exact h.step_close hstep
  | reap => exact h.step_reap hstep
  | finalizeTimeout =>
    obtain ⟨hp, hw⟩ := Option.ite_none_right_eq_some.mp hstep
    cases hw
    exact (h.stop none).finish hp _
  | waitFailed =>
    obtain ⟨hp, hw⟩ := Option.ite_none_right_eq_some.mp hstep
    cases hw
    exact h.finish hp _
  | kopiaRead n =>
    obtain ⟨-, hw⟩ := Option.ite_none_right_eq_some.mp hstep
    cases hw
    exact ⟨h.ordered, h.kept, h.pipe, h.awaiting, h.fed, h.killed, h.committed, h.dropped, h.early,
      h.manifest⟩
  | kopiaWrite => exact h.step_kopiaWrite hstep
  | kopiaExit code =>
    obtain ⟨-, hw⟩ := Option.ite_none_right_eq_some.mp hstep
    cases hw
    exact h.stop code

theorem Inv.of_reaches {ok : StreamBackup α → BackupEvent α → Prop}
    (h : Reaches StreamBackup.step ok {} w) : w.Inv :=
  h.invariant Inv Inv.init fun _ _ _ hinv _ hstep => hinv.step hstep

end StreamBackup

end Kopiur
