import Kopiur.Controller.PinJobs
import Kopiur.Lib.Runs

/-!
# Runs of the pin passes

A pass reads the informer's copy of the object, looks the Jobs up in the
cluster, and makes its calls one by one. In between the user edits `spec.pin`,
a mover pins or unpins, ends well or badly, and ended Jobs are reaped. kopia
saves a new manifest with every change, so the mover records the new id.
-/

namespace Kopiur

open Lib

structure PinWorld where
  live : PinnedSnapshot
  cached : PinnedSnapshot
  /-- What the running pass read. -/
  backup : PinnedSnapshot
  /-- The calls the running pass has left. -/
  calls : List PinCall
  jobs : List PinJob
  manifest : String
  /-- The last change applied in kopia. -/
  lastApplied : Option Bool
deriving DecidableEq

inductive PinEvent
  | toggle (pin : Bool)
  | sync
  | pass
  /-- The next call of the pass; `fresh` if the read before it succeeds. -/
  | call (fresh : Bool)
  | crash
  /-- The mover's change takes effect and the manifest gets a new id. -/
  | apply (name : String) (manifest : String)
  | restamp (name : String)
  | finish (name : String)
  | fail (name : String)
  | reap (name : String)
deriving DecidableEq

namespace PinWorld

def job? (w : PinWorld) (name : String) : Option PinJob := w.jobs.find? fun j => j.name == name

def kopiaPinned (w : PinWorld) : Bool := w.lastApplied.getD false

def setJob (w : PinWorld) (name : String) (f : PinJob → PinJob) : PinWorld :=
  { w with jobs := w.jobs.map fun j => if j.name = name then f j else j }

def setCondition (w : PinWorld) (fresh : Bool) (status : ConditionStatus) (reason : String) :
    PinWorld :=
  let existing := if fresh then w.live.conditions else w.backup.conditions
  { w with live :=
      { w.live with conditions := upsertConditionStatus existing pinnedCondition status reason } }

def exec (w : PinWorld) (fresh : Bool) : PinCall → PinWorld
  | .mark => w.setCondition fresh .unknown "PinJobRunning"
  | .create name pinTarget op =>
    if (w.job? name).isSome then w
    else { w with jobs := w.jobs ++ [⟨name, some pinTarget, op, none, false⟩] }
  | .record pinned =>
    let w := w.setCondition fresh (if pinned then .true else .false) "PinReconciled"
    { w with live := { w.live with pinned := some pinned } }
  | .markFailed observed =>
    w.setCondition fresh (if observed then .true else .false) "PinJobFailed"
  | .delete name => { w with jobs := w.jobs.filter fun j => j.name ≠ name }

end PinWorld

def pinStep (name : String) (w : PinWorld) : PinEvent → Option PinWorld
  | .toggle pin => some { w with live := { w.live with pin } }
  | .sync => some { w with cached := w.live }
  | .pass =>
    if w.calls = [] then
      some { w with backup := w.cached, calls := (reconcilePin name w.cached w.job?).1 }
    else none
  | .call fresh => match w.calls with
    | [] => none
    | call :: rest => some { w.exec fresh call with calls := rest }
  | .crash => some { w with calls := [] }
  | .apply name manifest => (w.job? name).bind fun j =>
    if j.terminal = none ∧ j.op.snapshotId = w.manifest then
      some { w.setJob name fun j => { j with applied := true } with
        manifest, lastApplied := some j.op.pin }
    else none
  | .restamp name => (w.job? name).bind fun j =>
    if j.terminal = none ∧ j.applied then
      some { w with live := { w.live with kopiaSnapshotId := some w.manifest } }
    else none
  | .finish name => (w.job? name).bind fun j =>
    if j.terminal = none ∧ j.applied then
      some (w.setJob name fun j => { j with terminal := some true })
    else none
  | .fail name => (w.job? name).bind fun j =>
    if j.terminal = none then some (w.setJob name fun j => { j with terminal := some false })
    else none
  | .reap name => (w.job? name).bind fun j =>
    if j.terminal.isSome then some { w with jobs := w.jobs.filter fun j => j.name ≠ name }
    else none

/-- The Job's change will still be recorded: it took effect and no failure
hides that. -/
def PinJob.Reports (j : PinJob) : Prop := j.applied = true ∧ j.terminal ≠ some false

namespace PinWorld

/-- The reconcile has nothing left to do: it has seen the object as it is, and
a pass makes no call and comes back only at the steady pace. -/
def AtRest (name : String) (w : PinWorld) : Prop :=
  w.calls = [] ∧ w.cached = w.live ∧
    reconcilePin name w.cached w.job? = ([], terminalSnapshotSteadyRequeue)

/-- A change is lost where a Job that ended badly, or is gone, made it and
`status` does not show it. Such a change is not to be revoked: `spec.pin` asks
for it when the Job fails or is reaped, and keeps asking. -/
def Kept (w : PinWorld) : PinEvent → Prop
  | .toggle pin => w.kopiaPinned ≠ w.live.observed → (∀ j ∈ w.jobs, ¬ j.Reports) →
    pin = w.kopiaPinned
  | .fail _ | .reap _ => w.kopiaPinned ≠ w.live.observed → w.live.pin = w.kopiaPinned
  | .sync | .pass | .call _ | .crash | .apply .. | .restamp _ | .finish _ => True

/-- All that was applied is recorded, and no Job but a fresh one is there. -/
structure Settled (name : String) (w : PinWorld) : Prop where
  idle : w.calls = []
  synced : w.cached = w.live
  recorded : w.live.pinned = w.lastApplied
  jobs : w.jobs = [] ∨ ∃ j, w.jobs = [j] ∧ j.name ∈ lookedUp name ∧ j.target = some j.op.pin ∧
    j.terminal = none ∧ j.applied = false ∧ w.live.Announced

-- What holds in every run

/-- A Job that is about to be created: no other is there, and if the pass read
an outdated record the change is the one that is recorded already. -/
structure Launches (w : PinWorld) (op : SnapshotPinOp) : Prop where
  jobs : w.jobs = []
  lag : w.cached.observed ≠ w.live.observed → op.pin = w.live.observed

/-- The calls a pass can have left. -/
inductive Pending (name : String) (w : PinWorld) : List PinCall → Prop
  | none : Pending name w []
  | mark {op : SnapshotPinOp} (launch : w.Launches op) :
      Pending name w [.mark, .create (pinJobNames name).1 (pinTargetText op.pin) op]
  | create {op : SnapshotPinOp} (launch : w.Launches op) (announced : w.live.Announced) :
      Pending name w [.create (pinJobNames name).1 (pinTargetText op.pin) op]
  | record {t : Bool} (applied : w.lastApplied = some t)
      (jobs : ∀ j ∈ w.jobs, j.terminal = some true) : Pending name w [.record t]
  | markFailed (observed : Bool) : Pending name w [.markFailed observed]
  | delete (n : String) (jobs : ∀ j ∈ w.jobs, j.terminal.isSome ∧
      (j.terminal = some true → j.op.pin = w.live.observed)) : Pending name w [.delete n]

/-- A Job carries its direction, and what it applied is the last change. -/
structure Honest (name : String) (w : PinWorld) (j : PinJob) : Prop where
  found : j.name ∈ lookedUp name
  target : j.target = some j.op.pin
  applied : j.applied = true → w.lastApplied = some j.op.pin
  succeeded : j.terminal = some true → j.applied = true
  /-- A record that the informer has not seen is of this Job's direction. -/
  lag : w.cached.observed ≠ w.live.observed → j.op.pin = w.live.observed

structure Inv (name : String) (w : PinWorld) : Prop where
  single : w.jobs.length ≤ 1
  jobs : ∀ j ∈ w.jobs, w.Honest name j
  announced : w.jobs ≠ [] → w.live.Announced
  recorded : w.live.pinned.isSome → w.lastApplied.isSome
  calls : w.Pending name w.calls

variable {name : String} {w w' : PinWorld} {j : PinJob} {calls : List PinCall}

theorem job?_mem {n : String} (h : w.job? n = some j) : j ∈ w.jobs ∧ j.name = n :=
  ⟨List.mem_of_find?_eq_some h, by simpa using List.find?_some h⟩

theorem job?_none {names : List String} (h : ∀ n ∈ names, w.job? n = none)
    (hnames : ∀ j ∈ w.jobs, j.name ∈ names) : w.jobs = [] := by
  refine List.eq_nil_iff_forall_not_mem.mpr fun j hj => ?_
  simpa using List.find?_eq_none.mp (h j.name (hnames j hj)) j hj

theorem Settled.inv (h : Settled name w) : w.Inv name where
  single := by rcases h.jobs with hj | ⟨_, hj, -⟩ <;> simp [hj]
  jobs j hj := by
    rcases h.jobs with hjobs | ⟨j', hjobs, hfound, htarget, hrunning, hnot, -⟩
    · simp [hjobs] at hj
    · obtain rfl : j = j' := by simpa [hjobs] using hj
      exact
        { found := hfound
          target := htarget
          applied := by simp [hnot]
          succeeded := by simp [hrunning]
          lag := fun hlag => absurd (congrArg PinnedSnapshot.observed h.synced) hlag }
  announced hne := by
    rcases h.jobs with hjobs | ⟨_, -, -, -, -, -, hannounced⟩
    · exact absurd hjobs hne
    · exact hannounced
  recorded := by simp [h.recorded]
  calls := h.idle ▸ .none

theorem Inv.only (h : w.Inv name) {n : String} (hj : w.job? n = some j) : w.jobs = [j] := by
  have hmem := (job?_mem hj).1
  match hjobs : w.jobs, h.single with
  | [], _ => simp [hjobs] at hmem
  | [j'], _ => simpa [hjobs, eq_comm] using hmem

theorem Inv.setJob_jobs (h : w.Inv name) {n : String} (hj : w.job? n = some j)
    (f : PinJob → PinJob) : (w.setJob n f).jobs = [f j] := by
  simp [setJob, h.only hj, (job?_mem hj).2]

/-- Steps that create no Job and record nothing leave the pending calls in
order. -/
theorem Pending.keep (h : w.Pending name calls) (hjobs : w'.jobs ⊆ w.jobs)
    (happlied : w'.lastApplied = w.lastApplied)
    (hobserved : w'.live.observed = w.live.observed)
    (hlag : w'.cached.observed ≠ w'.live.observed → w.cached.observed ≠ w.live.observed)
    (hannounced : w.live.Announced → w'.live.Announced) : w'.Pending name calls := by
  have hlaunch : ∀ {op}, w.Launches op → w'.Launches op := fun h =>
    ⟨List.eq_nil_of_subset_nil (h.jobs ▸ hjobs), fun hl => hobserved ▸ h.lag (hlag hl)⟩
  cases h with
  | none => exact .none
  | mark launch => exact .mark (hlaunch launch)
  | create launch announced => exact .create (hlaunch launch) (hannounced announced)
  | record applied jobs => exact .record (happlied ▸ applied) fun j hj => jobs j (hjobs hj)
  | markFailed o => exact .markFailed o
  | delete n jobs => exact .delete n fun j hj => hobserved ▸ jobs j (hjobs hj)

theorem Pending.running (h : w.Pending name calls) (hj : j ∈ w.jobs) (hrun : j.terminal = .none) :
    w'.Pending name calls := by
  cases h with
  | none => exact .none
  | markFailed o => exact .markFailed o
  | mark launch => simp [launch.jobs] at hj
  | create launch => simp [launch.jobs] at hj
  | record _ jobs => simpa [hrun] using jobs j hj
  | delete n jobs => simpa [hrun] using (jobs j hj).1

theorem Inv.keep (h : w.Inv name) (hjobs : w'.jobs.Sublist w.jobs)
    (happlied : w'.lastApplied = w.lastApplied)
    (hpinned : w'.live.pinned = w.live.pinned)
    (hlag : w'.cached.observed ≠ w'.live.observed → w.cached.observed ≠ w.live.observed)
    (hannounced : w.live.Announced → w'.live.Announced)
    (hcalls : w'.calls = w.calls ∨ w'.calls = []) : w'.Inv name where
  single := hjobs.length_le.trans h.single
  jobs j hj := by
    have hold := h.jobs j (hjobs.subset hj)
    exact
      { found := hold.found
        target := hold.target
        applied := happlied ▸ hold.applied
        succeeded := hold.succeeded
        lag := fun hl => by
          rw [hold.lag (hlag hl), PinnedSnapshot.observed, PinnedSnapshot.observed, hpinned] }
  announced hne := hannounced <| h.announced fun hnil => hne <|
    List.eq_nil_of_subset_nil (hnil ▸ hjobs.subset)
  recorded := by rw [hpinned, happlied]; exact h.recorded
  calls := by
    rcases hcalls with hc | hc
    · rw [hc]
      refine h.calls.keep hjobs.subset happlied ?_ hlag hannounced
      rw [PinnedSnapshot.observed, PinnedSnapshot.observed, hpinned]
    · exact hc ▸ .none

theorem Inv.mover (h : w.Inv name) {n : String} (hj : w.job? n = some j) (hrun : j.terminal = none)
    {j' : PinJob} (hjobs : w'.jobs = [j']) (hname : j'.name = j.name)
    (hop : j'.op = j.op) (htarget : j'.pinTarget = j.pinTarget)
    (happlied : j'.applied = true → w'.lastApplied = some j.op.pin)
    (hsucceeded : j'.terminal = some true → j'.applied = true)
    (hlast : w.lastApplied.isSome → w'.lastApplied.isSome)
    (hlive : w'.live = w.live) (hcached : w'.cached = w.cached) (hcalls : w'.calls = w.calls) :
    w'.Inv name := by
  obtain ⟨hmem, -⟩ := job?_mem hj
  have hold := h.jobs j hmem
  refine
    { single := by simp [hjobs]
      jobs := fun j₁ hj₁ => ?_
      announced := fun _ => hlive ▸ h.announced (by simp [h.only hj])
      recorded := fun hp => hlast (h.recorded (hlive ▸ hp))
      calls := hcalls ▸ h.calls.running hmem hrun }
  obtain rfl : j₁ = j' := by simpa [hjobs] using hj₁
  exact
    { found := hname ▸ hold.found
      target := by rw [PinJob.target, htarget, hop]; exact hold.target
      applied := by rw [hop]; exact happlied
      succeeded := hsucceeded
      lag := by rw [hop, hcached, hlive]; exact hold.lag }

-- The steps

theorem announced_setCondition (w : PinWorld) (fresh : Bool) (status : ConditionStatus)
    (reason : String) : (w.setCondition fresh status reason).live.Announced := by
  refine .inr ?_
  simp only [setCondition, upsertConditionStatus]
  have hput := findCondition_put_same ⟨pinnedCondition, status, reason⟩
    (if fresh then w.live.conditions else w.backup.conditions)
  simp [hput]

theorem Launches.exec {op : SnapshotPinOp} (h : w.Launches op) (fresh : Bool) (n t : String) :
    w.exec fresh (.create n t op) = { w with jobs := [⟨n, some t, op, none, false⟩] } := by
  simp [PinWorld.exec, job?, h.jobs]

theorem Inv.call (h : w.Inv name) (fresh : Bool) {c : PinCall} {rest : List PinCall}
    (hcalls : w.calls = c :: rest) : { w.exec fresh c with calls := rest }.Inv name := by
  have hpending := h.calls
  rw [hcalls] at hpending
  cases hpending with
  | mark launch =>
    exact
      { single := h.single
        jobs := by simp [exec, setCondition, launch.jobs]
        announced := fun hne => absurd launch.jobs hne
        recorded := h.recorded
        calls := .create ⟨launch.jobs, launch.lag⟩ (announced_setCondition w fresh _ _) }
  | @create op launch announced =>
    rw [launch.exec]
    exact
      { single := by simp
        jobs := fun j hj => by
          obtain rfl := List.mem_singleton.mp hj
          exact ⟨by simp [lookedUp], by simp, by simp, by simp, launch.lag⟩
        announced := fun _ => announced
        recorded := h.recorded
        calls := .none }
  | @record t applied jobs =>
    exact
      { single := h.single
        jobs := fun j hj => by
          have hold := h.jobs j hj
          refine ⟨hold.found, hold.target, hold.applied, hold.succeeded, fun _ => ?_⟩
          have hlast := hold.applied (hold.succeeded (jobs j hj))
          simpa [exec, PinnedSnapshot.observed, eq_comm] using applied.symm.trans hlast
        announced := fun _ => .inl rfl
        recorded := fun _ => Option.isSome_iff_exists.mpr ⟨t, applied⟩
        calls := .none }
  | markFailed o =>
    exact h.keep (List.Sublist.refl _) rfl rfl id
      (fun _ => announced_setCondition w fresh _ _) (.inr rfl)
  | delete n jobs => exact h.keep List.filter_sublist rfl rfl id id (.inr rfl)

theorem Inv.pass (h : w.Inv name) :
    { w with backup := w.cached, calls := (reconcilePin name w.cached w.job?).1 }.Inv name := by
  refine ⟨h.single, fun j hj => ?_, h.announced, h.recorded, ?_⟩
  · have hold := h.jobs j hj
    exact ⟨hold.found, hold.target, hold.applied, hold.succeeded, hold.lag⟩
  dsimp only
  rcases reconcilePin_cases name w.cached w.job? with
    ⟨-, -, heq⟩ | ⟨n, -, j, hj, heq⟩ | ⟨hnone, heq⟩ <;> rw [heq]
  · exact .none
  · have hjobs := h.only hj
    have hold := h.jobs j (job?_mem hj).1
    rcases handlePinJob_cases w.cached n j (pinDecision w.cached.pin w.cached.pinned) with
      ⟨-, hcase⟩ | ⟨t, hok, htarget, hcase⟩ | ⟨hcase, hdone, hrecorded⟩ | ⟨-, hcase⟩ <;> rw [hcase]
    · exact .none
    · obtain rfl : t = j.op.pin := by simpa [htarget] using hold.target
      exact .record (hold.applied (hold.succeeded hok)) (by simp [hjobs, hok])
    · refine .delete n ?_
      simp only [hjobs, List.mem_singleton, forall_eq]
      refine ⟨hdone, fun hok => ?_⟩
      have hseen : w.cached.observed = j.op.pin := by
        simp [PinnedSnapshot.observed, hrecorded hok _ hold.target]
      by_cases hl : w.cached.observed = w.live.observed
      · exact hseen ▸ hl
      · exact hold.lag hl
    · exact .markFailed _
  · have hjobs := job?_none hnone fun j hj => (h.jobs j hj).found
    rcases launchPinJob_cases w.cached (pinJobNames name).1 with
      ⟨-, hcase⟩ | ⟨-, hcase⟩ | ⟨op, hop, hcase⟩
    · rw [hcase]; exact .none
    · rw [hcase]; exact .none
    · rw [hcase]
      refine .mark ⟨hjobs, fun hl => ?_⟩
      rw [hop]
      cases hc : w.cached.observed <;> simp_all

theorem pinStep_pass (h : pinStep name w .pass = some w') :
    w' = { w with backup := w.cached, calls := (reconcilePin name w.cached w.job?).1 } :=
  (Option.some.inj (Option.ite_none_right_eq_some.mp h).2).symm

theorem pinStep_call {fresh : Bool} (h : pinStep name w (.call fresh) = some w') :
    ∃ call rest, w.calls = call :: rest ∧ w' = { w.exec fresh call with calls := rest } := by
  unfold pinStep at h
  dsimp only at h
  split at h
  case h_1 => cases h
  case h_2 call rest hcalls => exact ⟨call, rest, hcalls, (Option.some.inj h).symm⟩

theorem Inv.step (h : w.Inv name) {e : PinEvent} (hstep : pinStep name w e = some w') :
    w'.Inv name := by
  cases e with
  | toggle pin =>
    cases hstep
    exact h.keep (List.Sublist.refl _) rfl rfl id id (.inl rfl)
  | sync =>
    cases hstep
    exact h.keep (List.Sublist.refl _) rfl rfl (fun hl => absurd rfl hl) id (.inl rfl)
  | pass =>
    obtain rfl := pinStep_pass hstep
    exact h.pass
  | call fresh =>
    obtain ⟨c, rest, hcalls, rfl⟩ := pinStep_call hstep
    exact h.call fresh hcalls
  | crash =>
    cases hstep
    exact h.keep (List.Sublist.refl _) rfl rfl id id (.inr rfl)
  | apply n id =>
    obtain ⟨j, hj, hstep⟩ := Option.bind_eq_some_iff.mp hstep
    simp only [Option.ite_none_right_eq_some] at hstep
    obtain ⟨⟨hrun, -⟩, ⟨⟩⟩ := hstep
    exact h.mover hj hrun (h.setJob_jobs hj _) rfl rfl rfl (fun _ => rfl)
      (by simp) (fun _ => rfl) rfl rfl rfl
  | restamp n =>
    obtain ⟨j, hj, hstep⟩ := Option.bind_eq_some_iff.mp hstep
    simp only [Option.ite_none_right_eq_some] at hstep
    obtain ⟨-, ⟨⟩⟩ := hstep
    exact h.keep (List.Sublist.refl _) rfl rfl id id (.inl rfl)
  | finish n =>
    obtain ⟨j, hj, hstep⟩ := Option.bind_eq_some_iff.mp hstep
    simp only [Option.ite_none_right_eq_some] at hstep
    obtain ⟨⟨hrun, happlied⟩, ⟨⟩⟩ := hstep
    exact h.mover hj hrun (h.setJob_jobs hj _) rfl rfl rfl
      (h.jobs j (job?_mem hj).1).applied (fun _ => happlied) id rfl rfl rfl
  | fail n =>
    obtain ⟨j, hj, hstep⟩ := Option.bind_eq_some_iff.mp hstep
    simp only [Option.ite_none_right_eq_some] at hstep
    obtain ⟨hrun, ⟨⟩⟩ := hstep
    exact h.mover hj hrun (h.setJob_jobs hj _) rfl rfl rfl
      (h.jobs j (job?_mem hj).1).applied (by simp) id rfl rfl rfl
  | reap n =>
    obtain ⟨j, hj, hstep⟩ := Option.bind_eq_some_iff.mp hstep
    simp only [Option.ite_none_right_eq_some] at hstep
    obtain ⟨-, ⟨⟩⟩ := hstep
    exact h.keep List.filter_sublist rfl rfl id id (.inl rfl)

/-- `status.pinned` changes only to what was applied last. -/
theorem Inv.records (h : w.Inv name) {e : PinEvent} (hstep : pinStep name w e = some w')
    (hne : w'.live.pinned ≠ w.live.pinned) : w'.live.pinned = w'.lastApplied := by
  cases e with
  | toggle pin => cases hstep; exact absurd rfl hne
  | sync => cases hstep; exact absurd rfl hne
  | crash => cases hstep; exact absurd rfl hne
  | pass =>
    obtain rfl := pinStep_pass hstep
    exact absurd rfl hne
  | call fresh =>
    obtain ⟨c, rest, hcalls, rfl⟩ := pinStep_call hstep
    have hpending := h.calls
    rw [hcalls] at hpending
    cases hpending with
    | record applied => exact applied.symm
    | mark | markFailed | delete => exact absurd rfl hne
    | create launch =>
      rw [launch.exec] at hne
      exact absurd rfl hne
  | apply n id | restamp n | finish n | fail n | reap n =>
    obtain ⟨j, -, hstep⟩ := Option.bind_eq_some_iff.mp hstep
    simp only [Option.ite_none_right_eq_some] at hstep
    obtain ⟨-, ⟨⟩⟩ := hstep
    exact absurd rfl hne

-- What is kept where no change is lost

/-- A change that `status` does not show is of a Job that will report it, or
`spec.pin` asks for it. -/
def Accounted (w : PinWorld) : Prop :=
  w.kopiaPinned ≠ w.live.observed → (∃ j ∈ w.jobs, j.Reports) ∨ w.live.pin = w.kopiaPinned

theorem Settled.accounted (h : Settled name w) : w.Accounted := fun hne =>
  absurd (by rw [kopiaPinned, PinnedSnapshot.observed, h.recorded]) hne

theorem Accounted.step (h : w.Accounted) (hinv : w.Inv name) {e : PinEvent} (hkept : w.Kept e)
    (hstep : pinStep name w e = some w') : w'.Accounted := by
  cases e with
  | toggle pin =>
    cases hstep
    intro hne
    by_cases hreports : ∃ j ∈ w.jobs, j.Reports
    · exact .inl hreports
    · exact .inr (hkept hne fun j hj hr => hreports ⟨j, hj, hr⟩)
  | sync | crash => cases hstep; exact h
  | pass =>
    obtain rfl := pinStep_pass hstep
    exact h
  | call fresh =>
    obtain ⟨c, rest, hcalls, rfl⟩ := pinStep_call hstep
    have hpending := hinv.calls
    rw [hcalls] at hpending
    cases hpending with
    | mark | markFailed => exact h
    | create launch =>
      rw [launch.exec]
      intro hne
      refine .inr ((h hne).resolve_left ?_)
      simp [launch.jobs]
    | @record t applied =>
      intro hne
      simp [exec, kopiaPinned, setCondition, applied, PinnedSnapshot.observed] at hne
    | delete n jobs =>
      -- A Job that reports and is deleted has its outcome in `status`.
      intro hne
      refine (h hne).elim ?_ .inr
      rintro ⟨j, hj, happlied, hfailed⟩
      obtain ⟨hdone, hrecorded⟩ := jobs j hj
      have hok : j.terminal = some true := by
        cases hterm : j.terminal with
        | none => simp [hterm] at hdone
        | some ok => cases ok <;> simp_all
      have hlast := (hinv.jobs j hj).applied happlied
      exact absurd (by simp [kopiaPinned, exec, hlast, hrecorded hok]) hne
  | apply n id =>
    obtain ⟨j, hj, hstep⟩ := Option.bind_eq_some_iff.mp hstep
    simp only [Option.ite_none_right_eq_some] at hstep
    obtain ⟨⟨hrun, -⟩, ⟨⟩⟩ := hstep
    exact fun _ => .inl ⟨{ j with applied := true }, by simp [hinv.setJob_jobs hj], rfl, by simp [hrun]⟩
  | restamp n =>
    obtain ⟨j, -, hstep⟩ := Option.bind_eq_some_iff.mp hstep
    simp only [Option.ite_none_right_eq_some] at hstep
    obtain ⟨-, ⟨⟩⟩ := hstep
    exact h
  | finish n =>
    obtain ⟨j, hj, hstep⟩ := Option.bind_eq_some_iff.mp hstep
    simp only [Option.ite_none_right_eq_some] at hstep
    obtain ⟨⟨-, happlied⟩, ⟨⟩⟩ := hstep
    exact fun _ => .inl ⟨{ j with terminal := some true }, by simp [hinv.setJob_jobs hj], happlied,
      by simp⟩
  | fail n | reap n =>
    obtain ⟨j, -, hstep⟩ := Option.bind_eq_some_iff.mp hstep
    simp only [Option.ite_none_right_eq_some] at hstep
    obtain ⟨-, ⟨⟩⟩ := hstep
    exact fun hne => .inr (hkept hne)

theorem Inv.rest (h : w.Inv name) (hrest : w.AtRest name) :
    w.jobs = [] ∧ w.live.pin = w.live.observed := by
  obtain ⟨-, hsync, hpass⟩ := hrest
  rw [hsync] at hpass
  rcases reconcilePin_cases name w.live w.job? with
    ⟨hnoop, hgate, -⟩ | ⟨n, -, j, -, heq⟩ | ⟨hnone, heq⟩
  · refine ⟨?_, pinDecision_noOp.mp hnoop⟩
    by_contra hne
    simp [(h.announced hne).mayExist] at hgate
  · -- A Job that is found means a call, or a pass within seconds.
    rw [heq] at hpass
    rcases handlePinJob_cases w.live n j (pinDecision w.live.pin w.live.pinned) with
      ⟨-, hcase⟩ | ⟨t, -, -, hcase⟩ | ⟨hcase, -⟩ | ⟨-, hcase⟩
    · rw [hcase] at hpass; cases hpass
    all_goals rw [hpass] at hcase; cases hcase
  · refine ⟨job?_none hnone fun j hj => (h.jobs j hj).found, ?_⟩
    rw [heq] at hpass
    rcases launchPinJob_cases w.live (pinJobNames name).1 with
      ⟨hnoop, -⟩ | ⟨-, hcase⟩ | ⟨op, -, hcase⟩
    · exact pinDecision_noOp.mp hnoop
    · rw [hcase] at hpass; cases hpass
    · rw [hpass] at hcase; cases hcase

end PinWorld

open PinWorld

theorem pin_inv {name : String} {start w : PinWorld} (hstart : Settled name start)
    {ok : PinWorld → PinEvent → Prop} (hrun : Reaches (pinStep name) ok start w) : w.Inv name :=
  hrun.invariant (Inv name) hstart.inv fun _ _ _ h _ hstep => h.step hstep

theorem pin_accounted {name : String} {start w : PinWorld} (hstart : Settled name start)
    (hrun : Reaches (pinStep name) Kept start w) : w.Inv name ∧ w.Accounted :=
  hrun.invariant (fun w => w.Inv name ∧ w.Accounted) ⟨hstart.inv, hstart.accounted⟩
    fun _ _ _ h hkept hstep => ⟨h.1.step hstep, h.2.step h.1 hkept hstep⟩

/-- There is one pin Job at most, and `status.pinned` is only set to the change
applied last. Where no change is lost that `spec.pin` does not ask for, it
stays so until a Job that reports applies the other one, and at rest the pin
is the wished one. -/
theorem pin_converges {name : String} {start : PinWorld} (hstart : Settled name start) :
    (∀ w, Reaches (pinStep name) (fun _ _ => True) start w → w.jobs.length ≤ 1 ∧
      ∀ e w', pinStep name w e = some w' → w'.live.pinned ≠ w.live.pinned →
        w'.live.pinned = w'.lastApplied) ∧
    ∀ w, Reaches (pinStep name) Kept start w →
      (∀ t, w.live.pinned = some t → w.lastApplied = some t ∨
        w.lastApplied = some (!t) ∧ ((∃ j ∈ w.jobs, j.Reports ∧ j.op.pin = !t) ∨ w.live.pin = !t)) ∧
      (w.AtRest name → w.kopiaPinned = w.live.pin) := by
  refine ⟨fun w hrun => ?_, fun w hrun => ?_⟩
  · have hinv := pin_inv hstart hrun
    exact ⟨hinv.single, fun e w' => hinv.records⟩
  obtain ⟨hinv, haccounted⟩ := pin_accounted hstart hrun
  refine ⟨fun t ht => ?_, fun hrest => ?_⟩
  · obtain ⟨last, hlast⟩ := Option.isSome_iff_exists.mp (hinv.recorded (by simp [ht]))
    by_cases heq : last = t
    · exact .inl (heq ▸ hlast)
    obtain rfl : last = !t := by cases last <;> cases t <;> simp_all
    refine .inr ⟨hlast, ?_⟩
    have hne : w.kopiaPinned ≠ w.live.observed := by
      simp [kopiaPinned, hlast, PinnedSnapshot.observed, ht]
    rcases haccounted hne with ⟨j, hj, hreports⟩ | hpin
    · have hj' := (hinv.jobs j hj).applied hreports.1
      exact .inl ⟨j, hj, hreports, by simpa [hlast, eq_comm] using hj'⟩
    · exact .inr (by simpa [kopiaPinned, hlast] using hpin)
  · obtain ⟨hjobs, hpin⟩ := hinv.rest hrest
    by_contra hne
    rcases haccounted (hpin ▸ hne) with ⟨j, hj, -⟩ | hwish
    · simp [hjobs] at hj
    · exact hne hwish.symm

instance : DecidablePred PinJob.Reports := fun j =>
  inferInstanceAs (Decidable (j.applied = true ∧ j.terminal ≠ some false))

instance (w : PinWorld) : DecidablePred w.Kept
  | .toggle _ => inferInstanceAs (Decidable (_ → _ → _))
  | .fail _ | .reap _ => inferInstanceAs (Decidable (_ → _))
  | .sync | .pass | .call _ | .crash | .apply .. | .restamp _ | .finish _ =>
    inferInstanceAs (Decidable True)

instance (name : String) (w : PinWorld) : Decidable (w.AtRest name) :=
  inferInstanceAs (Decidable (_ ∧ _ ∧ _))

def takenSnapshot : PinWorld :=
  let backup := { pin := false, pinned := none, conditions := [], kopiaSnapshotId := some "k1" }
  { live := backup, cached := backup, backup, calls := [], jobs := [], manifest := "k1",
    lastApplied := none }

theorem takenSnapshot_settled (name : String) : Settled name takenSnapshot :=
  ⟨rfl, rfl, rfl, .inl rfl⟩

def launchRun (pin : Bool) : List PinEvent := [.toggle pin, .sync, .pass, .call true, .call true]

def consumeRun : List PinEvent := [.pass, .call true, .sync, .pass, .call true]

/-- A Job makes its change, ends badly and is reaped, and the next one with the
same wish is recorded. -/
theorem pin_converges_retried : ∃ w, Reaches (pinStep "db") Kept takenSnapshot w ∧
    w.AtRest "db" ∧ w.live.pin = true ∧ w.kopiaPinned = true := by
  obtain ⟨w, hreach, hrest, hpin⟩ : ∃ w, Reaches (pinStep "db") Kept takenSnapshot w ∧
      w.AtRest "db" ∧ w.live.pin = true :=
    exists_reaches (launchRun true ++ [.apply "db-pin" "k2", .restamp "db-pin", .fail "db-pin",
      .pass, .call true, .reap "db-pin", .sync, .pass, .call true, .call true,
      .apply "db-pin" "k2", .finish "db-pin"] ++ consumeRun) (by decide)
  have hsame := ((pin_converges (takenSnapshot_settled "db")).2 w hreach).2 hrest
  exact ⟨w, hreach, hrest, hpin, hsame.trans hpin⟩

/-- Before an unpin is recorded `status.pinned` shows the pin, in a run that
loses nothing. And a Job that fails with its change made, for a wish that was
dropped, is deleted as stale: the snapshot stays pinned at rest. -/
theorem pin_diverges :
    (∃ w, Reaches (pinStep "db") Kept takenSnapshot w ∧ w.live.pinned = some true ∧
      w.lastApplied = some false) ∧
    ∃ w, Reaches (pinStep "db") (fun _ _ => True) takenSnapshot w ∧ w.AtRest "db" ∧
      w.live.pin = false ∧ w.kopiaPinned = true := by
  constructor
  · exact exists_reaches (launchRun true ++ [.apply "db-pin" "k2", .restamp "db-pin",
      .finish "db-pin"] ++ consumeRun ++ launchRun false ++ [.apply "db-pin" "k3"]) (by decide)
  · exact exists_reaches (launchRun true ++ [.apply "db-pin" "k2", .fail "db-pin", .toggle false,
      .sync, .pass, .call true]) (by decide)

end Kopiur
