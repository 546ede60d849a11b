import Kopiur.Controller.FinishedPasses

/-!
# The pin in passes over a Snapshot whose run is over

What a pass has to write, and how far the calls of its pin reconcile bring the
pin.
-/

namespace Kopiur

namespace FinishedSnapshot

variable (env : FinishedInputs) (backup : FinishedSnapshot)

def noted (type : String) (status : ConditionStatus) (reason message : String) : Bool :=
  (StatusCondition.find backup.conditions type).any fun c => c.status == status &&
    c.reason == reason && c.message == message && c.observedGeneration == backup.generation

def newlyIncomplete : Bool :=
  decide (0 < backup.filesFailed) && !backup.noted securityContextCompatibleCondition .false
    snapshotIncompleteReason (incompleteMessage backup.filesFailed)

def newHookFailure : Bool :=
  match backup.postHooks env with
  | some (.ok (some message)) =>
    !backup.noted hooksSucceededCondition .false postHookFailedReason message
  | some (.ok none) | some (.error _) | none => false

def hooksPass : Bool :=
  match backup.postHooks env with
  | none | some (.ok none) => true
  | some (.ok (some _)) | some (.error _) => false

def reachesPin : Bool :=
  backup.phase == some .succeeded && backup.hooksPass env &&
    (!backup.staged || (env.stagedTeardownReady && env.stagedCleanedUp)) &&
    (backup.backfillProjectionPin env).isOk

end FinishedSnapshot

namespace FinishedWorld

variable (env : FinishedInputs) (w : FinishedWorld)

def queue : List PinJob :=
  ((pinJobNames w.backup.name).2.toList ++ [(pinJobNames w.backup.name).1]).filterMap w.getJob

end FinishedWorld

section Pins

variable (env : FinishedInputs) (desired known : Bool)

/-- The pin reconcile has something to write: a launch, an outcome that is not
recorded, or a failure of a Job that is still wanted. -/
def pinNews (observed : Option Bool) : List PinJob → Bool
  | [] => pinDecision desired observed != .noOp && known && env.pinLaunch != .unresolved
  | j :: _ => match j.terminal with
    | none => false
    | some true => j.target.any fun t => observed != some t
    | some false => pinJobStillWanted j.target (pinDecision desired observed)

/-- No failed Job that is still wanted is left once those ahead of it are
consumed, and no launch is rejected. -/
def pinSettles (observed : Option Bool) : List PinJob → Bool
  | [] => pinDecision desired observed == .noOp || !known || env.pinLaunch != .rejected
  | j :: rest => match j.terminal with
    | none => true
    | some true => pinSettles (j.target <|> observed) rest
    | some false => !pinJobStillWanted j.target (pinDecision desired observed) &&
      pinSettles observed rest

/-- How many passes the pin takes. -/
def pinSteps (observed : Option Bool) : List PinJob → Nat
  | [] =>
    if pinDecision desired observed = .noOp ∨ known = false ∨ env.pinLaunch ≠ .admitted then 0
    else 1
  | j :: rest => match j.terminal with
    | none => 0
    | some true => match j.target with
      | some t => (if observed = some t then 0 else 1) + 1 + pinSteps (some t) rest
      | none => 1 + pinSteps observed rest
    | some false =>
      if pinJobStillWanted j.target (pinDecision desired observed) then 0
      else 1 + pinSteps observed rest

end Pins

namespace FinishedWorld

variable (env : FinishedInputs) (w : FinishedWorld)

def pinWrites : Bool :=
  w.backup.reachesPin env && w.backup.pinView.pinJobMayExist &&
    pinNews env w.backup.pin w.backup.kopiaSnapshotId.isSome w.backup.pinned w.queue

/-- A successful run does not get its Ready condition and its first note of
skipped entries in one pass, nor one of these and news of the pin when the
conditions cannot be read again; a failed run that is not yet Stalled has no
new hook failure. -/
def KeepsWrites : Bool :=
  match runDecision w.backup.phase with
  | .succeededSteadyState =>
    !w.backup.hooksPass env ||
      ((w.backup.ready || !w.backup.newlyIncomplete) &&
        (env.freshRead || !w.pinWrites env || (w.backup.ready && !w.backup.newlyIncomplete)))
  | .terminalFailed => w.backup.snapshotStalled || !w.backup.newHookFailure env
  | .run | .wait => true

/-- Where the pin is reconciled, no failed pin Job stays and no launch is
rejected. -/
def PinSettles : Bool :=
  !w.backup.reachesPin env || !w.backup.pinView.pinJobMayExist ||
    pinSettles env w.backup.pin w.backup.kopiaSnapshotId.isSome w.backup.pinned w.queue

end FinishedWorld

section Calls

variable {env : FinishedInputs} {w : FinishedWorld} {now : DateTime}

/-- The calls for the first Job of the queue, or for none. -/
def queueCalls (env : FinishedInputs) (backup : FinishedSnapshot) : List PinJob → List PinCall
  | [] => FinishedSnapshot.pinCalls env
      (launchPinJob backup.pinView (pinJobNames backup.name).1
        (pinDecision backup.pin backup.pinned)).1
  | j :: _ =>
    (handlePinJob backup.pinView j.name j (pinDecision backup.pin backup.pinned)).1

theorem getJob_name {n : String} {j : PinJob} (h : w.getJob n = some j) : j.name = n := by
  simpa using List.find?_some h

theorem pinDecision_of_closed {backup : PinnedSnapshot} (h : backup.pinJobMayExist = false) :
    pinDecision backup.pin backup.pinned = .noOp := by
  simp only [PinnedSnapshot.pinJobMayExist, Bool.or_eq_false_iff] at h
  obtain ⟨⟨hpin, hpinned⟩, -⟩ := h
  cases hp : backup.pinned with
  | none => rw [hpin]; rfl
  | some t => simp [hp] at hpinned

theorem pinCalls_handlePinJob (backup : PinnedSnapshot) (n : String) (j : PinJob)
    (action : PinAction) : FinishedSnapshot.pinCalls env (handlePinJob backup n j action).1 =
      (handlePinJob backup n j action).1 := by
  rcases handlePinJob_cases backup n j action with ⟨-, h⟩ | ⟨t, -, -, h⟩ | ⟨h, -⟩ | ⟨-, h⟩ <;>
    rw [h] <;> rfl

theorem pinCalls_queue : FinishedSnapshot.pinCalls env
    (reconcilePin w.backup.name w.backup.pinView w.getJob).1 =
      if w.backup.pinView.pinJobMayExist then queueCalls env w.backup w.queue else [] := by
  unfold reconcilePin
  rcases hnames : pinJobNames w.backup.name with ⟨current, legacy⟩
  by_cases hopen : w.backup.pinView.pinJobMayExist = true
  · have hqueue : w.queue = (legacy.toList ++ [current]).filterMap w.getJob := by
      rw [FinishedWorld.queue, hnames]
    simp only [hopen, Bool.not_true, Bool.false_eq_true, and_false, if_false, if_true]
    rw [hqueue]
    cases legacy with
    | none =>
      cases hjob : w.getJob current with
      | none => simp [hjob, queueCalls, hnames]; rfl
      | some j =>
        simp only [Option.bind_none, Option.toList_none, List.nil_append, List.filterMap_cons,
          hjob, List.filterMap_nil, queueCalls, getJob_name hjob]
        exact pinCalls_handlePinJob ..
    | some l =>
      cases hlegacy : w.getJob l with
      | some j =>
        simp only [Option.bind_some, hlegacy, Option.map_some, Option.toList_some,
          List.cons_append, List.filterMap_cons, queueCalls, getJob_name hlegacy]
        exact pinCalls_handlePinJob ..
      | none =>
        cases hjob : w.getJob current with
        | none => simp [hlegacy, hjob, queueCalls, hnames]; rfl
        | some j =>
          simp only [Option.bind_some, hlegacy, Option.map_none, Option.toList_some,
            List.cons_append, List.nil_append, List.filterMap_cons, hjob, List.filterMap_nil,
            queueCalls, getJob_name hjob]
          exact pinCalls_handlePinJob ..
  · rw [Bool.not_eq_true] at hopen
    have haction := pinDecision_of_closed hopen
    simp [hopen, haction, FinishedSnapshot.pinCalls]

/-- The calls for a queue, by what its first Job asks for. -/
inductive QueueStep (env : FinishedInputs) (backup : FinishedSnapshot) :
    List PinJob → List PinCall → Prop
  | running {j : PinJob} {rest : List PinJob} (running : j.terminal = none) :
      QueueStep env backup (j :: rest) []
  | record {j : PinJob} {rest : List PinJob} {t : Bool} (done : j.terminal = some true)
      (target : j.target = some t) (news : backup.pinned ≠ some t) :
      QueueStep env backup (j :: rest) [.record t]
  | consume {j : PinJob} {rest : List PinJob} (done : j.terminal = some true)
      (recorded : ∀ t, j.target = some t → backup.pinned = some t) :
      QueueStep env backup (j :: rest) [.delete j.name]
  | stale {j : PinJob} {rest : List PinJob} (failed : j.terminal = some false)
      (stale : pinJobStillWanted j.target (pinDecision backup.pin backup.pinned) = false) :
      QueueStep env backup (j :: rest) [.delete j.name]
  | wanted {j : PinJob} {rest : List PinJob} (failed : j.terminal = some false)
      (wanted : pinJobStillWanted j.target (pinDecision backup.pin backup.pinned) = true) :
      QueueStep env backup (j :: rest) [.markFailed (backup.pinned.getD false)]
  | idle (idle : pinDecision backup.pin backup.pinned = .noOp ∨ backup.kopiaSnapshotId = none ∨
      env.pinLaunch = .unresolved) : QueueStep env backup [] []
  | rejected {id : String} (action : pinDecision backup.pin backup.pinned ≠ .noOp)
      (known : backup.kopiaSnapshotId = some id) (launch : env.pinLaunch = .rejected) :
      QueueStep env backup [] [.mark]
  | launch {id target : String} {op : SnapshotPinOp}
      (action : pinDecision backup.pin backup.pinned ≠ .noOp)
      (known : backup.kopiaSnapshotId = some id) (launch : env.pinLaunch = .admitted) :
      QueueStep env backup [] [.mark, .create (pinJobNames backup.name).1 target op]

theorem queueCalls_step (env : FinishedInputs) (backup : FinishedSnapshot)
    (queue : List PinJob) : QueueStep env backup queue (queueCalls env backup queue) := by
  cases queue with
  | nil =>
    simp only [queueCalls, launchPinJob, FinishedSnapshot.pinView]
    by_cases haction : pinDecision backup.pin backup.pinned = .noOp
    · simp only [haction, if_true, FinishedSnapshot.pinCalls]
      exact .idle (.inl haction)
    · simp only [haction, if_false]
      cases hid : backup.kopiaSnapshotId with
      | none => exact .idle (.inr (.inl hid))
      | some id =>
        cases hlaunch : env.pinLaunch with
        | unresolved =>
          simp only [FinishedSnapshot.pinCalls, hlaunch]
          exact .idle (.inr (.inr hlaunch))
        | rejected =>
          simp only [FinishedSnapshot.pinCalls, hlaunch]
          exact .rejected haction hid hlaunch
        | admitted =>
          simp only [FinishedSnapshot.pinCalls, hlaunch]
          exact .launch haction hid hlaunch
  | cons j rest =>
    simp only [queueCalls, handlePinJob, FinishedSnapshot.pinView]
    cases hterminal : j.terminal with
    | none => exact .running hterminal
    | some ok =>
      cases ok with
      | true =>
        cases htarget : j.target with
        | none => exact .consume hterminal (by simp [htarget])
        | some t =>
          by_cases hnews : backup.pinned = some t
          · simp only [hnews, ne_eq, not_true_eq_false, if_false]
            refine .consume hterminal fun t' ht' => ?_
            rw [hnews, ← ht', htarget]
          · simp only [ne_eq, hnews, not_false_eq_true, if_true]
            exact .record hterminal htarget hnews
      | false =>
        cases hwanted : pinJobStillWanted j.target (pinDecision backup.pin backup.pinned) with
        | true => exact .wanted hterminal hwanted
        | false => exact .stale hterminal hwanted

variable {w' : FinishedWorld} {j : PinJob} {rest : List PinJob}

theorem pinJobNames_ne {name legacy : String} (h : (pinJobNames name).2 = some legacy) :
    legacy ≠ (pinJobNames name).1 := by
  simp only [pinJobNames, legacyJobName, Option.ite_none_right_eq_some] at h ⊢
  obtain ⟨⟨hne, -⟩, ⟨⟩⟩ := h
  exact hne

theorem getJob_delete {gone : String}
    (hjobs : w'.jobs = w.jobs.filter fun x => x.name ≠ gone) (n : String) :
    w'.getJob n = if n = gone then none else w.getJob n := by
  simp only [FinishedWorld.getJob, hjobs, List.find?_filter]
  split
  · next h => simp [List.find?_eq_none, h]
  · next h =>
    congr 1
    funext x
    by_cases hx : x.name = n <;> simp [hx, h]

theorem queue_delete (hq : w.queue = j :: rest) (hname : w'.backup.name = w.backup.name)
    (hjobs : w'.jobs = w.jobs.filter fun x => x.name ≠ j.name) : w'.queue = rest := by
  simp only [FinishedWorld.queue, hname] at hq ⊢
  cases hlegacy : (pinJobNames w.backup.name).2 with
  | none =>
    cases hcurrent : w.getJob (pinJobNames w.backup.name).1 with
    | none => simp [hlegacy, hcurrent] at hq
    | some j' =>
      simp only [hlegacy, Option.toList_none, List.nil_append, List.filterMap_cons, hcurrent,
        List.filterMap_nil, List.cons.injEq] at hq
      obtain ⟨rfl, rfl⟩ := hq
      simp [getJob_delete hjobs, getJob_name hcurrent]
  | some l =>
    have hne := pinJobNames_ne hlegacy
    cases hold : w.getJob l with
    | some j' =>
      simp only [hlegacy, Option.toList_some, List.cons_append, List.nil_append,
        List.filterMap_cons, hold, List.cons.injEq] at hq
      obtain ⟨rfl, rfl⟩ := hq
      simp [getJob_delete hjobs, getJob_name hold, List.filterMap_cons, Ne.symm hne]
    | none =>
      cases hcurrent : w.getJob (pinJobNames w.backup.name).1 with
      | none => simp [hlegacy, hold, hcurrent] at hq
      | some j' =>
        simp only [hlegacy, Option.toList_some, List.cons_append, List.nil_append,
          List.filterMap_cons, hold, hcurrent, List.filterMap_nil, List.cons.injEq] at hq
        obtain ⟨rfl, rfl⟩ := hq
        simp [getJob_delete hjobs, getJob_name hcurrent, hold]

theorem queue_create (hq : w.queue = []) (hname : w'.backup.name = w.backup.name)
    (hjobs : w'.jobs = w.jobs ++ [j]) (hj : j.name = (pinJobNames w.backup.name).1) :
    w'.queue = [j] := by
  have hget : ∀ n, w.getJob n = none → w'.getJob n = if j.name = n then some j else none := by
    rintro n hn
    rw [FinishedWorld.getJob] at hn
    simp only [FinishedWorld.getJob, hjobs, List.find?_append, hn, Option.none_or,
      List.find?_cons, List.find?_nil]
    by_cases hjn : j.name = n
    · simp [hjn]
    · rw [if_neg hjn, beq_eq_false_iff_ne.mpr hjn]
  simp only [FinishedWorld.queue, List.filterMap_eq_nil_iff] at hq
  have hcurrent := hget _ (hq (pinJobNames w.backup.name).1 (by simp))
  simp only [FinishedWorld.queue, hname]
  cases hlegacy : (pinJobNames w.backup.name).2 with
  | none => simp [hcurrent, hj]
  | some l =>
    have hold := hget l (hq l (by simp [hlegacy]))
    have hne : j.name ≠ l := hj ▸ Ne.symm (pinJobNames_ne hlegacy)
    simp [hcurrent, hold, hj, hj ▸ hne]

theorem queue_same (hname : w'.backup.name = w.backup.name) (hjobs : w'.jobs = w.jobs) :
    w'.queue = w.queue := by
  have hget : w'.getJob = w.getJob := by
    funext n
    rw [FinishedWorld.getJob, hjobs, FinishedWorld.getJob]
  rw [FinishedWorld.queue, FinishedWorld.queue, hname, hget]

def PinCall.recorded : PinCall → Option Bool
  | .record t => some t
  | .mark | .create .. | .markFailed _ | .delete _ => none

def PinCall.writes : PinCall → Bool
  | .mark | .record _ | .markFailed _ => true
  | .create .. | .delete _ => false

variable {calls : List PinCall}

theorem QueueStep.news {backup : FinishedSnapshot} {queue : List PinJob}
    (h : QueueStep env backup queue calls) :
    pinNews env backup.pin backup.kopiaSnapshotId.isSome backup.pinned queue =
      calls.any PinCall.writes := by
  cases h with
  | running hrunning => simp [pinNews, hrunning]
  | record hdone htarget hnews => simp [pinNews, hdone, htarget, hnews, PinCall.writes]
  | @consume j rest hdone hrecorded =>
    cases htarget : j.target with
    | none => simp [pinNews, hdone, htarget, PinCall.writes]
    | some t => simp [pinNews, hdone, htarget, hrecorded t htarget, PinCall.writes]
  | stale hfailed hstale => simp [pinNews, hfailed, hstale, PinCall.writes]
  | wanted hfailed hwanted => simp [pinNews, hfailed, hwanted, PinCall.writes]
  | idle hidle => rcases hidle with hidle | hidle | hidle <;> simp [pinNews, hidle]
  | rejected haction hknown hlaunch =>
    simp [pinNews, haction, hknown, hlaunch, PinCall.writes]
  | launch haction hknown hlaunch => simp [pinNews, haction, hknown, hlaunch, PinCall.writes]

/-- A pass carried out these calls of the pin. -/
structure Pinned (w w' : FinishedWorld) (calls : List PinCall) : Prop where
  name : w'.backup.name = w.backup.name
  pin : w'.backup.pin = w.backup.pin
  known : w'.backup.kopiaSnapshotId = w.backup.kopiaSnapshotId
  pinned : w'.backup.pinned = (calls.findSome? PinCall.recorded <|> w.backup.pinned)
  jobs : w'.jobs = calls.foldl FinishedWorld.exec w.jobs

def FinishedWorld.pinSettles (env : FinishedInputs) (w : FinishedWorld) : Bool :=
  Kopiur.pinSettles env w.backup.pin w.backup.kopiaSnapshotId.isSome w.backup.pinned w.queue

def FinishedWorld.pinSteps (env : FinishedInputs) (w : FinishedWorld) : Nat :=
  Kopiur.pinSteps env w.backup.pin w.backup.kopiaSnapshotId.isSome w.backup.pinned w.queue

theorem or_of_recorded {j : PinJob} {pinned : Option Bool}
    (h : ∀ t, j.target = some t → pinned = some t) : (j.target <|> pinned) = pinned := by
  cases htarget : j.target with
  | none => rfl
  | some t => exact (h t htarget).symm

/-- The calls of a pass leave open whether the pin settles, and where it does
they bring it closer. -/
theorem Pinned.progress (h : Pinned w w' calls) (hstep : QueueStep env w.backup w.queue calls) :
    w'.pinSettles env = w.pinSettles env ∧
      (w.pinSettles env = true → calls = [] ∨ w'.pinSteps env < w.pinSteps env) ∧
      (w.pinSettles env = false → (∃ c ∈ calls, c.writes = true) ∨
        w'.queue.length < w.queue.length) := by
  have hpinned := h.pinned
  simp only [FinishedWorld.pinSettles, FinishedWorld.pinSteps, h.pin, h.known]
  generalize hq : w.queue = queue at hstep ⊢
  cases hstep with
  | @running j rest hrunning =>
    rw [queue_same h.name h.jobs, hq, show w'.backup.pinned = w.backup.pinned from hpinned]
    exact ⟨rfl, fun _ => .inl rfl, by simp [pinSettles, hrunning]⟩
  | @record j rest t hdone htarget hnews =>
    rw [queue_same h.name h.jobs, hq, show w'.backup.pinned = some t from hpinned]
    refine ⟨by simp [pinSettles, hdone, htarget], fun _ => .inr ?_, fun _ => .inl ?_⟩
    · simp [pinSteps, hdone, htarget, hnews]
    · exact ⟨.record t, List.mem_singleton_self _, rfl⟩
  | @consume j rest hdone hrecorded =>
    rw [queue_delete hq h.name h.jobs, show w'.backup.pinned = w.backup.pinned from hpinned]
    refine ⟨?_, fun _ => .inr ?_, fun _ => .inr (by simp)⟩
    · rw [pinSettles, hdone]
      dsimp only
      rw [or_of_recorded hrecorded]
    · cases htarget : j.target with
      | none => simp [pinSteps, hdone, htarget]
      | some t => simp [pinSteps, hdone, htarget, hrecorded t htarget]
  | @stale j rest hfailed hstale =>
    rw [queue_delete hq h.name h.jobs, show w'.backup.pinned = w.backup.pinned from hpinned]
    exact ⟨by simp [pinSettles, hfailed, hstale],
      fun _ => .inr (by simp [pinSteps, hfailed, hstale]), fun _ => .inr (by simp)⟩
  | @wanted j rest hfailed hwanted =>
    rw [queue_same h.name h.jobs, hq, show w'.backup.pinned = w.backup.pinned from hpinned]
    refine ⟨rfl, fun hsettles => ?_, fun _ => .inl ⟨_, List.mem_singleton_self _, rfl⟩⟩
    simp [pinSettles, hfailed, hwanted] at hsettles
  | idle hidle =>
    rw [queue_same h.name h.jobs, hq, show w'.backup.pinned = w.backup.pinned from hpinned]
    refine ⟨rfl, fun _ => .inl rfl, fun hsettles => ?_⟩
    rcases hidle with hidle | hidle | hidle <;> simp [pinSettles, hidle] at hsettles
  | rejected haction hknown hlaunch =>
    rw [queue_same h.name h.jobs, hq, show w'.backup.pinned = w.backup.pinned from hpinned]
    refine ⟨rfl, fun hsettles => ?_, fun _ => .inl ⟨_, List.mem_singleton_self _, rfl⟩⟩
    simp [pinSettles, haction, hknown, hlaunch] at hsettles
  | @launch id target op haction hknown hlaunch =>
    rw [queue_create hq h.name h.jobs rfl,
      show w'.backup.pinned = w.backup.pinned from hpinned]
    refine ⟨by simp [pinSettles, hlaunch], fun _ => .inr ?_, fun hsettles => ?_⟩
    · simp [pinSteps, haction, hknown, hlaunch]
    · simp [pinSettles, hlaunch] at hsettles

end Calls

end Kopiur
