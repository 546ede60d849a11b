import Mathlib.Algebra.Order.BigOperators.Group.Finset
import Kopiur.Ui.SessionPoolRuns

/-!
# Browse sessions drain

Whoever waits for a permit waits for a call that goes on. So the calls end by
themselves once no new one comes, and every permit is back.
-/

namespace Kopiur.Ui

open Kopiur.Lib SessionPool

/-- How many steps a call has left at most. -/
def EnsurePhase.left : EnsurePhase → Nat
  | .called _ => 6
  | .locking _ => 5
  | .looking _ => 4
  | .starting _ => 3
  | .creating _ => 2
  | .leaving _ => 1

def ExecPhase.left : ExecPhase → Nat
  | .admitted => 5
  | .keyed _ => 4
  | .holding _ => 3
  | .dropping _ => 2
  | .returned _ | .refused => 1

def ensureLeft (c : Option EnsureCall) : Nat := c.elim 0 fun c => c.phase.left

def execLeft (e : Option ExecCall) : Nat := e.elim 0 fun e => e.phase.left

def SessionPool.left (p : SessionPool) : Nat :=
  ∑ i ∈ Finset.range p.nextCall, (ensureLeft (p.ensures i) + execLeft (p.execs i))

def PoolEvent.isNew : PoolEvent → Bool
  | .ensure _ | .exec _ => true
  | _ => false

def PoolEvent.isCancel : PoolEvent → Bool
  | .cancel _ => true
  | _ => false

structure SessionPool.Drained (limits : SessionLimits) (p : SessionPool) : Prop where
  ensures : ∀ i, p.ensures i = none
  execs : ∀ i, p.execs i = none
  starts : p.starts.available = limits.maxStarts
  locks : ∀ l, (p.locks l).available = 1
  global : p.execGlobal.available = limits.maxExecGlobal
  sems : ∀ s, (p.sems s).permits.available = limits.maxExecPerIdentity

variable {limits : SessionLimits} {p p' : SessionPool} {i : Nat} {a : PoolEvent}

-- Every step brings one call nearer to its end

theorem ensure_moves (ha : a.onEnsure = true) (hnew : a.isNew = false)
    (hs : poolStep limits p a = some p') : ∃ i c c', p.ensures i = some c ∧
      p'.ensures = Function.update p.ensures i c' ∧ ensureLeft c' < c.phase.left ∧
      p'.execs = p.execs ∧ p'.nextCall = p.nextCall := by
  cases a with
  | lock i | unlock i | created i | cancel i =>
    obtain ⟨⟨key, phase⟩, hi, hs⟩ := Option.bind_eq_some_iff.mp hs
    cases phase <;> cases hs <;>
      exact ⟨i, _, _, hi, rfl, by simp [ensureLeft, EnsurePhase.left], rfl, rfl⟩
  | locked i | permitted i =>
    obtain ⟨⟨key, phase⟩, hi, hs⟩ := Option.bind_eq_some_iff.mp hs
    cases phase <;> try cases hs
    obtain ⟨-, hs⟩ := Option.ite_none_right_eq_some.mp hs
    cases hs
    exact ⟨i, _, _, hi, rfl, by simp [ensureLeft, EnsurePhase.left], rfl, rfl⟩
  | looked i missed =>
    obtain ⟨⟨key, phase⟩, hi, hs⟩ := Option.bind_eq_some_iff.mp hs
    cases phase <;> try cases hs
    cases missed <;> cases hs <;>
      exact ⟨i, _, _, hi, rfl, by simp [ensureLeft, EnsurePhase.left], rfl, rfl⟩
  | ensure key => cases hnew
  | exec | key | take | giveBack | drop | dropUser | dropHandle => cases ha

theorem exec_moves (ha : a.onEnsure = false) (hnew : a.isNew = false)
    (hs : poolStep limits p a = some p') : ∃ i e e', p.execs i = some e ∧
      p'.execs = Function.update p.execs i e' ∧ execLeft e' < e.phase.left ∧
      p'.ensures = p.ensures ∧ p'.nextCall = p.nextCall := by
  cases a with
  | key i =>
    obtain ⟨⟨user, phase⟩, hi, hs⟩ := Option.bind_eq_some_iff.mp hs
    cases phase with
    | admitted =>
      obtain ⟨-, -, -, hensures, hexecs, hnext⟩ := @identitySemaphore_frame limits p user
      dsimp only at hs
      generalize p.identitySemaphore limits user = q at *
      obtain ⟨q, s⟩ := q
      obtain rfl := Option.some.inj hs
      refine ⟨i, _, some ⟨user, .keyed s⟩, hi, ?_, by simp [execLeft, ExecPhase.left],
        hensures, hnext⟩
      rw [← hexecs]
      rfl
    | _ => cases hs
  | take i =>
    obtain ⟨user, s, hi, ⟨permits, -, rfl⟩ | ⟨-, rfl⟩⟩ := poolStep_take hs
    · exact ⟨i, _, _, hi, rfl, by simp [execLeft, ExecPhase.left], rfl, rfl⟩
    · exact ⟨i, _, _, hi, rfl, by simp [execLeft, ExecPhase.left], rfl, rfl⟩
  | giveBack i | drop i | dropUser i | dropHandle i =>
    obtain ⟨⟨user, phase⟩, hi, hs⟩ := Option.bind_eq_some_iff.mp hs
    cases phase <;> cases hs
    exact ⟨i, _, _, hi, rfl, by simp [execLeft, ExecPhase.left], rfl, rfl⟩
  | exec user => cases hnew
  | _ => cases ha

theorem PoolInv.left_step (h : PoolInv limits p) (hnew : a.isNew = false)
    (hs : poolStep limits p a = some p') : p'.left < p.left := by
  -- one summand falls, the others stay
  have hsum : p'.nextCall = p.nextCall → ∀ i, i < p.nextCall →
      ensureLeft (p'.ensures i) + execLeft (p'.execs i) <
        ensureLeft (p.ensures i) + execLeft (p.execs i) →
      (∀ j, j ≠ i → p'.ensures j = p.ensures j ∧ p'.execs j = p.execs j) → p'.left < p.left := by
    intro hnext i hi hlt hother
    rw [SessionPool.left, SessionPool.left, hnext]
    refine Finset.sum_lt_sum (fun j _ => ?_) ⟨i, Finset.mem_range.mpr hi, hlt⟩
    by_cases hj : j = i
    · exact hj ▸ hlt.le
    · rw [(hother j hj).1, (hother j hj).2]
  cases ha : a.onEnsure with
  | true =>
    obtain ⟨i, c, c', hi, hensures, hlt, hexecs, hnext⟩ := ensure_moves ha hnew hs
    have hold : i < p.nextCall := by
      by_contra hge
      cases (h.ensure.fresh i (Nat.le_of_not_lt hge)).symm.trans hi
    refine hsum hnext i hold ?_ fun j hj => ⟨?_, by rw [hexecs]⟩
    · rw [hensures, hexecs, Function.update_self, hi]
      exact Nat.add_lt_add_right hlt _
    · rw [hensures, Function.update_of_ne hj]
  | false =>
    obtain ⟨i, e, e', hi, hexecs, hlt, hensures, hnext⟩ := exec_moves ha hnew hs
    have hold : i < p.nextCall := by
      by_contra hge
      cases (h.exec.fresh i (Nat.le_of_not_lt hge)).symm.trans hi
    refine hsum hnext i hold ?_ fun j hj => ⟨by rw [hensures], ?_⟩
    · rw [hexecs, hensures, Function.update_self, hi]
      exact Nat.add_lt_add_left hlt _
    · rw [hexecs, Function.update_of_ne hj]

theorem PoolInv.left_run (h : PoolInv limits p) {events : List PoolEvent}
    (hrun : runSteps (poolStep limits) (fun _ a => a.isNew = false) p events = some p') :
    events.length + p'.left ≤ p.left := by
  induction events generalizing p with
  | nil =>
    cases hrun
    simp
  | cons a rest ih =>
    obtain ⟨hnew, hrun⟩ := Option.ite_none_right_eq_some.mp hrun
    obtain ⟨q, hs, hrest⟩ := Option.bind_eq_some_iff.mp hrun
    have hq := ih (h.step hs) hrest
    have hlt := h.left_step hnew hs
    simp only [List.length_cons]
    omega

-- Nothing waits for ever

section Stuck

variable (hstuck : ∀ a : PoolEvent, a.isNew = false → a.isCancel = false → poolStep limits p a = none)

include hstuck

theorem execs_over (i : Nat) : p.execs i = none := by
  cases hi : p.execs i with
  | none => rfl
  | some e =>
    obtain ⟨user, phase⟩ := e
    exfalso
    cases phase with
    | admitted => simpa [poolStep, hi] using hstuck (.key i) rfl rfl
    | keyed s =>
      have hnone := hstuck (.take i) rfl rfl
      simp only [poolStep, hi, Option.bind_some] at hnone
      split at hnone <;> cases hnone
    | holding s => simpa [poolStep, hi] using hstuck (.drop i) rfl rfl
    | refused => simpa [poolStep, hi] using hstuck (.giveBack i) rfl rfl
    | dropping s => simpa [poolStep, hi] using hstuck (.dropUser i) rfl rfl
    | returned s => simpa [poolStep, hi] using hstuck (.dropHandle i) rfl rfl

/-- Only a call that waits for a permit, and has been given none, does not go on. -/
theorem ensure_waits {c : EnsureCall} (hi : p.ensures i = some c) :
    (∃ l, c.phase = .starting l ∧ i ∉ p.starts.held) ∨
      ∃ l, c.phase = .locking l ∧ i ∉ (p.locks l).held := by
  obtain ⟨key, phase⟩ := c
  cases phase with
  | starting l => exact .inl ⟨l, rfl, by simpa [poolStep, hi] using hstuck (.permitted i) rfl rfl⟩
  | locking l => exact .inr ⟨l, rfl, by simpa [poolStep, hi] using hstuck (.locked i) rfl rfl⟩
  | called l => simpa [poolStep, hi] using hstuck (.lock i) rfl rfl
  | looking l => simpa [poolStep, hi] using hstuck (.looked i false) rfl rfl
  | creating l => simpa [poolStep, hi] using hstuck (.created i) rfl rfl
  | leaving l => simpa [poolStep, hi] using hstuck (.unlock i) rfl rfl

/-- A start that waits would wait for another that goes on. -/
theorem no_start_waits (h : EnsureInv limits p) (hstarts : 0 < limits.maxStarts) {c : EnsureCall}
    (hi : p.ensures i = some c) {l : Nat} (hphase : c.phase = .starting l) : False := by
  obtain ⟨key, phase⟩ := c
  cases hphase
  rcases ensure_waits hstuck hi with ⟨-, -, hwaits⟩ | ⟨l', hl, -⟩
  · obtain ⟨calls, hcard, hcalls⟩ := h.start_waits hi hwaits
    obtain ⟨j, hj⟩ := Finset.card_pos.mp (hcard ▸ hstarts)
    obtain ⟨-, hheld, hrole⟩ := hcalls j hj
    cases hc : p.ensures j with
    | none => simp [hc, startsRole] at hrole
    | some d =>
      obtain ⟨key', phase'⟩ := d
      rcases ensure_waits hstuck hc with ⟨l', rfl, hnot⟩ | ⟨l', rfl, -⟩
      · exact hnot hheld
      · simp [hc, startsRole] at hrole
  · cases hl

theorem ensures_over (h : EnsureInv limits p) (hstarts : 0 < limits.maxStarts) (i : Nat) :
    p.ensures i = none := by
  cases hi : p.ensures i with
  | none => rfl
  | some c =>
    rcases ensure_waits hstuck hi with ⟨l, hl, -⟩ | ⟨l, hl, hwaits⟩
    · exact (no_start_waits hstuck h hstarts hi hl).elim
    · -- the lock is with a call that goes on
      obtain ⟨key, phase⟩ := c
      cases hl
      obtain ⟨j, -, hheld, hrole⟩ := h.lock_waits hi hwaits
      cases hj : p.ensures j with
      | none => simp [hj, lockRole] at hrole
      | some d =>
        rcases ensure_waits hstuck hj with ⟨l', hl', -⟩ | ⟨l', hl', hnot⟩
        · exact (no_start_waits hstuck h hstarts hj hl').elim
        · have hsame : l' = l := by
            by_contra hne
            simp [hj, lockRole, hl', EnsurePhase.lock, hne] at hrole
          exact (hnot (hsame ▸ hheld)).elim

end Stuck

theorem available_of_idle {permits : Nat} {role : Nat → Role} {s : Semaphore}
    (h : s.Accounts permits role) (hidle : ∀ i, role i = .idle) : s.available = permits := by
  have hnone : s.held = [] := List.eq_nil_iff_forall_not_mem.mpr fun i hi => h.held i hi (hidle i)
  simpa [hnone] using h.total

theorem PoolInv.drained (h : PoolInv limits p) (hensures : ∀ i, p.ensures i = none)
    (hexecs : ∀ i, p.execs i = none) : p.Drained limits where
  ensures := hensures
  execs := hexecs
  starts := available_of_idle h.ensure.starts fun i => by simp [hensures, startsRole]
  locks l := available_of_idle (h.ensure.locks l) fun i => by simp [hensures, lockRole]
  global := available_of_idle h.exec.global fun i => by simp [hexecs, globalRole]
  sems s := available_of_idle (h.exec.sems s) fun i => by simp [hexecs, semRole]

-- Where no session may start

theorem missed_waits (hzero : limits.maxStarts = 0) : ∃ p, PoolRun limits p ∧
    (∀ i, p.ensures i =
      if i = 0 then some ⟨⟨"prod", .repository, none, "nas"⟩, .starting 0⟩ else none) ∧
    (∀ i, p.execs i = none) ∧ p.starts.held = [] := by
  obtain ⟨maxStarts, maxExec, maxGlobal⟩ := limits
  cases hzero
  refine ⟨_, (((Reaches.refl.tail trivial (a := .ensure ⟨"prod", .repository, none, "nas"⟩) rfl).tail
      trivial (a := .lock 0) rfl).tail trivial (a := .locked 0) rfl).tail trivial
      (a := .looked 0 true) rfl, fun i => ?_, fun _ => rfl, rfl⟩
  cases i with
  | zero => rfl
  | succ i => rfl

theorem missed_waits_for_ever (hzero : limits.maxStarts = 0) : ∃ p, PoolRun limits p ∧
    (∀ a : PoolEvent, a.isNew = false → a.isCancel = false → poolStep limits p a = none) ∧
    ¬ p.Drained limits := by
  obtain ⟨p, hrun, hensures, hexecs, hheld⟩ := missed_waits hzero
  refine ⟨p, hrun, fun a hnew hcancel => ?_, fun h => ?_⟩
  · cases a with
    | ensure | exec => cases hnew
    | cancel => cases hcancel
    | lock i | locked i | looked i | permitted i | created i | unlock i =>
      by_cases hi : i = 0 <;> simp [poolStep, hensures, hi, hheld]
    | key | take | giveBack | drop | dropUser | dropHandle => simp [poolStep, hexecs]
  · have hnone := h.ensures 0
    simp [hensures] at hnone

/-- Without new calls every run ends, after at most the steps that are left to the
calls; and none ends, unless a call is cancelled, before all calls are over and
every permit is back, provided that a session may start at all. -/
theorem session_pool_drains (limits : SessionLimits) :
    (∀ p, PoolRun limits p → ∀ events p',
      runSteps (poolStep limits) (fun _ a => a.isNew = false) p events = some p' →
        events.length + p'.left ≤ p.left) ∧
    ((∀ p, PoolRun limits p →
      (∀ a : PoolEvent, a.isNew = false → a.isCancel = false → poolStep limits p a = none) →
        p.Drained limits) ↔ 0 < limits.maxStarts) := by
  refine ⟨fun p hp events p' hrun => hp.inv.left_run hrun, fun hall => ?_,
    fun hstarts p hp hstuck => ?_⟩
  · by_contra hzero
    obtain ⟨p, hp, hstuck, hnot⟩ := missed_waits_for_ever (Nat.eq_zero_of_not_pos hzero)
    exact hnot (hall p hp hstuck)
  · exact hp.inv.drained (ensures_over hstuck hp.inv.ensure hstarts) (execs_over hstuck)

/-- Two calls for one key, the second waits for the first, and a terminal beside them. -/
theorem session_pool_drains_waiting : ∃ p p' : SessionPool, p.left = 13 ∧ 11 + p'.left ≤ 13 ∧
    p'.Drained ⟨1, 1, 8⟩ := by
  obtain ⟨p, hp, hleft⟩ : ∃ p, runSteps (poolStep ⟨1, 1, 8⟩) (fun _ _ => True) (.new ⟨1, 1, 8⟩)
      [.ensure ⟨"prod", .repository, none, "r"⟩, .lock 0, .locked 0, .looked 0 true,
        .ensure ⟨"prod", .repository, none, "r"⟩, .lock 1, .exec "alice"] = some p ∧
      p.left = 13 := ⟨_, rfl, by decide⟩
  have hafter : ∃ p', runSteps (poolStep ⟨1, 1, 8⟩) (fun _ a => a.isNew = false) p
      [.permitted 0, .created 0, .unlock 0, .locked 1, .looked 1 false, .unlock 1, .key 2,
        .take 2, .drop 2, .dropUser 2, .dropHandle 2] = some p' ∧
      (∀ i, p'.ensures i = none) ∧ ∀ i, p'.execs i = none := by
    cases hp
    refine ⟨_, rfl, fun i => ?_, fun i => ?_⟩
    · rcases i with _ | _ | i <;> rfl
    · rcases i with _ | _ | _ | i <;> rfl
  obtain ⟨p', hp', hensures, hexecs⟩ := hafter
  have hreach : PoolRun ⟨1, 1, 8⟩ p' :=
    (reaches_of_runSteps hp).trans ((reaches_of_runSteps hp').mono fun _ _ _ => trivial)
  obtain ⟨hbound, hdrains⟩ := session_pool_drains ⟨1, 1, 8⟩
  refine ⟨p, p', hleft, hleft ▸ hbound p (reaches_of_runSteps hp) _ p' hp',
    hdrains.mpr (by decide) p' hreach fun a hnew _ => ?_⟩
  cases a with
  | ensure | exec => cases hnew
  | _ => simp [poolStep, hensures, hexecs]

end Kopiur.Ui
