import Kopiur.Ui.SessionPool

/-!
# Browse sessions stay within their bounds

Every semaphore accounts for the calls that use it, whatever the order in which
calls come, wait, are cancelled and drop their permits. A pruned semaphore is
one that no call has a handle on.
-/

namespace Kopiur.Ui

open Kopiur.Lib SessionPool

-- Session creations

/-- What a call of `ensure` does with the permits to start a session. -/
def startsRole : Option EnsureCall → Role
  | some ⟨_, .starting _⟩ => .waits
  | some ⟨_, .creating _⟩ => .has
  | _ => .idle

def EnsurePhase.lockRole : EnsurePhase → Role
  | .called _ => .idle
  | .locking _ => .waits
  | _ => .has

def lockRole (l : Nat) : Option EnsureCall → Role
  | some c => if c.phase.lock = l then c.phase.lockRole else .idle
  | none => .idle

structure EnsureInv (limits : SessionLimits) (p : SessionPool) : Prop where
  starts : p.starts.Accounts limits.maxStarts (startsRole ∘ p.ensures)
  locks : ∀ l, (p.locks l).Accounts 1 (lockRole l ∘ p.ensures)
  keyed : ∀ i c, p.ensures i = some c → p.inflight.lookup c.key = some c.phase.lock
  fresh : ∀ i, p.nextCall ≤ i → p.ensures i = none

variable {limits : SessionLimits} {p p' : SessionPool} {i : Nat}

theorem accounts_same {permits : Nat} {role : Nat → Role} {s : Semaphore} {r : Role}
    (h : s.Accounts permits role) (hr : role i = r) :
    s.Accounts permits (Function.update role i r) := by
  rwa [← hr, Function.update_eq_self]

theorem EnsureInv.move (h : EnsureInv limits p) {c : EnsureCall} {c' : Option EnsureCall}
    (hi : p.ensures i = some c) (hensures : p'.ensures = Function.update p.ensures i c')
    (hinflight : p'.inflight = p.inflight) (hnext : p'.nextCall = p.nextCall)
    (hsame : ∀ d ∈ c', d.key = c.key ∧ d.phase.lock = c.phase.lock)
    (hstarts : p'.starts.Accounts limits.maxStarts
      (Function.update (startsRole ∘ p.ensures) i (startsRole c')))
    (hother : ∀ l, l ≠ c.phase.lock → p'.locks l = p.locks l)
    (hlock : (p'.locks c.phase.lock).Accounts 1
      (Function.update (lockRole c.phase.lock ∘ p.ensures) i (lockRole c.phase.lock c'))) :
    EnsureInv limits p' where
  starts := by
    rw [hensures, Function.comp_update]
    exact hstarts
  locks l := by
    rw [hensures, Function.comp_update]
    by_cases hl : l = c.phase.lock
    · rw [hl]
      exact hlock
    · rw [hother l hl]
      have hidle : lockRole l (some c) = .idle := if_neg fun heq => hl heq.symm
      have hidle' : lockRole l c' = .idle := by
        cases c' with
        | none => rfl
        | some d => exact if_neg fun heq => hl (heq.symm.trans (hsame d rfl).2)
      refine accounts_same (h.locks l) ?_
      rw [Function.comp_apply, hi, hidle, hidle']
  keyed j d hd := by
    rw [hensures] at hd
    rw [hinflight]
    by_cases hj : j = i
    · subst hj
      rw [Function.update_self] at hd
      obtain ⟨hkey, hlock⟩ := hsame d hd
      rw [hkey, hlock]
      exact h.keyed j c hi
    · rw [Function.update_of_ne hj] at hd
      exact h.keyed j d hd
  fresh j hj := by
    rw [hnext] at hj
    have hne : j ≠ i := fun hji => by simp [h.fresh i (hji ▸ hj)] at hi
    rw [hensures, Function.update_of_ne hne]
    exact h.fresh j hj

theorem EnsureInv.frame (h : EnsureInv limits p) (hensures : p'.ensures = p.ensures)
    (hinflight : p'.inflight = p.inflight) (hstarts : p'.starts = p.starts)
    (hlocks : p'.locks = p.locks) (hnext : p.nextCall ≤ p'.nextCall) : EnsureInv limits p' where
  starts := by
    rw [hensures, hstarts]
    exact h.starts
  locks l := by
    rw [hensures, hlocks]
    exact h.locks l
  keyed := by
    rw [hensures, hinflight]
    exact h.keyed
  fresh j hj := by
    rw [hensures]
    exact h.fresh j (hnext.trans hj)

theorem keyLock_spec (p : SessionPool) (key : SessionKey) :
    (p.keyLock key).1.inflight.lookup key = some (p.keyLock key).2 ∧
      ∀ k l, p.inflight.lookup k = some l → (p.keyLock key).1.inflight.lookup k = some l := by
  unfold keyLock
  cases hl : p.inflight.lookup key with
  | some l => exact ⟨hl, fun _ _ h => h⟩
  | none =>
    refine ⟨List.lookup_cons_self, fun k l hk => ?_⟩
    have hne : (k == key) = false := by
      refine beq_false_of_ne fun heq => ?_
      rw [heq, hl] at hk
      cases hk
    rw [List.lookup_cons, hne]
    exact hk

theorem keyLock_frame (p : SessionPool) (key : SessionKey) :
    (p.keyLock key).1.starts = p.starts ∧ (p.keyLock key).1.locks = p.locks ∧
      (p.keyLock key).1.ensures = p.ensures ∧ (p.keyLock key).1.nextCall = p.nextCall := by
  unfold keyLock
  cases p.inflight.lookup key with
  | some l => exact ⟨rfl, rfl, rfl, rfl⟩
  | none => exact ⟨rfl, rfl, rfl, rfl⟩

theorem EnsureInv.ensure (h : EnsureInv limits p) {key : SessionKey}
    (hs : poolStep limits p (.ensure key) = some p') : EnsureInv limits p' := by
  obtain ⟨hlookup, hkept⟩ := keyLock_spec p key
  obtain ⟨hstarts, hlocks, hensures, hnext⟩ := keyLock_frame p key
  rw [poolStep] at hs
  generalize p.keyLock key = q at *
  obtain ⟨q, l⟩ := q
  obtain rfl := Option.some.inj hs
  dsimp only at hlookup hkept hstarts hlocks hensures hnext
  have hnone : p.ensures p.nextCall = none := h.fresh _ (Nat.le_refl _)
  refine ⟨?_, fun l' => ?_, fun i c hi => ?_, fun i hi => ?_⟩
  · simp only [setEnsure, hstarts, hensures, hnext]
    rw [Function.comp_update]
    exact accounts_same h.starts (by rw [Function.comp_apply, hnone]; rfl)
  · simp only [setEnsure, hlocks, hensures, hnext]
    rw [Function.comp_update]
    refine accounts_same (h.locks l') ?_
    rw [Function.comp_apply, hnone]
    exact (ite_self _).symm
  · simp only [setEnsure, hensures, hnext] at hi ⊢
    by_cases hne : i = p.nextCall
    · rw [hne, Function.update_self] at hi
      obtain rfl := Option.some.inj hi
      exact hlookup
    · rw [Function.update_of_ne hne] at hi
      exact hkept _ _ (h.keyed i c hi)
  · simp only [setEnsure, hensures, hnext] at hi ⊢
    rw [Function.update_of_ne (Nat.ne_of_gt hi)]
    exact h.fresh i (Nat.le_of_succ_le hi)

theorem ensure_roles {c : EnsureCall} (hi : p.ensures i = some c) :
    (startsRole ∘ p.ensures) i = startsRole (some c) ∧
      (lockRole c.phase.lock ∘ p.ensures) i = c.phase.lockRole := by
  rw [Function.comp_apply, Function.comp_apply, hi]
  exact ⟨rfl, if_pos rfl⟩

theorem EnsureInv.stay (h : EnsureInv limits p) {c : EnsureCall} (hi : p.ensures i = some c)
    (phase : EnsurePhase) (hlock : phase.lock = c.phase.lock)
    (hrole : phase.lockRole = c.phase.lockRole) {starts : Semaphore} {r : Role}
    (hr : startsRole (some { c with phase }) = r)
    (hstarts : starts.Accounts limits.maxStarts
      (Function.update (startsRole ∘ p.ensures) i r)) :
    EnsureInv limits ({ p with starts }.setEnsure i (some { c with phase })) := by
  refine h.move hi rfl rfl rfl (fun d hd => ?_) (hr ▸ hstarts) (fun _ _ => rfl) ?_
  · obtain rfl := Option.some.inj hd
    exact ⟨rfl, hlock⟩
  · refine accounts_same (h.locks _) ?_
    rw [(ensure_roles hi).2, ← hrole]
    exact (if_pos hlock).symm

theorem EnsureInv.atLock (h : EnsureInv limits p) {c : EnsureCall} (hi : p.ensures i = some c)
    (c' : Option EnsureCall) (hsame : ∀ d ∈ c', d.key = c.key ∧ d.phase.lock = c.phase.lock)
    (hidle : startsRole (some c) = .idle) (hidle' : startsRole c' = .idle) {lock : Semaphore}
    {r : Role} (hr : lockRole c.phase.lock c' = r)
    (hlock : lock.Accounts 1 (Function.update (lockRole c.phase.lock ∘ p.ensures) i r)) :
    EnsureInv limits ((p.setLock c.phase.lock lock).setEnsure i c') := by
  refine h.move hi rfl rfl rfl hsame ?_ (fun l hl => Function.update_of_ne hl _ _) ?_
  · refine accounts_same h.starts ?_
    rw [(ensure_roles hi).1, hidle, hidle']
  · rw [hr]
    simpa [setEnsure, setLock] using hlock

theorem setLock_self (p : SessionPool) (l : Nat) : p.setLock l (p.locks l) = p := by
  rw [setLock, Function.update_eq_self]

/-- A call of `ensure` takes a step. -/
theorem EnsureInv.run (h : EnsureInv limits p)
    (hs : poolStep limits p (.lock i) = some p' ∨ poolStep limits p (.locked i) = some p' ∨
      poolStep limits p (.permitted i) = some p' ∨ poolStep limits p (.created i) = some p' ∨
      poolStep limits p (.unlock i) = some p') : EnsureInv limits p' := by
  rcases hs with hs | hs | hs | hs | hs
  · obtain ⟨⟨key, phase⟩, hi, hs⟩ := Option.bind_eq_some_iff.mp hs
    cases phase with
    | called l =>
      obtain rfl := Option.some.inj hs
      have hrole := (ensure_roles hi).2
      refine h.atLock hi (some ⟨key, .locking l⟩) (fun d hd => ?_) rfl rfl (if_pos rfl)
        ((h.locks l).poll hrole)
      obtain rfl := Option.some.inj hd
      exact ⟨rfl, rfl⟩
    | _ => cases hs
  · obtain ⟨⟨key, phase⟩, hi, hs⟩ := Option.bind_eq_some_iff.mp hs
    cases phase with
    | locking l =>
      obtain ⟨hheld, hs⟩ := Option.ite_none_right_eq_some.mp hs
      obtain rfl := Option.some.inj hs
      rw [← setLock_self p l]
      refine h.atLock hi (some ⟨key, .looking l⟩) (fun d hd => ?_) rfl rfl (if_pos rfl)
        ((h.locks l).takeUp hheld)
      obtain rfl := Option.some.inj hd
      exact ⟨rfl, rfl⟩
    | _ => cases hs
  · obtain ⟨⟨key, phase⟩, hi, hs⟩ := Option.bind_eq_some_iff.mp hs
    cases phase with
    | starting l =>
      obtain ⟨hheld, hs⟩ := Option.ite_none_right_eq_some.mp hs
      obtain rfl := Option.some.inj hs
      exact h.stay hi (.creating l) rfl rfl rfl (h.starts.takeUp hheld)
    | _ => cases hs
  · obtain ⟨⟨key, phase⟩, hi, hs⟩ := Option.bind_eq_some_iff.mp hs
    cases phase with
    | creating l =>
      obtain rfl := Option.some.inj hs
      exact h.stay hi (.leaving l) rfl rfl rfl (h.starts.release (h.starts.has i (ensure_roles hi).1))
    | _ => cases hs
  · obtain ⟨⟨key, phase⟩, hi, hs⟩ := Option.bind_eq_some_iff.mp hs
    cases phase with
    | leaving l =>
      obtain rfl := Option.some.inj hs
      have hheld := (h.locks l).has i (ensure_roles hi).2
      exact h.atLock hi none (fun d hd => by cases hd) rfl rfl rfl ((h.locks l).release hheld)
    | _ => cases hs

theorem EnsureInv.looked (h : EnsureInv limits p) {missed : Bool}
    (hs : poolStep limits p (.looked i missed) = some p') : EnsureInv limits p' := by
  obtain ⟨⟨key, phase⟩, hi, hs⟩ := Option.bind_eq_some_iff.mp hs
  cases phase with
  | looking l =>
    have hidle := (ensure_roles hi).1
    cases missed with
    | true =>
      obtain rfl := Option.some.inj hs
      exact h.stay hi (.starting l) rfl rfl rfl (h.starts.poll hidle)
    | false =>
      obtain rfl := Option.some.inj hs
      exact h.stay hi (.leaving l) rfl rfl rfl (accounts_same h.starts hidle)
  | _ => cases hs

theorem EnsureInv.cancel (h : EnsureInv limits p)
    (hs : poolStep limits p (.cancel i) = some p') : EnsureInv limits p' := by
  obtain ⟨⟨key, phase⟩, hi, hs⟩ := Option.bind_eq_some_iff.mp hs
  have hstarts := (ensure_roles hi).1
  have hlock := (ensure_roles hi).2
  cases phase with
  | locking l =>
    obtain rfl := Option.some.inj hs
    exact h.atLock hi none (fun d hd => by cases hd) rfl rfl rfl (h.locks l).abandon
  | looking l =>
    obtain rfl := Option.some.inj hs
    exact h.stay hi (.leaving l) rfl rfl rfl (accounts_same h.starts hstarts)
  | starting l =>
    obtain rfl := Option.some.inj hs
    exact h.stay hi (.leaving l) rfl rfl rfl h.starts.abandon
  | creating l =>
    obtain rfl := Option.some.inj hs
    exact h.stay hi (.leaving l) rfl rfl rfl (h.starts.release (h.starts.has i hstarts))
  | _ => cases hs

-- Exec permits

/-- What a call of `exec_permit` does with the global permits. -/
def globalRole : Option ExecCall → Role
  | some ⟨_, .admitted⟩ | some ⟨_, .keyed _⟩ | some ⟨_, .holding _⟩ | some ⟨_, .refused⟩ => .has
  | _ => .idle

def ExecPhase.permit : ExecPhase → Option Nat
  | .holding s | .dropping s => some s
  | _ => none

def semRole (s : Nat) : Option ExecCall → Role
  | some e => if e.phase.permit = some s then .has else .idle
  | none => .idle

def semOf (e : Option ExecCall) : Option Nat := e.bind fun e => e.phase.sem

structure ExecInv (limits : SessionLimits) (p : SessionPool) : Prop where
  global : p.execGlobal.Accounts limits.maxExecGlobal (globalRole ∘ p.execs)
  sems : ∀ s, (p.sems s).permits.Accounts limits.maxExecPerIdentity (semRole s ∘ p.execs)
  handles : ∀ s i, i ∈ (p.sems s).handles ↔ (semOf ∘ p.execs) i = some s
  handles_nodup : ∀ s, (p.sems s).handles.Nodup
  keyed : ∀ i e s, p.execs i = some e → e.phase.sem = some s → (e.user, s) ∈ p.execPerIdentity
  users : (p.execPerIdentity.map Prod.fst).Nodup
  distinct : (p.execPerIdentity.map Prod.snd).Nodup
  known : ∀ entry ∈ p.execPerIdentity, entry.2 < p.nextSem
  fresh : ∀ i, p.nextCall ≤ i → p.execs i = none

theorem permit_sem {phase : ExecPhase} {s : Nat} (h : phase.permit = some s) :
    phase.sem = some s := by
  cases phase <;> first | exact h | cases h

theorem semRole_idle {e : Option ExecCall} {s : Nat} (h : semOf e ≠ some s) :
    semRole s e = .idle := by
  cases e with
  | none => rfl
  | some e => exact if_neg fun hpermit => h (permit_sem hpermit)

theorem ExecInv.frame (h : ExecInv limits p) (hexecs : p'.execs = p.execs)
    (hglobal : p'.execGlobal = p.execGlobal) (hsems : p'.sems = p.sems)
    (hmap : p'.execPerIdentity = p.execPerIdentity) (hsem : p'.nextSem = p.nextSem)
    (hnext : p.nextCall ≤ p'.nextCall) : ExecInv limits p' where
  global := by rw [hexecs, hglobal]; exact h.global
  sems := by rw [hexecs, hsems]; exact h.sems
  handles := by rw [hexecs, hsems]; exact h.handles
  handles_nodup := by rw [hsems]; exact h.handles_nodup
  keyed := by rw [hexecs, hmap]; exact h.keyed
  users := by rw [hmap]; exact h.users
  distinct := by rw [hmap]; exact h.distinct
  known := by rw [hmap, hsem]; exact h.known
  fresh i hi := by rw [hexecs]; exact h.fresh i (hnext.trans hi)

/-- One call moves on and changes what it does with one semaphore and the global
permits. -/
theorem ExecInv.move (h : ExecInv limits p) {e : ExecCall} {e' : Option ExecCall} (s : Nat)
    (sem : IdentitySemaphore) (hi : p.execs i = some e)
    (hexecs : p'.execs = Function.update p.execs i e')
    (hsems : p'.sems = Function.update p.sems s sem)
    (hsame : p'.execPerIdentity = p.execPerIdentity ∧ p'.nextSem = p.nextSem ∧
      p'.nextCall = p.nextCall)
    (hglobal : p'.execGlobal.Accounts limits.maxExecGlobal
      (Function.update (globalRole ∘ p.execs) i (globalRole e')))
    (hsem : sem.permits.Accounts limits.maxExecPerIdentity
      (Function.update (semRole s ∘ p.execs) i (semRole s e')))
    (hnodup : sem.handles.Nodup)
    (hhandles : ∀ j, j ∈ sem.handles ↔ Function.update (semOf ∘ p.execs) i (semOf e') j = some s)
    (hother : ∀ t, t ≠ s → semOf (some e) ≠ some t ∧ semOf e' ≠ some t)
    (hkeyed : ∀ d ∈ e', ∀ t, d.phase.sem = some t → (d.user, t) ∈ p.execPerIdentity) :
    ExecInv limits p' where
  global := by
    rw [hexecs, Function.comp_update]
    exact hglobal
  sems t := by
    rw [hexecs, hsems, Function.comp_update]
    by_cases ht : t = s
    · rw [ht, Function.update_self]
      exact hsem
    · rw [Function.update_of_ne ht]
      obtain ⟨hold, hnew⟩ := hother t ht
      refine accounts_same (h.sems t) ?_
      rw [Function.comp_apply, hi, semRole_idle hold, semRole_idle hnew]
  handles t j := by
    rw [hexecs, hsems, Function.comp_update]
    by_cases ht : t = s
    · rw [ht, Function.update_self]
      exact hhandles j
    · rw [Function.update_of_ne ht, h.handles]
      obtain ⟨hold, hnew⟩ := hother t ht
      by_cases hj : j = i
      · rw [hj, Function.update_self, Function.comp_apply, hi]
        exact iff_of_false hold hnew
      · rw [Function.update_of_ne hj]
  handles_nodup t := by
    rw [hsems]
    by_cases ht : t = s
    · rw [ht, Function.update_self]
      exact hnodup
    · rw [Function.update_of_ne ht]
      exact h.handles_nodup t
  keyed j d t hd := by
    rw [hexecs] at hd
    rw [hsame.1]
    by_cases hj : j = i
    · rw [hj, Function.update_self] at hd
      exact hkeyed d hd t
    · rw [Function.update_of_ne hj] at hd
      exact h.keyed j d t hd
  users := by rw [hsame.1]; exact h.users
  distinct := by rw [hsame.1]; exact h.distinct
  known := by rw [hsame.1, hsame.2.1]; exact h.known
  fresh j hj := by
    rw [hsame.2.2] at hj
    have hne : j ≠ i := fun hji => by simp [h.fresh i (hji ▸ hj)] at hi
    rw [hexecs, Function.update_of_ne hne]
    exact h.fresh j hj

theorem ExecInv.prune (h : ExecInv limits p) : ExecInv limits (p.prune limits) := by
  unfold SessionPool.prune
  split
  case isFalse => exact h
  case isTrue =>
    refine ⟨h.global, h.sems, h.handles, h.handles_nodup, fun i e s hi hs => ?_, ?_, ?_, ?_, h.fresh⟩
    · refine List.mem_filter.mpr ⟨h.keyed i e s hi hs, Bool.or_eq_true_iff.mpr (.inl ?_)⟩
      have hmem : i ∈ (p.sems s).handles := by
        rw [h.handles, Function.comp_apply, hi]
        exact hs
      have hpos := List.length_pos_of_mem hmem
      rw [decide_eq_true_eq, strongCount]
      exact Nat.lt_add_of_pos_right hpos
    · exact (List.filter_sublist.map _).nodup h.users
    · exact (List.filter_sublist.map _).nodup h.distinct
    · exact fun entry hentry => h.known entry (List.mem_of_mem_filter hentry)

theorem ExecInv.identitySemaphore (h : ExecInv limits p) (user : String) :
    ExecInv limits (p.identitySemaphore limits user).1 ∧
      (user, (p.identitySemaphore limits user).2) ∈
        (p.identitySemaphore limits user).1.execPerIdentity := by
  have hpruned := h.prune
  unfold SessionPool.identitySemaphore
  dsimp only
  generalize p.prune limits = q at hpruned
  cases hl : q.execPerIdentity.lookup user with
  | some s =>
    obtain ⟨before, after, heq, -⟩ := List.lookup_eq_some_iff.mp hl
    exact ⟨hpruned, by simp [heq]⟩
  | none =>
    have hnone : ∀ i, semOf (q.execs i) ≠ some q.nextSem := by
      intro i hsem
      obtain ⟨e, hi, hphase⟩ := Option.bind_eq_some_iff.mp hsem
      exact absurd (hpruned.known _ (hpruned.keyed i e q.nextSem hi hphase)) (lt_irrefl _)
    refine ⟨⟨hpruned.global, fun s => ?_, fun s i => ?_, fun s => ?_, fun i e s hi hs => ?_, ?_, ?_,
      fun entry hentry => ?_, hpruned.fresh⟩, List.mem_cons_self⟩
    · dsimp only
      by_cases hs : s = q.nextSem
      · rw [hs, Function.update_self]
        have hidle : semRole q.nextSem ∘ q.execs = fun _ => .idle :=
          funext fun i => semRole_idle (hnone i)
        rw [hidle]
        exact Semaphore.accounts_new _
      · rw [Function.update_of_ne hs]
        exact hpruned.sems s
    · dsimp only
      by_cases hs : s = q.nextSem
      · rw [hs, Function.update_self]
        exact iff_of_false List.not_mem_nil (hnone i)
      · rw [Function.update_of_ne hs]
        exact hpruned.handles s i
    · dsimp only
      by_cases hs : s = q.nextSem
      · rw [hs, Function.update_self]
        exact List.nodup_nil
      · rw [Function.update_of_ne hs]
        exact hpruned.handles_nodup s
    · exact List.mem_cons_of_mem _ (hpruned.keyed i e s hi hs)
    · refine List.nodup_cons.mpr ⟨fun hmem => ?_, hpruned.users⟩
      obtain ⟨entry, hentry, heq⟩ := List.mem_map.mp hmem
      exact absurd (List.lookup_eq_none_iff.mp hl entry hentry) (by simp [heq])
    · refine List.nodup_cons.mpr ⟨fun hmem => ?_, hpruned.distinct⟩
      obtain ⟨entry, hentry, heq⟩ := List.mem_map.mp hmem
      exact absurd (heq ▸ hpruned.known entry hentry) (lt_irrefl _)
    · rcases List.mem_cons.mp hentry with rfl | hentry
      · exact Nat.lt_succ_self _
      · exact Nat.lt_succ_of_lt (hpruned.known entry hentry)

theorem identitySemaphore_frame (p : SessionPool) (user : String) :
    (p.identitySemaphore limits user).1.starts = p.starts ∧
      (p.identitySemaphore limits user).1.inflight = p.inflight ∧
      (p.identitySemaphore limits user).1.locks = p.locks ∧
      (p.identitySemaphore limits user).1.ensures = p.ensures ∧
      (p.identitySemaphore limits user).1.execs = p.execs ∧
      (p.identitySemaphore limits user).1.nextCall = p.nextCall := by
  have hprune : (p.prune limits).starts = p.starts ∧ (p.prune limits).inflight = p.inflight ∧
      (p.prune limits).locks = p.locks ∧ (p.prune limits).ensures = p.ensures ∧
      (p.prune limits).execs = p.execs ∧ (p.prune limits).nextCall = p.nextCall := by
    unfold SessionPool.prune
    split <;> exact ⟨rfl, rfl, rfl, rfl, rfl, rfl⟩
  unfold SessionPool.identitySemaphore
  dsimp only
  generalize p.prune limits = q at hprune
  cases q.execPerIdentity.lookup user with
  | some s => exact hprune
  | none => exact hprune

theorem exec_roles {e : ExecCall} (hi : p.execs i = some e) :
    (globalRole ∘ p.execs) i = globalRole (some e) ∧
      (∀ s, (semRole s ∘ p.execs) i = semRole s (some e)) ∧
      (semOf ∘ p.execs) i = e.phase.sem := by
  refine ⟨?_, fun s => ?_, ?_⟩
  · rw [Function.comp_apply, hi]
  · rw [Function.comp_apply, hi]
  · rw [Function.comp_apply, hi]
    rfl

theorem handles_take (h : ExecInv limits p) {e : ExecCall} {s : Nat} (hi : p.execs i = some e)
    (hnone : e.phase.sem = none) :
    (i :: (p.sems s).handles).Nodup ∧ ∀ j, j ∈ i :: (p.sems s).handles ↔
      Function.update (semOf ∘ p.execs) i (some s) j = some s := by
  have hnot : i ∉ (p.sems s).handles := by
    rw [h.handles, (exec_roles hi).2.2, hnone]
    exact fun heq => by cases heq
  refine ⟨List.nodup_cons.mpr ⟨hnot, h.handles_nodup s⟩, fun j => ?_⟩
  by_cases hj : j = i
  · rw [hj, Function.update_self]
    exact iff_of_true List.mem_cons_self rfl
  · rw [Function.update_of_ne hj, List.mem_cons, or_iff_right hj]
    exact h.handles s j

theorem handles_keep (h : ExecInv limits p) {e : ExecCall} {s : Nat} (hi : p.execs i = some e)
    (hs : e.phase.sem = some s) :
    ∀ j, j ∈ (p.sems s).handles ↔ Function.update (semOf ∘ p.execs) i (some s) j = some s := by
  intro j
  by_cases hj : j = i
  · rw [hj, Function.update_self, h.handles, (exec_roles hi).2.2, hs]
  · rw [Function.update_of_ne hj]
    exact h.handles s j

theorem handles_drop (h : ExecInv limits p) (s : Nat) :
    ((p.sems s).handles.erase i).Nodup ∧ ∀ j, j ∈ (p.sems s).handles.erase i ↔
      Function.update (semOf ∘ p.execs) i none j = some s := by
  refine ⟨(h.handles_nodup s).erase i, fun j => ?_⟩
  rw [(h.handles_nodup s).mem_erase_iff]
  by_cases hj : j = i
  · rw [hj, Function.update_self]
    exact iff_of_false (fun hmem => hmem.1 rfl) (fun heq => by cases heq)
  · rw [Function.update_of_ne hj, and_iff_right hj]
    exact h.handles s j

theorem ExecInv.exec (h : ExecInv limits p) {user : String}
    (hs : poolStep limits p (.exec user) = some p') : ExecInv limits p' := by
  have hnone : p.execs p.nextCall = none := h.fresh _ (Nat.le_refl _)
  unfold poolStep at hs
  cases htry : p.execGlobal.tryAcquire p.nextCall with
  | none =>
    rw [htry] at hs
    obtain rfl := Option.some.inj hs
    exact h.frame rfl rfl rfl rfl rfl (Nat.le_succ _)
  | some global =>
    rw [htry] at hs
    obtain rfl := Option.some.inj hs
    have hsem : ∀ s, (semRole s ∘ p.execs) p.nextCall = .idle := fun s => by
      rw [Function.comp_apply, hnone]; rfl
    have hglobal : (globalRole ∘ p.execs) p.nextCall = .idle := by
      rw [Function.comp_apply, hnone]; rfl
    refine ⟨?_, fun s => ?_, fun s j => ?_, h.handles_nodup, fun j e s hj => ?_, h.users, h.distinct,
      h.known, fun j hj => ?_⟩
    · simp only [setExec, Function.comp_update]
      exact h.global.tryAcquire hglobal (fun hidle => by cases hidle) htry
    · simp only [setExec, Function.comp_update]
      exact accounts_same (h.sems s) (hsem s)
    · simp only [setExec, Function.comp_update]
      by_cases hj : j = p.nextCall
      · rw [hj, Function.update_self, h.handles, Function.comp_apply, hnone]
        rfl
      · rw [Function.update_of_ne hj]
        exact h.handles s j
    · simp only [setExec] at hj ⊢
      by_cases hne : j = p.nextCall
      · rw [hne, Function.update_self] at hj
        obtain rfl := Option.some.inj hj
        exact fun heq => by cases heq
      · rw [Function.update_of_ne hne] at hj
        exact h.keyed j e s hj
    · simp only [setExec]
      rw [Function.update_of_ne (Nat.ne_of_gt hj)]
      exact h.fresh j (Nat.le_of_succ_le hj)

theorem ExecInv.key (h : ExecInv limits p) (hs : poolStep limits p (.key i) = some p') :
    ExecInv limits p' := by
  obtain ⟨⟨user, phase⟩, hi, hs⟩ := Option.bind_eq_some_iff.mp hs
  cases phase with
  | admitted =>
    obtain ⟨hq, hmem⟩ := h.identitySemaphore user
    obtain ⟨-, -, -, -, hexecs, -⟩ := @identitySemaphore_frame limits p user
    dsimp only at hs
    generalize p.identitySemaphore limits user = q at *
    obtain ⟨q, s⟩ := q
    obtain rfl := Option.some.inj hs
    rw [← hexecs] at hi
    obtain ⟨hglobal, hsem, -⟩ := exec_roles hi
    obtain ⟨hnodup, hhandles⟩ := handles_take hq (s := s) hi rfl
    refine hq.move s _ hi rfl rfl ⟨rfl, rfl, rfl⟩ (accounts_same hq.global hglobal)
      (accounts_same (hq.sems s) (hsem s)) hnodup hhandles (fun t ht => ?_) (fun d hd t hdt => ?_)
    · exact ⟨fun heq => (by cases heq), fun heq => ht (Option.some.inj heq).symm⟩
    · obtain rfl := Option.some.inj hd
      obtain rfl := Option.some.inj hdt
      exact hmem
  | _ => cases hs

theorem ExecInv.stays (h : ExecInv limits p) {e : ExecCall} {s : Nat} (phase : ExecPhase)
    (hi : p.execs i = some e) (hold : e.phase.sem = some s) (hnew : phase.sem = some s) :
    (∀ t, t ≠ s → semOf (some e) ≠ some t ∧ semOf (some { e with phase }) ≠ some t) ∧
      ∀ d, d ∈ (some { e with phase } : Option ExecCall) → ∀ t, d.phase.sem = some t →
        (d.user, t) ∈ p.execPerIdentity := by
  have hne {o : Option Nat} (ho : o = some s) {t : Nat} (ht : t ≠ s) : o ≠ some t :=
    fun heq => ht (Option.some.inj (ho.symm.trans heq)).symm
  refine ⟨fun t ht => ⟨hne hold ht, hne hnew ht⟩, fun d hd t hdt => ?_⟩
  obtain rfl := Option.some.inj hd
  obtain rfl : s = t := Option.some.inj (hnew.symm.trans hdt)
  exact h.keyed i e s hi hold

theorem leaves_sem {e : ExecCall} {s : Nat} {e' : Option ExecCall} (hold : e.phase.sem = some s)
    (hnew : semOf e' = none) :
    ∀ t, t ≠ s → semOf (some e) ≠ some t ∧ semOf e' ≠ some t := by
  refine fun t ht => ⟨fun heq => ht (Option.some.inj (hold.symm.trans heq)).symm, fun heq => ?_⟩
  rw [hnew] at heq
  cases heq

theorem poolStep_take (hs : poolStep limits p (.take i) = some p') :
    ∃ user s, p.execs i = some ⟨user, .keyed s⟩ ∧
      ((∃ permits, (p.sems s).permits.tryAcquire i = some permits ∧
          p' = { (p.setSem s { p.sems s with permits }).setExec i (some ⟨user, .holding s⟩) with
            execInflight := p.execInflight + 1 }) ∨
        (p.sems s).permits.tryAcquire i = none ∧
          p' = (p.dropHandle s i).setExec i (some ⟨user, .refused⟩)) := by
  obtain ⟨⟨user, phase⟩, hi, hs⟩ := Option.bind_eq_some_iff.mp hs
  cases phase with
  | keyed s =>
    refine ⟨user, s, hi, ?_⟩
    dsimp only at hs
    split at hs
    case h_1 permits htry => exact .inl ⟨permits, htry, (Option.some.inj hs).symm⟩
    case h_2 htry => exact .inr ⟨htry, (Option.some.inj hs).symm⟩
  | _ => cases hs

theorem ExecInv.take (h : ExecInv limits p) (hs : poolStep limits p (.take i) = some p') :
    ExecInv limits p' := by
  obtain ⟨user, s, hi, hcases⟩ := poolStep_take hs
  obtain ⟨hglobal, hsem, -⟩ := exec_roles hi
  rcases hcases with ⟨permits, htry, rfl⟩ | ⟨htry, rfl⟩
  · obtain ⟨hother, hkeyed⟩ := h.stays (.holding s) hi rfl rfl
    refine h.move s _ hi rfl rfl ⟨rfl, rfl, rfl⟩ (accounts_same h.global hglobal) ?_
      (h.handles_nodup s) (handles_keep h hi rfl) hother hkeyed
    rw [show semRole s (some ⟨user, .holding s⟩) = .has from if_pos rfl]
    exact (h.sems s).tryAcquire (hsem s) (fun hidle => by cases hidle) htry
  · obtain ⟨hnodup, hhandles⟩ := handles_drop (i := i) h s
    refine h.move s _ hi rfl rfl ⟨rfl, rfl, rfl⟩ (accounts_same h.global hglobal)
      (accounts_same (h.sems s) (hsem s)) hnodup hhandles (leaves_sem rfl rfl)
      (fun d hd t hdt => ?_)
    obtain rfl := Option.some.inj hd
    cases hdt

theorem ExecInv.drop (h : ExecInv limits p) (hs : poolStep limits p (.drop i) = some p') :
    ExecInv limits p' := by
  obtain ⟨⟨user, phase⟩, hi, hs⟩ := Option.bind_eq_some_iff.mp hs
  cases phase with
  | holding s =>
    obtain ⟨hglobal, hsem, -⟩ := exec_roles hi
    obtain rfl := Option.some.inj hs
    obtain ⟨hother, hkeyed⟩ := h.stays (.dropping s) hi rfl rfl
    exact h.move s (p.sems s) hi rfl (Function.update_eq_self _ _).symm ⟨rfl, rfl, rfl⟩
      (h.global.release (h.global.has i hglobal)) (accounts_same (h.sems s) (hsem s))
      (h.handles_nodup s) (handles_keep h hi rfl) hother hkeyed
  | _ => cases hs

theorem ExecInv.dropUser (h : ExecInv limits p) (hs : poolStep limits p (.dropUser i) = some p') :
    ExecInv limits p' := by
  obtain ⟨⟨user, phase⟩, hi, hs⟩ := Option.bind_eq_some_iff.mp hs
  cases phase with
  | dropping s =>
    obtain ⟨hglobal, hsem, -⟩ := exec_roles hi
    obtain rfl := Option.some.inj hs
    obtain ⟨hother, hkeyed⟩ := h.stays (.returned s) hi rfl rfl
    have hhas : (semRole s ∘ p.execs) i = .has := (hsem s).trans (if_pos rfl)
    exact h.move s _ hi rfl rfl ⟨rfl, rfl, rfl⟩ (accounts_same h.global hglobal)
      ((h.sems s).release ((h.sems s).has i hhas)) (h.handles_nodup s) (handles_keep h hi rfl)
      hother hkeyed
  | _ => cases hs

theorem ExecInv.dropHandle (h : ExecInv limits p)
    (hs : poolStep limits p (.dropHandle i) = some p') : ExecInv limits p' := by
  obtain ⟨⟨user, phase⟩, hi, hs⟩ := Option.bind_eq_some_iff.mp hs
  cases phase with
  | returned s =>
    obtain ⟨hglobal, hsem, -⟩ := exec_roles hi
    obtain rfl := Option.some.inj hs
    obtain ⟨hnodup, hhandles⟩ := handles_drop (i := i) h s
    exact h.move s _ hi rfl rfl ⟨rfl, rfl, rfl⟩ (accounts_same h.global hglobal)
      (accounts_same (h.sems s) (hsem s)) hnodup hhandles (leaves_sem rfl rfl)
      (fun d hd => by cases hd)
  | _ => cases hs

theorem ExecInv.giveBack (h : ExecInv limits p) (hs : poolStep limits p (.giveBack i) = some p') :
    ExecInv limits p' := by
  obtain ⟨⟨user, phase⟩, hi, hs⟩ := Option.bind_eq_some_iff.mp hs
  cases phase with
  | refused =>
    obtain ⟨hglobal, hsem, hnone⟩ := exec_roles hi
    obtain rfl := Option.some.inj hs
    refine h.move 0 (p.sems 0) hi rfl (Function.update_eq_self _ _).symm ⟨rfl, rfl, rfl⟩
      (h.global.release (h.global.has i hglobal)) (accounts_same (h.sems 0) (hsem 0))
      (h.handles_nodup 0) (fun j => ?_) (fun t _ => ?_) (fun d hd => by cases hd)
    · rw [h.handles]
      by_cases hj : j = i
      · rw [hj, Function.update_self, hnone]
        rfl
      · rw [Function.update_of_ne hj]
    · exact ⟨fun heq => (by cases heq), fun heq => (by cases heq)⟩
  | _ => cases hs

-- Runs

/-- The steps of the calls of `ensure`. -/
def PoolEvent.onEnsure : PoolEvent → Bool
  | .ensure _ | .lock _ | .locked _ | .looked _ _ | .permitted _ | .created _ | .unlock _
  | .cancel _ => true
  | _ => false

theorem keyLock_exec (p : SessionPool) (key : SessionKey) :
    (p.keyLock key).1.execs = p.execs ∧ (p.keyLock key).1.execGlobal = p.execGlobal ∧
      (p.keyLock key).1.sems = p.sems ∧ (p.keyLock key).1.execPerIdentity = p.execPerIdentity ∧
      (p.keyLock key).1.nextSem = p.nextSem := by
  unfold keyLock
  cases p.inflight.lookup key with
  | some l => exact ⟨rfl, rfl, rfl, rfl, rfl⟩
  | none => exact ⟨rfl, rfl, rfl, rfl, rfl⟩

/-- A call of `ensure` does nothing with the permits of execs. -/
theorem ExecInv.onEnsure (h : ExecInv limits p) {a : PoolEvent} (ha : a.onEnsure = true)
    (hs : poolStep limits p a = some p') : ExecInv limits p' := by
  cases a with
  | ensure key =>
    obtain ⟨hexecs, hglobal, hsems, hmap, hsem⟩ := keyLock_exec p key
    obtain ⟨-, -, -, hnext⟩ := keyLock_frame p key
    rw [poolStep] at hs
    generalize p.keyLock key = q at *
    obtain ⟨q, l⟩ := q
    obtain rfl := Option.some.inj hs
    exact h.frame hexecs hglobal hsems hmap hsem (hnext ▸ Nat.le_succ _)
  | lock i =>
    obtain ⟨⟨key, phase⟩, hi, hs⟩ := Option.bind_eq_some_iff.mp hs
    cases phase with
    | called l =>
      obtain rfl := Option.some.inj hs
      exact h.frame rfl rfl rfl rfl rfl (Nat.le_refl _)
    | _ => cases hs
  | locked i =>
    obtain ⟨⟨key, phase⟩, hi, hs⟩ := Option.bind_eq_some_iff.mp hs
    cases phase with
    | locking l =>
      obtain ⟨-, hs⟩ := Option.ite_none_right_eq_some.mp hs
      obtain rfl := Option.some.inj hs
      exact h.frame rfl rfl rfl rfl rfl (Nat.le_refl _)
    | _ => cases hs
  | looked i missed =>
    obtain ⟨⟨key, phase⟩, hi, hs⟩ := Option.bind_eq_some_iff.mp hs
    cases phase with
    | looking l =>
      cases missed <;> obtain rfl := Option.some.inj hs <;>
        exact h.frame rfl rfl rfl rfl rfl (Nat.le_refl _)
    | _ => cases hs
  | permitted i =>
    obtain ⟨⟨key, phase⟩, hi, hs⟩ := Option.bind_eq_some_iff.mp hs
    cases phase with
    | starting l =>
      obtain ⟨-, hs⟩ := Option.ite_none_right_eq_some.mp hs
      obtain rfl := Option.some.inj hs
      exact h.frame rfl rfl rfl rfl rfl (Nat.le_refl _)
    | _ => cases hs
  | created i =>
    obtain ⟨⟨key, phase⟩, hi, hs⟩ := Option.bind_eq_some_iff.mp hs
    cases phase with
    | creating l =>
      obtain rfl := Option.some.inj hs
      exact h.frame rfl rfl rfl rfl rfl (Nat.le_refl _)
    | _ => cases hs
  | unlock i =>
    obtain ⟨⟨key, phase⟩, hi, hs⟩ := Option.bind_eq_some_iff.mp hs
    cases phase with
    | leaving l =>
      obtain rfl := Option.some.inj hs
      exact h.frame rfl rfl rfl rfl rfl (Nat.le_refl _)
    | _ => cases hs
  | cancel i =>
    obtain ⟨⟨key, phase⟩, hi, hs⟩ := Option.bind_eq_some_iff.mp hs
    cases phase <;> first
      | exact h.frame (Option.some.inj hs ▸ rfl) (Option.some.inj hs ▸ rfl)
          (Option.some.inj hs ▸ rfl) (Option.some.inj hs ▸ rfl) (Option.some.inj hs ▸ rfl)
          (Option.some.inj hs ▸ Nat.le_refl _)
      | cases hs
  | _ => cases ha

/-- A call of `exec_permit` does nothing with the starts and the locks. -/
theorem EnsureInv.onExec (h : EnsureInv limits p) {a : PoolEvent} (ha : a.onEnsure = false)
    (hs : poolStep limits p a = some p') : EnsureInv limits p' := by
  cases a with
  | exec user =>
    unfold poolStep at hs
    dsimp only at hs
    cases htry : p.execGlobal.tryAcquire p.nextCall with
    | none =>
      rw [htry] at hs
      obtain rfl := Option.some.inj hs
      exact h.frame rfl rfl rfl rfl (Nat.le_succ _)
    | some global =>
      rw [htry] at hs
      obtain rfl := Option.some.inj hs
      exact h.frame rfl rfl rfl rfl (Nat.le_succ _)
  | key i =>
    obtain ⟨⟨user, phase⟩, hi, hs⟩ := Option.bind_eq_some_iff.mp hs
    cases phase with
    | admitted =>
      obtain ⟨hstarts, hinflight, hlocks, hensures, -, hnext⟩ :=
        @identitySemaphore_frame limits p user
      dsimp only at hs
      generalize p.identitySemaphore limits user = q at *
      obtain ⟨q, s⟩ := q
      obtain rfl := Option.some.inj hs
      exact h.frame hensures hinflight hstarts hlocks hnext.ge
    | _ => cases hs
  | take i =>
    obtain ⟨user, s, -, ⟨permits, -, rfl⟩ | ⟨-, rfl⟩⟩ := poolStep_take hs
    · exact h.frame rfl rfl rfl rfl (Nat.le_refl _)
    · exact h.frame rfl rfl rfl rfl (Nat.le_refl _)
  | giveBack i | drop i | dropUser i | dropHandle i =>
    obtain ⟨⟨user, phase⟩, hi, hs⟩ := Option.bind_eq_some_iff.mp hs
    cases phase <;> first
      | exact h.frame (Option.some.inj hs ▸ rfl) (Option.some.inj hs ▸ rfl)
          (Option.some.inj hs ▸ rfl) (Option.some.inj hs ▸ rfl) (Option.some.inj hs ▸ Nat.le_refl _)
      | cases hs
  | _ => cases ha

structure PoolInv (limits : SessionLimits) (p : SessionPool) : Prop where
  ensure : EnsureInv limits p
  exec : ExecInv limits p

theorem poolInv_new (limits : SessionLimits) : PoolInv limits (.new limits) where
  ensure := ⟨Semaphore.accounts_new _, fun _ => Semaphore.accounts_new _,
    fun _ _ h => (by cases h), fun _ _ => rfl⟩
  exec :=
    { global := Semaphore.accounts_new _
      sems := fun _ => Semaphore.accounts_new _
      handles := fun _ _ => iff_of_false List.not_mem_nil fun h => (by cases h)
      handles_nodup := fun _ => List.nodup_nil
      keyed := fun _ _ _ h => (by cases h)
      users := List.nodup_nil
      distinct := List.nodup_nil
      known := fun _ h => absurd h List.not_mem_nil
      fresh := fun _ _ => rfl }

theorem PoolInv.step (h : PoolInv limits p) {a : PoolEvent}
    (hs : poolStep limits p a = some p') : PoolInv limits p' := by
  cases a with
  | ensure key => exact ⟨h.ensure.ensure hs, h.exec.onEnsure rfl hs⟩
  | lock i => exact ⟨h.ensure.run (.inl hs), h.exec.onEnsure rfl hs⟩
  | locked i => exact ⟨h.ensure.run (.inr (.inl hs)), h.exec.onEnsure rfl hs⟩
  | looked i missed => exact ⟨h.ensure.looked hs, h.exec.onEnsure rfl hs⟩
  | permitted i => exact ⟨h.ensure.run (.inr (.inr (.inl hs))), h.exec.onEnsure rfl hs⟩
  | created i => exact ⟨h.ensure.run (.inr (.inr (.inr (.inl hs)))), h.exec.onEnsure rfl hs⟩
  | unlock i => exact ⟨h.ensure.run (.inr (.inr (.inr (.inr hs)))), h.exec.onEnsure rfl hs⟩
  | cancel i => exact ⟨h.ensure.cancel hs, h.exec.onEnsure rfl hs⟩
  | exec user => exact ⟨h.ensure.onExec rfl hs, h.exec.exec hs⟩
  | key i => exact ⟨h.ensure.onExec rfl hs, h.exec.key hs⟩
  | take i => exact ⟨h.ensure.onExec rfl hs, h.exec.take hs⟩
  | giveBack i => exact ⟨h.ensure.onExec rfl hs, h.exec.giveBack hs⟩
  | drop i => exact ⟨h.ensure.onExec rfl hs, h.exec.drop hs⟩
  | dropUser i => exact ⟨h.ensure.onExec rfl hs, h.exec.dropUser hs⟩
  | dropHandle i => exact ⟨h.ensure.onExec rfl hs, h.exec.dropHandle hs⟩

/-- A run in any order of steps. -/
abbrev PoolRun (limits : SessionLimits) (p : SessionPool) : Prop :=
  Reaches (poolStep limits) (fun _ _ => True) (.new limits) p

theorem PoolRun.inv (h : PoolRun limits p) : PoolInv limits p :=
  h.invariant (PoolInv limits) (poolInv_new limits) fun _ _ _ hinv _ hs => hinv.step hs

-- The bounds

namespace SessionPool

def HoldsPermit (p : SessionPool) (user : String) (i : Nat) : Prop :=
  ∃ e s, p.execs i = some e ∧ e.user = user ∧ e.phase.permit = some s

def HoldsGlobal (p : SessionPool) (i : Nat) : Prop := globalRole (p.execs i) = .has

def GlobalFull (p : SessionPool) (limits : SessionLimits) : Prop :=
  ∃ calls : Finset Nat, calls.card = limits.maxExecGlobal ∧ ∀ i ∈ calls, p.HoldsGlobal i

def IdentityFull (p : SessionPool) (limits : SessionLimits) (user : String) : Prop :=
  ∃ calls : Finset Nat, calls.card = limits.maxExecPerIdentity ∧
    ∀ i ∈ calls, p.HoldsPermit user i

def Creates (p : SessionPool) (key : SessionKey) (i : Nat) : Prop :=
  ∃ l, p.ensures i = some ⟨key, .creating l⟩

end SessionPool

theorem ExecInv.one_semaphore (h : ExecInv limits p) {i j s t : Nat} {e d : ExecCall}
    (hi : p.execs i = some e) (hj : p.execs j = some d) (huser : e.user = d.user)
    (hs : e.phase.sem = some s) (ht : d.phase.sem = some t) : s = t := by
  have hmem := h.keyed i e s hi hs
  have hmem' := h.keyed j d t hj ht
  rw [huser] at hmem
  exact congrArg Prod.snd (List.inj_on_of_nodup_map h.users hmem hmem' rfl)

theorem ExecInv.holds_iff (h : ExecInv limits p) {user : String} {s : Nat}
    (hmem : (user, s) ∈ p.execPerIdentity) {i : Nat} :
    semRole s (p.execs i) = .has ↔ p.HoldsPermit user i := by
  cases hi : p.execs i with
  | none => exact iff_of_false (fun hrole => by cases hrole) (fun ⟨e, t, he, _⟩ => by simp [hi] at he)
  | some e =>
    refine ⟨fun hrole => ?_, fun ⟨d, t, hd, huser, hpermit⟩ => ?_⟩
    · have hpermit : e.phase.permit = some s := by
        by_contra hnot
        rw [show semRole s (some e) = .idle from if_neg hnot] at hrole
        cases hrole
      refine ⟨e, s, hi, ?_, hpermit⟩
      have hkeyed := h.keyed i e s hi (permit_sem hpermit)
      exact congrArg Prod.fst (List.inj_on_of_nodup_map h.distinct hkeyed hmem rfl)
    · rw [hi] at hd
      obtain rfl := Option.some.inj hd
      have hkeyed := h.keyed i e t hi (permit_sem hpermit)
      rw [huser] at hkeyed
      obtain rfl : t = s :=
        congrArg Prod.snd (List.inj_on_of_nodup_map h.users hkeyed hmem rfl)
      exact if_pos hpermit

theorem ExecInv.card_permits_le (h : ExecInv limits p) {user : String} {calls : Finset Nat}
    (hcalls : ∀ i ∈ calls, p.HoldsPermit user i) : calls.card ≤ limits.maxExecPerIdentity := by
  rcases calls.eq_empty_or_nonempty with rfl | ⟨i, hi⟩
  · exact Nat.zero_le _
  · obtain ⟨e, s, he, huser, hpermit⟩ := hcalls i hi
    have hmem := h.keyed i e s he (permit_sem hpermit)
    rw [huser] at hmem
    exact (h.sems s).card_le fun j hj => (h.holds_iff hmem).mpr (hcalls j hj)

theorem EnsureInv.single (h : EnsureInv limits p) {key : SessionKey} {i j : Nat}
    (hi : p.Creates key i) (hj : p.Creates key j) : i = j := by
  obtain ⟨l, hi⟩ := hi
  obtain ⟨l', hj⟩ := hj
  have hlock : some l = some l' := (h.keyed i _ hi).symm.trans (h.keyed j _ hj)
  obtain rfl := Option.some.inj hlock
  by_contra hne
  have hcard : ({i, j} : Finset Nat).card ≤ 1 := by
    refine (h.locks l).card_le fun k hk => ?_
    rcases Finset.mem_insert.mp hk with rfl | hk
    · rw [Function.comp_apply, hi]
      exact if_pos rfl
    · obtain rfl := Finset.mem_singleton.mp hk
      rw [Function.comp_apply, hj]
      exact if_pos rfl
  rw [Finset.card_pair hne] at hcard
  exact absurd hcard (by decide)

theorem ExecInv.refused_global (h : ExecInv limits p) {j : Nat}
    (hnone : p.execGlobal.tryAcquire j = none) : p.GlobalFull limits := by
  obtain ⟨calls, hcard, hcalls⟩ := h.global.all_given (Semaphore.available_of_refused hnone)
  refine ⟨calls, hcard, fun i hi => ?_⟩
  have hrole := (hcalls i hi).2
  rw [Function.comp_apply] at hrole
  unfold SessionPool.HoldsGlobal
  -- no call waits for a global permit
  cases he : p.execs i with
  | none => rw [he] at hrole; exact absurd rfl hrole
  | some e =>
    rw [he] at hrole
    obtain ⟨user, phase⟩ := e
    cases phase <;> first | rfl | exact absurd rfl hrole

theorem ExecInv.refused_identity (h : ExecInv limits p) {user : String} {s j : Nat}
    (hmem : (user, s) ∈ p.execPerIdentity) (hnone : (p.sems s).permits.tryAcquire j = none) :
    p.IdentityFull limits user := by
  obtain ⟨calls, hcard, hcalls⟩ := (h.sems s).all_given (Semaphore.available_of_refused hnone)
  refine ⟨calls, hcard, fun i hi => (h.holds_iff hmem).mp ?_⟩
  have hrole := (hcalls i hi).2
  rw [Function.comp_apply] at hrole
  cases he : p.execs i with
  | none => rw [he] at hrole; exact absurd rfl hrole
  | some e =>
    rw [he] at hrole
    by_contra hnot
    exact hrole (if_neg fun hpermit => hnot (by rw [semRole, if_pos hpermit]))

/-- A call of `exec_permit` within the bounds, which nothing interrupts, gets its
permits. -/
theorem PoolInv.acquires (h : PoolInv limits p) {user : String} (hglobal : ¬ p.GlobalFull limits)
    (hidentity : ¬ p.IdentityFull limits user) :
    ∃ p₁ p₂ p₃ s, poolStep limits p (.exec user) = some p₁ ∧
      poolStep limits p₁ (.key p.nextCall) = some p₂ ∧
      poolStep limits p₂ (.take p.nextCall) = some p₃ ∧
      p₃.execs p.nextCall = some ⟨user, .holding s⟩ := by
  obtain ⟨global, htry⟩ : ∃ global, p.execGlobal.tryAcquire p.nextCall = some global :=
    Option.ne_none_iff_exists'.mp fun hnone => hglobal (h.exec.refused_global hnone)
  obtain ⟨p₁, hp₁, h₁⟩ : ∃ p₁, poolStep limits p (.exec user) = some p₁ ∧
      p₁.execs = Function.update p.execs p.nextCall (some ⟨user, .admitted⟩) :=
    ⟨_, by rw [poolStep, htry], rfl⟩
  have hinv₁ := h.exec.exec hp₁
  have hi₁ : p₁.execs p.nextCall = some ⟨user, .admitted⟩ := by rw [h₁, Function.update_self]
  obtain ⟨hmem, -, -, -, -, hexecs, -⟩ :=
    And.intro (hinv₁.identitySemaphore user).2 (@identitySemaphore_frame limits p₁ user)
  obtain ⟨p₂, s, hp₂, h₂, hmap⟩ : ∃ p₂ s, poolStep limits p₁ (.key p.nextCall) = some p₂ ∧
      p₂.execs = Function.update p₁.execs p.nextCall (some ⟨user, .keyed s⟩) ∧
      (user, s) ∈ p₂.execPerIdentity := by
    refine ⟨((p₁.identitySemaphore limits user).1.takeHandle (p₁.identitySemaphore limits user).2
      p.nextCall).setExec p.nextCall (some ⟨user, .keyed (p₁.identitySemaphore limits user).2⟩),
      (p₁.identitySemaphore limits user).2, by rw [poolStep, hi₁]; rfl, ?_, hmem⟩
    simp only [setExec, takeHandle, setSem, hexecs]
  have hinv₂ := hinv₁.key hp₂
  have hi₂ : p₂.execs p.nextCall = some ⟨user, .keyed s⟩ := by rw [h₂, Function.update_self]
  have hholds {j : Nat} (hj : p₂.HoldsPermit user j) : p.HoldsPermit user j := by
    obtain ⟨e, t, he, huser, hpermit⟩ := hj
    have hne : j ≠ p.nextCall := by
      rintro rfl
      rw [hi₂] at he
      obtain rfl := Option.some.inj he
      cases hpermit
    rw [h₂, Function.update_of_ne hne, h₁, Function.update_of_ne hne] at he
    exact ⟨e, t, he, huser, hpermit⟩
  obtain ⟨permits, htake⟩ : ∃ permits, (p₂.sems s).permits.tryAcquire p.nextCall = some permits :=
    Option.ne_none_iff_exists'.mp fun hnone => by
      obtain ⟨calls, hcard, hcalls⟩ := hinv₂.refused_identity hmap hnone
      exact hidentity ⟨calls, hcard, fun i hi => hholds (hcalls i hi)⟩
  refine ⟨p₁, p₂, { (p₂.setSem s { p₂.sems s with permits }).setExec p.nextCall
    (some ⟨user, .holding s⟩) with execInflight := p₂.execInflight + 1 }, s, hp₁, hp₂, ?_, ?_⟩
  · rw [poolStep, hi₂]
    simp only [Option.bind_some, htake]
  · simp only [setExec, setSem, Function.update_self]

theorem EnsureInv.start_waits (h : EnsureInv limits p) {key : SessionKey} {l : Nat}
    (hi : p.ensures i = some ⟨key, .starting l⟩) (hwaits : i ∉ p.starts.held) :
    ∃ calls : Finset Nat, calls.card = limits.maxStarts ∧ ∀ j ∈ calls, j ≠ i ∧
      j ∈ p.starts.held ∧ startsRole (p.ensures j) ≠ .idle := by
  have hrole : (startsRole ∘ p.ensures) i = .waits := (ensure_roles hi).1
  obtain ⟨calls, hcard, hcalls⟩ := h.starts.all_given (h.starts.available_of_waits hrole hwaits)
  refine ⟨calls, hcard, fun j hj => ?_⟩
  obtain ⟨hheld, hused⟩ := hcalls j hj
  exact ⟨fun hji => hwaits (hji ▸ hheld), hheld, hused⟩

theorem EnsureInv.lock_waits (h : EnsureInv limits p) {key : SessionKey} {l : Nat}
    (hi : p.ensures i = some ⟨key, .locking l⟩) (hwaits : i ∉ (p.locks l).held) :
    ∃ j, j ≠ i ∧ j ∈ (p.locks l).held ∧ lockRole l (p.ensures j) ≠ .idle := by
  have hrole : (lockRole l ∘ p.ensures) i = .waits := (ensure_roles hi).2
  obtain ⟨calls, hcard, hcalls⟩ :=
    (h.locks l).all_given ((h.locks l).available_of_waits hrole hwaits)
  obtain ⟨j, hj⟩ := Finset.card_pos.mp (hcard ▸ Nat.one_pos)
  obtain ⟨hheld, hused⟩ := hcalls j hj
  exact ⟨j, fun hji => hwaits (hji ▸ hheld), hheld, hused⟩

/-- The bounds, and that no permit is lost: a permit is refused or waited for only
where as many calls have one as there are. -/
structure PoolBounds (limits : SessionLimits) (p : SessionPool) : Prop where
  per_identity : ∀ (user : String) (calls : Finset Nat), (∀ i ∈ calls, p.HoldsPermit user i) →
    calls.card ≤ limits.maxExecPerIdentity
  global : ∀ calls : Finset Nat, (∀ i ∈ calls, p.HoldsGlobal i) →
    calls.card ≤ limits.maxExecGlobal
  starts : ∀ calls : Finset Nat, (∀ i ∈ calls, ∃ key, p.Creates key i) →
    calls.card ≤ limits.maxStarts
  single : ∀ key i j, p.Creates key i → p.Creates key j → i = j
  one_semaphore : ∀ i j e d s t, p.execs i = some e → p.execs j = some d → e.user = d.user →
    e.phase.permit = some s → d.phase.permit = some t → s = t
  admitted : ∀ user p', poolStep limits p (.exec user) = some p' →
    p'.execs p.nextCall = none → p.GlobalFull limits
  taken : ∀ user i p', poolStep limits p (.take i) = some p' →
    p'.execs i = some ⟨user, .refused⟩ → p.IdentityFull limits user
  acquires : ∀ user, ¬ p.GlobalFull limits → ¬ p.IdentityFull limits user →
    ∃ p₁ p₂ p₃ s, poolStep limits p (.exec user) = some p₁ ∧
      poolStep limits p₁ (.key p.nextCall) = some p₂ ∧
      poolStep limits p₂ (.take p.nextCall) = some p₃ ∧
      p₃.execs p.nextCall = some ⟨user, .holding s⟩
  start_waits : ∀ i key l, p.ensures i = some ⟨key, .starting l⟩ → i ∉ p.starts.held →
    ∃ calls : Finset Nat, calls.card = limits.maxStarts ∧ ∀ j ∈ calls, j ≠ i ∧
      j ∈ p.starts.held ∧ startsRole (p.ensures j) ≠ .idle
  lock_waits : ∀ i key l, p.ensures i = some ⟨key, .locking l⟩ → i ∉ (p.locks l).held →
    ∃ j, j ≠ i ∧ j ∈ (p.locks l).held ∧ lockRole l (p.ensures j) ≠ .idle

theorem PoolInv.admitted (h : PoolInv limits p) {user : String}
    (hs : poolStep limits p (.exec user) = some p') (hrefused : p'.execs p.nextCall = none) :
    p.GlobalFull limits := by
  cases htry : p.execGlobal.tryAcquire p.nextCall with
  | none => exact h.exec.refused_global htry
  | some global =>
    rw [poolStep, htry] at hs
    obtain rfl := Option.some.inj hs
    simp only [setExec, Function.update_self] at hrefused
    cases hrefused

theorem PoolInv.taken (h : PoolInv limits p) {user : String}
    (hs : poolStep limits p (.take i) = some p')
    (hrefused : p'.execs i = some ⟨user, .refused⟩) : p.IdentityFull limits user := by
  obtain ⟨user', s, hi, ⟨permits, -, rfl⟩ | ⟨htry, rfl⟩⟩ := poolStep_take hs
  · simp only [setExec, Function.update_self] at hrefused
    cases hrefused
  · simp only [setExec, Function.update_self] at hrefused
    cases hrefused
    exact h.exec.refused_identity (h.exec.keyed i _ s hi rfl) htry

/-- Whatever the order of calls, waits, cancellations, prunes and drops, browse
sessions stay within their bounds and lose no permit. -/
theorem session_pool_bounds (limits : SessionLimits) {p : SessionPool} (h : PoolRun limits p) :
    PoolBounds limits p where
  per_identity _ _ := h.inv.exec.card_permits_le
  global _ hcalls := h.inv.exec.global.card_le hcalls
  starts _ hcalls := h.inv.ensure.starts.card_le fun i hi => by
    obtain ⟨key, l, hcreates⟩ := hcalls i hi
    rw [Function.comp_apply, hcreates]
    rfl
  single _ _ _ := h.inv.ensure.single
  one_semaphore _ _ _ _ _ _ hi hj huser hs ht :=
    h.inv.exec.one_semaphore hi hj huser (permit_sem hs) (permit_sem ht)
  admitted _ _ := h.inv.admitted
  taken _ _ _ := h.inv.taken
  acquires _ := h.inv.acquires
  start_waits _ _ _ := h.inv.ensure.start_waits
  lock_waits _ _ _ := h.inv.ensure.lock_waits

/-- Two calls of one identity, the second past its bound. -/
theorem session_pool_bounds_two : ∃ p, PoolBounds ⟨2, 1, 8⟩ p ∧
    p.execs 0 = some ⟨"alice", .holding 0⟩ ∧ p.execs 1 = some ⟨"alice", .refused⟩ := by
  have hrun : PoolRun ⟨2, 1, 8⟩ _ :=
    ((((((Reaches.refl.tail trivial (a := .exec "alice") rfl).tail trivial (a := .key 0) rfl).tail
      trivial (a := .take 0) rfl).tail trivial (a := .exec "alice") rfl).tail trivial
      (a := .key 1) rfl).tail trivial (a := .take 1) rfl)
  exact ⟨_, session_pool_bounds _ hrun, rfl, rfl⟩

end Kopiur.Ui
