import Kopiur.Controller.Leader
import Kopiur.Lib.Runs

/-!
# At most one replica leads

Any number of replicas, each named by its identity, on clocks that differ by
any amount. The Lease of the store always names the replica that leads: a
write that would name another is stale, unless it takes over an expired Lease.
That is safe as long as the holder was not late to learn of its last renewal,
and its Lease is not deleted.
-/

namespace Kopiur

open Lib

-- What a replica's own steps do

/-- Why a replica sends a write after reading a Lease. -/
inductive Issues (t : LeaseTimings) (identity : String) (now : Instant) (r : Replica) (task : Task) :
    Option Lease → LeaseWrite → Prop
  | create {spec : Option LeaseSpec} (own : specHolder spec = some identity) :
      Issues t identity now r task none (.create spec)
  | renew {lease : Lease} {spec : Option LeaseSpec} (own : specHolder spec = some identity)
      (held : specHolder lease.value = some identity) :
      Issues t identity now r task (some lease) (.replace lease.version spec)
  | claim {lease : Lease} {spec : Option LeaseSpec} (own : specHolder spec = some identity)
      (unheld : specHolder lease.value = none) :
      Issues t identity now r task (some lease) (.replace lease.version spec)
  | takeover {lease : Lease} {spec : Option LeaseSpec} {holder : String} {since : Instant}
      (own : specHolder spec = some identity) (held : specHolder lease.value = some holder)
      (expired : r.takeover t identity now task = some (holder, since)) :
      Issues t identity now r task (some lease) (.replace lease.version spec)
  | release {lease : Lease} {spec : Option LeaseSpec} (cleared : specHolder spec = none)
      (held : specHolder lease.value = some identity) (main : task = .main)
      (releasing : r.main.isReleasing = true) :
      Issues t identity now r task (some lease) (.replace lease.version spec)

/-- Where an attempt comes from: it is as before, or new, or has sent a write. -/
inductive Proceeds (t : LeaseTimings) (identity : String) (now : Instant) (delivered : Option Task)
    (r : Replica) (task : Task) (main : Main) (a' : Attempt) : Prop
  | same (h : r.attempt task = some a')
      (phase : task = .main → main.isReleasing = r.main.isReleasing)
  | started (h : a'.stage = .getting)
  | wrote {a : Attempt} {lease : Option Lease} {w : LeaseWrite} (attempt : r.attempt task = some a)
      (got : a.stage = .got lease) (writing : a'.stage = .writing w)
      (issues : Issues t identity now r task lease w)
      (phase : main.isReleasing = r.main.isReleasing) (delivery : delivered = some task)

def LocalAction.delivered : LocalAction → Option Task
  | deliver task _ => some task
  | start | crash | shutdown | forbidden | resume _ | timeout _ | fail _ => none

/-- What a step of its own makes of a replica. Leadership comes from a
confirmed write only. -/
structure LocalEffect (t : LeaseTimings) (identity : String) (now : Instant)
    (delivered : Option Task) (r r' : Replica) : Prop where
  attempts : ∀ task a', r'.attempt task = some a' →
    Proceeds t identity now delivered r task r'.main a'
  awaiting : r'.awaiting = true → r.awaiting = true
  safeUntil : ∀ u, r'.safeUntil t = some u → r.awaiting = true ∨ r.safeUntil t = some u

theorem actOnObservation_issues {t : LeaseTimings} {identity : String} {now : Instant} {stamp : Timestamp}
    {r : Replica} {task : Task} {a : Attempt} {o : Observation} {lease : Option Lease}
    {w : LeaseWrite} (ha : r.attempt task = some a) (ho : r.observation task = some o)
    (hgot : a.stage = .got lease)
    (hact : actOnObservation t identity lease (now - (o.track (leaseView lease) now).since) stamp =
      some w) : Issues t identity now r task lease w := by
  cases lease with
  | none =>
    cases hact
    exact .create rfl
  | some l =>
    have hholder : (l.value.getD {}).holderIdentity = specHolder l.value := by
      cases l.value <;> rfl
    simp only [actOnObservation, hholder] at hact
    cases hspec : specHolder l.value with
    | none =>
      simp only [hspec, decideLease, Option.some.injEq] at hact
      subst hact
      exact .claim rfl hspec
    | some h =>
      simp only [hspec, decideLease] at hact
      by_cases hown : h = identity
      · subst hown
        simp only [if_true, Option.some.injEq] at hact
        subst hact
        refine .renew ?_ hspec
        simp [specHolder]
      · rw [if_neg hown] at hact
        by_cases hexpired : t.leaseDuration < now - (o.track (leaseView (some l)) now).since
        · simp only [hexpired, if_true, Option.some.injEq] at hact
          subst hact
          have htakeover : r.takeover t identity now task =
              some (h, (o.track (leaseView (some l)) now).since) := by
            simp [Replica.takeover, ha, ho, hgot, hspec, hown, hexpired]
          exact .takeover rfl hspec htakeover
        · simp [hexpired] at hact

section Local

variable {t : LeaseTimings} {identity : String} {now : Instant} {stamp : Timestamp}
  {r r' : Replica} {task : Task} {d : Option Task}

theorem LocalEffect.refl : LocalEffect t identity now d r r :=
  ⟨fun _ _ h => .same h fun _ => rfl, id, fun _ => .inr⟩

theorem exited_effect : LocalEffect t identity now d r { main := .exited } :=
  ⟨fun task _ h => (by cases task <;> cases h), fun h => (by cases h), fun _ h => (by cases h)⟩

theorem main_effect {m : Main}
    (attempts : ∀ a', Replica.attempt { r with main := m } .main = some a' →
      Proceeds t identity now d r .main m a')
    (awaiting : Replica.awaiting { r with main := m } = true → r.awaiting = true)
    (safeUntil : ∀ u, Replica.safeUntil t { r with main := m } = some u →
      r.awaiting = true ∨ r.safeUntil t = some u) :
    LocalEffect t identity now d r { r with main := m } := by
  refine ⟨fun task a' h => ?_, awaiting, safeUntil⟩
  cases task with
  | main => exact attempts a' h
  | renewal => exact .same h fun h => (by cases h)

theorem renewal_effect {rn rn' : Renewal} (hrn : r.renewal = some rn)
    (attempts : ∀ a', (r.setRenewal rn').attempt .renewal = some a' →
      Proceeds t identity now d r .renewal r.main a')
    (unanswered : Replica.answered ((r.setRenewal rn').attempt .renewal) = false)
    (lastRenewed : rn'.lastRenewed = rn.lastRenewed) :
    LocalEffect t identity now d r (r.setRenewal rn') := by
  obtain ⟨main, renewal⟩ := r
  cases hrn
  refine ⟨fun task a' h => ?_, fun h => ?_, fun u h => .inr ?_⟩
  · cases task with
    | main => exact .same h fun _ => rfl
    | renewal => exact attempts a' h
  · cases main with
    | leading => exact absurd h (by simpa [Replica.awaiting, Replica.setRenewal] using unanswered)
    | exited | degraded | campaigning c | reconfirming c | releasing a => exact h
  · cases main with
    | leading => simpa [Replica.safeUntil, Replica.setRenewal, lastRenewed] using h
    | exited | degraded | campaigning c | reconfirming c | releasing a => exact h

theorem abandon_effect : LocalEffect t identity now d r (r.abandon t now task) := by
  obtain ⟨main, renewal⟩ := r
  cases task with
  | main =>
    cases main with
    | exited | degraded | leading => exact .refl
    | releasing a => exact exited_effect
    | campaigning c =>
      exact main_effect (fun _ h => (by cases h)) (fun h => (by cases h)) (fun _ h => (by cases h))
    | reconfirming c =>
      exact main_effect (fun _ h => (by cases h)) (fun h => (by cases h)) (fun _ => .inr)
  | renewal =>
    cases renewal with
    | none => exact .refl
    | some rn =>
      obtain ⟨observation, lastRenewed, stage⟩ := rn
      cases stage with
      | sleeping wake => exact .refl
      | round closes wake attempt => exact renewal_effect rfl (fun _ h => (by cases h)) rfl rfl

theorem lostToPeer_effect : LocalEffect t identity now d r r.lostToPeer := by
  obtain ⟨main, renewal⟩ := r
  cases main with
  | leading => exact exited_effect
  | exited | degraded | campaigning c | reconfirming c | releasing a =>
    refine ⟨fun task a' h => ?_, id, fun _ => .inr⟩
    cases task with
    | main => exact .same h fun _ => rfl
    | renewal => cases h

theorem rejected_effect {rn rn' : Renewal} {closes : Instant} {holder : Option String}
    (hrn : r.renewal = some rn) (hlast : rn'.lastRenewed = rn.lastRenewed) :
    LocalEffect t identity now d r (r.rejected t identity now rn' closes holder) := by
  rw [Replica.rejected]
  split
  · exact renewal_effect hrn (fun _ h => (by cases h)) rfl hlast
  · exact lostToPeer_effect

theorem renewFailed_effect {rn : Renewal} (hrn : r.renewal = some rn) :
    LocalEffect t identity now d r (r.renewFailed t now rn) := by
  obtain ⟨main, renewal⟩ := r
  cases hrn
  cases main with
  | leading =>
    refine ⟨fun task a' h => (by cases task <;> cases h), fun h => (by cases h), fun u h => .inr ?_⟩
    exact h
  | exited | degraded | campaigning c | reconfirming c | releasing a =>
    refine ⟨fun task a' h => ?_, id, fun _ => .inr⟩
    cases task with
    | main => exact .same h fun _ => rfl
    | renewal => cases h

theorem resume_effect (h : r.resume t now task = some r') : LocalEffect t identity now d r r' := by
  obtain ⟨main, renewal⟩ := r
  have hstarted : ∀ {a a' : Attempt} {m : Main}, some a = some a' → a.stage = .getting →
      Proceeds t identity now d ⟨main, renewal⟩ task m a' := by
    rintro a _ m ⟨⟩ hstage
    exact .started hstage
  cases task with
  | main =>
    cases main with
    | exited | degraded | leading => cases h
    | campaigning c =>
      simp only [Replica.resume, Option.ite_none_right_eq_some, Option.some.injEq] at h
      obtain ⟨-, rfl⟩ := h
      exact main_effect (fun _ h => hstarted h rfl) (fun h => (by cases h))
        (fun _ h => (by cases h))
    | reconfirming c =>
      simp only [Replica.resume, Option.ite_none_right_eq_some] at h
      obtain ⟨-, h⟩ := h
      split at h
      · cases h
        exact exited_effect
      · cases h
        exact main_effect (fun _ h => hstarted h rfl) (fun h => (by cases h)) (fun _ => .inr)
    | releasing attempt =>
      cases attempt with
      | some a => cases h
      | none =>
        cases h
        exact main_effect (fun _ h => hstarted h rfl) (fun h => (by cases h))
          (fun _ h => (by cases h))
  | renewal =>
    cases renewal with
    | none => cases h
    | some rn =>
      obtain ⟨observation, lastRenewed, stage⟩ := rn
      cases stage with
      | sleeping wake =>
        simp only [Replica.resume, Option.bind_some, Option.ite_none_right_eq_some,
          Option.some.injEq] at h
        obtain ⟨-, rfl⟩ := h
        exact renewal_effect rfl (fun _ h => (by cases h)) rfl rfl
      | round closes wake attempt =>
        cases attempt with
        | some a => cases h
        | none =>
          simp only [Replica.resume, Option.bind_some, Option.ite_none_right_eq_some] at h
          obtain ⟨-, h⟩ := h
          split at h
          · cases h
            exact renewFailed_effect rfl
          · cases h
            exact renewal_effect rfl (fun _ h => hstarted h rfl) rfl rfl

theorem confirmed_effect (h : r.awaiting = true) :
    LocalEffect t identity now d r { main := .leading, renewal := some (spawnRenewal t now) } :=
  ⟨fun task _ h => (by cases task <;> cases h), fun h => (by cases h), fun _ _ => .inl h⟩

theorem answered_some {a : Attempt} :
    Replica.answered (some a) = true ↔ a.stage = .wrote true := by
  simp [Replica.answered]

theorem acquire_effect {c : Campaign} {a : Attempt} (hmain : r.main = .campaigning c)
    (hattempt : c.attempt = some a) (h : r.acquire t identity now stamp c a = some r') :
    LocalEffect t identity now (some .main) r r' := by
  have ha : r.attempt .main = some a := by
    rw [Replica.attempt, hmain]
    exact hattempt
  rw [Replica.acquire] at h
  cases hstage : a.stage with
  | getting | writing w => simp [hstage] at h
  | got lease =>
    simp only [hstage] at h
    split at h
    case h_1 w hact =>
      cases h
      refine main_effect (fun a' h => ?_) (fun h => (by cases h)) (fun _ h => (by cases h))
      cases h
      have ho : r.observation .main = some c.observation := by rw [Replica.observation, hmain]
      refine .wrote ha hstage rfl (actOnObservation_issues ha ho hstage hact) ?_ rfl
      rw [hmain]
      rfl
    case h_2 =>
      cases h
      exact main_effect (fun _ h => (by cases h)) (fun h => (by cases h)) (fun _ h => (by cases h))
  | wrote ok =>
    cases ok with
    | true =>
      simp only [hstage, Option.some.injEq] at h
      subst h
      exact confirmed_effect (by rw [Replica.awaiting, hmain, ha]; exact answered_some.mpr hstage)
    | false =>
      simp only [hstage, Option.some.injEq] at h
      subst h
      exact main_effect (fun _ h => (by cases h)) (fun h => (by cases h)) (fun _ h => (by cases h))

theorem specHolder_getD {lease : Lease} (h : specHolder lease.value = some identity) :
    (lease.value.getD {}).holderIdentity = some identity := by
  cases hv : lease.value with
  | none => simp [hv, specHolder] at h
  | some spec => simpa [hv, specHolder] using h

theorem reconfirm_effect {c : Reconfirm} {a : Attempt} (hmain : r.main = .reconfirming c)
    (hattempt : c.attempt = some a) (h : r.reconfirm t identity now stamp c a = some r') :
    LocalEffect t identity now (some .main) r r' := by
  have ha : r.attempt .main = some a := by
    rw [Replica.attempt, hmain]
    exact hattempt
  have hsafe : r.safeUntil t = some c.safeUntil := by rw [Replica.safeUntil, hmain]
  rw [Replica.reconfirm] at h
  cases hstage : a.stage with
  | getting | writing w => simp [hstage] at h
  | got lease =>
    cases lease with
    | none =>
      simp only [hstage, Option.some.injEq] at h
      exact h ▸ exited_effect
    | some lease =>
      simp only [hstage] at h
      split at h
      case isTrue hown =>
        cases h
        refine main_effect (fun a' h => ?_) (fun h => (by cases h)) (fun u h => .inr (hsafe.trans h))
        cases h
        refine .wrote ha hstage rfl (.renew (specHolder_getD hown) hown) ?_ rfl
        rw [hmain]
        rfl
      case isFalse =>
        cases h
        exact exited_effect
  | wrote ok =>
    cases ok with
    | true =>
      simp only [hstage, Option.some.injEq] at h
      subst h
      exact confirmed_effect (by rw [Replica.awaiting, hmain, ha]; exact answered_some.mpr hstage)
    | false =>
      simp only [hstage, Option.some.injEq] at h
      subst h
      exact main_effect (fun _ h => (by cases h)) (fun h => (by cases h))
        (fun u h => .inr (hsafe.trans h))

theorem release_effect {a : Attempt} (hmain : r.main = .releasing (some a))
    (h : r.release identity a = some r') : LocalEffect t identity now (some .main) r r' := by
  have ha : r.attempt .main = some a := by rw [Replica.attempt, hmain]
  rw [Replica.release] at h
  cases hstage : a.stage with
  | getting | writing w => simp [hstage] at h
  | got lease =>
    cases lease with
    | none =>
      simp only [hstage, Option.some.injEq] at h
      exact h ▸ exited_effect
    | some lease =>
      simp only [hstage] at h
      split at h
      case isTrue hown =>
        cases h
        refine main_effect (fun a' h => ?_) (fun h => (by cases h)) (fun _ h => (by cases h))
        cases h
        have hreleasing : r.main.isReleasing = true := by rw [hmain]; rfl
        exact .wrote ha hstage rfl (.release rfl hown rfl hreleasing) hreleasing.symm rfl
      case isFalse =>
        cases h
        exact exited_effect
  | wrote ok =>
    simp only [hstage, Option.some.injEq] at h
    exact h ▸ exited_effect

theorem renewAttempt_effect {rn : Renewal} {closes wake : Instant} {a : Attempt}
    (hrn : r.renewal = some rn) (hround : rn.stage = .round closes wake (some a))
    (h : r.renewAttempt t identity now stamp rn closes wake a = some r') :
    LocalEffect t identity now (some .renewal) r r' := by
  have ha : r.attempt .renewal = some a := by
    obtain ⟨observation, lastRenewed, stage⟩ := rn
    cases hround
    rw [Replica.attempt, hrn]
  rw [Replica.renewAttempt] at h
  cases hstage : a.stage with
  | getting | writing w => simp [hstage] at h
  | got lease =>
    simp only [hstage] at h
    split at h
    case h_1 w hact =>
      cases h
      refine renewal_effect hrn (fun a' h => ?_) rfl rfl
      cases h
      have ho : r.observation .renewal = some rn.observation := by
        rw [Replica.observation, hrn]
        rfl
      exact .wrote ha hstage rfl (actOnObservation_issues ha ho hstage hact) rfl rfl
    case h_2 =>
      cases h
      exact rejected_effect hrn rfl
  | wrote ok =>
    cases ok with
    | true =>
      simp only [hstage, Option.some.injEq] at h
      subst h
      obtain ⟨main, renewal⟩ := r
      cases hrn
      refine ⟨fun task a' h => ?_, fun h => ?_, fun u h => ?_⟩
      · cases task with
        | main => exact .same h fun _ => rfl
        | renewal => cases h
      · cases main with
        | leading => cases h
        | exited | degraded | campaigning c | reconfirming c | releasing a => exact h
      · cases main with
        | leading =>
          left
          simpa [Replica.awaiting, ha] using answered_some.mpr hstage
        | exited | degraded | campaigning c | reconfirming c | releasing a => exact .inr h
    | false =>
      simp only [hstage, Option.some.injEq] at h
      exact h ▸ rejected_effect hrn rfl

theorem deliver_effect (h : r.deliver t identity now stamp task = some r') :
    LocalEffect t identity now (some task) r r' := by
  cases task with
  | main =>
    rw [Replica.deliver] at h
    split at h
    case h_1 c hmain =>
      obtain ⟨a, ha, h⟩ := Option.bind_eq_some_iff.mp h
      exact acquire_effect hmain ha h
    case h_2 c hmain =>
      obtain ⟨a, ha, h⟩ := Option.bind_eq_some_iff.mp h
      exact reconfirm_effect hmain ha h
    case h_3 attempt hmain =>
      obtain ⟨a, rfl, h⟩ := Option.bind_eq_some_iff.mp h
      exact release_effect hmain h
    all_goals cases h
  | renewal =>
    rw [Replica.deliver] at h
    split at h
    case h_2 => cases h
    case h_1 rn hrn =>
      split at h
      case h_2 => cases h
      case h_1 closes wake attempt hround =>
        obtain ⟨a, rfl, h⟩ := Option.bind_eq_some_iff.mp h
        exact renewAttempt_effect hrn hround h

theorem localStep_effect {action : LocalAction} (h : localStep t identity now r action = some r') :
    LocalEffect t identity now action.delivered r r' := by
  cases action with
  | crash =>
    cases h
    exact exited_effect
  | resume task => exact resume_effect h
  | deliver task stamp => exact deliver_effect h
  | timeout task =>
    obtain ⟨a, -, h⟩ := Option.bind_eq_some_iff.mp h
    obtain ⟨-, h⟩ := Option.ite_none_right_eq_some.mp h
    cases h
    exact abandon_effect
  | fail task =>
    obtain ⟨a, -, rfl⟩ := Option.map_eq_some_iff.mp h
    exact abandon_effect
  | start =>
    rw [localStep] at h
    split at h
    · cases h
      exact ⟨fun task _ h => (by cases task <;> cases h), fun h => (by cases h),
        fun _ h => (by cases h)⟩
    · cases h
  | shutdown =>
    rw [localStep] at h
    split at h
    · cases h
      exact main_effect (fun _ h => (by cases h)) (fun h => (by cases h)) (fun _ h => (by cases h))
    · cases h
  | forbidden =>
    rw [localStep] at h
    split at h
    · cases h
      exact ⟨fun task _ h => (by cases task <;> cases h), fun h => (by cases h),
        fun _ h => (by cases h)⟩
    · cases h

end Local

/-- All replicas with the store, and the writes that nobody waits for. -/
structure Election where
  now : Int
  store : CasCell (Option LeaseSpec)
  orphans : List LeaseWrite
  replicas : String → Replica

inductive ElectionAction
  | tick (d : Nat)
  | act (identity : String) (action : LocalAction)
  | serve (identity : String) (task : Task)
  | arrive (w : LeaseWrite)
  /-- Somebody else writes the Lease and leaves its spec alone. -/
  | annotate
  /-- Somebody else deletes the Lease. -/
  | delete
deriving DecidableEq

namespace Election

def init (now : Int) (store : CasCell (Option LeaseSpec)) : Election where
  now
  store
  orphans := []
  replicas := fun _ => {}

def set (s : Election) (identity : String) (r : Replica) : Election :=
  { s with replicas := fun i => if i = identity then r else s.replicas i }

theorem set_self (s : Election) (identity : String) (r : Replica) :
    (s.set identity r).replicas identity = r := if_pos rfl

theorem set_ne (s : Election) {identity i : String} (r : Replica) (h : i ≠ identity) :
    (s.set identity r).replicas i = s.replicas i := if_neg h

def served (s : Election) (w : LeaseWrite) : CasCell (Option LeaseSpec) :=
  if s.store.accepts w then s.store.put w.value else s.store

section Step

variable (t : LeaseTimings) (skew : String → Int)

def clock (s : Election) (identity : String) : Instant := s.now + skew identity

def step (s : Election) : ElectionAction → Option Election
  | .tick d => some { s with now := s.now + d }
  | .act identity action =>
    let r := s.replicas identity
    (localStep t identity (s.clock skew identity) r action).map fun r' =>
      { s.set identity r' with
        orphans := s.orphans ++ r.requests.filter fun w => w ∉ r'.requests }
  | .serve identity task =>
    let r := s.replicas identity
    (r.attempt task).bind fun a =>
      match a.stage with
      | .getting =>
        some (s.set identity (r.setAttempt (some { a with stage := .got s.store.current }) task))
      | .writing w =>
        let stage := .wrote (s.store.accepts w)
        some { s.set identity (r.setAttempt (some { a with stage }) task) with
          store := s.served w }
      | .got _ | .wrote _ => none
  | .arrive w =>
    if w ∈ s.orphans then some { s with orphans := s.orphans.erase w, store := s.served w }
    else none
  | .annotate => s.store.current.map fun v => { s with store := s.store.put v.value }
  | .delete => s.store.current.map fun _ => { s with store := s.store.delete }

/-- A replica that releases the Lease has stopped its work. -/
def leads (s : Election) (identity : String) : Bool :=
  ((s.replicas identity).safeUntil t).any fun u => decide (s.clock skew identity ≤ u)

/-- A takeover meets a holder that had its last write answered before the
taker began to time it, and a deletion meets a Lease whose holder does not lead. -/
def timely (s : Election) : ElectionAction → Bool
  | .act identity (.deliver task _) =>
    match (s.replicas identity).takeover t identity (s.clock skew identity) task with
    | some (holder, since) =>
      let r := s.replicas holder
      -- The instant on the holder's clock.
      let began := since - skew identity + skew holder
      !r.awaiting && (r.safeUntil t).all fun u => decide (u ≤ began + t.leaseDuration)
    | none => true
  | .delete => (s.store.current.bind fun lease => specHolder lease.value).all fun holder =>
    !s.leads t skew holder && !(s.replicas holder).awaiting
  | _ => true

end Step

end Election

-- The Lease names the leader

theorem mem_requests {r : Replica} {w : LeaseWrite} :
    w ∈ r.requests ↔ ∃ task a, r.attempt task = some a ∧ a.stage = .writing w := by
  rw [Replica.requests, List.mem_filterMap]
  constructor
  · rintro ⟨task, -, h⟩
    obtain ⟨a, ha, h⟩ := Option.bind_eq_some_iff.mp h
    refine ⟨task, a, ha, ?_⟩
    split at h
    case h_1 w' hstage =>
      cases h
      exact hstage
    all_goals cases h
  · rintro ⟨task, a, ha, hstage⟩
    refine ⟨task, by cases task <;> simp, ?_⟩
    simp [ha, hstage]

section Election

variable {t : LeaseTimings} {skew : String → Int} {s : Election}

def Election.Claims (t : LeaseTimings) (skew : String → Int) (s : Election) (identity : String) :
    Prop := s.leads t skew identity = true ∨ (s.replicas identity).awaiting = true

structure ElectionInv (t : LeaseTimings) (skew : String → Int) (s : Election) : Prop where
  holder : ∀ identity, s.Claims t skew identity →
    ∃ lease, s.store.current = some lease ∧ specHolder lease.value = some identity
  issued : ∀ w, (w ∈ s.orphans ∨ ∃ identity, w ∈ (s.replicas identity).requests) →
    w.Issued s.store.next ∧ (s.store.accepts w = true →
      ∀ identity, s.Claims t skew identity → specHolder w.value = some identity)
  own : ∀ identity task a w, (s.replicas identity).attempt task = some a → a.stage = .writing w →
    (task = .main → (s.replicas identity).main.isReleasing = false) →
      specHolder w.value = some identity
  read : ∀ identity task a lease, (s.replicas identity).attempt task = some a →
    a.stage = .got (some lease) → lease.version < s.store.next ∧
      ∀ v, s.store.current = some v → v.version = lease.version → v = lease

theorem ElectionInv.init (now : Int) (store : CasCell (Option LeaseSpec)) :
    ElectionInv t skew (.init now store) where
  holder := by
    rintro identity (h | h) <;> cases h
  issued := by
    rintro w (h | ⟨identity, h⟩) <;> cases h
  own := by
    intro identity task a w h
    cases task <;> cases h
  read := by
    intro identity task a lease h
    cases task <;> cases h

/-- Nothing new is on its way in `s'`. -/
structure Fewer (s s' : Election) : Prop where
  attempts : ∀ identity task a, (s'.replicas identity).attempt task = some a →
    (s.replicas identity).attempt task = some a ∨ ∃ ok, a.stage = .wrote ok
  main : ∀ identity, (s'.replicas identity).main.isReleasing =
    (s.replicas identity).main.isReleasing
  orphans : ∀ w ∈ s'.orphans, w ∈ s.orphans

section Fewer

variable {s' : Election}

theorem Fewer.inFlight (h : Fewer s s') {w : LeaseWrite}
    (hw : w ∈ s'.orphans ∨ ∃ identity, w ∈ (s'.replicas identity).requests) :
    w ∈ s.orphans ∨ ∃ identity, w ∈ (s.replicas identity).requests := by
  rcases hw with hw | ⟨identity, hw⟩
  · exact .inl (h.orphans w hw)
  · obtain ⟨task, a, ha, hstage⟩ := mem_requests.mp hw
    rcases h.attempts identity task a ha with ha | ⟨ok, hok⟩
    · exact .inr ⟨identity, mem_requests.mpr ⟨task, a, ha, hstage⟩⟩
    · cases hok.symm.trans hstage

theorem Fewer.own (h : Fewer s s') (inv : ElectionInv t skew s) :
    ∀ identity task a w, (s'.replicas identity).attempt task = some a → a.stage = .writing w →
      (task = .main → (s'.replicas identity).main.isReleasing = false) →
        specHolder w.value = some identity := by
  intro identity task a w ha hstage hconfers
  rcases h.attempts identity task a ha with ha | ⟨ok, hok⟩
  · exact inv.own identity task a w ha hstage (h.main identity ▸ hconfers)
  · cases hok.symm.trans hstage

theorem ElectionInv.keep (inv : ElectionInv t skew s) (h : Fewer s s')
    (hstore : s'.store = s.store)
    (hclaims : ∀ identity, s'.Claims t skew identity → s.Claims t skew identity) :
    ElectionInv t skew s' where
  holder identity hc := hstore ▸ inv.holder identity (hclaims identity hc)
  issued w hw := by
    obtain ⟨hissued, hkeeps⟩ := inv.issued w (h.inFlight hw)
    rw [hstore]
    exact ⟨hissued, fun hacc identity hc => hkeeps hacc identity (hclaims identity hc)⟩
  own := h.own inv
  read identity task a lease ha hstage := by
    rcases h.attempts identity task a ha with ha | ⟨ok, hok⟩
    · exact hstore ▸ inv.read identity task a lease ha hstage
    · cases hok.symm.trans hstage

theorem ElectionInv.put (inv : ElectionInv t skew s) (h : Fewer s s') {value : Option LeaseSpec}
    (hstore : s'.store = s.store.put value)
    (hholder : ∀ identity, s'.Claims t skew identity → specHolder value = some identity) :
    ElectionInv t skew s' where
  holder identity hc := ⟨⟨s.store.next, value⟩, by rw [hstore]; rfl, hholder identity hc⟩
  issued w hw := by
    have hissued := (inv.issued w (h.inFlight hw)).1
    rw [hstore]
    refine ⟨hissued.mono (Nat.le_succ _), fun hacc => ?_⟩
    rw [CasCell.not_accepts_put hissued] at hacc
    cases hacc
  own := h.own inv
  read identity task a lease ha hstage := by
    rcases h.attempts identity task a ha with ha | ⟨ok, hok⟩
    · have hlt := (inv.read identity task a lease ha hstage).1
      rw [hstore]
      refine ⟨hlt.trans (Nat.lt_succ_self _), ?_⟩
      rintro v ⟨⟩ hversion
      exact absurd hversion.symm hlt.ne
    · cases hok.symm.trans hstage

end Fewer

theorem leads_iff {identity : String} : s.leads t skew identity = true ↔
    ∃ u, (s.replicas identity).safeUntil t = some u ∧ s.clock skew identity ≤ u := by
  rw [Election.leads, Option.any_eq_true]
  simp

theorem inv_tick (inv : ElectionInv t skew s) (d : Nat) :
    ElectionInv t skew { s with now := s.now + d } := by
  refine inv.keep ⟨fun _ _ _ => .inl, fun _ => rfl, fun _ => id⟩ rfl fun identity hc => ?_
  refine hc.imp_left fun hleads => ?_
  obtain ⟨u, hu, hle⟩ := leads_iff.mp hleads
  refine leads_iff.mpr ⟨u, hu, le_trans ?_ hle⟩
  change (s.now + skew identity : Int) ≤ (s.now + d + skew identity : Int)
  omega

theorem inv_annotate (inv : ElectionInv t skew s) {v : Versioned (Option LeaseSpec)}
    (hv : s.store.current = some v) :
    ElectionInv t skew { s with store := s.store.put v.value } := by
  refine inv.put ⟨fun _ _ _ => .inl, fun _ => rfl, fun _ => id⟩ rfl fun identity hc => ?_
  obtain ⟨lease, hlease, hholder⟩ := inv.holder identity hc
  cases hv.symm.trans hlease
  exact hholder

theorem not_claims_of_deletable (inv : ElectionInv t skew s)
    (htimely : s.timely t skew .delete = true) (identity : String) :
    ¬ s.Claims t skew identity := by
  intro hc
  obtain ⟨lease, hlease, hholder⟩ := inv.holder identity hc
  simp only [Election.timely, hlease, Option.bind_some, hholder, Option.all_some,
    Bool.and_eq_true, Bool.not_eq_true'] at htimely
  rcases hc with hleads | hawaiting
  · exact Bool.false_ne_true (htimely.1.symm.trans hleads)
  · exact Bool.false_ne_true (htimely.2.symm.trans hawaiting)

theorem inv_delete (inv : ElectionInv t skew s)
    (hunclaimed : ∀ identity, ¬ s.Claims t skew identity) :
    ElectionInv t skew { s with store := s.store.delete } where
  holder identity hc := absurd hc (hunclaimed identity)
  issued w hw := ⟨(inv.issued w hw).1, fun _ identity hc => absurd hc (hunclaimed identity)⟩
  own := inv.own
  read identity task a lease ha hstage :=
    ⟨(inv.read identity task a lease ha hstage).1, by rintro v ⟨⟩⟩

theorem inv_arrive (inv : ElectionInv t skew s) {w : LeaseWrite} (hw : w ∈ s.orphans) :
    ElectionInv t skew { s with orphans := s.orphans.erase w, store := s.served w } := by
  have hfewer : Fewer s { s with orphans := s.orphans.erase w, store := s.served w } :=
    ⟨fun _ _ _ => .inl, fun _ => rfl, fun _ => List.mem_of_mem_erase⟩
  cases hacc : s.store.accepts w with
  | true =>
    have hstore : s.served w = s.store.put w.value := if_pos hacc
    exact inv.put hfewer hstore ((inv.issued w (.inl hw)).2 hacc)
  | false =>
    have hstore : s.served w = s.store := if_neg (by simp [hacc])
    exact inv.keep hfewer hstore fun _ => id

theorem claims_set_ne {identity i : String} {r : Replica} (hi : i ≠ identity) :
    (s.set identity r).Claims t skew i ↔ s.Claims t skew i := by
  rw [Election.Claims, Election.Claims, leads_iff, leads_iff, Election.set_ne _ _ hi]
  rfl

-- What serving an attempt does to its replica.

section SetAttempt

variable {r : Replica} {task : Task} {a a' : Attempt}

theorem attempt_setAttempt (ha : r.attempt task = some a) (task' : Task) :
    (r.setAttempt (some a') task).attempt task' =
      if task' = task then some a' else r.attempt task' := by
  obtain ⟨main, renewal⟩ := r
  cases task with
  | main => cases main <;> cases task' <;> first | rfl | cases ha
  | renewal =>
    cases renewal with
    | none => cases ha
    | some rn =>
      obtain ⟨observation, lastRenewed, stage⟩ := rn
      cases stage <;> cases task' <;> first | rfl | cases ha

theorem safeUntil_setAttempt (ha : r.attempt task = some a) :
    (r.setAttempt (some a') task).safeUntil t = r.safeUntil t := by
  obtain ⟨main, renewal⟩ := r
  cases task with
  | main => cases main <;> rfl
  | renewal =>
    cases renewal with
    | none => cases ha
    | some rn =>
      obtain ⟨observation, lastRenewed, stage⟩ := rn
      cases stage <;> cases main <;> rfl

theorem isReleasing_setAttempt : (r.setAttempt (some a') task).main.isReleasing =
    r.main.isReleasing := by
  obtain ⟨main, renewal⟩ := r
  cases task with
  | main => cases main <;> rfl
  | renewal =>
    cases renewal with
    | none => rfl
    | some rn =>
      obtain ⟨observation, lastRenewed, stage⟩ := rn
      cases stage <;> rfl

theorem awaiting_setAttempt (ha : r.attempt task = some a)
    (h : (r.setAttempt (some a') task).awaiting = true) :
    r.awaiting = true ∨
      (a'.stage = .wrote true ∧ (task = .main → r.main.isReleasing = false)) := by
  obtain ⟨main, renewal⟩ := r
  cases task with
  | main =>
    cases main with
    | campaigning c | reconfirming c =>
      exact .inr ⟨answered_some.mp h, fun _ => rfl⟩
    | exited | degraded | leading => cases ha
    | releasing attempt => cases h
  | renewal =>
    cases renewal with
    | none => cases ha
    | some rn =>
      obtain ⟨observation, lastRenewed, stage⟩ := rn
      cases stage with
      | sleeping wake => cases ha
      | round closes wake attempt =>
        cases main with
        | leading => exact .inr ⟨answered_some.mp h, fun h => (by cases h)⟩
        | exited | degraded | campaigning c | reconfirming c | releasing attempt => exact .inl h

end SetAttempt

section Serve

variable {identity : String} {task : Task} {a a' : Attempt}
  (ha : (s.replicas identity).attempt task = some a)

include ha

theorem attempt_served {i : String} {task' : Task} {b : Attempt}
    (h : ((s.set identity ((s.replicas identity).setAttempt (some a') task)).replicas i).attempt
      task' = some b) : b = a' ∨ (s.replicas i).attempt task' = some b := by
  by_cases hi : i = identity
  · subst hi
    rw [Election.set_self, attempt_setAttempt ha] at h
    split at h
    · exact .inl (Option.some.inj h).symm
    · exact .inr h
  · rw [Election.set_ne _ _ hi] at h
    exact .inr h

theorem isReleasing_served (i : String) :
    ((s.set identity ((s.replicas identity).setAttempt (some a') task)).replicas
      i).main.isReleasing = (s.replicas i).main.isReleasing := by
  by_cases hi : i = identity
  · subst hi
    rw [Election.set_self]
    exact isReleasing_setAttempt
  · rw [Election.set_ne _ _ hi]

theorem claims_served {i : String}
    (h : (s.set identity ((s.replicas identity).setAttempt (some a') task)).Claims t skew i) :
    s.Claims t skew i ∨ (i = identity ∧ a'.stage = .wrote true ∧
      (task = .main → (s.replicas identity).main.isReleasing = false)) := by
  by_cases hi : i = identity
  · subst hi
    rcases h with hleads | hawaiting
    · obtain ⟨u, hu, hle⟩ := leads_iff.mp hleads
      rw [Election.set_self, safeUntil_setAttempt ha] at hu
      exact .inl (.inl (leads_iff.mpr ⟨u, hu, hle⟩))
    · rw [Election.set_self] at hawaiting
      exact (awaiting_setAttempt ha hawaiting).imp .inr fun h => ⟨rfl, h⟩
  · exact .inl ((claims_set_ne hi).mp h)

theorem inv_serve_read (inv : ElectionInv t skew s) :
    ElectionInv t skew (s.set identity
      ((s.replicas identity).setAttempt (some { a with stage := .got s.store.current }) task)) := by
  have hclaims : ∀ i, (s.set identity ((s.replicas identity).setAttempt
      (some { a with stage := .got s.store.current }) task)).Claims t skew i →
      s.Claims t skew i := by
    intro i hc
    rcases claims_served ha hc with hc | ⟨-, hwrote, -⟩
    · exact hc
    · cases hwrote
  refine ⟨fun i hc => inv.holder i (hclaims i hc), ?_, ?_, ?_⟩
  · intro w hw
    have hw : w ∈ s.orphans ∨ ∃ i, w ∈ (s.replicas i).requests := by
      refine hw.imp_right fun ⟨i, hw⟩ => ⟨i, ?_⟩
      obtain ⟨task', b, hb, hwriting⟩ := mem_requests.mp hw
      rcases attempt_served ha hb with rfl | hb
      · cases hwriting
      · exact mem_requests.mpr ⟨task', b, hb, hwriting⟩
    obtain ⟨hissued, hkeeps⟩ := inv.issued w hw
    exact ⟨hissued, fun hacc i hc => hkeeps hacc i (hclaims i hc)⟩
  · intro i task' b w hb hwriting hconfers
    rcases attempt_served ha hb with rfl | hb
    · cases hwriting
    · exact inv.own i task' b w hb hwriting (isReleasing_served ha i ▸ hconfers)
  · intro i task' b lease hb hgot
    rcases attempt_served ha hb with rfl | hb
    · -- What was read is what the store holds.
      have hcurrent : s.store.current = some lease := Stage.got.inj hgot
      exact ⟨s.store.unused lease hcurrent, fun v hv _ => Option.some.inj (hv.symm.trans hcurrent)⟩
    · exact inv.read i task' b lease hb hgot

theorem inv_serve_write (inv : ElectionInv t skew s) {w : LeaseWrite}
    (hstage : a.stage = .writing w) :
    ElectionInv t skew
      { s.set identity ((s.replicas identity).setAttempt
          (some { a with stage := .wrote (s.store.accepts w) }) task) with
        store := s.served w } := by
  have hfewer : Fewer s { s.set identity ((s.replicas identity).setAttempt
      (some { a with stage := .wrote (s.store.accepts w) }) task) with store := s.served w } := by
    refine ⟨fun i task' b hb => ?_, fun i => isReleasing_served ha i, fun _ => id⟩
    rcases attempt_served ha hb with rfl | hb
    · exact .inr ⟨_, rfl⟩
    · exact .inl hb
  have hinflight : w ∈ (s.replicas identity).requests := mem_requests.mpr ⟨task, a, ha, hstage⟩
  cases hacc : s.store.accepts w with
  | true =>
    have hstore : s.served w = s.store.put w.value := if_pos hacc
    rw [hacc] at hfewer
    refine inv.put hfewer hstore fun i hc => ?_
    rcases claims_served ha hc with hc | ⟨rfl, -, hconfers⟩
    · exact (inv.issued w (.inr ⟨identity, hinflight⟩)).2 hacc i hc
    · exact inv.own i task a w ha hstage hconfers
  | false =>
    have hstore : s.served w = s.store := if_neg (by simp [hacc])
    rw [hacc] at hfewer
    refine inv.keep hfewer hstore fun i hc => ?_
    rcases claims_served ha hc with hc | ⟨-, hwrote, -⟩
    · exact hc
    · cases hwrote

end Serve

theorem takeover_lt {identity : String} {now : Instant} {r : Replica} {task : Task}
    {holder : String} {since : Instant}
    (h : r.takeover t identity now task = some (holder, since)) :
    t.leaseDuration < now - since := by
  obtain ⟨a, -, h⟩ := Option.bind_eq_some_iff.mp h
  obtain ⟨o, -, h⟩ := Option.bind_eq_some_iff.mp h
  split at h
  case h_1 lease hgot =>
    obtain ⟨holder', -, h⟩ := Option.bind_eq_some_iff.mp h
    obtain ⟨hexpired, h⟩ := Option.ite_none_right_eq_some.mp h
    cases h
    exact hexpired.2
  all_goals cases h

section Act

variable {identity : String} {r' : Replica} {d : Option Task}
  (effect : LocalEffect t identity (s.clock skew identity) d (s.replicas identity) r')

include effect

theorem claims_act {i : String} (h : (s.set identity r').Claims t skew i) :
    s.Claims t skew i := by
  by_cases hi : i = identity
  · subst hi
    rcases h with hleads | hawaiting
    · obtain ⟨u, hu, hle⟩ := leads_iff.mp hleads
      rw [Election.set_self] at hu
      exact (effect.safeUntil u hu).elim .inr fun hu => .inl (leads_iff.mpr ⟨u, hu, hle⟩)
    · rw [Election.set_self] at hawaiting
      exact .inr (effect.awaiting hawaiting)
  · exact (claims_set_ne hi).mp h

omit effect in
theorem not_claims_of_releasing (h : r'.main.isReleasing = true) :
    ¬ (s.set identity r').Claims t skew identity := by
  obtain ⟨main, renewal⟩ := r'
  cases main with
  | releasing attempt =>
    rintro (hleads | hawaiting)
    · obtain ⟨u, hu, -⟩ := leads_iff.mp hleads
      rw [Election.set_self] at hu
      cases hu
    · rw [Election.set_self] at hawaiting
      cases hawaiting
  | exited | degraded | campaigning c | leading | reconfirming c => cases h

omit effect in
theorem takeover_expired {task : Task} {holder : String} {since : Instant}
    (htakeover : (s.replicas identity).takeover t identity (s.clock skew identity) task =
      some (holder, since))
    (htimely : (!(s.replicas holder).awaiting && ((s.replicas holder).safeUntil t).all fun u =>
      decide (u ≤ since - skew identity + skew holder + t.leaseDuration)) = true) :
    ¬ s.Claims t skew holder := by
  simp only [Bool.and_eq_true, Bool.not_eq_true', Option.all_eq_true_iff_get, decide_eq_true_eq]
    at htimely
  rintro (hleads | hawaiting)
  · obtain ⟨u, hu, hle⟩ := leads_iff.mp hleads
    have hu' := htimely.2 (by rw [hu]; rfl)
    simp only [hu, Option.get_some] at hu'
    have hclocks : ∀ now began mine theirs duration : Int, now + theirs ≤
        began - mine + theirs + duration → duration < now + mine - began → False := by omega
    exact hclocks _ _ _ _ _ (le_trans hle hu') (takeover_lt htakeover)
  · exact Bool.false_ne_true (htimely.1.symm.trans hawaiting)

theorem issues_keeps (inv : ElectionInv t skew s) {task : Task} {a : Attempt}
    {lease : Option Lease} {w : LeaseWrite} (ha : (s.replicas identity).attempt task = some a)
    (hgot : a.stage = .got lease)
    (hissues : Issues t identity (s.clock skew identity) (s.replicas identity) task lease w)
    (hphase : r'.main.isReleasing = (s.replicas identity).main.isReleasing)
    (htimely : ∀ holder since, (s.replicas identity).takeover t identity (s.clock skew identity)
      task = some (holder, since) → ¬ s.Claims t skew holder) :
    w.Issued s.store.next ∧ (s.store.accepts w = true → ∀ i, (s.set identity r').Claims t skew i →
      specHolder w.value = some i) := by
  cases lease with
  | none =>
    cases hissues with
    | create own =>
      refine ⟨trivial, fun hacc i hc => ?_⟩
      obtain ⟨v, hv, -⟩ := inv.holder i (claims_act effect hc)
      cases (CasCell.accepts_create.mp hacc).symm.trans hv
  | some lease =>
    obtain ⟨hlt, hsame⟩ := inv.read identity task a lease ha hgot
    -- The Lease in the store is the one that was read.
    have hheld : ∀ spec, s.store.accepts (.replace lease.version spec) = true → ∀ i,
        (s.set identity r').Claims t skew i → specHolder lease.value = some i := by
      intro spec hacc i hc
      obtain ⟨v, hv, hversion⟩ := CasCell.accepts_replace.mp hacc
      obtain ⟨lease', hlease', hholder⟩ := inv.holder i (claims_act effect hc)
      cases hv.symm.trans hlease'
      exact hsame v hv hversion ▸ hholder
    cases hissues with
    | renew own held =>
      refine ⟨hlt, fun hacc i hc => ?_⟩
      cases held.symm.trans (hheld _ hacc i hc)
      exact own
    | claim own unheld =>
      refine ⟨hlt, fun hacc i hc => ?_⟩
      cases unheld.symm.trans (hheld _ hacc i hc)
    | takeover own held expired =>
      refine ⟨hlt, fun hacc i hc => ?_⟩
      cases held.symm.trans (hheld _ hacc i hc)
      exact absurd (claims_act effect hc) (htimely _ _ expired)
    | release cleared held main releasing =>
      refine ⟨hlt, fun hacc i hc => ?_⟩
      cases held.symm.trans (hheld _ hacc i hc)
      exact absurd hc (not_claims_of_releasing (hphase.trans releasing))

theorem inv_act (inv : ElectionInv t skew s)
    (htimely : ∀ task holder since, d = some task →
      (s.replicas identity).takeover t identity (s.clock skew identity) task =
        some (holder, since) → ¬ s.Claims t skew holder) :
    ElectionInv t skew { s.set identity r' with
      orphans := s.orphans ++ (s.replicas identity).requests.filter fun w => w ∉ r'.requests } := by
  have hclaims : ∀ i, (s.set identity r').Claims t skew i → s.Claims t skew i :=
    fun i => claims_act effect
  have hold : ∀ w, (w ∈ s.orphans ∨ ∃ i, w ∈ (s.replicas i).requests) →
      w.Issued s.store.next ∧ (s.store.accepts w = true →
        ∀ i, (s.set identity r').Claims t skew i → specHolder w.value = some i) := by
    intro w hw
    obtain ⟨hissued, hkeeps⟩ := inv.issued w hw
    exact ⟨hissued, fun hacc i hc => hkeeps hacc i (hclaims i hc)⟩
  refine ⟨fun i hc => inv.holder i (hclaims i hc), ?_, ?_, ?_⟩
  · rintro w (hw | ⟨i, hw⟩)
    · rcases List.mem_append.mp hw with hw | hw
      · exact hold w (.inl hw)
      · exact hold w (.inr ⟨identity, (List.mem_filter.mp hw).1⟩)
    · by_cases hi : i = identity
      · subst hi
        obtain ⟨task, a', ha', hwriting⟩ := mem_requests.mp hw
        rw [Election.set_self] at ha'
        cases effect.attempts task a' ha' with
        | same h phase => exact hold w (.inr ⟨i, mem_requests.mpr ⟨task, a', h, hwriting⟩⟩)
        | started h => cases h.symm.trans hwriting
        | wrote attempt got writing issues phase delivery =>
          cases writing.symm.trans hwriting
          exact issues_keeps effect inv attempt got issues phase
            fun holder since => htimely task holder since delivery
      · rw [Election.set_ne _ _ hi] at hw
        exact hold w (.inr ⟨i, hw⟩)
  · intro i task a' w ha' hwriting hconfers
    by_cases hi : i = identity
    · subst hi
      rw [Election.set_self] at ha' hconfers
      cases effect.attempts task a' ha' with
      | same h phase =>
        exact inv.own i task a' w h hwriting fun hmain => phase hmain ▸ hconfers hmain
      | started h => cases h.symm.trans hwriting
      | wrote attempt got writing issues phase delivery =>
        cases writing.symm.trans hwriting
        cases issues with
        | create own | renew own held | claim own unheld | takeover own held expired => exact own
        | release cleared held main releasing =>
          cases (phase.trans releasing).symm.trans (hconfers main)
    · rw [Election.set_ne _ _ hi] at ha' hconfers
      exact inv.own i task a' w ha' hwriting hconfers
  · intro i task a' lease ha' hgot
    by_cases hi : i = identity
    · subst hi
      rw [Election.set_self] at ha'
      cases effect.attempts task a' ha' with
      | same h phase => exact inv.read i task a' lease h hgot
      | started h => cases h.symm.trans hgot
      | wrote attempt got writing issues phase delivery => cases writing.symm.trans hgot
    · rw [Election.set_ne _ _ hi] at ha'
      exact inv.read i task a' lease ha' hgot

end Act

theorem inv_step (inv : ElectionInv t skew s) {action : ElectionAction} {s' : Election}
    (htimely : s.timely t skew action = true) (hstep : s.step t skew action = some s') :
    ElectionInv t skew s' := by
  cases action with
  | tick d =>
    cases hstep
    exact inv_tick inv d
  | annotate =>
    obtain ⟨v, hv, rfl⟩ := Option.map_eq_some_iff.mp hstep
    exact inv_annotate inv hv
  | delete =>
    obtain ⟨v, -, rfl⟩ := Option.map_eq_some_iff.mp hstep
    exact inv_delete inv (not_claims_of_deletable inv htimely)
  | arrive w =>
    obtain ⟨hw, hstep⟩ := Option.ite_none_right_eq_some.mp hstep
    cases hstep
    exact inv_arrive inv hw
  | serve identity task =>
    obtain ⟨a, ha, hstep⟩ := Option.bind_eq_some_iff.mp hstep
    cases hstage : a.stage with
    | getting =>
      simp only [hstage, Option.some.injEq] at hstep
      exact hstep ▸ inv_serve_read ha inv
    | writing w =>
      simp only [hstage, Option.some.injEq] at hstep
      exact hstep ▸ inv_serve_write ha inv hstage
    | got lease | wrote ok => simp [hstage] at hstep
  | act identity action =>
    obtain ⟨r', hlocal, rfl⟩ := Option.map_eq_some_iff.mp hstep
    refine inv_act (localStep_effect hlocal) inv fun task holder since hdelivered htakeover => ?_
    cases action with
    | deliver task' stamp =>
      cases hdelivered
      simp only [Election.timely, htakeover] at htimely
      exact takeover_expired htakeover htimely
    | start | crash | shutdown | forbidden | resume task' | timeout task' | fail task' =>
      cases hdelivered

/-- No two replicas lead at once, in any run in which every takeover meets a
holder that had its last write answered before the taker began to time it, and
nobody deletes the Lease of a leader. -/
theorem leader_mutual_exclusion (t : LeaseTimings) (skew : String → Int) (now : Int)
    (store : CasCell (Option LeaseSpec)) {s : Election}
    (run : Reaches (Election.step t skew) (fun s a => s.timely t skew a = true)
      (.init now store) s) {a b : String} (ha : s.leads t skew a = true)
    (hb : s.leads t skew b = true) : a = b := by
  have inv : ElectionInv t skew s :=
    run.invariant (ElectionInv t skew) (.init now store) fun _ _ _ inv => inv_step inv
  obtain ⟨lease, hlease, hholder⟩ := inv.holder a (.inl ha)
  obtain ⟨lease', hlease', hholder'⟩ := inv.holder b (.inl hb)
  cases hlease.symm.trans hlease'
  exact Option.some.inj (hholder.symm.trans hholder')

end Election

-- Two replicas on equal clocks, and the default timings.

def noLease : CasCell (Option LeaseSpec) where
  current := none
  next := 0
  unused := by rintro v ⟨⟩

/-- The Lease of a replica that is gone. -/
def staleLease : CasCell (Option LeaseSpec) where
  current := some ⟨0, some { holderIdentity := some "kopiur-c" }⟩
  next := 1
  unused := by
    rintro v ⟨⟩
    exact Nat.one_pos

def inSync : String → Int := fun _ => 0

def polls (identity : String) : List ElectionAction :=
  [.act identity (.resume .main), .serve identity .main, .act identity (.deliver .main 0)]

/-- The first replica creates the Lease, the second sees it; the second takes
it over as soon as it may. -/
def takeoverRun (beforeSeen afterSeen : List ElectionAction) : List ElectionAction :=
  [.act "kopiur-a" .start] ++ polls "kopiur-a" ++ [.serve "kopiur-a" .main] ++ beforeSeen ++
  [.act "kopiur-b" .start] ++ polls "kopiur-b" ++ afterSeen ++ polls "kopiur-b" ++
  [.serve "kopiur-b" .main, .act "kopiur-b" (.deliver .main 0)]

def confirmed : ElectionAction := .act "kopiur-a" (.deliver .main 0)

theorem leader_mutual_exclusion_takeover :
    ∃ s, Reaches (Election.step {} inSync) (fun s a => s.timely {} inSync a = true)
        (.init 0 staleLease) s ∧
      s.leads {} inSync "kopiur-b" = true ∧
        ∀ a, s.leads {} inSync a = true → a = "kopiur-b" := by
  obtain ⟨s, reaches, hleads⟩ : ∃ s, Reaches (Election.step {} inSync)
      (fun s a => s.timely {} inSync a = true) (.init 0 staleLease) s ∧
        s.leads {} inSync "kopiur-b" = true :=
    exists_reaches (.delete :: takeoverRun [confirmed] [.tick 15000000001]) (by decide)
  exact ⟨s, reaches, hleads, fun a ha =>
    leader_mutual_exclusion {} inSync 0 staleLease reaches ha hleads⟩

/-- The confirmation takes four seconds. The first replica, cut off from the
store, counts its lease from then and the second from the write. -/
theorem late_confirmation_two_leaders :
    ({} : LeaseTimings).validate = true ∧
    ∃ s, Reaches (Election.step {} inSync) (fun _ _ => True) (.init 0 noLease) s ∧
      s.leads {} inSync "kopiur-a" = true ∧ s.leads {} inSync "kopiur-b" = true := by
  refine ⟨by decide, exists_reaches (takeoverRun [] [
    .tick 4000000000, confirmed,
    -- A round of renewals from 6 s on: one attempt times out, another is under way.
    .tick 2000000000, .act "kopiur-a" (.resume .renewal), .act "kopiur-a" (.resume .renewal),
    .tick 6000000000, .act "kopiur-a" (.timeout .renewal),
    .tick 2000000000, .act "kopiur-a" (.resume .renewal), .tick 1000000001]) (by decide)⟩

end Kopiur
