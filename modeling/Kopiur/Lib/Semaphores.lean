import Mathlib.Data.Finset.Card
import Mathlib.Logic.Function.Basic

/-!
# Fair semaphores

A semaphore counts its free permits and queues who waits for one. A permit that
is given back goes to the first in the queue, who may not have noticed yet, and
one who stops waiting passes on the permit it was given. The holders, which the
count stands for, are part of the model.
-/

namespace Kopiur.Lib

structure Semaphore where
  available : Nat
  held : List Nat
  queue : List Nat
deriving DecidableEq

/-- What a party does with a semaphore. One that waits may have been given a permit. -/
inductive Role
  | idle
  | waits
  | has
deriving DecidableEq

namespace Semaphore

def new (permits : Nat) : Semaphore := ⟨permits, [], []⟩

def tryAcquire (s : Semaphore) (i : Nat) : Option Semaphore :=
  if 0 < s.available then some { s with available := s.available - 1, held := i :: s.held }
  else none

def poll (s : Semaphore) (i : Nat) : Semaphore :=
  match s.tryAcquire i with
  | some s => s
  | none => { s with queue := s.queue ++ [i] }

def release (s : Semaphore) (i : Nat) : Semaphore :=
  match s.queue with
  | [] => { s with available := s.available + 1, held := s.held.erase i }
  | j :: rest => { s with held := j :: s.held.erase i, queue := rest }

def abandon (s : Semaphore) (i : Nat) : Semaphore :=
  if i ∈ s.held then s.release i else { s with queue := s.queue.erase i }

/-- The semaphore has given its permits as the roles say. -/
structure Accounts (permits : Nat) (role : Nat → Role) (s : Semaphore) : Prop where
  total : s.available + s.held.length = permits
  nodup : (s.held ++ s.queue).Nodup
  busy : 0 < s.available → s.queue = []
  has : ∀ i, role i = .has → i ∈ s.held
  waits : ∀ i, role i = .waits → i ∈ s.held ∨ i ∈ s.queue
  held : ∀ i ∈ s.held, role i ≠ .idle
  queued : ∀ i ∈ s.queue, role i = .waits

theorem accounts_new (permits : Nat) : (new permits).Accounts permits fun _ => .idle where
  total := Nat.add_zero _
  nodup := List.nodup_nil
  busy _ := rfl
  has _ h := by cases h
  waits _ h := by cases h
  held _ h := by cases h
  queued _ h := by cases h

variable {permits i : Nat} {role : Nat → Role} {s s' : Semaphore}

theorem Accounts.not_mem (h : s.Accounts permits role) (hi : role i = .idle) :
    i ∉ s.held ∧ i ∉ s.queue :=
  ⟨fun hmem => h.held i hmem hi, fun hmem => by simp [h.queued i hmem] at hi⟩

theorem update_apply_ne {r : Role} {j : Nat} (hj : j ≠ i) :
    Function.update role i r j = role j := Function.update_of_ne hj r role

theorem Accounts.tryAcquire (h : s.Accounts permits role) (hi : role i = .idle) {r : Role}
    (hr : r ≠ .idle) (hs : s.tryAcquire i = some s') :
    s'.Accounts permits (Function.update role i r) := by
  unfold Semaphore.tryAcquire at hs
  split at hs
  case isFalse => cases hs
  case isTrue hpos =>
    obtain rfl := Option.some.inj hs
    obtain ⟨hheld, hqueue⟩ := h.not_mem hi
    have hempty := h.busy hpos
    refine ⟨?_, ?_, fun _ => hempty, fun j hj => ?_, fun j hj => ?_, fun j hj => ?_, ?_⟩
    · have := h.total
      simp only [List.length_cons]
      omega
    · have hnodup := h.nodup
      simp only [hempty, List.append_nil] at hnodup ⊢
      exact List.nodup_cons.mpr ⟨hheld, hnodup⟩
    · by_cases hji : j = i
      · exact hji ▸ List.mem_cons_self
      · rw [update_apply_ne hji] at hj
        exact List.mem_cons_of_mem i (h.has j hj)
    · by_cases hji : j = i
      · exact .inl (hji ▸ List.mem_cons_self)
      · rw [update_apply_ne hji] at hj
        exact (h.waits j hj).imp_left (List.mem_cons_of_mem i)
    · by_cases hji : j = i
      · rwa [hji, Function.update_self]
      · rw [update_apply_ne hji]
        exact h.held j ((List.mem_cons.mp hj).resolve_left hji)
    · intro j hj
      rw [hempty] at hj
      cases hj

theorem Accounts.takeUp (h : s.Accounts permits role) (hi : i ∈ s.held) :
    s.Accounts permits (Function.update role i .has) where
  total := h.total
  nodup := h.nodup
  busy := h.busy
  has j hj := by
    by_cases hji : j = i
    · exact hji ▸ hi
    · rw [update_apply_ne hji] at hj
      exact h.has j hj
  waits j hj := by
    by_cases hji : j = i
    · exact .inl (hji ▸ hi)
    · rw [update_apply_ne hji] at hj
      exact h.waits j hj
  held j hj := by
    by_cases hji : j = i
    · rw [hji, Function.update_self]
      exact fun hidle => by cases hidle
    · rw [update_apply_ne hji]
      exact h.held j hj
  queued j hj := by
    have hne : j ≠ i := fun hji => List.disjoint_of_nodup_append h.nodup hi (hji ▸ hj)
    rw [update_apply_ne hne]
    exact h.queued j hj

theorem available_of_refused (hs : s.tryAcquire i = none) : s.available = 0 := by
  unfold Semaphore.tryAcquire at hs
  split at hs
  case isTrue => cases hs
  case isFalse hzero => exact Nat.eq_zero_of_not_pos hzero

theorem Accounts.poll (h : s.Accounts permits role) (hi : role i = .idle) :
    (s.poll i).Accounts permits (Function.update role i .waits) := by
  unfold Semaphore.poll
  cases hs : s.tryAcquire i with
  | some s' => exact h.tryAcquire hi (fun hidle => by cases hidle) hs
  | none =>
    obtain ⟨hheld, hqueue⟩ := h.not_mem hi
    refine ⟨h.total, ?_, fun hpos => ?_, fun j hj => ?_, fun j hj => ?_, fun j hj => ?_, ?_⟩
    · rw [← List.append_assoc]
      refine h.nodup.append (List.nodup_singleton i) ?_
      rw [List.disjoint_singleton]
      exact fun hmem => (List.mem_append.mp hmem).elim hheld hqueue
    · exact absurd hpos (Nat.not_lt.mpr (available_of_refused hs).le)
    · by_cases hji : j = i
      · rw [hji, Function.update_self] at hj
        cases hj
      · rw [update_apply_ne hji] at hj
        exact h.has j hj
    · by_cases hji : j = i
      · exact .inr (by simp [hji])
      · rw [update_apply_ne hji] at hj
        exact (h.waits j hj).imp_right fun hmem => List.mem_append_left _ hmem
    · have hji : j ≠ i := fun hji => hheld (hji ▸ hj)
      rw [update_apply_ne hji]
      exact h.held j hj
    · intro j hj
      by_cases hji : j = i
      · rw [hji, Function.update_self]
      · rw [update_apply_ne hji]
        refine h.queued j ((List.mem_append.mp hj).resolve_right fun hmem => ?_)
        exact hji (List.mem_singleton.mp hmem)

theorem Accounts.release (h : s.Accounts permits role) (hi : i ∈ s.held) :
    (s.release i).Accounts permits (Function.update role i .idle) := by
  have hlen := List.length_erase_of_mem hi
  have hpos : 0 < s.held.length := List.length_pos_of_mem hi
  have htotal := h.total
  obtain ⟨hnodup, hnodup', hdisjoint⟩ := List.nodup_append'.mp h.nodup
  have hnot : i ∉ s.held.erase i := fun hmem => (hnodup.mem_erase_iff.mp hmem).1 rfl
  have hne {j : Nat} {r : Role} (hr : r ≠ .idle) (hj : Function.update role i .idle j = r) :
      j ≠ i := by
    rintro rfl
    rw [Function.update_self] at hj
    exact hr hj.symm
  have hother {j : Nat} (hj : j ∈ s.held.erase i) : Function.update role i .idle j ≠ .idle := by
    obtain ⟨hji, hmem⟩ := hnodup.mem_erase_iff.mp hj
    rw [update_apply_ne hji]
    exact h.held j hmem
  unfold Semaphore.release
  cases hq : s.queue with
  | nil =>
    refine ⟨?_, ?_, fun _ => rfl, fun j hj => ?_, fun j hj => ?_, fun j => hother, ?_⟩
    · simp only
      omega
    · simpa [hq] using hnodup.erase i
    · have hji := hne (fun hidle => by cases hidle) hj
      rw [update_apply_ne hji] at hj
      exact (List.mem_erase_of_ne hji).mpr (h.has j hj)
    · have hji := hne (fun hidle => by cases hidle) hj
      rw [update_apply_ne hji] at hj
      exact .inl ((List.mem_erase_of_ne hji).mpr ((h.waits j hj).resolve_right (by simp [hq])))
    · intro j hj
      cases hj
  | cons k rest =>
    have hk : k ∈ s.queue := hq ▸ List.mem_cons_self
    have hki : k ≠ i := fun hki => hdisjoint hi (hki ▸ hk)
    rw [hq] at hnodup' hdisjoint
    obtain ⟨hkrest, hrest⟩ := List.nodup_cons.mp hnodup'
    refine ⟨?_, ?_, fun hav => ?_, fun j hj => ?_, fun j hj => ?_, fun j hj => ?_, ?_⟩
    · simp only [List.length_cons]
      omega
    · have hkheld : k ∉ s.held := fun hmem => hdisjoint hmem List.mem_cons_self
      refine List.nodup_cons.mpr ⟨fun hmem => ?_, (hnodup.erase i).append hrest ?_⟩
      · rcases List.mem_append.mp hmem with hmem | hmem
        · exact hkheld (List.mem_of_mem_erase hmem)
        · exact hkrest hmem
      · exact fun x hx hx' => hdisjoint (List.mem_of_mem_erase hx) (List.mem_cons_of_mem k hx')
    · exact absurd (h.busy hav) (by simp [hq])
    · have hji := hne (fun hidle => by cases hidle) hj
      rw [update_apply_ne hji] at hj
      exact List.mem_cons_of_mem k ((List.mem_erase_of_ne hji).mpr (h.has j hj))
    · have hji := hne (fun hidle => by cases hidle) hj
      rw [update_apply_ne hji] at hj
      rcases h.waits j hj with hmem | hmem
      · exact .inl (List.mem_cons_of_mem k ((List.mem_erase_of_ne hji).mpr hmem))
      · rw [hq] at hmem
        rcases List.mem_cons.mp hmem with rfl | hmem
        · exact .inl List.mem_cons_self
        · exact .inr hmem
    · rcases List.mem_cons.mp hj with rfl | hj
      · rw [update_apply_ne hki, h.queued j hk]
        exact fun hidle => by cases hidle
      · exact hother hj
    · intro j hj
      have hjq : j ∈ s.queue := hq ▸ List.mem_cons_of_mem k hj
      have hji : j ≠ i := fun hji => hdisjoint hi (hji ▸ List.mem_cons_of_mem k hj)
      rw [update_apply_ne hji]
      exact h.queued j hjq

theorem Accounts.abandon (h : s.Accounts permits role) :
    (s.abandon i).Accounts permits (Function.update role i .idle) := by
  unfold Semaphore.abandon
  by_cases hheld : i ∈ s.held
  · rw [if_pos hheld]
    exact h.release hheld
  · rw [if_neg hheld]
    obtain ⟨hnodup, hnodup', hdisjoint⟩ := List.nodup_append'.mp h.nodup
    refine ⟨h.total, ?_, fun hpos => ?_, fun j hj => ?_, fun j hj => ?_, fun j hj => ?_, ?_⟩
    · refine hnodup.append (hnodup'.erase i) fun x hx hx' => ?_
      exact hdisjoint hx (List.mem_of_mem_erase hx')
    · simp [h.busy hpos]
    · by_cases hji : j = i
      · rw [hji, Function.update_self] at hj
        cases hj
      · rw [update_apply_ne hji] at hj
        exact h.has j hj
    · by_cases hji : j = i
      · rw [hji, Function.update_self] at hj
        cases hj
      · rw [update_apply_ne hji] at hj
        exact (h.waits j hj).imp_right (List.mem_erase_of_ne hji).mpr
    · have hji : j ≠ i := fun hji => hheld (hji ▸ hj)
      rw [update_apply_ne hji]
      exact h.held j hj
    · intro j hj
      obtain ⟨hji, hmem⟩ := hnodup'.mem_erase_iff.mp hj
      rw [update_apply_ne hji]
      exact h.queued j hmem

theorem Accounts.length_held_le (h : s.Accounts permits role) : s.held.length ≤ permits :=
  Nat.le.intro (Nat.add_comm _ _ ▸ h.total)

theorem Accounts.card_le (h : s.Accounts permits role) {parties : Finset Nat}
    (hparties : ∀ j ∈ parties, role j = .has) : parties.card ≤ permits := by
  have hsub : parties ⊆ s.held.toFinset := fun j hj =>
    List.mem_toFinset.mpr (h.has j (hparties j hj))
  exact (Finset.card_le_card hsub).trans ((List.toFinset_card_le _).trans h.length_held_le)

theorem Accounts.all_given (h : s.Accounts permits role) (hzero : s.available = 0) :
    ∃ parties : Finset Nat, parties.card = permits ∧ ∀ j ∈ parties, j ∈ s.held ∧ role j ≠ .idle := by
  refine ⟨s.held.toFinset, ?_, fun j hj => ?_⟩
  · rw [List.toFinset_card_of_nodup (List.nodup_append'.mp h.nodup).1, ← h.total, hzero,
      Nat.zero_add]
  · have hmem := List.mem_toFinset.mp hj
    exact ⟨hmem, h.held j hmem⟩

theorem Accounts.available_of_waits (h : s.Accounts permits role) (hi : role i = .waits)
    (hheld : i ∉ s.held) : s.available = 0 := by
  refine Nat.eq_zero_of_not_pos fun hpos => ?_
  have hmem := (h.waits i hi).resolve_left hheld
  rw [h.busy hpos] at hmem
  cases hmem

end Semaphore

end Kopiur.Lib
