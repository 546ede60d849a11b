import Mathlib.Data.List.Perm.Subperm
import Kopiur.Ui.SarRuns

/-!
# What the registry of guards holds

A call takes the guard of its question from the registry and, once answered,
removes it unless somebody else has a handle on it. Nobody removes it after the
last call that asks the question is cancelled, or when that call releases
before an earlier one has dropped its handle.
-/

namespace Kopiur.Ui

open Kopiur.Lib

def Caller.asking (c : Caller) : Bool :=
  c.phase.guard.isSome && !c.phase.isLeaving

def SarWorld.askedByOther (w : SarWorld) (c : Caller) : Bool :=
  (w.others c).any fun d => d.asking && decide (d.question.key = c.question.key)

def Phase.isReleasing : Phase → Bool
  | .releasing .. => true
  | _ => false

/-- The last call to ask a question is not cancelled, and has the only handle
besides the registry's when it releases. -/
def LastRemoves (w : SarWorld) : SarEvent → Prop
  | .run i => ∀ c ∈ w.callers, c.id = i → c.phase.isReleasing → ∀ g ∈ c.phase.guard,
      w.strongCount g ≤ 2 ∨ w.askedByOther c
  | .cancel i => ∀ c ∈ w.callers, c.id = i → c.asking → w.askedByOther c
  | _ => True

instance (w : SarWorld) : (e : SarEvent) → Decidable (LastRemoves w e)
  | .run i => inferInstanceAs (Decidable (∀ c ∈ w.callers, c.id = i → c.phase.isReleasing →
      ∀ g ∈ c.phase.guard, w.strongCount g ≤ 2 ∨ w.askedByOther c))
  | .cancel i => inferInstanceAs (Decidable (∀ c ∈ w.callers, c.id = i → c.asking →
      w.askedByOther c))
  | .enter _ | .review _ _ | .wait _ | .rehash _ => inferInstanceAs (Decidable True)

def AllAsked (callers : List Caller) (inFlight : List (SarKey × Nat)) : Prop :=
  ∀ e ∈ inFlight, ∃ c ∈ callers, c.asking ∧ c.question.key = e.1

variable {w w' : SarWorld} {c d : Caller}

theorem askedByOther_iff : w.askedByOther c ↔
    ∃ d ∈ w.others c, d.asking ∧ d.question.key = c.question.key := by
  simp [SarWorld.askedByOther]

namespace AllAsked

variable {inFlight : List (SarKey × Nat)}

theorem enter (h : AllAsked w.callers inFlight) : AllAsked (d :: w.callers) inFlight := by
  intro e he
  obtain ⟨c, hc, hasks⟩ := h e he
  exact ⟨c, List.mem_cons_of_mem _ hc, hasks⟩

theorem others (h : AllAsked w.callers inFlight) (hids : (w.callers.map (·.id)).Nodup)
    (hc : c ∈ w.callers)
    (hother : c.asking → (∃ e ∈ inFlight, e.1 = c.question.key) → w.askedByOther c) :
    AllAsked (w.others c) inFlight := by
  intro e he
  obtain ⟨d, hd, hasking, hkey⟩ := h e he
  by_cases hid : d.id = c.id
  · have hsame : d = c := List.inj_on_of_nodup_map hids hd hc hid
    subst hsame
    obtain ⟨d', hd', hasking', hkey'⟩ := askedByOther_iff.mp (hother hasking ⟨e, he, hkey.symm⟩)
    exact ⟨d', hd', hasking', hkey'.trans hkey⟩
  · exact ⟨d, mem_others.mpr ⟨hd, hid⟩, hasking, hkey⟩

theorem more (h : AllAsked (w.others c) inFlight) {p : Phase} :
    AllAsked (w.move c p).callers inFlight := by
  intro e he
  obtain ⟨d, hd, hasks⟩ := h e he
  exact ⟨d, List.mem_cons_of_mem _ hd, hasks⟩

theorem move (h : AllAsked w.callers inFlight) (hids : (w.callers.map (·.id)).Nodup)
    (hc : c ∈ w.callers) {p : Phase} (hp : c.asking → { c with phase := p }.asking) :
    AllAsked (w.move c p).callers inFlight := by
  intro e he
  obtain ⟨d, hd, hasking, hkey⟩ := h e he
  by_cases hid : d.id = c.id
  · have hsame : d = c := List.inj_on_of_nodup_map hids hd hc hid
    subst hsame
    exact ⟨_, List.mem_cons_self, hp hasking, hkey⟩
  · exact ⟨d, List.mem_cons_of_mem _ (mem_others.mpr ⟨hd, hid⟩), hasking, hkey⟩

end AllAsked

/-! ## One step -/

theorem lookup_of_asking {ttl size : Nat} (h : SarInv ttl size w) (hc : c ∈ w.callers)
    (hasking : c.asking) : ∃ g, c.phase.guard = some g ∧ w.inFlight.lookup c.question.key = some g := by
  obtain ⟨hguard, hleaving⟩ := Bool.and_eq_true_iff.mp hasking
  obtain ⟨g, hg⟩ := Option.isSome_iff_exists.mp hguard
  exact ⟨g, hg, h.flights.registered c hc g hg (by simpa using hleaving)⟩

theorem mem_of_lookup {g : Nat} {key : SarKey} (h : w.inFlight.lookup key = some g) :
    (key, g) ∈ w.inFlight := by
  obtain ⟨l₁, l₂, hsplit, -⟩ := List.lookup_eq_some_iff.mp h
  rw [hsplit]
  exact List.mem_append_right _ List.mem_cons_self

theorem mem_flightLock {key : SarKey} {e : SarKey × Nat}
    (he : e ∈ (w.flightLock key).1.inFlight) : e ∈ w.inFlight ∨ e.1 = key := by
  unfold SarWorld.flightLock at he
  cases hl : w.inFlight.lookup key with
  | some g =>
    rw [hl] at he
    exact .inl he
  | none =>
    rw [hl] at he
    rcases List.mem_cons.mp he with rfl | he
    · exact .inr rfl
    · exact .inl he

theorem callers_flightLock (key : SarKey) : (w.flightLock key).1.callers = w.callers := by
  obtain ⟨_, _, _, heq⟩ := SarInv.flightLock_eq (w := w) key
  rw [heq]

theorem AllAsked.release (h : AllAsked w.callers w.inFlight)
    (hids : (w.callers.map (·.id)).Nodup) (hc : c ∈ w.callers) {g : Nat}
    (hreg : w.inFlight.lookup c.question.key = some g)
    (hlast : w.strongCount g ≤ 2 ∨ w.askedByOther c) :
    AllAsked (w.others c) (w.releaseFlight c.question.key).inFlight := by
  unfold SarWorld.releaseFlight
  rw [hreg]
  dsimp only
  split
  case isTrue =>
    have hkept : AllAsked w.callers (w.inFlight.filter fun e => e.1 ≠ c.question.key) :=
      fun e he => h e (List.mem_filter.mp he).1
    refine hkept.others hids hc fun _ ⟨e, he, hkey⟩ => ?_
    exact absurd hkey (by simpa using (List.mem_filter.mp he).2)
  case isFalse hcount => exact h.others hids hc fun _ _ => hlast.resolve_left hcount

theorem AllAsked.advance {ttl size : Nat} (h : AllAsked w.callers w.inFlight)
    (hinv : SarInv ttl size w) (hc : c ∈ w.callers)
    (hlast : c.phase.isReleasing → ∀ g ∈ c.phase.guard, w.strongCount g ≤ 2 ∨ w.askedByOther c)
    (hstep : w.advance c = some w') : AllAsked w'.callers w'.inFlight := by
  have hids := hinv.calling.ids
  have hquiet : c.asking = false → AllAsked (w.others c) w.inFlight := by
    intro hquiet
    refine h.others hids hc fun hasking => ?_
    rw [hquiet] at hasking
    cases hasking
  unfold SarWorld.advance at hstep
  cases hp : c.phase with
  | entered =>
    have hothers := hquiet (by rw [Caller.asking, hp]; rfl)
    simp only [hp] at hstep
    cases hcached : (w.decisions.get w.clock c.question.key).2 with
    | some allowed =>
      simp only [hcached] at hstep
      cases hstep
      exact hothers
    | none =>
      simp only [hcached] at hstep
      cases hstep
      exact hothers.more
  | missed =>
    have hothers := hquiet (by rw [Caller.asking, hp]; rfl)
    simp only [hp] at hstep
    cases hstep
    intro e he
    rcases mem_flightLock he with he | hkey
    · obtain ⟨d, hd, hasks⟩ := hothers e he
      refine ⟨d, List.mem_cons_of_mem _ ?_, hasks⟩
      rw [SarWorld.others, callers_flightLock]
      exact hd
    · exact ⟨_, List.mem_cons_self, rfl, hkey.symm⟩
  | queued guard =>
    simp only [hp, Option.ite_none_right_eq_some] at hstep
    obtain ⟨-, ⟨⟩⟩ := hstep
    exact h.move hids hc fun _ => rfl
  | holding guard =>
    simp only [hp] at hstep
    cases hcached : (w.decisions.get w.clock c.question.key).2 with
    | some allowed =>
      simp only [hcached] at hstep
      cases hstep
      exact h.move hids hc fun _ => rfl
    | none =>
      simp only [hcached] at hstep
      cases hstep
      exact h.move hids hc fun _ => rfl
  | reviewing guard => simp [hp] at hstep
  | received guard allowed =>
    simp only [hp] at hstep
    cases hstep
    exact h.move hids hc fun _ => rfl
  | stored guard allowed =>
    simp only [hp] at hstep
    cases hstep
    exact h.move hids hc fun _ => rfl
  | releasing guard result =>
    have hguard : guard ∈ c.phase.guard := by rw [hp]; rfl
    have hreg := hinv.flights.registered c hc guard hguard (by rw [hp]; rfl)
    have hothers := h.release hids hc hreg (hlast (by rw [hp]; rfl) guard hguard)
    obtain ⟨inFlight, heq⟩ := SarInv.releaseFlight_eq (w := w) c.question.key
    rw [heq] at hothers
    simp only [hp, heq] at hstep
    cases hstep
    exact hothers.more
  | leaving guard result =>
    simp only [hp] at hstep
    cases hstep
    exact (hquiet (by rw [Caller.asking, hp]; rfl)).more
  | unlocked guard result =>
    simp only [hp] at hstep
    cases hstep
    exact hquiet (by rw [Caller.asking, hp]; rfl)
  | abandoned guard =>
    simp only [hp] at hstep
    cases hstep
    exact hquiet (by rw [Caller.asking, hp]; rfl)

theorem AllAsked.step {ttl size : Nat} (h : AllAsked w.callers w.inFlight)
    (hinv : SarInv ttl size w) {e : SarEvent} (hlast : LastRemoves w e)
    (hstep : sarStep w e = some w') : AllAsked w'.callers w'.inFlight := by
  cases e with
  | enter q =>
    cases hstep
    exact h.enter
  | run i =>
    obtain ⟨c, hfind, hstep⟩ := Option.bind_eq_some_iff.mp hstep
    exact h.advance hinv (mem_of_find hfind)
      (hlast c (mem_of_find hfind) (by simpa using List.find?_some hfind)) hstep
  | review i result =>
    obtain ⟨c, hfind, hstep⟩ := Option.bind_eq_some_iff.mp hstep
    cases hp : c.phase with
    | reviewing guard =>
      cases result with
      | ok allowed =>
        simp only [hp] at hstep
        cases hstep
        exact h.move hinv.calling.ids (mem_of_find hfind) fun _ => rfl
      | error e =>
        simp only [hp] at hstep
        cases hstep
        exact h.move hinv.calling.ids (mem_of_find hfind) fun _ => rfl
    | _ => simp [hp] at hstep
  | cancel i =>
    obtain ⟨c, hfind, hstep⟩ := Option.bind_eq_some_iff.mp hstep
    have hc := mem_of_find hfind
    have hothers := h.others hinv.calling.ids hc fun hasking _ =>
      hlast c hc (by simpa using List.find?_some hfind) hasking
    rw [Option.ite_none_right_eq_some] at hstep
    obtain ⟨-, hstep⟩ := hstep
    cases hguard : c.phase.guard with
    | none =>
      simp only [hguard] at hstep
      cases hstep
      exact hothers
    | some guard =>
      simp only [hguard] at hstep
      cases hstep
      exact hothers.more
  | wait time =>
    simp only [sarStep, Option.ite_none_right_eq_some] at hstep
    obtain ⟨-, ⟨⟩⟩ := hstep
    exact h
  | rehash entries =>
    simp only [sarStep, Option.ite_none_right_eq_some] at hstep
    obtain ⟨-, ⟨⟩⟩ := hstep
    exact h

/-! ## A step that leaves a question behind -/

theorem find_of_mem {ttl size : Nat} (hinv : SarInv ttl size w) (hc : c ∈ w.callers) :
    w.callers.find? (·.id = c.id) = some c := by
  cases hfind : w.callers.find? (·.id = c.id) with
  | none => simpa using List.find?_eq_none.mp hfind c hc
  | some d =>
    have hid : d.id = c.id := by simpa using List.find?_some hfind
    rw [List.inj_on_of_nodup_map hinv.calling.ids (mem_of_find hfind) hc hid]

theorem left_behind {g : Nat} {p : Phase} (hreg : w.inFlight.lookup c.question.key = some g)
    (hp : { c with phase := p }.asking = false) (hother : ¬ w.askedByOther c) :
    ∃ e ∈ w.inFlight, ∀ d ∈ (w.move c p).callers, d.question.key = e.1 → d.asking = false := by
  refine ⟨_, mem_of_lookup hreg, fun d hd hkey => ?_⟩
  rcases List.mem_cons.mp hd with rfl | hd
  · exact hp
  · by_contra hasking
    exact hother (askedByOther_iff.mpr ⟨d, hd, Bool.eq_true_of_not_eq_false hasking, hkey⟩)

theorem left_of_not_lastRemoves {ttl size : Nat} (hinv : SarInv ttl size w) {e : SarEvent}
    (hstep : sarStep w e = some w') (hlast : ¬ LastRemoves w e) :
    ∃ e ∈ w'.inFlight, ∀ d ∈ w'.callers, d.question.key = e.1 → d.asking = false := by
  cases e with
  | run i =>
    simp only [LastRemoves, not_forall, not_or] at hlast
    obtain ⟨c, hc, rfl, hreleasing, g, hguard, hcount, hother⟩ := hlast
    cases hp : c.phase with
    | releasing guard result =>
      rw [hp] at hguard
      cases hguard
      have hreg := hinv.flights.registered c hc g (by rw [hp]; rfl) (by rw [hp]; rfl)
      rw [sarStep, find_of_mem hinv hc, Option.bind_some, SarWorld.advance, hp] at hstep
      simp only [SarWorld.releaseFlight, hreg, hcount, if_false] at hstep
      cases hstep
      exact left_behind hreg rfl hother
    | _ => simp [hp, Phase.isReleasing] at hreleasing
  | cancel i =>
    simp only [LastRemoves, not_forall] at hlast
    obtain ⟨c, hc, rfl, hasking, hother⟩ := hlast
    obtain ⟨g, hguard, hreg⟩ := lookup_of_asking hinv hc hasking
    rw [sarStep, find_of_mem hinv hc, Option.bind_some, Option.ite_none_right_eq_some,
      hguard] at hstep
    obtain ⟨-, ⟨⟩⟩ := hstep
    exact left_behind hreg rfl hother
  | _ => exact absurd trivial hlast

/-! ## Runs -/

theorem sarInv_of_reaches {ttl size : Nat} {ok : SarWorld → SarEvent → Prop}
    (h : Reaches sarStep ok (.start ttl size) w) : SarInv ttl size w :=
  h.invariant _ .start fun _ _ _ hi _ hstep => hi.step hstep

/-- The registry holds only questions that are being asked, in every state of a
run whose last callers remove their question, and a step without that leaves
one behind. -/
theorem flight_registry_holds_asked {ttl size : Nat} :
    (∀ w, Reaches sarStep LastRemoves (.start ttl size) w →
      AllAsked w.callers w.inFlight ∧ (w.callers = [] → w.inFlight = []) ∧
        w.inFlight.length ≤ w.callers.length) ∧
    ∀ w e w', Reaches sarStep (fun _ _ => True) (.start ttl size) w → sarStep w e = some w' →
      ¬ LastRemoves w e → ¬ AllAsked w'.callers w'.inFlight := by
  constructor
  · intro w h
    have hinv := sarInv_of_reaches h
    have hasked : AllAsked w.callers w.inFlight := by
      have hboth : SarInv ttl size w ∧ AllAsked w.callers w.inFlight :=
        h.invariant (fun w => SarInv ttl size w ∧ AllAsked w.callers w.inFlight)
          ⟨.start, by simp [AllAsked, SarWorld.start]⟩
          fun t e u hi hlast hstep => ⟨hi.1.step hstep, hi.2.step hi.1 hlast hstep⟩
      exact hboth.2
    have hlen : w.inFlight.length ≤ w.callers.length := by
      have hsub : w.inFlight.map (·.1) ⊆ w.callers.map (·.question.key) := by
        intro key hkey
        obtain ⟨e, he, rfl⟩ := List.mem_map.mp hkey
        obtain ⟨c, hc, -, hkey⟩ := hasked e he
        exact List.mem_map.mpr ⟨c, hc, hkey⟩
      simpa using (List.subperm_of_subset hinv.flights.keys hsub).length_le
    refine ⟨hasked, fun hidle => ?_, hlen⟩
    rw [hidle] at hlen
    exact List.eq_nil_of_length_eq_zero (Nat.le_zero.mp hlen)
  · intro w e w' h hstep hlast hasked
    obtain ⟨entry, hentry, hnobody⟩ := left_of_not_lastRemoves (sarInv_of_reaches h) hstep hlast
    obtain ⟨c, hc, hasking, hkey⟩ := hasked entry hentry
    rw [hnobody c hc hkey] at hasking
    cases hasking

/-- One of two calls is cancelled before its review is answered; the other asks the
reviewer itself, and nothing is left behind. -/
theorem flight_registry_holds_asked_one :
    ∃ w : SarWorld, w.answers.length = 1 ∧ w.nextCaller = 2 ∧ w.inFlight = [] := by
  obtain ⟨w, hreach, hanswers, hcallers, hidle⟩ : ∃ w, Reaches sarStep LastRemoves (.start 60 8) w ∧
      w.answers.length = 1 ∧ w.nextCaller = 2 ∧ w.callers = [] :=
    exists_reaches [.enter (listSnapshots []), .enter (listSnapshots []), .run 0, .run 0, .run 1,
      .run 1, .run 0, .run 0, .cancel 0, .run 0, .run 1, .run 1, .review 1 (.ok true), .run 1,
      .run 1, .run 1, .run 1, .run 1] (by decide)
  exact ⟨w, hanswers, hcallers, (flight_registry_holds_asked.1 w hreach).2.1 hidle⟩

def SarEvent.isCancel : SarEvent → Bool
  | .cancel _ => true
  | _ => false

/-- A call that is cancelled while it waits leaves its question behind, and so
do two calls of which the first is slow to drop its handle. -/
theorem flight_registry_leaks :
    (∃ w, Reaches sarStep (fun _ _ => True) (.start 60 8) w ∧ w.callers = [] ∧
      w.inFlight.length = 1) ∧
    ∃ w, Reaches sarStep (fun _ e => e.isCancel = false) (.start 60 8) w ∧ w.callers = [] ∧
      w.answers.length = 2 ∧ w.inFlight.length = 1 := by
  constructor
  · exact exists_reaches [.enter (listSnapshots []), .run 0, .run 0, .cancel 0, .run 0] (by decide)
  · exact exists_reaches [.enter (listSnapshots []), .enter (listSnapshots []), .run 0, .run 0,
      .run 1, .run 1, .run 0, .run 0, .review 0 (.ok true), .run 0, .run 0, .run 0, .run 0, .run 1,
      .run 1, .run 1, .run 0, .run 1, .run 1] (by decide)

end Kopiur.Ui
