import Kopiur.Lib.Lists
import Kopiur.Lib.Runs
import Kopiur.Ui.SarCache

/-!
# What the authorization cache answers

Over every interleaving of calls: an answer was given by the reviewer, not
long ago and to the same question; a failed review answers nothing; the cache
stays within its bound; and no question is under review twice at a time.
-/

namespace Kopiur.Ui

open Kopiur.Lib

/-! ## The same question -/

variable {w w' : SarWorld} {c d : Caller}

theorem mem_others : d ∈ w.others c ↔ d ∈ w.callers ∧ d.id ≠ c.id := by
  simp [SarWorld.others]

theorem mem_of_find {i : Nat} {c : Caller} (h : w.callers.find? (·.id = i) = some c) :
    c ∈ w.callers :=
  List.mem_of_find?_eq_some h

/-! ## Who is calling -/

def Phase.result : Phase → Option (Except String Bool)
  | .releasing _ r | .leaving _ r | .unlocked _ r => some r
  | _ => none

/-- Calls are told apart by their numbers; one whose review failed is on its
way out with the error. -/
structure CallersInv (callers : List Caller) (nextCaller : Nat) (failed : List Nat)
    (answers : List Answer) : Prop where
  ids : (callers.map (·.id)).Nodup
  old : ∀ c ∈ callers, c.id < nextCaller
  failing : ∀ c ∈ callers, c.id ∈ failed → ∃ e, c.phase.result = some (.error e)
  failedOld : ∀ i ∈ failed, i < nextCaller
  gone : ∀ a ∈ answers, a.caller < nextCaller ∧ ∀ c ∈ callers, c.id ≠ a.caller
  answered : ∀ a ∈ answers, a.caller ∈ failed → ∃ e, a.result = .error e

namespace CallersInv

variable {callers : List Caller} {nextCaller : Nat} {failed : List Nat} {answers : List Answer}

theorem start : CallersInv [] 0 [] [] := by
  constructor <;> simp

theorem enter (h : CallersInv callers nextCaller failed answers) (q : Question) :
    CallersInv (⟨nextCaller, q, .entered⟩ :: callers) (nextCaller + 1) failed answers where
  ids := by
    rw [List.map_cons, List.nodup_cons]
    refine ⟨fun hmem => ?_, h.ids⟩
    obtain ⟨c, hc, heq⟩ := List.mem_map.mp hmem
    exact Nat.ne_of_lt (h.old c hc) heq
  old c hc := by
    rcases List.mem_cons.mp hc with rfl | hc
    · exact Nat.lt_succ_self _
    · exact Nat.lt_succ_of_lt (h.old c hc)
  failing c hc hfailed := by
    rcases List.mem_cons.mp hc with rfl | hc
    · exact absurd (h.failedOld _ hfailed) (Nat.lt_irrefl _)
    · exact h.failing c hc hfailed
  failedOld i hi := Nat.lt_succ_of_lt (h.failedOld i hi)
  gone a ha := by
    obtain ⟨hold, hgone⟩ := h.gone a ha
    refine ⟨Nat.lt_succ_of_lt hold, fun c hc => ?_⟩
    rcases List.mem_cons.mp hc with rfl | hc
    · exact Nat.ne_of_gt hold
    · exact hgone c hc
  answered := h.answered

theorem drop (h : CallersInv w.callers nextCaller failed answers) (c : Caller) :
    CallersInv (w.others c) nextCaller failed answers where
  ids := h.ids.sublist (List.filter_sublist.map _)
  old d hd := h.old d (mem_others.mp hd).1
  failing d hd := h.failing d (mem_others.mp hd).1
  failedOld := h.failedOld
  gone a ha := ⟨(h.gone a ha).1, fun d hd => (h.gone a ha).2 d (mem_others.mp hd).1⟩
  answered := h.answered

theorem move (h : CallersInv w.callers nextCaller failed answers) (hc : c ∈ w.callers)
    {p : Phase} (hp : c.id ∈ failed → ∃ e, p.result = some (.error e)) :
    CallersInv (w.move c p).callers nextCaller failed answers where
  ids := by
    simp only [SarWorld.move, List.map_cons, List.nodup_cons]
    refine ⟨fun hmem => ?_, (h.drop c).ids⟩
    obtain ⟨d, hd, heq⟩ := List.mem_map.mp hmem
    exact (mem_others.mp hd).2 heq
  old d hd := by
    rcases List.mem_cons.mp hd with rfl | hd
    · exact h.old c hc
    · exact (h.drop c).old d hd
  failing d hd hfailed := by
    rcases List.mem_cons.mp hd with rfl | hd
    · exact hp hfailed
    · exact (h.drop c).failing d hd hfailed
  failedOld := h.failedOld
  gone a ha := by
    refine ⟨(h.gone a ha).1, fun d hd => ?_⟩
    rcases List.mem_cons.mp hd with rfl | hd
    · exact (h.gone a ha).2 c hc
    · exact ((h.drop c).gone a ha).2 d hd
  answered := h.answered

theorem not_failed (h : CallersInv w.callers nextCaller failed answers) (hc : c ∈ w.callers)
    (hp : c.phase.result = none) : c.id ∉ failed := by
  intro hfailed
  obtain ⟨e, hresult⟩ := h.failing c hc hfailed
  rw [hp] at hresult
  cases hresult

theorem error_of_result (h : CallersInv callers nextCaller failed answers) (hc : c ∈ callers)
    {r : Except String Bool} (hp : c.phase.result = some r) :
    c.id ∈ failed → ∃ e, r = .error e := by
  intro hfailed
  obtain ⟨e, hresult⟩ := h.failing c hc hfailed
  rw [hp] at hresult
  exact ⟨e, Option.some.inj hresult⟩

theorem fail (h : CallersInv w.callers nextCaller failed answers) (hc : c ∈ w.callers)
    {g : Nat} {e : String} :
    CallersInv (w.move c (.releasing g (.error e))).callers nextCaller (c.id :: failed) answers := by
  have hmoved := h.move hc (p := .releasing g (.error e)) fun _ => ⟨e, rfl⟩
  refine ⟨hmoved.ids, hmoved.old, ?_, ?_, hmoved.gone, ?_⟩
  · intro d hd hfailed
    rcases List.mem_cons.mp hfailed with heq | hfailed
    · rcases List.mem_cons.mp hd with rfl | hd
      · exact ⟨e, rfl⟩
      · exact absurd heq (mem_others.mp hd).2
    · exact hmoved.failing d hd hfailed
  · intro i hi
    rcases List.mem_cons.mp hi with rfl | hi
    · exact h.old c hc
    · exact h.failedOld i hi
  · intro a ha hfailed
    rcases List.mem_cons.mp hfailed with heq | hfailed
    · exact absurd heq.symm ((h.gone a ha).2 c hc)
    · exact h.answered a ha hfailed

theorem finish (h : CallersInv w.callers nextCaller failed answers) (hc : c ∈ w.callers)
    {result : Except String Bool} {time : Nat}
    (hresult : c.id ∈ failed → ∃ e, result = .error e) :
    CallersInv (w.others c) nextCaller failed (⟨c.id, c.question, result, time⟩ :: answers) := by
  have hdrop := h.drop c
  refine ⟨hdrop.ids, hdrop.old, hdrop.failing, hdrop.failedOld, ?_, ?_⟩
  · intro a ha
    rcases List.mem_cons.mp ha with rfl | ha
    · exact ⟨h.old c hc, fun d hd => (mem_others.mp hd).2⟩
    · exact hdrop.gone a ha
  · intro a ha hfailed
    rcases List.mem_cons.mp ha with rfl | ha
    · exact hresult hfailed
    · exact h.answered a ha hfailed

end CallersInv

/-! ## Who has which lock -/

def Phase.isLeaving : Phase → Bool
  | .leaving .. | .unlocked .. | .abandoned _ => true
  | _ => false

/-- A call that is not done uses the guard that is registered for its
question, and no two calls have one lock. -/
structure FlightInv (callers : List Caller) (inFlight : List (SarKey × Nat)) (nextGuard : Nat) :
    Prop where
  keys : (inFlight.map (·.1)).Nodup
  issued : ∀ e ∈ inFlight, e.2 < nextGuard
  handed : ∀ c ∈ callers, ∀ g ∈ c.phase.guard, g < nextGuard
  registered : ∀ c ∈ callers, ∀ g ∈ c.phase.guard, c.phase.isLeaving = false →
    inFlight.lookup c.question.key = some g
  apart : ∀ c ∈ callers, ∀ d ∈ callers, c.phase.holds → d.phase.holds →
    c.phase.guard = d.phase.guard → c.id = d.id

namespace FlightInv

variable {inFlight : List (SarKey × Nat)} {nextGuard : Nat}

theorem start : FlightInv [] [] 0 := by
  constructor <;> simp

theorem enter {callers : List Caller} (h : FlightInv callers inFlight nextGuard) (i : Nat)
    (q : Question) : FlightInv (⟨i, q, .entered⟩ :: callers) inFlight nextGuard where
  keys := h.keys
  issued := h.issued
  handed c hc g hg := by
    rcases List.mem_cons.mp hc with rfl | hc
    · cases hg
    · exact h.handed c hc g hg
  registered c hc g hg := by
    rcases List.mem_cons.mp hc with rfl | hc
    · cases hg
    · exact h.registered c hc g hg
  apart c hc d hd hholds hholds' := by
    rcases List.mem_cons.mp hc with rfl | hc
    · cases hholds
    · rcases List.mem_cons.mp hd with rfl | hd
      · cases hholds'
      · exact h.apart c hc d hd hholds hholds'

theorem drop (h : FlightInv w.callers inFlight nextGuard) (c : Caller) :
    FlightInv (w.others c) inFlight nextGuard where
  keys := h.keys
  issued := h.issued
  handed d hd := h.handed d (mem_others.mp hd).1
  registered d hd := h.registered d (mem_others.mp hd).1
  apart d hd d' hd' := h.apart d (mem_others.mp hd).1 d' (mem_others.mp hd').1

theorem move (h : FlightInv w.callers inFlight nextGuard) {p : Phase}
    (hhanded : ∀ g ∈ p.guard, g < nextGuard)
    (hregistered : ∀ g ∈ p.guard, p.isLeaving = false → inFlight.lookup c.question.key = some g)
    (hapart : p.holds → ∀ d ∈ w.others c, d.phase.holds → d.phase.guard ≠ p.guard) :
    FlightInv (w.move c p).callers inFlight nextGuard where
  keys := h.keys
  issued := h.issued
  handed d hd := by
    rcases List.mem_cons.mp hd with rfl | hd
    · exact hhanded
    · exact (h.drop c).handed d hd
  registered d hd := by
    rcases List.mem_cons.mp hd with rfl | hd
    · exact hregistered
    · exact (h.drop c).registered d hd
  apart d hd d' hd' hholds hholds' hguard := by
    rcases List.mem_cons.mp hd with rfl | hd
    · rcases List.mem_cons.mp hd' with rfl | hd'
      · rfl
      · exact absurd hguard.symm (hapart hholds d' hd' hholds')
    · rcases List.mem_cons.mp hd' with rfl | hd'
      · exact absurd hguard (hapart hholds' d hd hholds)
      · exact (h.drop c).apart d hd d' hd' hholds hholds' hguard

theorem keep (h : FlightInv w.callers inFlight nextGuard) (hc : c ∈ w.callers) {p : Phase}
    (hguard : p.guard = c.phase.guard) (hholds : p.holds = c.phase.holds)
    (hleaving : c.phase.isLeaving = false) :
    FlightInv (w.move c p).callers inFlight nextGuard := by
  refine h.move ?_ ?_ ?_
  · rw [hguard]
    exact h.handed c hc
  · rw [hguard]
    exact fun g hg _ => h.registered c hc g hg hleaving
  · rw [hguard, hholds]
    intro hown d hd hother heq
    obtain ⟨hd, hne⟩ := mem_others.mp hd
    exact hne (h.apart d hd c hc hother hown heq)

theorem letGo (h : FlightInv w.callers inFlight nextGuard) (hc : c ∈ w.callers) {p : Phase}
    (hguard : p.guard = c.phase.guard) (hholds : p.holds = false) (hleaving : p.isLeaving = true) :
    FlightInv (w.move c p).callers inFlight nextGuard := by
  refine h.move ?_ ?_ ?_
  · rw [hguard]
    exact h.handed c hc
  · rw [hleaving]
    intro g hg hfalse
    cases hfalse
  · rw [hholds]
    intro hfalse
    cases hfalse

theorem flightLock (h : FlightInv w.callers w.inFlight w.nextGuard) (key : SarKey) :
    FlightInv w.callers (w.flightLock key).1.inFlight (w.flightLock key).1.nextGuard ∧
      (w.flightLock key).1.inFlight.lookup key = some (w.flightLock key).2 ∧
      (w.flightLock key).2 < (w.flightLock key).1.nextGuard := by
  unfold SarWorld.flightLock
  cases hl : w.inFlight.lookup key with
  | some g =>
    obtain ⟨l₁, l₂, hsplit, -⟩ := List.lookup_eq_some_iff.mp hl
    refine ⟨h, hl, h.issued (key, g) ?_⟩
    rw [hsplit]
    exact List.mem_append_right _ List.mem_cons_self
  | none =>
    have hnew : ∀ e ∈ w.inFlight, e.1 ≠ key := by
      intro e he heq
      have := List.lookup_eq_none_iff.mp hl e he
      simp [heq] at this
    refine ⟨⟨?_, ?_, ?_, ?_, h.apart⟩, by simp, Nat.lt_succ_self _⟩
    · rw [List.map_cons, List.nodup_cons]
      refine ⟨fun hmem => ?_, h.keys⟩
      obtain ⟨e, he, heq⟩ := List.mem_map.mp hmem
      exact hnew e he heq
    · intro e he
      rcases List.mem_cons.mp he with rfl | he
      · exact Nat.lt_succ_self _
      · exact Nat.lt_succ_of_lt (h.issued e he)
    · exact fun c hc g hg => Nat.lt_succ_of_lt (h.handed c hc g hg)
    · intro c hc g hg hleaving
      have hreg := h.registered c hc g hg hleaving
      have hne : (c.question.key == key) = false := by
        apply beq_eq_false_iff_ne.mpr
        intro heq
        rw [heq, hl] at hreg
        cases hreg
      rw [List.lookup_cons, hne]
      exact hreg

theorem eq_of_length_le_one {α : Type} {l : List α} (h : l.length ≤ 1) {a b : α} (ha : a ∈ l)
    (hb : b ∈ l) : a = b := by
  match l, h with
  | [x], _ => rw [List.mem_singleton.mp ha, List.mem_singleton.mp hb]

theorem alone_of_strongCount {g : Nat} {key : SarKey} (hl : w.inFlight.lookup key = some g)
    (hc : c ∈ w.callers) (hguard : c.phase.guard = some g) (hcount : w.strongCount g ≤ 2)
    (hd : d ∈ w.callers) (hguard' : d.phase.guard = some g) : d = c := by
  obtain ⟨l₁, l₂, hsplit, -⟩ := List.lookup_eq_some_iff.mp hl
  have hentry : 0 < (w.inFlight.filter fun e => e.2 = g).length := by
    apply List.length_pos_of_mem (a := (key, g))
    simp [hsplit]
  unfold SarWorld.strongCount at hcount
  refine eq_of_length_le_one (l := w.callers.filter fun c => c.phase.guard = some g) (by omega)
    (List.mem_filter.mpr ⟨hd, by simpa using hguard'⟩) (List.mem_filter.mpr ⟨hc, by simpa using hguard⟩)

theorem release (h : FlightInv w.callers w.inFlight w.nextGuard) (hc : c ∈ w.callers) {g : Nat}
    {r : Except String Bool} (hphase : c.phase = .releasing g r) :
    FlightInv ((w.releaseFlight c.question.key).move c (.leaving g r)).callers
      (w.releaseFlight c.question.key).inFlight (w.releaseFlight c.question.key).nextGuard := by
  have hguard : c.phase.guard = some g := by rw [hphase]; rfl
  have hl : w.inFlight.lookup c.question.key = some g :=
    h.registered c hc g hguard (by rw [hphase]; rfl)
  have hmoved : FlightInv (w.move c (.leaving g r)).callers w.inFlight w.nextGuard := by
    refine h.move ?_ (fun _ _ hl => by cases hl) ?_
    · rintro _ ⟨⟩
      exact h.handed c hc g hguard
    · intro _ d hd hother heq
      obtain ⟨hd, hne⟩ := mem_others.mp hd
      exact hne (h.apart d hd c hc hother (by rw [hphase]; rfl) (by rw [heq, hguard]; rfl))
  unfold SarWorld.releaseFlight
  rw [hl]
  dsimp only
  split
  case isFalse => exact hmoved
  case isTrue hcount =>
    refine ⟨h.keys.sublist (List.filter_sublist.map _),
      fun e he => h.issued e (List.mem_filter.mp he).1, hmoved.handed, ?_, hmoved.apart⟩
    intro d hd g' hg' hleaving
    have hreg := hmoved.registered d hd g' hg' hleaving
    have hne : d.question.key ≠ c.question.key := by
      intro heq
      rw [heq, hl] at hreg
      obtain rfl := Option.some.inj hreg
      rcases List.mem_cons.mp hd with rfl | hd
      · cases hleaving
      · obtain ⟨hd, hother⟩ := mem_others.mp hd
        exact hother (congrArg Caller.id (alone_of_strongCount hl hc hguard hcount hd hg'))
    have := lookup_filter_key (fun k => decide (k ≠ c.question.key)) w.inFlight d.question.key
    rw [this, if_pos (by simpa using hne)]
    exact hreg

end FlightInv

/-! ## Where answers come from -/

/-- The reviewer gave the answer to the question, within `ttl` before `time`. -/
def Justified (ttl : Nat) (reviews : List Review) (q : Question) (allowed : Bool) (time : Nat) :
    Prop :=
  ∃ r ∈ reviews, r.question.key = q.key ∧ r.allowed = allowed ∧ r.time ≤ time ∧
    (r.time = time ∨ time - r.time < ttl)

/-- What a call under way knows, at the present time. -/
def CallOk (ttl : Nat) (reviews : List Review) (clock : Nat) (c : Caller) : Prop :=
  match c.phase with
  | .received _ allowed | .stored _ allowed =>
    ∃ r ∈ reviews, r.question.key = c.question.key ∧ r.allowed = allowed ∧ r.time = clock
  | .releasing _ (.ok allowed) | .leaving _ (.ok allowed) | .unlocked _ (.ok allowed) =>
    Justified ttl reviews c.question allowed clock
  | _ => True

structure DecisionInv (ttl size : Nat) (decisions : Decisions) (callers : List Caller)
    (reviews : List Review) (clock : Nat) (answers : List Answer) : Prop where
  sameTtl : decisions.ttl = ttl
  sameSize : decisions.size = size
  backed : ∀ e ∈ decisions.entries, ∃ r ∈ reviews,
    r.question.key = e.1 ∧ r.allowed = e.2.value ∧ r.time = e.2.stamp
  bounded : decisions.entries.length ≤ size
  past : ∀ r ∈ reviews, r.time ≤ clock
  current : ∀ c ∈ callers, CallOk ttl reviews clock c
  answered : ∀ a ∈ answers, ∀ b, a.result = .ok b → Justified ttl reviews a.question b a.time

theorem Justified.more {ttl time : Nat} {reviews : List Review} {q : Question} {b : Bool}
    (h : Justified ttl reviews q b time) (r : Review) : Justified ttl (r :: reviews) q b time := by
  obtain ⟨r', hr', hrest⟩ := h
  exact ⟨r', List.mem_cons_of_mem _ hr', hrest⟩

theorem CallOk.more {ttl clock : Nat} {reviews : List Review} (h : CallOk ttl reviews clock c)
    (r : Review) : CallOk ttl (r :: reviews) clock c := by
  have hexists : ∀ allowed, (∃ r ∈ reviews, r.question.key = c.question.key ∧
        r.allowed = allowed ∧ r.time = clock) →
      ∃ r' ∈ r :: reviews, r'.question.key = c.question.key ∧ r'.allowed = allowed ∧
        r'.time = clock := by
    rintro allowed ⟨r', hr', hrest⟩
    exact ⟨r', List.mem_cons_of_mem _ hr', hrest⟩
  unfold CallOk at h ⊢
  cases hp : c.phase with
  | received g allowed =>
    rw [hp] at h
    exact hexists allowed h
  | stored g allowed =>
    rw [hp] at h
    exact hexists allowed h
  | releasing g result =>
    cases result with
    | error e => trivial
    | ok allowed =>
      rw [hp] at h
      exact Justified.more h r
  | leaving g result =>
    cases result with
    | error e => trivial
    | ok allowed =>
      rw [hp] at h
      exact Justified.more h r
  | unlocked g result =>
    cases result with
    | error e => trivial
    | ok allowed =>
      rw [hp] at h
      exact Justified.more h r
  | _ => trivial

theorem callOk_of_suspended {ttl clock : Nat} {reviews : List Review}
    (h : c.phase.suspended = true) : CallOk ttl reviews clock c := by
  unfold CallOk
  cases hp : c.phase <;> simp_all [Phase.suspended]

theorem result_of_suspended (h : c.phase.suspended = true) : c.phase.result = none := by
  cases hp : c.phase <;> simp_all [Phase.suspended, Phase.result]

namespace DecisionInv

variable {ttl size clock : Nat} {decisions decisions' : Decisions} {callers : List Caller}
  {reviews : List Review} {answers : List Answer}

theorem start : DecisionInv ttl size ⟨ttl, size, []⟩ [] [] 0 [] := by
  constructor <;> simp

theorem shrink (h : DecisionInv ttl size decisions callers reviews clock answers)
    (httl : decisions'.ttl = decisions.ttl) (hsize : decisions'.size = decisions.size)
    (hsub : ∀ e ∈ decisions'.entries, e ∈ decisions.entries)
    (hlen : decisions'.entries.length ≤ decisions.entries.length) :
    DecisionInv ttl size decisions' callers reviews clock answers where
  sameTtl := httl.trans h.sameTtl
  sameSize := hsize.trans h.sameSize
  backed e he := h.backed e (hsub e he)
  bounded := Nat.le_trans hlen h.bounded
  past := h.past
  current := h.current
  answered := h.answered

theorem calls (h : DecisionInv ttl size decisions callers reviews clock answers)
    {callers' : List Caller} (hcurrent : ∀ c ∈ callers', CallOk ttl reviews clock c) :
    DecisionInv ttl size decisions callers' reviews clock answers :=
  ⟨h.sameTtl, h.sameSize, h.backed, h.bounded, h.past, hcurrent, h.answered⟩

theorem drop (h : DecisionInv ttl size decisions w.callers reviews clock answers) (c : Caller) :
    DecisionInv ttl size decisions (w.others c) reviews clock answers :=
  h.calls fun d hd => h.current d (mem_others.mp hd).1

theorem move (h : DecisionInv ttl size decisions w.callers reviews clock answers) {p : Phase}
    (hp : CallOk ttl reviews clock { c with phase := p }) :
    DecisionInv ttl size decisions (w.move c p).callers reviews clock answers := by
  refine h.calls fun d hd => ?_
  rcases List.mem_cons.mp hd with rfl | hd
  · exact hp
  · exact (h.drop c).current d hd

theorem finish (h : DecisionInv ttl size decisions w.callers reviews clock answers)
    {result : Except String Bool} (hresult : ∀ b, result = .ok b →
      Justified ttl reviews c.question b clock) :
    DecisionInv ttl size decisions (w.others c) reviews clock
      (⟨c.id, c.question, result, clock⟩ :: answers) := by
  refine ⟨h.sameTtl, h.sameSize, h.backed, h.bounded, h.past, (h.drop c).current, ?_⟩
  intro a ha
  rcases List.mem_cons.mp ha with rfl | ha
  · exact hresult
  · exact h.answered a ha

theorem get (h : DecisionInv ttl size decisions callers reviews clock answers) (key : SarKey) :
    DecisionInv ttl size (decisions.get clock key).1 callers reviews clock answers := by
  unfold Decisions.get
  cases decisions.entries.find key with
  | none => exact h
  | some s =>
    dsimp only
    split
    · exact h
    · exact h.shrink rfl rfl (fun e he => StampedCache.mem_of_mem_remove he)
        (StampedCache.length_remove_le _ _)

theorem justified_of_get (h : DecisionInv ttl size decisions callers reviews clock answers)
    {q : Question} {b : Bool} (hget : (decisions.get clock q.key).2 = some b) :
    Justified ttl reviews q b clock := by
  unfold Decisions.get at hget
  cases hfind : decisions.entries.find q.key with
  | none => simp [hfind] at hget
  | some s =>
    simp only [hfind] at hget
    split at hget
    · rename_i hfresh
      obtain ⟨r, hr, hkey, hallowed, htime⟩ := h.backed _ (StampedCache.mem_of_find hfind)
      refine ⟨r, hr, hkey, hallowed.trans (Option.some.inj hget), h.past r hr, .inr ?_⟩
      have hage := of_decide_eq_true hfresh
      rw [htime, ← h.sameTtl]
      exact hage
    · cases hget

theorem put (h : DecisionInv ttl size decisions callers reviews clock answers) {key : SarKey}
    {allowed : Bool} (hreview : ∃ r ∈ reviews, r.question.key = key ∧ r.allowed = allowed ∧
      r.time = clock) :
    DecisionInv ttl size (decisions.put clock key allowed) callers reviews clock answers := by
  have hsweep : DecisionInv ttl size
      { decisions with entries := decisions.entries.sweep decisions.ttl clock } callers reviews
      clock answers :=
    h.shrink rfl rfl (fun e he => StampedCache.mem_of_mem_sweep he)
      (StampedCache.length_sweep_le _ _ _)
  unfold Decisions.put
  dsimp only
  split
  case isTrue => exact hsweep
  case isFalse hpos =>
    refine ⟨h.sameTtl, h.sameSize, ?_, ?_, h.past, h.current, h.answered⟩
    · intro e he
      rcases StampedCache.mem_insert he with he | rfl
      · exact hsweep.backed e (StampedCache.mem_of_mem_makeRoom he)
      · exact hreview
    · have hroom := StampedCache.length_makeRoom_lt (Nat.pos_of_ne_zero hpos)
        (decisions.entries.sweep decisions.ttl clock)
      have hins := StampedCache.length_insert_le
        ((decisions.entries.sweep decisions.ttl clock).makeRoom decisions.size) key allowed clock
      rw [← h.sameSize]
      exact Nat.le_trans hins hroom

end DecisionInv

/-! ## Runs -/

structure SarInv (ttl size : Nat) (w : SarWorld) : Prop where
  calling : CallersInv w.callers w.nextCaller w.failed w.answers
  flights : FlightInv w.callers w.inFlight w.nextGuard
  answers : DecisionInv ttl size w.decisions w.callers w.reviews w.clock w.answers

namespace SarInv

variable {ttl size : Nat}

theorem start : SarInv ttl size (.start ttl size) :=
  ⟨.start, .start, .start⟩

theorem releaseFlight_eq (key : SarKey) :
    ∃ inFlight, w.releaseFlight key = { w with inFlight } := by
  unfold SarWorld.releaseFlight
  split
  · split
    · exact ⟨_, rfl⟩
    · exact ⟨_, rfl⟩
  · exact ⟨_, rfl⟩

theorem flightLock_eq (key : SarKey) :
    ∃ inFlight nextGuard guard, w.flightLock key = ({ w with inFlight, nextGuard }, guard) := by
  unfold SarWorld.flightLock
  split
  · exact ⟨_, _, _, rfl⟩
  · exact ⟨_, _, _, rfl⟩

section Advance

variable {guard : Nat} {allowed : Bool} {result : Except String Bool} (h : SarInv ttl size w)
  (hstep : w.advance c = some w')

include h hstep

theorem advance_abandoned (hp : c.phase = .abandoned guard) : SarInv ttl size w' := by
  unfold SarWorld.advance at hstep
  simp only [hp] at hstep
  cases hstep
  exact ⟨h.calling.drop c, h.flights.drop c, h.answers.drop c⟩

variable (hc : c ∈ w.callers)

include hc

theorem advance_entered (hp : c.phase = .entered) : SarInv ttl size w' := by
  unfold SarWorld.advance at hstep
  have hfine := h.calling.not_failed hc (by rw [hp]; rfl)
  have hget := h.answers.get c.question.key
  simp only [hp] at hstep
  cases hcached : (w.decisions.get w.clock c.question.key).2 with
  | some allowed =>
    simp only [hcached] at hstep
    cases hstep
    refine ⟨h.calling.finish hc fun hf => absurd hf hfine, h.flights.drop c, hget.finish ?_⟩
    rintro b ⟨⟩
    exact h.answers.justified_of_get hcached
  | none =>
    simp only [hcached] at hstep
    cases hstep
    refine ⟨h.calling.move hc fun hf => absurd hf hfine, h.flights.move ?_ ?_ ?_,
      hget.move trivial⟩
    · rintro g ⟨⟩
    · rintro g ⟨⟩
    · rintro ⟨⟩

theorem advance_missed (hp : c.phase = .missed) : SarInv ttl size w' := by
  unfold SarWorld.advance at hstep
  have hfine := h.calling.not_failed hc (by rw [hp]; rfl)
  obtain ⟨hflights, hlookup, hissued⟩ := h.flights.flightLock c.question.key
  obtain ⟨inFlight, nextGuard, guard, heq⟩ := flightLock_eq (w := w) c.question.key
  rw [heq] at hflights hlookup hissued
  simp only [hp, heq] at hstep
  cases hstep
  refine ⟨h.calling.move hc fun hf => absurd hf hfine, hflights.move ?_ ?_ ?_,
    h.answers.move trivial⟩
  · rintro _ ⟨⟩
    exact hissued
  · rintro _ ⟨⟩ -
    exact hlookup
  · rintro ⟨⟩

theorem advance_queued (hp : c.phase = .queued guard) : SarInv ttl size w' := by
  unfold SarWorld.advance at hstep
  have hfine := h.calling.not_failed hc (by rw [hp]; rfl)
  simp only [hp, Option.ite_none_right_eq_some] at hstep
  obtain ⟨hfree, ⟨⟩⟩ := hstep
  have hguard : c.phase.guard = some guard := by rw [hp]; rfl
  refine ⟨h.calling.move hc fun hf => absurd hf hfine, h.flights.move ?_ ?_ ?_,
    h.answers.move trivial⟩
  · rintro _ ⟨⟩
    exact h.flights.handed c hc guard hguard
  · rintro _ ⟨⟩ -
    exact h.flights.registered c hc guard hguard (by rw [hp]; rfl)
  · intro _ d hd hholds heq
    have hd := List.all_eq_true.mp hfree d (mem_others.mp hd).1
    rw [hholds, heq] at hd
    simp [Phase.guard] at hd

theorem advance_holding (hp : c.phase = .holding guard) : SarInv ttl size w' := by
  unfold SarWorld.advance at hstep
  have hfine := h.calling.not_failed hc (by rw [hp]; rfl)
  have hget := h.answers.get c.question.key
  simp only [hp] at hstep
  cases hcached : (w.decisions.get w.clock c.question.key).2 with
  | some allowed =>
    simp only [hcached] at hstep
    cases hstep
    exact ⟨h.calling.move hc fun hf => absurd hf hfine,
      h.flights.keep hc (by rw [hp]; rfl) (by rw [hp]; rfl) (by rw [hp]; rfl),
      hget.move (h.answers.justified_of_get hcached)⟩
  | none =>
    simp only [hcached] at hstep
    cases hstep
    exact ⟨h.calling.move hc fun hf => absurd hf hfine,
      h.flights.keep hc (by rw [hp]; rfl) (by rw [hp]; rfl) (by rw [hp]; rfl),
      hget.move trivial⟩

theorem advance_received (hp : c.phase = .received guard allowed) : SarInv ttl size w' := by
  unfold SarWorld.advance at hstep
  have hfine := h.calling.not_failed hc (by rw [hp]; rfl)
  have hreview := h.answers.current c hc
  simp only [CallOk, hp] at hreview hstep
  cases hstep
  exact ⟨h.calling.move hc fun hf => absurd hf hfine,
    h.flights.keep hc (by rw [hp]; rfl) (by rw [hp]; rfl) (by rw [hp]; rfl),
    (h.answers.put hreview).move hreview⟩

theorem advance_stored (hp : c.phase = .stored guard allowed) : SarInv ttl size w' := by
  unfold SarWorld.advance at hstep
  have hfine := h.calling.not_failed hc (by rw [hp]; rfl)
  have hreview := h.answers.current c hc
  simp only [CallOk, hp] at hreview hstep
  cases hstep
  have hswept : DecisionInv ttl size (w.decisions.len w.clock).1 w.callers w.reviews w.clock
      w.answers :=
    h.answers.shrink rfl rfl (fun e he => StampedCache.mem_of_mem_sweep he)
      (StampedCache.length_sweep_le _ _ _)
  obtain ⟨r, hr, hkey, hallowed, htime⟩ := hreview
  exact ⟨h.calling.move hc fun hf => absurd hf hfine,
    h.flights.keep hc (by rw [hp]; rfl) (by rw [hp]; rfl) (by rw [hp]; rfl),
    hswept.move ⟨r, hr, hkey, hallowed, Nat.le_of_eq htime, .inl htime⟩⟩

theorem advance_releasing (hp : c.phase = .releasing guard result) : SarInv ttl size w' := by
  unfold SarWorld.advance at hstep
  have hcurrent := h.answers.current c hc
  have hflights := h.flights.release hc hp
  have hfailing : c.id ∈ w.failed → ∃ e, (Phase.leaving guard result).result = some (.error e) := by
    intro hf
    obtain ⟨e, rfl⟩ := h.calling.error_of_result hc (by rw [hp]; rfl) hf
    exact ⟨e, rfl⟩
  obtain ⟨inFlight, heq⟩ := releaseFlight_eq (w := w) c.question.key
  rw [heq] at hflights
  simp only [hp, heq] at hstep
  cases hstep
  refine ⟨h.calling.move hc hfailing, hflights, h.answers.move ?_⟩
  cases result with
  | error e => trivial
  | ok allowed =>
    simp only [CallOk, hp] at hcurrent
    exact hcurrent

theorem advance_leaving (hp : c.phase = .leaving guard result) : SarInv ttl size w' := by
  unfold SarWorld.advance at hstep
  have hcurrent := h.answers.current c hc
  simp only [hp] at hstep
  cases hstep
  refine ⟨h.calling.move hc ?_,
    h.flights.letGo hc (p := .unlocked guard result) (by rw [hp]; rfl) rfl rfl, h.answers.move ?_⟩
  · intro hf
    obtain ⟨e, rfl⟩ := h.calling.error_of_result hc (by rw [hp]; rfl) hf
    exact ⟨e, rfl⟩
  · cases result with
    | error e => trivial
    | ok allowed =>
      simp only [CallOk, hp] at hcurrent
      exact hcurrent

theorem advance_unlocked (hp : c.phase = .unlocked guard result) : SarInv ttl size w' := by
  unfold SarWorld.advance at hstep
  have hcurrent := h.answers.current c hc
  simp only [hp] at hstep
  cases hstep
  refine ⟨h.calling.finish hc (h.calling.error_of_result hc (by rw [hp]; rfl)), h.flights.drop c,
    h.answers.finish ?_⟩
  rintro b rfl
  simp only [CallOk, hp] at hcurrent
  exact hcurrent

end Advance

theorem advance (h : SarInv ttl size w) (hc : c ∈ w.callers) (hstep : w.advance c = some w') :
    SarInv ttl size w' := by
  cases hp : c.phase with
  | entered => exact h.advance_entered hstep hc hp
  | missed => exact h.advance_missed hstep hc hp
  | queued guard => exact h.advance_queued hstep hc hp
  | holding guard => exact h.advance_holding hstep hc hp
  | reviewing guard => simp [SarWorld.advance, hp] at hstep
  | received guard allowed => exact h.advance_received hstep hc hp
  | stored guard allowed => exact h.advance_stored hstep hc hp
  | releasing guard result => exact h.advance_releasing hstep hc hp
  | leaving guard result => exact h.advance_leaving hstep hc hp
  | unlocked guard result => exact h.advance_unlocked hstep hc hp
  | abandoned guard => exact h.advance_abandoned hstep hp

theorem step (h : SarInv ttl size w) {e : SarEvent} (hstep : sarStep w e = some w') :
    SarInv ttl size w' := by
  cases e with
  | enter q =>
    cases hstep
    refine ⟨h.calling.enter q, h.flights.enter _ q, h.answers.calls fun c hc => ?_⟩
    rcases List.mem_cons.mp hc with rfl | hc
    · trivial
    · exact h.answers.current c hc
  | run i =>
    obtain ⟨c, hfind, hstep⟩ := Option.bind_eq_some_iff.mp hstep
    exact h.advance (mem_of_find hfind) hstep
  | review i result =>
    obtain ⟨c, hfind, hstep⟩ := Option.bind_eq_some_iff.mp hstep
    have hc := mem_of_find hfind
    cases hp : c.phase with
    | reviewing guard =>
      have hfine := h.calling.not_failed hc (by rw [hp]; rfl)
      cases result with
      | ok allowed =>
        simp only [hp] at hstep
        cases hstep
        have hmore : DecisionInv ttl size w.decisions w.callers
            (⟨c.question, allowed, w.clock⟩ :: w.reviews) w.clock w.answers := by
          refine ⟨h.answers.sameTtl, h.answers.sameSize, ?_, h.answers.bounded, ?_, ?_, ?_⟩
          · intro e he
            obtain ⟨r, hr, hrest⟩ := h.answers.backed e he
            exact ⟨r, List.mem_cons_of_mem _ hr, hrest⟩
          · intro r hr
            rcases List.mem_cons.mp hr with rfl | hr
            · exact Nat.le_refl _
            · exact h.answers.past r hr
          · exact fun d hd => (h.answers.current d hd).more _
          · exact fun a ha b hb => (h.answers.answered a ha b hb).more _
        exact ⟨h.calling.move hc fun hf => absurd hf hfine,
          h.flights.keep hc (by rw [hp]; rfl) (by rw [hp]; rfl) (by rw [hp]; rfl),
          hmore.move ⟨_, List.mem_cons_self, rfl, rfl, rfl⟩⟩
      | error e =>
        simp only [hp] at hstep
        cases hstep
        exact ⟨h.calling.fail hc,
          h.flights.keep hc (by rw [hp]; rfl) (by rw [hp]; rfl) (by rw [hp]; rfl),
          h.answers.move trivial⟩
    | _ => simp [hp] at hstep
  | cancel i =>
    obtain ⟨c, hfind, hstep⟩ := Option.bind_eq_some_iff.mp hstep
    have hc := mem_of_find hfind
    rw [Option.ite_none_right_eq_some] at hstep
    obtain ⟨hsuspended, hstep⟩ := hstep
    cases hguard : c.phase.guard with
    | none =>
      simp only [hguard] at hstep
      cases hstep
      exact ⟨h.calling.drop c, h.flights.drop c, h.answers.drop c⟩
    | some guard =>
      have hfine := h.calling.not_failed hc (result_of_suspended hsuspended)
      simp only [hguard] at hstep
      cases hstep
      exact ⟨h.calling.move hc fun hf => absurd hf hfine,
        h.flights.letGo hc (p := .abandoned guard) hguard.symm rfl rfl,
        h.answers.move trivial⟩
  | wait time =>
    simp only [sarStep, Option.ite_none_right_eq_some] at hstep
    obtain ⟨hawait, ⟨⟩⟩ := hstep
    refine ⟨h.calling, h.flights, h.answers.sameTtl, h.answers.sameSize, h.answers.backed,
      h.answers.bounded, ?_, ?_, h.answers.answered⟩
    · exact fun r hr => Nat.le_trans (h.answers.past r hr) (Nat.le_add_right _ _)
    · exact fun c hc => callOk_of_suspended (List.all_eq_true.mp hawait c hc)
  | rehash entries =>
    simp only [sarStep, Option.ite_none_right_eq_some] at hstep
    obtain ⟨hperm, ⟨⟩⟩ := hstep
    exact ⟨h.calling, h.flights,
      h.answers.shrink rfl rfl (fun e he => hperm.mem_iff.mp he) (Nat.le_of_eq hperm.length_eq)⟩

end SarInv

def listSnapshots (groups : List String) : Question where
  identity := ⟨"ada", groups, [], none, [], .trustedHeaders⟩
  verb := "list"
  resource := "snapshots"
  ns := some "prod"
  name := none

end Kopiur.Ui
