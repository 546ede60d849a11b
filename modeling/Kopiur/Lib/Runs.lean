import Mathlib.Logic.Basic

/-!
# Runs of a step function

A system is a partial step function on states. `Reaches` follows only steps
that meet a condition on the state before the step, so that an invariant can
be stated for the runs of a restricted environment.
-/

namespace Kopiur.Lib

variable {σ ι : Type}

/-- `t` is reached from `s` by steps that each meet `ok`. -/
inductive Reaches (step : σ → ι → Option σ) (ok : σ → ι → Prop) (s : σ) : σ → Prop
  | refl : Reaches step ok s s
  | tail {t u : σ} {a : ι} (run : Reaches step ok s t) (meets : ok t a) (last : step t a = some u) :
      Reaches step ok s u

namespace Reaches

variable {step : σ → ι → Option σ} {ok : σ → ι → Prop} {s t : σ}

theorem invariant (h : Reaches step ok s t) (inv : σ → Prop) (init : inv s)
    (keeps : ∀ t a u, inv t → ok t a → step t a = some u → inv u) : inv t := by
  induction h with
  | refl => exact init
  | tail _ meets last ih => exact keeps _ _ _ ih meets last

theorem trans {u : σ} (h : Reaches step ok s t) (h' : Reaches step ok t u) :
    Reaches step ok s u := by
  induction h' with
  | refl => exact h
  | tail _ meets last ih => exact ih.tail meets last

theorem mono {ok' : σ → ι → Prop} (h : Reaches step ok s t) (hok : ∀ s a, ok s a → ok' s a) :
    Reaches step ok' s t := by
  induction h with
  | refl => exact .refl
  | tail _ meets last ih => exact ih.tail (hok _ _ meets) last

end Reaches

def runSteps (step : σ → ι → Option σ) (ok : σ → ι → Prop) [∀ s a, Decidable (ok s a)] :
    σ → List ι → Option σ
  | s, [] => some s
  | s, a :: rest => if ok s a then (step s a).bind fun t => runSteps step ok t rest else none

theorem reaches_of_runSteps {step : σ → ι → Option σ} {ok : σ → ι → Prop}
    [∀ s a, Decidable (ok s a)] {s t : σ} {actions : List ι}
    (h : runSteps step ok s actions = some t) : Reaches step ok s t := by
  induction actions generalizing s with
  | nil =>
    cases h
    exact .refl
  | cons a rest ih =>
    rw [runSteps] at h
    split at h
    case isFalse => cases h
    case isTrue hok =>
      obtain ⟨u, hu, hrest⟩ := Option.bind_eq_some_iff.mp h
      exact Reaches.trans (.tail .refl hok hu) (ih hrest)

section Evaluation

variable {step : σ → ι → Option σ} {ok : σ → ι → Prop} [∀ s a, Decidable (ok s a)] {s : σ}
  {P Q : σ → Prop} [DecidablePred P]

/-- Where a run ends is found by running it. -/
theorem exists_runSteps_imp {actions : List ι}
    (h : (runSteps step ok s actions).any (fun t => decide (P t)) = true)
    (himp : ∀ t, runSteps step ok s actions = some t → P t → Q t) :
    ∃ t, runSteps step ok s actions = some t ∧ Q t := by
  obtain ⟨t, ht, hp⟩ := (Option.any_eq_true _ _).mp h
  exact ⟨t, ht, himp t ht (of_decide_eq_true hp)⟩

theorem exists_runSteps {actions : List ι}
    (h : (runSteps step ok s actions).any (fun t => decide (P t)) = true) :
    ∃ t, runSteps step ok s actions = some t ∧ P t :=
  exists_runSteps_imp h fun _ _ => id

theorem exists_reaches_imp (actions : List ι)
    (h : (runSteps step ok s actions).any (fun t => decide (P t)) = true)
    (himp : ∀ t, Reaches step ok s t → P t → Q t) : ∃ t, Reaches step ok s t ∧ Q t := by
  obtain ⟨t, ht, hp⟩ := exists_runSteps h
  exact ⟨t, reaches_of_runSteps ht, himp t (reaches_of_runSteps ht) hp⟩

theorem exists_reaches (actions : List ι)
    (h : (runSteps step ok s actions).any (fun t => decide (P t)) = true) :
    ∃ t, Reaches step ok s t ∧ P t :=
  exists_reaches_imp actions h fun _ _ => id

end Evaluation

end Kopiur.Lib
