import Kopiur.Controller.RunJobs
import Kopiur.Controller.StatusConditions

/-!
# Passes over a still world

Every status write wakes the controller again. While only the clock advances, a
pass reads what the passes before it wrote, and the writes have to come to an
end.
-/

namespace Kopiur

variable {σ π ρ ε α : Type}

def RunCall.patch? : RunCall π ρ → Option π
  | .patch p => some p
  | .create .. | .delete _ => none

def patches (calls : List (RunCall π ρ)) : List π := calls.filterMap RunCall.patch?

@[simp] theorem patches_nil : patches ([] : List (RunCall π ρ)) = [] := rfl

@[simp] theorem patches_patch (p : π) (calls : List (RunCall π ρ)) :
    patches (.patch p :: calls) = p :: patches calls := rfl

@[simp] theorem patches_create (name : String) (run : ρ) (calls : List (RunCall π ρ)) :
    patches (.create name run :: calls) = patches calls := rfl

@[simp] theorem patches_delete (name : String) (calls : List (RunCall π ρ)) :
    patches (.delete name :: calls) = patches calls := rfl

@[simp] theorem patches_append (a b : List (RunCall π ρ)) :
    patches (a ++ b) = patches a ++ patches b := List.filterMap_append

structure Stillness (ε : Type) where
  env : ε
  job : String → Option (Option Bool)
  active : Bool

def Stillness.view (still : Stillness ε) (now : DateTime) : JobsView :=
  { now, job := still.job, active := still.active }

namespace RunKind

variable (k : RunKind σ π ρ ε α)

def patched (cr : σ) (writes : List π) : σ := writes.foldl (fun cr p => k.apply p cr) cr

@[simp] theorem patched_nil (cr : σ) : k.patched cr [] = cr := rfl

@[simp] theorem patched_cons (cr : σ) (p : π) (writes : List π) :
    k.patched cr (p :: writes) = k.patched (k.apply p cr) writes := rfl

@[simp] theorem patched_append (cr : σ) (a b : List π) :
    k.patched cr (a ++ b) = k.patched (k.patched cr a) b := List.foldl_append

/-- A write puts a condition there that the later writes of its pass take away
again. -/
def Erases (conditions : σ → List StatusCondition) (cr : σ) (writes : List π) : Prop :=
  ∃ before p after c, writes = before ++ p :: after ∧
    StatusCondition.find (conditions (k.patched cr before)) c.type ≠ some c ∧
    StatusCondition.find (conditions (k.patched cr (before ++ [p]))) c.type = some c ∧
    StatusCondition.find (conditions (k.patched cr writes)) c.type ≠ some c

section Passes

variable (still : Stillness ε) (clock : Nat → DateTime) (cr : σ)

def object : Nat → σ
  | 0 => cr
  | n + 1 =>
    k.patched (object n) (patches (k.reconcile still.env (still.view (clock n)) (object n)))

def writes (n : Nat) : List π :=
  patches (k.reconcile still.env (still.view (clock n)) (k.object still clock cr n))

theorem object_succ (n : Nat) : k.object still clock cr (n + 1) =
    k.patched (k.object still clock cr n) (k.writes still clock cr n) := rfl

/-- No write is issued for ever, no condition changes for ever, and no pass
erases what it wrote. -/
structure Settles (conditions : σ → List StatusCondition) : Prop where
  quiet : ∃ N, ∀ n, N ≤ n → k.writes still clock cr n = []
  steady : ∀ type, ∃ N, ∀ n, N ≤ n →
    StatusCondition.find (conditions (k.object still clock cr n)) type =
      StatusCondition.find (conditions (k.object still clock cr N)) type
  kept : ∀ n, ¬ k.Erases conditions (k.object still clock cr n) (k.writes still clock cr n)

variable {k still clock cr} {conditions : σ → List StatusCondition}

theorem Settles.of (hquiet : ∃ N, ∀ n, N ≤ n → k.writes still clock cr n = [])
    (hkept : ∀ n, ¬ k.Erases conditions (k.object still clock cr n) (k.writes still clock cr n)) :
    k.Settles still clock cr conditions := by
  refine ⟨hquiet, fun type => ?_, hkept⟩
  obtain ⟨N, hN⟩ := hquiet
  refine ⟨N, fun n hn => ?_⟩
  induction hn with
  | refl => rfl
  | step hn ih => rw [object_succ, hN _ hn, patched_nil, ih]

end Passes

section Erasure

variable {k} {conditions : σ → List StatusCondition} {cr : σ} {writes : List π}

theorem conditions_patched (h : ∀ p ∈ writes, ∀ x, conditions (k.apply p x) = conditions x) :
    conditions (k.patched cr writes) = conditions cr := by
  induction writes generalizing cr with
  | nil => rfl
  | cons p writes ih =>
    rw [patched_cons, ih fun q hq => h q (List.mem_cons_of_mem _ hq), h p (by simp)]

theorem not_erases_of_single
    (h : writes.Pairwise fun p q => (∀ x, conditions (k.apply p x) = conditions x) ∨
      ∀ x, conditions (k.apply q x) = conditions x) :
    ¬ k.Erases conditions cr writes := by
  rintro ⟨before, p, after, c, rfl, hbefore, hwrote, hlost⟩
  have hafter := (List.pairwise_cons.mp (List.pairwise_append.mp h).2.1).1
  by_cases hp : ∀ x, conditions (k.apply p x) = conditions x
  · simp only [patched_append, patched_cons, patched_nil, hp] at hwrote
    exact hbefore hwrote
  · have hrest : ∀ q ∈ after, ∀ x, conditions (k.apply q x) = conditions x := fun q hq =>
      (hafter q hq).resolve_left hp
    rw [List.append_cons, patched_append, conditions_patched hrest] at hlost
    exact hlost hwrote

theorem not_erases_nil : ¬ k.Erases conditions cr [] := not_erases_of_single .nil

end Erasure

end RunKind

end Kopiur
