import Mathlib.Order.OrderIsoNat

/-!
# Coming to rest

A system that repeats one step for ever may spend a measure first. Once it is
spent, it is enough that some step is quiet and that quiet steps stay quiet.
-/

namespace Kopiur.Lib

variable {quiet : Nat → Prop} {μ : Nat → Nat}

theorem eventually_const (h : ∀ n, μ (n + 1) ≤ μ n) : ∃ N, ∀ n, N ≤ n → μ n = μ N := by
  obtain ⟨N, hN⟩ := WellFoundedGT.monotone_chain_condition (α := Natᵒᵈ)
    ⟨fun n => OrderDual.toDual (μ n), monotone_nat_of_le_succ h⟩
  exact ⟨N, fun n hn => (hN n hn).symm⟩

theorem comes_to_rest (hdown : ∀ n, μ (n + 1) ≤ μ n)
    (hnear : ∀ n, (∀ m, n ≤ m → μ m = μ n) → ∃ m, n ≤ m ∧ quiet m)
    (hstay : ∀ n, (∀ m, n ≤ m → μ m = μ n) → quiet n → quiet (n + 1)) :
    ∃ N, ∀ n, N ≤ n → quiet n := by
  obtain ⟨N, hN⟩ := eventually_const hdown
  obtain ⟨M, hNM, hM⟩ := hnear N hN
  refine ⟨M, fun n hMn => ?_⟩
  induction n, hMn using Nat.le_induction with
  | base => exact hM
  | succ n hMn ih =>
    have hn : N ≤ n := hNM.trans hMn
    exact hstay n (fun m hm => (hN m (hn.trans hm)).trans (hN n hn).symm) ih

end Kopiur.Lib
