import Mathlib.Data.List.Basic
import Mathlib.Tactic.Common

/-!
# Computations that may fail

What a successful run of a sequence or a loop went through.
-/

namespace Kopiur.Lib

variable {ε α β σ : Type}

theorem bind_eq_ok {x : Except ε α} {f : α → Except ε β} {b : β} :
    (x >>= f) = .ok b ↔ ∃ a, x = .ok a ∧ f a = .ok b := by
  cases x <;> simp [bind, Except.bind]

theorem map_of_mapM {f : α → Except ε β} {g : α → β} (hg : ∀ a b, f a = .ok b → b = g a)
    {l : List α} {bs : List β} (h : l.mapM f = .ok bs) : bs = l.map g := by
  rw [← List.mapM'_eq_mapM] at h
  induction l generalizing bs with
  | nil =>
    cases h
    rfl
  | cons a rest ih =>
    obtain ⟨b, hb, h⟩ := bind_eq_ok.mp h
    obtain ⟨cs, hcs, h⟩ := bind_eq_ok.mp h
    cases h
    rw [List.map_cons, hg a b hb, ih hcs]

theorem forM_eq_ok {f : α → Except ε PUnit} {l : List α} (h : l.forM f = .ok ()) :
    ∀ a ∈ l, f a = .ok () := by
  induction l with
  | nil => exact fun a ha => by cases ha
  | cons b rest ih =>
    obtain ⟨⟨⟩, hb, h⟩ := bind_eq_ok.mp h
    intro a ha
    rcases List.mem_cons.mp ha with rfl | ha
    · exact hb
    · exact ih h a ha

theorem foldlM_invariant {f : σ → α → Except ε σ} (inv : σ → Prop)
    (keeps : ∀ s a t, inv s → f s a = .ok t → inv t) {l : List α} {s t : σ} (init : inv s)
    (h : l.foldlM f s = .ok t) : inv t := by
  induction l generalizing s with
  | nil =>
    cases h
    exact init
  | cons a rest ih =>
    rw [List.foldlM_cons] at h
    obtain ⟨u, hu, h⟩ := bind_eq_ok.mp h
    exact ih (keeps s a u init hu) h

theorem filterAuxM_of_ok {p : α → Except ε Bool} {q : α → Bool} (h : ∀ a, p a = .ok (q a))
    (l acc : List α) : List.filterAuxM p l acc = .ok ((l.filter q).reverse ++ acc) := by
  induction l generalizing acc with
  | nil => rfl
  | cons a rest ih =>
    unfold List.filterAuxM
    rw [h a]
    cases hq : q a <;> simpa [bind, Except.bind, hq] using ih _

theorem filterM_of_ok {p : α → Except ε Bool} {q : α → Bool} (h : ∀ a, p a = .ok (q a))
    (l : List α) : l.filterM p = .ok (l.filter q) := by
  unfold List.filterM
  rw [filterAuxM_of_ok h]
  simp [bind, Except.bind, pure, Except.pure]

end Kopiur.Lib
