import Mathlib.Data.List.Basic

/-!
# Glob patterns

A pattern over an alphabet with a symbol for one character and a symbol for any
run of them. `GlobMatches` is the meaning of a pattern. `LiteralFirst` is the
meaning a matcher gives it that compares a pattern symbol with the value before
it asks whether the symbol is special.
-/

namespace Kopiur.Lib

variable {α : Type*} {one many : α}

variable (one many) in
/-- The value splits into pieces taken in order by the whole pattern. -/
inductive GlobMatches : List α → List α → Prop
  | done : GlobMatches [] []
  | one {x p v} : GlobMatches p v → GlobMatches (one :: p) (x :: v)
  | char {c p v} : c ≠ one → c ≠ many → GlobMatches p v → GlobMatches (c :: p) (c :: v)
  | many {p} (r) {v} : GlobMatches p v → GlobMatches (many :: p) (r ++ v)

variable (one many) in
/-- Every `many` that stands at a `many` of the value takes that one character. -/
inductive LiteralFirst : List α → List α → Prop
  | done : LiteralFirst [] []
  | one {x p v} : LiteralFirst p v → LiteralFirst (one :: p) (x :: v)
  | char {c p v} : c ≠ one → LiteralFirst p v → LiteralFirst (c :: p) (c :: v)
  | many {p} (r) {v} : (r ++ v).head? ≠ some many → LiteralFirst p v →
      LiteralFirst (many :: p) (r ++ v)

theorem LiteralFirst.globMatches {p v : List α} (h : LiteralFirst one many p v) :
    GlobMatches one many p v := by
  induction h with
  | done => exact .done
  | one _ ih => exact .one ih
  | @char c p v hone _ ih =>
    by_cases hmany : c = many
    · subst hmany
      exact .many [c] ih
    · exact .char hone hmany ih
  | many r _ _ ih => exact .many r ih

theorem GlobMatches.literalFirst {p v : List α} (h : GlobMatches one many p v) (hv : many ∉ v) :
    LiteralFirst one many p v := by
  induction h with
  | done => exact .done
  | one _ ih => exact .one (ih fun hmem => hv (.tail _ hmem))
  | char hone _ _ ih => exact .char hone (ih fun hmem => hv (.tail _ hmem))
  | @many p r v _ ih =>
    have hhead : (r ++ v).head? ≠ some many := fun hhead => hv (List.mem_of_mem_head? hhead)
    exact .many r hhead (ih fun hmem => hv (List.mem_append_right r hmem))

theorem literalFirst_many {p v : List α} (hv : v.head? ≠ some many) :
    LiteralFirst one many (many :: p) v ↔ ∃ w, w <:+ v ∧ LiteralFirst one many p w := by
  constructor
  · intro h
    cases h with
    | one h => exact ⟨_, List.suffix_cons _ _, h⟩
    | char _ h => exact ⟨_, List.suffix_cons _ _, h⟩
    | many r _ h => exact ⟨_, List.suffix_append r _, h⟩
  · rintro ⟨w, ⟨r, rfl⟩, h⟩
    exact .many r hv h

theorem LiteralFirst.tail {c : α} {p v : List α} (h : LiteralFirst one many (c :: p) v) :
    ∃ w, w <:+ v ∧ LiteralFirst one many p w := by
  cases h with
  | one h => exact ⟨_, List.suffix_cons _ _, h⟩
  | char _ h => exact ⟨_, List.suffix_cons _ _, h⟩
  | many r _ h => exact ⟨_, List.suffix_append r _, h⟩

theorem literalFirst_cons {c x : α} {p v : List α} (hne : one ≠ many) (hc : c = one ∨ c = x) :
    LiteralFirst one many (c :: p) (x :: v) ↔ LiteralFirst one many p v := by
  by_cases hone : c = one
  · subst hone
    refine ⟨fun h => ?_, .one⟩
    generalize hw : x :: v = w at h
    cases h with
    | one h => exact (List.cons.inj hw).2 ▸ h
    | char hself _ => exact absurd rfl hself
    | many => exact absurd rfl hne
  · have hx : c = x := hc.resolve_left hone
    subst hx
    refine ⟨fun h => ?_, .char hone⟩
    generalize hw : c :: v = w at h
    cases h with
    | one => exact absurd rfl hone
    | char _ h => exact (List.cons.inj hw).2 ▸ h
    | many r hhead h =>
      rw [← hw] at hhead
      exact absurd rfl hhead

theorem not_literalFirst_cons {c x : α} {p v : List α} (hc : ¬ (c = one ∨ c = x))
    (hmany : c ≠ many) : ¬ LiteralFirst one many (c :: p) (x :: v) := by
  intro h
  generalize hw : x :: v = w at h
  cases h with
  | one => exact hc (.inl rfl)
  | char => exact hc (.inr (List.cons.inj hw).1.symm)
  | many => exact hmany rfl

theorem literalFirst_nil {p : List α} : LiteralFirst one many p [] ↔ ∀ c ∈ p, c = many := by
  induction p with
  | nil => simp [LiteralFirst.done]
  | cons c p ih =>
    constructor
    · intro h
      generalize hw : ([] : List α) = w at h
      cases h with
      | one => cases hw
      | char => cases hw
      | many r _ h =>
        obtain ⟨rfl, rfl⟩ := List.append_eq_nil_iff.mp hw.symm
        simpa using ih.mp h
    · intro h
      obtain rfl := h c (.head _)
      exact .many [] (by simp) (ih.mpr fun c hc => h c (.tail _ hc))

end Kopiur.Lib
