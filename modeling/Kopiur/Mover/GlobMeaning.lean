import Kopiur.Lib.Globs
import Kopiur.Mover.Replicate

/-!
# What the component globs match

The matcher compares a pattern character with the value before it looks for a
star, so a star of the pattern that stands at a star of the value takes that one
character and no more. That is the meaning it decides; it is the documented one
for every value without a star.
-/

namespace Kopiur

open Lib

def ComponentMatches (pattern value : String) : Prop :=
  GlobMatches '?' '*' pattern.toList value.toList

def ComponentLiteralFirst (pattern value : String) : Prop :=
  LiteralFirst '?' '*' pattern.toList value.toList

namespace Glob

def Accepts (g : Glob) : Prop :=
  LiteralFirst '?' '*' g.pattern g.value ∨
    ∃ s, g.star = some s ∧ ∃ w, w <:+ s.2.tail ∧ LiteralFirst '?' '*' s.1 w

def Behind (g : Glob) : Prop :=
  ∀ s, g.star = some s → ∀ w, w <:+ s.2 → LiteralFirst '?' '*' s.1 w →
    ∃ u, u <:+ g.value ∧ LiteralFirst '?' '*' g.pattern u

theorem behind_star (ps vs : List Char) (h) : Behind ⟨ps, vs, some (ps, vs), h⟩ := by
  intro s hs w hw hread
  cases hs
  exact ⟨w, hw, hread⟩

theorem suffix_tail_of_ne {x : Char} {u vs : List Char} (hu : u <:+ x :: vs) (hne : u ≠ x :: vs) :
    u <:+ vs :=
  (List.suffix_cons_iff.mp hu).resolve_left hne

theorem behind_cons {c x : Char} {ps vs : List Char} {star h h'} (hc : c = '?' ∨ c = x)
    (hg : Behind ⟨c :: ps, x :: vs, star, h⟩) : Behind ⟨ps, vs, star, h'⟩ := by
  intro s hs w hw hread
  obtain ⟨u, hu, hmatch⟩ := hg s hs w hw hread
  by_cases heq : u = x :: vs
  · subst heq
    exact ⟨vs, List.suffix_refl vs, (literalFirst_cons (by decide) hc).mp hmatch⟩
  · obtain ⟨u', hu', hrest⟩ := hmatch.tail
    exact ⟨u', hu'.trans (suffix_tail_of_ne hu heq), hrest⟩

theorem accepts_cons {c x : Char} {ps vs : List Char} {star h h'} (hc : c = '?' ∨ c = x) :
    Accepts ⟨c :: ps, x :: vs, star, h⟩ ↔ Accepts ⟨ps, vs, star, h'⟩ :=
  or_congr (literalFirst_cons (by decide) hc) Iff.rfl

theorem accepts_star {x : Char} {ps vs : List Char} {star h h'} (hx : x ≠ '*')
    (hg : Behind ⟨'*' :: ps, x :: vs, star, h⟩) :
    Accepts ⟨'*' :: ps, x :: vs, star, h⟩ ↔ Accepts ⟨ps, x :: vs, some (ps, x :: vs), h'⟩ := by
  have hmany : LiteralFirst '?' '*' ('*' :: ps) (x :: vs) ↔
      ∃ w, w <:+ x :: vs ∧ LiteralFirst '?' '*' ps w := literalFirst_many (by simpa using hx)
  constructor
  · intro hacc
    have hread : ∃ w, w <:+ x :: vs ∧ LiteralFirst '?' '*' ps w := by
      rcases hacc with hread | ⟨s, hs, w, hw, hread⟩
      · exact hmany.mp hread
      · obtain ⟨u, hu, hmatch⟩ := hg s hs w (hw.trans (List.tail_suffix _)) hread
        obtain ⟨w', hw', hrest⟩ := hmatch.tail
        exact ⟨w', hw'.trans hu, hrest⟩
    obtain ⟨w, hw, hread⟩ := hread
    by_cases heq : w = x :: vs
    · exact .inl (heq ▸ hread)
    · exact .inr ⟨_, rfl, w, suffix_tail_of_ne hw heq, hread⟩
  · rintro (hread | ⟨s, hs, w, hw, hread⟩)
    · exact .inl (hmany.mpr ⟨_, List.suffix_refl _, hread⟩)
    · cases hs
      exact .inl (hmany.mpr ⟨w, hw.trans (List.tail_suffix _), hread⟩)

theorem accepts_backtrack {g g' : Glob} (hno : ¬ LiteralFirst '?' '*' g.pattern g.value)
    (hback : backtrack g.star = some g') : Behind g' ∧ (g.Accepts ↔ g'.Accepts) := by
  unfold backtrack at hback
  split at hback
  · next ps y vs hstar =>
    cases hback
    refine ⟨behind_star ps vs _, ?_⟩
    constructor
    · rintro (hread | ⟨s, hs, w, hw, hread⟩)
      · exact absurd hread hno
      · obtain rfl := Option.some.inj (hstar.symm.trans hs)
        cases vs with
        | nil => exact .inl ((List.suffix_nil.mp hw) ▸ hread)
        | cons z vs =>
          by_cases heq : w = z :: vs
          · exact .inl (heq ▸ hread)
          · exact .inr ⟨_, rfl, w, suffix_tail_of_ne hw heq, hread⟩
    · rintro (hread | ⟨s, hs, w, hw, hread⟩)
      · exact .inr ⟨_, hstar, vs, List.suffix_refl vs, hread⟩
      · cases hs
        exact .inr ⟨_, hstar, w, hw.trans (List.tail_suffix _), hread⟩
  · cases hback

theorem not_accepts_of_backtrack_none {g : Glob}
    (hno : ¬ LiteralFirst '?' '*' g.pattern g.value) (hvalue : g.value ≠ [])
    (hback : backtrack g.star = none) : ¬ g.Accepts := by
  rintro (hread | ⟨s, hs, -⟩)
  · exact hno hread
  · obtain ⟨ps, vs⟩ := s
    cases vs with
    | nil => exact hvalue (List.length_eq_zero_iff.mp (Nat.le_zero.mp (g.ahead _ hs)))
    | cons y vs =>
      rw [hs] at hback
      cases hback

theorem not_literalFirst_nil_cons {x : Char} {vs : List Char} :
    ¬ LiteralFirst '?' '*' [] (x :: vs) := by
  rintro ⟨⟩

/-- What one turn keeps: it goes on behind the same matches, and gives up only
where there is none. -/
theorem step_accepts {g : Glob} {x : Char} {vs : List Char} (h : g.value = x :: vs)
    (hg : g.Behind) :
    (∀ g', g.step x vs h = some g' → g'.Behind ∧ (g.Accepts ↔ g'.Accepts)) ∧
      (g.step x vs h = none → ¬ g.Accepts) := by
  obtain ⟨pattern, value, star, hahead⟩ := g
  cases h
  cases pattern with
  | nil =>
    have hno : ¬ LiteralFirst '?' '*' [] (x :: vs) := not_literalFirst_nil_cons
    exact ⟨fun g' => accepts_backtrack hno,
      not_accepts_of_backtrack_none hno (List.cons_ne_nil x vs)⟩
  | cons c ps =>
    by_cases hc : c = '?' ∨ c = x
    · simp only [step, if_pos hc]
      refine ⟨fun g' hstep => ?_, fun hnone => by cases hnone⟩
      cases hstep
      exact ⟨behind_cons hc hg, accepts_cons hc⟩
    · by_cases hstar : c = '*'
      · subst hstar
        simp only [step, if_neg hc, if_true]
        refine ⟨fun g' hstep => ?_, fun hnone => by cases hnone⟩
        cases hstep
        exact ⟨behind_star ps _ _, accepts_star (fun hx => hc (.inr hx.symm)) hg⟩
      · have hno := not_literalFirst_cons (p := ps) (v := vs) hc hstar
        simp only [step, if_neg hc, if_neg hstar]
        exact ⟨fun g' => accepts_backtrack (g := ⟨c :: ps, x :: vs, star, hahead⟩) hno,
          not_accepts_of_backtrack_none (g := ⟨c :: ps, x :: vs, star, hahead⟩) hno
            (List.cons_ne_nil x vs)⟩

theorem run_iff_accepts (g : Glob) (hg : g.Behind) : g.run = true ↔ g.Accepts := by
  induction g using run.induct with
  | case1 g hvalue =>
    have hrun : g.run = g.pattern.all (· == '*') := by
      rw [run]
      split
      · rfl
      · next heq => simp [hvalue] at heq
    have hread : g.Accepts ↔ LiteralFirst '?' '*' g.pattern g.value := by
      refine ⟨?_, .inl⟩
      rintro (hread | ⟨s, hs, w, hw, hread⟩)
      · exact hread
      · obtain ⟨u, hu, hmatch⟩ := hg s hs w (hw.trans (List.tail_suffix _)) hread
        rw [hvalue] at hu ⊢
        exact List.suffix_nil.mp hu ▸ hmatch
    rw [hrun, hread, hvalue, literalFirst_nil]
    simp
  | case2 g x vs hvalue hstep =>
    have hrun : g.run = false := by
      rw [run]
      split
      · next heq => simp [hvalue] at heq
      · next y ws heq =>
        obtain ⟨rfl, rfl⟩ := List.cons.inj (hvalue.symm.trans heq)
        split
        · rfl
        · next hsome => simp [hstep] at hsome
    have hno := (step_accepts hvalue hg).2 hstep
    simp [hrun, hno]
  | case3 g x vs hvalue g' hstep ih =>
    have hrun : g.run = g'.run := by
      rw [run]
      split
      · next heq => simp [hvalue] at heq
      · next y ws heq =>
        obtain ⟨rfl, rfl⟩ := List.cons.inj (hvalue.symm.trans heq)
        split
        · next hnone => simp [hstep] at hnone
        · next hsome => rw [Option.some.inj (hstep.symm.trans hsome)]
    obtain ⟨hbehind, haccepts⟩ := (step_accepts hvalue hg).1 g' hstep
    rw [hrun, ih hbehind, haccepts]

end Glob

theorem componentGlobMatches_iff (pattern value : String) :
    componentGlobMatches pattern value = true ↔ ComponentLiteralFirst pattern value := by
  unfold componentGlobMatches
  rw [Glob.run_iff_accepts _ (by intro s hs; cases hs)]
  refine ⟨?_, .inl⟩
  rintro (hread | ⟨s, hs, -⟩)
  · exact hread
  · cases hs

/-- A pattern means what it is documented to mean on a value: if it matches at
all, it does with every star at a star held to that character. -/
def StarsHold (pattern value : String) : Prop :=
  ComponentMatches pattern value → ComponentLiteralFirst pattern value

section
variable (means : String → String → Prop)

def MatcherSelects (m : IdentityMatcherSpec) (t : IdentityTriple) : Prop :=
  (m.username.isSome ∨ m.hostname.isSome ∨ m.sourcePath.isSome) ∧
    (∀ p ∈ m.username, means p (ofLex t).1) ∧
    (∀ p ∈ m.hostname, means p (ofLex (ofLex t).2).1) ∧
    (∀ p ∈ m.sourcePath, means p (ofLex (ofLex t).2).2)

def IdentitySelected (incl excl : List IdentityMatcherSpec) (t : IdentityTriple) : Prop :=
  (incl = [] ∨ ∃ m ∈ incl, MatcherSelects means m t) ∧ ¬ ∃ m ∈ excl, MatcherSelects means m t

end

def MatcherStarsHold (m : IdentityMatcherSpec) (t : IdentityTriple) : Prop :=
  (∀ p ∈ m.username, StarsHold p (ofLex t).1) ∧
    (∀ p ∈ m.hostname, StarsHold p (ofLex (ofLex t).2).1) ∧
    (∀ p ∈ m.sourcePath, StarsHold p (ofLex (ofLex t).2).2)

theorem starsHold_iff (pattern value : String) :
    StarsHold pattern value ↔
      (ComponentLiteralFirst pattern value ↔ ComponentMatches pattern value) :=
  ⟨fun h => ⟨LiteralFirst.globMatches, h⟩, Iff.mpr⟩

theorem starsHold_of_not_mem {pattern value : String} (h : '*' ∉ value.toList) :
    StarsHold pattern value :=
  fun hmatch => hmatch.literalFirst h

theorem matcherMatches_iff (m : IdentityMatcherSpec) (t : IdentityTriple) :
    matcherMatches m t = true ↔ MatcherSelects ComponentLiteralFirst m t := by
  obtain ⟨username, hostname, sourcePath⟩ := m
  cases username <;> cases hostname <;> cases sourcePath <;>
    simp [matcherMatches, MatcherSelects, componentGlobMatches_iff, and_assoc]

theorem identityMatchesSpec_iff (incl excl : List IdentityMatcherSpec) (t : IdentityTriple) :
    identityMatchesSpec incl excl t = true ↔
      IdentitySelected ComponentLiteralFirst incl excl t := by
  simp [identityMatchesSpec, IdentitySelected, ← matcherMatches_iff]

theorem MatcherStarsHold.selects {m : IdentityMatcherSpec} {t : IdentityTriple}
    (h : MatcherStarsHold m t) :
    MatcherSelects ComponentLiteralFirst m t ↔ MatcherSelects ComponentMatches m t := by
  obtain ⟨husername, hhostname, hsourcePath⟩ := h
  have hcongr : ∀ {o : Option String} {v : String}, (∀ p ∈ o, StarsHold p v) →
      ((∀ p ∈ o, ComponentLiteralFirst p v) ↔ ∀ p ∈ o, ComponentMatches p v) :=
    fun h => forall₂_congr fun p hp => (starsHold_iff p _).mp (h p hp)
  rw [MatcherSelects, MatcherSelects, hcongr husername, hcongr hhostname, hcongr hsourcePath]

theorem identitySelected_congr {incl excl : List IdentityMatcherSpec} {t : IdentityTriple}
    (h : ∀ m ∈ incl ++ excl, MatcherStarsHold m t) :
    IdentitySelected ComponentLiteralFirst incl excl t ↔
      IdentitySelected ComponentMatches incl excl t := by
  have hincl : (∃ m ∈ incl, MatcherSelects ComponentLiteralFirst m t) ↔
      ∃ m ∈ incl, MatcherSelects ComponentMatches m t :=
    exists_congr fun m => and_congr_right fun hm => (h m (List.mem_append_left _ hm)).selects
  have hexcl : (∃ m ∈ excl, MatcherSelects ComponentLiteralFirst m t) ↔
      ∃ m ∈ excl, MatcherSelects ComponentMatches m t :=
    exists_congr fun m => and_congr_right fun hm => (h m (List.mem_append_right _ hm)).selects
  rw [IdentitySelected, IdentitySelected, hincl, hexcl]

/-- When a pattern, and when a selection, means what it is documented to mean. -/
theorem componentGlob_meaning (pattern value : String) (incl excl : List IdentityMatcherSpec)
    (t : IdentityTriple) :
    ((componentGlobMatches pattern value = true ↔ ComponentMatches pattern value) ↔
      StarsHold pattern value) ∧
    ((identityMatchesSpec incl excl t = true ↔ IdentitySelected ComponentMatches incl excl t) ↔
      (IdentitySelected ComponentLiteralFirst incl excl t ↔
        IdentitySelected ComponentMatches incl excl t)) ∧
    ((∀ m ∈ incl ++ excl, MatcherStarsHold m t) →
      (identityMatchesSpec incl excl t = true ↔
        IdentitySelected ComponentMatches incl excl t)) := by
  refine ⟨?_, ?_, fun h => ?_⟩
  · rw [componentGlobMatches_iff, starsHold_iff]
  · rw [identityMatchesSpec_iff]
  · rw [identityMatchesSpec_iff, identitySelected_congr h]

theorem componentGlob_meaning_plain :
    identityMatchesSpec [⟨some "pg-*", none, none⟩] [] (identityTriple "pg-main" "h" "/p") = true :=
  ((componentGlob_meaning "pg-*" "pg-main" _ _ _).2.2 (by
    intro m hm
    obtain rfl := List.mem_singleton.mp hm
    refine ⟨?_, nofun, nofun⟩
    rintro _ ⟨⟩
    exact starsHold_of_not_mem (by decide))).mpr (by
      refine ⟨.inr ⟨_, .head _, .inl rfl, ?_, nofun, nofun⟩, by simp⟩
      rintro _ ⟨⟩
      have hrest : GlobMatches '?' '*' ['*'] "main".toList := .many "main".toList .done
      exact .char (by decide) (by decide) (.char (by decide) (by decide)
        (.char (by decide) (by decide) hrest)))

/-- A star alone does not match a value that starts with one. -/
theorem componentGlobMatches_star_miss :
    ¬ ∀ pattern value, componentGlobMatches pattern value = true ↔
      ComponentMatches pattern value := by
  intro h
  have hmatch : ComponentMatches "*" "*x" := .many ['*', 'x'] .done
  have hrun := (h "*" "*x").mpr hmatch
  have hmiss : componentGlobMatches "*" "*x" = false := by
    simp [componentGlobMatches, Glob.run, Glob.step, Glob.backtrack]
  exact Bool.false_ne_true (hmiss.symm.trans hrun)

end Kopiur
