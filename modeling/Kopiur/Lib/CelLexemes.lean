import Mathlib.Data.List.Basic
import Mathlib.Data.List.TakeWhile
import Mathlib.Tactic.Common

/-!
# Lexemes of CEL

A source is comments, literals, words, numbers and signs. A word or number is
as long as its characters go on, a literal goes to the first closing quotes
that no backslash escapes, and one that is never closed to the end.
-/

namespace Kopiur.Lib

inductive CelLexeme
  | comment (chars : List Char)
  | literal (chars : List Char)
  | word (chars : List Char)
  | number (chars : List Char)
  | sign (c : Char)
deriving DecidableEq

def CelLexeme.chars : CelLexeme → List Char
  | .comment chars | .literal chars | .word chars | .number chars => chars
  | .sign c => [c]

def isQuote (c : Char) : Bool := c == '"' || c == '\''

def isWordStart (c : Char) : Bool := c.isAlpha || c == '_'

def isWordChar (c : Char) : Bool := c.isAlphanum || c == '_'

def isLiteralMark (chars : List Char) : Bool :=
  chars.length ≤ 2 && chars.all fun c => ['r', 'R', 'b', 'B'].contains c

def isRawMark (chars : List Char) : Bool := chars.any fun c => c == 'r' || c == 'R'

def StopsAt (p : Char → Bool) (rest : List Char) : Prop := ∀ c ∈ rest.head?, p c = false

instance (p : Char → Bool) (rest : List Char) : Decidable (StopsAt p rest) :=
  inferInstanceAs (Decidable (∀ c ∈ rest.head?, p c = false))

/-- What stands behind opening quotes, up to and with the closing ones or, not
closed, to the end. A raw literal knows no escapes. -/
inductive LiteralBody (quotes : List Char) (raw : Bool) : Bool → List Char → Prop
  | closed : LiteralBody quotes raw true quotes
  | ended : LiteralBody quotes raw false []
  | lone : raw = false → LiteralBody quotes raw false ['\\']
  | escape {closed c chars} : raw = false → LiteralBody quotes raw closed chars →
      LiteralBody quotes raw closed ('\\' :: c :: chars)
  | char {closed c chars} : (c = '\\' → raw = true) → ¬quotes <+: c :: chars →
      LiteralBody quotes raw closed chars → LiteralBody quotes raw closed (c :: chars)

/-- A quoted text in front of the rest. -/
inductive QuotedText (raw : Bool) : List Char → List Char → Prop
  | triple {q closed chars rest} : isQuote q = true → LiteralBody [q, q, q] raw closed chars →
      (closed = false → rest = []) → QuotedText raw (q :: q :: q :: chars) rest
  | single {q closed chars rest} : isQuote q = true → ¬[q, q] <+: chars ++ rest →
      LiteralBody [q] raw closed chars → (closed = false → rest = []) →
      QuotedText raw (q :: chars) rest

inductive CelScans : List Char → List CelLexeme → Prop
  | nil : CelScans [] []
  | comment {chars rest ts} : (∀ c ∈ chars, c ≠ '\n') → StopsAt (· != '\n') rest →
      CelScans rest ts →
      CelScans ('/' :: '/' :: chars ++ rest) (.comment ('/' :: '/' :: chars) :: ts)
  | literal {mark chars rest ts} : isLiteralMark mark = true →
      QuotedText (isRawMark mark) chars rest → CelScans rest ts →
      CelScans (mark ++ chars ++ rest) (.literal (mark ++ chars) :: ts)
  | word {c chars rest ts} : isWordStart c = true → (∀ d ∈ chars, isWordChar d = true) →
      StopsAt isWordChar rest → (isLiteralMark (c :: chars) = true → StopsAt isQuote rest) →
      CelScans rest ts → CelScans (c :: chars ++ rest) (.word (c :: chars) :: ts)
  | number {c chars rest ts} : c.isDigit = true → (∀ d ∈ chars, isWordChar d = true) →
      StopsAt isWordChar rest → CelScans rest ts →
      CelScans (c :: chars ++ rest) (.number (c :: chars) :: ts)
  | sign {c rest ts} : isWordChar c = false → isQuote c = false →
      (c = '/' → StopsAt (· == '/') rest) → CelScans rest ts → CelScans (c :: rest) (.sign c :: ts)

-- Every source has lexemes

section Literals

variable {quotes chars rest : List Char} {raw closed : Bool}

theorem exists_literalBody (quotes : List Char) (raw : Bool) (l : List Char) :
    ∃ closed chars rest, LiteralBody quotes raw closed chars ∧ l = chars ++ rest ∧
      (closed = false → rest = []) := by
  induction h : l.length using Nat.strong_induction_on generalizing l with
  | h n ih =>
    subst h
    cases l with
    | nil => exact ⟨false, [], [], .ended, rfl, fun _ => rfl⟩
    | cons c l =>
      by_cases hesc : c = '\\' ∧ raw = false
      · obtain ⟨rfl, hraw⟩ := hesc
        cases l with
        | nil => exact ⟨false, ['\\'], [], .lone hraw, rfl, fun _ => rfl⟩
        | cons d l =>
          obtain ⟨closed, chars, rest, hbody, rfl, hrest⟩ :=
            ih l.length (Nat.lt_trans (Nat.lt_succ_self _) (Nat.lt_succ_self _)) l rfl
          exact ⟨closed, '\\' :: d :: chars, rest, .escape hraw hbody, rfl, hrest⟩
      · by_cases hquotes : quotes <+: c :: l
        · obtain ⟨rest, hrest⟩ := hquotes
          exact ⟨true, quotes, rest, .closed, hrest.symm, by simp⟩
        · obtain ⟨closed, chars, rest, hbody, rfl, hrest⟩ := ih l.length (by simp) l rfl
          refine ⟨closed, c :: chars, rest, .char ?_ ?_ hbody, rfl, hrest⟩
          · intro hc
            cases raw
            · exact absurd ⟨hc, rfl⟩ hesc
            · rfl
          · intro hstart
            exact hquotes (hstart.trans (List.prefix_append _ _))

theorem exists_quotedText (raw : Bool) {q : Char} (hq : isQuote q = true) (l : List Char) :
    ∃ chars rest, QuotedText raw chars rest ∧ q :: l = chars ++ rest := by
  by_cases htriple : [q, q] <+: l
  · obtain ⟨l, rfl⟩ := htriple
    obtain ⟨closed, chars, rest, hbody, rfl, hrest⟩ := exists_literalBody [q, q, q] raw l
    exact ⟨_, rest, .triple hq hbody hrest, rfl⟩
  · obtain ⟨closed, chars, rest, hbody, rfl, hrest⟩ := exists_literalBody [q] raw l
    exact ⟨_, rest, .single hq htriple hbody hrest, rfl⟩

end Literals

section Scanning

variable {l : List Char} {ts : List CelLexeme}

theorem stopsAt_dropWhile (p : Char → Bool) (l : List Char) : StopsAt p (l.dropWhile p) := by
  intro c hc
  have h := List.head?_dropWhile_not p l
  rw [Option.mem_def] at hc
  rw [hc] at h
  exact h

theorem not_stopsAt {p : Char → Bool} {rest : List Char} (h : ¬StopsAt p rest) :
    ∃ c tail, rest = c :: tail ∧ p c = true := by
  cases rest with
  | nil => exact absurd (by simp [StopsAt]) h
  | cons c tail => exact ⟨c, tail, rfl, by simpa [StopsAt] using h⟩

theorem of_mem_takeWhile {p : Char → Bool} {l : List Char} : ∀ c ∈ l.takeWhile p, p c = true :=
  fun _ hc => List.mem_takeWhile_imp hc

theorem exists_scan_literal {mark l : List Char} {q : Char} (hmark : isLiteralMark mark = true)
    (hq : isQuote q = true)
    (ih : ∀ rest : List Char, rest.length < (q :: l).length → ∃ ts, CelScans rest ts) :
    ∃ ts, CelScans (mark ++ q :: l) ts := by
  obtain ⟨chars, rest, htext, hsplit⟩ := exists_quotedText (isRawMark mark) hq l
  have hpos : 0 < chars.length := by cases htext <;> simp
  obtain ⟨ts, hts⟩ := ih rest (by rw [hsplit, List.length_append]; omega)
  rw [hsplit, ← List.append_assoc]
  exact ⟨_, .literal hmark htext hts⟩

theorem exists_scan_word {c : Char} {l : List Char} (hc : isWordStart c = true)
    (ih : ∀ rest : List Char, rest.length < (c :: l).length → ∃ ts, CelScans rest ts) :
    ∃ ts, CelScans (c :: l) ts := by
  have hsplit : c :: l = c :: l.takeWhile isWordChar ++ l.dropWhile isWordChar := by
    rw [List.cons_append, List.takeWhile_append_dropWhile]
  have hshort : (l.dropWhile isWordChar).length < (c :: l).length :=
    Nat.lt_succ_of_le (List.dropWhile_sublist _).length_le
  by_cases hquote : isLiteralMark (c :: l.takeWhile isWordChar) = true →
      StopsAt isQuote (l.dropWhile isWordChar)
  · obtain ⟨ts, hts⟩ := ih _ hshort
    rw [hsplit]
    exact ⟨_, .word hc of_mem_takeWhile (stopsAt_dropWhile _ _) hquote hts⟩
  · rw [Classical.not_imp] at hquote
    obtain ⟨hmark, hstops⟩ := hquote
    obtain ⟨q, tail, hrest, hq⟩ := not_stopsAt hstops
    rw [hsplit, hrest]
    exact exists_scan_literal hmark hq fun rest hlen => ih rest (hlen.trans (hrest ▸ hshort))

theorem exists_celScans (l : List Char) : ∃ ts, CelScans l ts := by
  induction h : l.length using Nat.strong_induction_on generalizing l with
  | h n ih =>
    subst h
    have hrest : ∀ rest : List Char, rest.length < l.length → ∃ ts, CelScans rest ts :=
      fun rest hlen => ih _ hlen rest rfl
    cases l with
    | nil => exact ⟨[], .nil⟩
    | cons c l =>
      by_cases hcomment : c = '/' ∧ ¬StopsAt (· == '/') l
      · obtain ⟨rfl, hstops⟩ := hcomment
        obtain ⟨d, tail, rfl, hd⟩ := not_stopsAt hstops
        obtain rfl : d = '/' := by simpa using hd
        obtain ⟨ts, hts⟩ := hrest (tail.dropWhile (· != '\n')) (by
          have := (List.dropWhile_sublist (l := tail) (· != '\n')).length_le
          simp only [List.length_cons]
          omega)
        have hscan : CelScans ('/' :: '/' :: tail.takeWhile (· != '\n') ++
            tail.dropWhile (· != '\n')) _ :=
          .comment (fun c hc => by simpa using of_mem_takeWhile c hc) (stopsAt_dropWhile _ _) hts
        rw [List.cons_append, List.cons_append, List.takeWhile_append_dropWhile] at hscan
        exact ⟨_, hscan⟩
      by_cases hquote : isQuote c = true
      · have hscan : ∃ ts, CelScans ([] ++ c :: l) ts := exists_scan_literal rfl hquote hrest
        exact hscan
      by_cases hstart : isWordStart c = true
      · exact exists_scan_word hstart hrest
      by_cases hdigit : c.isDigit = true
      · obtain ⟨ts, hts⟩ := hrest (l.dropWhile isWordChar)
          (Nat.lt_succ_of_le (List.dropWhile_sublist _).length_le)
        have hscan : CelScans (c :: l.takeWhile isWordChar ++ l.dropWhile isWordChar) _ :=
          .number hdigit of_mem_takeWhile (stopsAt_dropWhile _ _) hts
        rw [List.cons_append, List.takeWhile_append_dropWhile] at hscan
        exact ⟨_, hscan⟩
      · obtain ⟨ts, hts⟩ := hrest l (Nat.lt_succ_self _)
        refine ⟨_, .sign ?_ (Bool.eq_false_iff.mpr hquote) ?_ hts⟩
        · simp only [isWordStart, Bool.or_eq_true, not_or] at hstart
          simp [isWordChar, Char.isAlphanum, hstart, hdigit]
        · exact fun hc => not_not.mp fun hstops => hcomment ⟨hc, hstops⟩

theorem CelScans.flatMap_chars (h : CelScans l ts) : ts.flatMap CelLexeme.chars = l := by
  induction h with
  | nil => rfl
  | sign _ _ _ _ ih => rw [List.flatMap_cons, ih]; rfl
  | _ => rw [List.flatMap_cons, ‹List.flatMap _ _ = _›]; rfl

end Scanning

-- Other words in the same places

/-- A word that is no mark of a literal. -/
structure PlainWord (w : List Char) : Prop where
  head : ∃ c ∈ w.head?, isWordStart c = true
  chars : ∀ c ∈ w, isWordChar c = true
  mark : isLiteralMark w = false

def Reworded (t t' : CelLexeme) : Prop :=
  t' = t ∨ ∃ w w', t = .word w ∧ t' = .word w' ∧ PlainWord w'

def StartAlike (l l' : List Char) : Prop :=
  l.head? = l'.head? ∨
    (∃ c ∈ l.head?, isWordStart c = true) ∧ ∃ c ∈ l'.head?, isWordStart c = true

section Rewording

variable {l l' chars : List Char} {ts ts' : List CelLexeme}

theorem StartAlike.nil (h : StartAlike [] l') : l' = [] := by
  rcases h with h | ⟨⟨c, hc, -⟩, -⟩
  · exact List.head?_eq_none_iff.mp h.symm
  · cases hc

theorem StartAlike.stopsAt {p : Char → Bool} (h : StartAlike l l')
    (hp : ∀ c d, isWordStart c = true → isWordStart d = true → p c = p d) (hstops : StopsAt p l) :
    StopsAt p l' := by
  intro d hd
  rcases h with h | ⟨⟨c, hc, hstart⟩, e, he, hstart'⟩
  · exact hstops d (h ▸ hd)
  · obtain rfl := Option.mem_unique hd he
    rw [hp d c hstart' hstart, hstops c hc]

theorem isWordChar_of_start {c : Char} (h : isWordStart c = true) : isWordChar c = true := by
  rw [isWordStart, Bool.or_eq_true] at h
  rw [isWordChar, Char.isAlphanum]
  rcases h with h | h <;> simp [h]

theorem ne_of_wordStart {c d : Char} (hc : isWordStart c = true) (hd : isWordStart d = false) :
    c ≠ d := by
  rintro rfl
  rw [hc] at hd
  cases hd

theorem not_quote_of_wordStart {c : Char} (h : isWordStart c = true) : isQuote c = false := by
  simp [isQuote, ne_of_wordStart h (d := '"') rfl, ne_of_wordStart h (d := '\'') rfl]

theorem StartAlike.append (hne : chars ≠ []) : StartAlike (chars ++ l) (chars ++ l') := by
  obtain ⟨c, chars, rfl⟩ := List.exists_cons_of_ne_nil hne
  exact .inl rfl

theorem StartAlike.not_quotes {q : Char} {raw closed : Bool} (h : StartAlike l l')
    (hq : isQuote q = true) (hbody : LiteralBody [q] raw closed chars)
    (hend : closed = false → l = []) (hquotes : ¬[q, q] <+: chars ++ l) :
    ¬[q, q] <+: chars ++ l' := by
  intro hprefix
  refine hquotes ?_
  match chars, hbody with
  | [], hbody =>
    have hl : l = [] := by
      cases hbody
      exact hend rfl
    subst hl
    rwa [h.nil] at hprefix
  | [x], hbody =>
    obtain ⟨tail, htail⟩ := hprefix
    simp only [List.cons_append, List.nil_append, List.cons.injEq] at htail
    obtain ⟨rfl, rfl⟩ := htail
    rcases h with h | ⟨-, c, hc, hstart⟩
    · obtain ⟨rest, rfl⟩ := List.head?_eq_some_iff.mp h
      exact ⟨rest, rfl⟩
    · obtain rfl : q = c := by simpa using hc
      rw [not_quote_of_wordStart hstart] at hq
      cases hq
  | x :: y :: chars, hbody =>
    simpa [List.cons_prefix_cons] using hprefix

theorem reworded_cons {t : CelLexeme} (ht : ∀ w, t ≠ .word w)
    (h : List.Forall₂ Reworded (t :: ts) ts') :
    ∃ rest, ts' = t :: rest ∧ List.Forall₂ Reworded ts rest := by
  cases h with
  | cons hhead htail =>
    rcases hhead with rfl | ⟨w, w', rfl, -⟩
    · exact ⟨_, rfl, htail⟩
    · exact absurd rfl (ht w)

theorem CelScans.word_of_plain {w rest : List Char} (hw : PlainWord w)
    (hstops : StopsAt isWordChar rest) (h : CelScans rest ts) :
    CelScans (w ++ rest) (.word w :: ts) ∧ ∃ c ∈ (w ++ rest).head?, isWordStart c = true := by
  obtain ⟨⟨c, hc, hstart⟩, hchars, hmark⟩ := hw
  obtain ⟨tail, rfl⟩ := List.head?_eq_some_iff.mp hc
  refine ⟨.word hstart (fun d hd => hchars d (List.mem_cons_of_mem _ hd)) hstops ?_ h,
    c, rfl, hstart⟩
  intro hmark'
  rw [hmark] at hmark'
  cases hmark'

theorem CelScans.reworded (h : CelScans l ts) (hwords : List.Forall₂ Reworded ts ts') :
    CelScans (ts'.flatMap CelLexeme.chars) ts' ∧ StartAlike l (ts'.flatMap CelLexeme.chars) := by
  induction h generalizing ts' with
  | nil =>
    cases hwords
    exact ⟨.nil, .inl rfl⟩
  | comment hchars hstops _ ih =>
    obtain ⟨ts', rfl, hrest⟩ := reworded_cons (by simp) hwords
    obtain ⟨hscan, halike⟩ := ih hrest
    have hne : ∀ c, isWordStart c = true → (c != '\n') = true := fun c hc =>
      bne_iff_ne.mpr (ne_of_wordStart hc rfl)
    refine ⟨.comment hchars (halike.stopsAt ?_ hstops) hscan, .inl rfl⟩
    intro c d hc hd
    rw [hne c hc, hne d hd]
  | literal hmark htext _ ih =>
    obtain ⟨ts', rfl, hrest⟩ := reworded_cons (by simp) hwords
    obtain ⟨hscan, halike⟩ := ih hrest
    rw [List.flatMap_cons]
    cases htext with
    | triple hq hbody hend =>
      refine ⟨.literal hmark (.triple hq hbody ?_) hscan, StartAlike.append (by simp)⟩
      intro hclosed
      rw [hend hclosed] at halike
      exact halike.nil
    | single hq hquotes hbody hend =>
      refine ⟨.literal hmark (.single hq (halike.not_quotes hq hbody hend hquotes) hbody ?_) hscan,
        StartAlike.append (by simp)⟩
      intro hclosed
      rw [hend hclosed] at halike
      exact halike.nil
  | word hstart hchars hstops hmark _ ih =>
    cases hwords with
    | cons hhead htail =>
      obtain ⟨hscan, halike⟩ := ih htail
      have hstops' := halike.stopsAt
        (fun c d hc hd => by rw [isWordChar_of_start hc, isWordChar_of_start hd]) hstops
      rcases hhead with rfl | ⟨w, w', hw, rfl, hplain⟩
      · refine ⟨.word hstart hchars hstops' (fun h => halike.stopsAt ?_ (hmark h)) hscan, .inl rfl⟩
        intro c d hc hd
        rw [not_quote_of_wordStart hc, not_quote_of_wordStart hd]
      · obtain ⟨hscan', hhead'⟩ := CelScans.word_of_plain hplain hstops' hscan
        exact ⟨hscan', .inr ⟨⟨_, rfl, hstart⟩, hhead'⟩⟩
  | number hdigit hchars hstops _ ih =>
    obtain ⟨ts', rfl, hrest⟩ := reworded_cons (by simp) hwords
    obtain ⟨hscan, halike⟩ := ih hrest
    refine ⟨.number hdigit hchars (halike.stopsAt ?_ hstops) hscan, .inl rfl⟩
    intro c d hc hd
    rw [isWordChar_of_start hc, isWordChar_of_start hd]
  | sign hword hquote hslash _ ih =>
    obtain ⟨ts', rfl, hrest⟩ := reworded_cons (by simp) hwords
    obtain ⟨hscan, halike⟩ := ih hrest
    have hne : ∀ c, isWordStart c = true → (c == '/') = false := fun c hc =>
      beq_eq_false_iff_ne.mpr (ne_of_wordStart hc rfl)
    refine ⟨.sign hword hquote (fun hc => halike.stopsAt ?_ (hslash hc)) hscan, .inl rfl⟩
    intro c d hc hd
    rw [hne c hc, hne d hd]

end Rewording

end Kopiur.Lib
