import Kopiur.Lib.CelLexemes
import Kopiur.Lib.DnsNames
import Kopiur.Lib.Utf8
import Kopiur.Api.Jitter

/-!
# The alias of the namespace variable

CEL reserves the word `namespace`, so every bare one is rewritten before an
expression is compiled. The scan goes byte by byte; what it does is said by the
lexemes of the expression.
-/

namespace Kopiur

open Lib

def namespaceAlias : List Char := "__nsvar__".toList

def namespaceWord : List Char := "namespace".toList

def isQuoteByte (x : UInt8) : Bool := x == '"'.toUInt8 || x == '\''.toUInt8

/-- The index just past a literal, from the index and the bytes behind its
opening quotes. -/
def stringEndFrom (q : UInt8) (triple raw : Bool) (i : Nat) : List UInt8 → Nat
  | [] => i
  | c :: rest =>
    if c == '\\'.toUInt8 && !raw then
      match rest with
      | [] => i + 1
      | _ :: rest => stringEndFrom q triple raw (i + 2) rest
    else if triple then
      if c == q && rest[0]? == some q && rest[1]? == some q then i + 3
      else stringEndFrom q triple raw (i + 1) rest
    else if c == q then i + 1
    else stringEndFrom q triple raw (i + 1) rest

def stringEnd (b : List UInt8) (opening : Nat) (raw : Bool) : Nat :=
  let q := b.getD opening 0
  let triple := b[opening + 1]? == some q && b[opening + 2]? == some q
  let i := opening + if triple then 3 else 1
  stringEndFrom q triple raw i (b.drop i)

def wordEnd (b : List UInt8) (i : Nat) : Nat :=
  i + ((b.drop i).takeWhile fun x => isWordChar (Char.ofUInt8 x)).length

def findNewline (text : List Char) : Option Nat :=
  if '\n' ∈ text then some (utf8Length (text.takeWhile (· != '\n'))) else none

/-- The passes of the loop from the byte `i` on. A slice that cuts a character
aborts, and so would a loop that does not end. -/
@[simp] def aliasLoop (text : List Char) : Nat → Nat → Bool → List Char → Option (List Char)
  | 0, _, _, _ => none
  | fuel + 1, i, afterDot, out =>
    let b := utf8 text
    match b[i]? with
    | none => some out
    | some c =>
      if c == '/'.toUInt8 && b[i + 1]? == some '/'.toUInt8 then do
        let rest ← dropBytes i text
        let stop := ((findNewline rest).map (i + ·)).getD b.length
        let comment ← sliceBytes text i stop
        aliasLoop text fuel stop afterDot (out ++ comment)
      else if isQuoteByte c then do
        let stop := stringEnd b i false
        let literal ← sliceBytes text i stop
        aliasLoop text fuel stop false (out ++ literal)
      else if isWordStart (Char.ofUInt8 c) then do
        let stop := wordEnd b i
        let word ← sliceBytes text i stop
        if isLiteralMark word && b[stop]?.any isQuoteByte then do
          let stop := stringEnd b stop (isRawMark word)
          let literal ← sliceBytes text i stop
          aliasLoop text fuel stop false (out ++ literal)
        else if word = namespaceWord ∧ afterDot = false then
          aliasLoop text fuel stop false (out ++ namespaceAlias)
        else aliasLoop text fuel stop false (out ++ word)
      else if (Char.ofUInt8 c).isDigit then do
        let stop := wordEnd b i
        let number ← sliceBytes text i stop
        aliasLoop text fuel stop false (out ++ number)
      else do
        let rest ← dropBytes i text
        let ch := rest.head?.getD '\x00'
        aliasLoop text fuel (i + ch.utf8Size) (if isWhitespace ch then afterDot else ch == '.')
          (out ++ [ch])

def aliasNamespaceIdent (expr : String) : Option String :=
  (aliasLoop expr.toList (utf8Length expr.toList + 1) 0 false []).map String.ofList

example : aliasNamespaceIdent "labels . namespace + namespace" =
    some "labels . namespace + __nsvar__" := by
  decide

def isSignificant : CelLexeme → Bool
  | .comment _ => false
  | .sign c => !isWhitespace c
  | _ => true

def Selected (before : List CelLexeme) : Prop :=
  (before.filter isSignificant).getLast? = some (.sign '.')

instance (before : List CelLexeme) : Decidable (Selected before) :=
  inferInstanceAs (Decidable (_ = _))

/-- The lexemes with every bare `namespace` rewritten. -/
def aliasLexemes (before : List CelLexeme) : List CelLexeme → List CelLexeme
  | [] => []
  | t :: ts =>
    (if t = .word namespaceWord ∧ ¬Selected before then .word namespaceAlias else t) ::
      aliasLexemes (before ++ [t]) ts

-- Bytes of the scan

section Bytes

variable {q c : Char} {chars rest : List Char} {raw closed triple : Bool} {i : Nat}

theorem wide_of_not_narrow (h : ¬c.toNat < 128) {x : UInt8} (hx : x ∈ String.utf8EncodeChar c) :
    128 ≤ x.toNat :=
  le_of_mem_wide (Nat.not_lt.mp h) hx

theorem stringEndFrom_wide (hq : q.toNat < 128) {wide bytes : List UInt8}
    (hwide : ∀ x ∈ wide, 128 ≤ x.toNat) :
    stringEndFrom q.toUInt8 triple raw i (wide ++ bytes) =
      stringEndFrom q.toUInt8 triple raw (i + wide.length) bytes := by
  induction wide generalizing i with
  | nil => rfl
  | cons x wide ih =>
    have hx := hwide x List.mem_cons_self
    have hrest := ih (i := i + 1) fun y hy => hwide y (List.mem_cons_of_mem _ hy)
    have hescape : (x == '\\'.toUInt8) = false := by
      refine beq_eq_false_iff_ne.mpr fun h => ?_
      rw [h] at hx
      revert hx
      decide
    have hquote : (x == q.toUInt8) = false := by
      refine beq_eq_false_iff_ne.mpr fun h => ?_
      rw [h, toUInt8_toNat hq] at hx
      omega
    rw [List.cons_append, stringEndFrom.eq_def]
    simp only [hescape, hquote, Bool.false_and, Bool.false_eq_true, if_false, ite_self]
    rw [hrest, List.length_cons]
    congr 1
    omega

theorem toUInt8_eq_iff {d : Char} (hc : c.toNat < 128) (hd : d.toNat < 128) :
    c.toUInt8 = d.toUInt8 ↔ c = d := by
  rw [← UInt8.toNat_inj, toUInt8_toNat hc, toUInt8_toNat hd, Char.toNat_inj]

theorem narrow_of_quote (h : isQuote q = true) : q.toNat < 128 := by
  rw [isQuote, Bool.or_eq_true, beq_iff_eq, beq_iff_eq] at h
  rcases h with rfl | rfl <;> decide

theorem two_quotes (hq : q.toNat < 128) (l : List Char) :
    ((utf8 l)[0]? == some q.toUInt8 && (utf8 l)[1]? == some q.toUInt8) = true ↔ [q, q] <+: l := by
  rw [Bool.and_eq_true, beq_iff_eq, beq_iff_eq, ← List.head?_eq_getElem?, head?_utf8 hq]
  cases l with
  | nil => simp
  | cons c l =>
    rw [List.head?_cons, Option.some.injEq, List.cons_prefix_cons]
    constructor
    · rintro ⟨rfl, hnext⟩
      rw [utf8_cons_narrow hq, List.getElem?_cons_succ, ← List.head?_eq_getElem?,
        head?_utf8 hq] at hnext
      obtain ⟨l, rfl⟩ := List.head?_eq_some_iff.mp hnext
      exact ⟨rfl, l, rfl⟩
    · rintro ⟨rfl, l, rfl⟩
      refine ⟨rfl, ?_⟩
      rw [utf8_cons_narrow hq, List.getElem?_cons_succ, ← List.head?_eq_getElem?, head?_utf8 hq]
      rfl

def closingQuotes (q : Char) (triple : Bool) : List Char := if triple then [q, q, q] else [q]

theorem stringEndFrom_char (hq : isQuote q = true) (hescape : c = '\\' → raw = true)
    (hclose : ¬closingQuotes q triple <+: c :: rest) :
    stringEndFrom q.toUInt8 triple raw i (utf8 (c :: rest)) =
      stringEndFrom q.toUInt8 triple raw (i + c.utf8Size) (utf8 rest) := by
  have hnarrow := narrow_of_quote hq
  by_cases hc : c.toNat < 128
  · have hesc : (c.toUInt8 == '\\'.toUInt8 && !raw) = false := by
      rw [Bool.and_eq_false_iff, beq_eq_false_iff_ne, Ne, toUInt8_eq_iff hc (by decide),
        Bool.not_eq_false']
      exact or_iff_not_imp_left.mpr fun h => hescape (not_not.mp h)
    have hcq : (c.toUInt8 == q.toUInt8) = (c == q) := by
      rw [Bool.eq_iff_iff, beq_iff_eq, beq_iff_eq, toUInt8_eq_iff hc hnarrow]
    rw [utf8_cons_narrow hc, utf8Size_of_lt hc, stringEndFrom.eq_def]
    simp only [hesc, Bool.false_eq_true, if_false, hcq, Bool.and_assoc]
    cases triple with
    | true =>
      have hnot : ¬((c == q) && ((utf8 rest)[0]? == some q.toUInt8 &&
          (utf8 rest)[1]? == some q.toUInt8)) = true := by
        rw [Bool.and_eq_true, two_quotes hnarrow, beq_iff_eq]
        rintro ⟨rfl, hprefix⟩
        exact hclose (List.cons_prefix_cons.mpr ⟨rfl, hprefix⟩)
      rw [if_pos rfl, if_neg hnot]
    | false =>
      have hne : c ≠ q := by
        rintro rfl
        exact hclose ⟨rest, rfl⟩
      rw [if_neg (by simp), if_neg (by simpa using hne)]
  · rw [utf8_cons, stringEndFrom_wide hnarrow fun x hx => wide_of_not_narrow hc hx,
      String.length_utf8EncodeChar]

theorem stringEndFrom_escape (hq : isQuote q = true) :
    stringEndFrom q.toUInt8 triple false i (utf8 ('\\' :: c :: rest)) =
      stringEndFrom q.toUInt8 triple false (i + 1 + c.utf8Size) (utf8 rest) := by
  obtain ⟨x, xs, hxs⟩ := exists_utf8EncodeChar c
  have hlen := String.length_utf8EncodeChar c
  have hwide : ∀ y ∈ xs, 128 ≤ y.toNat := by
    intro y hy
    by_cases hc : c.toNat < 128
    · rw [hxs, utf8Size_of_lt hc, List.length_cons, Nat.succ.injEq, List.length_eq_zero_iff] at hlen
      rw [hlen] at hy
      cases hy
    · exact wide_of_not_narrow hc (by rw [hxs]; exact List.mem_cons_of_mem _ hy)
  rw [utf8_cons_narrow (by decide), utf8_cons, hxs, List.cons_append, stringEndFrom.eq_def]
  simp only [beq_self_eq_true, Bool.not_false, Bool.and_self, if_true]
  rw [stringEndFrom_wide (narrow_of_quote hq) hwide]
  rw [hxs, List.length_cons] at hlen
  congr 1
  omega

theorem length_of_closed {quotes : List Char} (h : LiteralBody quotes raw true chars) :
    quotes.length ≤ chars.length := by
  generalize htrue : true = closed at h
  induction h with
  | closed => exact Nat.le_refl _
  | ended => cases htrue
  | lone => cases htrue
  | escape _ _ ih =>
    have := ih htrue
    simp only [List.length_cons]
    omega
  | char _ _ _ ih => exact Nat.le_succ_of_le (ih htrue)

theorem not_closing_append {quotes : List Char} (hbody : LiteralBody quotes raw closed chars)
    (hend : closed = false → rest = []) (hclose : ¬quotes <+: c :: chars) :
    ¬quotes <+: c :: (chars ++ rest) := by
  intro hprefix
  cases closed with
  | false =>
    rw [hend rfl, List.append_nil] at hprefix
    exact hclose hprefix
  | true =>
    refine hclose
      (List.prefix_of_prefix_length_le hprefix (List.prefix_append (c :: chars) rest) ?_)
    exact Nat.le_succ_of_le (length_of_closed hbody)

theorem stringEndFrom_closing (hq : isQuote q = true) :
    stringEndFrom q.toUInt8 triple raw i (utf8 (closingQuotes q triple ++ rest)) =
      i + utf8Length (closingQuotes q triple) := by
  have hnarrow := narrow_of_quote hq
  have hsize := utf8Size_of_lt hnarrow
  have hescape : (q.toUInt8 == '\\'.toUInt8 && !raw) = false := by
    rw [isQuote, Bool.or_eq_true, beq_iff_eq, beq_iff_eq] at hq
    rcases hq with rfl | rfl <;> rfl
  cases triple with
  | true =>
    simp only [closingQuotes, if_true, List.cons_append, List.nil_append, utf8_cons_narrow hnarrow,
      utf8Length_cons, utf8Length_nil, hsize]
    rw [stringEndFrom.eq_def]
    simp only [hescape, Bool.false_eq_true, if_false, if_true]
    simp
  | false =>
    simp only [closingQuotes, Bool.false_eq_true, if_false, List.cons_append, List.nil_append,
      utf8_cons_narrow hnarrow, utf8Length_cons, utf8Length_nil, hsize]
    rw [stringEndFrom.eq_def]
    simp only [hescape, Bool.false_eq_true, if_false]
    simp

theorem stringEndFrom_body (hq : isQuote q = true)
    (hbody : LiteralBody (closingQuotes q triple) raw closed chars)
    (hend : closed = false → rest = []) :
    stringEndFrom q.toUInt8 triple raw i (utf8 (chars ++ rest)) = i + utf8Length chars := by
  induction hbody generalizing i with
  | closed => exact stringEndFrom_closing hq
  | ended =>
    rw [hend rfl]
    rfl
  | lone hraw =>
    rw [hend rfl, hraw]
    rfl
  | escape hraw _ ih =>
    have hsize : '\\'.utf8Size = 1 := rfl
    rw [List.cons_append, List.cons_append, hraw, stringEndFrom_escape hq, ← hraw, ih hend]
    simp only [utf8Length_cons]
    omega
  | char hescape hclose hbody ih =>
    rw [List.cons_append, stringEndFrom_char hq hescape (not_closing_append hbody hend hclose),
      ih hend, utf8Length_cons, Nat.add_assoc]

theorem utf8_at (before l : List Char) (k : Nat) :
    (utf8 (before ++ c :: l))[utf8Length before + (c.utf8Size + k)]? = (utf8 l)[k]? := by
  have h := getElem?_utf8_append (before ++ [c]) l k
  rwa [List.append_assoc, List.singleton_append, utf8Length_append, utf8Length_cons,
    utf8Length_nil, Nat.add_zero, Nat.add_assoc] at h

theorem first_byte (hc : c.toNat < 128) (before l : List Char) :
    (utf8 (before ++ c :: l))[utf8Length before]? = some c.toUInt8 := by
  have h := getElem?_utf8_append before (c :: l) 0
  rwa [utf8_cons_narrow hc, Nat.add_zero] at h

theorem stringEnd_at (hq : isQuote q = true) (before l : List Char) :
    stringEnd (utf8 (before ++ q :: l)) (utf8Length before) raw =
      if [q, q] <+: l then
        stringEndFrom q.toUInt8 true raw (utf8Length before + 3) (utf8 (l.drop 2))
      else stringEndFrom q.toUInt8 false raw (utf8Length before + 1) (utf8 l) := by
  have hnarrow := narrow_of_quote hq
  have hsize := utf8Size_of_lt hnarrow
  have hnext : ∀ k, (utf8 (before ++ q :: l))[utf8Length before + (1 + k)]? = (utf8 l)[k]? := by
    intro k
    rw [← hsize]
    exact utf8_at before l k
  have htriple := two_quotes hnarrow l
  rw [← hnext 0, ← hnext 1] at htriple
  rw [stringEnd, List.getD_eq_getElem?_getD, first_byte hnarrow, Option.getD_some]
  by_cases hquotes : [q, q] <+: l
  · obtain ⟨rest, rfl⟩ := hquotes
    have hdrop := drop_utf8_append (before ++ [q, q, q]) rest
    simp only [utf8Length_append, utf8Length_cons, utf8Length_nil, hsize,
      List.append_assoc] at hdrop
    rw [if_pos (List.prefix_append _ _)]
    simp only [htriple.mpr (List.prefix_append _ _), if_true]
    exact congrArg _ hdrop
  · have hdrop := drop_utf8_append (before ++ [q]) l
    simp only [utf8Length_append, utf8Length_cons, utf8Length_nil, hsize,
      List.append_assoc] at hdrop
    rw [if_neg hquotes]
    simp only [Bool.eq_false_iff.mpr fun h => hquotes (htriple.mp h), Bool.false_eq_true, if_false]
    exact congrArg _ hdrop

theorem stringEnd_quoted (h : QuotedText raw chars rest) (before : List Char) :
    stringEnd (utf8 (before ++ (chars ++ rest))) (utf8Length before) raw =
      utf8Length before + utf8Length chars := by
  cases h with
  | @triple q closed chars _ hq hbody hend =>
    have hsize := utf8Size_of_lt (narrow_of_quote hq)
    have hclosing : LiteralBody (closingQuotes q true) raw closed chars := hbody
    simp only [List.cons_append]
    rw [stringEnd_at hq, if_pos ⟨_, rfl⟩]
    refine (stringEndFrom_body hq hclosing hend).trans ?_
    simp only [utf8Length_cons, hsize]
    omega
  | @single q closed chars _ hq hquotes hbody hend =>
    have hsize := utf8Size_of_lt (narrow_of_quote hq)
    have hclosing : LiteralBody (closingQuotes q false) raw closed chars := hbody
    rw [List.cons_append, stringEnd_at hq, if_neg hquotes]
    refine (stringEndFrom_body hq hclosing hend).trans ?_
    simp only [utf8Length_cons, hsize]
    omega

theorem ofUInt8_toNat (x : UInt8) : (Char.ofUInt8 x).toNat = x.toNat := rfl

theorem ofUInt8_narrow (hc : c.toNat < 128) : Char.ofUInt8 c.toUInt8 = c := by
  rw [← Char.toNat_inj, ofUInt8_toNat, toUInt8_toNat hc]

theorem wide_byte {p : Char → Bool} (hp : ∀ c, p c = true → c.toNat < 128) {x : UInt8}
    (hx : 128 ≤ x.toNat) : p (Char.ofUInt8 x) = false := by
  refine Bool.eq_false_iff.mpr fun h => ?_
  have hlt := hp _ h
  rw [ofUInt8_toNat] at hlt
  omega

theorem length_takeWhile_utf8 {p : Char → Bool} (hp : ∀ c, p c = true → c.toNat < 128)
    (l : List Char) :
    ((utf8 l).takeWhile fun x => p (Char.ofUInt8 x)).length = utf8Length (l.takeWhile p) := by
  induction l with
  | nil => rfl
  | cons c l ih =>
    by_cases hc : c.toNat < 128
    · rw [utf8_cons_narrow hc, List.takeWhile_cons, List.takeWhile_cons, ofUInt8_narrow hc]
      split
      · rw [List.length_cons, ih, utf8Length_cons, utf8Size_of_lt hc, Nat.add_comm]
      · rfl
    · obtain ⟨x, xs, hxs⟩ := exists_utf8EncodeChar c
      have hx := wide_byte hp (wide_of_not_narrow hc (by rw [hxs]; exact List.mem_cons_self))
      have hpc : p c = false := Bool.eq_false_iff.mpr fun h => hc (hp c h)
      rw [utf8_cons, hxs, List.cons_append, List.takeWhile_cons, List.takeWhile_cons, hx, hpc]
      rfl

theorem narrow_of_wordChar (h : isWordChar c = true) : c.toNat < 128 := by
  have hval : c.val ≤ 0x7f := by
    simp only [isWordChar, Char.isAlphanum, isAlpha_eq, isUpper_eq, isLower_eq, Char.isDigit,
      Bool.or_eq_true, Bool.and_eq_true, decide_eq_true_eq, beq_iff_eq] at h
    rcases h with ((⟨-, h⟩ | ⟨-, h⟩) | ⟨-, h⟩) | rfl
    · exact UInt32.le_trans h (by decide)
    · exact UInt32.le_trans h (by decide)
    · exact UInt32.le_trans h (by decide)
    · decide
  exact Nat.lt_succ_of_le (UInt32.le_iff_toNat_le.mp hval)

theorem wordEnd_word (hchars : ∀ d ∈ chars, isWordChar d = true) (hstops : StopsAt isWordChar rest)
    (before : List Char) :
    wordEnd (utf8 (before ++ (chars ++ rest))) (utf8Length before) =
      utf8Length before + utf8Length chars := by
  have htake : (chars ++ rest).takeWhile isWordChar = chars := by
    rw [List.takeWhile_append_of_pos hchars]
    cases rest with
    | nil => simp
    | cons c rest => simp [hstops c rfl]
  rw [wordEnd, drop_utf8_append, length_takeWhile_utf8 fun _ => narrow_of_wordChar, htake]

theorem findNewline_comment (hchars : ∀ d ∈ chars, d ≠ '\n') (hstops : StopsAt (· != '\n') rest) :
    ((findNewline (chars ++ rest)).map (i + ·)).getD (i + utf8Length (chars ++ rest)) =
      i + utf8Length chars := by
  have hnot : '\n' ∉ chars := fun h => hchars _ h rfl
  have htake : chars.takeWhile (· != '\n') = chars :=
    List.takeWhile_eq_self_iff.mpr fun d hd => bne_iff_ne.mpr (hchars d hd)
  cases rest with
  | nil =>
    rw [List.append_nil, findNewline, if_neg hnot]
    rfl
  | cons c rest =>
    obtain rfl : c = '\n' := by simpa using hstops c rfl
    rw [findNewline, if_pos (by simp), List.takeWhile_append_of_pos
      fun d hd => bne_iff_ne.mpr (hchars d hd)]
    simp

theorem beq_byte {x : UInt8} (hc : c.toNat < 128) : (x == c.toUInt8) = (Char.ofUInt8 x == c) := by
  rw [Bool.eq_iff_iff, beq_iff_eq, beq_iff_eq, ← UInt8.toNat_inj, ← Char.toNat_inj, ofUInt8_toNat,
    toUInt8_toNat hc]

theorem isQuoteByte_eq (x : UInt8) : isQuoteByte x = isQuote (Char.ofUInt8 x) := by
  rw [isQuoteByte, isQuote, beq_byte (by decide), beq_byte (by decide)]

structure FirstByte (pre : List Char) (c : Char) (l : List Char) (x : UInt8) : Prop where
  get : (utf8 (pre ++ c :: l))[utf8Length pre]? = some x
  narrow : ∀ p : Char → Bool, (∀ d, p d = true → d.toNat < 128) → p (Char.ofUInt8 x) = p c

theorem exists_firstByte (pre : List Char) (c : Char) (l : List Char) :
    ∃ x, FirstByte pre c l x := by
  obtain ⟨x, xs, hxs⟩ := exists_utf8EncodeChar c
  have hget := getElem?_utf8_append pre (c :: l) 0
  rw [Nat.add_zero, utf8_cons, hxs] at hget
  refine ⟨x, hget, fun p hp => ?_⟩
  by_cases hc : c.toNat < 128
  · rw [String.utf8EncodeChar_eq_singleton (utf8Size_of_lt hc)] at hxs
    obtain rfl : c.toUInt8 = x := (List.cons.inj hxs).1
    rw [ofUInt8_narrow hc]
  · rw [wide_byte hp (wide_of_not_narrow hc (by rw [hxs]; exact List.mem_cons_self))]
    exact (Bool.eq_false_iff.mpr fun h => hc (hp c h)).symm

namespace FirstByte

variable {pre l : List Char} {x : UInt8}

theorem beq (h : FirstByte pre c l x) {d : Char} (hd : d.toNat < 128) :
    (x == d.toUInt8) = (c == d) := by
  rw [beq_byte hd]
  refine h.narrow (· == d) fun e he => ?_
  rwa [beq_iff_eq.mp he]

theorem slashes (h : FirstByte pre c l x) :
    (x == '/'.toUInt8 && (utf8 (pre ++ c :: l))[utf8Length pre + 1]? == some '/'.toUInt8) =
      (c == '/' && l.head? == some '/') := by
  rw [h.beq (by decide)]
  by_cases hc : c = '/'
  · subst hc
    have hnext := utf8_at (c := '/') pre l 0
    have hsize : '/'.utf8Size = 1 := rfl
    rw [hsize] at hnext
    rw [Bool.eq_iff_iff]
    simp only [beq_self_eq_true, Bool.true_and, beq_iff_eq, hnext, ← List.head?_eq_getElem?]
    exact head?_utf8 (by decide)
  · rw [beq_eq_false_iff_ne.mpr hc, Bool.false_and, Bool.false_and]

theorem quote (h : FirstByte pre c l x) : isQuoteByte x = isQuote c := by
  rw [isQuoteByte_eq]
  exact h.narrow isQuote fun d => narrow_of_quote

theorem wordStart (h : FirstByte pre c l x) : isWordStart (Char.ofUInt8 x) = isWordStart c :=
  h.narrow isWordStart fun _ hd => narrow_of_wordChar (isWordChar_of_start hd)

theorem digit (h : FirstByte pre c l x) : (Char.ofUInt8 x).isDigit = c.isDigit := by
  refine h.narrow Char.isDigit fun d hd => narrow_of_wordChar ?_
  simp [isWordChar, Char.isAlphanum, hd]

end FirstByte

end Bytes

-- The scan follows the lexemes

section Selection

variable {before : List CelLexeme} {t : CelLexeme} {c : Char}

theorem selected_append_word (chars : List Char) : ¬Selected (before ++ [.word chars]) := by
  simp [Selected, isSignificant]

theorem selected_append_number (chars : List Char) : ¬Selected (before ++ [.number chars]) := by
  simp [Selected, isSignificant]

theorem selected_append_literal (chars : List Char) : ¬Selected (before ++ [.literal chars]) := by
  simp [Selected, isSignificant]

theorem selected_append_comment (chars : List Char) :
    Selected (before ++ [.comment chars]) ↔ Selected before := by
  simp [Selected, isSignificant]

theorem selected_append_sign (c : Char) :
    Selected (before ++ [.sign c]) ↔ if isWhitespace c then Selected before else c = '.' := by
  by_cases hc : isWhitespace c <;> simp [Selected, isSignificant, hc]

end Selection

section Scan

variable {pre chars rest out : List Char} {ts : List CelLexeme} {c : Char} {afterDot : Bool}
  {fuel : Nat}

def textOf (ts : List CelLexeme) : List Char := ts.flatMap CelLexeme.chars

theorem sliceBytes_at (pre chars rest : List Char) :
    sliceBytes (pre ++ (chars ++ rest)) (utf8Length pre) (utf8Length (pre ++ chars)) =
      some chars := by
  rw [utf8Length_append]
  exact sliceBytes_append pre chars rest

theorem pass_comment (hchars : ∀ d ∈ chars, d ≠ '\n') (hstops : StopsAt (· != '\n') rest) :
    aliasLoop (pre ++ ('/' :: '/' :: chars ++ rest)) (fuel + 1) (utf8Length pre) afterDot out =
      aliasLoop (pre ++ ('/' :: '/' :: chars ++ rest)) fuel
        (utf8Length (pre ++ '/' :: '/' :: chars)) afterDot (out ++ '/' :: '/' :: chars) := by
  obtain ⟨x, hx⟩ := exists_firstByte pre '/' ('/' :: chars ++ rest)
  have hend : ((findNewline ('/' :: '/' :: chars ++ rest)).map (utf8Length pre + ·)).getD
      (utf8 (pre ++ ('/' :: '/' :: chars ++ rest))).length =
        utf8Length (pre ++ '/' :: '/' :: chars) := by
    have hcomment : ∀ d ∈ '/' :: '/' :: chars, d ≠ '\n' := by simpa using hchars
    rw [length_utf8, utf8Length_append (a := pre), utf8Length_append (a := pre)]
    exact findNewline_comment hcomment hstops
  have hslice := sliceBytes_at pre ('/' :: '/' :: chars) rest
  rw [aliasLoop]
  simp only [List.cons_append] at hx hend hslice ⊢
  simp only [hx.get, hx.slashes, List.head?_cons, beq_self_eq_true, Bool.and_self, if_true,
    dropBytes_append, Option.bind_eq_bind, Option.bind_some, hend, hslice]

theorem not_slash_of_wordChar (h : isWordChar c = true) : (c == '/') = false := by
  refine beq_eq_false_iff_ne.mpr ?_
  rintro rfl
  cases h

theorem not_quote_of_wordChar (h : isWordChar c = true) : isQuote c = false := by
  refine Bool.eq_false_iff.mpr fun hq => ?_
  rw [isQuote, Bool.or_eq_true, beq_iff_eq, beq_iff_eq] at hq
  rcases hq with rfl | rfl <;> cases h

theorem wordChar_of_digit (h : c.isDigit = true) : isWordChar c = true := by
  simp [isWordChar, Char.isAlphanum, h]

theorem not_wordStart_of_digit (h : c.isDigit = true) : isWordStart c = false := by
  simp only [Char.isDigit, Bool.and_eq_true, decide_eq_true_eq] at h
  have hnine : c.val.toNat ≤ 57 := UInt32.le_iff_toNat_le.mp h.2
  refine Bool.eq_false_iff.mpr fun hstart => ?_
  simp only [isWordStart, isAlpha_eq, isUpper_eq, isLower_eq, Bool.or_eq_true,
    Bool.and_eq_true, decide_eq_true_eq, beq_iff_eq] at hstart
  rcases hstart with (hupper | hlower) | rfl
  · have : 65 ≤ c.val.toNat := UInt32.le_iff_toNat_le.mp hupper.1
    omega
  · have : 97 ≤ c.val.toNat := UInt32.le_iff_toNat_le.mp hlower.1
    omega
  · revert hnine
    decide

theorem quote_next (pre rest : List Char) :
    (utf8 (pre ++ rest))[utf8Length pre]?.any isQuoteByte = rest.head?.any isQuote := by
  cases rest with
  | nil =>
    have hnone : (utf8 (pre ++ []))[utf8Length pre]? = none := by simp [length_utf8]
    rw [hnone]
    rfl
  | cons q rest =>
    obtain ⟨x, hx⟩ := exists_firstByte pre q rest
    rw [hx.get]
    exact hx.quote

theorem wordEnd_at (pre : List Char) (hword : ∀ d ∈ chars, isWordChar d = true)
    (hstops : StopsAt isWordChar rest) :
    wordEnd (utf8 (pre ++ (chars ++ rest))) (utf8Length pre) = utf8Length (pre ++ chars) := by
  rw [wordEnd_word hword hstops, utf8Length_append]

theorem pass_number (hdigit : c.isDigit = true) (hchars : ∀ d ∈ chars, isWordChar d = true)
    (hstops : StopsAt isWordChar rest) :
    aliasLoop (pre ++ (c :: chars ++ rest)) (fuel + 1) (utf8Length pre) afterDot out =
      aliasLoop (pre ++ (c :: chars ++ rest)) fuel (utf8Length (pre ++ c :: chars)) false
        (out ++ c :: chars) := by
  have hc := wordChar_of_digit hdigit
  obtain ⟨x, hx⟩ := exists_firstByte pre c (chars ++ rest)
  have hend := wordEnd_at pre (List.forall_mem_cons.mpr ⟨hc, hchars⟩) hstops
  have hslice := sliceBytes_at pre (c :: chars) rest
  rw [aliasLoop]
  simp only [List.cons_append] at hend hslice ⊢
  simp only [hx.get, hx.slashes, not_slash_of_wordChar hc, Bool.false_and, Bool.false_eq_true,
    if_false, hx.quote, not_quote_of_wordChar hc, hx.wordStart, not_wordStart_of_digit hdigit,
    hx.digit, hdigit, if_true, hend, hslice, Option.bind_eq_bind, Option.bind_some]

theorem pass_sign (hword : isWordChar c = false) (hquote : isQuote c = false)
    (hslash : c = '/' → StopsAt (· == '/') rest) :
    aliasLoop (pre ++ c :: rest) (fuel + 1) (utf8Length pre) afterDot out =
      aliasLoop (pre ++ c :: rest) fuel (utf8Length (pre ++ [c]))
        (if isWhitespace c then afterDot else c == '.') (out ++ [c]) := by
  obtain ⟨x, hx⟩ := exists_firstByte pre c rest
  have hslashes : (c == '/' && rest.head? == some '/') = false := by
    refine Bool.eq_false_iff.mpr fun h => ?_
    rw [Bool.and_eq_true, beq_iff_eq, beq_iff_eq] at h
    have hstop := hslash h.1 '/' h.2
    cases hstop
  have hstart : isWordStart c = false := Bool.eq_false_iff.mpr fun h => by
    rw [isWordChar_of_start h] at hword
    cases hword
  have hdigit : c.isDigit = false := Bool.eq_false_iff.mpr fun h => by
    rw [wordChar_of_digit h] at hword
    cases hword
  rw [aliasLoop]
  simp only [hx.get, hx.slashes, hslashes, Bool.false_eq_true, if_false, hx.quote, hquote,
    hx.wordStart, hstart, hx.digit, hdigit, dropBytes_append, Option.bind_eq_bind,
    Option.bind_some, List.head?_cons, Option.getD_some, utf8Length_append, utf8Length_cons,
    utf8Length_nil, Nat.add_zero]
  rfl

theorem pass_word (hstart : isWordStart c = true) (hchars : ∀ d ∈ chars, isWordChar d = true)
    (hstops : StopsAt isWordChar rest)
    (hmark : isLiteralMark (c :: chars) = true → StopsAt isQuote rest) :
    aliasLoop (pre ++ (c :: chars ++ rest)) (fuel + 1) (utf8Length pre) afterDot out =
      aliasLoop (pre ++ (c :: chars ++ rest)) fuel (utf8Length (pre ++ c :: chars)) false
        (out ++ if c :: chars = namespaceWord ∧ afterDot = false then namespaceAlias
          else c :: chars) := by
  have hc := isWordChar_of_start hstart
  obtain ⟨x, hx⟩ := exists_firstByte pre c (chars ++ rest)
  have hend := wordEnd_at pre (List.forall_mem_cons.mpr ⟨hc, hchars⟩) hstops
  have hslice := sliceBytes_at pre (c :: chars) rest
  have hplain : (isLiteralMark (c :: chars) &&
      (utf8 (pre ++ (c :: chars ++ rest)))[utf8Length (pre ++ c :: chars)]?.any isQuoteByte) =
        false := by
    rw [← List.append_assoc, quote_next]
    cases hliteral : isLiteralMark (c :: chars) with
    | false => rfl
    | true =>
      cases rest with
      | nil => rfl
      | cons q rest => exact hmark hliteral q rfl
  rw [aliasLoop]
  simp only [List.cons_append] at hend hslice hplain ⊢
  simp only [hx.get, hx.slashes, not_slash_of_wordChar hc, Bool.false_and, Bool.false_eq_true,
    if_false, hx.quote, not_quote_of_wordChar hc, hx.wordStart, hstart, if_true, hend, hslice,
    hplain, Option.bind_eq_bind, Option.bind_some]
  split <;> rfl

theorem quotedText_head {raw : Bool} (h : QuotedText raw chars rest) :
    ∃ q tail, chars = q :: tail ∧ isQuote q = true := by
  cases h with
  | triple hq => exact ⟨_, _, rfl, hq⟩
  | single hq => exact ⟨_, _, rfl, hq⟩

theorem pass_unmarked (htext : QuotedText false chars rest) :
    aliasLoop (pre ++ (chars ++ rest)) (fuel + 1) (utf8Length pre) afterDot out =
      aliasLoop (pre ++ (chars ++ rest)) fuel (utf8Length (pre ++ chars)) false (out ++ chars) := by
  obtain ⟨q, tail, rfl, hq⟩ := quotedText_head htext
  obtain ⟨x, hx⟩ := exists_firstByte pre q (tail ++ rest)
  have hend := stringEnd_quoted htext pre
  rw [← utf8Length_append] at hend
  have hslice := sliceBytes_at pre (q :: tail) rest
  have hslash : (q == '/') = false := beq_eq_false_iff_ne.mpr (by rintro rfl; cases hq)
  rw [aliasLoop]
  simp only [List.cons_append] at hend hslice ⊢
  simp only [hx.get, hx.slashes, hslash, Bool.false_and, Bool.false_eq_true, if_false, hx.quote,
    hq, if_true, hend, hslice, Option.bind_eq_bind, Option.bind_some]

theorem isWordStart_of_mark {mark : List Char} (hmark : isLiteralMark mark = true) :
    ∀ m ∈ mark, isWordStart m = true := by
  have hmarks : ∀ m ∈ ['r', 'R', 'b', 'B'], isWordStart m = true :=
    List.all_eq_true.mp (by decide)
  rw [isLiteralMark, Bool.and_eq_true] at hmark
  exact fun m hm => hmarks m (List.contains_iff_mem.mp (List.all_eq_true.mp hmark.2 m hm))

theorem pass_marked {m : Char} {mark : List Char} (hmark : isLiteralMark (m :: mark) = true)
    (htext : QuotedText (isRawMark (m :: mark)) chars rest) :
    aliasLoop (pre ++ (m :: mark ++ chars ++ rest)) (fuel + 1) (utf8Length pre) afterDot out =
      aliasLoop (pre ++ (m :: mark ++ chars ++ rest)) fuel
        (utf8Length (pre ++ (m :: mark ++ chars))) false (out ++ (m :: mark ++ chars)) := by
  have hstarts := isWordStart_of_mark hmark
  have hstart := hstarts m List.mem_cons_self
  have hm := isWordChar_of_start hstart
  obtain ⟨q, tail, hchars, hq⟩ := quotedText_head htext
  have hstops : StopsAt isWordChar (chars ++ rest) := by
    rw [hchars]
    intro c hc
    obtain rfl : q = c := by simpa using hc
    refine Bool.eq_false_iff.mpr fun hword => ?_
    rw [not_quote_of_wordChar hword] at hq
    cases hq
  obtain ⟨x, hx⟩ := exists_firstByte pre m (mark ++ (chars ++ rest))
  have hword := wordEnd_at pre (fun d hd => isWordChar_of_start (hstarts d hd)) hstops
  have hslice := sliceBytes_at pre (m :: mark) (chars ++ rest)
  have hquote : (utf8 (pre ++ m :: mark ++ (chars ++ rest)))[utf8Length (pre ++ m :: mark)]?.any
      isQuoteByte = true := by
    rw [quote_next, hchars]
    exact hq
  have hend := stringEnd_quoted htext (pre ++ m :: mark)
  rw [← utf8Length_append] at hend
  have hliteral := sliceBytes_at pre (m :: mark ++ chars) rest
  rw [aliasLoop]
  simp only [List.cons_append, List.append_assoc] at hword hslice hquote hend hliteral ⊢
  simp only [hx.get, hx.slashes, not_slash_of_wordChar hm, Bool.false_and, Bool.false_eq_true,
    if_false, hx.quote, not_quote_of_wordChar hm, hx.wordStart, hstart, if_true, hword, hslice,
    hmark, hquote, Bool.and_self, hend, hliteral, Option.bind_eq_bind, Option.bind_some]

def aliasLexeme (before : List CelLexeme) (t : CelLexeme) : CelLexeme :=
  if t = .word namespaceWord ∧ ¬Selected before then .word namespaceAlias else t

theorem textOf_aliasLexemes (before : List CelLexeme) (t : CelLexeme) (ts : List CelLexeme) :
    textOf (aliasLexemes before (t :: ts)) =
      (aliasLexeme before t).chars ++ textOf (aliasLexemes (before ++ [t]) ts) := rfl

theorem aliasLexeme_of_ne {before : List CelLexeme} {t : CelLexeme} (h : ∀ w, t ≠ .word w) :
    aliasLexeme before t = t :=
  if_neg fun ht => h _ ht.1

theorem aliasLoop_pass {before : List CelLexeme} {t : CelLexeme}
    (hpass : aliasLoop (pre ++ (t.chars ++ rest)) (fuel + 1) (utf8Length pre)
        (decide (Selected before)) out =
      aliasLoop (pre ++ (t.chars ++ rest)) fuel (utf8Length (pre ++ t.chars))
        (decide (Selected (before ++ [t]))) (out ++ (aliasLexeme before t).chars))
    (hrest : aliasLoop (pre ++ t.chars ++ rest) fuel (utf8Length (pre ++ t.chars))
        (decide (Selected (before ++ [t]))) (out ++ (aliasLexeme before t).chars) =
      some (out ++ (aliasLexeme before t).chars ++ textOf (aliasLexemes (before ++ [t]) ts))) :
    aliasLoop (pre ++ (t.chars ++ rest)) (fuel + 1) (utf8Length pre) (decide (Selected before))
      out = some (out ++ textOf (aliasLexemes before (t :: ts))) := by
  rw [hpass, ← List.append_assoc, hrest, textOf_aliasLexemes, List.append_assoc]

theorem length_lt_of_cons {c : Char} {chars rest : List Char}
    (h : (c :: chars ++ rest).length < fuel + 1) : rest.length < fuel := by
  simp only [List.cons_append, List.length_cons, List.length_append] at h
  omega

theorem aliasLoop_of_scans (h : CelScans rest ts) (before : List CelLexeme)
    (hfuel : rest.length < fuel) :
    aliasLoop (pre ++ rest) fuel (utf8Length pre) (decide (Selected before)) out =
      some (out ++ textOf (aliasLexemes before ts)) := by
  induction h generalizing pre before out fuel with
  | nil =>
    obtain ⟨fuel, rfl⟩ := Nat.exists_eq_succ_of_ne_zero (Nat.ne_of_gt hfuel)
    have hend : (utf8 (pre ++ []))[utf8Length pre]? = none := by simp [length_utf8]
    simp only [aliasLoop, hend]
    simp [aliasLexemes, textOf]
  | @comment chars rest ts hchars hstops _ ih =>
    obtain ⟨fuel, rfl⟩ := Nat.exists_eq_succ_of_ne_zero (Nat.ne_of_gt (Nat.zero_lt_of_lt hfuel))
    refine aliasLoop_pass (t := .comment ('/' :: '/' :: chars)) ?_ (ih _ (length_lt_of_cons hfuel))
    rw [aliasLexeme_of_ne (by simp), decide_eq_decide.mpr (selected_append_comment _)]
    exact pass_comment hchars hstops
  | @literal mark chars rest ts hmark htext _ ih =>
    obtain ⟨fuel, rfl⟩ := Nat.exists_eq_succ_of_ne_zero (Nat.ne_of_gt (Nat.zero_lt_of_lt hfuel))
    have hlen : rest.length < fuel := by
      obtain ⟨q, tail, rfl, -⟩ := quotedText_head htext
      simp only [List.length_cons, List.length_append] at hfuel
      omega
    refine aliasLoop_pass (t := .literal (mark ++ chars)) ?_ (ih _ hlen)
    rw [aliasLexeme_of_ne (by simp), decide_eq_false (selected_append_literal _)]
    cases mark with
    | nil => exact pass_unmarked htext
    | cons m mark => exact pass_marked hmark htext
  | @word c chars rest ts hstart hchars hstops hmark _ ih =>
    obtain ⟨fuel, rfl⟩ := Nat.exists_eq_succ_of_ne_zero (Nat.ne_of_gt (Nat.zero_lt_of_lt hfuel))
    refine aliasLoop_pass (t := .word (c :: chars)) ?_ (ih _ (length_lt_of_cons hfuel))
    have hwritten : (aliasLexeme before (.word (c :: chars))).chars =
        if c :: chars = namespaceWord ∧ decide (Selected before) = false then namespaceAlias
        else c :: chars := by
      simp only [aliasLexeme, CelLexeme.word.injEq, decide_eq_false_iff_not]
      split <;> rfl
    rw [decide_eq_false (selected_append_word _), hwritten]
    exact pass_word hstart hchars hstops hmark
  | @number c chars rest ts hdigit hchars hstops _ ih =>
    obtain ⟨fuel, rfl⟩ := Nat.exists_eq_succ_of_ne_zero (Nat.ne_of_gt (Nat.zero_lt_of_lt hfuel))
    refine aliasLoop_pass (t := .number (c :: chars)) ?_ (ih _ (length_lt_of_cons hfuel))
    rw [aliasLexeme_of_ne (by simp), decide_eq_false (selected_append_number _)]
    exact pass_number hdigit hchars hstops
  | @sign c rest ts hword hquote hslash _ ih =>
    obtain ⟨fuel, rfl⟩ := Nat.exists_eq_succ_of_ne_zero (Nat.ne_of_gt (Nat.zero_lt_of_lt hfuel))
    refine aliasLoop_pass (t := .sign c) ?_ (ih _ (Nat.lt_of_succ_lt_succ hfuel))
    have hdot : decide (Selected (before ++ [.sign c])) =
        if isWhitespace c then decide (Selected before) else c == '.' := by
      have hsel : Selected (before ++ [.sign c]) ↔ _ := selected_append_sign c
      by_cases hc : isWhitespace c = true
      · rw [if_pos hc] at hsel ⊢
        exact decide_eq_decide.mpr hsel
      · rw [if_neg hc] at hsel ⊢
        rw [Bool.eq_iff_iff, decide_eq_true_iff, beq_iff_eq, hsel]
    rw [aliasLexeme_of_ne (by simp), hdot]
    exact pass_sign hword hquote hslash

end Scan

end Kopiur
