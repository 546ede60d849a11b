import Kopiur.Api.NamespaceAlias
import Mathlib.Data.List.Forall2

/-!
# Errors in the author's words

The rewritten expression has the lines of the author's, byte for byte as long.
An error of the compiler quotes a line of it by number, and the quote is put
back.
-/

namespace Kopiur

open Lib

section Rewriting

variable {ts : List CelLexeme} {before before' : List CelLexeme} {t : CelLexeme}

theorem length_le_utf8Length (l : List Char) : l.length ≤ utf8Length l := by
  induction l with
  | nil => exact Nat.le_refl _
  | cons c l ih =>
    have hpos := c.utf8Size_pos
    rw [List.length_cons, utf8Length_cons]
    omega

theorem aliasNamespaceIdent_of_scans {expr : String} (h : CelScans expr.toList ts) :
    aliasNamespaceIdent expr = some (String.ofList (textOf (aliasLexemes [] ts))) := by
  have hfuel : expr.toList.length < utf8Length expr.toList + 1 :=
    Nat.lt_succ_of_le (length_le_utf8Length _)
  have hloop : aliasLoop ([] ++ expr.toList) (utf8Length expr.toList + 1) (utf8Length [])
      (decide (Selected [])) [] = _ := aliasLoop_of_scans h [] hfuel
  rw [aliasNamespaceIdent]
  exact congrArg (Option.map String.ofList) hloop

theorem plainWord_namespaceAlias : PlainWord namespaceAlias :=
  ⟨⟨'_', by decide, rfl⟩, List.all_eq_true.mp (by decide), rfl⟩

theorem reworded_aliasLexemes (before ts : List CelLexeme) :
    List.Forall₂ Reworded ts (aliasLexemes before ts) := by
  induction ts generalizing before with
  | nil => exact .nil
  | cons t ts ih =>
    refine .cons ?_ (ih _)
    split
    · next h => exact .inr ⟨_, _, h.1, rfl, plainWord_namespaceAlias⟩
    · exact .inl rfl

theorem selected_append_congr (h : Selected before' ↔ Selected before) (t : CelLexeme) :
    Selected (before' ++ [t]) ↔ Selected (before ++ [t]) := by
  cases t with
  | comment chars => rw [selected_append_comment, selected_append_comment, h]
  | literal chars => simp [selected_append_literal]
  | word chars => simp [selected_append_word]
  | number chars => simp [selected_append_number]
  | sign c => rw [selected_append_sign, selected_append_sign, h]

theorem aliasLexemes_aliasLexemes (h : Selected before' ↔ Selected before)
    (ts : List CelLexeme) :
    aliasLexemes before' (aliasLexemes before ts) = aliasLexemes before ts := by
  induction ts generalizing before before' with
  | nil => rfl
  | cons t ts ih =>
    rw [aliasLexemes]
    split
    · next ht =>
      have hsel : Selected (before' ++ [.word namespaceAlias]) ↔ Selected (before ++ [t]) := by
        rw [ht.1]
        simp [selected_append_word]
      rw [aliasLexemes, if_neg (fun h => absurd h.1 (by decide)), ih hsel]
    · next ht => rw [aliasLexemes, if_neg (by rwa [h]), ih (selected_append_congr h t)]

theorem scans_aliasLexemes {l : List Char} (h : CelScans l ts) :
    CelScans (textOf (aliasLexemes [] ts)) (aliasLexemes [] ts) :=
  (h.reworded (reworded_aliasLexemes [] ts)).1

end Rewriting

-- Lines

def stripReturn : List Char → List Char
  | [] => []
  | [c] => if c = '\r' then [] else [c]
  | c :: rest => c :: stripReturn rest

def endedLines : List (List Char) → List (List Char)
  | [] => []
  | [last] => if last.isEmpty then [] else [last]
  | line :: rest => stripReturn line :: endedLines rest

/-- `str::lines` -/
def sourceLines (source : String) : List (List Char) := endedLines (source.toList.splitOn '\n')

def SameCell (c d : Char) : Prop := c = d ∨ isWordChar c = true ∧ isWordChar d = true

section Lines

variable {c d e : Char} {l l' : List Char}

theorem SameCell.eq_iff (h : SameCell c d) (he : isWordChar e = false) : c = e ↔ d = e := by
  rcases h with rfl | ⟨hc, hd⟩
  · exact Iff.rfl
  · constructor
    · rintro rfl
      rw [hc] at he
      cases he
    · rintro rfl
      rw [hd] at he
      cases he

theorem SameCell.size (h : SameCell c d) : c.utf8Size = d.utf8Size := by
  rcases h with rfl | ⟨hc, hd⟩
  · rfl
  · rw [utf8Size_of_lt (narrow_of_wordChar hc), utf8Size_of_lt (narrow_of_wordChar hd)]

theorem utf8Length_of_cells (h : List.Forall₂ SameCell l l') : utf8Length l = utf8Length l' := by
  induction h with
  | nil => rfl
  | cons hcell _ ih => rw [utf8Length_cons, utf8Length_cons, hcell.size, ih]

theorem stripReturn_cells (h : List.Forall₂ SameCell l l') :
    List.Forall₂ SameCell (stripReturn l) (stripReturn l') := by
  induction h with
  | nil => exact .nil
  | cons hcell hrest ih =>
    cases hrest with
    | nil =>
      rw [stripReturn, stripReturn]
      have hreturn := hcell.eq_iff (e := '\r') rfl
      split
      · rw [if_pos (hreturn.mp ‹_›)]
        exact .nil
      · rw [if_neg fun hd => ‹¬_› (hreturn.mpr hd)]
        exact .cons hcell .nil
    | cons hcell' hrest => exact .cons hcell ih

theorem modifyHead_cells (hcell : SameCell c d) {parts parts' : List (List Char)}
    (h : List.Forall₂ (List.Forall₂ SameCell) parts parts') :
    List.Forall₂ (List.Forall₂ SameCell) (parts.modifyHead (c :: ·))
      (parts'.modifyHead (d :: ·)) := by
  cases h with
  | nil => exact .nil
  | cons hpart hparts => exact .cons (.cons hcell hpart) hparts

theorem splitOn_cells (h : List.Forall₂ SameCell l l') :
    List.Forall₂ (List.Forall₂ SameCell) (l.splitOn '\n') (l'.splitOn '\n') := by
  induction h with
  | nil => exact .cons .nil .nil
  | cons hcell hrest ih =>
    rw [List.splitOn_cons_eq_if_modifyHead, List.splitOn_cons_eq_if_modifyHead]
    simp only [beq_iff_eq, hcell.eq_iff (e := '\n') rfl]
    split
    · exact .cons .nil ih
    · exact modifyHead_cells hcell ih

theorem endedLines_cells {parts parts' : List (List Char)}
    (h : List.Forall₂ (List.Forall₂ SameCell) parts parts') :
    List.Forall₂ (List.Forall₂ SameCell) (endedLines parts) (endedLines parts') := by
  induction h with
  | nil => exact .nil
  | cons hpart hrest ih =>
    cases hrest with
    | nil =>
      rw [endedLines, endedLines]
      cases hpart with
      | nil => exact .nil
      | cons hcell hcells => exact .cons (.cons hcell hcells) .nil
    | cons hpart' hrest => exact .cons (stripReturn_cells hpart) ih

theorem sourceLines_cells {source source' : String}
    (h : List.Forall₂ SameCell source.toList source'.toList) :
    List.Forall₂ (List.Forall₂ SameCell) (sourceLines source) (sourceLines source') :=
  endedLines_cells (splitOn_cells h)

theorem map_utf8Length_of_cells {lines lines' : List (List Char)}
    (h : List.Forall₂ (List.Forall₂ SameCell) lines lines') :
    lines.map utf8Length = lines'.map utf8Length := by
  induction h with
  | nil => rfl
  | cons hline _ ih => rw [List.map_cons, List.map_cons, utf8Length_of_cells hline, ih]

theorem cells_namespaceAlias : List.Forall₂ SameCell namespaceWord namespaceAlias := by
  have hword : namespaceWord = ['n', 'a', 'm', 'e', 's', 'p', 'a', 'c', 'e'] := rfl
  have halias : namespaceAlias = ['_', '_', 'n', 's', 'v', 'a', 'r', '_', '_'] := rfl
  have hcell : ∀ c d, isWordChar c = true → isWordChar d = true → SameCell c d :=
    fun _ _ hc hd => .inr ⟨hc, hd⟩
  rw [hword, halias]
  repeat' first
    | exact .nil
    | refine .cons (hcell _ _ rfl rfl) ?_

theorem cells_aliasLexemes (before ts : List CelLexeme) :
    List.Forall₂ SameCell (textOf ts) (textOf (aliasLexemes before ts)) := by
  induction ts generalizing before with
  | nil => exact .nil
  | cons t ts ih =>
    rw [textOf_aliasLexemes, aliasLexeme]
    refine List.rel_append ?_ (ih _)
    split
    · next h =>
      rw [h.1]
      exact cells_namespaceAlias
    · exact List.forall₂_same.mpr fun c _ => .inl rfl

end Lines

-- Errors

/-- `usize` from decimal digits behind an optional plus. -/
def parseUsize (text : List Char) : Option Nat :=
  let digits := match text with
    | '+' :: digits => digits
    | digits => digits
  (parseDigits digits).filter (· < 2 ^ 64)

def errorHeader : List Char := "ERROR: <input>:".toList

def quoteMark : List Char := "| ".toList

def errorLine (m : List Char) : Option Nat := do
  let rest ← errorHeader.isPrefixOf? m
  let line ← (rest.splitOn ':').head?
  parseUsize line

/-- A line behind a header, with its quote put back if it is one. -/
def restoreQuote (original aliased : List (List Char)) (line : Option Nat) (m : List Char) :
    List Char :=
  match quoteMark.isPrefixOf? m, line with
  | some quoted, some n =>
    -- The subtraction wraps around.
    let idx := (n + 2 ^ 64 - 1) % 2 ^ 64
    if aliased[idx]? = some quoted then (original[idx]?.map (quoteMark ++ ·)).getD m else m
  | _, _ => m

def restoreLines (original aliased : List (List Char)) :
    Option Nat → List (List Char) → List (List Char)
  | _, [] => []
  | line, m :: rest =>
    match errorLine m with
    | some n => m :: restoreLines original aliased (some n) rest
    | none => restoreQuote original aliased line m :: restoreLines original aliased none rest

def restoreSource (message original aliased : String) : String :=
  String.ofList (['\n'].intercalate
    (restoreLines (sourceLines original) (sourceLines aliased) none (message.toList.splitOn '\n')))

/-- An error of the compiler: its header, the number of the line it quotes, and
what it says below. -/
structure CelReport where
  header : List Char
  line : Nat
  notes : List (List Char)
deriving DecidableEq

def CelReport.lines (source : List (List Char)) (r : CelReport) : List (List Char) :=
  r.header :: (quoteMark ++ source.getD (r.line - 1) []) :: r.notes

/-- The header names a line of the source, no line below is a header, and none is
broken. -/
structure CelReport.Quotes (r : CelReport) (source : List (List Char)) : Prop where
  header : errorLine r.header = some r.line
  pos : 0 < r.line
  within : r.line ≤ source.length
  notes : ∀ m ∈ r.notes, errorLine m = none
  unbroken : ∀ m ∈ r.header :: r.notes, '\n' ∉ m

def errorMessage (source : List (List Char)) (reports : List CelReport) : String :=
  String.ofList (['\n'].intercalate (reports.flatMap (·.lines source)))

section Errors

variable {original aliased : List (List Char)} {m : List Char} {ms : List (List Char)}

theorem restoreLines_notes (h : ∀ m ∈ ms, errorLine m = none) (rest : List (List Char)) :
    restoreLines original aliased none (ms ++ rest) =
      ms ++ restoreLines original aliased none rest := by
  induction ms with
  | nil => rfl
  | cons m ms ih =>
    have hm := h m List.mem_cons_self
    have hquote : restoreQuote original aliased none m = m := by
      rw [restoreQuote]
      rintro quoted n - ⟨⟩
    rw [List.cons_append, restoreLines, hm]
    simp only [hquote]
    rw [ih fun m hm => h m (List.mem_cons_of_mem _ hm), List.cons_append]

theorem restoreQuote_of_quotes {r : CelReport} (hr : r.Quotes aliased)
    (hlen : original.length = aliased.length) :
    restoreQuote original aliased (some r.line) (quoteMark ++ aliased.getD (r.line - 1) []) =
      quoteMark ++ original.getD (r.line - 1) [] := by
  have hpos := hr.pos
  have hwithin := hr.within
  have hfits : r.line < 2 ^ 64 := by
    have hheader := hr.header
    simp only [errorLine, Option.bind_eq_bind, Option.bind_eq_some_iff] at hheader
    obtain ⟨rest, -, field, -, hparse⟩ := hheader
    unfold parseUsize at hparse
    exact of_decide_eq_true (Option.filter_eq_some_iff.mp hparse).2
  have hidx : (r.line + 2 ^ 64 - 1) % 2 ^ 64 = r.line - 1 := by omega
  have hlt : r.line - 1 < aliased.length := by omega
  have hlt' : r.line - 1 < original.length := by omega
  have haliased : aliased.getD (r.line - 1) [] = aliased[r.line - 1] := by
    rw [List.getD_eq_getElem?_getD, List.getElem?_eq_getElem hlt, Option.getD_some]
  have horiginal : original.getD (r.line - 1) [] = original[r.line - 1] := by
    rw [List.getD_eq_getElem?_getD, List.getElem?_eq_getElem hlt', Option.getD_some]
  have hquoted : quoteMark.isPrefixOf? (quoteMark ++ aliased[r.line - 1]) =
      some aliased[r.line - 1] := rfl
  rw [haliased, horiginal]
  unfold restoreQuote
  simp only [hquoted, hidx, List.getElem?_eq_getElem hlt, List.getElem?_eq_getElem hlt', if_true,
    Option.map_some, Option.getD_some]

theorem errorLine_quote (quoted : List Char) : errorLine (quoteMark ++ quoted) = none := rfl

theorem restoreLines_report {r : CelReport} (hr : r.Quotes aliased)
    (hlen : original.length = aliased.length) (line : Option Nat) (rest : List (List Char)) :
    restoreLines original aliased line (r.lines aliased ++ rest) =
      r.lines original ++ restoreLines original aliased none rest := by
  rw [CelReport.lines, CelReport.lines, List.cons_append, List.cons_append, restoreLines, hr.header]
  simp only
  rw [restoreLines, errorLine_quote]
  simp only
  rw [restoreQuote_of_quotes hr hlen, restoreLines_notes hr.notes]
  rfl

theorem restoreLines_reports {reports : List CelReport} (hr : ∀ r ∈ reports, r.Quotes aliased)
    (hlen : original.length = aliased.length) :
    restoreLines original aliased none (reports.flatMap (·.lines aliased)) =
      reports.flatMap (·.lines original) := by
  induction reports with
  | nil => rfl
  | cons r reports ih =>
    rw [List.flatMap_cons, List.flatMap_cons, restoreLines_report (hr r List.mem_cons_self) hlen,
      ih fun r hr' => hr r (List.mem_cons_of_mem _ hr')]

theorem not_mem_splitOn {part : List Char} (text : List Char) (h : part ∈ text.splitOn '\n') :
    '\n' ∉ part := by
  induction text generalizing part with
  | nil =>
    obtain rfl : part = [] := by simpa using h
    exact List.not_mem_nil
  | cons c text ih =>
    rw [List.splitOn_cons_eq_if_modifyHead] at h
    split at h
    · rcases List.mem_cons.mp h with rfl | h
      · exact List.not_mem_nil
      · exact ih h
    · next hc =>
      cases hparts : text.splitOn '\n' with
      | nil => exact absurd hparts (List.splitOn_ne_nil _ _)
      | cons first parts =>
        rw [hparts, List.modifyHead_cons] at h
        rw [hparts] at ih
        rcases List.mem_cons.mp h with rfl | h
        · rw [List.mem_cons, not_or]
          exact ⟨fun heq => hc (beq_iff_eq.mpr heq.symm), ih List.mem_cons_self⟩
        · exact ih (List.mem_cons_of_mem _ h)

theorem mem_of_mem_stripReturn {c : Char} {l : List Char} (h : c ∈ stripReturn l) : c ∈ l := by
  induction l with
  | nil => exact h
  | cons d l ih =>
    cases l with
    | nil =>
      rw [stripReturn] at h
      split at h
      · cases h
      · exact h
    | cons e l =>
      rcases List.mem_cons.mp h with rfl | h
      · exact List.mem_cons_self
      · exact List.mem_cons_of_mem _ (ih h)

theorem not_mem_endedLines {parts : List (List Char)} (h : ∀ part ∈ parts, '\n' ∉ part) :
    ∀ line ∈ endedLines parts, '\n' ∉ line := by
  induction parts with
  | nil => exact fun line hline => by cases hline
  | cons part parts ih =>
    cases parts with
    | nil =>
      rw [endedLines]
      split
      · exact fun line hline => by cases hline
      · exact h
    | cons next parts =>
      refine List.forall_mem_cons.mpr
        ⟨fun hmem => ?_, ih fun p hp => h p (List.mem_cons_of_mem _ hp)⟩
      exact h part List.mem_cons_self (mem_of_mem_stripReturn hmem)

theorem not_mem_sourceLines {source : String} : ∀ line ∈ sourceLines source, '\n' ∉ line :=
  not_mem_endedLines fun _ => not_mem_splitOn _

theorem splitOn_message {lines : List (List Char)} (h : ∀ line ∈ lines, '\n' ∉ line)
    (hne : lines ≠ []) :
    (String.ofList (['\n'].intercalate lines)).toList.splitOn '\n' = lines := by
  rw [String.toList_ofList, List.splitOn_intercalate _ h hne]

theorem unbroken_lines {source : List (List Char)} {r : CelReport} (hr : r.Quotes source)
    (hsource : ∀ line ∈ source, '\n' ∉ line) : ∀ m ∈ r.lines source, '\n' ∉ m := by
  have hall := List.forall_mem_cons.mp hr.unbroken
  refine List.forall_mem_cons.mpr ⟨hall.1, List.forall_mem_cons.mpr ⟨?_, hall.2⟩⟩
  intro hmem
  rcases List.mem_append.mp hmem with hmem | hmem
  · revert hmem
    decide
  · have hlt : r.line - 1 < source.length := by
      have := hr.pos
      have := hr.within
      omega
    rw [List.getD_eq_getElem?_getD, List.getElem?_eq_getElem hlt, Option.getD_some] at hmem
    exact hsource _ (List.getElem_mem hlt) hmem

theorem restoreSource_errorMessage {expr out : String} {reports : List CelReport}
    (hlen : (sourceLines expr).length = (sourceLines out).length)
    (hr : ∀ r ∈ reports, r.Quotes (sourceLines out)) :
    restoreSource (errorMessage (sourceLines out) reports) expr out =
      errorMessage (sourceLines expr) reports := by
  cases reports with
  | nil => rfl
  | cons r reports =>
    have hunbroken : ∀ line ∈ (r :: reports).flatMap (·.lines (sourceLines out)), '\n' ∉ line := by
      intro line hline
      obtain ⟨r', hr', hmem⟩ := List.mem_flatMap.mp hline
      exact unbroken_lines (hr r' hr') not_mem_sourceLines line hmem
    rw [restoreSource, errorMessage, errorMessage,
      splitOn_message hunbroken (by simp [CelReport.lines]), restoreLines_reports hr hlen]

end Errors

/-- Every expression is rewritten, to one with lines of the same bytes: its
lexemes with the bare `namespace` exchanged, and nothing else. Rewriting that one
changes nothing, and errors that quote it are restored. -/
theorem aliasNamespaceIdent_rewrites (expr : String) :
    ∃ out, aliasNamespaceIdent expr = some out ∧
      out.utf8ByteSize = expr.utf8ByteSize ∧
      (sourceLines out).map utf8Length = (sourceLines expr).map utf8Length ∧
      (∃ ts, CelScans expr.toList ts) ∧
      (∀ ts, CelScans expr.toList ts → out = String.ofList (textOf (aliasLexemes [] ts))) ∧
      aliasNamespaceIdent out = some out ∧
      ∀ reports : List CelReport, (∀ r ∈ reports, r.Quotes (sourceLines out)) →
        restoreSource (errorMessage (sourceLines out) reports) expr out =
          errorMessage (sourceLines expr) reports := by
  obtain ⟨ts, hts⟩ := exists_celScans expr.toList
  have hcells := cells_aliasLexemes [] ts
  have htext : textOf ts = expr.toList := hts.flatMap_chars
  rw [htext] at hcells
  have hlines : List.Forall₂ (List.Forall₂ SameCell) (sourceLines expr)
      (sourceLines (String.ofList (textOf (aliasLexemes [] ts)))) :=
    sourceLines_cells (by rwa [String.toList_ofList])
  refine ⟨_, aliasNamespaceIdent_of_scans hts, ?_, (map_utf8Length_of_cells hlines).symm,
    ⟨ts, hts⟩, ?_, ?_, fun reports hr => restoreSource_errorMessage hlines.length_eq hr⟩
  · calc (String.ofList (textOf (aliasLexemes [] ts))).utf8ByteSize
        = utf8Length (textOf (aliasLexemes [] ts)) := utf8ByteSize_ofList _
      _ = utf8Length expr.toList := (utf8Length_of_cells hcells).symm
      _ = (String.ofList expr.toList).utf8ByteSize := (utf8ByteSize_ofList _).symm
      _ = expr.utf8ByteSize := by rw [String.ofList_toList]
  · intro ts' hts'
    have hboth := (aliasNamespaceIdent_of_scans hts).symm.trans (aliasNamespaceIdent_of_scans hts')
    exact Option.some.inj hboth
  · have hscan := scans_aliasLexemes hts
    rw [aliasNamespaceIdent_of_scans (by rwa [String.toList_ofList]),
      aliasLexemes_aliasLexemes Iff.rfl]

end Kopiur
