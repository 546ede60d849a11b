import Kopiur.Lib.DnsNames
import Kopiur.Lib.Lists

/-!
# Label selectors as strings

A selector is a list of requirements joined by commas. A requirement is a key
behind an optional `!`, or a key with `=`, `==` or `!=` and a value, or a key
with `in` or `notin` and values in parentheses. An empty value is a value.
Words are what stands between the signs and the blanks.
-/

namespace Kopiur.Lib

inductive LabelRestriction
  | oneOf (values : List String)
  | noneOf (values : List String)
  | present
  | absent
deriving DecidableEq

structure LabelRequirement where
  key : String
  restriction : LabelRestriction
deriving DecidableEq

def LabelRestriction.Holds : LabelRestriction → Option String → Prop
  | .oneOf values, value => ∃ v ∈ value, v ∈ values
  | .noneOf values, value => ∀ v ∈ value, v ∉ values
  | .present, value => value.isSome
  | .absent, value => value = none

instance : (r : LabelRestriction) → (value : Option String) → Decidable (r.Holds value)
  | .oneOf values, value => inferInstanceAs (Decidable (∃ v ∈ value, v ∈ values))
  | .noneOf values, value => inferInstanceAs (Decidable (∀ v ∈ value, v ∉ values))
  | .present, value => inferInstanceAs (Decidable (value.isSome = true))
  | .absent, value => inferInstanceAs (Decidable (value = none))

def LabelRequirement.Holds (r : LabelRequirement) (labels : String → Option String) : Prop :=
  r.restriction.Holds (labels r.key)

instance (r : LabelRequirement) (labels : String → Option String) : Decidable (r.Holds labels) :=
  inferInstanceAs (Decidable (r.restriction.Holds _))

def isLabelNameChar (c : Char) : Bool := c.isAlphanum || c == '-' || c == '_' || c == '.'

def validLabelValue (value : List Char) : Bool :=
  value.length ≤ 63 && value.all isLabelNameChar && value.head?.all Char.isAlphanum &&
    value.getLast?.all Char.isAlphanum

def isDnsLabel (l : List Char) : Bool :=
  l.head?.any isLabelEnd && l.getLast?.any isLabelEnd && l.all isLabelChar

/-- A name, behind a subdomain and a slash or not. -/
def validLabelKey (key : List Char) : Bool :=
  match key.splitOn '/' with
  | [name] => !name.isEmpty && validLabelValue name
  | [domain, name] =>
    decide (domain.length ≤ 253) && (domain.splitOn '.').all isDnsLabel && !name.isEmpty &&
      validLabelValue name
  | _ => false

inductive SelectorToken
  | word (chars : List Char)
  | comma
  | opened
  | closed
  | equals
  | bang
deriving DecidableEq

def selectorSign : Char → Option SelectorToken
  | ',' => some .comma
  | '(' => some .opened
  | ')' => some .closed
  | '=' => some .equals
  | '!' => some .bang
  | _ => none

def isSelectorBlank (c : Char) : Bool := c == ' ' || c == '\t' || c == '\r' || c == '\n'

def wordToken (held : List Char) : List SelectorToken :=
  if held.isEmpty then [] else [.word held]

@[simp] def selectorTokens (held : List Char) : List Char → List SelectorToken
  | [] => wordToken held
  | c :: cs =>
    match selectorSign c with
    | some sign => wordToken held ++ sign :: selectorTokens [] cs
    | none =>
      if isSelectorBlank c then wordToken held ++ selectorTokens [] cs
      else selectorTokens (held ++ [c]) cs

/-- The tokens between the commas outside parentheses. -/
def selectorGroups (inside : Bool) (held : List SelectorToken) :
    List SelectorToken → List (List SelectorToken)
  | [] => [held]
  | .comma :: ts =>
    if inside then selectorGroups true (held ++ [.comma]) ts
    else held :: selectorGroups false [] ts
  | .opened :: ts => selectorGroups true (held ++ [.opened]) ts
  | .closed :: ts => selectorGroups false (held ++ [.closed]) ts
  | t :: ts => selectorGroups inside (held ++ [t]) ts

def exactLabelValue : List SelectorToken → Option String
  | [] => some ""
  | [.word value] => if validLabelValue value then some (String.ofList value) else none
  | _ => none

def labelValueSet (ts : List SelectorToken) : Option (List String) :=
  if ts.getLast? = some .closed then
    collect ((ts.dropLast.splitOn .comma).map exactLabelValue)
  else none

def restrictionOf : List SelectorToken → Option LabelRestriction
  | [] => some .present
  | .equals :: .equals :: ts => (exactLabelValue ts).map fun v => .oneOf [v]
  | .equals :: ts => (exactLabelValue ts).map fun v => .oneOf [v]
  | .bang :: .equals :: ts => (exactLabelValue ts).map fun v => .noneOf [v]
  | .word ['i', 'n'] :: .opened :: ts => (labelValueSet ts).map .oneOf
  | .word ['n', 'o', 't', 'i', 'n'] :: .opened :: ts => (labelValueSet ts).map .noneOf
  | _ => none

def labelRequirementOf : List SelectorToken → Option LabelRequirement
  | [.bang, .word key] =>
    if validLabelKey key then some ⟨String.ofList key, .absent⟩ else none
  | .word key :: ts =>
    if validLabelKey key then (restrictionOf ts).map (⟨String.ofList key, ·⟩) else none
  | _ => none

def parseSelector (selector : String) : Option (List LabelRequirement) :=
  match selectorTokens [] selector.toList with
  | [] => some []
  | ts => collect ((selectorGroups false [] ts).map labelRequirementOf)

def SelectorAdmits (selector : String) (labels : String → Option String) : Prop :=
  ∃ reqs ∈ parseSelector selector, ∀ r ∈ reqs, r.Holds labels

instance (selector : String) (labels : String → Option String) :
    Decidable (SelectorAdmits selector labels) :=
  inferInstanceAs (Decidable (∃ reqs ∈ parseSelector selector, ∀ r ∈ reqs, r.Holds labels))

-- Words

def selectorMarks : List Char := [',', '(', ')', '=', '!', ' ', '\t', '\r', '\n']

theorem selectorSign_of_not_mark {c : Char} (h : c ∉ selectorMarks) : selectorSign c = none := by
  simp only [selectorMarks, List.mem_cons, not_or] at h
  simp [selectorSign, h]

theorem not_blank_of_not_mark {c : Char} (h : c ∉ selectorMarks) : isSelectorBlank c = false := by
  simp only [selectorMarks, List.mem_cons, not_or] at h
  simp [isSelectorBlank, h]

theorem not_mark_of_nameChar {c : Char} (h : isLabelNameChar c = true) : c ∉ selectorMarks := by
  have hmarks : selectorMarks.all (!isLabelNameChar ·) = true := by decide
  intro hc
  have hnot := List.all_eq_true.mp hmarks c hc
  rw [h] at hnot
  cases hnot

theorem nameChar_of_mem_value {value : List Char} (h : validLabelValue value = true) {c : Char}
    (hc : c ∈ value) : isLabelNameChar c = true := by
  simp only [validLabelValue, Bool.and_eq_true] at h
  exact List.all_eq_true.mp h.1.1.2 c hc

theorem nameChar_of_labelChar {c : Char} (h : isLabelChar c = true) : isLabelNameChar c = true := by
  simp only [isLabelChar, isLabelEnd, Bool.or_eq_true] at h
  simp only [isLabelNameChar, Char.isAlphanum, isAlpha_eq, Bool.or_eq_true]
  tauto

theorem nameChar_of_mem_dnsLabel {l : List Char} (h : isDnsLabel l = true) {c : Char}
    (hc : c ∈ l) : isLabelNameChar c = true := by
  rw [isDnsLabel, Bool.and_eq_true] at h
  exact nameChar_of_labelChar (List.all_eq_true.mp h.2 c hc)

theorem mem_intercalate_singleton {α : Type} {a sep : α} {pieces : List (List α)}
    (h : a ∈ [sep].intercalate pieces) : a = sep ∨ ∃ piece ∈ pieces, a ∈ piece := by
  induction pieces with
  | nil => simp at h
  | cons piece rest ih =>
    cases rest with
    | nil => exact .inr ⟨piece, by simp, by simpa using h⟩
    | cons next rest =>
      simp only [List.intercalate_cons_cons, List.mem_append, List.mem_singleton] at h
      rcases h with (h | h) | h
      · exact .inr ⟨piece, by simp, h⟩
      · exact .inl h
      · exact (ih h).imp_right fun ⟨q, hq, ha⟩ => ⟨q, List.mem_cons_of_mem _ hq, ha⟩

theorem mem_splitOn {α : Type} [BEq α] [LawfulBEq α] {a : α} (sep : α) {l : List α} (h : a ∈ l) :
    a = sep ∨ ∃ piece ∈ l.splitOn sep, a ∈ piece := by
  have hjoin : [sep].intercalate (l.splitOn sep) = l := List.intercalate_splitOn sep
  rw [← hjoin] at h
  exact mem_intercalate_singleton h

theorem nameChar_of_mem_domain {domain : List Char}
    (h : (domain.splitOn '.').all isDnsLabel = true) {c : Char} (hc : c ∈ domain) :
    isLabelNameChar c = true := by
  rcases mem_splitOn '.' hc with rfl | ⟨piece, hpiece, hmem⟩
  · rfl
  · exact nameChar_of_mem_dnsLabel (List.all_eq_true.mp h piece hpiece) hmem

theorem key_ne_nil {key : List Char} (h : validLabelKey key = true) : key ≠ [] := by
  rintro rfl
  revert h
  decide

theorem not_mark_of_mem_key {key : List Char} (h : validLabelKey key = true) {c : Char}
    (hc : c ∈ key) : c ∉ selectorMarks := by
  rcases mem_splitOn '/' hc with rfl | ⟨piece, hpiece, hmem⟩
  · decide
  · refine not_mark_of_nameChar ?_
    rw [validLabelKey] at h
    split at h
    case h_1 name hsplit =>
      rw [hsplit, List.mem_singleton] at hpiece
      rw [Bool.and_eq_true] at h
      exact nameChar_of_mem_value h.2 (hpiece ▸ hmem)
    case h_2 domain name hsplit =>
      rw [hsplit, List.mem_cons, List.mem_singleton] at hpiece
      simp only [Bool.and_eq_true] at h
      rcases hpiece with rfl | rfl
      · exact nameChar_of_mem_domain h.1.1.2 hmem
      · exact nameChar_of_mem_value h.2 hmem
    case h_3 => cases h

section Tokens

variable {held w cs ds : List Char} {c : Char} {t : SelectorToken}

theorem selectorTokens_sign (h : selectorSign c = some t) :
    selectorTokens held (c :: cs) = wordToken held ++ t :: selectorTokens [] cs := by
  rw [selectorTokens, h]

theorem selectorTokens_blank (h : selectorSign c = none) (hblank : isSelectorBlank c = true) :
    selectorTokens held (c :: cs) = wordToken held ++ selectorTokens [] cs := by
  simp only [selectorTokens, h, hblank, if_true]

theorem selectorTokens_word (hw : ∀ c ∈ w, c ∉ selectorMarks) :
    selectorTokens held (w ++ cs) = selectorTokens (held ++ w) cs := by
  induction w generalizing held with
  | nil => simp
  | cons c w ih =>
    have hc := hw c List.mem_cons_self
    have hrest : selectorTokens (held ++ [c]) (w ++ cs) = selectorTokens (held ++ [c] ++ w) cs :=
      ih fun d hd => hw d (List.mem_cons_of_mem _ hd)
    simp only [List.cons_append, selectorTokens, selectorSign_of_not_mark hc,
      not_blank_of_not_mark hc, Bool.false_eq_true, if_false]
    rw [hrest, List.append_assoc, List.singleton_append]

theorem selectorTokens_word_self (hw : ∀ c ∈ w, c ∉ selectorMarks) :
    selectorTokens [] w = wordToken w := by
  have h : selectorTokens [] (w ++ []) = selectorTokens ([] ++ w) [] := selectorTokens_word hw
  rwa [List.append_nil, List.nil_append] at h

theorem selectorTokens_append_sign (h : selectorSign c = some t) :
    selectorTokens held (cs ++ c :: ds) = selectorTokens held cs ++ t :: selectorTokens [] ds := by
  induction cs generalizing held with
  | nil => rw [List.nil_append, selectorTokens_sign h, selectorTokens]
  | cons d cs ih =>
    simp only [List.cons_append, selectorTokens]
    split
    · rw [ih, List.append_assoc, List.cons_append]
    · split
      · rw [ih, List.append_assoc]
      · exact ih

theorem selectorTokens_intercalate (pieces : List (List Char)) :
    selectorTokens [] ([','].intercalate pieces) =
      [SelectorToken.comma].intercalate (pieces.map (selectorTokens [])) := by
  induction pieces with
  | nil => rfl
  | cons piece rest ih =>
    cases rest with
    | nil => simp
    | cons next rest =>
      simp only [List.intercalate_cons_cons, List.map_cons, List.append_assoc] at ih ⊢
      rw [List.singleton_append, selectorTokens_append_sign rfl, ih, List.singleton_append]

end Tokens

def WholeGroup (g : List SelectorToken) : Prop :=
  ∀ held ts, selectorGroups false held (g ++ ts) = selectorGroups false (held ++ g) ts

section Groups

variable {g g' : List SelectorToken}

theorem WholeGroup.append (h : WholeGroup g) (h' : WholeGroup g') : WholeGroup (g ++ g') := by
  intro held ts
  rw [List.append_assoc, h, h', List.append_assoc]

theorem wholeGroup_word (w : List Char) : WholeGroup (wordToken w) := by
  intro held ts
  rw [wordToken]
  split
  · simp
  · rfl

theorem wholeGroup_equals : WholeGroup [.equals] := fun _ _ => rfl

theorem wholeGroup_bang : WholeGroup [.bang] := fun _ _ => rfl

theorem selectorGroups_inside {inner : List SelectorToken}
    (hinner : ∀ t ∈ inner, t ≠ .opened ∧ t ≠ .closed) (held ts : List SelectorToken) :
    selectorGroups true held (inner ++ ts) = selectorGroups true (held ++ inner) ts := by
  induction inner generalizing held with
  | nil => simp
  | cons t inner ih =>
    have ht := hinner t List.mem_cons_self
    have hrest := ih (fun u hu => hinner u (List.mem_cons_of_mem _ hu)) (held ++ [t])
    rw [List.append_assoc, List.singleton_append] at hrest
    cases t with
    | opened => exact absurd rfl ht.1
    | closed => exact absurd rfl ht.2
    | _ => exact hrest

theorem wholeGroup_parens {inner : List SelectorToken}
    (hinner : ∀ t ∈ inner, t ≠ .opened ∧ t ≠ .closed) :
    WholeGroup (.opened :: (inner ++ [.closed])) := by
  intro held ts
  have hin := selectorGroups_inside hinner (held ++ [.opened]) (.closed :: ts)
  rw [List.cons_append, List.append_assoc, List.singleton_append]
  simpa [selectorGroups] using hin

theorem selectorGroups_intercalate {groups : List (List SelectorToken)}
    (hgroups : ∀ g ∈ groups, WholeGroup g) (hne : groups ≠ []) :
    selectorGroups false [] ([SelectorToken.comma].intercalate groups) = groups := by
  induction groups with
  | nil => exact absurd rfl hne
  | cons g rest ih =>
    have hg := hgroups g List.mem_cons_self
    cases rest with
    | nil => simpa [selectorGroups] using hg [] []
    | cons next rest =>
      have hrest := ih (fun g hg => hgroups g (List.mem_cons_of_mem _ hg)) (by simp)
      rw [List.intercalate_cons_cons, List.append_assoc, hg, List.nil_append,
        List.singleton_append, selectorGroups, if_neg (by simp), hrest]

end Groups

-- Terms

/-- A term of a selector reads as one requirement, wherever it stands. -/
structure SelectorReads (term : List Char) (r : LabelRequirement) : Prop where
  tokens : selectorTokens [] term ≠ []
  whole : WholeGroup (selectorTokens [] term)
  read : labelRequirementOf (selectorTokens [] term) = some r

theorem map_read {terms : List String} {reqs : List LabelRequirement}
    (h : List.Forall₂ (fun term r => SelectorReads term.toList r) terms reqs) :
    (terms.map (selectorTokens [] ·.toList)).map labelRequirementOf = reqs.map some := by
  induction h with
  | nil => rfl
  | cons hterm _ ih => rw [List.map_cons, List.map_cons, List.map_cons, hterm.read, ih]

theorem whole_of_reads {terms : List String} {reqs : List LabelRequirement}
    (h : List.Forall₂ (fun term r => SelectorReads term.toList r) terms reqs) :
    ∀ g ∈ terms.map (selectorTokens [] ·.toList), WholeGroup g ∧ g ≠ [] := by
  induction h with
  | nil => simp
  | cons hterm _ ih => exact List.forall_mem_cons.mpr ⟨⟨hterm.whole, hterm.tokens⟩, ih⟩

theorem parseSelector_of_reads {terms : List String} {reqs : List LabelRequirement}
    (h : List.Forall₂ (fun term r => SelectorReads term.toList r) terms reqs) :
    parseSelector (String.intercalate "," terms) = some reqs := by
  have htokens : selectorTokens [] (String.intercalate "," terms).toList =
      [SelectorToken.comma].intercalate (terms.map (selectorTokens [] ·.toList)) := by
    rw [String.toList_intercalate]
    exact (selectorTokens_intercalate _).trans (by rw [List.map_map]; rfl)
  have hread := map_read h
  have hwhole := whole_of_reads h
  rw [parseSelector, htokens]
  cases hterms : terms.map (selectorTokens [] ·.toList) with
  | nil =>
    rw [hterms] at hread
    rw [List.map_eq_nil_iff.mp hread.symm]
    rfl
  | cons g rest =>
    rw [hterms] at hread hwhole
    have hg := hwhole g List.mem_cons_self
    have hgroups :=
      selectorGroups_intercalate (fun g hg => (hwhole g hg).1) (List.cons_ne_nil g rest)
    have hne : [SelectorToken.comma].intercalate (g :: rest) ≠ [] := by
      cases rest <;> simp [List.intercalate_cons_cons, hg.2]
    split
    · contradiction
    · rw [hgroups, hread, collect_eq_some_iff]

section Terms

variable {k v : List Char}

theorem wordToken_of_ne_nil (h : k ≠ []) : wordToken k = [.word k] := by
  rw [wordToken, if_neg (by simpa using h)]

theorem exactLabelValue_wordToken (h : validLabelValue v = true) :
    exactLabelValue (wordToken v) = some (String.ofList v) := by
  by_cases hv : v = []
  · subst hv
    rfl
  · rw [wordToken_of_ne_nil hv, exactLabelValue, if_pos h]

theorem not_mark_of_mem_value (h : validLabelValue v = true) : ∀ c ∈ v, c ∉ selectorMarks :=
  fun _ hc => not_mark_of_nameChar (nameChar_of_mem_value h hc)

theorem selectorTokens_key (hk : validLabelKey k = true) : selectorTokens [] k = [.word k] := by
  rw [selectorTokens_word_self fun c => not_mark_of_mem_key hk, wordToken_of_ne_nil (key_ne_nil hk)]

theorem wholeGroup_key (k : List Char) : WholeGroup [.word k] := fun _ _ => rfl

theorem labelRequirementOf_key {ts : List SelectorToken} {restriction : LabelRestriction}
    (hk : validLabelKey k = true) (hread : restrictionOf ts = some restriction) :
    labelRequirementOf (.word k :: ts) = some ⟨String.ofList k, restriction⟩ := by
  rw [labelRequirementOf, if_pos hk, hread]
  rfl

theorem selectorReads_present (hk : validLabelKey k = true) :
    SelectorReads k ⟨String.ofList k, .present⟩ := by
  constructor
  all_goals rw [selectorTokens_key hk]
  · exact List.cons_ne_nil _ _
  · exact wholeGroup_key k
  · exact labelRequirementOf_key hk rfl

theorem selectorReads_absent (hk : validLabelKey k = true) :
    SelectorReads ('!' :: k) ⟨String.ofList k, .absent⟩ := by
  have htokens : selectorTokens [] ('!' :: k) = [.bang, .word k] := by
    rw [selectorTokens_sign rfl, selectorTokens_key hk]
    rfl
  constructor
  all_goals rw [htokens]
  · exact List.cons_ne_nil _ _
  · exact wholeGroup_bang.append (wholeGroup_key k)
  · rw [labelRequirementOf, if_pos hk]

theorem selectorReads_equals (hk : validLabelKey k = true) (hv : validLabelValue v = true) :
    SelectorReads (k ++ '=' :: v) ⟨String.ofList k, .oneOf [String.ofList v]⟩ := by
  have htokens : selectorTokens [] (k ++ '=' :: v) = .word k :: .equals :: wordToken v := by
    rw [selectorTokens_append_sign rfl, selectorTokens_key hk,
      selectorTokens_word_self (not_mark_of_mem_value hv)]
    rfl
  have hread : restrictionOf (.equals :: wordToken v) = some (.oneOf [String.ofList v]) := by
    have hne : ∀ ts, wordToken v ≠ .equals :: ts := by
      intro ts
      rw [wordToken]
      split <;> simp
    rw [restrictionOf, exactLabelValue_wordToken hv]
    · rfl
    · exact hne
  constructor
  all_goals rw [htokens]
  · exact List.cons_ne_nil _ _
  · exact (wholeGroup_key k).append (wholeGroup_equals.append (wholeGroup_word v))
  · exact labelRequirementOf_key hk hread

end Terms

section Sets

variable {k op : List Char} {values : List (List Char)}

theorem labelValueSet_words (hvalues : ∀ v ∈ values, validLabelValue v = true) (hne : values ≠ []) :
    labelValueSet ([SelectorToken.comma].intercalate (values.map wordToken) ++ [.closed]) =
      some (values.map String.ofList) := by
  have hcomma : ∀ l ∈ values.map wordToken, SelectorToken.comma ∉ l := by
    intro l hl
    obtain ⟨v, -, rfl⟩ := List.mem_map.mp hl
    rw [wordToken]
    split <;> simp
  have hsplit := List.splitOn_intercalate _ hcomma (by simpa using hne)
  rw [labelValueSet, if_pos List.getLast?_concat, List.dropLast_concat, hsplit,
    collect_eq_some_iff, List.map_map, List.map_map]
  exact List.map_congr_left fun v hv => exactLabelValue_wordToken (hvalues v hv)

theorem selectorTokens_set (hk : validLabelKey k = true) (hop : ∀ c ∈ op, c ∉ selectorMarks)
    (hopne : op ≠ []) (hvalues : ∀ v ∈ values, validLabelValue v = true) :
    selectorTokens [] (k ++ ' ' :: (op ++ ' ' :: '(' :: ([','].intercalate values ++ [')']))) =
      .word k :: .word op :: .opened ::
        ([SelectorToken.comma].intercalate (values.map wordToken) ++ [.closed]) := by
  have hinner : values.map (selectorTokens []) = values.map wordToken :=
    List.map_congr_left fun v hv => selectorTokens_word_self (not_mark_of_mem_value (hvalues v hv))
  rw [selectorTokens_word fun c => not_mark_of_mem_key hk, List.nil_append,
    selectorTokens_blank rfl rfl, wordToken_of_ne_nil (key_ne_nil hk), selectorTokens_word hop,
    List.nil_append, selectorTokens_blank rfl rfl, wordToken_of_ne_nil hopne,
    selectorTokens_sign rfl, selectorTokens_append_sign rfl, selectorTokens_intercalate, hinner]
  rfl

theorem selectorReads_set {restriction : List String → LabelRestriction}
    (hk : validLabelKey k = true) (hop : ∀ c ∈ op, c ∉ selectorMarks) (hopne : op ≠ [])
    (hvalues : ∀ v ∈ values, validLabelValue v = true) (hne : values ≠ [])
    (hread : ∀ ts, restrictionOf (.word op :: .opened :: ts) = (labelValueSet ts).map restriction) :
    SelectorReads (k ++ ' ' :: (op ++ ' ' :: '(' :: ([','].intercalate values ++ [')'])))
      ⟨String.ofList k, restriction (values.map String.ofList)⟩ := by
  have hinner : ∀ t ∈ [SelectorToken.comma].intercalate (values.map wordToken),
      t ≠ .opened ∧ t ≠ .closed := by
    intro t ht
    rcases mem_intercalate_singleton ht with rfl | ⟨l, hl, ht⟩
    · simp
    · obtain ⟨v, -, rfl⟩ := List.mem_map.mp hl
      rw [wordToken] at ht
      split at ht
      · cases ht
      · rw [List.mem_singleton] at ht
        simp [ht]
  constructor
  all_goals rw [selectorTokens_set hk hop hopne hvalues]
  · exact List.cons_ne_nil _ _
  · exact (wholeGroup_key k).append ((wholeGroup_key op).append (wholeGroup_parens hinner))
  · refine labelRequirementOf_key hk ?_
    rw [hread, labelValueSet_words hvalues hne]
    rfl

end Sets

end Kopiur.Lib
