import Mathlib.Data.List.TakeWhile
import Mathlib.Tactic.Common

/-!
# Command lines

A parser of flags reads every token that starts with a dash as a flag, also where
the flag before it still wants its value. A command line means what was asked if
each text that stands in a token of its own starts with neither a dash nor the
mark of a file reference; texts joined to their flags are free.
-/

namespace Kopiur.Lib.CommandLines

-- The grammar

inductive Arity
  | switch
  | valued
deriving DecidableEq

/-- What a parser makes of a command line, in order. -/
inductive Item
  | flag (name : String) (value : Option String)
  | arg (text : String)
deriving DecidableEq

def IsFlag (token : String) : Prop := token.toList.head? = some '-'

def IsFileRef (token : String) : Prop := token.toList.head? = some '@'

def IsPlain (text : String) : Prop := ¬ IsFlag text ∧ ¬ IsFileRef text

instance (token : String) : Decidable (IsFlag token) := inferInstanceAs (Decidable (_ = _))

instance (token : String) : Decidable (IsFileRef token) := inferInstanceAs (Decidable (_ = _))

instance (text : String) : Decidable (IsPlain text) := inferInstanceAs (Decidable (_ ∧ _))

theorem IsFlag.not_fileRef {token : String} (h : IsFlag token) : ¬ IsFileRef token := by
  intro href
  exact absurd (Option.some.inj (h.symm.trans href)) (by decide)

theorem IsFlag.append {name : String} (h : IsFlag name) (value : String) :
    IsFlag (name ++ value) := by
  rw [IsFlag, String.toList_append, List.head?_append, h, Option.some_or]

theorem IsPlain.ofChars {chars : List Char} (h : ∀ c ∈ chars, c ≠ '-' ∧ c ≠ '@') :
    IsPlain (String.ofList chars) := by
  constructor
  · intro hflag
    rw [IsFlag, String.toList_ofList] at hflag
    exact (h _ (List.mem_of_mem_head? hflag)).1 rfl
  · intro href
    rw [IsFileRef, String.toList_ofList] at href
    exact (h _ (List.mem_of_mem_head? href)).2 rfl

def splitOnce (c : Char) (s : String) : Option (String × String) :=
  if c ∈ s.toList then
    some (String.ofList (s.toList.takeWhile (· != c)),
      String.ofList (s.toList.dropWhile (· != c)).tail)
  else none

theorem splitOnce_eq_none {c : Char} {s : String} : splitOnce c s = none ↔ c ∉ s.toList := by
  rw [splitOnce]
  split
  · exact iff_of_false (fun h => by cases h) (fun h => h ‹_›)
  · exact iff_of_true rfl ‹_›

theorem splitOnce_append {c : Char} {before : String} (h : splitOnce c before = none)
    (rest : String) : splitOnce c (before ++ String.singleton c ++ rest) = some (before, rest) := by
  have hall : ∀ d ∈ before.toList, (d != c) = true := fun d hd =>
    bne_iff_ne.mpr fun heq => splitOnce_eq_none.mp h (heq ▸ hd)
  have hlist : (before ++ String.singleton c ++ rest).toList =
      before.toList ++ c :: rest.toList := by
    simp [String.toList_append]
  rw [splitOnce, if_pos (by rw [hlist]; simp), hlist,
    List.takeWhile_append_of_pos hall, List.dropWhile_append_of_pos hall]
  simp

/-- The flags of a command; others are refused. -/
structure Grammar where
  arity : String → Option Arity

def Grammar.parse (G : Grammar) : List String → Option (List Item)
  | [] => some []
  | token :: rest =>
    if IsFlag token then
      match splitOnce '=' token with
      | some (name, value) =>
        if G.arity name = some .valued then (G.parse rest).map (.flag name (some value) :: ·)
        else none
      | none =>
        match G.arity token with
        | some .switch => (G.parse rest).map (.flag token none :: ·)
        | some .valued =>
          match rest with
          | value :: rest =>
            if IsFlag value then none else (G.parse rest).map (.flag token (some value) :: ·)
          | [] => none
        | none => none
    else (G.parse rest).map (.arg token :: ·)

theorem Grammar.parse_arg (G : Grammar) {token : String} (h : ¬ IsFlag token)
    (rest : List String) : G.parse (token :: rest) = (G.parse rest).map (.arg token :: ·) := by
  rw [Grammar.parse.eq_def]
  exact if_neg h

theorem Grammar.parse_flag (G : Grammar) {token : String} (h : IsFlag token)
    (rest : List String) : G.parse (token :: rest) =
      match splitOnce '=' token with
      | some (name, value) =>
        if G.arity name = some .valued then (G.parse rest).map (.flag name (some value) :: ·)
        else none
      | none =>
        match G.arity token with
        | some .switch => (G.parse rest).map (.flag token none :: ·)
        | some .valued =>
          match rest with
          | value :: rest =>
            if IsFlag value then none else (G.parse rest).map (.flag token (some value) :: ·)
          | [] => none
        | none => none := by
  rw [Grammar.parse.eq_def]
  exact if_pos h

/-- References replaced by the tokens of their files. -/
def expand (files : String → Option (List String)) : List String → Option (List String)
  | [] => some []
  | token :: rest =>
    if IsFileRef token then do
      let tokens ← files (String.ofList token.toList.tail)
      (expand files rest).map (tokens ++ ·)
    else (expand files rest).map (token :: ·)

def Grammar.read (G : Grammar) (files : String → Option (List String)) (argv : List String) :
    Option (List Item) := (expand files argv).bind G.parse

/-- A command line is read as these items, and refers to no file. -/
structure Means (G : Grammar) (files : String → Option (List String)) (argv : List String)
    (items : List Item) : Prop where
  read : G.read files argv = some items
  no_reference : ∀ token ∈ argv, ¬ IsFileRef token

theorem expand_eq_self {files : String → Option (List String)} {argv : List String}
    (h : ∀ token ∈ argv, ¬ IsFileRef token) : expand files argv = some argv := by
  induction argv with
  | nil => rfl
  | cons token rest ih =>
    rw [List.forall_mem_cons] at h
    rw [expand, if_neg h.1, ih h.2, Option.map_some]

-- Writing

/-- The tokens are read as the items, as long as none of the texts that stand
alone in them is taken for a flag or a reference. -/
structure Renders (G : Grammar) (tokens : List String) (items : List Item) (alone : List String) :
    Prop where
  parses : (∀ text ∈ alone, ¬ IsFlag text) → ∀ rest,
    G.parse (tokens ++ rest) = (G.parse rest).map (items ++ ·)
  strays : ∀ rest out, G.parse (tokens ++ rest) = some (items ++ out) →
    ∀ text ∈ alone, ¬ IsFlag text
  refers : (∀ token ∈ tokens, ¬ IsFileRef token) ↔ ∀ text ∈ alone, ¬ IsFileRef text

variable {G : Grammar}

theorem Renders.nil : Renders G [] [] [] where
  parses _ rest := by
    rw [List.nil_append]
    exact (Option.map_id_apply ..).symm
  strays _ _ _ _ htext := by cases htext
  refers := Iff.rfl

theorem Renders.append {tokens tokens' alone alone' : List String} {items items' : List Item}
    (h : Renders G tokens items alone) (h' : Renders G tokens' items' alone') :
    Renders G (tokens ++ tokens') (items ++ items') (alone ++ alone') where
  parses hplain rest := by
    rw [List.forall_mem_append] at hplain
    rw [List.append_assoc, h.parses hplain.1, h'.parses hplain.2, Option.map_map]
    exact congrArg (fun f => Option.map f _) (funext fun out => (List.append_assoc ..).symm)
  strays rest out hparse := by
    rw [List.append_assoc, List.append_assoc] at hparse
    have hplain := h.strays _ _ hparse
    rw [h.parses hplain, Option.map_eq_some_iff] at hparse
    obtain ⟨out', hout', heq⟩ := hparse
    rw [List.append_cancel_left heq] at hout'
    exact List.forall_mem_append.mpr ⟨hplain, h'.strays _ _ hout'⟩
  refers := by
    rw [List.forall_mem_append, List.forall_mem_append, h.refers, h'.refers]

theorem Renders.arg (text : String) : Renders G [text] [.arg text] [text] where
  parses hplain rest := by
    rw [List.forall_mem_singleton] at hplain
    rw [List.singleton_append, G.parse_arg hplain]
    rfl
  strays rest out hparse := by
    rw [List.forall_mem_singleton]
    intro hflag
    rw [List.singleton_append, G.parse_flag hflag] at hparse
    -- A flag is not read as an argument, whatever follows it.
    cases hsplit : splitOnce '=' text with
    | some pair =>
      simp only [hsplit] at hparse
      split at hparse
      · rw [Option.map_eq_some_iff] at hparse
        obtain ⟨_, -, heq⟩ := hparse
        cases heq
      · cases hparse
    | none =>
      simp only [hsplit] at hparse
      split at hparse
      · rw [Option.map_eq_some_iff] at hparse
        obtain ⟨_, -, heq⟩ := hparse
        cases heq
      · split at hparse
        · split at hparse
          · cases hparse
          · rw [Option.map_eq_some_iff] at hparse
            obtain ⟨_, -, heq⟩ := hparse
            cases heq
        · cases hparse
      · cases hparse
  refers := Iff.rfl

theorem Renders.free {tokens tokens' alone : List String} {items items' : List Item}
    (h : Renders G tokens items alone) (h' : Renders G tokens' items' []) :
    Renders G (tokens ++ tokens') (items ++ items') alone := by
  have hboth := h.append h'
  rwa [List.append_nil] at hboth

theorem Renders.drop {tokens alone : List String} {items : List Item} {text : String}
    (h : Renders G tokens items (text :: alone)) (hplain : IsPlain text) :
    Renders G tokens items alone where
  parses hrest := h.parses (List.forall_mem_cons.mpr ⟨hplain.1, hrest⟩)
  strays rest out hparse := (List.forall_mem_cons.mp (h.strays rest out hparse)).2
  refers := by
    rw [h.refers, List.forall_mem_cons]
    exact and_iff_right hplain.2

theorem Renders.word {text : String} (h : IsPlain text) : Renders G [text] [.arg text] [] :=
  (Renders.arg text).drop h

/-- A name that is read as a flag, and whole. -/
structure FlagName (name : String) : Prop where
  flag : IsFlag name
  whole : splitOnce '=' name = none

theorem FlagName.ofChars {name : String} {chars : List Char} (h : name = String.ofList chars)
    (hflag : chars.head? = some '-') (hwhole : '=' ∉ chars) : FlagName name where
  flag := by rwa [h, IsFlag, String.toList_ofList]
  whole := by rwa [splitOnce_eq_none, h, String.toList_ofList]

structure Grammar.Knows (G : Grammar) (name : String) (arity : Arity) : Prop
    extends FlagName name where
  known : G.arity name = some arity

def Grammar.ofFlags {F : Type} (flags : List F) (name : F → String) (arity : F → Arity) :
    Grammar where
  arity token := (flags.find? fun flag => name flag == token).map arity

theorem Grammar.ofFlags_knows {F : Type} {flags : List F} {name : F → String} {arity : F → Arity}
    {flag : F} (hmem : flag ∈ flags) (hname : FlagName (name flag))
    (hsame : ∀ other ∈ flags, name other = name flag → arity other = arity flag) :
    (ofFlags flags name arity).Knows (name flag) (arity flag) where
  toFlagName := hname
  known := by
    change (flags.find? fun other => name other == name flag).map arity = some (arity flag)
    cases hfind : flags.find? fun other => name other == name flag with
    | none =>
      have hnone := List.find?_eq_none.mp hfind flag hmem
      exact absurd (beq_self_eq_true _) hnone
    | some other =>
      have hsame_name := List.find?_some hfind
      rw [Option.map_some, hsame other (List.mem_of_find?_eq_some hfind) (eq_of_beq hsame_name)]

theorem Renders.switch {name : String} (h : G.Knows name .switch) :
    Renders G [name] [.flag name none] [] where
  parses _ rest := by
    rw [List.singleton_append, G.parse_flag h.flag]
    simp only [h.whole, h.known]
    rfl
  strays _ _ _ _ htext := by cases htext
  refers := iff_of_true (List.forall_mem_singleton.mpr h.flag.not_fileRef) fun _ htext => by cases htext

theorem Renders.pair {name : String} (h : G.Knows name .valued) (value : String) :
    Renders G [name, value] [.flag name (some value)] [value] where
  parses hplain rest := by
    rw [List.forall_mem_singleton] at hplain
    rw [List.cons_append, List.singleton_append, G.parse_flag h.flag]
    simp only [h.whole, h.known, if_neg hplain]
    rfl
  strays rest out hparse := by
    rw [List.forall_mem_singleton]
    intro hflag
    rw [List.cons_append, List.singleton_append, G.parse_flag h.flag] at hparse
    simp only [h.whole, h.known, if_pos hflag] at hparse
    cases hparse
  refers := by
    rw [List.forall_mem_cons, and_iff_right h.flag.not_fileRef]

theorem Renders.joined {name : String} (h : G.Knows name .valued) (value : String) :
    Renders G [name ++ "=" ++ value] [.flag name (some value)] [] where
  parses _ rest := by
    rw [List.singleton_append, G.parse_flag ((h.flag.append "=").append value)]
    have hsplit : splitOnce '=' (name ++ "=" ++ value) = some (name, value) :=
      splitOnce_append h.whole value
    simp only [hsplit, h.known]
    rfl
  strays _ _ _ _ htext := by cases htext
  refers := by
    refine iff_of_true (List.forall_mem_singleton.mpr ?_) fun _ htext => by cases htext
    exact ((h.flag.append "=").append value).not_fileRef

theorem Renders.flatMap {α : Type} {tokens alone : α → List String} {items : α → List Item}
    (h : ∀ a, Renders G (tokens a) (items a) (alone a)) (l : List α) :
    Renders G (l.flatMap tokens) (l.flatMap items) (l.flatMap alone) := by
  induction l with
  | nil => exact .nil
  | cons a rest ih => exact (h a).append ih

/-- What is written means what was asked exactly if every text that stands alone
is plain. -/
theorem Renders.means_iff {tokens alone : List String} {items : List Item}
    (h : Renders G tokens items alone) (files : String → Option (List String)) :
    Means G files tokens items ↔ ∀ text ∈ alone, IsPlain text := by
  constructor
  · rintro ⟨hread, href⟩ text htext
    rw [Grammar.read, expand_eq_self href, Option.bind_some] at hread
    have hflags := h.strays [] [] (by rwa [List.append_nil, List.append_nil])
    exact ⟨hflags text htext, h.refers.mp href text htext⟩
  · intro hplain
    have href := h.refers.mpr fun text htext => (hplain text htext).2
    have hparse := h.parses (fun text htext => (hplain text htext).1) []
    rw [List.append_nil] at hparse
    refine ⟨?_, href⟩
    rw [Grammar.read, expand_eq_self href, Option.bind_some, hparse, Grammar.parse,
      Option.map_some, List.append_nil]

end Kopiur.Lib.CommandLines
