import Kopiur.Api.Jitter
import Kopiur.Lib.Fragments

/-!
# Failure messages

What an operator is shown of kopia's standard error: the lines that name an
error, without the temporary path segments, which differ from one attempt to
the next. The segments are cut out one after the other until none is found.
-/

namespace Kopiur

open Lib

def isHexDigit (c : Char) : Bool :=
  c.isDigit || decide ('a' ≤ c ∧ c ≤ 'f') || decide ('A' ≤ c ∧ c ≤ 'F')

def isCut (c : Char) : Bool := isWhitespace c || c == ':'

def isSeparator (c : Char) : Bool := isCut c || c == ';'

theorem isSeparator_of_isCut {c : Char} (h : isCut c = true) : isSeparator c = true :=
  Bool.or_eq_true_iff.mpr (.inl h)

/-- A directory of shards. -/
def shardsFragment : Fragment Char isSeparator where
  pat := ['.', 's', 'h', 'a', 'r', 'd', 's']
  after _ := true
  pat_ne := by simp
  pat_sep := List.forall_iff_forall_mem.mp (by simp [isSeparator, isCut, isWhitespace])
  after_mono := by simp
  after_sep := by simp

def hexCount (l : List Char) : Nat := (l.takeWhile isHexDigit).length

theorem not_isHexDigit_of_isSeparator {c : Char} (h : isSeparator c = true) :
    isHexDigit c = false := by
  refine Bool.eq_false_iff.mpr fun hhex => ?_
  have hrange : 48 ≤ c.toNat ∧ c.toNat ≤ 57 ∨ 97 ≤ c.toNat ∧ c.toNat ≤ 102 ∨
      65 ≤ c.toNat ∧ c.toNat ≤ 70 := by
    simpa [isHexDigit, Char.isDigit, Char.le_def, UInt32.le_iff_toNat_le, or_assoc] using hhex
  rcases Bool.or_eq_true_iff.mp h with hcut | hsemicolon
  · rcases Bool.or_eq_true_iff.mp hcut with hspace | hcolon
    · simp only [isWhitespace, Bool.or_eq_true, decide_eq_true_eq, beq_iff_eq] at hspace
      omega
    · obtain rfl : c = ':' := beq_iff_eq.mp hcolon
      revert hrange
      decide
  · obtain rfl : c = ';' := beq_iff_eq.mp hsemicolon
    revert hrange
    decide

theorem hexCount_append_le (x y : List Char) : hexCount x ≤ hexCount (x ++ y) := by
  unfold hexCount
  rw [List.takeWhile_append]
  split
  case isTrue h => simpa using h.le.trans (Nat.le_add_right _ _)
  case isFalse => exact Nat.le_refl _

theorem hexCount_append_separator {x y : List Char} {c : Char} (h : isSeparator c = true) :
    hexCount (x ++ c :: y) = hexCount x := by
  unfold hexCount
  rw [List.takeWhile_append]
  split
  case isTrue hall => simp [not_isHexDigit_of_isSeparator h, hall]
  case isFalse => rfl

/-- A random suffix of a temporary file. -/
def tmpFragment : Fragment Char isSeparator where
  pat := ['.', 't', 'm', 'p', '.']
  after l := decide (2 ≤ hexCount l)
  pat_ne := by simp
  pat_sep := List.forall_iff_forall_mem.mp (by simp [isSeparator, isCut, isWhitespace])
  after_mono x y h := by simpa using (of_decide_eq_true h).trans (hexCount_append_le x y)
  after_sep x c y h := by simp [hexCount_append_separator h]

def find (pat l : List Char) : Option Nat := firstIndex pat.isPrefixOf l

/-- Where the first volatile fragment starts. The search for `.tmp.` goes on
behind each occurrence, whether or not it is a fragment. -/
def findVolatileMarker (s : List Char) : Option Nat :=
  match find shardsFragment.pat s, tmpFragment.scan 0 s with
  | some a, some b => some (min a b)
  | some a, none => some a
  | none, some b => some b
  | none, none => none

def rfind (c : Char) (l : List Char) : Option Nat :=
  (l.reverse.findIdx? (· == c)).map (l.length - 1 - ·)

/-- The text without the segment of a marker: from the last slash before it, else
from the marker, to the first white space or colon behind it. -/
def exciseSegment (out : List Char) (marker : Nat) : List Char :=
  let segStart := (rfind '/' (out.take marker)).getD marker
  let segEnd := marker + (out.drop marker).findIdx isCut
  out.take segStart ++ out.drop segEnd

/-- As many rounds of the loop. -/
def stripRounds : Nat → List Char → List Char
  | 0, out => out
  | rounds + 1, out =>
    match findVolatileMarker out with
    | some marker => stripRounds rounds (exciseSegment out marker)
    | none => out

def stripVolatilePaths (line : List Char) : List Char := stripRounds line.length line

def linePrefixes : List (List Char) :=
  ["ERROR ".toList, "error: ".toList, "FATAL ".toList, "fatal: ".toList]

def trimLine (l : List Char) : List Char := trim (String.ofList l)

def cleanLine (line : List Char) : List Char :=
  let trimmed := trimLine (stripVolatilePaths line)
  match linePrefixes.find? (·.isPrefixOf trimmed) with
  | some pre => trimLine (trimmed.drop pre.length)
  | none => trimmed

def toAsciiLowercase (l : List Char) : List Char := l.map Char.toLower

def containsText (l : List Char) (token : String) : Bool := (find token.toList l).isSome

def progressTokens : List String :=
  [" hashing,", " hashed ", " hashed(", " cached ", "uploaded ", "estimating", "estimated ",
    " b/s", "kb/s", "mb/s", "gb/s", " eta ", "s left", "processed "]

def isProgressNoise (line : List Char) : Bool :=
  let l := toAsciiLowercase line
  l.contains '%' || progressTokens.any (containsText l)

def errorTokens : List String :=
  ["error", "fatal", "failed", "failure", "unable", "cannot", "can't", "denied", "not found",
    "not initialized", "no such", "does not exist", "refused", "unauthorized", "forbidden",
    "invalid", "timeout", "timed out", "permission", "no route", "x509", "tls:", "certificate"]

def hasErrorKeyword (line : List Char) : Bool := errorTokens.any (containsText (toAsciiLowercase line))

/-- Lines from the newest on, at most three and none twice in a row, in the order
of the text. -/
def keepNewest (kept : List (List Char)) : List (List Char) → List (List Char)
  | [] => kept
  | s :: rest =>
    if kept.head? = some s then keepNewest kept rest
    else if kept.length + 1 = 3 then s :: kept
    else keepNewest (s :: kept) rest

def shownLines (stderr : String) : List (List Char) :=
  (stderr.toList.splitOn '\n').map fun raw => ((raw.splitOn '\r').getLast?).getD raw

/-- The lines that are rendered, and how they are joined. -/
def renderLines (cleaned : List (List Char)) : List Char :=
  if cleaned.isEmpty then "(kopia produced no stderr)".toList
  else
    let signal := cleaned.filter fun l => !isProgressNoise l
    let errorLines := signal.filter hasErrorKeyword
    let join := fun source : List (List Char) =>
      List.intercalate [';', ' '] (keepNewest [] source.reverse)
    if !errorLines.isEmpty then join errorLines
    else if !signal.isEmpty then join signal
    else (cleaned.getLast?).getD []

def humanizeTail (stderr : String) : String :=
  String.ofList (renderLines (((shownLines stderr).map cleanLine).filter fun l => !l.isEmpty))

def startsVolatile (l : List Char) : Bool := shardsFragment.starts l || tmpFragment.starts l

/-- Whether in some segment, between white space and colons, the first fragment is a
random suffix that the search passes over. The search has so many characters left to
skip, or is behind the first fragment of the segment. -/
def hidesFirst : Option Nat → List Char → Bool
  | _, [] => false
  | skip, c :: l =>
    if isCut c then hidesFirst (some 0) l
    else
      match skip with
      | none => hidesFirst none l
      | some k =>
        if shardsFragment.starts (c :: l) then hidesFirst none l
        else if tmpFragment.starts (c :: l) then decide (0 < k) || hidesFirst none l
        else hidesFirst (some (tmpFragment.behind k (c :: l))) l

theorem find_shards (s : List Char) :
    find shardsFragment.pat s = firstIndex shardsFragment.starts s := by
  have htest : shardsFragment.pat.isPrefixOf = shardsFragment.starts :=
    funext fun l => (Bool.and_true _).symm
  rw [find, htest]

variable {s : List Char}

theorem startsVolatile_of_marker {m : Nat} (h : findVolatileMarker s = some m) :
    ∃ c r, s.drop m = c :: r ∧ isCut c = false := by
  have hcut {c : Char} (hc : isSeparator c = false) : isCut c = false :=
    (Bool.or_eq_false_iff.mp hc).1
  have hshards {a : Nat} (ha : find shardsFragment.pat s = some a) :
      ∃ c r, s.drop a = c :: r ∧ isCut c = false := by
    rw [find_shards] at ha
    obtain ⟨c, r, hdrop, hstarts⟩ := holds_of_firstIndex ha
    exact ⟨c, r, hdrop, hcut (Fragment.sep_of_starts hstarts)⟩
  have htmp {b : Nat} (hb : tmpFragment.scan 0 s = some b) :
      ∃ c r, s.drop b = c :: r ∧ isCut c = false := by
    obtain ⟨c, r, hdrop, hstarts⟩ := Fragment.starts_of_scan hb
    exact ⟨c, r, hdrop, hcut (Fragment.sep_of_starts hstarts)⟩
  unfold findVolatileMarker at h
  cases ha : find shardsFragment.pat s with
  | none =>
    cases hb : tmpFragment.scan 0 s with
    | none => simp [ha, hb] at h
    | some b =>
      obtain rfl : b = m := by simpa [ha, hb] using h
      exact htmp hb
  | some a =>
    cases hb : tmpFragment.scan 0 s with
    | none =>
      obtain rfl : a = m := by simpa [ha, hb] using h
      exact hshards ha
    | some b =>
      obtain rfl : min a b = m := by simpa [ha, hb] using h
      rcases Nat.le_total a b with hle | hle
      · rw [Nat.min_eq_left hle]
        exact hshards ha
      · rw [Nat.min_eq_right hle]
        exact htmp hb

def segStart (p : List Char) : Nat := (rfind '/' p).getD p.length

theorem segStart_le (p : List Char) : segStart p ≤ p.length := by
  unfold segStart rfind
  cases p.reverse.findIdx? (· == '/') with
  | none => exact Nat.le_refl _
  | some i => exact (Nat.sub_le _ _).trans (Nat.sub_le _ _)

theorem exciseSegment_append (p q : List Char) : exciseSegment (p ++ q) p.length =
    p.take (segStart p) ++ q.dropWhile fun c => !isCut c := by
  have hend : q.dropWhile (fun c => !isCut c) = q.drop (q.findIdx isCut) := by
    rw [List.dropWhile_eq_drop_findIdx_not]
    simp
  unfold exciseSegment
  simp only [List.take_left, List.drop_left, hend]
  rw [List.drop_length_add_append]
  change List.take (segStart p) (p ++ q) ++ _ = _
  rw [List.take_append_of_le_length (segStart_le p)]

theorem exciseSegment_eq {m : Nat} (hm : m ≤ s.length) : exciseSegment s m =
    (s.take m).take (segStart (s.take m)) ++ (s.drop m).dropWhile fun c => !isCut c := by
  have happend := exciseSegment_append (s.take m) (s.drop m)
  rwa [List.take_append_drop, List.length_take_of_le hm] at happend

theorem length_exciseSegment_lt {m : Nat} (h : findVolatileMarker s = some m) :
    (exciseSegment s m).length < s.length := by
  obtain ⟨c, r, hdrop, hc⟩ := startsVolatile_of_marker h
  have hm : m < s.length := by
    by_contra hge
    rw [List.drop_eq_nil_of_le (Nat.not_lt.mp hge)] at hdrop
    cases hdrop
  have hrest : ((s.drop m).dropWhile fun c => !isCut c).length < (s.drop m).length := by
    rw [hdrop, List.dropWhile_cons, hc]
    exact Nat.lt_succ_of_le (List.dropWhile_suffix _).length_le
  rw [exciseSegment_eq hm.le, List.length_append, List.length_take, List.length_take]
  rw [List.length_drop] at hrest
  omega

theorem stripRounds_of_none (h : findVolatileMarker s = none) (n : Nat) :
    stripRounds n s = s := by
  cases n with
  | zero => rfl
  | succ n => rw [stripRounds, h]

theorem stripRounds_of_some {m n : Nat} (h : findVolatileMarker s = some m)
    (hn : s.length ≤ n + 1) :
    stripRounds (n + 1) s = stripRounds n (exciseSegment s m) ∧
      (exciseSegment s m).length ≤ n := by
  refine ⟨by rw [stripRounds, h], ?_⟩
  exact Nat.le_of_lt_succ (Nat.lt_of_lt_of_le (length_exciseSegment_lt h) hn)

theorem findVolatileMarker_stripRounds {n : Nat} (h : s.length ≤ n) :
    findVolatileMarker (stripRounds n s) = none := by
  induction n generalizing s with
  | zero =>
    obtain rfl : s = [] := List.length_eq_zero_iff.mp (Nat.le_zero.mp h)
    rfl
  | succ n ih =>
    cases hm : findVolatileMarker s with
    | none => rwa [stripRounds_of_none hm]
    | some m =>
      obtain ⟨hround, hlen⟩ := stripRounds_of_some hm h
      rw [hround]
      exact ih hlen

theorem startsVolatile_append (x y : List Char) (hy : ∀ c ∈ y.head?, isSeparator c = true) :
    startsVolatile (x ++ y) = startsVolatile x := by
  rw [startsVolatile, startsVolatile, Fragment.starts_append hy, Fragment.starts_append hy]

theorem startsVolatile_mono (x y : List Char) (h : startsVolatile x = true) :
    startsVolatile (x ++ y) = true := by
  rcases Bool.or_eq_true_iff.mp h with hs | ht
  · exact Bool.or_eq_true_iff.mpr (.inl (Fragment.starts_mono y hs))
  · exact Bool.or_eq_true_iff.mpr (.inr (Fragment.starts_mono y ht))

theorem not_startsVolatile {c : Char} {l : List Char} (hc : isCut c = true) :
    startsVolatile (c :: l) = false := by
  have hsep : isSeparator c = true := isSeparator_of_isCut hc
  refine Bool.eq_false_iff.mpr fun hv => ?_
  rcases Bool.or_eq_true_iff.mp hv with hs | ht
  · rw [Fragment.sep_of_starts hs] at hsep
    cases hsep
  · rw [Fragment.sep_of_starts ht] at hsep
    cases hsep

/-- What is to be skipped has no cut. -/
theorem take_behind {k : Nat} {c : Char} {l : List Char}
    (hk : ∀ d ∈ (c :: l).take k, isCut d = false) :
    ∀ d ∈ l.take (tmpFragment.behind k (c :: l)), isCut d = false := by
  cases k with
  | succ k => exact fun d hd => hk d (List.mem_cons_of_mem c hd)
  | zero =>
    rw [Fragment.behind]
    split
    · next hpat =>
      obtain ⟨r, hr⟩ := List.isPrefixOf_iff_prefix.mp hpat
      obtain ⟨rfl, rfl⟩ := List.cons.inj hr
      intro d hd
      have htmp : d ∈ ['t', 'm', 'p', '.'] := hd
      simp only [List.mem_cons, List.not_mem_nil, or_false] at htmp
      rcases htmp with rfl | rfl | rfl | rfl <;> rfl
    · simp

theorem earlier_of_hidesFirst {k : Nat} (hk : ∀ d ∈ s.take k, isCut d = false)
    (h : hidesFirst (some k) s = false) :
    earlier (firstIndex shardsFragment.starts s) (tmpFragment.scan k s) =
      firstIndex startsVolatile s := by
  induction s generalizing k with
  | nil => cases k <;> rfl
  | cons c l ih =>
    rw [hidesFirst] at h
    have hrest {k' : Nat} (hk' : ∀ d ∈ l.take k', isCut d = false)
        (hscan : tmpFragment.scan k (c :: l) = (tmpFragment.scan k' l).map (· + 1))
        (hv : startsVolatile (c :: l) = false) (hl : hidesFirst (some k') l = false) :
        earlier (firstIndex shardsFragment.starts (c :: l)) (tmpFragment.scan k (c :: l)) =
          firstIndex startsVolatile (c :: l) := by
      have hshards := (Bool.or_eq_false_iff.mp hv).1
      rw [hscan, firstIndex, firstIndex, hshards, hv]
      exact (earlier_succ _ _).trans (congrArg _ (ih hk' hl))
    by_cases hc : isCut c
    · rw [if_pos hc] at h
      obtain rfl : k = 0 := by
        cases k with
        | zero => rfl
        | succ k => simp [hk c List.mem_cons_self] at hc
      have hv := not_startsVolatile (l := l) hc
      have htmp := (Bool.or_eq_false_iff.mp hv).2
      have hpat : ¬ tmpFragment.pat.isPrefixOf (c :: l) = true := fun hpat => by
        obtain ⟨r, hr⟩ := List.isPrefixOf_iff_prefix.mp hpat
        obtain ⟨rfl, -⟩ := List.cons.inj hr
        exact absurd hc (by decide)
      have hbehind : tmpFragment.behind 0 (c :: l) = 0 := by rw [Fragment.behind, if_neg hpat]
      have hscan := Fragment.scan_cons (k := 0) htmp
      rw [hbehind] at hscan
      exact hrest (by simp) hscan hv h
    · rw [if_neg hc] at h
      by_cases hshards : shardsFragment.starts (c :: l)
      · rw [firstIndex, if_pos hshards, firstIndex, startsVolatile, hshards]
        exact zero_earlier _
      · rw [if_neg hshards] at h
        by_cases htmp : tmpFragment.starts (c :: l)
        · rw [if_pos htmp, Bool.or_eq_false_iff] at h
          obtain rfl : k = 0 := Nat.eq_zero_of_not_pos (of_decide_eq_false h.1)
          obtain ⟨hpat, hafter⟩ := Bool.and_eq_true_iff.mp htmp
          have hscan : tmpFragment.scan 0 (c :: l) = some 0 := by
            rw [Fragment.scan, if_pos hpat, if_pos hafter]
          rw [hscan, earlier_zero, firstIndex, startsVolatile, htmp, Bool.or_true]
          rfl
        · rw [if_neg htmp] at h
          have hv : startsVolatile (c :: l) = false := by simp [startsVolatile, hshards, htmp]
          exact hrest (take_behind hk) (Fragment.scan_cons (Bool.eq_false_iff.mpr htmp)) hv h

theorem findVolatileMarker_eq (h : hidesFirst (some 0) s = false) :
    findVolatileMarker s = firstIndex startsVolatile s := by
  rw [← earlier_of_hidesFirst (by simp) h, findVolatileMarker, find_shards]
  cases firstIndex shardsFragment.starts s <;> cases tmpFragment.scan 0 s <;> rfl

theorem hidesFirst_cut {c : Char} (hc : isCut c = true) (l : List Char) (skip : Option Nat) :
    hidesFirst skip (c :: l) = hidesFirst (some 0) l := by
  cases skip <;> rw [hidesFirst, if_pos hc]

theorem hidesFirst_of_append {x y : List Char} (hy : ∀ c ∈ y.head?, isCut c = true)
    {skip : Option Nat} (h : hidesFirst skip (x ++ y) = false) :
    hidesFirst (some 0) y = false := by
  induction x generalizing skip with
  | nil =>
    cases y with
    | nil => rfl
    | cons c y =>
      rw [hidesFirst_cut (hy c rfl)]
      rwa [List.nil_append, hidesFirst_cut (hy c rfl)] at h
  | cons c x ih =>
    rw [List.cons_append] at h
    cases skip with
    | none =>
      rw [hidesFirst] at h
      split at h
      · exact ih h
      · exact ih h
    | some k =>
      rw [hidesFirst] at h
      split at h
      · exact ih h
      · split at h
        · exact ih h
        · split at h
          · exact ih (Bool.or_eq_false_iff.mp h).2
          · exact ih h

theorem hidesFirst_append {x y : List Char} (hx : Shuns startsVolatile x)
    (hy : ∀ c ∈ y.head?, isCut c = true) (k : Nat) :
    hidesFirst (some k) (x ++ y) = hidesFirst (some 0) y := by
  induction x generalizing k with
  | nil =>
    cases y with
    | nil => rfl
    | cons c y => rw [List.nil_append, hidesFirst_cut (hy c rfl), hidesFirst_cut (hy c rfl)]
  | cons c x ih =>
    have hx' : Shuns startsVolatile x := fun b hb => hx b (hb.trans (List.suffix_cons c x))
    have hv := hx _ List.suffix_rfl (List.cons_ne_nil c x)
    rw [← startsVolatile_append _ y fun d hd => isSeparator_of_isCut (hy d hd)] at hv
    obtain ⟨hshards, htmp⟩ := Bool.or_eq_false_iff.mp hv
    rw [List.cons_append] at hshards htmp ⊢
    rw [hidesFirst]
    split
    · exact ih hx' 0
    · simp only [hshards, htmp, Bool.false_eq_true, if_false]
      exact ih hx' _

theorem hidesFirst_of_shuns (hs : Shuns startsVolatile s) : hidesFirst (some 0) s = false := by
  have happend := hidesFirst_append hs (y := []) (by simp) 0
  rwa [List.append_nil] at happend

theorem head?_dropWhile_isCut (q : List Char) :
    ∀ c ∈ (q.dropWhile fun c => !isCut c).head?, isCut c = true := by
  intro c hc
  have hnot := List.head?_dropWhile_not (fun c => !isCut c) q
  rw [Option.mem_def.mp hc] at hnot
  simpa using hnot

theorem marker_le {m : Nat} (h : findVolatileMarker s = some m) :
    m ≤ s.length := by
  obtain ⟨c, r, hdrop, -⟩ := startsVolatile_of_marker h
  by_contra hgt
  rw [List.drop_eq_nil_of_le (Nat.not_le.mp hgt).le] at hdrop
  cases hdrop

theorem hidesFirst_exciseSegment {m : Nat} (hm : findVolatileMarker s = some m)
    (h : hidesFirst (some 0) s = false) : hidesFirst (some 0) (exciseSegment s m) = false := by
  have hcut := head?_dropWhile_isCut (s.drop m)
  have hbefore : Shuns startsVolatile (s.take m) :=
    .take startsVolatile_mono ((findVolatileMarker_eq h).symm.trans hm)
  have hkept : Shuns startsVolatile ((s.take m).take (segStart (s.take m))) := by
    rw [← List.take_append_drop (segStart (s.take m)) (s.take m)] at hbefore
    exact Shuns.infix startsVolatile_mono (a := []) hbefore
  rw [exciseSegment_eq (marker_le hm), hidesFirst_append hkept hcut]
  have hs : s = (s.take m ++ (s.drop m).takeWhile fun c => !isCut c) ++
      (s.drop m).dropWhile fun c => !isCut c := by
    rw [List.append_assoc, List.takeWhile_append_dropWhile, List.take_append_drop]
  rw [hs] at h
  exact hidesFirst_of_append hcut h

theorem hidesFirst_stripRounds {n : Nat} (h : hidesFirst (some 0) s = false) :
    hidesFirst (some 0) (stripRounds n s) = false := by
  induction n generalizing s with
  | zero => exact h
  | succ n ih =>
    unfold stripRounds
    cases hm : findVolatileMarker s with
    | none => exact h
    | some m => exact ih (hidesFirst_exciseSegment hm h)

theorem shuns_stripVolatilePaths (h : hidesFirst (some 0) s = false) :
    Shuns startsVolatile (stripVolatilePaths s) := by
  have hnone : findVolatileMarker (stripVolatilePaths s) = none :=
    findVolatileMarker_stripRounds (Nat.le_refl _)
  have hclear : hidesFirst (some 0) (stripVolatilePaths s) = false := hidesFirst_stripRounds h
  rw [findVolatileMarker_eq hclear] at hnone
  exact firstIndex_eq_none_iff.mp hnone

theorem exists_trimLine (l : List Char) : ∃ a c, l = a ++ trimLine l ++ c ∧
    (∀ x ∈ a, isWhitespace x = true) ∧ ∀ x ∈ c, isWhitespace x = true := by
  refine ⟨l.takeWhile isWhitespace,
    ((l.dropWhile isWhitespace).reverse.takeWhile isWhitespace).reverse, ?_, ?_, ?_⟩
  · rw [trimLine, trim, trimEndMatches, String.toList_ofList, List.append_assoc,
      ← List.reverse_append, List.takeWhile_append_dropWhile, List.reverse_reverse,
      List.takeWhile_append_dropWhile]
  · exact List.all_eq_true.mp List.all_takeWhile
  · exact fun x hx => List.all_eq_true.mp List.all_takeWhile x (List.mem_reverse.mp hx)

theorem shuns_trimLine {l : List Char} (h : Shuns startsVolatile l) :
    Shuns startsVolatile (trimLine l) := by
  obtain ⟨a, c, hl, -⟩ := exists_trimLine l
  rw [hl] at h
  exact h.infix startsVolatile_mono

theorem shuns_cleanLine {line : List Char} (h : hidesFirst (some 0) line = false) :
    Shuns startsVolatile (cleanLine line) := by
  have htrimmed := shuns_trimLine (shuns_stripVolatilePaths h)
  unfold cleanLine
  dsimp only
  split
  · next pre hpre =>
    refine shuns_trimLine fun b hb => htrimmed b (hb.trans (List.drop_suffix _ _))
  · exact htrimmed

theorem mem_keepNewest {kept source : List (List Char)} (h : s ∈ keepNewest kept source) :
    s ∈ kept ∨ s ∈ source := by
  induction source generalizing kept with
  | nil => exact .inl h
  | cons t rest ih =>
    unfold keepNewest at h
    split at h
    · exact (ih h).imp id (List.mem_cons_of_mem t)
    · split at h
      · rcases List.mem_cons.mp h with rfl | hkept
        · exact .inr List.mem_cons_self
        · exact .inl hkept
      · rcases ih h with hkept | hrest
        · rcases List.mem_cons.mp hkept with rfl | hkept
          · exact .inr List.mem_cons_self
          · exact .inl hkept
        · exact .inr (List.mem_cons_of_mem t hrest)

theorem keepNewest_ne_nil {kept source : List (List Char)} (h : kept ≠ [] ∨ source ≠ []) :
    keepNewest kept source ≠ [] := by
  induction source generalizing kept with
  | nil => exact h.resolve_right fun hne => hne rfl
  | cons t rest ih =>
    unfold keepNewest
    split
    · next hhead => exact ih (.inl fun hnil => by simp [hnil] at hhead)
    · split
      · exact List.cons_ne_nil _ _
      · exact ih (.inl (List.cons_ne_nil _ _))

theorem renderLines_cases {cleaned : List (List Char)} (h : cleaned ≠ []) :
    ∃ source, source ≠ [] ∧ (∀ s ∈ source, s ∈ cleaned) ∧
      renderLines cleaned = List.intercalate [';', ' '] source := by
  have hjoin {lines : List (List Char)} (hne : lines ≠ []) (hmem : ∀ s ∈ lines, s ∈ cleaned) :
      ∃ source, source ≠ [] ∧ (∀ s ∈ source, s ∈ cleaned) ∧
        List.intercalate [';', ' '] (keepNewest [] lines.reverse) =
          List.intercalate [';', ' '] source := by
    refine ⟨keepNewest [] lines.reverse, keepNewest_ne_nil (.inr (by simpa using hne)), ?_, rfl⟩
    intro s hs
    rcases mem_keepNewest hs with hnil | hrev
    · cases hnil
    · exact hmem s (List.mem_reverse.mp hrev)
  unfold renderLines
  rw [if_neg (by simpa using h)]
  dsimp only
  split
  · next herrors =>
    refine hjoin (by simpa using herrors) fun s hs => ?_
    exact List.mem_of_mem_filter (List.mem_of_mem_filter hs)
  · split
    · next hsignal =>
      exact hjoin (by simpa using hsignal) fun s hs => List.mem_of_mem_filter hs
    · refine ⟨[cleaned.getLast h], List.cons_ne_nil _ _, ?_, ?_⟩
      · intro s hs
        obtain rfl := List.mem_singleton.mp hs
        exact List.getLast_mem h
      · rw [List.getLast?_eq_getLast_of_ne_nil h, List.intercalate_singleton]
        rfl

theorem shuns_cons {c : Char} {l : List Char} (hc : isSeparator c = true)
    (h : Shuns startsVolatile l) : Shuns startsVolatile (c :: l) := by
  intro b hb hne
  rcases List.suffix_cons_iff.mp hb with rfl | hb
  · exact startsVolatile_append [] (c :: l) fun d hd => Option.some.inj hd ▸ hc
  · exact h b hb hne

theorem shuns_append_left {a l : List Char} (ha : ∀ c ∈ a, isSeparator c = true)
    (h : Shuns startsVolatile l) : Shuns startsVolatile (a ++ l) := by
  induction a with
  | nil => exact h
  | cons c a ih =>
    obtain ⟨hc, hrest⟩ := List.forall_mem_cons.mp ha
    exact shuns_cons hc (ih hrest)

theorem shuns_intercalate {source : List (List Char)}
    (h : ∀ s ∈ source, Shuns startsVolatile s) :
    Shuns startsVolatile (List.intercalate [';', ' '] source) := by
  induction source with
  | nil => exact fun b hb hne => absurd (List.suffix_nil.mp hb) hne
  | cons s rest ih =>
    obtain ⟨hs, hrest⟩ := List.forall_mem_cons.mp h
    cases rest with
    | nil => rwa [List.intercalate_singleton]
    | cons t rest =>
      rw [List.intercalate_cons_cons, List.append_assoc]
      have htail : Shuns startsVolatile ([';', ' '] ++ List.intercalate [';', ' '] (t :: rest)) :=
        shuns_cons (by decide) (shuns_cons (by decide) (ih hrest))
      refine hs.append startsVolatile_append htail fun c hc => ?_
      obtain rfl : ';' = c := by simpa using hc
      decide

theorem shuns_empty_message : Shuns startsVolatile "(kopia produced no stderr)".toList := by
  rw [← firstIndex_eq_none_iff]
  rfl

theorem shuns_humanizeTail {stderr : String}
    (h : ∀ line ∈ shownLines stderr, hidesFirst (some 0) line = false) :
    Shuns startsVolatile (humanizeTail stderr).toList := by
  rw [humanizeTail, String.toList_ofList]
  by_cases hcleaned : (((shownLines stderr).map cleanLine).filter fun l => !l.isEmpty) = []
  · rw [hcleaned]
    exact shuns_empty_message
  · obtain ⟨source, -, hsource, hrender⟩ := renderLines_cases hcleaned
    rw [hrender]
    refine shuns_intercalate fun s hs => ?_
    obtain ⟨line, hline, rfl⟩ := List.mem_map.mp (List.mem_of_mem_filter (hsource s hs))
    exact shuns_cleanLine (h line hline)

theorem humanizeTail_ne_empty (stderr : String) : humanizeTail stderr ≠ "" := by
  intro hempty
  have hnil : renderLines (((shownLines stderr).map cleanLine).filter fun l => !l.isEmpty) = [] := by
    rw [humanizeTail] at hempty
    simpa using hempty
  by_cases hcleaned : (((shownLines stderr).map cleanLine).filter fun l => !l.isEmpty) = []
  · rw [hcleaned] at hnil
    exact absurd hnil (by decide)
  · obtain ⟨source, hne, hsource, hrender⟩ := renderLines_cases hcleaned
    obtain ⟨s, rest, rfl⟩ := List.exists_cons_of_ne_nil hne
    obtain ⟨c, l, hs⟩ : ∃ c l, s = c :: l := by
      refine List.exists_cons_of_ne_nil fun hs => ?_
      simpa [hs] using List.of_mem_filter (hsource s List.mem_cons_self)
    rw [hrender, hs, List.intercalate_cons_cons_left] at hnil
    cases hnil

theorem shuns_nil : Shuns startsVolatile [] :=
  fun _ hb hne => absurd (List.suffix_nil.mp hb) hne

theorem shuns_of_trimLine {l : List Char} (h : Shuns startsVolatile (trimLine l)) :
    Shuns startsVolatile l := by
  obtain ⟨a, c, hl, ha, hc⟩ := exists_trimLine l
  have hsep {w : List Char} (hw : ∀ x ∈ w, isWhitespace x = true) :
      ∀ x ∈ w, isSeparator x = true := fun x hx =>
    isSeparator_of_isCut (Bool.or_eq_true_iff.mpr (.inl (hw x hx)))
  have hend : Shuns startsVolatile c := by
    simpa using shuns_append_left (hsep hc) shuns_nil
  rw [hl, List.append_assoc]
  refine shuns_append_left (hsep ha) (h.append startsVolatile_append hend fun x hx => ?_)
  exact hsep hc x (List.mem_of_mem_head? hx)

theorem shuns_linePrefix {pre l : List Char} (hpre : pre ∈ linePrefixes)
    (h : Shuns startsVolatile l) : Shuns startsVolatile (pre ++ l) := by
  have hword {w sep : List Char} (hw : firstIndex startsVolatile w = none)
      (hsep : ∀ c ∈ sep, isSeparator c = true) (hne : sep ≠ []) :
      Shuns startsVolatile (w ++ (sep ++ l)) := by
    refine (firstIndex_eq_none_iff.mp hw).append startsVolatile_append
      (shuns_append_left hsep h) fun c hc => hsep c ?_
    rw [List.head?_append_of_ne_nil _ hne] at hc
    exact List.mem_of_mem_head? hc
  have hspace : ∀ c ∈ [' '], isSeparator c = true := List.all_eq_true.mp rfl
  have hcolon : ∀ c ∈ [':', ' '], isSeparator c = true := List.all_eq_true.mp rfl
  simp only [linePrefixes, List.mem_cons, List.not_mem_nil, or_false] at hpre
  rcases hpre with rfl | rfl | rfl | rfl
  · exact hword (w := "ERROR".toList) rfl hspace (List.cons_ne_nil _ _)
  · exact hword (w := "error".toList) rfl hcolon (List.cons_ne_nil _ _)
  · exact hword (w := "FATAL".toList) rfl hspace (List.cons_ne_nil _ _)
  · exact hword (w := "fatal".toList) rfl hcolon (List.cons_ne_nil _ _)

theorem shuns_of_cleanLine {line : List Char} (hnone : findVolatileMarker line = none)
    (h : Shuns startsVolatile (cleanLine line)) : Shuns startsVolatile line := by
  have hstrip : stripVolatilePaths line = line := stripRounds_of_none hnone _
  unfold cleanLine at h
  rw [hstrip] at h
  dsimp only at h
  refine shuns_of_trimLine ?_
  split at h
  · next pre hfind =>
    have hmem := List.mem_of_find?_eq_some hfind
    have hprefix : pre.isPrefixOf (trimLine line) = true :=
      List.find?_some (p := fun w : List Char => w.isPrefixOf (trimLine line)) hfind
    obtain ⟨rest, hrest⟩ := List.isPrefixOf_iff_prefix.mp hprefix
    rw [← hrest, List.drop_left] at h
    rw [← hrest]
    exact shuns_linePrefix hmem (shuns_of_trimLine h)
  · exact h

theorem shuns_of_humanizeTail {stderr : String} {line : List Char}
    (hline : shownLines stderr = [line]) (hnone : findVolatileMarker line = none)
    (h : Shuns startsVolatile (humanizeTail stderr).toList) : Shuns startsVolatile line := by
  refine shuns_of_cleanLine hnone ?_
  rw [humanizeTail, String.toList_ofList, hline] at h
  by_cases hempty : cleanLine line = []
  · rw [hempty]
    exact shuns_nil
  · have hcleaned : ([line].map cleanLine).filter (fun l => !l.isEmpty) = [cleanLine line] := by
      simp [hempty]
    rw [hcleaned] at h
    obtain ⟨source, hne, hsource, hrender⟩ := renderLines_cases (List.cons_ne_nil _ [])
    obtain ⟨s, rest, rfl⟩ := List.exists_cons_of_ne_nil hne
    obtain rfl := List.mem_singleton.mp (hsource s List.mem_cons_self)
    rw [hrender] at h
    cases rest with
    | nil => rwa [List.intercalate_singleton] at h
    | cons t rest =>
      rw [List.intercalate_cons_cons, List.append_assoc] at h
      exact Shuns.infix startsVolatile_mono (a := []) h

end Kopiur
