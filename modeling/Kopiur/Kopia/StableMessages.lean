import Kopiur.Kopia.Humanize
import Mathlib.Data.List.Forall2

/-!
# Messages that do not change

Two failures of one kind differ in the random suffixes of temporary files. Where
the search meets the first one of each segment, the same message is rendered of both.
-/

namespace Kopiur

open Lib

def HexRun (h : List Char) : Prop := 2 ≤ h.length ∧ ∀ c ∈ h, isHexDigit c = true

/-- Two texts that differ only in the digits behind occurrences of `.tmp.`. -/
inductive SameButHex : List Char → List Char → Prop
  | nil : SameButHex [] []
  | cons {l l' : List Char} (c : Char) (hl : SameButHex l l') : SameButHex (c :: l) (c :: l')
  | hex {h h' l l' : List Char} (hh : HexRun h) (hh' : HexRun h') (hl : SameButHex l l') :
      SameButHex ('.' :: 't' :: 'm' :: 'p' :: '.' :: (h ++ l))
        ('.' :: 't' :: 'm' :: 'p' :: '.' :: (h' ++ l'))

theorem HexRun.two_le_hexCount {h : List Char} (hh : HexRun h) (l : List Char) :
    2 ≤ hexCount (h ++ l) := by
  unfold hexCount
  rw [List.takeWhile_append_of_pos hh.2, List.length_append]
  exact hh.1.trans (Nat.le_add_right _ _)

theorem HexRun.ne_of_mem {h : List Char} (hh : HexRun h) {c d : Char} (hc : c ∈ h)
    (hd : isHexDigit d = false) : d ≠ c :=
  fun heq => absurd (hh.2 c hc) (Bool.eq_false_iff.mp (heq ▸ hd))

-- The tests do not tell the two texts apart

variable {l l' : List Char}

theorem SameButHex.isPrefixOf (hl : SameButHex l l') {w : List Char} (hw : '.' ∉ w.dropLast) :
    w.isPrefixOf l = w.isPrefixOf l' := by
  induction hl generalizing w with
  | nil => rfl
  | cons c hl ih =>
    cases w with
    | nil => simp
    | cons d w =>
      have hrest : '.' ∉ w.dropLast := by
        cases w with
        | nil => simp
        | cons e w => exact fun hmem => hw (List.mem_cons_of_mem d hmem)
      rw [List.isPrefixOf_cons_cons, List.isPrefixOf_cons_cons, ih hrest]
  | hex hh hh' hl ih =>
    cases w with
    | nil => simp
    | cons d w =>
      rw [List.isPrefixOf_cons_cons, List.isPrefixOf_cons_cons]
      cases w with
      | nil => simp
      | cons e w =>
        have hd : d ≠ '.' := fun hd => hw (hd ▸ List.mem_cons_self)
        rw [beq_false_of_ne hd, Bool.false_and, Bool.false_and]

theorem SameButHex.shards_isPrefixOf (hl : SameButHex l l') :
    shardsFragment.pat.isPrefixOf l = shardsFragment.pat.isPrefixOf l' := by
  cases hl with
  | nil => rfl
  | @cons l l' c hl =>
    have htail : ['s', 'h', 'a', 'r', 'd', 's'].isPrefixOf l =
        ['s', 'h', 'a', 'r', 'd', 's'].isPrefixOf l' := hl.isPrefixOf (by decide)
    simp only [shardsFragment, List.isPrefixOf_cons_cons, htail]
  | hex hh hh' hl => rfl

theorem SameButHex.tmp_isPrefixOf (hl : SameButHex l l') :
    tmpFragment.pat.isPrefixOf l = tmpFragment.pat.isPrefixOf l' := by
  cases hl with
  | nil => rfl
  | cons c hl =>
    simp only [tmpFragment]
    rw [List.isPrefixOf_cons_cons, List.isPrefixOf_cons_cons, hl.isPrefixOf (by simp)]
  | hex hh hh' hl => simp [tmpFragment]

theorem hexCount_cons (c : Char) (l : List Char) :
    hexCount (c :: l) = if isHexDigit c then hexCount l + 1 else 0 := by
  unfold hexCount
  rw [List.takeWhile_cons]
  split
  · rfl
  · rfl

theorem SameButHex.hexCount_pos (hl : SameButHex l l') : 1 ≤ hexCount l ↔ 1 ≤ hexCount l' := by
  cases hl with
  | nil => rfl
  | cons c hl =>
    rw [hexCount_cons, hexCount_cons]
    split <;> simp
  | hex hh hh' hl => rfl

theorem SameButHex.two_le_hexCount (hl : SameButHex l l') :
    2 ≤ hexCount l ↔ 2 ≤ hexCount l' := by
  cases hl with
  | nil => rfl
  | cons c hl =>
    rw [hexCount_cons, hexCount_cons]
    split
    · rw [Nat.succ_le_succ_iff, Nat.succ_le_succ_iff, hl.hexCount_pos]
    · rfl
  | hex hh hh' hl => rfl

theorem SameButHex.two_le_hexCount_drop (hl : SameButHex l l') {w : List Char}
    (hw : '.' ∉ w.dropLast) (hpre : w.isPrefixOf l = true) :
    2 ≤ hexCount (l.drop w.length) ↔ 2 ≤ hexCount (l'.drop w.length) := by
  induction hl generalizing w with
  | nil => simp
  | cons c hl ih =>
    cases w with
    | nil => exact (SameButHex.cons c hl).two_le_hexCount
    | cons d w =>
      have hrest : '.' ∉ w.dropLast := by
        cases w with
        | nil => simp
        | cons e w => exact fun hmem => hw (List.mem_cons_of_mem d hmem)
      rw [List.isPrefixOf_cons_cons] at hpre
      exact ih hrest (Bool.and_eq_true_iff.mp hpre).2
  | hex hh hh' hl ih =>
    cases w with
    | nil => exact (SameButHex.hex hh hh' hl).two_le_hexCount
    | cons d w =>
      cases w with
      | nil => rfl
      | cons e w =>
        have hd : d ≠ '.' := fun hd => hw (hd ▸ List.mem_cons_self)
        rw [List.isPrefixOf_cons_cons] at hpre
        simp [hd] at hpre

theorem tmp_starts_hex {h : List Char} (hh : HexRun h) (l : List Char) :
    tmpFragment.starts ('.' :: 't' :: 'm' :: 'p' :: '.' :: (h ++ l)) = true := by
  simpa [Fragment.starts, tmpFragment] using hh.two_le_hexCount l

theorem SameButHex.tmp_starts (hl : SameButHex l l') :
    tmpFragment.starts l = tmpFragment.starts l' := by
  cases hl with
  | nil => rfl
  | hex hh hh' hl => rw [tmp_starts_hex hh, tmp_starts_hex hh']
  | @cons l l' c hl =>
    have hpat := (SameButHex.cons c hl).tmp_isPrefixOf
    unfold Fragment.starts
    rw [hpat]
    by_cases hpre : tmpFragment.pat.isPrefixOf (c :: l')
    · have hword : ['t', 'm', 'p', '.'].isPrefixOf l = true := by
        rw [← hpat] at hpre
        simp only [tmpFragment, List.isPrefixOf_cons_cons] at hpre
        exact (Bool.and_eq_true_iff.mp hpre).2
      have hafter := hl.two_le_hexCount_drop (by simp) hword
      simp only [hpre, Bool.true_and]
      exact decide_eq_decide.mpr hafter
    · simp [hpre]

theorem SameButHex.startsVolatile (hl : SameButHex l l') :
    startsVolatile l = Kopiur.startsVolatile l' := by
  unfold Kopiur.startsVolatile
  rw [hl.tmp_starts]
  simp only [Fragment.starts, hl.shards_isPrefixOf]
  rfl

theorem SameButHex.shards_starts (hl : SameButHex l l') :
    shardsFragment.starts l = shardsFragment.starts l' := by
  rw [Fragment.starts, Fragment.starts, hl.shards_isPrefixOf]
  rfl

theorem SameButHex.behind (hl : SameButHex l l') (k : Nat) :
    tmpFragment.behind k l = tmpFragment.behind k l' := by
  cases k with
  | succ k => rfl
  | zero => rw [Fragment.behind, Fragment.behind, hl.tmp_isPrefixOf]

theorem hidesFirst_none {x : List Char} (hx : ∀ c ∈ x, isCut c = false) (l : List Char) :
    hidesFirst none (x ++ l) = hidesFirst none l := by
  induction x with
  | nil => rfl
  | cons c x ih =>
    obtain ⟨hc, hrest⟩ := List.forall_mem_cons.mp hx
    rw [List.cons_append, hidesFirst, if_neg (Bool.eq_false_iff.mp hc), ih hrest]

/-- A random suffix has no cut. -/
theorem not_isCut_hex {h : List Char} (hh : HexRun h) :
    ∀ c ∈ ['.', 't', 'm', 'p', '.'] ++ h, isCut c = false := by
  intro c hc
  rcases List.mem_append.mp hc with hpat | hhex
  · have hall : ['.', 't', 'm', 'p', '.'].all (fun c => !isCut c) = true := rfl
    simpa using List.all_eq_true.mp hall c hpat
  · refine Bool.eq_false_iff.mpr fun hcut => ?_
    exact absurd (hh.2 c hhex)
      (Bool.eq_false_iff.mp (not_isHexDigit_of_isSeparator (isSeparator_of_isCut hcut)))

theorem hidesFirst_hex {h : List Char} (hh : HexRun h) (l : List Char) (skip : Option Nat) :
    hidesFirst skip ('.' :: 't' :: 'm' :: 'p' :: '.' :: (h ++ l)) =
      (skip.any (fun k => decide (0 < k)) || hidesFirst none l) := by
  have hcuts := not_isCut_hex hh
  have hdot : ¬ isCut '.' = true := by decide
  have hrest : hidesFirst none ('t' :: 'm' :: 'p' :: '.' :: (h ++ l)) = hidesFirst none l :=
    hidesFirst_none (fun c hc => hcuts c (List.mem_cons_of_mem _ hc)) l
  cases skip with
  | none => rw [hidesFirst, if_neg hdot, hrest, Option.any_none, Bool.false_or]
  | some k =>
    have hshards : ¬ shardsFragment.starts ('.' :: 't' :: 'm' :: 'p' :: '.' :: (h ++ l)) = true := by
      simp [Fragment.starts, shardsFragment, List.isPrefixOf_cons_cons]
    rw [hidesFirst, if_neg hdot, if_neg hshards, if_pos (tmp_starts_hex hh l), hrest,
      Option.any_some]

theorem SameButHex.hidesFirst (hl : SameButHex l l') (skip : Option Nat) :
    hidesFirst skip l = Kopiur.hidesFirst skip l' := by
  induction hl generalizing skip with
  | nil => rfl
  | cons c hl ih =>
    have hcons := SameButHex.cons c hl
    cases skip with
    | none => rw [Kopiur.hidesFirst, Kopiur.hidesFirst, ih, ih]
    | some k =>
      rw [Kopiur.hidesFirst, Kopiur.hidesFirst, hcons.shards_starts, hcons.tmp_starts,
        hcons.behind, ih, ih, ih]
  | hex hh hh' hl ih => rw [hidesFirst_hex hh, hidesFirst_hex hh', ih]

theorem SameButHex.append (p : List Char) (hl : SameButHex l l') :
    SameButHex (p ++ l) (p ++ l') := by
  induction p with
  | nil => exact hl
  | cons c p ih => exact .cons c ih

theorem SameButHex.dropWhile (hl : SameButHex l l') :
    SameButHex (l.dropWhile fun c => !isCut c) (l'.dropWhile fun c => !isCut c) := by
  have hrun {h l : List Char} (hh : HexRun h) :
      (('.' :: 't' :: 'm' :: 'p' :: '.' :: (h ++ l)).dropWhile fun c => !isCut c) =
        l.dropWhile fun c => !isCut c := by
    have hkept : ∀ c ∈ ['.', 't', 'm', 'p', '.'] ++ h, (!isCut c) = true := fun c hc => by
      rw [not_isCut_hex hh c hc]
      rfl
    have hdrop : ((['.', 't', 'm', 'p', '.'] ++ h) ++ l).dropWhile (fun c => !isCut c) =
        l.dropWhile fun c => !isCut c := List.dropWhile_append_of_pos hkept
    rwa [List.append_assoc] at hdrop
  induction hl with
  | nil => exact .nil
  | cons c hl ih =>
    rw [List.dropWhile_cons, List.dropWhile_cons]
    split
    · exact ih
    · exact .cons c hl
  | hex hh hh' hl ih =>
    rw [hrun hh, hrun hh']
    exact ih

theorem SameButHex.first (hl : SameButHex l l') :
    (firstIndex Kopiur.startsVolatile l = none ∧ l = l') ∨
      ∃ p q q', l = p ++ q ∧ l' = p ++ q' ∧ SameButHex q q' ∧
        firstIndex Kopiur.startsVolatile l = some p.length ∧
        firstIndex Kopiur.startsVolatile l' = some p.length := by
  induction hl with
  | nil => exact .inl ⟨rfl, rfl⟩
  | hex hh hh' hl =>
    have hstarts {h l : List Char} (hh : HexRun h) :
        firstIndex Kopiur.startsVolatile ('.' :: 't' :: 'm' :: 'p' :: '.' :: (h ++ l)) = some 0 := by
      rw [firstIndex, Kopiur.startsVolatile, tmp_starts_hex hh]
      simp
    exact .inr ⟨[], _, _, rfl, rfl, .hex hh hh' hl, hstarts hh, hstarts hh'⟩
  | @cons l l' c hl ih =>
    have hcons := (SameButHex.cons c hl).startsVolatile
    by_cases hv : Kopiur.startsVolatile (c :: l')
    · refine .inr ⟨[], _, _, rfl, rfl, .cons c hl, ?_, ?_⟩
      · rw [firstIndex, hcons, if_pos hv]
        rfl
      · rw [firstIndex, if_pos hv]
        rfl
    · rw [firstIndex, firstIndex, hcons, if_neg hv, if_neg hv]
      rcases ih with ⟨hnone, rfl⟩ | ⟨p, q, q', rfl, rfl, hq, hi, hi'⟩
      · exact .inl ⟨by rw [hnone]; rfl, rfl⟩
      · exact .inr ⟨c :: p, q, q', rfl, rfl, hq, by rw [hi]; rfl, by rw [hi']; rfl⟩

theorem SameButHex.stripRounds (hl : SameButHex l l')
    (hclear : Kopiur.hidesFirst (some 0) l = false)
    {n n' : Nat} (hn : l.length ≤ n) (hn' : l'.length ≤ n') :
    stripRounds n l = Kopiur.stripRounds n' l' := by
  have hnonempty {s : List Char} {m : Nat} (hm : findVolatileMarker s = some m) : 0 < s.length :=
    Nat.zero_lt_of_lt (length_exciseSegment_lt hm)
  induction n generalizing l l' n' with
  | zero =>
    obtain rfl : l = [] := List.length_eq_zero_iff.mp (Nat.le_zero.mp hn)
    cases hl
    exact (stripRounds_of_none rfl n').symm
  | succ n ih =>
    have hclear' : Kopiur.hidesFirst (some 0) l' = false := hl.hidesFirst (some 0) ▸ hclear
    rcases hl.first with ⟨hnone, rfl⟩ | ⟨p, q, q', rfl, rfl, hq, hfirst, hfirst'⟩
    · rw [← findVolatileMarker_eq hclear] at hnone
      rw [stripRounds_of_none hnone, stripRounds_of_none hnone]
    · rw [← findVolatileMarker_eq hclear] at hfirst
      rw [← findVolatileMarker_eq hclear'] at hfirst'
      cases n' with
      | zero => exact absurd (hnonempty hfirst') (Nat.not_lt.mpr hn')
      | succ n' =>
        obtain ⟨hround, hlen⟩ := stripRounds_of_some hfirst hn
        obtain ⟨hround', hlen'⟩ := stripRounds_of_some hfirst' hn'
        have hkeep := hidesFirst_exciseSegment hfirst hclear
        rw [hround, hround']
        rw [exciseSegment_append] at hkeep hlen hlen' ⊢
        rw [exciseSegment_append]
        exact ih (hq.dropWhile.append _) hkeep hlen hlen'

theorem SameButHex.cleanLine (hl : SameButHex l l')
    (hclear : Kopiur.hidesFirst (some 0) l = false) :
    cleanLine l = Kopiur.cleanLine l' := by
  have hstrip : stripVolatilePaths l = stripVolatilePaths l' :=
    hl.stripRounds hclear (Nat.le_refl _) (Nat.le_refl _)
  unfold Kopiur.cleanLine
  rw [hstrip]

theorem splitOn_append {c : Char} {p : List Char} (hp : ∀ x ∈ p, (x == c) = false)
    (l : List Char) : (p ++ l).splitOn c = (l.splitOn c).modifyHead (p ++ ·) := by
  unfold List.splitOn
  induction p with
  | nil => cases hs : l.splitOnP (· == c) <;> simp [hs]
  | cons x p ih =>
    obtain ⟨hx, hrest⟩ := List.forall_mem_cons.mp hp
    rw [List.cons_append, List.splitOnP_cons_eq_if_modifyHead, hx, ih hrest]
    cases l.splitOnP (· == c) <;> rfl

theorem forall₂_modifyHead {lines lines' : List (List Char)} {f f' : List Char → List Char}
    (hf : ∀ l l', SameButHex l l' → SameButHex (f l) (f' l'))
    (h : List.Forall₂ SameButHex lines lines') :
    List.Forall₂ SameButHex (lines.modifyHead f) (lines'.modifyHead f') := by
  cases h with
  | nil => exact .nil
  | cons hl hrest => exact .cons (hf _ _ hl) hrest

theorem SameButHex.splitOn (hl : SameButHex l l') {c : Char} (hc : c ∉ ['.', 't', 'm', 'p', '.'])
    (hhex : isHexDigit c = false) :
    List.Forall₂ SameButHex (l.splitOn c) (l'.splitOn c) := by
  have hrun {h : List Char} (hh : HexRun h) :
      ∀ x ∈ '.' :: 't' :: 'm' :: 'p' :: '.' :: h, (x == c) = false := by
    intro x hx
    refine beq_false_of_ne fun hxc => ?_
    rcases List.mem_append.mp (show x ∈ ['.', 't', 'm', 'p', '.'] ++ h from hx) with hpat | hmem
    · exact hc (hxc ▸ hpat)
    · exact hh.ne_of_mem hmem hhex hxc.symm
  induction hl with
  | nil => exact .cons .nil .nil
  | @cons l l' d hl ih =>
    by_cases hd : d = c
    · have hcut (m : List Char) : (d :: m).splitOn c = [] :: m.splitOn c := by
        unfold List.splitOn
        rw [List.splitOnP_cons_eq_if_modifyHead, if_pos (by simp [hd])]
      rw [hcut, hcut]
      exact .cons .nil ih
    · have hkeep : ∀ x ∈ [d], (x == c) = false := by simpa using hd
      have hhead := splitOn_append hkeep l
      have hhead' := splitOn_append hkeep l'
      rw [List.singleton_append] at hhead hhead'
      rw [hhead, hhead']
      exact forall₂_modifyHead (fun _ _ => .cons d) ih
  | @hex h h' l l' hh hh' hl ih =>
    have hhead := splitOn_append (hrun hh) l
    have hhead' := splitOn_append (hrun hh') l'
    simp only [List.cons_append] at hhead hhead'
    rw [hhead, hhead']
    exact forall₂_modifyHead (fun _ _ => .hex hh hh') ih

theorem SameButHex.getLast {lines lines' : List (List Char)}
    (h : List.Forall₂ SameButHex lines lines') (hl : SameButHex l l') :
    SameButHex (lines.getLast?.getD l) (lines'.getLast?.getD l') := by
  induction h generalizing l l' with
  | nil => exact hl
  | cons hhead hrest ih =>
    rw [List.getLast?_cons, List.getLast?_cons]
    exact ih hhead

theorem SameButHex.shownLines {stderr stderr' : String}
    (h : SameButHex stderr.toList stderr'.toList) :
    List.Forall₂ SameButHex (shownLines stderr) (Kopiur.shownLines stderr') := by
  unfold Kopiur.shownLines
  rw [List.forall₂_map_left_iff, List.forall₂_map_right_iff]
  refine (h.splitOn (by decide) (by decide)).imp fun raw raw' hraw => ?_
  exact .getLast (hraw.splitOn (by decide) (by decide)) hraw

theorem map_cleanLine_eq {lines lines' : List (List Char)}
    (h : List.Forall₂ SameButHex lines lines')
    (hclear : ∀ line ∈ lines, hidesFirst (some 0) line = false) :
    lines.map cleanLine = lines'.map cleanLine := by
  induction h with
  | nil => rfl
  | cons hl hrest ih =>
    obtain ⟨hline, hlines⟩ := List.forall_mem_cons.mp hclear
    rw [List.map_cons, List.map_cons, hl.cleanLine hline, ih hlines]

-- The promise

/-- The message of a failure says something, has no temporary path in it and is the
same for all texts that differ only in their random suffixes. -/
structure VolatileFree (stderr : String) : Prop where
  no_shards : ¬ ['.', 's', 'h', 'a', 'r', 'd', 's'] <:+: (humanizeTail stderr).toList
  no_tmp : ∀ a b, isHexDigit a = true → isHexDigit b = true →
    ¬ ['.', 't', 'm', 'p', '.', a, b] <:+: (humanizeTail stderr).toList
  nonempty : humanizeTail stderr ≠ ""
  stable : ∀ other : String, SameButHex stderr.toList other.toList →
    humanizeTail other = humanizeTail stderr

/-- In no segment of a line does the first fragment start at the last point of a `.tmp.`
that the search, from the left, goes on behind. -/
def NonePassed (stderr : String) : Prop :=
  ∀ line ∈ shownLines stderr, hidesFirst (some 0) line = false

theorem hexCount_pair {a b : Char} (ha : isHexDigit a = true) (hb : isHexDigit b = true)
    (l : List Char) : 2 ≤ hexCount (a :: b :: l) := by
  rw [hexCount_cons, hexCount_cons, if_pos ha, if_pos hb]
  omega

theorem exists_pair {l : List Char} (h : 2 ≤ hexCount l) :
    ∃ a b r, l = a :: b :: r ∧ isHexDigit a = true ∧ isHexDigit b = true := by
  cases l with
  | nil => simp [hexCount] at h
  | cons a l =>
    cases l with
    | nil =>
      rw [hexCount_cons] at h
      split at h <;> simp [hexCount] at h
    | cons b r =>
      rw [hexCount_cons, hexCount_cons] at h
      split at h
      · next ha =>
        split at h
        · next hb => exact ⟨a, b, r, rfl, ha, hb⟩
        · simp at h
      · simp at h

theorem shuns_iff : Shuns Kopiur.startsVolatile l ↔
    ¬ ['.', 's', 'h', 'a', 'r', 'd', 's'] <:+: l ∧
      ∀ a b, isHexDigit a = true → isHexDigit b = true → ¬ ['.', 't', 'm', 'p', '.', a, b] <:+: l := by
  constructor
  · intro h
    have hnot {w : List Char} (hne : w ≠ []) (hw : Kopiur.startsVolatile w = true) :
        ¬ w <:+: l := by
      rintro ⟨a, c, rfl⟩
      have hsuffix : w ++ c <:+ a ++ w ++ c := ⟨a, by simp⟩
      have hno := h (w ++ c) hsuffix (by simp [hne])
      rw [startsVolatile_mono w c hw] at hno
      cases hno
    refine ⟨hnot (List.cons_ne_nil _ _) rfl, fun a b ha hb => hnot (List.cons_ne_nil _ _) ?_⟩
    have hpair := hexCount_pair ha hb []
    simp [Kopiur.startsVolatile, Fragment.starts, tmpFragment, hpair]
  · rintro ⟨hshards, htmp⟩ b hb hne
    refine Bool.eq_false_iff.mpr fun hv => ?_
    rcases Bool.or_eq_true_iff.mp hv with hs | ht
    · have hpre := List.isPrefixOf_iff_prefix.mp (Bool.and_eq_true_iff.mp hs).1
      exact hshards (hpre.isInfix.trans hb.isInfix)
    · obtain ⟨hpat, hafter⟩ := Bool.and_eq_true_iff.mp ht
      obtain ⟨r, rfl⟩ := List.isPrefixOf_iff_prefix.mp hpat
      rw [List.drop_left] at hafter
      obtain ⟨x, y, r, rfl, hx, hy⟩ := exists_pair (of_decide_eq_true hafter)
      refine htmp x y hx hy (List.IsInfix.trans ?_ hb.isInfix)
      exact ⟨[], r, rfl⟩

/-- The loop over a line ends, the message keeps its promise where the search passes
over no first fragment, and where it does in the only line, and finds nothing else,
the promise is broken. -/
theorem humanizeTail_volatileFree (stderr : String) :
    (∀ line, findVolatileMarker (stripVolatilePaths line) = none) ∧
      (NonePassed stderr → VolatileFree stderr) ∧
      ∀ line, Kopiur.shownLines stderr = [line] → findVolatileMarker line = none →
        VolatileFree stderr → NonePassed stderr := by
  refine ⟨fun line => findVolatileMarker_stripRounds (Nat.le_refl _), fun h => ?_, ?_⟩
  · obtain ⟨hshards, htmp⟩ := shuns_iff.mp (shuns_humanizeTail h)
    refine ⟨hshards, htmp, humanizeTail_ne_empty stderr, fun other hother => ?_⟩
    rw [humanizeTail, humanizeTail, map_cleanLine_eq hother.shownLines h]
  · intro line hline hnone hfree line' hline'
    rw [hline] at hline'
    obtain rfl := List.mem_singleton.mp hline'
    have havoids := shuns_of_humanizeTail hline hnone
      (shuns_iff.mpr ⟨hfree.no_shards, hfree.no_tmp⟩)
    exact hidesFirst_of_shuns havoids

/-- A random suffix that is passed over behind the first fragment of its segment. -/
theorem humanizeTail_volatileFree_shards :
    VolatileFree "/.shards.tmp.9f: x.tmp.9f.tmp.tmp.ab no" ∧
      ¬ VolatileFree "/x.tmp.tmp.9f" := by
  refine ⟨(humanizeTail_volatileFree _).2.1 ?_, fun hfree => ?_⟩
  · intro line hline
    obtain rfl := List.mem_singleton.mp hline
    rfl
  · have hnone := (humanizeTail_volatileFree _).2.2 "/x.tmp.tmp.9f".toList rfl rfl hfree
    exact absurd (hnone _ (List.mem_singleton.mpr rfl)) (by decide)

/-- The random suffix of a file whose name ends in `.tmp` is shown. -/
theorem random_suffix_shown : ¬ VolatileFree "x.tmp.tmp.9f3ac1: failed" := by
  have hmessage : humanizeTail "x.tmp.tmp.9f3ac1: failed" = "x.tmp.tmp.9f3ac1: failed" := by
    decide
  intro hfree
  refine hfree.no_tmp '9' 'f' (by decide) (by decide) ?_
  rw [hmessage]
  exact ⟨"x.tmp".toList, "3ac1: failed".toList, rfl⟩

end Kopiur
