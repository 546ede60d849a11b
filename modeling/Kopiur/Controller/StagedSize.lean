import Kopiur.Api.Durations
import Kopiur.Lib.Quantities
import Mathlib.Order.Bounds.Basic

/-!
# The size of a staged volume

A staged PVC requests the larger of the snapshot's restore size and the request
of the source PVC. The two are compared in bytes, which are read from whole
numbers with some of the suffixes. A size that is not read counts as none.
-/

namespace Kopiur

open Lib

def i128Min : Int := -2 ^ 127

def i128Max : Int := 2 ^ 127 - 1

inductive Overflow
  | overflow
  deriving DecidableEq

def checkedMul (n mult : Int) : Except Overflow Int :=
  if i128Min ≤ n * mult ∧ n * mult ≤ i128Max then .ok (n * mult) else .error .overflow

def parseI128 (s : String) : Option Int :=
  (parseInt s).filter fun n => i128Min ≤ n ∧ n ≤ i128Max

def byteSuffixes : List (List Char × Int) :=
  [(['K', 'i'], 2 ^ 10), (['M', 'i'], 2 ^ 20), (['G', 'i'], 2 ^ 30), (['T', 'i'], 2 ^ 40),
    (['P', 'i'], 2 ^ 50), (['k'], 1000), (['M'], 1000000), (['G'], 1000000000),
    (['T'], 1000000000000)]

def stripSuffix (suffix l : List Char) : Option (List Char) :=
  if suffix.isSuffixOf l then some (l.take (l.length - suffix.length)) else none

def findSuffix (suffixes : List (List Char × Int)) (l : List Char) : Option (List Char × Int) :=
  suffixes.findSome? fun (suffix, mult) => (stripSuffix suffix l).map (·, mult)

def splitByteSuffix (l : List Char) : List Char × Int :=
  (findSuffix byteSuffixes l).getD (l, 1)

def quantityToBytes (q : String) : Except Overflow (Option Int) :=
  let (num, mult) := splitByteSuffix (trim q)
  match parseI128 (String.ofList (trim (String.ofList num))) with
  | some n => (checkedMul n mult).map some
  | none => .ok none

def bytesOrZero (q : Option String) : Except Overflow Int :=
  match q with
  | some q => (quantityToBytes q).map (·.getD 0)
  | none => .ok 0

def stagedPvcSize (restoreSize sourceRequest : Option String) :
    Except Overflow (Option String) := do
  let r ← bytesOrZero restoreSize
  let s ← bytesOrZero sourceRequest
  if restoreSize.isNone ∧ sourceRequest.isNone then return none
  else if s ≤ r then return (restoreSize.filter fun _ => decide (0 < r)).or sourceRequest
  else return sourceRequest

example : stagedPvcSize (some "20Gi") (some "10Gi") = .ok (some "20Gi") := by decide

-- Quantities that are read

/-- The bytes of the units that are read. -/
def unitBytes : SiUnit → Option Int
  | .one => some 1
  | .kilo => some 1000
  | .mega => some 1000000
  | .giga => some 1000000000
  | .tera => some 1000000000000
  | .kibi => some (2 ^ 10)
  | .mebi => some (2 ^ 20)
  | .gibi => some (2 ^ 30)
  | .tebi => some (2 ^ 40)
  | .pebi => some (2 ^ 50)
  | _ => none

def suffixBytes : Suffix → Option Int
  | .unit u => unitBytes u
  | .exponent .. => none

theorem factor_of_suffixBytes {s : Suffix} {m : Int} (h : suffixBytes s = some m) :
    s.factor = m := by
  cases s with
  | exponent => simp [suffixBytes] at h
  | unit u =>
    cases u <;> simp [suffixBytes, unitBytes] at h <;> subst h <;>
      norm_num [Suffix.factor, SiUnit.factor]

theorem isSuffixOf_append {suffix init w : List Char} {c : Char} (hc : c ∉ suffix) :
    suffix.isSuffixOf (init ++ [c] ++ w) = suffix.isSuffixOf w := by
  refine Bool.eq_iff_iff.mpr ?_
  rw [List.isSuffixOf_iff_suffix, List.isSuffixOf_iff_suffix]
  refine ⟨fun h => ?_, fun h => List.suffix_append_of_suffix h⟩
  rcases Nat.lt_or_ge w.length suffix.length with hlt | hle
  · have htail : c :: w <:+ init ++ [c] ++ w := ⟨init, by simp⟩
    have hsub := List.suffix_of_suffix_length_le htail h (by simpa using Nat.succ_le_of_lt hlt)
    exact absurd (hsub.subset List.mem_cons_self) hc
  · exact List.suffix_of_suffix_length_le h (List.suffix_append _ _) hle

theorem stripSuffix_append {suffix init w : List Char} {c : Char} (hc : c ∉ suffix) :
    stripSuffix suffix (init ++ [c] ++ w) =
      (stripSuffix suffix w).map (init ++ [c] ++ ·) := by
  unfold stripSuffix
  rw [isSuffixOf_append hc]
  split
  case isFalse => rfl
  case isTrue h =>
    have hle : suffix.length ≤ w.length := (List.isSuffixOf_iff_suffix.mp h).length_le
    have hlen : (init ++ [c] ++ w).length - suffix.length =
        (init ++ [c]).length + (w.length - suffix.length) := by
      rw [List.length_append, Nat.add_sub_assoc hle]
    rw [hlen, List.take_length_add_append]
    rfl

theorem findSuffix_append {suffixes : List (List Char × Int)} {init w : List Char} {c : Char}
    (hc : ∀ entry ∈ suffixes, c ∉ entry.1) : findSuffix suffixes (init ++ [c] ++ w) =
      (findSuffix suffixes w).map fun (num, mult) => (init ++ [c] ++ num, mult) := by
  induction suffixes with
  | nil => rfl
  | cons entry suffixes ih =>
    obtain ⟨suffix, mult⟩ := entry
    obtain ⟨hentry, hrest⟩ := List.forall_mem_cons.mp hc
    have htail := ih hrest
    unfold findSuffix at htail ⊢
    simp only [List.findSome?_cons]
    rw [stripSuffix_append hentry, htail]
    cases stripSuffix suffix w <;> rfl

theorem splitByteSuffix_append {init w : List Char} {c : Char}
    (hc : c.isDigit = true ∨ c = '.') : splitByteSuffix (init ++ [c] ++ w) =
      (init ++ [c] ++ (splitByteSuffix w).1, (splitByteSuffix w).2) := by
  have hnot : ∀ entry ∈ byteSuffixes, c ∉ entry.1 := by
    rcases hc with hdigit | rfl
    · have hletters : ∀ entry ∈ byteSuffixes, entry.1.any Char.isDigit = false := by decide
      intro entry hentry hmem
      exact List.any_eq_false.mp (hletters entry hentry) c hmem hdigit
    · decide
  unfold splitByteSuffix
  rw [findSuffix_append hnot]
  cases findSuffix byteSuffixes w <;> rfl

theorem splitByteSuffix_chars (u : SiUnit) : splitByteSuffix u.chars =
    match unitBytes u with
    | some m => ([], m)
    | none => (u.chars, 1) := by
  cases u <;> decide

theorem splitByteSuffix_quantity (q : Quantity) : splitByteSuffix q.chars =
    match suffixBytes q.suffix with
    | some m => (q.number.chars, m)
    | none => (q.chars, 1) := by
  obtain ⟨number, suffix⟩ := q
  obtain ⟨init, c, hchars, hc⟩ := number.exists_last
  cases suffix with
  | unit u =>
    simp only [Quantity.chars, Suffix.chars, suffixBytes, hchars]
    rw [splitByteSuffix_append hc, splitByteSuffix_chars]
    cases unitBytes u <;> simp
  | exponent letter sign digits hletter hdigits hne =>
    -- the text ends in a digit of the exponent
    obtain ⟨ds, d, rfl⟩ : ∃ ds d, digits = ds ++ [d] :=
      ⟨_, _, (List.dropLast_append_getLast hne).symm⟩
    have hchars : Quantity.chars ⟨number, .exponent letter sign (ds ++ [d]) hletter hdigits hne⟩ =
        number.chars ++ letter :: (sign.chars ++ ds) ++ [d] ++ [] := by
      simp [Quantity.chars, Suffix.chars]
    have hnone : splitByteSuffix [] = ([], 1) := rfl
    rw [hchars, splitByteSuffix_append (.inl (hdigits d (by simp))), hnone]
    rfl

/-- A quantity that is read: no point, a suffix that is known, and a count that
fits. -/
def IsPlainQuantity (q : Quantity) : Prop :=
  q.number.frac = none ∧ suffixBytes q.suffix ≠ none ∧ i128Min ≤ q.number.count ∧
    q.number.count ≤ i128Max

instance (q : Quantity) : Decidable (IsPlainQuantity q) :=
  inferInstanceAs (Decidable (q.number.frac = none ∧ suffixBytes q.suffix ≠ none ∧
    i128Min ≤ q.number.count ∧ q.number.count ≤ i128Max))

theorem not_isWhitespace_of_mem_chars {q : Quantity} {c : Char} (h : c ∈ q.chars) :
    isWhitespace c = false := by
  have hsign : ∀ sign : Sign, sign.chars.any isWhitespace = false := by
    intro sign
    cases sign <;> rfl
  have hunit : ∀ u : SiUnit, u.chars.any isWhitespace = false := by
    intro u
    cases u <;> rfl
  have hnone {l : List Char} (hl : l.any isWhitespace = false) (hc : c ∈ l) :
      isWhitespace c = false := Bool.eq_false_iff.mpr (List.any_eq_false.mp hl c hc)
  have hrun {l : List Char} (hl : ∀ c ∈ l, c.isDigit = true) (hc : c ∈ l) :
      isWhitespace c = false := isWhitespace_of_isDigit (hl c hc)
  rcases List.mem_append.mp h with hnumber | hsuffix
  · rcases List.mem_append.mp hnumber with hc | hc
    · exact hnone (hsign _) hc
    · rcases List.mem_append.mp hc with hwhole | hpoint
      · exact hrun q.number.whole_digits hwhole
      · cases hf : q.number.frac with
        | none => simp [hf, Decimal.point] at hpoint
        | some f =>
          rw [hf] at hpoint
          rcases List.mem_cons.mp hpoint with rfl | hdigit
          · decide
          · exact hrun (q.number.frac_digits f hf) hdigit
  · cases hs : q.suffix with
    | unit u =>
      rw [hs] at hsuffix
      exact hnone (hunit u) hsuffix
    | exponent letter sign digits hletter hdigits hne =>
      rw [hs] at hsuffix
      rcases List.mem_cons.mp hsuffix with rfl | htail
      · rcases hletter with rfl | rfl <;> decide
      · rcases List.mem_append.mp htail with hc | hc
        · exact hnone (hsign _) hc
        · exact hrun hdigits hc

theorem trim_quantity {q : Quantity} {l : List Char} (hl : ∀ c ∈ l, c ∈ q.chars) :
    trim (String.ofList l) = l :=
  trim_eq_self
    (fun c hc => not_isWhitespace_of_mem_chars (hl c (List.mem_of_mem_head? hc)))
    (fun c hc => not_isWhitespace_of_mem_chars (hl c (List.mem_of_mem_getLast? hc)))

theorem exists_letter {s : Suffix} (h : suffixBytes s = none) :
    ∃ c ∈ s.chars, c.isDigit = false ∧ c ≠ '+' ∧ c ≠ '-' := by
  cases s with
  | exponent letter sign digits hletter =>
    refine ⟨letter, List.mem_cons_self, ?_⟩
    rcases hletter with rfl | rfl <;> decide
  | unit u =>
    cases u <;> first | exact absurd h (by decide) | exact ⟨_, List.mem_cons_self, by decide⟩

theorem quantityToBytes_text (q : Quantity) : quantityToBytes q.text =
    match suffixBytes q.suffix with
    | some m => if IsPlainQuantity q then (checkedMul q.number.count m).map some else .ok none
    | none => .ok none := by
  unfold quantityToBytes
  rw [Quantity.text, trim_quantity fun _ hc => hc, splitByteSuffix_quantity]
  cases hm : suffixBytes q.suffix with
  | none =>
    obtain ⟨c, hc, hdigit, hsign⟩ := exists_letter hm
    have hparse : parseI128 (String.ofList q.chars) = none := by
      have hmem : c ∈ q.chars := List.mem_append_right _ hc
      rw [parseI128, parseInt_eq_none hmem hdigit hsign]
      rfl
    simp only [trim_quantity fun _ hc => hc, hparse]
  | some m =>
    have htrim : trim (String.ofList q.number.chars) = q.number.chars :=
      trim_quantity fun _ hc => List.mem_append_left _ hc
    simp only [htrim, parseI128, Decimal.parseInt_chars]
    cases hf : q.number.frac with
    | some f => simp [IsPlainQuantity, hf]
    | none =>
      by_cases hfits : i128Min ≤ q.number.count ∧ q.number.count ≤ i128Max
      · simp [IsPlainQuantity, hf, hm, hfits, Option.filter]
      · rw [if_neg fun hplain : IsPlainQuantity q => hfits hplain.2.2]
        simp [Option.filter, hfits]

def Fits (q : Quantity) : Prop :=
  IsPlainQuantity q → ∀ m ∈ suffixBytes q.suffix,
    i128Min ≤ q.number.count * m ∧ q.number.count * m ≤ i128Max

theorem exact_of_plain {q : Quantity} (h : IsPlainQuantity q) :
    ∃ m ∈ suffixBytes q.suffix, q.exact = (q.number.count * m : Int) := by
  obtain ⟨hfrac, hsuffix, -⟩ := h
  obtain ⟨m, hm⟩ := Option.ne_none_iff_exists'.mp hsuffix
  refine ⟨m, hm, ?_⟩
  rw [Quantity.exact, Decimal.value_eq_count (Option.isNone_iff_eq_none.mpr hfrac),
    factor_of_suffixBytes hm]
  push_cast
  rfl

structure ReadAs (o : Option Quantity) (bytes : Int) : Prop where
  plain : ∀ q ∈ o, IsPlainQuantity q → q.exact = bytes
  unread : ∀ q ∈ o, ¬ IsPlainQuantity q → bytes = 0
  absent : o = none → bytes = 0

theorem bytesOrZero_readAs {o : Option Quantity} (h : ∀ q ∈ o, Fits q) :
    ∃ bytes, bytesOrZero (o.map Quantity.text) = .ok bytes ∧ ReadAs o bytes := by
  cases o with
  | none => exact ⟨0, rfl, nofun, nofun, fun _ => rfl⟩
  | some q =>
    by_cases hplain : IsPlainQuantity q
    · obtain ⟨m, hm, hexact⟩ := exact_of_plain hplain
      refine ⟨q.number.count * m, ?_, ?_, ?_, ?_⟩
      · simp only [Option.map_some, bytesOrZero]
        rw [quantityToBytes_text, Option.mem_def.mp hm]
        simp only [if_pos hplain, checkedMul, if_pos (h q rfl hplain m hm)]
        rfl
      · intro p hp _
        obtain rfl := Option.some.inj hp
        exact hexact
      · intro p hp hnot
        obtain rfl := Option.some.inj hp
        exact absurd hplain hnot
      · exact nofun
    · refine ⟨0, ?_, ?_, fun _ _ _ => rfl, fun _ => rfl⟩
      · simp only [Option.map_some, bytesOrZero]
        rw [quantityToBytes_text]
        cases suffixBytes q.suffix with
        | none => rfl
        | some m => simp only [if_neg hplain]; rfl
      · intro p hp hp'
        obtain rfl := Option.some.inj hp
        exact absurd hp' hplain

theorem bytesOrZero_overflows {q : Quantity} (h : ¬ Fits q) :
    bytesOrZero (some q.text) = .error .overflow := by
  unfold Fits at h
  push Not at h
  obtain ⟨hplain, m, hm, hbig⟩ := h
  have hnot : ¬ (i128Min ≤ q.number.count * m ∧ q.number.count * m ≤ i128Max) :=
    fun hfits => absurd hfits.2 (not_le.mpr (hbig hfits.1))
  simp only [bytesOrZero]
  rw [quantityToBytes_text, Option.mem_def.mp hm]
  simp only [if_pos hplain, checkedMul, if_neg hnot]
  rfl

theorem stagedPvcSize_of_read {restore source : Option String} {r s : Int}
    (hr : bytesOrZero restore = .ok r) (hs : bytesOrZero source = .ok s) :
    stagedPvcSize restore source = .ok (if 0 < r ∧ s ≤ r then restore else source) := by
  unfold stagedPvcSize
  rw [hr, hs]
  change (if restore.isNone ∧ source.isNone then Except.ok none
    else if s ≤ r then .ok ((restore.filter fun _ => decide (0 < r)).or source)
    else .ok source) = _
  cases restore with
  | none =>
    obtain rfl : 0 = r := Except.ok.inj hr
    cases source <;> simp
  | some size =>
    by_cases hpos : 0 < r
    · by_cases hle : s ≤ r <;> simp [hpos, hle, Option.filter]
    · simp [hpos, Option.filter]

-- The larger of the two

section Sizes

variable (restore source : Option Quantity)

def given : Set ℚ := {v | ∃ q, (q ∈ restore ∨ q ∈ source) ∧ q.value = v}

def IsLarger : Option String → Prop
  | some size => ∃ q : Quantity, q.text = size ∧ IsGreatest (given restore source) q.value
  | none => ∀ v ∈ given restore source, v ≤ 0

def CoversGiven (size : Except Overflow (Option String)) : Prop :=
  ∃ chosen, size = .ok chosen ∧ IsLarger restore source chosen

/-- What has to be read of the sizes: their bytes fit, a restore size that is not
read as more than nothing is not the larger, and neither is a request that is not
read beside a restore size that is. -/
structure SizesRead : Prop where
  fits : ∀ q, q ∈ restore ∨ q ∈ source → Fits q
  restore_unread : ∀ r ∈ restore, ¬ (IsPlainQuantity r ∧ 0 < r.value) →
    (∀ s ∈ source, r.value ≤ s.value) ∧ (source = none → r.value ≤ 0)
  source_unread : ∀ r ∈ restore, IsPlainQuantity r → 0 < r.value →
    ∀ s ∈ source, ¬ IsPlainQuantity s → s.value ≤ r.value

end Sizes

variable {restore source : Option Quantity} {p q : Quantity}

theorem isLarger_text : IsLarger restore source (some q.text) ↔
    IsGreatest (given restore source) q.value :=
  ⟨fun ⟨_, htext, h⟩ => Quantity.text_injective htext ▸ h, fun h => ⟨q, rfl, h⟩⟩

theorem isLarger_restore : IsLarger (some p) source (some p.text) ↔
    ∀ s ∈ source, s.value ≤ p.value := by
  rw [isLarger_text]
  refine ⟨fun h s hs => h.2 ⟨s, .inr hs, rfl⟩, fun h => ⟨⟨p, .inl rfl, rfl⟩, ?_⟩⟩
  rintro _ ⟨s, hs | hs, rfl⟩
  · obtain rfl := Option.some.inj hs
    exact le_rfl
  · exact h s hs

theorem isLarger_source : IsLarger restore (some q) (some q.text) ↔
    ∀ r ∈ restore, r.value ≤ q.value := by
  rw [isLarger_text]
  refine ⟨fun h r hr => h.2 ⟨r, .inl hr, rfl⟩, fun h => ⟨⟨q, .inr rfl, rfl⟩, ?_⟩⟩
  rintro _ ⟨r, hr | hr, rfl⟩
  · exact h r hr
  · obtain rfl := Option.some.inj hr
    exact le_rfl

theorem isLarger_none : IsLarger restore none none ↔ ∀ r ∈ restore, r.value ≤ 0 := by
  refine ⟨fun h r hr => h _ ⟨r, .inl hr, rfl⟩, ?_⟩
  rintro h _ ⟨r, hr | hr, rfl⟩
  · exact h r hr
  · cases hr

theorem ReadAs.value_le {o o' : Option Quantity} {b b' : Int} (h : ReadAs o b)
    (h' : ReadAs o' b') (hle : b ≤ b') (hp : p ∈ o) (hq : q ∈ o') (hp' : IsPlainQuantity p)
    (hq' : IsPlainQuantity q) : p.value ≤ q.value := by
  refine Quantity.kept_mono ?_
  rw [h.plain p hp hp', h'.plain q hq hq']
  exact_mod_cast hle

theorem ReadAs.pos_iff {o : Option Quantity} {b : Int} (h : ReadAs o b) (hp : p ∈ o) :
    IsPlainQuantity p ∧ 0 < p.value ↔ 0 < b := by
  by_cases hplain : IsPlainQuantity p
  · rw [Quantity.value, Quantity.kept_pos_iff, h.plain p hp hplain]
    exact ⟨fun hb => by exact_mod_cast hb.2, fun hb => ⟨hplain, by exact_mod_cast hb⟩⟩
  · rw [h.unread p hp hplain]
    exact ⟨fun hb => absurd hb.1 hplain, fun hb => absurd hb (lt_irrefl 0)⟩

theorem isLarger_restore_iff {r s : Int} (hfits : ∀ q, q ∈ restore ∨ q ∈ source → Fits q)
    (hr : ReadAs restore r) (hs : ReadAs source s) (hpos : 0 < r) (hle : s ≤ r) :
    IsLarger restore source (restore.map Quantity.text) ↔ SizesRead restore source := by
  obtain ⟨p, rfl⟩ : ∃ p, restore = some p :=
    Option.ne_none_iff_exists'.mp fun h => absurd (hr.absent h) hpos.ne'
  have hread := (hr.pos_iff rfl).mpr hpos
  rw [Option.map_some, isLarger_restore]
  refine ⟨fun h => ⟨hfits, fun p' hp' hnot => ?_, fun p' hp' _ _ q hq _ => ?_⟩, fun h q hq => ?_⟩
  · obtain rfl := Option.some.inj hp'
    exact absurd hread hnot
  · obtain rfl := Option.some.inj hp'
    exact h q hq
  · by_cases hplain : IsPlainQuantity q
    · exact hs.value_le hr hle hq rfl hplain hread.1
    · exact h.source_unread p rfl hread.1 hread.2 q hq hplain

theorem isLarger_source_iff {r : Int} (hfits : ∀ q, q ∈ restore ∨ q ∈ source → Fits q)
    (hr : ReadAs restore r) (hpos : ¬ 0 < r) :
    IsLarger restore source (source.map Quantity.text) ↔ SizesRead restore source := by
  have hnot : ∀ p ∈ restore, ¬ (IsPlainQuantity p ∧ 0 < p.value) := fun p hp =>
    fun h => hpos ((hr.pos_iff hp).mp h)
  have hvacuous : ∀ p ∈ restore, IsPlainQuantity p → 0 < p.value →
      ∀ q ∈ source, ¬ IsPlainQuantity q → q.value ≤ p.value :=
    fun p hp hplain hp' => absurd ⟨hplain, hp'⟩ (hnot p hp)
  cases source with
  | none =>
    rw [Option.map_none, isLarger_none]
    exact ⟨fun h => ⟨hfits, fun p hp _ => ⟨nofun, fun _ => h p hp⟩, hvacuous⟩,
      fun h p hp => (h.restore_unread p hp (hnot p hp)).2 rfl⟩
  | some q =>
    rw [Option.map_some, isLarger_source]
    refine ⟨fun h => ⟨hfits, fun p hp _ => ⟨fun q' hq' => ?_, nofun⟩, hvacuous⟩,
      fun h p hp => (h.restore_unread p hp (hnot p hp)).1 q rfl⟩
    obtain rfl := Option.some.inj hq'
    exact h p hp

theorem isLarger_source_of_lt {r s : Int} (hfits : ∀ q, q ∈ restore ∨ q ∈ source → Fits q)
    (hr : ReadAs restore r) (hs : ReadAs source s) (hpos : 0 < r) (hlt : r < s) :
    IsLarger restore source (source.map Quantity.text) ↔ SizesRead restore source := by
  obtain ⟨q, rfl⟩ : ∃ q, source = some q :=
    Option.ne_none_iff_exists'.mp fun h => absurd (hs.absent h) (hpos.trans hlt).ne'
  have hq := ((hs.pos_iff rfl).mpr (hpos.trans hlt)).1
  have hread : ∀ p ∈ restore, IsPlainQuantity p ∧ 0 < p.value := fun p hp => (hr.pos_iff hp).mpr hpos
  rw [Option.map_some, isLarger_source]
  refine iff_of_true (fun p hp => hr.value_le hs hlt.le hp rfl (hread p hp).1 hq)
    ⟨hfits, fun p hp hnot => absurd (hread p hp) hnot, fun _ _ _ _ q' hq' hnot => ?_⟩
  obtain rfl := Option.some.inj hq'
  exact absurd hq hnot

theorem fits_of_covers
    (h : CoversGiven restore source
      (stagedPvcSize (restore.map Quantity.text) (source.map Quantity.text))) :
    ∀ q, q ∈ restore ∨ q ∈ source → Fits q := by
  obtain ⟨chosen, hchosen, -⟩ := h
  unfold stagedPvcSize at hchosen
  intro q hq
  by_contra hnot
  have hover := bytesOrZero_overflows hnot
  rcases hq with hq | hq
  · rw [Option.mem_def.mp hq, Option.map_some, hover] at hchosen
    cases hchosen
  · rw [Option.mem_def.mp hq, Option.map_some, hover] at hchosen
    cases hr : bytesOrZero (restore.map Quantity.text) <;> rw [hr] at hchosen <;> cases hchosen

/-- The staged PVC requests the larger of the restore size and the source's
request, without overflow, exactly when the sizes are read. -/
theorem stagedPvcSize_covers_iff (restore source : Option Quantity) :
    CoversGiven restore source
      (stagedPvcSize (restore.map Quantity.text) (source.map Quantity.text)) ↔
    SizesRead restore source := by
  by_cases hfits : ∀ q, q ∈ restore ∨ q ∈ source → Fits q
  case neg => exact iff_of_false (fun h => hfits (fits_of_covers h)) (fun h => hfits h.fits)
  case pos =>
    obtain ⟨r, hr, hread⟩ := bytesOrZero_readAs fun q hq => hfits q (.inl hq)
    obtain ⟨s, hs, hread'⟩ := bytesOrZero_readAs fun q hq => hfits q (.inr hq)
    have hcovers : ∀ chosen, CoversGiven restore source (.ok chosen) ↔ IsLarger restore source chosen :=
      fun chosen => ⟨fun ⟨_, heq, h⟩ => Except.ok.inj heq ▸ h, fun h => ⟨chosen, rfl, h⟩⟩
    rw [stagedPvcSize_of_read hr hs, hcovers]
    by_cases hpos : 0 < r
    · by_cases hle : s ≤ r
      · rw [if_pos ⟨hpos, hle⟩]
        exact isLarger_restore_iff hfits hread hread' hpos hle
      · rw [if_neg fun h => hle h.2]
        exact isLarger_source_of_lt hfits hread hread' hpos (not_le.mp hle)
    · rw [if_neg fun h => hpos h.1]
      exact isLarger_source_iff hfits hread hpos

def tenGi : Quantity :=
  ⟨⟨.absent, ['1', '0'], none, List.all_eq_true.mp rfl, nofun, .inl (by decide)⟩, .unit .gibi⟩

def onePeta : Quantity :=
  ⟨⟨.absent, ['1'], none, List.all_eq_true.mp rfl, nofun, .inl (by decide)⟩, .unit .peta⟩

/-- A source of one petabyte is staged in ten gibibytes. -/
theorem staged_below_source : ¬ CoversGiven (some tenGi) (some onePeta)
    (stagedPvcSize (some "10Gi") (some "1P")) := by
  have hsize : stagedPvcSize (some "10Gi") (some "1P") = .ok (some tenGi.text) := by decide
  rw [hsize]
  rintro ⟨chosen, heq, hlarger⟩
  have hle := isLarger_restore.mp (Except.ok.inj heq ▸ hlarger) onePeta rfl
  have hpeta : onePeta.exact = (1000000000000000 : ℕ) := by
    have hcount : Nat.ofDigitChars 10 ['1'] 0 = 1 := rfl
    norm_num [Quantity.exact, onePeta, Decimal.value, Decimal.fraction, Sign.unit, Suffix.factor,
      SiUnit.factor, hcount]
  have hgi : tenGi.exact = (10737418240 : ℕ) := by
    have hcount : Nat.ofDigitChars 10 ['1', '0'] 0 = 10 := rfl
    norm_num [Quantity.exact, tenGi, Decimal.value, Decimal.fraction, Sign.unit, Suffix.factor,
      SiUnit.factor, hcount]
  rw [Quantity.value, Quantity.value, hpeta, hgi, Quantity.kept_natCast,
    Quantity.kept_natCast] at hle
  norm_num [Quantity.largest] at hle

end Kopiur
