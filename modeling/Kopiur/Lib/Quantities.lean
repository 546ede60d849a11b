import Kopiur.Lib.Text
import Mathlib.Data.Rat.Floor

/-!
# Resource quantities

A quantity is a decimal number and a suffix: a decimal or a binary unit, or a
decimal exponent. The written form determines the quantity. What a server keeps
of it is rounded away from zero to a billionth and capped.
-/

namespace Kopiur.Lib

inductive Sign
  | absent
  | plus
  | minus
  deriving DecidableEq

namespace Sign

def chars : Sign → List Char
  | absent => []
  | plus => ['+']
  | minus => ['-']

def unit : Sign → Int
  | absent => 1
  | plus => 1
  | minus => -1

end Sign

/-- A decimal number, with digits on at least one side of the point. -/
@[ext]
structure Decimal where
  sign : Sign
  whole : List Char
  frac : Option (List Char)
  whole_digits : ∀ c ∈ whole, c.isDigit = true
  frac_digits : ∀ f ∈ frac, ∀ c ∈ f, c.isDigit = true
  some_digit : whole ≠ [] ∨ ∃ f ∈ frac, f ≠ []

namespace Decimal

def point : Option (List Char) → List Char
  | none => []
  | some f => '.' :: f

def unsigned (d : Decimal) : List Char := d.whole ++ point d.frac

def chars (d : Decimal) : List Char := d.sign.chars ++ d.unsigned

def count (d : Decimal) : Int := d.sign.unit * Nat.ofDigitChars 10 d.whole 0

def fraction : Option (List Char) → ℚ
  | none => 0
  | some f => Nat.ofDigitChars 10 f 0 / 10 ^ f.length

def value (d : Decimal) : ℚ := d.sign.unit * (Nat.ofDigitChars 10 d.whole 0 + fraction d.frac)

end Decimal

/-- The decimal and the binary units. -/
inductive SiUnit
  | nano | micro | milli | one | kilo | mega | giga | tera | peta | exa
  | kibi | mebi | gibi | tebi | pebi | exbi
  deriving DecidableEq

namespace SiUnit

def chars : SiUnit → List Char
  | nano => ['n']
  | micro => ['u']
  | milli => ['m']
  | one => []
  | kilo => ['k']
  | mega => ['M']
  | giga => ['G']
  | tera => ['T']
  | peta => ['P']
  | exa => ['E']
  | kibi => ['K', 'i']
  | mebi => ['M', 'i']
  | gibi => ['G', 'i']
  | tebi => ['T', 'i']
  | pebi => ['P', 'i']
  | exbi => ['E', 'i']

def factor : SiUnit → ℚ
  | nano => 1 / 10 ^ 9
  | micro => 1 / 10 ^ 6
  | milli => 1 / 10 ^ 3
  | one => 1
  | kilo => 10 ^ 3
  | mega => 10 ^ 6
  | giga => 10 ^ 9
  | tera => 10 ^ 12
  | peta => 10 ^ 15
  | exa => 10 ^ 18
  | kibi => 2 ^ 10
  | mebi => 2 ^ 20
  | gibi => 2 ^ 30
  | tebi => 2 ^ 40
  | pebi => 2 ^ 50
  | exbi => 2 ^ 60

end SiUnit

inductive Suffix
  | unit (u : SiUnit)
  | exponent (letter : Char) (sign : Sign) (digits : List Char)
      (hletter : letter = 'e' ∨ letter = 'E') (hdigits : ∀ c ∈ digits, c.isDigit = true)
      (hne : digits ≠ [])

namespace Suffix

def chars : Suffix → List Char
  | unit u => u.chars
  | exponent letter sign digits _ _ _ => letter :: (sign.chars ++ digits)

def factor : Suffix → ℚ
  | unit u => u.factor
  | exponent _ sign digits _ _ _ => 10 ^ (sign.unit * Nat.ofDigitChars 10 digits 0)

end Suffix

structure Quantity where
  number : Decimal
  suffix : Suffix

namespace Quantity

def chars (q : Quantity) : List Char := q.number.chars ++ q.suffix.chars

def text (q : Quantity) : String := String.ofList q.chars

def exact (q : Quantity) : ℚ := q.number.value * q.suffix.factor

def largest : ℚ := 2 ^ 63 - 1

def roundUp (x : ℚ) : ℚ := min (⌈x * 10 ^ 9⌉ / 10 ^ 9) largest

def kept (x : ℚ) : ℚ := if 0 ≤ x then roundUp x else -roundUp (-x)

def value (q : Quantity) : ℚ := kept q.exact

end Quantity

-- The written form

theorem run_append_inj {α : Type} {p : α → Bool} {a a' x x' : List α} (ha : ∀ c ∈ a, p c = true)
    (ha' : ∀ c ∈ a', p c = true) (hx : ∀ c ∈ x.head?, p c = false)
    (hx' : ∀ c ∈ x'.head?, p c = false) (h : a ++ x = a' ++ x') : a = a' ∧ x = x' := by
  have hdrop := congrArg (List.dropWhile p) h
  rw [List.dropWhile_append_of_pos ha, List.dropWhile_append_of_pos ha'] at hdrop
  have hself {l : List α} (hl : ∀ c ∈ l.head?, p c = false) : l.dropWhile p = l := by
    cases l with
    | nil => rfl
    | cons c l => simp [hl c (by simp)]
  rw [hself hx, hself hx'] at hdrop
  subst hdrop
  exact ⟨List.append_cancel_right h, rfl⟩

namespace Sign

theorem chars_append_inj {s s' : Sign} {x x' : List Char} (hx : ∀ c ∈ x.head?, c ≠ '+' ∧ c ≠ '-')
    (hx' : ∀ c ∈ x'.head?, c ≠ '+' ∧ c ≠ '-') (h : s.chars ++ x = s'.chars ++ x') :
    s = s' ∧ x = x' := by
  have hhead := congrArg List.head? h
  cases s with
  | absent =>
    cases s' with
    | absent => exact ⟨rfl, h⟩
    | plus => exact absurd rfl (hx '+' (by simpa [chars] using hhead)).1
    | minus => exact absurd rfl (hx '-' (by simpa [chars] using hhead)).2
  | plus =>
    cases s' with
    | absent => exact absurd rfl (hx' _ (by simpa [chars] using hhead.symm)).1
    | plus => exact ⟨rfl, by simpa [chars] using h⟩
    | minus => simp [chars] at hhead
  | minus =>
    cases s' with
    | absent => exact absurd rfl (hx' _ (by simpa [chars] using hhead.symm)).2
    | plus => simp [chars] at hhead
    | minus => exact ⟨rfl, by simpa [chars] using h⟩

end Sign

theorem ne_of_isDigit {c d : Char} (hc : c.isDigit = true) (hd : d.isDigit = false) : c ≠ d :=
  fun h => by simp [← h, hc] at hd

namespace SiUnit

theorem chars_injective : Function.Injective chars := by
  intro u u' h
  cases u <;> cases u' <;> first | rfl | simp [chars] at h

theorem head?_chars {u : SiUnit} {c : Char} (h : c ∈ u.chars.head?) :
    c.isDigit = false ∧ c ≠ '.' := by
  cases u <;> simp [chars] at h <;> subst h <;> decide

theorem second_char {u : SiUnit} {c d : Char} {l : List Char} (h : u.chars = c :: d :: l) :
    d = 'i' := by
  cases u <;> simp [chars] at h <;> exact h.2.1.symm

end SiUnit

theorem not_sign_of_isDigit {c : Char} (h : c.isDigit = true) : c ≠ '+' ∧ c ≠ '-' :=
  ⟨ne_of_isDigit h (by decide), ne_of_isDigit h (by decide)⟩

namespace Suffix

theorem head?_chars {s : Suffix} {c : Char} (h : c ∈ s.chars.head?) :
    c.isDigit = false ∧ c ≠ '.' := by
  cases s with
  | unit u => exact SiUnit.head?_chars h
  | exponent letter sign digits hletter =>
    obtain rfl : letter = c := by simpa [chars] using h
    rcases hletter with rfl | rfl <;> decide

theorem exponent_ne_unit {letter : Char} {sign : Sign} {digits : List Char} {u : SiUnit}
    (hdigits : ∀ c ∈ digits, c.isDigit = true) (hne : digits ≠ []) :
    letter :: (sign.chars ++ digits) ≠ u.chars := by
  intro h
  obtain ⟨c, l, rfl⟩ := List.exists_cons_of_ne_nil hne
  have hdigit : c ≠ 'i' := ne_of_isDigit (hdigits c List.mem_cons_self) (by decide)
  cases sign with
  | absent => exact hdigit (SiUnit.second_char h.symm)
  | plus => exact absurd (SiUnit.second_char h.symm) (by decide)
  | minus => exact absurd (SiUnit.second_char h.symm) (by decide)

theorem chars_injective : Function.Injective chars := by
  intro s s' h
  cases s with
  | unit u =>
    cases s' with
    | unit u' => exact congrArg unit (SiUnit.chars_injective h)
    | exponent letter sign digits hletter hdigits hne =>
      exact absurd h.symm (exponent_ne_unit hdigits hne)
  | exponent letter sign digits hletter hdigits hne =>
    cases s' with
    | unit u => exact absurd h (exponent_ne_unit hdigits hne)
    | exponent letter' sign' digits' hletter' hdigits' hne' =>
      obtain ⟨rfl, htail⟩ := List.cons.inj h
      obtain ⟨rfl, rfl⟩ := Sign.chars_append_inj
        (fun c hc => not_sign_of_isDigit (hdigits c (List.mem_of_mem_head? hc)))
        (fun c hc => not_sign_of_isDigit (hdigits' c (List.mem_of_mem_head? hc))) htail
      rfl

end Suffix

namespace Decimal

theorem head?_unsigned {d : Decimal} {c : Char} (h : c ∈ d.unsigned.head?) :
    c.isDigit = true ∨ c = '.' := by
  unfold unsigned at h
  cases hw : d.whole with
  | nil =>
    rcases d.some_digit with hne | ⟨f, hf, -⟩
    · exact absurd hw hne
    · rw [hw, Option.mem_def.mp hf] at h
      exact .inr (by simpa [point] using h.symm)
  | cons e l =>
    rw [hw] at h
    obtain rfl : e = c := by simpa using h
    exact .inl (d.whole_digits e (by simp [hw]))

theorem unsigned_ne_nil (d : Decimal) : d.unsigned ≠ [] := by
  intro h
  obtain ⟨hwhole, hpoint⟩ := List.append_eq_nil_iff.mp h
  rcases d.some_digit with hne | ⟨f, hf, -⟩
  · exact hne hwhole
  · simp [Option.mem_def.mp hf, point] at hpoint

theorem point_append_inj {o o' : Option (List Char)} {x x' : List Char}
    (ho : ∀ f ∈ o, ∀ c ∈ f, c.isDigit = true) (ho' : ∀ f ∈ o', ∀ c ∈ f, c.isDigit = true)
    (hx : ∀ c ∈ x.head?, c.isDigit = false ∧ c ≠ '.')
    (hx' : ∀ c ∈ x'.head?, c.isDigit = false ∧ c ≠ '.') (h : point o ++ x = point o' ++ x') :
    o = o' ∧ x = x' := by
  cases o with
  | none =>
    cases o' with
    | none => exact ⟨rfl, h⟩
    | some f' => exact absurd rfl (hx '.' (by rw [show x = _ from h]; rfl)).2
  | some f =>
    cases o' with
    | none => exact absurd rfl (hx' _ (by rw [← show _ = x' from h]; rfl)).2
    | some f' =>
      obtain ⟨rfl, rfl⟩ := run_append_inj (ho f rfl) (ho' f' rfl) (fun c hc => (hx c hc).1)
        (fun c hc => (hx' c hc).1) (List.cons.inj h).2
      exact ⟨rfl, rfl⟩

theorem head?_point_append {o : Option (List Char)} {x : List Char}
    (hx : ∀ c ∈ x.head?, c.isDigit = false ∧ c ≠ '.') :
    ∀ c ∈ (point o ++ x).head?, c.isDigit = false := by
  cases o with
  | none => exact fun c hc => (hx c hc).1
  | some f =>
    intro c hc
    obtain rfl : '.' = c := by simpa [point] using hc
    decide

theorem head?_unsigned_append (d : Decimal) (x : List Char) :
    ∀ c ∈ (d.unsigned ++ x).head?, c ≠ '+' ∧ c ≠ '-' := by
  intro c hc
  rw [List.head?_append_of_ne_nil _ d.unsigned_ne_nil] at hc
  rcases head?_unsigned hc with hdigit | rfl
  · exact not_sign_of_isDigit hdigit
  · decide

theorem chars_append_inj {d d' : Decimal} {x x' : List Char}
    (hx : ∀ c ∈ x.head?, c.isDigit = false ∧ c ≠ '.')
    (hx' : ∀ c ∈ x'.head?, c.isDigit = false ∧ c ≠ '.') (h : d.chars ++ x = d'.chars ++ x') :
    d = d' ∧ x = x' := by
  have hsign : d.sign.chars ++ (d.unsigned ++ x) = d'.sign.chars ++ (d'.unsigned ++ x') := by
    simpa [chars] using h
  obtain ⟨hs, hrest⟩ := Sign.chars_append_inj (head?_unsigned_append d x)
    (head?_unsigned_append d' x') hsign
  have hwhole : d.whole ++ (point d.frac ++ x) = d'.whole ++ (point d'.frac ++ x') := by
    simpa [unsigned] using hrest
  obtain ⟨hw, hpoint⟩ := run_append_inj d.whole_digits d'.whole_digits (head?_point_append hx)
    (head?_point_append hx') hwhole
  obtain ⟨hf, hxx⟩ := point_append_inj d.frac_digits d'.frac_digits hx hx' hpoint
  exact ⟨Decimal.ext hs hw hf, hxx⟩

end Decimal

namespace Quantity

theorem text_injective : Function.Injective text := by
  intro q q' h
  have hchars : q.chars = q'.chars := String.ofList_injective h
  obtain ⟨hnumber, hsuffix⟩ := Decimal.chars_append_inj (fun _ => Suffix.head?_chars)
    (fun _ => Suffix.head?_chars) hchars
  obtain ⟨number, suffix⟩ := q
  obtain ⟨number', suffix'⟩ := q'
  obtain rfl : number = number' := hnumber
  exact congrArg (mk number) (Suffix.chars_injective hsuffix)

end Quantity

-- Whole numbers

theorem parseInt_sign {sign : Sign} {digits : List Char} (hdigits : ∀ c ∈ digits, c.isDigit = true)
    (hne : digits ≠ []) :
    parseInt (String.ofList (sign.chars ++ digits)) =
      some (sign.unit * Nat.ofDigitChars 10 digits 0) := by
  have hparse : parseDigits digits = some (Nat.ofDigitChars 10 digits 0) := by
    simp [parseDigits, hne, List.all_eq_true.mpr hdigits]
  cases sign with
  | plus => simp [parseInt, Sign.chars, Sign.unit, hparse]
  | minus => simp [parseInt, Sign.chars, Sign.unit, hparse]
  | absent =>
    obtain ⟨c, l, rfl⟩ := List.exists_cons_of_ne_nil hne
    obtain ⟨hplus, hminus⟩ := not_sign_of_isDigit (hdigits c List.mem_cons_self)
    simp only [parseInt, Sign.chars, Sign.unit, List.nil_append, String.toList_ofList]
    split
    · next digits h => exact absurd (List.cons.inj h).1 hplus
    · next digits h => exact absurd (List.cons.inj h).1 hminus
    · simp [hparse]

theorem parseDigits_eq_none {digits : List Char} {c : Char} (hc : c ∈ digits)
    (hdigit : c.isDigit = false) : parseDigits digits = none := by
  have hall : digits.all Char.isDigit = false :=
    List.all_eq_false.mpr ⟨c, hc, by simp [hdigit]⟩
  simp [parseDigits, hall]

theorem parseInt_eq_none {l : List Char} {c : Char} (hc : c ∈ l) (hdigit : c.isDigit = false)
    (hsign : c ≠ '+' ∧ c ≠ '-') : parseInt (String.ofList l) = none := by
  unfold parseInt
  rw [String.toList_ofList]
  split
  · next digits =>
    rw [parseDigits_eq_none (List.mem_of_ne_of_mem hsign.1 hc) hdigit]
    rfl
  · next digits =>
    rw [parseDigits_eq_none (List.mem_of_ne_of_mem hsign.2 hc) hdigit]
    rfl
  · rw [parseDigits_eq_none hc hdigit]
    rfl

namespace Decimal

theorem parseInt_chars (d : Decimal) :
    parseInt (String.ofList d.chars) = if d.frac.isNone then some d.count else none := by
  cases hf : d.frac with
  | none =>
    have hne : d.whole ≠ [] := by
      rcases d.some_digit with hne | ⟨f, hmem, -⟩
      · exact hne
      · simp [hf] at hmem
    simpa [chars, unsigned, point, hf, count] using parseInt_sign d.whole_digits hne
  | some f =>
    have hpoint : '.' ∈ d.chars := by simp [chars, unsigned, point, hf]
    simpa using parseInt_eq_none hpoint (by decide) (by decide)

theorem value_eq_count {d : Decimal} (h : d.frac.isNone) : d.value = d.count := by
  simp [value, count, fraction, Option.isNone_iff_eq_none.mp h]

theorem exists_last (d : Decimal) :
    ∃ init c, d.chars = init ++ [c] ∧ (c.isDigit = true ∨ c = '.') := by
  have hne : d.chars ≠ [] := fun h => d.unsigned_ne_nil (List.append_eq_nil_iff.mp h).2
  refine ⟨d.chars.dropLast, d.chars.getLast hne, (List.dropLast_append_getLast hne).symm, ?_⟩
  have hlast : d.chars.getLast hne = d.unsigned.getLast d.unsigned_ne_nil :=
    List.getLast_append_of_ne_nil hne d.unsigned_ne_nil
  rw [hlast]
  have hmem := List.getLast_mem d.unsigned_ne_nil
  rcases List.mem_append.mp hmem with hw | hp
  · exact .inl (d.whole_digits _ hw)
  · cases hf : d.frac with
    | none => simp [hf, point] at hp
    | some f =>
      rw [hf] at hp
      rcases List.mem_cons.mp hp with hpoint | hdigit
      · exact .inr hpoint
      · exact .inl (d.frac_digits f hf _ hdigit)

end Decimal

namespace Quantity

theorem roundUp_mono {x y : ℚ} (h : x ≤ y) : roundUp x ≤ roundUp y := by
  refine min_le_min ?_ le_rfl
  gcongr

theorem roundUp_nonneg {x : ℚ} (h : 0 ≤ x) : 0 ≤ roundUp x :=
  le_min (by positivity) (by norm_num [largest])

theorem kept_mono : Monotone kept := by
  intro x y h
  unfold kept
  split
  case isTrue hx => rw [if_pos (hx.trans h)]; exact roundUp_mono h
  case isFalse hx =>
    split
    case isTrue hy =>
      calc -roundUp (-x) ≤ 0 := neg_nonpos.mpr (roundUp_nonneg (by linarith))
        _ ≤ roundUp y := roundUp_nonneg hy
    case isFalse hy => exact neg_le_neg (roundUp_mono (neg_le_neg h))

theorem kept_pos {x : ℚ} (h : 0 < x) : 0 < kept x := by
  rw [kept, if_pos h.le]
  exact lt_min (by positivity) (by norm_num [largest])

theorem kept_natCast (n : ℕ) : kept n = min (n : ℚ) largest := by
  have hceil : (⌈(n : ℚ) * 10 ^ 9⌉ : ℚ) = n * 10 ^ 9 := by
    have hcast : (n : ℚ) * 10 ^ 9 = ((n * 10 ^ 9 : ℤ) : ℚ) := by push_cast; rfl
    rw [hcast, Int.ceil_intCast]
  rw [kept, if_pos n.cast_nonneg, roundUp, hceil, mul_div_cancel_right₀ _ (by norm_num)]

theorem kept_zero : kept 0 = 0 := by
  norm_num [kept, roundUp, largest]

theorem kept_pos_iff {x : ℚ} : 0 < kept x ↔ 0 < x := by
  refine ⟨fun h => ?_, kept_pos⟩
  by_contra hx
  exact absurd (kept_zero ▸ kept_mono (not_lt.mp hx)) (not_le.mpr h)

end Quantity

end Kopiur.Lib
