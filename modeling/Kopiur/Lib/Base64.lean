import Mathlib.Data.List.Basic

/-!
# Base64

The standard alphabet with padding. Decoding is strict: padding stands only in
the last group, and the bits it stands for are zero.
-/

namespace Kopiur.Lib.Base64

def symbol (n : Nat) : Char :=
  if n < 26 then Char.ofNat ('A'.toNat + n)
  else if n < 52 then Char.ofNat ('a'.toNat + (n - 26))
  else if n < 62 then Char.ofNat ('0'.toNat + (n - 52))
  else if n = 62 then '+'
  else '/'

def value (c : Char) : Option Nat :=
  if c.isUpper then some (c.toNat - 'A'.toNat)
  else if c.isLower then some (c.toNat - 'a'.toNat + 26)
  else if c.isDigit then some (c.toNat - '0'.toNat + 52)
  else if c = '+' then some 62
  else if c = '/' then some 63
  else none

@[simp] def encode : List Nat → List Char
  | [] => []
  | [a] => [symbol (a / 4), symbol (a % 4 * 16), '=', '=']
  | [a, b] => [symbol (a / 4), symbol (a % 4 * 16 + b / 16), symbol (b % 16 * 4), '=']
  | a :: b :: c :: rest =>
    symbol (a / 4) :: symbol (a % 4 * 16 + b / 16) :: symbol (b % 16 * 4 + c / 64) ::
      symbol (c % 64) :: encode rest

/-- A last group that ends in padding. -/
def decodePadded (w x y : Char) : Option (List Nat) := do
  let w ← value w
  let x ← value x
  if y = '=' then
    if x % 16 = 0 then some [w * 4 + x / 16] else none
  else
    let y ← value y
    if y % 4 = 0 then some [w * 4 + x / 16, x % 16 * 16 + y / 4] else none

def decode : List Char → Option (List Nat)
  | [] => some []
  | w :: x :: y :: z :: rest =>
    if rest.isEmpty && z == '=' then decodePadded w x y
    else do
      let w ← value w
      let x ← value x
      let y ← value y
      let z ← value z
      let bytes ← decode rest
      some ((w * 4 + x / 16) :: (x % 16 * 16 + y / 4) :: (y % 4 * 64 + z) :: bytes)
  | _ => none

theorem value_symbol : ∀ n < 64, value (symbol n) = some n := by decide

theorem symbol_ne_pad : ∀ n < 64, symbol n ≠ '=' := by decide

theorem decode_encode {bytes : List Nat} (h : ∀ b ∈ bytes, b < 256) :
    decode (encode bytes) = some bytes := by
  induction bytes using encode.induct with
  | case1 => rfl
  | case2 a =>
    have ha : a < 256 := h a (by simp)
    have hw := value_symbol (a / 4) (by omega)
    have hx := value_symbol (a % 4 * 16) (by omega)
    simp [encode, decode, decodePadded, hw, hx]
    omega
  | case3 a b =>
    have ha : a < 256 := h a (by simp)
    have hb : b < 256 := h b (by simp)
    have hw := value_symbol (a / 4) (by omega)
    have hx := value_symbol (a % 4 * 16 + b / 16) (by omega)
    have hy := value_symbol (b % 16 * 4) (by omega)
    have hpad := symbol_ne_pad (b % 16 * 4) (by omega)
    simp [encode, decode, decodePadded, hw, hx, hy, hpad]
    omega
  | case4 a b c rest ih =>
    have ha : a < 256 := h a (by simp)
    have hb : b < 256 := h b (by simp)
    have hc : c < 256 := h c (by simp)
    have hw := value_symbol (a / 4) (by omega)
    have hx := value_symbol (a % 4 * 16 + b / 16) (by omega)
    have hy := value_symbol (b % 16 * 4 + c / 64) (by omega)
    have hz := value_symbol (c % 64) (by omega)
    have hpad := symbol_ne_pad (c % 64) (by omega)
    have hrest := ih fun x hx => h x (by simp [hx])
    simp [encode, decode, hw, hx, hy, hz, hpad, hrest]
    omega

theorem length_encode (bytes : List Nat) : (encode bytes).length = (bytes.length + 2) / 3 * 4 := by
  induction bytes using encode.induct with
  | case1 => rfl
  | case2 a => simp [encode]
  | case3 a b => simp [encode]
  | case4 a b c rest ih =>
    simp only [encode, List.length_cons, ih]
    omega

theorem utf8Size_symbol : ∀ n < 64, (symbol n).utf8Size = 1 := by decide

theorem utf8Size_of_mem_encode {bytes : List Nat} (h : ∀ b ∈ bytes, b < 256) :
    ∀ c ∈ encode bytes, c.utf8Size = 1 := by
  induction bytes using encode.induct with
  | case1 => simp [encode]
  | case2 a =>
    have ha : a < 256 := h a (by simp)
    simp [encode, utf8Size_symbol (a / 4) (by omega), utf8Size_symbol (a % 4 * 16) (by omega)]
    decide
  | case3 a b =>
    have ha : a < 256 := h a (by simp)
    have hb : b < 256 := h b (by simp)
    simp [encode, utf8Size_symbol (a / 4) (by omega),
      utf8Size_symbol (a % 4 * 16 + b / 16) (by omega), utf8Size_symbol (b % 16 * 4) (by omega)]
    decide
  | case4 a b c rest ih =>
    have ha : a < 256 := h a (by simp)
    have hb : b < 256 := h b (by simp)
    have hc : c < 256 := h c (by simp)
    have hrest := ih fun x hx => h x (by simp [hx])
    simpa [encode, utf8Size_symbol (a / 4) (by omega),
      utf8Size_symbol (a % 4 * 16 + b / 16) (by omega),
      utf8Size_symbol (b % 16 * 4 + c / 64) (by omega), utf8Size_symbol (c % 64) (by omega)]
      using hrest

theorem mem_encode {bytes : List Nat} {c : Char} (h : c ∈ encode bytes) :
    (∃ n, c = symbol n) ∨ c = '=' := by
  induction bytes using encode.induct with
  | case1 => cases h
  | case2 a =>
    simp only [encode, List.mem_cons, List.not_mem_nil, or_false] at h
    rcases h with rfl | rfl | rfl | rfl
    · exact .inl ⟨_, rfl⟩
    · exact .inl ⟨_, rfl⟩
    · exact .inr rfl
    · exact .inr rfl
  | case3 a b =>
    simp only [encode, List.mem_cons, List.not_mem_nil, or_false] at h
    rcases h with rfl | rfl | rfl | rfl
    · exact .inl ⟨_, rfl⟩
    · exact .inl ⟨_, rfl⟩
    · exact .inl ⟨_, rfl⟩
    · exact .inr rfl
  | case4 a b c rest ih =>
    simp only [encode, List.mem_cons] at h
    rcases h with rfl | rfl | rfl | rfl | h
    · exact .inl ⟨_, rfl⟩
    · exact .inl ⟨_, rfl⟩
    · exact .inl ⟨_, rfl⟩
    · exact .inl ⟨_, rfl⟩
    · exact ih h

theorem symbol_ne {c : Char} (h : ∀ n < 64, symbol n ≠ c) (n : Nat) : symbol n ≠ c := by
  by_cases hn : n < 64
  · exact h n hn
  · have hlast : symbol n = symbol 63 := by
      simp [symbol, show ¬n < 26 by omega, show ¬n < 52 by omega, show ¬n < 62 by omega,
        show n ≠ 62 by omega]
    rw [hlast]
    exact h 63 (by decide)

end Kopiur.Lib.Base64
