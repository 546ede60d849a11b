import Mathlib.Algebra.Group.Int.Defs
import Mathlib.Data.String.Basic

/-!
# JSON values and their readers

A value is what a reader makes of a text. Of the reader itself only two things
are used: white space after a text changes nothing, and once the object a text
holds is closed nothing but white space may follow.
-/

namespace Kopiur.Lib

inductive Json
  | null
  | bool (b : Bool)
  | int (n : Int)
  -- A number with a fraction or an exponent, or beyond the integers, as written.
  | float (text : String)
  | string (s : String)
  | array (items : List Json)
  | object (fields : List (String × Json))

mutual

def Json.beq : Json → Json → Bool
  | .null, .null => true
  | .bool a, .bool b => a == b
  | .int a, .int b => a == b
  | .float a, .float b => a == b
  | .string a, .string b => a == b
  | .array a, .array b => beqItems a b
  | .object a, .object b => beqFields a b
  | _, _ => false

def beqItems : List Json → List Json → Bool
  | [], [] => true
  | a :: as, b :: bs => a.beq b && beqItems as bs
  | _, _ => false

def beqFields : List (String × Json) → List (String × Json) → Bool
  | [], [] => true
  | (k, a) :: as, (l, b) :: bs => k == l && a.beq b && beqFields as bs
  | _, _ => false

end

mutual

theorem Json.beq_iff : ∀ a b : Json, a.beq b = true ↔ a = b
  | .null, b | .bool _, b | .int _, b | .float _, b | .string _, b => by
    cases b <;> simp [Json.beq]
  | .array as, b => by
    cases b <;> simp [Json.beq, beqItems_iff as]
  | .object as, b => by
    cases b <;> simp [Json.beq, beqFields_iff as]

theorem beqItems_iff : ∀ as bs : List Json, beqItems as bs = true ↔ as = bs
  | [], bs => by cases bs <;> simp [beqItems]
  | a :: as, bs => by cases bs <;> simp [beqItems, Json.beq_iff a, beqItems_iff as]

theorem beqFields_iff : ∀ as bs : List (String × Json), beqFields as bs = true ↔ as = bs
  | [], bs => by cases bs <;> simp [beqFields]
  | (k, a) :: as, bs => by
    cases bs with
    | nil => simp [beqFields]
    | cons e bs => simp [beqFields, Json.beq_iff a, beqFields_iff as, Prod.ext_iff, and_assoc]

end

instance : DecidableEq Json := fun a b => decidable_of_iff (a.beq b = true) (Json.beq_iff a b)

namespace Json

def get (key : String) : Json → Option Json
  | .object fields => fields.lookup key
  | _ => none

end Json

def FitsI64 (n : Int) : Prop := -2 ^ 63 ≤ n ∧ n < 2 ^ 63

instance (n : Int) : Decidable (FitsI64 n) := inferInstanceAs (Decidable (_ ∧ _))

def Json.asI64 : Json → Option Int
  | .int n => if FitsI64 n then some n else none
  | _ => none

theorem Json.fits_of_asI64 {value : Json} {n : Int} (h : value.asI64 = some n) : FitsI64 n := by
  cases value with
  | int m =>
    rw [Json.asI64] at h
    split at h
    next hfits => exact Option.some.inj h ▸ hfits
    next => cases h
  | _ => cases h

def isJsonSpace (c : Char) : Bool := c == ' ' || c == '\t' || c == '\n' || c == '\r'

/-- A reader, with its texts for what it could not read. -/
structure JsonReader where
  parse : String → Except String Json
  -- Why a value does not have the shape asked for.
  mismatch : Json → String

structure JsonReader.Lawful (reader : JsonReader) : Prop where
  padded : ∀ text space : String, (∀ c ∈ space.toList, isJsonSpace c = true) →
    (reader.parse (text ++ space)).toOption = (reader.parse text).toOption
  closed : ∀ (text rest : String) (fields : List (String × Json)) (value : Json),
    reader.parse text = .ok (.object fields) → reader.parse (text ++ rest) = .ok value →
      ∀ c ∈ rest.toList, isJsonSpace c = true

end Kopiur.Lib
