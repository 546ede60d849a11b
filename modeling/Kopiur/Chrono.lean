import Mathlib.Tactic.Linarith
import Kopiur.Time

/-!
# The bounds of the calendar library

An instant of the library lies between the first day of one year and the last of
another, and a span is a signed 64-bit count of milliseconds. `+` and
`Duration::days` panic beyond these bounds, which `none` stands for here; the
other operations answer.
-/

namespace Kopiur

def i64Min : Int := -2 ^ 63

def checkedAdd (a b : Int) : Option Int :=
  if i64Min ≤ a + b ∧ a + b < 2 ^ 63 then some (a + b) else none

def saturatingAdd (a b : Int) : Int := max i64Min (min (2 ^ 63 - 1) (a + b))

def i64Limit : Nat := 2 ^ 63

def tryFromU64 (n : Nat) : Option Int := if n < i64Limit then some n else none

namespace DateTime

def startOfYear (year : Int) : DateTime :=
  fromTimestamp (daysFromCivil { year, month := 1, day := 1 } * 86400)

def Representable (t : DateTime) : Prop := startOfYear (-262143) ≤ t ∧ t < startOfYear 262143

instance (t : DateTime) : Decidable (Representable t) := inferInstanceAs (Decidable (_ ∧ _))

def FourDigitYear (t : DateTime) : Prop := startOfYear 0 ≤ t ∧ t < startOfYear 10000

instance (t : DateTime) : Decidable (FourDigitYear t) := inferInstanceAs (Decidable (_ ∧ _))

def Modern (t : DateTime) : Prop := startOfYear 1970 ≤ t ∧ t < startOfYear 10000

instance (t : DateTime) : Decidable (Modern t) := inferInstanceAs (Decidable (_ ∧ _))

/-- `DateTime::from_timestamp` of whole seconds. -/
def fromTimestampOpt (secs : Int) : Option DateTime :=
  if Representable (fromTimestamp secs) then some (fromTimestamp secs) else none

/-- `+`, with `none` where it panics. -/
def addOrPanic (t : DateTime) (d : Duration) : Option DateTime :=
  if Representable (t + d) then some (t + d) else none

theorem startOfYear_first : startOfYear (-262143) = fromTimestamp (-8334601228800) := by decide

theorem startOfYear_last : startOfYear 262143 = fromTimestamp 8210266876800 := by decide

theorem startOfYear_modern : startOfYear 1970 = 0 := by decide

theorem startOfYear_zero : startOfYear 0 = fromTimestamp (-62167219200) := by decide

theorem startOfYear_ten_thousand : startOfYear 10000 = fromTimestamp 253402300800 := by decide

theorem representable_iff {t : Int} :
    Representable t ↔ -8334601228800000000000 ≤ t ∧ t < 8210266876800000000000 := by
  rw [Representable, startOfYear_first, startOfYear_last]
  rfl

theorem fourDigitYear_iff {t : Int} :
    FourDigitYear t ↔ -62167219200000000000 ≤ t ∧ t < 253402300800000000000 := by
  rw [FourDigitYear, startOfYear_zero, startOfYear_ten_thousand]
  rfl

theorem modern_iff {t : Int} : Modern t ↔ 0 ≤ t ∧ t < 253402300800000000000 := by
  rw [Modern, startOfYear_modern, startOfYear_ten_thousand]
  rfl

theorem FourDigitYear.representable {t : DateTime} (h : FourDigitYear t) : Representable t := by
  rw [fourDigitYear_iff] at h
  rw [representable_iff]
  omega

end DateTime

namespace Duration

def maxSecs : Int := 9223372036854775

/-- `Duration::from_std` of whole seconds. -/
def fromStd (secs : Nat) : Option Duration :=
  if (secs : Int) ≤ maxSecs then some (seconds secs) else none

/-- `Duration::days`, with `none` where it panics. -/
def daysOrPanic (n : Int) : Option Duration :=
  if -maxSecs ≤ n * 86400 ∧ n * 86400 ≤ maxSecs then some (seconds (n * 86400)) else none

end Duration

end Kopiur
