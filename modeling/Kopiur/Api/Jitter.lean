import Mathlib.Algebra.Group.Int.Defs
import Kopiur.Naming

/-!
# Cron fields and jitter

Durations of the custom resources, the deterministic offset inside a jitter
window, and the substitution of hashed cron fields.
-/

namespace Kopiur

def isWhitespace (c : Char) : Bool :=
  let n := c.toNat
  decide (9 ≤ n ∧ n ≤ 13) || n == 0x20 || n == 0x85 || n == 0xa0 || n == 0x1680 ||
    decide (0x2000 ≤ n ∧ n ≤ 0x200a) || n == 0x2028 || n == 0x2029 || n == 0x202f ||
    n == 0x205f || n == 0x3000

def splitWhitespace (s : String) : List String :=
  ((s.toList.splitOnP isWhitespace).filter fun l => !l.isEmpty).map String.ofList

def trim (s : String) : List Char := trimEndMatches isWhitespace (s.toList.dropWhile isWhitespace)

def u64Max : Nat := 2 ^ 64 - 1

/-- An unsigned decimal that fits 64 bits, with an optional plus sign. -/
def parseU64 (l : List Char) : Option Nat :=
  let digits := match l with
    | '+' :: rest => rest
    | _ => l
  if digits.isEmpty || !digits.all Char.isDigit then none
  else
    let n := Nat.ofDigitChars 10 digits 0
    if n ≤ u64Max then some n else none

/-- Seconds of a duration such as `30m`, `1h`, `90s` or a bare number. -/
def parseGoDuration (s : String) : Option Nat :=
  let l := trim s
  if l.isEmpty then none
  else
    let (num, mult) := match l.getLast? with
      | some 'h' => (l.dropLast, 3600)
      | some 'm' => (l.dropLast, 60)
      | some 's' => (l.dropLast, 1)
      | _ => (l, 1)
    (parseU64 (trim (String.ofList num))).bind fun n =>
      if n * mult ≤ u64Max then some (n * mult) else none

def leBytes (n : Int) : List Nat :=
  (List.range 8).map fun i => (n % 2 ^ 64).toNat / 256 ^ i % 256

def slotHash (seed : String) (slotStartUnix : Int) : Nat :=
  (leBytes slotStartUnix).foldl (fun h b => (h ^^^ b) * 0x100000001b3 % 2 ^ 64) (fnv1a seed)

def jitterOffset (seed : String) (slotStartUnix : Int) (maxSecs : Nat) : Nat :=
  if maxSecs = 0 then 0 else slotHash seed slotStartUnix % maxSecs

def rotateLeft64 (x k : Nat) : Nat := x * 2 ^ k % 2 ^ 64 + x / 2 ^ (64 - k)

def cronRanges : List (Nat × Nat) := [(0, 60), (0, 24), (1, 28), (1, 12), (0, 7)]

def substituteH (expr seed : String) : String :=
  let fields := splitWhitespace expr
  if fields.length ≠ 5 then expr
  else
    let base := slotHash seed 0
    let resolved := (fields.zip cronRanges).zipIdx.map fun ((f, lo, width), i) =>
      if f = "H" then toString (lo + rotateLeft64 base ((i + 1) * 7) % width) else f
    " ".intercalate resolved

end Kopiur
