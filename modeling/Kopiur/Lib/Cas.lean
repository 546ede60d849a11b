import Mathlib.Tactic.Common

/-!
# A cell written by compare-and-swap

One object of a linearizable store. Every write gives it a version that was
never used before, and a replacement names the version it replaces. So of all
the requests on their way at most the first to arrive is accepted.
-/

namespace Kopiur.Lib

variable {α : Type}

structure Versioned (α : Type) where
  version : Nat
  value : α
deriving DecidableEq

inductive CasWrite (α : Type)
  | create (value : α)
  | replace (version : Nat) (value : α)
deriving DecidableEq

namespace CasWrite

def value : CasWrite α → α
  | create value | replace _ value => value

def Issued (next : Nat) : CasWrite α → Prop
  | create _ => True
  | replace version _ => version < next

theorem Issued.mono {next next' : Nat} {w : CasWrite α} (h : w.Issued next) (hle : next ≤ next') :
    w.Issued next' := by
  cases w with
  | create value => trivial
  | replace version value => exact Nat.lt_of_lt_of_le h hle

end CasWrite

structure CasCell (α : Type) where
  current : Option (Versioned α)
  next : Nat
  unused : ∀ v, current = some v → v.version < next

namespace CasCell

variable {c : CasCell α} {w w' : CasWrite α}

def accepts (c : CasCell α) : CasWrite α → Bool
  | .create _ => c.current.isNone
  | .replace version _ => c.current.any fun v => decide (v.version = version)

def put (c : CasCell α) (value : α) : CasCell α where
  current := some ⟨c.next, value⟩
  next := c.next + 1
  unused := by
    rintro v ⟨⟩
    exact Nat.lt_succ_self _

def delete (c : CasCell α) : CasCell α where
  current := none
  next := c.next
  unused := by rintro v ⟨⟩

theorem accepts_replace {version : Nat} {value : α} :
    c.accepts (.replace version value) = true ↔
      ∃ v, c.current = some v ∧ v.version = version := by
  cases hc : c.current <;> simp [accepts, hc]

theorem accepts_create {value : α} : c.accepts (.create value) = true ↔ c.current = none := by
  simp [accepts]

theorem not_accepts_put {value : α} (h : w.Issued c.next) : (c.put value).accepts w = false := by
  cases w with
  | create value => rfl
  | replace version value' =>
    have hlt : version < c.next := h
    simpa [accepts, put] using Nat.ne_of_gt hlt

end CasCell

end Kopiur.Lib
