import Mathlib.Data.List.Basic
import Mathlib.Tactic.Common

/-!
# A bounded map of stamped entries

The entries in the order a walk over the map finds them. An entry lives for
`ttl` from its stamp on; room for another one is made by dropping the entries
with the oldest stamps.
-/

namespace Kopiur.Lib

structure Stamped (α : Type) where
  value : α
  stamp : Nat
deriving DecidableEq

abbrev StampedCache (κ α : Type) := List (κ × Stamped α)

namespace StampedCache

variable {κ α : Type}

def fresh (ttl now : Nat) (e : κ × Stamped α) : Bool := now - e.2.stamp < ttl

def sweep (ttl now : Nat) (c : StampedCache κ α) : StampedCache κ α := c.filter (fresh ttl now)

/-- The first entry with the least stamp. -/
def oldest : StampedCache κ α → Option (κ × Stamped α)
  | [] => none
  | e :: rest =>
    match oldest rest with
    | some r => if r.2.stamp < e.2.stamp then some r else some e
    | none => some e

section keys

variable [DecidableEq κ]

def find (c : StampedCache κ α) (key : κ) : Option (Stamped α) := c.lookup key

def remove (c : StampedCache κ α) (key : κ) : StampedCache κ α := c.filter fun e => e.1 ≠ key

def insert (c : StampedCache κ α) (key : κ) (value : α) (now : Nat) : StampedCache κ α :=
  c.remove key ++ [(key, ⟨value, now⟩)]

/-- The loop that drops entries until there are fewer than `size`. -/
def dropOldest (size : Nat) : Nat → StampedCache κ α → StampedCache κ α
  | 0, c => c
  | fuel + 1, c =>
    if size ≤ c.length then
      match oldest c with
      | some victim => dropOldest size fuel (c.remove victim.1)
      | none => c
    else c

def makeRoom (size : Nat) (c : StampedCache κ α) : StampedCache κ α := dropOldest size c.length c

end keys

theorem mem_of_mem_sweep {ttl now : Nat} {c : StampedCache κ α} {e : κ × Stamped α}
    (h : e ∈ c.sweep ttl now) : e ∈ c :=
  (List.mem_filter.mp h).1

theorem length_sweep_le (ttl now : Nat) (c : StampedCache κ α) :
    (c.sweep ttl now).length ≤ c.length :=
  List.length_filter_le ..

theorem mem_of_oldest {c : StampedCache κ α} {e : κ × Stamped α} (h : oldest c = some e) :
    e ∈ c := by
  induction c generalizing e with
  | nil => cases h
  | cons a rest ih =>
    unfold oldest at h
    cases hr : oldest rest with
    | none =>
      rw [hr] at h
      obtain rfl := Option.some.inj h
      exact List.mem_cons_self
    | some r =>
      simp only [hr] at h
      split at h
      · obtain rfl := Option.some.inj h
        exact List.mem_cons_of_mem _ (ih hr)
      · obtain rfl := Option.some.inj h
        exact List.mem_cons_self

section keys

variable [DecidableEq κ]

variable {c : StampedCache κ α}

theorem mem_of_mem_remove {key : κ} {e : κ × Stamped α} (h : e ∈ c.remove key) : e ∈ c :=
  (List.mem_filter.mp h).1

theorem length_remove_le (c : StampedCache κ α) (key : κ) : (c.remove key).length ≤ c.length :=
  List.length_filter_le ..

theorem length_remove_lt {e : κ × Stamped α} (h : e ∈ c) :
    (c.remove e.1).length < c.length := by
  unfold remove
  rw [List.length_filter_lt_length_iff_exists]
  exact ⟨e, h, by simp⟩

theorem mem_insert {key : κ} {value : α} {now : Nat} {e : κ × Stamped α}
    (h : e ∈ c.insert key value now) : e ∈ c ∨ e = (key, ⟨value, now⟩) := by
  rcases List.mem_append.mp h with h | h
  · exact .inl (mem_of_mem_remove h)
  · exact .inr (List.mem_singleton.mp h)

theorem length_insert_le (c : StampedCache κ α) (key : κ) (value : α) (now : Nat) :
    (c.insert key value now).length ≤ c.length + 1 := by
  have := c.length_remove_le key
  simp only [insert, List.length_append, List.length_singleton]
  omega

theorem mem_of_mem_dropOldest {size fuel : Nat} {e : κ × Stamped α}
    (h : e ∈ dropOldest size fuel c) : e ∈ c := by
  induction fuel generalizing c with
  | zero => exact h
  | succ fuel ih =>
    unfold dropOldest at h
    split at h
    · split at h
      · exact mem_of_mem_remove (ih h)
      · exact h
    · exact h

theorem mem_of_mem_makeRoom {size : Nat} {e : κ × Stamped α} (h : e ∈ c.makeRoom size) : e ∈ c :=
  mem_of_mem_dropOldest h

theorem length_dropOldest_lt {size fuel : Nat} (hsize : 0 < size) (hfuel : c.length ≤ fuel) :
    (dropOldest size fuel c).length < size := by
  induction fuel generalizing c with
  | zero =>
    have : c.length = 0 := Nat.le_zero.mp hfuel
    simpa [dropOldest, this] using hsize
  | succ fuel ih =>
    unfold dropOldest
    split
    · cases ho : oldest c with
      | some victim =>
        have := length_remove_lt (mem_of_oldest ho)
        exact ih (by omega)
      | none =>
        have hnil : c = [] := by
          cases c with
          | nil => rfl
          | cons e rest =>
            unfold oldest at ho
            revert ho
            cases oldest rest with
            | none => simp
            | some r => dsimp only; split <;> simp
        simpa [hnil] using hsize
    · omega

theorem length_makeRoom_lt {size : Nat} (hsize : 0 < size) (c : StampedCache κ α) :
    (c.makeRoom size).length < size :=
  length_dropOldest_lt hsize (Nat.le_refl _)

theorem mem_of_find {key : κ} {s : Stamped α} (h : c.find key = some s) :
    (key, s) ∈ c := by
  obtain ⟨l₁, l₂, rfl, -⟩ := List.lookup_eq_some_iff.mp h
  exact List.mem_append_right _ List.mem_cons_self

end keys

end StampedCache

end Kopiur.Lib
