import Mathlib.Data.List.Basic

/-!
# Copying one stream into another

A copy reads what has arrived at its source, holds it, and writes it to its
sink, in pieces of any size. It ends at the end of the source or with an error
of either side. Nothing is lost or reordered on the way, so a copy that ended
well wrote all that ever arrived.
-/

namespace Kopiur.Lib

variable {α : Type}

structure Pump (α : Type) where
  input : List α := []
  -- Arrived and not yet read.
  source : List α := []
  -- The source has ended.
  ended : Bool := false
  -- Read and not yet written.
  held : List α := []
  sink : List α := []
  -- How the copy ended: with the number of bytes, or with an error.
  result : Option (Except Unit Nat) := none
deriving DecidableEq

inductive PumpEvent
  | read (n : Nat)
  | write (n : Nat)
  | finish
  | fail
deriving DecidableEq

namespace Pump

def arrive (p : Pump α) (chunk : List α) : Pump α :=
  { p with input := p.input ++ chunk, source := p.source ++ chunk }

def close (p : Pump α) : Pump α := { p with ended := true }

def running (p : Pump α) : Bool := p.result.isNone

theorem ne_ok_of_running {p : Pump α} (h : p.running = true) {r : Except Unit Nat} :
    p.result ≠ some r := by
  intro hr
  simp [running, hr] at h

/-- What the copy does next, unless it has ended. -/
def step (p : Pump α) : PumpEvent → Option (Pump α)
  | .read n =>
    if p.running then
      some { p with source := p.source.drop n, held := p.held ++ p.source.take n }
    else none
  | .write n =>
    if p.running then
      some { p with held := p.held.drop n, sink := p.sink ++ p.held.take n }
    else none
  | .finish =>
    if p.running && p.source.isEmpty && p.ended && p.held.isEmpty then
      some { p with result := some (.ok p.sink.length) }
    else none
  | .fail => if p.running then some { p with result := some (.error ()) } else none

/-- Every byte that arrived is written, held or waiting, in this order, and a
copy that ended well has written them all. -/
structure Kept (p : Pump α) : Prop where
  order : p.sink ++ p.held ++ p.source = p.input
  whole : ∀ n, p.result = some (.ok n) → p.ended = true ∧ p.sink = p.input ∧ n = p.input.length

theorem Kept.init : ({} : Pump α).Kept := ⟨rfl, nofun⟩

theorem Kept.arrive {p : Pump α} (h : p.Kept) (hopen : p.ended = false) (chunk : List α) :
    (p.arrive chunk).Kept where
  order := by
    simp only [Pump.arrive, ← h.order, List.append_assoc]
  whole n hn := by
    have hended := (h.whole n hn).1
    rw [hopen] at hended
    cases hended

theorem Kept.close {p : Pump α} (h : p.Kept) : p.close.Kept :=
  ⟨h.order, fun n hn => ⟨rfl, (h.whole n hn).2⟩⟩

theorem Kept.step {p p' : Pump α} {e : PumpEvent} (h : p.Kept) (hstep : p.step e = some p') :
    p'.Kept := by
  cases e with
  | read n =>
    obtain ⟨hrun, hp⟩ := Option.ite_none_right_eq_some.mp hstep
    cases hp
    refine ⟨?_, fun k hk => absurd hk (ne_ok_of_running hrun)⟩
    rw [← h.order]
    simp [List.append_assoc]
  | write n =>
    obtain ⟨hrun, hp⟩ := Option.ite_none_right_eq_some.mp hstep
    cases hp
    refine ⟨?_, fun k hk => absurd hk (ne_ok_of_running hrun)⟩
    rw [← h.order]
    simp [List.append_assoc]
  | finish =>
    obtain ⟨hdone, hp⟩ := Option.ite_none_right_eq_some.mp hstep
    cases hp
    simp only [Bool.and_eq_true, List.isEmpty_iff] at hdone
    obtain ⟨⟨⟨-, hsource⟩, hended⟩, hheld⟩ := hdone
    have hsink : p.sink = p.input := by simpa [hsource, hheld] using h.order
    refine ⟨h.order, fun k hk => ⟨hended, hsink, ?_⟩⟩
    cases hk
    rw [hsink]
  | fail =>
    obtain ⟨-, hp⟩ := Option.ite_none_right_eq_some.mp hstep
    cases hp
    exact ⟨h.order, nofun⟩

theorem step_source {p p' : Pump α} {e : PumpEvent} (hstep : p.step e = some p') :
    p'.input = p.input ∧ p'.ended = p.ended := by
  cases e <;> obtain ⟨-, hp⟩ := Option.ite_none_right_eq_some.mp hstep <;> cases hp <;>
    exact ⟨rfl, rfl⟩

end Pump

end Kopiur.Lib
