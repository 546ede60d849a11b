import Kopiur.Lib.Pump

/-!
# An exec session in a workload pod

The command's stdout and stderr come over one connection, in order, and its
status is the last frame. A connection that drops ends the streams as cleanly
as a command that finished: only the status tells the two apart.
-/

namespace Kopiur

open Lib

structure ExecStatus where
  status : Option String := none
  message : Option String := none
deriving DecidableEq

inductive ExecVerdict
  | success
  | failed (detail : String)
  | noStatus
deriving DecidableEq

def verdictOf : Option ExecStatus → ExecVerdict
  | some s =>
    if s.status = some "Success" then .success else .failed (s.message.getD "non-zero exit")
  | none => .noStatus

inductive Frame (α : Type)
  | stdout (chunk : List α)
  | stderr (chunk : List α)
deriving DecidableEq

def Frame.out {α : Type} : Frame α → List α
  | .stdout chunk => chunk
  | .stderr _ => []

structure Exec (α : Type) where
  -- What the command wrote, and how it ended.
  output : List α := []
  exit : Option ExecStatus := none
  -- Sent and not yet received; the status follows the last of them.
  wire : List (Frame α) := []
  -- The client's end of the session is over.
  closed : Bool := false
  reported : Option ExecStatus := none
  -- Stderr that was received and not yet read.
  diagnostics : List α := []
deriving DecidableEq

inductive ExecEvent (α : Type)
  | print (chunk : List α)
  | printErr (chunk : List α)
  | exit (status : ExecStatus)
  | deliver
  | deliverStatus
  | drop
  | readErr (n : Nat)
deriving DecidableEq

namespace Exec

variable {α : Type}

/-- One event of the session, with the copy that reads its stdout. -/
def step (x : Exec α) (p : Pump α) : ExecEvent α → Option (Exec α × Pump α)
  | .print chunk =>
    if x.exit.isNone then
      some ({ x with output := x.output ++ chunk, wire := x.wire ++ [.stdout chunk] }, p)
    else none
  | .printErr chunk =>
    if x.exit.isNone then some ({ x with wire := x.wire ++ [.stderr chunk] }, p) else none
  | .exit status => if x.exit.isNone then some ({ x with exit := some status }, p) else none
  | .deliver =>
    match x.closed, x.wire with
    | false, .stdout chunk :: rest => some ({ x with wire := rest }, p.arrive chunk)
    | false, .stderr chunk :: rest =>
      some ({ x with wire := rest, diagnostics := x.diagnostics ++ chunk }, p)
    | _, _ => none
  | .deliverStatus =>
    match x.closed, x.wire, x.exit with
    | false, [], some status =>
      some ({ x with closed := true, reported := some status }, p.close)
    | _, _, _ => none
  | .drop => if x.closed then none else some ({ x with closed := true, wire := [] }, p.close)
  | .readErr n => some ({ x with diagnostics := x.diagnostics.drop n }, p)

def verdict (x : Exec α) : Option ExecVerdict :=
  if x.closed then some (verdictOf x.reported) else none

def Succeeded (x : Exec α) : Prop := ∃ s, x.reported = some s ∧ verdictOf (some s) = .success

theorem succeeded_of_verdict {x : Exec α} (h : x.verdict = some .success) : x.Succeeded := by
  unfold verdict at h
  split at h
  case isFalse => cases h
  case isTrue =>
    cases hr : x.reported with
    | none => simp [hr, verdictOf] at h
    | some s =>
      rw [hr] at h
      exact ⟨s, hr, Option.some.inj h⟩

/-- Nothing is lost before the connection is: what was sent has arrived or is
on its way, and a status is reported only after all of it arrived. -/
structure Ordered (x : Exec α) (p : Pump α) : Prop where
  closed : p.ended = x.closed
  sent : x.closed = false → p.input ++ x.wire.flatMap Frame.out = x.output
  reported : ∀ s, x.reported = some s →
    x.closed = true ∧ x.exit = some s ∧ p.input = x.output

theorem Ordered.init : ({} : Exec α).Ordered {} := ⟨rfl, fun _ => rfl, nofun⟩

theorem Ordered.of_source {x : Exec α} {p p' : Pump α} (h : x.Ordered p)
    (hinput : p'.input = p.input) (hended : p'.ended = p.ended) : x.Ordered p' where
  closed := hended.trans h.closed
  sent := by
    rw [hinput]
    exact h.sent
  reported := by
    rw [hinput]
    exact h.reported

theorem Ordered.step {x x' : Exec α} {p p' : Pump α} {e : ExecEvent α} (h : x.Ordered p)
    (hp : p.Kept) (hstep : x.step p e = some (x', p')) : x'.Ordered p' ∧ p'.Kept := by
  cases e with
  | print chunk =>
    obtain ⟨hexit, heq⟩ := Option.ite_none_right_eq_some.mp hstep
    cases heq
    refine ⟨⟨h.closed, fun hopen => ?_, fun s hs => ?_⟩, hp⟩
    · simp [← h.sent hopen, Frame.out, List.append_assoc]
    · have hended := (h.reported s hs).2.1
      rw [hended] at hexit
      cases hexit
  | printErr chunk =>
    obtain ⟨hexit, heq⟩ := Option.ite_none_right_eq_some.mp hstep
    cases heq
    refine ⟨⟨h.closed, fun hopen => ?_, h.reported⟩, hp⟩
    simp [← h.sent hopen, Frame.out]
  | exit status =>
    obtain ⟨hexit, heq⟩ := Option.ite_none_right_eq_some.mp hstep
    cases heq
    refine ⟨⟨h.closed, h.sent, fun s hs => ?_⟩, hp⟩
    have hended := (h.reported s hs).2.1
    rw [hended] at hexit
    cases hexit
  | deliver =>
    simp only [Exec.step] at hstep
    split at hstep
    case h_1 chunk rest hopen hwire =>
      cases hstep
      have hlive : p.ended = false := h.closed.trans hopen
      refine ⟨⟨h.closed, fun _ => ?_, fun s hs => ?_⟩, hp.arrive hlive chunk⟩
      · rw [← h.sent hopen, hwire]
        simp [Pump.arrive, Frame.out, List.append_assoc]
      · have hclosed := (h.reported s hs).1
        rw [hopen] at hclosed
        cases hclosed
    case h_2 chunk rest hopen hwire =>
      cases hstep
      refine ⟨⟨h.closed, fun _ => ?_, h.reported⟩, hp⟩
      rw [← h.sent hopen, hwire]
      simp [Frame.out]
    case h_3 => cases hstep
  | deliverStatus =>
    simp only [Exec.step] at hstep
    split at hstep
    case h_1 status hopen hwire hexit =>
      cases hstep
      refine ⟨⟨rfl, (fun hopen => by cases hopen), fun s hs => ?_⟩, hp.close⟩
      have hall : p.input = x.output := by simpa [hwire] using h.sent hopen
      exact ⟨rfl, hexit.trans hs, hall⟩
    case h_2 => cases hstep
  | drop =>
    simp only [Exec.step] at hstep
    split at hstep
    case isTrue => cases hstep
    case isFalse hopen =>
      cases hstep
      refine ⟨⟨rfl, (fun hopen => by cases hopen), fun s hs => ?_⟩, hp.close⟩
      exact absurd (h.reported s hs).1 hopen
  | readErr n =>
    cases hstep
    exact ⟨⟨h.closed, h.sent, h.reported⟩, hp⟩

theorem step_copy {x x' : Exec α} {p p' : Pump α} {e : ExecEvent α}
    (hstep : x.step p e = some (x', p')) : p'.sink = p.sink ∧ p'.result = p.result := by
  simp only [Exec.step] at hstep
  split at hstep
  all_goals first | split at hstep | skip
  all_goals cases hstep
  all_goals exact ⟨rfl, rfl⟩

theorem Ordered.settled {x x' : Exec α} {p p' : Pump α} {e : ExecEvent α} (h : x.Ordered p)
    {s : ExecStatus} (hs : x.reported = some s) (hstep : x.step p e = some (x', p')) :
    x'.output = x.output ∧ x'.reported = some s := by
  obtain ⟨hclosed, hexit, -⟩ := h.reported s hs
  cases e with
  | readErr n =>
    cases hstep
    exact ⟨rfl, hs⟩
  | print | printErr | exit | deliver | deliverStatus | drop =>
    simp [Exec.step, hclosed, hexit] at hstep

end Exec

end Kopiur
