import Kopiur.Mover.StreamBackup

/-!
# Feeding a restored file to a command

`kopia show` writes the object to its stdout, which is copied into the stdin of
a command in a workload pod. The restore succeeds only if both ends do. The
last part states for both directions what a success means.
-/

namespace Kopiur

open Lib

inductive ShipPhase
  | starting
  | shipping (hasStderr hasStatus : Bool)
  -- `show_to` has returned and the consumer's stdin is closed.
  | shipped (ok hasStatus : Bool)
  | returned (ok : Bool)
deriving DecidableEq

structure StreamRestore (α : Type) where
  exec : Exec α := {}
  -- From kopia's stdout to the consumer's stdin.
  pump : Pump α := {}
  -- How kopia exited, and whether its stderr was read to the end.
  exit : Option (Option Int) := none
  stderrRead : Option Bool := none
  -- What `show_to` returned.
  shown : Option Bool := none
  drained : Bool := false
  phase : ShipPhase := .starting
deriving DecidableEq

inductive RestoreEvent (α : Type)
  | consumer (e : ExecEvent α)
  | refuse
  | attach (hasStdin hasStderr hasStatus : Bool)
  | emit (n : Nat)
  | closeStdout
  | kopiaExit (code : Option Int)
  | kopiaStderr (ok : Bool)
  | copy (e : PumpEvent)
  | show
  | showTimeout
  | drained
  | joined
  | shipTimeout
  | verdict
  | statusTimeout
deriving DecidableEq

namespace StreamRestore

variable {α : Type}

def showResult (copied : Except Unit Nat) (stderrRead : Bool) (code : Option Int) : Bool :=
  match copied with
  | .error () => false
  | .ok _ => stderrRead && code == some 0

def consumerStep (x : Exec α) (e : ExecEvent α) : Option (Exec α) :=
  match e with
  | .print _ => none
  | e => (x.step {} e).map Prod.fst

/-- `restore_into_pod`, with everything that happens beside it. -/
def step (object : List α) (w : StreamRestore α) : RestoreEvent α → Option (StreamRestore α)
  | .consumer e => (consumerStep w.exec e).map fun exec => { w with exec }
  | .refuse => if w.phase = .starting then some { w with phase := .returned false } else none
  | .attach hasStdin hasStderr hasStatus =>
    if w.phase = .starting then
      some { w with phase := if hasStdin then .shipping hasStderr hasStatus else .returned false }
    else none
  | .emit n =>
    if w.exit.isNone && !w.pump.ended then
      some { w with pump := w.pump.arrive ((object.drop w.pump.input.length).take n) }
    else none
  | .closeStdout => some { w with pump := w.pump.close }
  | .kopiaExit code =>
    -- `kopia show` exits with zero only after the whole object.
    if w.exit.isNone && (code != some 0 || w.pump.input.length == object.length) then
      some { w with exit := some code, pump := w.pump.close }
    else none
  | .kopiaStderr ok =>
    if w.stderrRead.isNone then some { w with stderrRead := some ok } else none
  | .copy e =>
    match w.phase with
    | .shipping _ _ =>
      -- The client closes the consumer's stdin with the session.
      match e, w.exec.closed with
      | .write _, true => none
      | _, _ => (w.pump.step e).map fun pump => { w with pump }
    | _ => none
  | .show =>
    match w.shown, w.pump.result, w.stderrRead, w.exit with
    | none, some copied, some stderrRead, some code =>
      some { w with shown := some (showResult copied stderrRead code) }
    | _, _, _, _ => none
  | .showTimeout => if w.shown.isNone then some { w with shown := some false } else none
  | .drained =>
    if w.exec.closed && w.exec.diagnostics.isEmpty then some { w with drained := true } else none
  | .joined =>
    match w.phase, w.shown with
    | .shipping hasStderr hasStatus, some shown =>
      if w.drained || !hasStderr then some { w with phase := .shipped shown hasStatus } else none
    | _, _ => none
  | .shipTimeout =>
    match w.phase with
    | .shipping _ _ => some { w with phase := .returned false }
    | _ => none
  | .verdict =>
    match w.phase with
    | .shipped ok hasStatus =>
      (if hasStatus then w.exec.verdict else some .noStatus).map fun verdict =>
        { w with phase := .returned (ok && verdict == .success) }
    | _ => none
  | .statusTimeout =>
    match w.phase with
    | .shipped _ _ => some { w with phase := .returned false }
    | _ => none

theorem consumerStep_keeps {x x' : Exec α} {e : ExecEvent α} (hstep : consumerStep x e = some x')
    (hx : ∀ s, x.reported = some s → x.closed = true) :
    (∀ s, x'.reported = some s → x'.closed = true) ∧ (x.Succeeded → x'.Succeeded) := by
  cases e with
  | print chunk => cases hstep
  | printErr | exit | deliver | readErr =>
    simp only [consumerStep, Exec.step] at hstep
    all_goals first | split at hstep | skip
    all_goals cases hstep
    all_goals exact ⟨hx, fun h => h⟩
  | deliverStatus =>
    simp only [consumerStep, Exec.step] at hstep
    split at hstep
    case h_1 hopen _ _ =>
      cases hstep
      refine ⟨fun _ _ => rfl, ?_⟩
      rintro ⟨s, hs, -⟩
      have hclosed := hx s hs
      rw [hopen] at hclosed
      cases hclosed
    case h_2 => cases hstep
  | drop =>
    simp only [consumerStep, Exec.step] at hstep
    split at hstep
    case isTrue => cases hstep
    case isFalse =>
      cases hstep
      exact ⟨fun _ _ => rfl, fun h => h⟩

structure Inv (object : List α) (w : StreamRestore α) : Prop where
  kept : w.pump.Kept
  emitted : w.pump.input <+: object
  whole : w.exit = some (some 0) → w.pump.input = object
  shown : w.shown = some true → w.exit = some (some 0) ∧ ∃ n, w.pump.result = some (.ok n)
  settled : ∀ s, w.exec.reported = some s → w.exec.closed = true
  shipped : ∀ hasStatus, w.phase = .shipped true hasStatus → w.shown = some true
  returned : w.phase = .returned true → w.shown = some true ∧ w.exec.Succeeded

variable {object : List α}

theorem Inv.init : Inv object ({} : StreamRestore α) where
  kept := Pump.Kept.init
  emitted := List.nil_prefix
  whole := nofun
  shown := nofun
  settled := nofun
  shipped := nofun
  returned := nofun

theorem Inv.goto {w : StreamRestore α} (h : Inv object w) {phase : ShipPhase}
    (hshipped : ∀ hasStatus, phase = .shipped true hasStatus → w.shown = some true)
    (hreturned : phase = .returned true → w.shown = some true ∧ w.exec.Succeeded) :
    Inv object { w with phase } :=
  ⟨h.kept, h.emitted, h.whole, h.shown, h.settled, hshipped, hreturned⟩

theorem Inv.fails {w : StreamRestore α} (h : Inv object w) :
    Inv object { w with phase := .returned false } :=
  h.goto nofun nofun

theorem showResult_eq_true {copied : Except Unit Nat} {stderrRead : Bool} {code : Option Int}
    (h : showResult copied stderrRead code = true) :
    (∃ n, copied = .ok n) ∧ code = some 0 := by
  cases copied with
  | error u => cases h
  | ok n =>
    simp only [showResult, Bool.and_eq_true, beq_iff_eq] at h
    exact ⟨⟨n, rfl⟩, h.2⟩

theorem Inv.copied {w : StreamRestore α} (h : Inv object w) (hs : w.shown = some true) :
    w.pump.running = false := by
  obtain ⟨-, n, hn⟩ := h.shown hs
  simp [Pump.running, hn]

theorem step_running {p p' : Pump α} {e : PumpEvent} (h : p.step e = some p') :
    p.running = true := by
  cases e with
  | finish =>
    have hguard := (Option.ite_none_right_eq_some.mp h).1
    simp only [Bool.and_eq_true] at hguard
    exact hguard.1.1.1
  | read | write | fail => exact (Option.ite_none_right_eq_some.mp h).1

-- One step

variable {w w' : StreamRestore α}

theorem Inv.step_consumer {e : ExecEvent α} (h : Inv object w)
    (hstep : w.step object (.consumer e) = some w') : Inv object w' := by
  obtain ⟨exec, he, rfl⟩ := Option.map_eq_some_iff.mp hstep
  obtain ⟨hsettled, hsucceeded⟩ := consumerStep_keeps he h.settled
  exact ⟨h.kept, h.emitted, h.whole, h.shown, hsettled, h.shipped, fun hr =>
    ⟨(h.returned hr).1, hsucceeded (h.returned hr).2⟩⟩

theorem Inv.step_attach {hasStdin hasStderr hasStatus : Bool} (h : Inv object w)
    (hstep : w.step object (.attach hasStdin hasStderr hasStatus) = some w') : Inv object w' := by
  obtain ⟨-, hw⟩ := Option.ite_none_right_eq_some.mp hstep
  cases hw
  cases hasStdin with
  | true => exact h.goto (fun _ hs => by cases hs) fun hr => by cases hr
  | false => exact h.fails

theorem Inv.step_emit {n : Nat} (h : Inv object w) (hstep : w.step object (.emit n) = some w') :
    Inv object w' := by
  obtain ⟨hguard, hw⟩ := Option.ite_none_right_eq_some.mp hstep
  cases hw
  simp only [Bool.and_eq_true, Bool.not_eq_true', Option.isNone_iff_eq_none] at hguard
  obtain ⟨hexit, hopen⟩ := hguard
  refine ⟨h.kept.arrive hopen _, ?_, fun h0 => ?_, fun hs => ?_, h.settled, h.shipped,
    h.returned⟩
  · obtain ⟨rest, hrest⟩ := h.emitted
    refine ⟨rest.drop n, ?_⟩
    simp [Pump.arrive, ← hrest, List.append_assoc]
  · rw [hexit] at h0; cases h0
  · have h0 := (h.shown hs).1
    rw [hexit] at h0; cases h0

theorem Inv.step_kopiaExit {code : Option Int} (h : Inv object w)
    (hstep : w.step object (.kopiaExit code) = some w') : Inv object w' := by
  obtain ⟨hguard, hw⟩ := Option.ite_none_right_eq_some.mp hstep
  cases hw
  simp only [Bool.and_eq_true, Option.isNone_iff_eq_none] at hguard
  obtain ⟨hexit, hcode⟩ := hguard
  refine ⟨h.kept.close, h.emitted, fun h0 => ?_, fun hs => ?_, h.settled, h.shipped, h.returned⟩
  · cases h0
    have hlen : w.pump.input.length = object.length := by simpa using hcode
    exact h.emitted.eq_of_length hlen
  · have h0 := (h.shown hs).1
    rw [hexit] at h0; cases h0

theorem Inv.step_copy {e : PumpEvent} (h : Inv object w)
    (hstep : w.step object (.copy e) = some w') : Inv object w' := by
  unfold StreamRestore.step at hstep
  dsimp only at hstep
  split at hstep
  case h_2 => cases hstep
  case h_1 =>
    split at hstep
    case h_1 => cases hstep
    case h_2 =>
      obtain ⟨pump, he, rfl⟩ := Option.map_eq_some_iff.mp hstep
      have hinput := (Pump.step_source he).1
      refine ⟨h.kept.step he, ?_, fun h0 => hinput.trans (h.whole h0), fun hs => ?_,
        h.settled, h.shipped, h.returned⟩
      · change pump.input <+: object
        rw [hinput]
        exact h.emitted
      · have hrun := step_running he
        rw [h.copied hs] at hrun
        cases hrun

theorem Inv.step_show (h : Inv object w) (hstep : w.step object .«show» = some w') :
    Inv object w' := by
  unfold StreamRestore.step at hstep
  dsimp only at hstep
  split at hstep
  case h_2 => cases hstep
  case h_1 copied stderrRead code hnone hcopied _ hcode =>
    cases hstep
    have hkeep : ∀ {P : Prop}, w.shown = some true → P := by
      intro P hs
      rw [hnone] at hs
      cases hs
    refine ⟨h.kept, h.emitted, h.whole, fun hs => ?_, h.settled,
      fun s hp => hkeep (h.shipped s hp), fun hp => hkeep (h.returned hp).1⟩
    obtain ⟨⟨n, hn⟩, h0⟩ := showResult_eq_true (Option.some.inj hs)
    exact ⟨hcode.trans (congrArg some h0), n, hcopied.trans (congrArg some hn)⟩

theorem Inv.step_showTimeout (h : Inv object w) (hstep : w.step object .showTimeout = some w') :
    Inv object w' := by
  obtain ⟨hnone, hw⟩ := Option.ite_none_right_eq_some.mp hstep
  cases hw
  have hkeep : ∀ {P : Prop}, w.shown = some true → P := by
    intro P hs
    rw [hs] at hnone
    cases hnone
  exact ⟨h.kept, h.emitted, h.whole, (fun hs => by cases hs), h.settled,
    fun s hp => hkeep (h.shipped s hp), fun hp => hkeep (h.returned hp).1⟩

theorem Inv.step_joined (h : Inv object w) (hstep : w.step object .joined = some w') :
    Inv object w' := by
  unfold StreamRestore.step at hstep
  dsimp only at hstep
  split at hstep
  case h_2 => cases hstep
  case h_1 hasStderr hasStatus shown _ hshown =>
    obtain ⟨-, hw⟩ := Option.ite_none_right_eq_some.mp hstep
    cases hw
    refine h.goto (fun s hs => ?_) fun hr => by cases hr
    cases hs
    exact hshown

theorem Inv.step_shipTimeout (h : Inv object w) (hstep : w.step object .shipTimeout = some w') :
    Inv object w' := by
  unfold StreamRestore.step at hstep
  dsimp only at hstep
  split at hstep
  case h_2 => cases hstep
  case h_1 =>
    cases hstep
    exact h.fails

theorem Inv.step_verdict (h : Inv object w) (hstep : w.step object .verdict = some w') :
    Inv object w' := by
  unfold StreamRestore.step at hstep
  dsimp only at hstep
  split at hstep
  case h_2 => cases hstep
  case h_1 ok hasStatus hp =>
    obtain ⟨verdict, hv, rfl⟩ := Option.map_eq_some_iff.mp hstep
    refine h.goto (fun _ hs => by cases hs) fun hr => ?_
    have hboth : ok = true ∧ verdict = .success := by simpa using hr
    obtain ⟨rfl, rfl⟩ := hboth
    refine ⟨h.shipped hasStatus hp, ?_⟩
    cases hasStatus with
    | true => exact Exec.succeeded_of_verdict hv
    | false => cases hv

theorem Inv.step_statusTimeout (h : Inv object w) (hstep : w.step object .statusTimeout = some w') :
    Inv object w' := by
  unfold StreamRestore.step at hstep
  dsimp only at hstep
  split at hstep
  case h_2 => cases hstep
  case h_1 =>
    cases hstep
    exact h.fails

theorem Inv.step {e : RestoreEvent α} (h : Inv object w) (hstep : w.step object e = some w') :
    Inv object w' := by
  cases e with
  | consumer e => exact h.step_consumer hstep
  | refuse =>
    obtain ⟨-, hw⟩ := Option.ite_none_right_eq_some.mp hstep
    cases hw
    exact h.fails
  | attach hasStdin hasStderr hasStatus => exact h.step_attach hstep
  | emit n => exact h.step_emit hstep
  | closeStdout =>
    cases hstep
    exact ⟨h.kept.close, h.emitted, h.whole, h.shown, h.settled, h.shipped, h.returned⟩
  | kopiaExit code => exact h.step_kopiaExit hstep
  | kopiaStderr ok =>
    obtain ⟨-, hw⟩ := Option.ite_none_right_eq_some.mp hstep
    cases hw
    exact ⟨h.kept, h.emitted, h.whole, h.shown, h.settled, h.shipped, h.returned⟩
  | copy e => exact h.step_copy hstep
  | «show» => exact h.step_show hstep
  | showTimeout => exact h.step_showTimeout hstep
  | drained =>
    obtain ⟨-, hw⟩ := Option.ite_none_right_eq_some.mp hstep
    cases hw
    exact ⟨h.kept, h.emitted, h.whole, h.shown, h.settled, h.shipped, h.returned⟩
  | joined => exact h.step_joined hstep
  | shipTimeout => exact h.step_shipTimeout hstep
  | verdict => exact h.step_verdict hstep
  | statusTimeout => exact h.step_statusTimeout hstep

theorem Inv.of_reaches {w : StreamRestore α} {ok : StreamRestore α → RestoreEvent α → Prop}
    (h : Reaches (StreamRestore.step object) ok {} w) : Inv object w :=
  h.invariant (Inv object) Inv.init fun _ _ _ hinv _ hstep => hinv.step hstep

end StreamRestore

/-- Kopia's stdin is closed either with the whole dump in it, from a producer
that wrote something and succeeded, or after kopia ended with its stdin open; a
manifest holds the whole dump. A restore succeeds only if kopia exited with
zero, the whole object was written to the consumer and the consumer succeeded. -/
theorem streamed_transfers_whole {α : Type} :
    (∀ w : StreamBackup α, Reaches StreamBackup.step (fun _ _ => True) {} w →
      (w.kopia.closed = some .committed → w.Whole) ∧
      (w.kopia.closed = some .dropped → w.StoppedOpen) ∧
      (∀ result, w.phase = .returned result → w.kopia.closed.isSome) ∧
      ∀ b, w.kopia.manifest = some b → b = w.exec.output ∧ w.Whole) ∧
    ∀ (object : List α) (w : StreamRestore α),
      Reaches (StreamRestore.step object) (fun _ _ => True) {} w →
      w.phase = .returned true →
      w.exit = some (some 0) ∧ w.pump.sink = object ∧ w.exec.Succeeded := by
  constructor
  · intro w hw
    have h := StreamBackup.Inv.of_reaches hw
    refine ⟨fun hc => (h.committed hc).1, h.dropped, fun result hr => ?_, fun b hb => ?_⟩
    · have hpipe := h.pipe
      rw [hr] at hpipe
      cases hc : w.kopia.closed with
      | none => rw [hc] at hpipe; cases hpipe
      | some reason => rfl
    · obtain ⟨hb', hc⟩ := h.manifest b hb
      have hwhole := (h.committed hc).1
      exact ⟨hb'.trans hwhole.1, hwhole⟩
  · intro object w hw hr
    have h := StreamRestore.Inv.of_reaches hw
    obtain ⟨hshown, hsucceeded⟩ := h.returned hr
    obtain ⟨h0, n, hn⟩ := h.shown hshown
    obtain ⟨-, hsink, -⟩ := h.kept.whole n hn
    exact ⟨h0, hsink.trans (h.whole h0), hsucceeded⟩

/-- A dump of two bytes, with its status before its copy has ended. -/
def wholeDump : List (BackupEvent Nat) :=
  [.attach true true true, .exec (.print [1]), .exec (.printErr [9]), .exec .deliver,
    .copy (.read 1), .exec (.print [2]), .exec (.exit { status := some "Success" }),
    .copy (.write 1), .exec .deliver, .exec (.readErr 1), .exec .deliver, .exec .deliverStatus,
    .drained, .copy (.read 1), .copy (.write 1), .copy .finish, .joined, .verdict, .close,
    .kopiaRead 2, .kopiaWrite, .kopiaExit (some 0), .reap]

def wholeRestore : List (RestoreEvent Nat) :=
  [.attach true true true, .emit 2, .copy (.read 2), .copy (.write 1), .copy (.write 1),
    .kopiaExit (some 0), .kopiaStderr true, .copy .finish, .show,
    .consumer (.exit { status := some "Success" }), .consumer .deliverStatus, .drained, .joined,
    .verdict]

theorem streamed_transfers_whole_two :
    (∃ w : StreamBackup Nat, w.kopia.manifest = some [1, 2] ∧ w.Whole) ∧
      ∃ w : StreamRestore Nat, w.pump.sink = [1, 2] ∧ w.exec.Succeeded := by
  obtain ⟨w, hw, hmanifest⟩ : ∃ w, Reaches StreamBackup.step (fun _ _ => True) {} w ∧
      w.kopia.manifest = some [1, 2] := exists_reaches wholeDump (by decide)
  obtain ⟨v, hv, hreturned⟩ : ∃ v, Reaches (StreamRestore.step [1, 2]) (fun _ _ => True) {} v ∧
      v.phase = .returned true := exists_reaches wholeRestore (by decide)
  obtain ⟨hbackups, hrestores⟩ := streamed_transfers_whole (α := Nat)
  obtain ⟨-, -, -, hwhole⟩ := hbackups w hw
  obtain ⟨-, hsink, hok⟩ := hrestores [1, 2] v hv hreturned
  exact ⟨⟨w, hmanifest, (hwhole _ hmanifest).2⟩, v, hsink, hok⟩

end Kopiur
