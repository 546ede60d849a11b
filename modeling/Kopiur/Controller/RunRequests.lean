import Kopiur.Api.IdentityResolution

/-!
# Requested runs

A run is requested by an annotation with a time. The request is remembered by
the text of the annotation, its Job is named by the second the text stands for.
-/

namespace Kopiur

open Lib

def slotJobNameMax : Nat := 52

/-- `<cr>-<token>-<second>`, with the hash of a long `<cr>`. -/
def slotJobName (cr token : String) (at' : DateTime) : String :=
  let suffix := "-" ++ token ++ "-" ++ at'.timestamp.repr
  let budget := slotJobNameMax - suffix.utf8ByteSize
  if cr.utf8ByteSize ≤ budget then cr ++ suffix
  else
    let hash := shortHash cr
    let keep := budget - (hash.utf8ByteSize + 1)
    String.ofList (cr.toList.take keep) ++ "-" ++ hash ++ suffix

inductive MaintenanceMode
  | quick
  | full
deriving DecidableEq

def maintenanceJobName (cr : String) (mode : MaintenanceMode) (slot : DateTime) : String :=
  slotJobName cr (match mode with | .quick => "q" | .full => "f") slot

def manualJobName (cr : String) (mode : MaintenanceMode) (requested : DateTime) : String :=
  slotJobName cr (match mode with | .quick => "mq" | .full => "mf") requested

def snapshotReplicationJobName (cr : String) (slot : DateTime) : String :=
  slotJobName cr "srepl" slot

def manualReplicationJobName (cr : String) (requested : DateTime) : String :=
  slotJobName cr "msrepl" requested

theorem slotJobName_inj {cr token token' : String} {a b : DateTime} (ht : '-' ∉ token.toList)
    (ht' : '-' ∉ token'.toList) (hne : token.toList ≠ []) (hne' : token'.toList ≠ [])
    (h : slotJobName cr token a = slotJobName cr token' b) :
    token = token' ∧ a.timestamp = b.timestamp := by
  have hshape : ∀ (t : String) (x : DateTime), ∃ l, (slotJobName cr t x).toList =
      (l ++ '-' :: t.toList) ++ '-' :: x.timestamp.repr.toList := by
    intro t x
    obtain ⟨head, hhead⟩ : ∃ head : String,
        slotJobName cr t x = head ++ ("-" ++ t ++ "-" ++ x.timestamp.repr) := by
      unfold slotJobName
      dsimp only
      split
      · exact ⟨_, rfl⟩
      · exact ⟨_, rfl⟩
    exact ⟨head.toList, by simp [hhead]⟩
  have hlast : ∀ (l : List Char) (t : String), '-' ∉ t.toList → t.toList ≠ [] →
      (l ++ '-' :: t.toList).getLast? ≠ some '-' := by
    intro l t hdash hnil heq
    rw [List.getLast?_append_of_ne_nil _ (by simp), List.getLast?_cons] at heq
    obtain ⟨c, hc⟩ := Option.ne_none_iff_exists'.mp (mt List.getLast?_eq_none_iff.mp hnil)
    rw [hc] at heq
    obtain rfl : c = '-' := by simpa using heq
    exact hdash (List.mem_of_getLast? hc)
  obtain ⟨l, hl⟩ := hshape token a
  obtain ⟨l', hl'⟩ := hshape token' b
  have hlists := congrArg String.toList h
  rw [hl, hl'] at hlists
  obtain ⟨hfront, hsecond⟩ := append_dash_repr_inj (hlast l token ht hne) (hlast l' token' ht' hne')
    hlists
  obtain ⟨-, htoken⟩ := append_cons_inj_right ht ht' hfront
  exact ⟨String.toList_inj.mp htoken, hsecond⟩

section Names

variable {cr : String} {mode mode' : MaintenanceMode} {a b : DateTime}

theorem manualJobName_ne_cron : manualJobName cr mode a ≠ maintenanceJobName cr mode' b := by
  intro h
  cases mode <;> cases mode' <;>
    exact absurd (slotJobName_inj (by decide) (by decide) (by decide) (by decide) h).1 (by decide)

theorem manualReplicationJobName_ne_cron :
    manualReplicationJobName cr a ≠ snapshotReplicationJobName cr b := fun h =>
  absurd (slotJobName_inj (by decide) (by decide) (by decide) (by decide) h).1 (by decide)

end Names

def runRequestedAnnotation : String := "kopiur.home-operations.com/run-requested"

def runModeAnnotation : String := "kopiur.home-operations.com/run-mode"

structure RunAnnotations where
  requested : Option String := none
  mode : Option String := none
deriving DecidableEq

structure RunTimes extends Rfc3339 where
  problem : String → String

def parseRunRequestedAt (times : RunTimes) (requested : Option String) (runCommand : String) :
    Except String (Option DateTime) :=
  match requested with
  | none => .ok none
  | some raw =>
    match times.parse raw with
    | some t => .ok (some t)
    | none =>
      .error ("annotation " ++ runRequestedAnnotation ++ " must be an RFC3339 timestamp (got " ++
        debugStr raw ++ "): " ++ times.problem raw ++ ". Fix: re-annotate with e.g. " ++
        "$(date -u +%Y-%m-%dT%H:%M:%SZ), or use `" ++ runCommand ++ "`")

def MaintenanceMode.parse : String → Option MaintenanceMode
  | "quick" => some .quick
  | "full" => some .full
  | _ => none

/-- The request of a Maintenance: the instant and the kind of run. -/
def parseRunAnnotations (times : RunTimes) (annotations : RunAnnotations) :
    Except String (Option (DateTime × MaintenanceMode)) := do
  match ← parseRunRequestedAt times annotations.requested "kubectl kopiur maintenance run" with
  | none => .ok none
  | some requested =>
    match annotations.mode with
    | none => .ok (some (requested, .quick))
    | some raw =>
      match MaintenanceMode.parse raw with
      | some mode => .ok (some (requested, mode))
      | none =>
        .error ("annotation " ++ runModeAnnotation ++ " must be `quick` or `full` " ++
          "(got " ++ debugStr raw ++ "). Fix: re-annotate with a valid mode")

inductive ManualRunPhase
  | pending
  | running
  | succeeded
  | failed
  | unknown (label : String)
deriving DecidableEq

def ManualRunPhase.answersRequest : ManualRunPhase → Bool
  | .succeeded | .failed => true
  | .pending | .running | .unknown _ => false

def ManualRunPhase.impliesJobLaunched : ManualRunPhase → Bool
  | .running => true
  | .pending | .succeeded | .failed | .unknown _ => false

end Kopiur
