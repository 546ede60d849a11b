import Kopiur.Api.Jitter
import Kopiur.Chrono

/-!
# The wait window of a restore

While no snapshot matches its source, a restore waits until its window closes.
The controller counts the seconds that remain, the mover reads the deadline it
was given. Both start at one anchor, and they disagree about a window that ends
beyond the calendar or in a year RFC 3339 cannot write.
-/

namespace Kopiur

open Lib DateTime

variable (rfc : Rfc3339)

def effectiveWaitAnchor (waitStartedAt : Option String) (createdEpoch : Int) : Int :=
  match waitStartedAt.bind rfc.parse with
  | some t => max createdEpoch t.timestamp
  | none => createdEpoch

def waitDeadline (anchorEpoch : Int) (waitTimeout : Option String) : Option DateTime := do
  let timeout ← waitTimeout.bind parseGoDuration
  let secs ← tryFromU64 timeout
  fromTimestampOpt (← checkedAdd anchorEpoch secs)

def waitDeadlineRfc3339 (anchorEpoch : Int) (waitTimeout : Option String) : Option String :=
  (waitDeadline anchorEpoch waitTimeout).map rfc.render

def waitRemainingSecs (anchorEpoch : Int) (waitTimeout : Option String) (nowEpoch : Int) :
    Option Nat := do
  let timeout ← waitTimeout.bind parseGoDuration
  let secs ← tryFromU64 timeout
  let deadline := saturatingAdd anchorEpoch secs
  if nowEpoch < deadline then some (deadline - nowEpoch).toNat else none

def moverDeadline (waitDeadline : Option String) : Option DateTime := waitDeadline.bind rfc.parse

def Rfc3339.ReadsFourDigitYears : Prop :=
  ∀ secs, Representable (fromTimestamp secs) →
    rfc.parse (rfc.render (fromTimestamp secs)) =
      if FourDigitYear (fromTimestamp secs) then some (fromTimestamp secs) else none

/-- The two sides agree on a window, and the mover has one where it is configured. -/
structure WaitAgreed (anchorEpoch : Int) (waitTimeout : String) (nowEpoch : Int) : Prop where
  remaining : (waitRemainingSecs anchorEpoch (some waitTimeout) nowEpoch).isSome = true ↔
    ∃ d, waitDeadline anchorEpoch (some waitTimeout) = some d ∧ fromTimestamp nowEpoch < d
  given : parseGoDuration waitTimeout ≠ some 0 →
    ∃ d, moverDeadline rfc (waitDeadlineRfc3339 rfc anchorEpoch (some waitTimeout)) = some d

/-- The window ends in a year of four digits; an empty one only has to end in
the calendar, if it has not ended yet. -/
def WindowFits (anchorEpoch : Int) (secs : Nat) (nowEpoch : Int) : Prop :=
  if secs = 0 then anchorEpoch ≤ nowEpoch ∨ Representable (fromTimestamp anchorEpoch)
  else secs < i64Limit ∧ FourDigitYear (fromTimestamp (anchorEpoch + secs))

theorem createdEpoch_le_effectiveWaitAnchor (waitStartedAt : Option String) (createdEpoch : Int) :
    createdEpoch ≤ effectiveWaitAnchor rfc waitStartedAt createdEpoch := by
  unfold effectiveWaitAnchor
  split
  · exact Int.le_max_left _ _
  · exact Int.le_refl _

section
variable {rfc}

theorem fromTimestamp_lt {a b : Int} : fromTimestamp a < fromTimestamp b ↔ a < b := by
  unfold fromTimestamp
  constructor <;> intro h
  · exact Int.lt_of_mul_lt_mul_right h (by decide)
  · exact Int.mul_lt_mul_of_pos_right h (by decide)

theorem checkedAdd_bind_fromTimestampOpt {a b : Int} :
    ((checkedAdd a b).bind fromTimestampOpt) = fromTimestampOpt (a + b) := by
  unfold checkedAdd
  split
  · rfl
  · next h =>
    have hrange : ¬ Representable (fromTimestamp (a + b)) := by
      intro hrep
      have hrep' := representable_iff.mp hrep
      simp only [fromTimestamp] at hrep'
      simp only [i64Min] at h
      omega
    simp [fromTimestampOpt, hrange]

theorem waitDeadline_eq {anchorEpoch : Int} {waitTimeout : String} {secs : Nat}
    (hparse : parseGoDuration waitTimeout = some secs) :
    waitDeadline anchorEpoch (some waitTimeout) =
      if secs < i64Limit then fromTimestampOpt (anchorEpoch + secs) else none := by
  have htext : (some waitTimeout).bind parseGoDuration = some secs := hparse
  unfold waitDeadline
  rw [htext]
  by_cases hsecs : secs < i64Limit
  · have hfrom : tryFromU64 secs = some (secs : Int) := if_pos hsecs
    simpa [hfrom, hsecs] using checkedAdd_bind_fromTimestampOpt
  · have hfrom : tryFromU64 secs = none := if_neg hsecs
    simp [hfrom, hsecs]

theorem waitRemainingSecs_isSome {anchorEpoch nowEpoch : Int} {waitTimeout : String} {secs : Nat}
    (hparse : parseGoDuration waitTimeout = some secs) :
    (waitRemainingSecs anchorEpoch (some waitTimeout) nowEpoch).isSome = true ↔
      secs < i64Limit ∧ nowEpoch < saturatingAdd anchorEpoch secs := by
  have htext : (some waitTimeout).bind parseGoDuration = some secs := hparse
  unfold waitRemainingSecs
  rw [htext]
  by_cases hsecs : secs < i64Limit
  · have hfrom : tryFromU64 secs = some (secs : Int) := if_pos hsecs
    by_cases hnow : nowEpoch < saturatingAdd anchorEpoch secs
    · simp [hfrom, hsecs, hnow]
    · simp [hfrom, hsecs, hnow]
  · have hfrom : tryFromU64 secs = none := if_neg hsecs
    simp [hfrom, hsecs]

theorem saturatingAdd_of_representable {a b : Int} (h : Representable (fromTimestamp (a + b))) :
    saturatingAdd a b = a + b := by
  have h' := representable_iff.mp h
  simp only [fromTimestamp] at h'
  simp only [saturatingAdd, i64Min]
  omega

theorem remaining_of_representable {anchorEpoch nowEpoch : Int} {waitTimeout : String} {secs : Nat}
    (hparse : parseGoDuration waitTimeout = some secs) (hsecs : secs < i64Limit)
    (hrep : Representable (fromTimestamp (anchorEpoch + secs))) :
    (waitRemainingSecs anchorEpoch (some waitTimeout) nowEpoch).isSome = true ↔
      ∃ d, waitDeadline anchorEpoch (some waitTimeout) = some d ∧ fromTimestamp nowEpoch < d := by
  rw [waitRemainingSecs_isSome hparse, waitDeadline_eq hparse, if_pos hsecs, fromTimestampOpt,
    if_pos hrep, saturatingAdd_of_representable hrep]
  constructor
  · rintro ⟨-, hnow⟩
    exact ⟨_, rfl, fromTimestamp_lt.mpr hnow⟩
  · rintro ⟨d, hd, hnow⟩
    cases hd
    exact ⟨hsecs, fromTimestamp_lt.mp hnow⟩

theorem moverDeadline_isSome (hrfc : rfc.ReadsFourDigitYears) {anchorEpoch : Int}
    {waitTimeout : String} {secs : Nat} (hparse : parseGoDuration waitTimeout = some secs) :
    (∃ d, moverDeadline rfc (waitDeadlineRfc3339 rfc anchorEpoch (some waitTimeout)) = some d) ↔
      secs < i64Limit ∧ FourDigitYear (fromTimestamp (anchorEpoch + secs)) := by
  rw [waitDeadlineRfc3339, waitDeadline_eq hparse]
  by_cases hsecs : secs < i64Limit
  · by_cases hrep : Representable (fromTimestamp (anchorEpoch + secs))
    · have hread := hrfc _ hrep
      by_cases hyear : FourDigitYear (fromTimestamp (anchorEpoch + secs))
      · simp [hsecs, fromTimestampOpt, hrep, moverDeadline, hread, hyear]
      · simp [hsecs, fromTimestampOpt, hrep, moverDeadline, hread, hyear]
    · have hyear : ¬ FourDigitYear (fromTimestamp (anchorEpoch + secs)) :=
        fun h => hrep h.representable
      simp [hsecs, fromTimestampOpt, hrep, moverDeadline, hyear]
  · simp [hsecs, moverDeadline]

end

/-- When the controller and the mover agree on the window. -/
theorem waitAgreed_iff (hrfc : rfc.ReadsFourDigitYears) {anchorEpoch : Int} (nowEpoch : Int)
    (hanchor : i64Min ≤ anchorEpoch ∧ anchorEpoch < 2 ^ 63) {waitTimeout : String} {secs : Nat}
    (hparse : parseGoDuration waitTimeout = some secs) :
    (WaitAgreed rfc anchorEpoch waitTimeout nowEpoch ∧
        ∀ waitStartedAt createdEpoch,
          createdEpoch ≤ effectiveWaitAnchor rfc waitStartedAt createdEpoch) ↔
      WindowFits anchorEpoch secs nowEpoch := by
  have hgiven : (∃ d, moverDeadline rfc (waitDeadlineRfc3339 rfc anchorEpoch (some waitTimeout)) =
      some d) ↔ _ := moverDeadline_isSome hrfc hparse
  by_cases hzero : secs = 0
  · subst hzero
    have hpos : 0 < i64Limit := by decide
    simp only [WindowFits, if_true]
    constructor
    · rintro ⟨hagreed, -⟩
      by_contra hnot
      obtain ⟨hlt, hrep⟩ := not_or.mp hnot
      have hsat : nowEpoch < saturatingAdd anchorEpoch (0 : Nat) := by
        simp only [saturatingAdd, i64Min]
        simp only [i64Min] at hanchor
        omega
      obtain ⟨d, hd, -⟩ :=
        hagreed.remaining.mp ((waitRemainingSecs_isSome hparse).mpr ⟨hpos, hsat⟩)
      rw [waitDeadline_eq hparse, if_pos hpos, fromTimestampOpt] at hd
      simp [hrep] at hd
    · intro hfits
      refine ⟨⟨?_, fun hne => absurd hparse hne⟩, createdEpoch_le_effectiveWaitAnchor rfc⟩
      by_cases hrep : Representable (fromTimestamp anchorEpoch)
      · exact remaining_of_representable hparse hpos (by simpa using hrep)
      · have hle := hfits.resolve_right hrep
        rw [waitRemainingSecs_isSome hparse, waitDeadline_eq hparse, if_pos hpos, fromTimestampOpt]
        have hsat : ¬ nowEpoch < saturatingAdd anchorEpoch 0 := by
          simp only [saturatingAdd, i64Min]
          simp only [i64Min] at hanchor
          omega
        simp [hrep, Int.not_lt.mp hsat]
  · have hne : parseGoDuration waitTimeout ≠ some 0 := by
      rw [hparse]
      exact fun h => hzero (Option.some.inj h)
    simp only [WindowFits, if_neg hzero]
    constructor
    · rintro ⟨hagreed, -⟩
      exact hgiven.mp (hagreed.given hne)
    · rintro ⟨hsecs, hyear⟩
      exact ⟨⟨remaining_of_representable hparse hsecs hyear.representable,
        fun _ => hgiven.mpr ⟨hsecs, hyear⟩⟩, createdEpoch_le_effectiveWaitAnchor rfc⟩

def clockTexts : Rfc3339 where
  render t := if t = fromTimestamp 1300 then "1970-01-01T00:21:40+00:00" else "@" ++ t.repr
  parse s :=
    if s = "1970-01-01T00:21:40+00:00" then some (fromTimestamp 1300)
    else (parseInt (String.ofList s.toList.tail)).filter fun t => decide (FourDigitYear t)

theorem clockTexts_reads : clockTexts.ReadsFourDigitYears := by
  intro secs _
  by_cases hwritten : fromTimestamp secs = fromTimestamp 1300
  · rw [hwritten]
    decide
  · have hne : "@" ++ (fromTimestamp secs).repr ≠ "1970-01-01T00:21:40+00:00" := by
      intro h
      have hhead := congrArg (fun s => s.toList.head?) h
      simp at hhead
    have htail : String.ofList ("@" ++ (fromTimestamp secs).repr).toList.tail =
        (fromTimestamp secs).repr := by
      simp
    simp only [clockTexts, if_neg hwritten, if_neg hne, htail, parseInt_repr]
    by_cases hyear : FourDigitYear (fromTimestamp secs)
    · simp [Option.filter, hyear]
    · simp [Option.filter, hyear]

theorem waitAgreed_five_minutes : WaitAgreed clockTexts 1000 "5m" 1060 := by
  have hparse : parseGoDuration "5m" = some 300 := by decide
  have hfits : WindowFits 1000 300 1060 := by
    rw [WindowFits, if_neg (by decide)]
    decide
  exact ((waitAgreed_iff clockTexts clockTexts_reads 1060 (by decide) hparse).mpr hfits).1

/-- A window beyond the calendar: the controller waits, the mover has no deadline. -/
theorem waitAgreed_beyond_calendar :
    ¬ ∀ rfc anchorEpoch waitTimeout nowEpoch, (parseGoDuration waitTimeout).isSome = true →
      WaitAgreed rfc anchorEpoch waitTimeout nowEpoch := by
  intro h
  have hagreed := h clockTexts 1000 "9000000000h" 1000 (by decide)
  obtain ⟨d, hd, -⟩ := hagreed.remaining.mp (by decide)
  have hnone : waitDeadline 1000 (some "9000000000h") = none := by decide
  exact absurd (hnone.symm.trans hd) (by simp)

end Kopiur
