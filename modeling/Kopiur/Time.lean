import Mathlib.Data.Int.Order.Basic
import Mathlib.Order.Basic
import Mathlib.Tactic.Common

/-!
# Instants and the calendar

An instant is a signed count of nanoseconds from the Unix epoch. The calendar
is proleptic Gregorian in UTC, computed from the day number with the year
starting in March, so that the leap day is the last day of its year.
-/

namespace Kopiur

/-- Nanoseconds since 1970-01-01T00:00:00Z. -/
abbrev DateTime := Int

/-- The order of instants, by the linear order of the integers and not by what
else instance search finds for them. -/
@[reducible] def timePreorder : Preorder DateTime := Int.instLinearOrder.toPartialOrder.toPreorder

/-- A signed span in nanoseconds. -/
abbrev Duration := Int

namespace Duration

def seconds (n : Int) : Duration := n * 1000000000

def numSeconds (d : Duration) : Int := d.tdiv 1000000000

end Duration

namespace DateTime

def timestamp (t : DateTime) : Int := t / 1000000000

def fromTimestamp (secs : Int) : DateTime := secs * 1000000000

end DateTime

structure Date where
  year : Int
  month : Int
  day : Int
deriving DecidableEq

/-- The year starting on 1 March that holds a day (0 is 1970-01-01), and the
day's place in it. An era of 400 years is cut into centuries, these into
four-year cycles and these into years, the last of each taking the surplus
day. -/
def marchYear (days : Int) : Int × Int :=
  let era := (days + 719468) / 146097
  let doe := (days + 719468) % 146097
  let century := min (doe / 36524) 3
  let doc := doe - 36524 * century
  let yoc := min (doc % 1461 / 365) 3
  (400 * era + 100 * century + 4 * (doc / 1461) + yoc, doc % 1461 - 365 * yoc)

def marchYearStart (year : Int) : Int := 365 * year + year / 4 - year / 100 + year / 400

theorem marchYearStart_parts {era century cycle yoc : Int} (hc : 0 ≤ century ∧ century ≤ 3)
    (hq : 0 ≤ cycle ∧ cycle ≤ 24) (hy : 0 ≤ yoc ∧ yoc ≤ 3) :
    marchYearStart (400 * era + 100 * century + 4 * cycle + yoc) =
      146097 * era + 36524 * century + 1461 * cycle + 365 * yoc := by
  have h4 : (400 * era + 100 * century + 4 * cycle + yoc) / 4 = 100 * era + 25 * century + cycle := by
    omega
  have h100 : (400 * era + 100 * century + 4 * cycle + yoc) / 100 = 4 * era + century := by omega
  have h400 : (400 * era + 100 * century + 4 * cycle + yoc) / 400 = era := by omega
  simp only [marchYearStart, h4, h100, h400]
  omega

theorem marchYear_spec (days : Int) :
    marchYearStart (marchYear days).1 + (marchYear days).2 = days + 719468 ∧
      0 ≤ (marchYear days).2 ∧ (marchYear days).2 ≤ 365 := by
  simp only [marchYear]
  generalize hera : (days + 719468) / 146097 = era
  generalize hdoe : (days + 719468) % 146097 = doe
  generalize hcent : min (doe / 36524) 3 = century
  generalize hdoc : doe - 36524 * century = doc
  generalize hyoc : min (doc % 1461 / 365) 3 = yoc
  have hcent' : 0 ≤ century ∧ century ≤ 3 := by omega
  have hdoc' : 0 ≤ doc ∧ doc ≤ 36524 := by omega
  have hyoc' : 0 ≤ yoc ∧ yoc ≤ 3 := by omega
  have hcycle : 0 ≤ doc / 1461 ∧ doc / 1461 ≤ 24 := by omega
  rw [marchYearStart_parts hcent' hcycle hyoc']
  refine ⟨?_, ?_, ?_⟩ <;> omega

def civilFromDays (days : Int) : Date :=
  let (year, doy) := marchYear days
  let mp := (5 * doy + 2) / 153
  let day := doy - (153 * mp + 2) / 5 + 1
  if mp < 10 then { year, month := mp + 3, day } else { year := year + 1, month := mp - 9, day }

def daysFromCivil (date : Date) : Int :=
  let year := if date.month ≤ 2 then date.year - 1 else date.year
  let mp := if date.month ≤ 2 then date.month + 9 else date.month - 3
  marchYearStart year + ((153 * mp + 2) / 5 + date.day - 1) - 719468

theorem daysFromCivil_civilFromDays (days : Int) : daysFromCivil (civilFromDays days) = days := by
  obtain ⟨hstart, h0, h1⟩ := marchYear_spec days
  unfold daysFromCivil civilFromDays
  generalize marchYear days = p at *
  obtain ⟨year, doy⟩ := p
  simp only at hstart h0 h1 ⊢
  split
  case isTrue h =>
    have hm : ¬ (5 * doy + 2) / 153 + 3 ≤ 2 := by omega
    simp only [hm, if_false]
    omega
  case isFalse h =>
    have hm : (5 * doy + 2) / 153 - 9 ≤ 2 := by omega
    simp only [hm, if_true, Int.add_sub_cancel]
    omega

theorem civilFromDays_bounds (days : Int) :
    (1 ≤ (civilFromDays days).month ∧ (civilFromDays days).month ≤ 12) ∧
      1 ≤ (civilFromDays days).day ∧ (civilFromDays days).day ≤ 31 := by
  obtain ⟨-, h0, h1⟩ := marchYear_spec days
  unfold civilFromDays
  generalize marchYear days = p at *
  obtain ⟨year, doy⟩ := p
  simp only at h0 h1 ⊢
  split <;> refine ⟨⟨?_, ?_⟩, ?_, ?_⟩ <;> simp only <;> omega

theorem civilFromDays_injective : Function.Injective civilFromDays :=
  Function.LeftInverse.injective daysFromCivil_civilFromDays

namespace DateTime

def days (t : DateTime) : Int := timestamp t / 86400

def secondOfDay (t : DateTime) : Int := timestamp t % 86400

def date (t : DateTime) : Date := civilFromDays (days t)

def year (t : DateTime) : Int := (date t).year

def month (t : DateTime) : Int := (date t).month

def hour (t : DateTime) : Int := secondOfDay t / 3600

def minute (t : DateTime) : Int := secondOfDay t / 60 % 60

def second (t : DateTime) : Int := secondOfDay t % 60

def ordinalOfDays (days : Int) : Int :=
  days - daysFromCivil { year := (civilFromDays days).year, month := 1, day := 1 } + 1

def ordinal (t : DateTime) : Int := ordinalOfDays (days t)

def isoWeek (t : DateTime) : Int × Int :=
  -- Day 0 is a Thursday, so `days + 3` counts from a Monday.
  let thursday := days t - (days t + 3) % 7 + 3
  ((civilFromDays thursday).year, (ordinalOfDays thursday - 1) / 7 + 1)

theorem timestamp_eq_of_fields {t u : DateTime} (hdate : date t = date u) (hh : hour t = hour u)
    (hm : minute t = minute u) (hs : second t = second u) : timestamp t = timestamp u := by
  have hdays : days t = days u := civilFromDays_injective hdate
  unfold hour minute second secondOfDay at *
  unfold days at hdays
  omega

end DateTime

end Kopiur
