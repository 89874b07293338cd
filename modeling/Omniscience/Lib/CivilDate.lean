import Mathlib.Data.Nat.Basic
import Mathlib.Logic.Function.Basic

/-!
# Civil dates

A day, as the number of days since the epoch, and its year, month and day in the Gregorian calendar.
The computation counts from the first of March of the year 0, so that the leap day is the last of
its year, and goes by eras of 400 years, centuries, cycles of four years and years.

`marchDayOf_ofMarchDay` is the way back, so a date belongs to one day only (`civilOf_injective`).
-/

namespace Omniscience

/-- A date of the Gregorian calendar. -/
structure CivilDate where
  year : ℕ
  month : ℕ
  day : ℕ
  deriving DecidableEq

namespace CivilDate

/-- The centuries of an era before the day. -/
def centuryOf (dayOfEra : ℕ) : ℕ := min (dayOfEra / 36524) 3

/-- The cycles of a century before the day. -/
def cycleOf (dayOfCentury : ℕ) : ℕ := dayOfCentury / 1461

/-- The years of a cycle before the day. -/
def yearOf (dayOfCycle : ℕ) : ℕ := min (dayOfCycle / 365) 3

/-- The years of an era before the day, and the day of its year. -/
def splitEra (dayOfEra : ℕ) : ℕ × ℕ :=
  let century := centuryOf dayOfEra
  let dayOfCentury := dayOfEra - 36524 * century
  let cycle := cycleOf dayOfCentury
  let dayOfCycle := dayOfCentury - 1461 * cycle
  let year := yearOf dayOfCycle
  (100 * century + 4 * cycle + year, dayOfCycle - 365 * year)

/-- The date of a day since the first of March of the year 0. -/
def ofMarchDay (marchDay : ℕ) : CivilDate :=
  let split := splitEra (marchDay % 146097)
  let monthFromMarch := (5 * split.2 + 2) / 153
  let month := if monthFromMarch < 10 then monthFromMarch + 3 else monthFromMarch - 9
  ⟨400 * (marchDay / 146097) + split.1 + (if month ≤ 2 then 1 else 0), month,
    split.2 - (153 * monthFromMarch + 2) / 5 + 1⟩

/-- The date of a day since the epoch. -/
def civilOf (days : ℕ) : CivilDate := ofMarchDay (days + 719468)

/-- The days of an era before the year. -/
def daysBefore (yearOfEra : ℕ) : ℕ :=
  36524 * (yearOfEra / 100) + 1461 * (yearOfEra % 100 / 4) + 365 * (yearOfEra % 4)

/-- The day of a date, from the first of March of the year 0. -/
def marchDayOf (date : CivilDate) : ℕ :=
  let year := date.year - (if date.month ≤ 2 then 1 else 0)
  let monthFromMarch := if date.month ≤ 2 then date.month + 9 else date.month - 3
  146097 * (year / 400) + daysBefore (year % 400) + ((153 * monthFromMarch + 2) / 5 + date.day - 1)

theorem splitEra_spec {dayOfEra : ℕ} (h : dayOfEra < 146097) :
    (splitEra dayOfEra).1 < 400 ∧ (splitEra dayOfEra).2 ≤ 365 ∧
      daysBefore (splitEra dayOfEra).1 + (splitEra dayOfEra).2 = dayOfEra := by
  simp only [splitEra]
  have hcentury : centuryOf dayOfEra ≤ 3 ∧ 36524 * centuryOf dayOfEra ≤ dayOfEra ∧
      dayOfEra - 36524 * centuryOf dayOfEra ≤ 36524 := by
    rw [centuryOf]
    omega
  generalize centuryOf dayOfEra = century at *
  have hcycle : cycleOf (dayOfEra - 36524 * century) ≤ 24 ∧
      1461 * cycleOf (dayOfEra - 36524 * century) ≤ dayOfEra - 36524 * century ∧
      dayOfEra - 36524 * century - 1461 * cycleOf (dayOfEra - 36524 * century) ≤ 1460 := by
    rw [cycleOf]
    omega
  generalize cycleOf (dayOfEra - 36524 * century) = cycle at *
  generalize hday : dayOfEra - 36524 * century - 1461 * cycle = dayOfCycle at *
  have hyear : yearOf dayOfCycle ≤ 3 ∧ 365 * yearOf dayOfCycle ≤ dayOfCycle ∧
      dayOfCycle - 365 * yearOf dayOfCycle ≤ 365 := by
    rw [yearOf]
    omega
  generalize yearOf dayOfCycle = year at *
  have hparts : (100 * century + 4 * cycle + year) / 100 = century ∧
      (100 * century + 4 * cycle + year) % 100 / 4 = cycle ∧
      (100 * century + 4 * cycle + year) % 4 = year := by omega
  rw [daysBefore, hparts.1, hparts.2.1, hparts.2.2]
  omega

theorem monthFromMarch_spec {dayOfYear : ℕ} (h : dayOfYear ≤ 365) :
    (5 * dayOfYear + 2) / 153 < 12 ∧ (153 * ((5 * dayOfYear + 2) / 153) + 2) / 5 ≤ dayOfYear := by
  omega

/-- **A day can be read off its date.** -/
theorem marchDayOf_ofMarchDay (marchDay : ℕ) : marchDayOf (ofMarchDay marchDay) = marchDay := by
  have hera : marchDay % 146097 < 146097 := Nat.mod_lt _ (by decide)
  have hsplit := Nat.div_add_mod marchDay 146097
  obtain ⟨hyears, hday, hsum⟩ := splitEra_spec hera
  obtain ⟨hmonth, hdays⟩ := monthFromMarch_spec hday
  simp only [ofMarchDay]
  generalize marchDay / 146097 = era at *
  generalize marchDay % 146097 = dayOfEra at *
  generalize (splitEra dayOfEra).1 = years at *
  generalize (splitEra dayOfEra).2 = dayOfYear at *
  generalize (5 * dayOfYear + 2) / 153 = monthFromMarch at *
  have hyear : (400 * era + years) / 400 = era ∧ (400 * era + years) % 400 = years := by omega
  have hback : (153 * monthFromMarch + 2) / 5 +
      (dayOfYear - (153 * monthFromMarch + 2) / 5 + 1) - 1 = dayOfYear := by omega
  have htotal : 146097 * era + daysBefore years + dayOfYear = marchDay := by omega
  by_cases hm : monthFromMarch < 10
  · have hlate : ¬ monthFromMarch + 3 ≤ 2 := by omega
    simp only [marchDayOf, hm, hlate, hyear.1, hyear.2, hback, htotal, if_true, if_false,
      Nat.add_zero, Nat.sub_zero, Nat.add_sub_cancel]
  · -- January and February belong to the year that began in March
    have hearly : monthFromMarch - 9 ≤ 2 := by omega
    have hmonth' : monthFromMarch - 9 + 9 = monthFromMarch := by omega
    simp only [marchDayOf, hm, hearly, hmonth', hyear.1, hyear.2, hback, htotal, if_true, if_false,
      Nat.add_sub_cancel]

theorem civilOf_injective : Function.Injective civilOf := by
  intro days days' h
  exact Nat.add_right_cancel (Function.LeftInverse.injective marchDayOf_ofMarchDay h)

example : civilOf 20000 = ⟨2024, 10, 4⟩ := by decide

end CivilDate

end Omniscience
