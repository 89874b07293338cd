import Omniscience.Lib.CivilDate
import Mathlib.Algebra.Field.Rat

/-!
# Instants in the text form of RFC 3339

`Rfc3339.instant` reads a text such as `2026-01-01T12:00:00.5+02:00` as a number of seconds on one
scale for all offsets.  A text that is not a date and a time with an offset is no instant.
-/

namespace Omniscience.Rfc3339

/-- The number that some digits write. -/
def number (digits : List Char) : Option ℕ :=
  if digits.all Char.isDigit then some (digits.foldl (fun n c => 10 * n + (c.toNat - 48)) 0)
  else none

/-- The days of a month. -/
def daysInMonth (year month : ℕ) : ℕ :=
  if month = 2 then if year % 4 = 0 ∧ (year % 100 ≠ 0 ∨ year % 400 = 0) then 29 else 28
  else if month = 4 ∨ month = 6 ∨ month = 9 ∨ month = 11 then 30
  else 31

/-- The offset from the universal time, in minutes. -/
def offset : List Char → Option ℤ
  | ['Z'] => some 0
  | ['z'] => some 0
  | [sign, h₁, h₂, ':', m₁, m₂] => do
    let hours ← number [h₁, h₂]
    let minutes ← number [m₁, m₂]
    if 24 ≤ hours ∨ 60 ≤ minutes then none
    else if sign = '+' then some (60 * hours + minutes)
    else if sign = '-' then some (-(60 * hours + minutes))
    else none
  | _ => none

/-- What follows the whole seconds: the fraction of a second and the offset. -/
def tail : List Char → Option (ℚ × ℤ)
  | '.' :: rest => do
    let digits := rest.takeWhile Char.isDigit
    if digits = [] then none
    else
      let part ← number digits
      let minutes ← offset (rest.dropWhile Char.isDigit)
      some ((part : ℚ) / 10 ^ digits.length, minutes)
  | rest => do
    let minutes ← offset rest
    some (0, minutes)

/-- The instant a text names, in seconds. -/
def instant (text : String) : Option ℚ :=
  match text.toList with
  | y₁ :: y₂ :: y₃ :: y₄ :: '-' :: mo₁ :: mo₂ :: '-' :: d₁ :: d₂ :: t :: h₁ :: h₂ :: ':' :: mi₁ ::
      mi₂ :: ':' :: s₁ :: s₂ :: rest => do
    let year ← number [y₁, y₂, y₃, y₄]
    let month ← number [mo₁, mo₂]
    let day ← number [d₁, d₂]
    let hour ← number [h₁, h₂]
    let minute ← number [mi₁, mi₂]
    let second ← number [s₁, s₂]
    let (fraction, zone) ← tail rest
    if (t = 'T' ∨ t = 't') ∧ 1 ≤ month ∧ month ≤ 12 ∧ 1 ≤ day ∧ day ≤ daysInMonth year month ∧
        hour < 24 ∧ minute < 60 ∧ second ≤ 60 then
      -- an era of 400 years is added, so that the year 0 has a first of March before it
      let days := CivilDate.marchDayOf ⟨year + 400, month, day⟩
      some (86400 * days + 3600 * hour + 60 * minute + second + fraction - 60 * zone)
    else none
  | _ => none

example : instant "2026-01-01T12:00:00+02:00" = instant "2026-01-01T10:00:00Z" := by decide +kernel

end Omniscience.Rfc3339
