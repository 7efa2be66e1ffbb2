import Milestones.Time.Instant

/-!
# Calendar dates

The proleptic Gregorian calendar.  Days are counted in cycles of 400 years that start
on the first of March, so that the leap day is the last day of its year and a cycle
always has 146097 days.

## Main definitions

* `Date`: a year, a month and a day of the month.
* `Date.toDays`, `Date.ofDays`: between dates and day numbers.
* `Instant.date`: the date of an instant.
-/

namespace Milestones

/-- A date of the Gregorian calendar; day one of 1970 is day number zero. -/
structure Date where
  year : Int
  month : Nat
  day : Nat
deriving DecidableEq

namespace Date

/-- Every fourth year is a leap year, except those of a century not divisible by 400. -/
def isLeap (year : Int) : Bool := year % 4 == 0 && (year % 100 != 0 || year % 400 == 0)

/-- The number of days of a month. -/
def daysInMonth (year : Int) (month : Nat) : Nat :=
  match month with
  | 2 => if isLeap year then 29 else 28
  | 4 | 6 | 9 | 11 => 30
  | _ => 31

/-- The date exists, and its year lies within the calendar's range. -/
def Valid (d : Date) : Prop :=
  -262143 ≤ d.year ∧ d.year ≤ 262142 ∧ 1 ≤ d.month ∧ d.month ≤ 12 ∧
    1 ≤ d.day ∧ d.day ≤ daysInMonth d.year d.month

instance (d : Date) : Decidable d.Valid := by unfold Valid; infer_instance

/-- The day number of a date. -/
def toDays (d : Date) : Int :=
  let y := if d.month ≤ 2 then d.year - 1 else d.year
  let yearOfCycle := y % 400
  let dayOfYear : Int := (153 * ((d.month + 9) % 12) + 2) / 5 + d.day - 1
  y / 400 * 146097 + yearOfCycle * 365 + yearOfCycle / 4 - yearOfCycle / 100 + dayOfYear - 719468

/-- The date with the given day number. -/
def ofDays (n : Int) : Date :=
  let cycle := (n + 719468) / 146097
  let dayOfCycle := (n + 719468) % 146097
  let yearOfCycle :=
    (dayOfCycle - dayOfCycle / 1460 + dayOfCycle / 36524 - dayOfCycle / 146096) / 365
  let dayOfYear := dayOfCycle - (365 * yearOfCycle + yearOfCycle / 4 - yearOfCycle / 100)
  let month := (5 * dayOfYear + 2) / 153
  let day := dayOfYear - (153 * month + 2) / 5 + 1
  let year := yearOfCycle + cycle * 400
  if month < 10 then ⟨year, (month + 3).toNat, day.toNat⟩
  else ⟨year + 1, (month - 9).toNat, day.toNat⟩

example : toDays ⟨-262143, 1, 1⟩ = Instant.firstDay := by decide
example : toDays ⟨262142, 12, 31⟩ = Instant.lastDay := by decide
example : ofDays 0 = ⟨1970, 1, 1⟩ := by decide
example : ofDays 19782 = ⟨2024, 2, 29⟩ := by decide

end Date

namespace Instant

/-- The date of an instant. -/
def date (t : Instant) : Date := Date.ofDays t.day

end Instant

end Milestones
