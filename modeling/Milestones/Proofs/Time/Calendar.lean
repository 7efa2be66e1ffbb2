import Mathlib
import Milestones.Time.Calendar

/-!
# The calendar goes both ways

Every day has a place in its cycle of 400 years: the century, the four years within it, the year
within these, and the day within that year.  From there the year of the cycle is read off without
any division, which shows that the divisions of `Date.ofDays` find it.

## Main definitions

* `Date.Place`: a day by its place in the cycle.

## Main statements

* `Date.toDays_ofDays`: the date with a day number has that day number.
* `Date.valid_ofDays`: it exists, for all day numbers of the calendar.
-/

namespace Milestones.Date

theorem daysInMonth_le (year : Int) (month : Nat) : daysInMonth year month ≤ 31 := by
  unfold daysInMonth
  split
  · split <;> decide
  all_goals decide

/-- A day by its place in the cycle of 400 years, in which the years begin in March. -/
structure Place where
  cycle : Int
  century : Int
  /-- The four years within the century. -/
  quad : Int
  /-- The year within the four years. -/
  year : Int
  day : Int
  century_mem : 0 ≤ century ∧ century ≤ 3
  quad_mem : 0 ≤ quad ∧ quad ≤ 24
  year_mem : 0 ≤ year ∧ year ≤ 3
  /-- A leap day ends four years, but not the last four of a century that does not end the cycle. -/
  day_mem : 0 ≤ day ∧ (day ≤ 364 ∨ day = 365 ∧ year = 3 ∧ (quad ≤ 23 ∨ century = 3))

namespace Place

/-! ## The day -/

section day

variable (p : Place)

/-- The day within the four years. -/
def dayOfQuad : Int := 365 * p.year + p.day

/-- The day within the century. -/
def dayOfCentury : Int := 1461 * p.quad + p.dayOfQuad

/-- The day within the cycle. -/
def dayOfCycle : Int := 36524 * p.century + p.dayOfCentury

/-- The day number. -/
def number : Int := 146097 * p.cycle + p.dayOfCycle - 719468

theorem dayOfQuad_mem : 0 ≤ p.dayOfQuad ∧ p.dayOfQuad ≤ 1460 := by
  have hyear := p.year_mem
  have hday := p.day_mem
  rw [dayOfQuad]
  omega

/-- Only the last century has a leap day at its end. -/
theorem dayOfCentury_mem : 0 ≤ p.dayOfCentury ∧
    (p.dayOfCentury < 36524 ∨ p.dayOfCentury = 36524 ∧ p.century = 3) := by
  have hquad := p.quad_mem
  have hyear := p.year_mem
  have hday := p.day_mem
  rw [dayOfCentury, dayOfQuad]
  omega

theorem dayOfCycle_mem : 0 ≤ p.dayOfCycle ∧ p.dayOfCycle < 146097 := by
  have hcentury := p.century_mem
  have hday := p.dayOfCentury_mem
  rw [dayOfCycle]
  omega

/-- Every day has a place. -/
theorem exists_number_eq (n : Int) : ∃ p : Place, p.number = n := by
  -- the last day of a cycle, a century or four years stays with the part that it ends
  let day := (n + 719468) % 146097
  let century := Min.min 3 (day / 36524)
  let quad := Min.min 24 ((day - 36524 * century) / 1461)
  let year := Min.min 3 ((day - 36524 * century - 1461 * quad) / 365)
  refine ⟨⟨(n + 719468) / 146097, century, quad, year,
    day - 36524 * century - 1461 * quad - 365 * year, ?_, ?_, ?_, ?_⟩, ?_⟩
  · omega
  · omega
  · omega
  · omega
  · simp only [number, dayOfCycle, dayOfCentury, dayOfQuad]
    omega

end day

/-! ## The year -/

section year

variable (p : Place)

/-- The year of the cycle. -/
def yearOfCycle : Int := 100 * p.century + 4 * p.quad + p.year

theorem yearOfCycle_mem : 0 ≤ p.yearOfCycle ∧ p.yearOfCycle < 400 := by
  have hcentury := p.century_mem
  have hquad := p.quad_mem
  have hyear := p.year_mem
  rw [yearOfCycle]
  omega

/-- The days of the cycle before the year. -/
theorem daysBefore_yearOfCycle : 365 * p.yearOfCycle + p.yearOfCycle / 4 - p.yearOfCycle / 100 =
    p.dayOfCycle - p.day := by
  have hquad := p.quad_mem
  have hyear := p.year_mem
  rw [dayOfCycle, dayOfCentury, dayOfQuad, yearOfCycle]
  omega

/-- The last day of the cycle would be the first one of a fifth century. -/
theorem dayOfCycle_div_century : p.dayOfCycle / 36524 = p.century + p.dayOfCycle / 146096 := by
  have hcentury := p.century_mem
  have hday := p.dayOfCentury_mem
  rw [dayOfCycle]
  omega

/-- Four years are longer than 1460 days, and a century is longer than 25 times that. -/
theorem dayOfCycle_div_quad : p.dayOfCycle / 1460 =
    25 * p.century + p.quad + (24 * p.century + p.quad + p.dayOfQuad) / 1460 := by
  rw [dayOfCycle, dayOfCentury]
  omega

/-- The year is found from the day. -/
theorem yearOfCycle_eq : (p.dayOfCycle - p.dayOfCycle / 1460 + p.dayOfCycle / 36524 -
    p.dayOfCycle / 146096) / 365 = p.yearOfCycle := by
  have hyear := p.year_mem
  have hday := p.day_mem
  -- the count of 1460 days runs ahead only within the last of four years
  have hahead : (24 * p.century + p.quad + p.dayOfQuad) / 1460 = 0 ∧ p.dayOfQuad < 1460 ∨
      (24 * p.century + p.quad + p.dayOfQuad) / 1460 = 1 ∧ 365 * 3 < p.dayOfQuad := by
    have hcentury := p.century_mem
    have hquad := p.quad_mem
    have hlast := p.dayOfQuad_mem
    omega
  rw [p.dayOfCycle_div_century, p.dayOfCycle_div_quad, dayOfCycle, dayOfCentury, yearOfCycle]
  rw [dayOfQuad] at *
  omega

/-- The leap day belongs to a leap year. -/
theorem isLeap_of_day_eq (h : p.day = 365) :
    isLeap (p.yearOfCycle + p.cycle * 400 + 1) = true := by
  have hcentury := p.century_mem
  have hquad := p.quad_mem
  have hday := p.day_mem
  simp only [isLeap, Bool.and_eq_true, Bool.or_eq_true, beq_iff_eq, bne_iff_ne, yearOfCycle]
  omega

end year

/-! ## The month -/

section month

variable (p : Place)

/-- The month, counted from March. -/
def month : Int := (5 * p.day + 2) / 153

/-- The day of the month. -/
def dayOfMonth : Int := p.day - (153 * p.month + 2) / 5 + 1

/-- The date; January and February belong to the next year. -/
def date : Date :=
  if p.month < 10 then
    ⟨p.yearOfCycle + p.cycle * 400, (p.month + 3).toNat, p.dayOfMonth.toNat⟩
  else ⟨p.yearOfCycle + p.cycle * 400 + 1, (p.month - 9).toNat, p.dayOfMonth.toNat⟩

theorem month_mem : 0 ≤ p.month ∧ p.month ≤ 11 := by
  have hday := p.day_mem
  rw [month]
  omega

theorem one_le_dayOfMonth : 1 ≤ p.dayOfMonth := by
  have hday := p.day_mem
  rw [dayOfMonth, month]
  omega

theorem dayOfMonth_le : p.dayOfMonth.toNat ≤ daysInMonth p.date.year p.date.month := by
  have hleap := p.isLeap_of_day_eq
  have hday := p.day_mem
  have hmonth : p.month = (5 * p.day + 2) / 153 := rfl
  rw [date, dayOfMonth]
  obtain ⟨hleast, hmost⟩ := p.month_mem
  generalize p.month = m at *
  interval_cases m
  case «11» =>
    by_cases h : p.day = 365
    · simp only [Int.reduceLT, if_false, daysInMonth, Int.reduceSub, Int.reduceToNat, hleap h,
        if_true]
      omega
    · have hlength : 28 ≤ daysInMonth (p.yearOfCycle + p.cycle * 400 + 1) 2 := by
        rw [daysInMonth]
        split <;> decide
      simp only [Int.reduceLT, if_false, Int.reduceSub, Int.reduceToNat]
      omega
  all_goals
    simp [daysInMonth]
    omega

end month

/-! ## The date -/

section date

variable (p : Place)

theorem number_add : p.number + 719468 = p.dayOfCycle + 146097 * p.cycle := by
  rw [number]
  omega

theorem ofDays_number : ofDays p.number = p.date := by
  have hday := p.dayOfCycle_mem
  have hcycle : (p.number + 719468) / 146097 = p.cycle := by
    rw [number_add]
    omega
  have hdayOfCycle : (p.number + 719468) % 146097 = p.dayOfCycle := by
    rw [number_add]
    omega
  simp only [ofDays, hcycle, hdayOfCycle, p.yearOfCycle_eq, p.daysBefore_yearOfCycle,
    Int.sub_sub_self]
  rfl

theorem toDays_date : p.date.toDays = p.number := by
  have hyear := p.yearOfCycle_mem
  have hmonth := p.month_mem
  have hday := p.one_le_dayOfMonth
  have hbefore := p.daysBefore_yearOfCycle
  have hnumber := p.number_add
  have hdayOfYear : p.day = (153 * p.month + 2) / 5 + p.dayOfMonth - 1 := by
    rw [dayOfMonth]
    omega
  rw [date]
  split
  · have hindex : (((p.month + 3).toNat + 9) % 12 : Int) = p.month := by omega
    have hnext : ¬(p.month + 3).toNat ≤ 2 := by omega
    simp only [toDays, hnext, if_false, hindex]
    omega
  · have hindex : (((p.month - 9).toNat + 9) % 12 : Int) = p.month := by omega
    have hnext : (p.month - 9).toNat ≤ 2 := by omega
    simp only [toDays, hnext, if_true, hindex]
    omega

/-- The calendar begins and ends with a year. -/
theorem year_mem_calendar (hfirst : Instant.firstDay ≤ p.number)
    (hlast : p.number ≤ Instant.lastDay) :
    -262143 ≤ p.date.year ∧ p.date.year ≤ 262142 := by
  have hyear := p.yearOfCycle_mem
  have hday := p.day_mem
  have hbefore := p.daysBefore_yearOfCycle
  have hnumber := p.number_add
  have hmonth : p.month = (5 * p.day + 2) / 153 := rfl
  simp only [Instant.firstDay, Instant.lastDay] at hfirst hlast
  have hcycle : -656 ≤ p.cycle ∧ p.cycle ≤ 655 := by
    have hdayOfCycle := p.dayOfCycle_mem
    omega
  rw [date]
  split
  · simp only
    omega
  · simp only
    omega

theorem valid_date (hfirst : Instant.firstDay ≤ p.number) (hlast : p.number ≤ Instant.lastDay) :
    p.date.Valid := by
  have hyear := p.year_mem_calendar hfirst hlast
  have hmonth := p.month_mem
  have hday := p.one_le_dayOfMonth
  have hmost := p.dayOfMonth_le
  refine ⟨hyear.1, hyear.2, ?_⟩
  rw [date] at hmost ⊢
  split
  · rw [if_pos ‹_›] at hmost
    refine ⟨?_, ?_, ?_, hmost⟩ <;> simp only <;> omega
  · rw [if_neg ‹_›] at hmost
    refine ⟨?_, ?_, ?_, hmost⟩ <;> simp only <;> omega

end date

end Place

/-- The date with a day number has that day number. -/
theorem toDays_ofDays (n : Int) : (ofDays n).toDays = n := by
  obtain ⟨p, rfl⟩ := Place.exists_number_eq n
  rw [p.ofDays_number, p.toDays_date]

/-- The date exists, for all day numbers of the calendar. -/
theorem valid_ofDays {n : Int} (hfirst : Instant.firstDay ≤ n) (hlast : n ≤ Instant.lastDay) :
    (ofDays n).Valid := by
  obtain ⟨p, rfl⟩ := Place.exists_number_eq n
  rw [p.ofDays_number]
  exact p.valid_date hfirst hlast

end Milestones.Date
