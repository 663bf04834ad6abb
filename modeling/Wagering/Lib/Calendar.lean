/-!
# The proleptic Gregorian calendar

The year, month and day of a number of days since 1970-01-01, by eras of 400
years that begin in March, and the way back.
-/

namespace Calendar

/-- A date of the calendar. -/
structure Civil : Type where
  year : Int
  month : Int
  day : Int
deriving DecidableEq

/-- A day counted from March 1st of a leap year that a multiple of 400 years ends
with: the century, the four years, the year and the day in each. -/
structure InEra : Type where
  century : Int
  quad : Int
  year : Int
  day : Int

/-- The parts of a day of the era, in `[0, 146097)`.  The last century and the
last year of four have one day more, which the division would give to the next. -/
def inEra (doe : Int) : InEra :=
  let century := min (doe / 36524) 3
  let rest := doe - 36524 * century
  let quad := rest / 1461
  let rest := rest - 1461 * quad
  let year := min (rest / 365) 3
  ⟨century, quad, year, rest - 365 * year⟩

/-- The month of a day of the year, March being 0. -/
def monthOf (day : Int) : Int := (5 * day + 2) / 153

/-- The date that is `n` days after 1970-01-01. -/
def civil (n : Int) : Civil :=
  let era := (n + 719468) / 146097
  let parts := inEra ((n + 719468) % 146097)
  let march := monthOf parts.day
  { year := 400 * era + 100 * parts.century + 4 * parts.quad + parts.year +
      (if 10 ≤ march then 1 else 0)
    month := if march < 10 then march + 3 else march - 9
    day := parts.day - (153 * march + 2) / 5 + 1 }

/-- The number of days from 1970-01-01 to a date. -/
def days (date : Civil) : Int :=
  let march := if 3 ≤ date.month then date.month - 3 else date.month + 9
  let year := if 3 ≤ date.month then date.year else date.year - 1
  365 * year + year / 4 - year / 100 + year / 400 + (153 * march + 2) / 5 + date.day - 719469

example : civil 0 = ⟨1970, 1, 1⟩ ∧ civil 19782 = ⟨2024, 2, 29⟩ ∧ civil (-719528) = ⟨0, 1, 1⟩ := by
  decide

/-! ## The bounds of each part -/

theorem inEra_bounds {doe : Int} (h : 0 ≤ doe) (h' : doe < 146097) :
    0 ≤ (inEra doe).century ∧ (inEra doe).century ≤ 3 ∧ 0 ≤ (inEra doe).quad ∧
      (inEra doe).quad ≤ 24 ∧ 0 ≤ (inEra doe).year ∧ (inEra doe).year ≤ 3 ∧
      0 ≤ (inEra doe).day ∧ (inEra doe).day ≤ 365 := by
  simp only [inEra]
  omega

theorem inEra_sum (doe : Int) :
    36524 * (inEra doe).century + 1461 * (inEra doe).quad + 365 * (inEra doe).year +
      (inEra doe).day = doe := by
  simp only [inEra]
  omega

theorem monthOf_bounds {day : Int} (h : 0 ≤ day) (h' : day ≤ 365) :
    0 ≤ monthOf day ∧ monthOf day ≤ 11 := by
  unfold monthOf
  omega

theorem civil_bounds (n : Int) :
    1 ≤ (civil n).month ∧ (civil n).month ≤ 12 ∧ 1 ≤ (civil n).day ∧ (civil n).day ≤ 31 := by
  have hparts := @inEra_bounds ((n + 719468) % 146097) (by omega) (by omega)
  have hmonth := monthOf_bounds hparts.2.2.2.2.2.2.1 hparts.2.2.2.2.2.2.2
  simp only [civil]
  refine ⟨by split <;> omega, by split <;> omega, ?_⟩
  unfold monthOf
  omega

theorem civil_year_bounds {n : Int} (h : n.natAbs ≤ 100000000) :
    (civil n).year.natAbs < 1000000 := by
  have hparts := @inEra_bounds ((n + 719468) % 146097) (by omega) (by omega)
  simp only [civil]
  split <;> omega

/-- The leap days before a year of an era. -/
theorem leapDays {era century quad year : Int} (hc : 0 ≤ century) (hc' : century ≤ 3)
    (hq : 0 ≤ quad) (hq' : quad ≤ 24) (hy : 0 ≤ year) (hy' : year ≤ 3) :
    (400 * era + 100 * century + 4 * quad + year) / 4 = 100 * era + 25 * century + quad ∧
    (400 * era + 100 * century + 4 * quad + year) / 100 = 4 * era + century ∧
    (400 * era + 100 * century + 4 * quad + year) / 400 = era := by
  omega

/-- The date of a day is the date of no other day. -/
theorem days_civil (n : Int) : days (civil n) = n := by
  obtain ⟨hc, hc', hq, hq', hy, hy', hd, hd'⟩ :=
    @inEra_bounds ((n + 719468) % 146097) (by omega) (by omega)
  have hsum := inEra_sum ((n + 719468) % 146097)
  have hmonth := monthOf_bounds hd hd'
  obtain ⟨h4, h100, h400⟩ := @leapDays ((n + 719468) / 146097) _ _ _ hc hc' hq hq' hy hy'
  generalize hp : inEra ((n + 719468) % 146097) = parts at *
  simp only [days, civil, hp]
  by_cases hmarch : monthOf parts.day < 10
  · have hten : ¬ 10 ≤ monthOf parts.day := by omega
    have hthree : 3 ≤ monthOf parts.day + 3 := by omega
    simp only [hmarch, hten, hthree, if_true, if_false, Int.add_zero, h4, h100, h400]
    omega
  · have hten : 10 ≤ monthOf parts.day := by omega
    have hthree : ¬ 3 ≤ monthOf parts.day - 9 := by omega
    simp only [hmarch, hten, hthree, if_true, if_false, Int.add_sub_cancel, h4, h100, h400]
    omega

end Calendar
