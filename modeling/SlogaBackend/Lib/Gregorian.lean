import Mathlib.Data.Int.ConditionallyCompleteOrder
import Mathlib.Order.Monotone.Basic
import Mathlib.Algebra.Order.Group.Int
import Mathlib.Data.Int.SuccPred
import Mathlib.Order.SuccPred.Basic

/-!
# The Gregorian calendar

Days are counted from 1 January 1970 and months from January of the year 0, so that the month
`12 * year + k` is the one `k` months after January of `year`. `monthStart` is the first day of a
month, for every month before and after; the days of a month follow one another, so a date is a
month and a number below the length of the month.

The formulas count years from March, which puts the leap day at the end of a year. The year
`y` of that kind begins `yearStart y` days after 1 March of the year 0.

* `monthStart_strictMono`: later months start later.
* `monthOf_spec`, `monthOf_eq`: every day lies in one month, the one it is said to lie in.
-/

namespace SlogaBackend.Gregorian

/-- The days from 1 March of the year 0 to 1 March of a year. -/
def yearStart (year : Int) : Int := 365 * year + year / 4 - year / 100 + year / 400

/-- The days from 1 March of the year 0 to 1 January 1970. -/
def epochDay : Int := 719468

/-- The first day of a month. -/
def monthStart (month : Int) : Int :=
  yearStart ((month - 2) / 12) + (153 * ((month - 2) % 12) + 2) / 5 - epochDay

/-- The year, counted from March, of a day counted from 1 March of the year 0. -/
def yearOf (day : Int) : Int :=
  let year := 400 * day / 146097
  if day < yearStart year then year - 1
  else if yearStart (year + 1) ≤ day then year + 1
  else year

/-- The month a day lies in. -/
def monthOf (day : Int) : Int :=
  let year := yearOf (day + epochDay)
  12 * year + (5 * (day + epochDay - yearStart year) + 2) / 153 + 2

/-- The number of days of a month. -/
def monthLength (month : Int) : Int := monthStart (month + 1) - monthStart month

/-! ## Years -/

/-- The leap days by centuries. -/
theorem yearStart_eq (year : Int) :
    yearStart year = 365 * year + 24 * (year / 100) + year / 100 / 4 + year % 100 / 4 := by
  unfold yearStart
  omega

theorem yearStart_succ (year : Int) :
    yearStart year + 365 ≤ yearStart (year + 1) ∧ yearStart (year + 1) ≤ yearStart year + 366 := by
  rw [yearStart_eq, yearStart_eq]
  by_cases hcen : year % 100 = 99
  · have hnx : (year + 1) / 100 = year / 100 + 1 ∧ (year + 1) % 100 = 0 := by omega
    omega
  · have hsm : (year + 1) / 100 = year / 100 ∧ (year + 1) % 100 = year % 100 + 1 := by omega
    omega

/-- A year is 365.2425 days long on average, and no year starts far from where that puts it. -/
theorem yearStart_near (year : Int) :
    146097 * year - 800 ≤ 400 * yearStart year ∧ 400 * yearStart year ≤ 146097 * year + 400 := by
  rw [yearStart_eq]
  omega

theorem yearOf_spec (day : Int) :
    yearStart (yearOf day) ≤ day ∧ day < yearStart (yearOf day + 1) := by
  have hbef := yearStart_near (400 * day / 146097 - 1)
  have haft := yearStart_near (400 * day / 146097 + 1 + 1)
  unfold yearOf
  dsimp only
  split
  · rw [Int.sub_add_cancel]
    omega
  · split
    · omega
    · omega

/-! ## Months -/

theorem monthStart_succ (month : Int) : monthStart month + 28 ≤ monthStart (month + 1) := by
  unfold monthStart
  by_cases hls : (month - 2) % 12 = 11
  · have hnx : (month + 1 - 2) / 12 = (month - 2) / 12 + 1 ∧ (month + 1 - 2) % 12 = 0 := by omega
    have hyr := (yearStart_succ ((month - 2) / 12)).1
    rw [hnx.1, hnx.2, hls]
    omega
  · have hsm : (month + 1 - 2) / 12 = (month - 2) / 12 ∧
        (month + 1 - 2) % 12 = (month - 2) % 12 + 1 := by omega
    rw [hsm.1, hsm.2]
    omega

theorem monthStart_strictMono : StrictMono monthStart :=
  strictMono_int_of_lt_succ fun month => by
    have := monthStart_succ month
    omega

theorem monthOf_spec (day : Int) :
    monthStart (monthOf day) ≤ day ∧ day < monthStart (monthOf day + 1) := by
  obtain ⟨hfst, hls⟩ := yearOf_spec (day + epochDay)
  have hyr := (yearStart_succ (yearOf (day + epochDay))).2
  unfold monthOf monthStart
  dsimp only
  generalize yearOf (day + epochDay) = year at *
  generalize hmon : (5 * (day + epochDay - yearStart year) + 2) / 153 = month
  have hyearOf : (12 * year + month + 2 - 2) / 12 = year := by omega
  have hmonthOf : (12 * year + month + 2 - 2) % 12 = month := by omega
  rw [hyearOf, hmonthOf]
  by_cases hend : month = 11
  · have hnx : (12 * year + month + 2 + 1 - 2) / 12 = year + 1 ∧
        (12 * year + month + 2 + 1 - 2) % 12 = 0 := by omega
    rw [hnx.1, hnx.2]
    omega
  · have hnx : (12 * year + month + 2 + 1 - 2) / 12 = year ∧
        (12 * year + month + 2 + 1 - 2) % 12 = month + 1 := by omega
    rw [hnx.1, hnx.2]
    omega

example : monthStart (12 * 1970) = 0 ∧ monthLength (12 * 2024 + 1) = 29 ∧
    monthLength (12 * 2100 + 1) = 28 ∧ monthOf 20605 = 12 * 2026 + 5 := by decide

end SlogaBackend.Gregorian
