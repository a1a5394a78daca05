import Mathlib.Algebra.Order.Floor.Ring
import Mathlib.Data.Rat.Floor
import Mathlib.Tactic.Linarith
import Mathlib.Tactic.NormNum

/-! # Calendars of a fixed zone

Days of 24 hours, counted from 1970 on at a fixed distance from GMT, and grouped into
years.
-/

namespace LearningProjects

/-- `yearOfDay` is the year of a day, by its number. -/
structure Calendar where
  secondsFromGMT : Rat
  yearOfDay : Int → Int
  /-- No calendar has years of 400 days. -/
  short : ∀ d e, yearOfDay d = yearOfDay e → d - e < 400

namespace Calendar

variable (calendar : Calendar)

def day (date : Rat) : Int := ⌊(date + calendar.secondsFromGMT) / 86400⌋

def year (date : Rat) : Int := calendar.yearOfDay (calendar.day date)

def startOfDay (date : Rat) : Rat := calendar.day date * 86400 - calendar.secondsFromGMT

variable {calendar}

theorem day_startOfDay (date : Rat) :
    calendar.day (calendar.startOfDay date) = calendar.day date := by
  rw [day, startOfDay, sub_add_cancel, mul_div_cancel_right₀ _ (by norm_num), Int.floor_intCast]

theorem year_startOfDay (date : Rat) :
    calendar.year (calendar.startOfDay date) = calendar.year date := by
  rw [year, day_startOfDay, year]

/-- The days between two dates, by the seconds since the first one's day began. -/
theorem le_day_sub_iff (now date : Rat) (k : Int) :
    k ≤ calendar.day date - calendar.day now ↔ k * 86400 ≤ date - calendar.startOfDay now := by
  have floor : calendar.day date = ⌊(date + calendar.secondsFromGMT) / 86400⌋ := rfl
  rw [le_sub_iff_add_le, floor, Int.le_floor, le_div_iff₀ (by norm_num), startOfDay]
  push_cast
  constructor <;> intro h <;> linarith

theorem startOfDay_le (date : Rat) : calendar.startOfDay date ≤ date := by
  have same := (@le_day_sub_iff calendar date date 0).mp (by simp)
  norm_num at same
  exact same

/-- Dates of one year are close. -/
theorem sub_lt_of_year_eq {date other : Rat} (same : calendar.year date = calendar.year other) :
    date - other < 400 * 86400 := by
  have days := calendar.short _ _ same
  have before : ¬400 ≤ calendar.day date - calendar.day other := not_le.mpr days
  rw [le_day_sub_iff, not_le] at before
  have started := calendar.startOfDay_le other
  norm_num at before
  linarith

/-- The year of a day of the Gregorian calendar, by cycles of 400, 100, 4 years and
    one. -/
def gregorianYear (d : Int) : Int :=
  let days := d + 719162
  let inCycle := days % 146097
  let century := min (inCycle / 36524) 3
  let inCentury := inCycle - 36524 * century
  let inLeapCycle := inCentury % 1461
  400 * (days / 146097) + 100 * century + 4 * (inCentury / 1461) + min (inLeapCycle / 365) 3 + 1

theorem gregorianYear_short (d e : Int) (same : gregorianYear d = gregorianYear e) :
    d - e < 400 := by
  unfold gregorianYear at same
  simp only at same
  omega

/-- The Gregorian calendar at Greenwich. -/
def gregorian : Calendar := ⟨0, gregorianYear, gregorianYear_short⟩

/-- From the last day of 2020 to the first day of 2022. -/
example : [18627, 18628, 18992, 18993].map gregorianYear = [2020, 2021, 2021, 2022] := by decide

end Calendar

end LearningProjects
