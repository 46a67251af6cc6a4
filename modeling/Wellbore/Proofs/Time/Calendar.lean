import Wellbore.Time.Calendar

/-!
# Days and their dates

The date of a day is found from the front: the era of 400 years, the year of the
era, the day of that year, and its month. The year comes from an estimate, the days
of the era less the leap days that may have passed, over 365. The estimate never
misses the year, which is what `daysBefore_yearOfEra` says, and with it the way back
from a date to its day is a sum.
-/

namespace Wellbore.Time

variable {d : Int}

/-- The year of an era in which a day of the era falls, counted from its first March. -/
def yearOfEra (d : Int) : Int := (d - d / 1460 + d / 36524 - d / 146096) / 365

/-- The days of an era before a year of it. -/
def daysBefore (year : Int) : Int := 365 * year + year / 4 - year / 100

theorem yearOfEra_bounds (h0 : 0 ≤ d) (h1 : d < 146097) :
    0 ≤ yearOfEra d ∧ yearOfEra d < 400 := by
  unfold yearOfEra
  omega

/-- The centuries passed are counted right; only the last day of an era comes after a fourth
full count of days. -/
theorem yearOfEra_div_hundred (h0 : 0 ≤ d) (h1 : d < 146097) :
    yearOfEra d / 100 = d / 36524 - d / 146096 := by
  have hcentury : d / 36524 = 0 ∨ d / 36524 = 1 ∨ d / 36524 = 2 ∨ d / 36524 = 3 ∨
      d / 36524 = 4 := by omega
  unfold yearOfEra
  rcases hcentury with h | h | h | h | h <;> omega

/-- A day lies in the year that is estimated for it. -/
theorem daysBefore_yearOfEra (h0 : 0 ≤ d) (h1 : d < 146097) :
    daysBefore (yearOfEra d) ≤ d ∧ d ≤ daysBefore (yearOfEra d) + 365 := by
  have hyear := yearOfEra_bounds h0 h1
  rw [daysBefore, yearOfEra_div_hundred h0 h1]
  unfold yearOfEra at *
  omega

/-- The day number of a date whose month is counted from March. -/
theorem dayNumber_fromMarch {year : Int} (era m day : Int) (hyear : 0 ≤ year ∧ year < 400)
    (hm : 0 ≤ m ∧ m < 12) (hday : 0 < day) :
    Date.dayNumber ⟨if (if m < 10 then m + 3 else m - 9) ≤ 2 then year + era * 400 + 1
        else year + era * 400, (if m < 10 then m + 3 else m - 9).toNat, day.toNat⟩ =
      era * 146097 + (daysBefore year + ((153 * m + 2) / 5 + day - 1)) - 719468 := by
  unfold Date.dayNumber daysBefore
  dsimp only
  by_cases h : m < 10
  · have hlate : ¬ m + 3 ≤ 2 ∧ ¬ (m + 3).toNat ≤ 2 := by omega
    have hmonth : ((m + 3).toNat : Int) - 3 = m := by omega
    have hera : (year + era * 400) / 400 = era ∧ (year + era * 400) % 400 = year := by omega
    rw [if_pos h, if_neg hlate.1, if_neg hlate.2, if_neg hlate.2, hmonth, hera.1, hera.2]
    omega
  · have hearly : m - 9 ≤ 2 ∧ (m - 9).toNat ≤ 2 := by omega
    have hmonth : ((m - 9).toNat : Int) + 9 = m := by omega
    have hera : (year + era * 400 + 1 - 1) / 400 = era ∧
        (year + era * 400 + 1 - 1) % 400 = year := by omega
    rw [if_neg h, if_pos hearly.1, if_pos hearly.2, if_pos hearly.2, hmonth, hera.1, hera.2]
    omega

theorem dayNumber_ofDayNumber (n : Int) : (Date.ofDayNumber n).dayNumber = n := by
  have h0 : 0 ≤ (n + 719468) % 146097 := Int.emod_nonneg _ (by decide)
  have h1 : (n + 719468) % 146097 < 146097 := Int.emod_lt_of_pos _ (by decide)
  have hera : (n + 719468) / 146097 * 146097 + (n + 719468) % 146097 = n + 719468 :=
    Int.mul_comm _ _ ▸ Int.mul_ediv_add_emod _ _
  have hyear := yearOfEra_bounds h0 h1
  have hinYear := daysBefore_yearOfEra h0 h1
  obtain ⟨dayOfYear, hday⟩ : ∃ x, x = (n + 719468) % 146097 -
    daysBefore (yearOfEra ((n + 719468) % 146097)) := ⟨_, rfl⟩
  have hsum := dayNumber_fromMarch ((n + 719468) / 146097) ((5 * dayOfYear + 2) / 153)
    (dayOfYear - (153 * ((5 * dayOfYear + 2) / 153) + 2) / 5 + 1) hyear (by omega) (by omega)
  rw [hday] at hsum
  exact hsum.trans (by omega)

/-- Two digits hold a month and a day of it. -/
theorem lt_of_valid {date : Date} (h : date.valid = true) : date.month < 100 ∧ date.day < 100 := by
  simp only [Date.valid, Bool.and_eq_true, decide_eq_true_eq] at h
  have hmost : daysInMonth date.year date.month ≤ 31 := by
    unfold daysInMonth
    split
    next => split <;> decide
    all_goals decide
  omega

end Wellbore.Time
