/-
Module: Plumego.Go.Calendar
Purpose: Dates and times of day in UTC: `time.Date` with its normalisation, and the fields of an
  instant, in whole seconds.
Trusted boundary: the definitions follow the documented behaviour of the Go standard library on
  the proleptic Gregorian calendar; instants stay far from the ends of what `time.Time` holds.
Main exports: dateUTC, addDate, dateUTC_of_date, dateUTC_today, dateUTC_nextMonth,
  addDate_firstOfMonth
-/
import Mathlib.Tactic.NormNum
import Plumego.Lib.Gregorian

namespace Plumego.Go

open Plumego.Lib

/-- The days from the first day of the year 1 to the Unix epoch. -/
def epochDay : Int := 719162

/-- `time.Date(year, month, day, hour, min, sec, 0, time.UTC)`, in seconds since the Unix epoch.
Months outside of the year carry into the year, and everything else is added up. -/
def dateUTC (year month day hour minute second : Int) : Int :=
  (Gregorian.dayNumber (year + (month - 1) / 12) (((month - 1) % 12).toNat + 1) day - epochDay) * 86400 +
    hour * 3600 + minute * 60 + second

/-- The number of the day of an instant. -/
def dayNumberUTC (seconds : Int) : Int := seconds / 86400 + epochDay

/-- `Time.Year`. -/
def yearUTC (seconds : Int) : Int := Gregorian.yearOf (dayNumberUTC seconds)

/-- `Time.Month`. -/
def monthUTC (seconds : Int) : Int := Gregorian.monthOf (dayNumberUTC seconds)

/-- `Time.Day`. -/
def dayUTC (seconds : Int) : Int := Gregorian.dayOf (dayNumberUTC seconds)

/-- `Time.Hour`. -/
def hourUTC (seconds : Int) : Int := seconds % 86400 / 3600

/-- `Time.Minute`. -/
def minuteUTC (seconds : Int) : Int := seconds % 3600 / 60

/-- `Time.Second`. -/
def secondUTC (seconds : Int) : Int := seconds % 60

/-- `Time.Weekday`, from Sunday on; the year 1 began with a Monday. -/
def weekdayUTC (seconds : Int) : Int := (dayNumberUTC seconds + 1) % 7

/-- `Time.AddDate`, for an instant on a whole second. -/
def addDate (seconds years months days : Int) : Int :=
  dateUTC (yearUTC seconds + years) (monthUTC seconds + months) (dayUTC seconds + days)
    (hourUTC seconds) (minuteUTC seconds) (secondUTC seconds)

/-- A month of the year is not changed by the normalisation. -/
theorem dateUTC_month (year : Int) {month : Nat} (range : 1 ≤ month ∧ month ≤ 12)
    (day hour minute second : Int) :
    dateUTC year month day hour minute second =
      (Gregorian.dayNumber year month day - epochDay) * 86400 + hour * 3600 + minute * 60 + second := by
  have sameYear : ((month : Int) - 1) / 12 = 0 := by omega
  have sameMonth : (((month : Int) - 1) % 12).toNat + 1 = month := by omega
  rw [dateUTC, sameYear, sameMonth, Int.add_zero]

/-- The date of an instant, some days later and at another time of the day. -/
theorem dateUTC_of_date (seconds days hour minute second : Int) :
    dateUTC (yearUTC seconds) (monthUTC seconds) (dayUTC seconds + days) hour minute second =
      (seconds / 86400 + days) * 86400 + hour * 3600 + minute * 60 + second := by
  have date := Gregorian.dayNumber_date (dayNumberUTC seconds)
  have later : Gregorian.dayNumber (yearUTC seconds) (Gregorian.monthOf (dayNumberUTC seconds))
      (dayUTC seconds + days) = dayNumberUTC seconds + days := by
    unfold Gregorian.dayNumber at date ⊢
    unfold yearUTC dayUTC
    omega
  rw [monthUTC, dateUTC_month _ (Gregorian.monthOf_range _), later]
  unfold dayNumberUTC
  omega

/-- A time of the day of an instant. -/
theorem dateUTC_today (seconds hour minute second : Int) :
    dateUTC (yearUTC seconds) (monthUTC seconds) (dayUTC seconds) hour minute second =
      seconds / 86400 * 86400 + hour * 3600 + minute * 60 + second := by
  have date := dateUTC_of_date seconds 0 hour minute second
  rwa [Int.add_zero, Int.add_zero] at date

/-- The first day of the next month. -/
theorem dateUTC_nextMonth (seconds : Int) :
    dateUTC (yearUTC seconds) (monthUTC seconds + 1) 1 0 0 0 =
      (Gregorian.dayNumber (yearUTC seconds) (Gregorian.monthOf (dayNumberUTC seconds) + 1) 1 -
        epochDay) * 86400 := by
  have range := Gregorian.monthOf_range (dayNumberUTC seconds)
  by_cases last : Gregorian.monthOf (dayNumberUTC seconds) = 12
  · rw [last, Gregorian.dayNumber_thirteen, monthUTC, last]
    simp only [dateUTC]
    norm_num
  · have step : (monthUTC seconds + 1 : Int) =
        ((Gregorian.monthOf (dayNumberUTC seconds) + 1 : Nat) : Int) := by
      unfold monthUTC
      omega
    rw [step, dateUTC_month _ (by omega)]
    omega

/-- The first day of the month of an instant. -/
theorem dateUTC_firstOfMonth (seconds : Int) :
    dateUTC (yearUTC seconds) (monthUTC seconds) 1 0 0 0 =
      (Gregorian.dayNumber (yearUTC seconds) (Gregorian.monthOf (dayNumberUTC seconds)) 1 -
        epochDay) * 86400 := by
  rw [monthUTC, dateUTC_month _ (Gregorian.monthOf_range _)]
  omega

/-- A month after the first day of a month comes the first day of the next one. -/
theorem addDate_firstOfMonth (seconds : Int) :
    addDate (dateUTC (yearUTC seconds) (monthUTC seconds) 1 0 0 0) 0 1 0 =
      dateUTC (yearUTC seconds) (monthUTC seconds + 1) 1 0 0 0 := by
  obtain ⟨yearEq, monthEq, dayEq⟩ := Gregorian.date_firstOfMonth (dayNumberUTC seconds)
  rw [dateUTC_firstOfMonth]
  generalize firstEq : Gregorian.dayNumber (yearUTC seconds)
    (Gregorian.monthOf (dayNumberUTC seconds)) 1 = first
  have sameFirst : Gregorian.dayNumber (Gregorian.yearOf (dayNumberUTC seconds))
      (Gregorian.monthOf (dayNumberUTC seconds)) 1 = first := firstEq
  rw [sameFirst] at yearEq monthEq dayEq
  have numberEq : dayNumberUTC ((first - epochDay) * 86400) = first := by
    unfold dayNumberUTC
    omega
  have midnight : hourUTC ((first - epochDay) * 86400) = 0 ∧
      minuteUTC ((first - epochDay) * 86400) = 0 ∧ secondUTC ((first - epochDay) * 86400) = 0 := by
    unfold hourUTC minuteUTC secondUTC
    omega
  rw [addDate, midnight.1, midnight.2.1, midnight.2.2, yearUTC, monthUTC, dayUTC, numberEq, yearEq,
    monthEq, dayEq, Int.add_zero, Int.add_zero]
  rfl

end Plumego.Go
