/-
Module: Plumego.Lib.Gregorian
Purpose: The proleptic Gregorian calendar: days counted from the first of January of the year 1,
  the year, month and day of a day, and the days of a month.
Trusted boundary: none
Main exports: dayNumber, yearOf, monthOf, dayOf, dayNumber_date, date_of_between, date_firstOfMonth
-/
import Mathlib.Order.Basic

namespace Plumego.Lib.Gregorian

/-- The year has a 29th of February. -/
def isLeap (year : Int) : Bool := year % 4 = 0 ∧ (year % 100 ≠ 0 ∨ year % 400 = 0)

/-- The days from the first day of the year 1 to the first day of a year. -/
def daysBeforeYear (year : Int) : Int :=
  365 * (year - 1) + (year - 1) / 4 - (year - 1) / 100 + (year - 1) / 400

/-- The days of a year before a month; the 13th month is the end of the year. -/
def daysBeforeMonth (leap : Bool) : Nat → Nat
  | 0 | 1 => 0
  | 2 => 31
  | 3 => (if leap then 1 else 0) + 59
  | 4 => (if leap then 1 else 0) + 90
  | 5 => (if leap then 1 else 0) + 120
  | 6 => (if leap then 1 else 0) + 151
  | 7 => (if leap then 1 else 0) + 181
  | 8 => (if leap then 1 else 0) + 212
  | 9 => (if leap then 1 else 0) + 243
  | 10 => (if leap then 1 else 0) + 273
  | 11 => (if leap then 1 else 0) + 304
  | 12 => (if leap then 1 else 0) + 334
  | _ => (if leap then 1 else 0) + 365

/-- The number of the day in a month of a year; the day may lie outside of the month. -/
def dayNumber (year : Int) (month : Nat) (day : Int) : Int :=
  daysBeforeYear year + daysBeforeMonth (isLeap year) month + (day - 1)

/-- The year of a day, by cycles of 400, 100 and 4 years and single years. -/
def yearOf (number : Int) : Int :=
  let rest := number % 146097
  let centuries := min (rest / 36524) 3
  let rest := rest - 36524 * centuries
  let leaps := rest / 1461
  let rest := rest - 1461 * leaps
  let years := min (rest / 365) 3
  400 * (number / 146097) + 100 * centuries + 4 * leaps + years + 1

/-- The days of its year that come before a day. -/
def yearDay (number : Int) : Nat := (number - daysBeforeYear (yearOf number)).toNat

/-- The month of a day of the year: the last one that has begun. -/
def monthOfYearDay (leap : Bool) (yearDay : Nat) : Nat :=
  if daysBeforeMonth leap 12 ≤ yearDay then 12
  else if daysBeforeMonth leap 11 ≤ yearDay then 11
  else if daysBeforeMonth leap 10 ≤ yearDay then 10
  else if daysBeforeMonth leap 9 ≤ yearDay then 9
  else if daysBeforeMonth leap 8 ≤ yearDay then 8
  else if daysBeforeMonth leap 7 ≤ yearDay then 7
  else if daysBeforeMonth leap 6 ≤ yearDay then 6
  else if daysBeforeMonth leap 5 ≤ yearDay then 5
  else if daysBeforeMonth leap 4 ≤ yearDay then 4
  else if daysBeforeMonth leap 3 ≤ yearDay then 3
  else if daysBeforeMonth leap 2 ≤ yearDay then 2
  else 1

/-- The month of a day. -/
def monthOf (number : Int) : Nat := monthOfYearDay (isLeap (yearOf number)) (yearDay number)

/-- The day of the month. -/
def dayOf (number : Int) : Int :=
  yearDay number - daysBeforeMonth (isLeap (yearOf number)) (monthOf number) + 1

/-! ## Years -/

/-- A year written by cycles of 400, 100 and 4 years. -/
theorem daysBeforeYear_cycles {cycles centuries leaps years : Int}
    (centuriesRange : 0 ≤ centuries ∧ centuries ≤ 3) (leapsRange : 0 ≤ leaps ∧ leaps ≤ 24)
    (yearsRange : 0 ≤ years ∧ years ≤ 3) :
    daysBeforeYear (400 * cycles + 100 * centuries + 4 * leaps + years + 1) =
      146097 * cycles + 36524 * centuries + 1461 * leaps + 365 * years := by
  unfold daysBeforeYear
  omega

theorem daysBeforeYear_succ (year : Int) :
    daysBeforeYear (year + 1) = daysBeforeYear year + if isLeap year then 366 else 365 := by
  unfold daysBeforeYear isLeap
  by_cases leap : year % 4 = 0 ∧ (year % 100 ≠ 0 ∨ year % 400 = 0)
  · rw [if_pos (decide_eq_true leap)]
    omega
  · rw [if_neg (by simpa using leap)]
    omega

/-- Years begin in their order. -/
theorem daysBeforeYear_mono {year later : Int} (before : year ≤ later) :
    daysBeforeYear year ≤ daysBeforeYear later := by
  unfold daysBeforeYear
  omega

/-- The leap years among the cycles: each fourth year, but for the last of a century that is not
the last of a cycle. -/
theorem isLeap_cycles {cycles centuries leaps years : Int}
    (centuriesRange : 0 ≤ centuries ∧ centuries ≤ 3) (leapsRange : 0 ≤ leaps ∧ leaps ≤ 24)
    (yearsRange : 0 ≤ years ∧ years ≤ 3) :
    isLeap (400 * cycles + 100 * centuries + 4 * leaps + years + 1) = true ↔
      years = 3 ∧ (leaps ≠ 24 ∨ centuries = 3) := by
  have four : (400 * cycles + 100 * centuries + 4 * leaps + years + 1) % 4 = 0 ↔ years = 3 := by omega
  have hundred : (400 * cycles + 100 * centuries + 4 * leaps + years + 1) % 100 = 0 ↔
      years = 3 ∧ leaps = 24 := by omega
  have all : (400 * cycles + 100 * centuries + 4 * leaps + years + 1) % 400 = 0 ↔
      years = 3 ∧ leaps = 24 ∧ centuries = 3 := by omega
  simp only [isLeap, decide_eq_true_eq, ne_eq, four, hundred, all]
  constructor
  · rintro ⟨last, notCentury | lastOfAll⟩
    · exact ⟨last, .inl fun lastLeap => notCentury ⟨last, lastLeap⟩⟩
    · exact ⟨last, .inr lastOfAll.2.2⟩
  · rintro ⟨last, notCentury | lastCentury⟩
    · exact ⟨last, .inl fun both => notCentury both.2⟩
    · by_cases lastLeap : leaps = 24
      · exact ⟨last, .inr ⟨last, lastLeap, lastCentury⟩⟩
      · exact ⟨last, .inl fun both => lastLeap both.2⟩

/-- The days of a year in its place among the cycles. -/
theorem daysBeforeYear_succ_cycles {cycles centuries leaps years : Int}
    (centuriesRange : 0 ≤ centuries ∧ centuries ≤ 3) (leapsRange : 0 ≤ leaps ∧ leaps ≤ 24)
    (yearsRange : 0 ≤ years ∧ years ≤ 3) :
    daysBeforeYear (400 * cycles + 100 * centuries + 4 * leaps + years + 1 + 1) =
      146097 * cycles + 36524 * centuries + 1461 * leaps + 365 * years +
        if years = 3 ∧ (leaps ≠ 24 ∨ centuries = 3) then 366 else 365 := by
  rw [daysBeforeYear_succ, daysBeforeYear_cycles centuriesRange leapsRange yearsRange]
  simp only [isLeap_cycles centuriesRange leapsRange yearsRange]

/-- The parts of a day number. -/
structure Cycles (number cycles centuries leaps years rest : Int) : Prop where
  whole : number = 146097 * cycles + 36524 * centuries + 1461 * leaps + 365 * years + rest
  centuriesRange : 0 ≤ centuries ∧ centuries ≤ 3
  leapsRange : 0 ≤ leaps ∧ leaps ≤ 24
  yearsRange : 0 ≤ years ∧ years ≤ 3
  restRange : 0 ≤ rest ∧ rest < 366
  restSmall : rest = 365 → years = 3 ∧ (leaps ≠ 24 ∨ centuries = 3)
  yearEq : yearOf number = 400 * cycles + 100 * centuries + 4 * leaps + years + 1

theorem exists_cycles (number : Int) :
    ∃ cycles centuries leaps years rest, Cycles number cycles centuries leaps years rest := by
  obtain ⟨inCycle, inCycleEq⟩ : ∃ rest, rest = number % 146097 := ⟨_, rfl⟩
  obtain ⟨centuries, centuriesEq⟩ : ∃ centuries, centuries = min (inCycle / 36524) 3 := ⟨_, rfl⟩
  obtain ⟨inCentury, inCenturyEq⟩ : ∃ rest, rest = inCycle - 36524 * centuries := ⟨_, rfl⟩
  obtain ⟨leaps, leapsEq⟩ : ∃ leaps, leaps = inCentury / 1461 := ⟨_, rfl⟩
  obtain ⟨inLeap, inLeapEq⟩ : ∃ rest, rest = inCentury - 1461 * leaps := ⟨_, rfl⟩
  obtain ⟨years, yearsEq⟩ : ∃ years, years = min (inLeap / 365) 3 := ⟨_, rfl⟩
  have yearEq : yearOf number =
      400 * (number / 146097) + 100 * centuries + 4 * leaps + years + 1 := by
    rw [yearsEq, inLeapEq, leapsEq, inCenturyEq, centuriesEq, inCycleEq]
    rfl
  have whole : number = 146097 * (number / 146097) + inCycle := by omega
  have inCycleRange : 0 ≤ inCycle ∧ inCycle < 146097 := by omega
  clear inCycleEq
  have centuriesRange : 0 ≤ centuries ∧ centuries ≤ 3 := by omega
  have inCenturyRange : 0 ≤ inCentury ∧ inCentury ≤ 36524 := by omega
  have inCenturySmall : inCentury = 36524 → centuries = 3 := by omega
  clear centuriesEq
  have leapsRange : 0 ≤ leaps ∧ leaps ≤ 24 := by omega
  have inLeapRange : 0 ≤ inLeap ∧ inLeap ≤ 1460 := by omega
  clear leapsEq
  have yearsRange : 0 ≤ years ∧ years ≤ 3 := by omega
  have restRange : 0 ≤ inLeap - 365 * years ∧ inLeap - 365 * years < 366 := by omega
  have restSmall : inLeap - 365 * years = 365 → years = 3 := by omega
  clear yearsEq
  refine ⟨number / 146097, centuries, leaps, years, inLeap - 365 * years, ?_⟩
  refine ⟨by omega, centuriesRange, leapsRange, yearsRange, restRange, ?_, yearEq⟩
  intro last
  refine ⟨restSmall last, ?_⟩
  by_cases lastLeap : leaps = 24
  · -- The last four years of a century have all their days in the last century of a cycle only.
    have lastYear := restSmall last
    exact .inr (inCenturySmall (by omega))
  · exact .inl lastLeap

/-- A day lies in its year. -/
theorem yearOf_spec (number : Int) :
    daysBeforeYear (yearOf number) ≤ number ∧ number < daysBeforeYear (yearOf number + 1) := by
  obtain ⟨cycles, centuries, leaps, years, rest, parts⟩ := exists_cycles number
  obtain ⟨restMin, restMax⟩ := parts.restRange
  rw [parts.yearEq,
    daysBeforeYear_cycles parts.centuriesRange parts.leapsRange parts.yearsRange,
    daysBeforeYear_succ_cycles parts.centuriesRange parts.leapsRange parts.yearsRange]
  have whole := parts.whole
  constructor
  · omega
  · split <;> rename_i leap
    · omega
    · have notLast : rest ≠ 365 := fun last => leap (parts.restSmall last)
      omega

/-- The year of a day is the one it lies in. -/
theorem yearOf_eq {number year : Int} (notBefore : daysBeforeYear year ≤ number)
    (notAfter : number < daysBeforeYear (year + 1)) : yearOf number = year := by
  obtain ⟨begun, notOver⟩ := yearOf_spec number
  rcases Int.lt_trichotomy (yearOf number) year with less | same | greater
  · have ordered := daysBeforeYear_mono (Int.add_one_le_of_lt less)
    omega
  · exact same
  · have ordered := daysBeforeYear_mono (Int.add_one_le_of_lt greater)
    omega

/-! ## Months -/

theorem daysBeforeMonth_thirteen (leap : Bool) :
    daysBeforeMonth leap 13 = if leap then 366 else 365 := by
  cases leap <;> rfl

theorem yearDay_lt (number : Int) : yearDay number < if isLeap (yearOf number) then 366 else 365 := by
  obtain ⟨begun, notOver⟩ := yearOf_spec number
  rw [daysBeforeYear_succ] at notOver
  unfold yearDay
  split <;> rename_i leap
  · rw [if_pos leap] at notOver
    omega
  · rw [if_neg leap] at notOver
    omega

theorem yearDay_eq (number : Int) : daysBeforeYear (yearOf number) + yearDay number = number := by
  have begun := (yearOf_spec number).1
  unfold yearDay
  omega

/-- The month of a day of the year has begun and is not over. -/
theorem monthOfYearDay_spec {leap : Bool} {day : Nat} (inYear : day < if leap then 366 else 365) :
    (1 ≤ monthOfYearDay leap day ∧ monthOfYearDay leap day ≤ 12) ∧
      daysBeforeMonth leap (monthOfYearDay leap day) ≤ day ∧
      day < daysBeforeMonth leap (monthOfYearDay leap day + 1) := by
  have checked : ∀ leap : Bool, ∀ day < 366, (day < if leap then 366 else 365) →
      (1 ≤ monthOfYearDay leap day ∧ monthOfYearDay leap day ≤ 12) ∧
        daysBeforeMonth leap (monthOfYearDay leap day) ≤ day ∧
        day < daysBeforeMonth leap (monthOfYearDay leap day + 1) := by decide +kernel
  refine checked leap day ?_ inYear
  cases leap <;> simp only [Bool.false_eq_true, if_true, if_false] at inYear <;> omega

/-- Months begin in their order. -/
theorem daysBeforeMonth_mono (leap : Bool) {month later : Nat} (before : month ≤ later)
    (inYear : later ≤ 13) : daysBeforeMonth leap month ≤ daysBeforeMonth leap later := by
  have checked : ∀ leap : Bool, ∀ later < 14, ∀ month < later + 1,
      daysBeforeMonth leap month ≤ daysBeforeMonth leap later := by decide +kernel
  exact checked leap later (by omega) month (by omega)

/-- The month of a day of the year is the one it lies in. -/
theorem monthOfYearDay_eq {leap : Bool} {day month : Nat} (inYear : day < if leap then 366 else 365)
    (isMonth : 1 ≤ month ∧ month ≤ 12) (notBefore : daysBeforeMonth leap month ≤ day)
    (notAfter : day < daysBeforeMonth leap (month + 1)) : monthOfYearDay leap day = month := by
  obtain ⟨⟨_, atMost⟩, begun, notOver⟩ := monthOfYearDay_spec inYear
  rcases Nat.lt_trichotomy (monthOfYearDay leap day) month with less | same | greater
  · have ordered : daysBeforeMonth leap (monthOfYearDay leap day + 1) ≤ daysBeforeMonth leap month :=
      daysBeforeMonth_mono leap less (by omega)
    omega
  · exact same
  · have ordered : daysBeforeMonth leap (month + 1) ≤ daysBeforeMonth leap (monthOfYearDay leap day) :=
      daysBeforeMonth_mono leap greater (by omega)
    omega

/-! ## Dates -/

theorem monthOf_range (number : Int) : 1 ≤ monthOf number ∧ monthOf number ≤ 12 :=
  (monthOfYearDay_spec (yearDay_lt number)).1

/-- The number of the date of a day is the day. -/
theorem dayNumber_date (number : Int) :
    dayNumber (yearOf number) (monthOf number) (dayOf number) = number := by
  have counted := yearDay_eq number
  unfold dayNumber dayOf
  omega

/-- The first day of the month of a day is not later. -/
theorem dayOf_pos (number : Int) : 1 ≤ dayOf number := by
  have begun := (monthOfYearDay_spec (yearDay_lt number)).2.1
  change daysBeforeMonth _ (monthOf number) ≤ _ at begun
  unfold dayOf
  omega

/-- A day comes before the first day of the next month. -/
theorem lt_nextMonth (number : Int) :
    number < dayNumber (yearOf number) (monthOf number + 1) 1 := by
  have notOver := (monthOfYearDay_spec (yearDay_lt number)).2.2
  change _ < daysBeforeMonth _ (monthOf number + 1) at notOver
  have counted := yearDay_eq number
  unfold dayNumber
  omega

/-- The 13th month of a year begins with the next year. -/
theorem dayNumber_thirteen (year day : Int) : dayNumber year 13 day = dayNumber (year + 1) 1 day := by
  unfold dayNumber
  rw [daysBeforeYear_succ, daysBeforeMonth_thirteen]
  have first : daysBeforeMonth (isLeap (year + 1)) 1 = 0 := rfl
  rw [first]
  split <;> omega

/-- The days from the first of a month to the first of the next one are those of the month. -/
theorem date_of_between {year number : Int} {month : Nat} (isMonth : 1 ≤ month ∧ month ≤ 12)
    (notBefore : dayNumber year month 1 ≤ number) (notAfter : number < dayNumber year (month + 1) 1) :
    yearOf number = year ∧ monthOf number = month := by
  have monthEnd : daysBeforeMonth (isLeap year) (month + 1) ≤ daysBeforeMonth (isLeap year) 13 :=
    daysBeforeMonth_mono _ (Nat.succ_le_succ isMonth.2) (Nat.le_refl 13)
  rw [daysBeforeMonth_thirteen] at monthEnd
  unfold dayNumber at notBefore notAfter
  have yearEq : yearOf number = year := by
    refine yearOf_eq (by omega) ?_
    rw [daysBeforeYear_succ]
    split at monthEnd <;> rename_i leap
    · rw [if_pos leap]
      omega
    · rw [if_neg leap]
      omega
  refine ⟨yearEq, ?_⟩
  have counted := yearDay_eq number
  have inYear := yearDay_lt number
  rw [yearEq] at counted inYear
  rw [monthOf, yearEq]
  exact monthOfYearDay_eq inYear isMonth (by omega) (by omega)

/-- The day of a month of which the first day is known. -/
theorem dayOf_eq {year number : Int} {month : Nat} (yearEq : yearOf number = year)
    (monthEq : monthOf number = month) : dayOf number = number - dayNumber year month 1 + 1 := by
  have date := dayNumber_date number
  rw [yearEq, monthEq] at date
  unfold dayNumber at date ⊢
  omega

/-- A day is not before the first day of its month. -/
theorem firstOfMonth_le (number : Int) : dayNumber (yearOf number) (monthOf number) 1 ≤ number := by
  have positive := dayOf_pos number
  have dayEq := dayOf_eq (rfl : yearOf number = _) (rfl : monthOf number = _)
  omega

/-- The first day of the month of a day. -/
theorem date_firstOfMonth (number : Int) :
    yearOf (dayNumber (yearOf number) (monthOf number) 1) = yearOf number ∧
      monthOf (dayNumber (yearOf number) (monthOf number) 1) = monthOf number ∧
      dayOf (dayNumber (yearOf number) (monthOf number) 1) = 1 := by
  have before := firstOfMonth_le number
  have after := lt_nextMonth number
  obtain ⟨yearEq, monthEq⟩ := date_of_between (monthOf_range number) (Int.le_refl _)
    (Int.lt_of_le_of_lt before after)
  refine ⟨yearEq, monthEq, ?_⟩
  rw [dayOf_eq yearEq monthEq]
  omega

end Plumego.Lib.Gregorian
