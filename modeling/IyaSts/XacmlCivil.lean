import IyaSts.XacmlCalendar

namespace IyaSts.Xacml

/-!
# Dates

The months of the Gregorian calendar, the dates that exist and the day after one,
told without days being counted; and how the days of a year that begins in March
are dates of it.
-/

/-- The length of a month. -/
def lengthOfMonth (year month : Int) : Int :=
  if month = 2 then
    if Calendar.isLeap year then 29 else 28
  else if month ∈ [4, 6, 9, 11] then
    30
  else
    31

namespace Civil

/-- A date that exists. -/
structure Real (date : Civil) : Prop where
  fromJanuary : 1 ≤ date.month
  toDecember : date.month ≤ 12
  fromFirst : 1 ≤ date.day
  toLast : date.day ≤ lengthOfMonth date.year date.month

/-- The day after a date. -/
def next (date : Civil) : Civil :=
  if date.day < lengthOfMonth date.year date.month then
    { date with day := date.day + 1 }
  else if date.month = 12 then
    { year := date.year + 1, month := 1, day := 1 }
  else
    { date with month := date.month + 1, day := 1 }

/-- A date of a month and of one of its days, February taken for as long as the
engines count it. -/
structure Counted (date : Civil) : Prop where
  fromJanuary : 1 ≤ date.month
  toDecember : date.month ≤ 12
  fromFirst : 1 ≤ date.day
  toLast : date.day ≤ if date.month = 2 then 30 else lengthOfMonth date.year date.month

variable {date : Civil}

theorem Real.counted (isReal : date.Real) : date.Counted := by
  refine ⟨isReal.fromJanuary, isReal.toDecember, isReal.fromFirst, ?_⟩
  have toLast := isReal.toLast
  split
  · rename_i isFebruary
    rw [lengthOfMonth, if_pos isFebruary] at toLast
    split at toLast <;> omega
  · exact toLast

/-- A date is the one of its day of its year. -/
theorem Counted.dateOfDay_eq (counted : date.Counted) :
    dateOfDay date.marchYear date.dayOfYear = date := by
  rcases counted with ⟨fromJanuary, toDecember, fromFirst, toLast⟩
  rcases date with ⟨year, month, day⟩
  simp only at fromJanuary toDecember fromFirst toLast
  interval_cases month <;>
    simp [lengthOfMonth] at toLast <;>
    simp [dateOfDay, marchYear, dayOfYear, monthStart] <;>
    omega

theorem Counted.dayOfYear_bounds (counted : date.Counted) :
    0 ≤ date.dayOfYear ∧ date.dayOfYear ≤ 366 := by
  rcases counted with ⟨fromJanuary, toDecember, fromFirst, toLast⟩
  rcases date with ⟨year, month, day⟩
  simp only at fromJanuary toDecember fromFirst toLast
  interval_cases month <;> simp [lengthOfMonth] at toLast <;> simp [dayOfYear, monthStart] <;> omega

end Civil

variable {dayOfYear year : Int}

theorem counted_dateOfDay (begun : 0 ≤ dayOfYear) (notOver : dayOfYear ≤ 366) (year : Int) :
    (dateOfDay year dayOfYear).Counted := by
  obtain ⟨fromMarch, toFebruary⟩ := month_of_day begun notOver
  have before : 153 * ((5 * dayOfYear + 2) / 153) ≤ 5 * dayOfYear + 2 := by omega
  have after : 5 * dayOfYear + 2 < 153 * ((5 * dayOfYear + 2) / 153) + 153 := by omega
  unfold dateOfDay
  generalize (5 * dayOfYear + 2) / 153 = month at *
  refine ⟨?_, ?_, ?_, ?_⟩ <;> interval_cases month <;> simp [lengthOfMonth, monthStart] <;> omega

/-- A year that begins in March ends with its February. -/
theorem lengthOfMonth_february (year : Int) :
    lengthOfMonth (year + 1) 2 = yearLength year - 337 := by
  unfold lengthOfMonth yearLength endsLeap
  rw [if_pos rfl]
  split <;> rfl

theorem february_dateOfDay (begun : 0 ≤ dayOfYear)
    (isFebruary : (dateOfDay year dayOfYear).month = 2) :
    (dateOfDay year dayOfYear).year = year + 1 ∧
      (dateOfDay year dayOfYear).day = dayOfYear - 336 := by
  have isLast : (5 * dayOfYear + 2) / 153 = 11 := by
    simp only [dateOfDay] at isFebruary
    split at isFebruary <;> omega
  simp only [dateOfDay, isLast]
  have february : monthStart 11 = 337 := rfl
  exact ⟨rfl, by omega⟩

/-- A day's date exists when the day is in its year. -/
theorem real_dateOfDay (begun : 0 ≤ dayOfYear) (notOver : dayOfYear ≤ 366) (year : Int) :
    (dateOfDay year dayOfYear).Real ↔ dayOfYear < yearLength year := by
  obtain ⟨fromJanuary, toDecember, fromFirst, toLast⟩ := counted_dateOfDay begun notOver year
  have realIff :
      (dateOfDay year dayOfYear).Real ↔
        (dateOfDay year dayOfYear).day ≤
          lengthOfMonth (dateOfDay year dayOfYear).year (dateOfDay year dayOfYear).month :=
    ⟨Civil.Real.toLast, fun inMonth => ⟨fromJanuary, toDecember, fromFirst, inMonth⟩⟩
  rw [realIff]
  by_cases isFebruary : (dateOfDay year dayOfYear).month = 2
  · obtain ⟨isYear, isDay⟩ := february_dateOfDay begun isFebruary
    rw [isFebruary, isYear, isDay, lengthOfMonth_february]
    omega
  · rw [if_neg isFebruary] at toLast
    have isBefore : dayOfYear < 365 := by
      by_contra isLate
      apply isFebruary
      have isLast : (5 * dayOfYear + 2) / 153 = 11 := by omega
      simp only [dateOfDay, isLast]
      rfl
    have atLeast := (yearLength_bounds year).1
    constructor
    · intro
      omega
    · intro
      exact toLast

/-- But for the last of February, the day after a date is a day on in its year. -/
theorem Civil.Real.next_in_year {date : Civil} (isReal : date.Real)
    (notLast : ¬ (date.month = 2 ∧ date.day = lengthOfMonth date.year date.month)) :
    date.next.Counted ∧ date.next.marchYear = date.marchYear ∧
      date.next.dayOfYear = date.dayOfYear + 1 := by
  rcases isReal with ⟨fromJanuary, toDecember, fromFirst, toLast⟩
  rcases date with ⟨year, month, day⟩
  simp only at fromJanuary toDecember fromFirst toLast notLast
  by_cases within : day < lengthOfMonth year month
  · have isNext : Civil.next ⟨year, month, day⟩ = ⟨year, month, day + 1⟩ := by
      unfold Civil.next
      rw [if_pos within]
    have nextReal : Civil.Real ⟨year, month, day + 1⟩ :=
      ⟨fromJanuary, toDecember, by simp only; omega, within⟩
    rw [isNext]
    refine ⟨nextReal.counted, rfl, ?_⟩
    simp only [Civil.dayOfYear]
    omega
  · have isEnd : day = lengthOfMonth year month := by omega
    have notFebruary : month ≠ 2 := fun isFebruary => notLast ⟨isFebruary, isEnd⟩
    subst isEnd
    unfold Civil.next
    rw [if_neg within]
    clear within notLast toLast
    interval_cases month
    case «2» => exact absurd rfl notFebruary
    all_goals
      refine ⟨⟨?_, ?_, ?_, ?_⟩, ?_, ?_⟩ <;>
        simp [lengthOfMonth, Civil.marchYear, Civil.dayOfYear, monthStart]

/-- The day after a day's date is the next day's. -/
theorem next_dateOfDay (begun : 0 ≤ dayOfYear) (notOver : dayOfYear + 1 < yearLength year) :
    (dateOfDay year dayOfYear).next = dateOfDay year (dayOfYear + 1) := by
  have atMost := (yearLength_bounds year).2
  have isReal := (real_dateOfDay begun (by omega) year).mpr (by omega)
  have sameYear := marchYear_dateOfDay begun (by omega) year
  have sameDay := dayOfYear_dateOfDay begun (by omega) year
  have notLast :
      ¬ ((dateOfDay year dayOfYear).month = 2 ∧
        (dateOfDay year dayOfYear).day =
          lengthOfMonth (dateOfDay year dayOfYear).year (dateOfDay year dayOfYear).month) := by
    rintro ⟨isFebruary, isLast⟩
    obtain ⟨isYear, isDay⟩ := february_dateOfDay begun isFebruary
    rw [isFebruary, isYear, isDay, lengthOfMonth_february] at isLast
    omega
  obtain ⟨counted, nextYear, nextDay⟩ := isReal.next_in_year notLast
  rw [← counted.dateOfDay_eq, nextYear, nextDay, sameYear, sameDay]

/-- The day after the last of a year is the first of March. -/
theorem next_dateOfDay_last (isLast : dayOfYear + 1 = yearLength year) :
    (dateOfDay year dayOfYear).next = dateOfDay (year + 1) 0 := by
  have bounds := yearLength_bounds year
  have month : (5 * dayOfYear + 2) / 153 = 11 := by omega
  have isDate :
      dateOfDay year dayOfYear =
        { year := year + 1, month := 2, day := dayOfYear - 336 } := by
    have february : monthStart 11 = 337 := rfl
    simp only [dateOfDay, month, february]
    simp
    omega
  have whole : ¬ dayOfYear - 336 < lengthOfMonth (year + 1) 2 := by
    rw [lengthOfMonth_february]
    omega
  rw [isDate]
  unfold Civil.next
  rw [if_neg whole, if_neg (by simp)]
  simp [dateOfDay, monthStart]

end IyaSts.Xacml
