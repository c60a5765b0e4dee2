import IyaSts.Calendar
import IyaSts.XacmlTemporal
import Mathlib.Data.Int.ConditionallyCompleteOrder
import Mathlib.Tactic.IntervalCases

namespace IyaSts.Xacml

/-!
# Day counts and dates

Years are counted from March and cycles are of four hundred of them.  Rounding down
what was meant to be cut off, both conversions take a day before the first cycle
for one of the cycle before its own.  What they then make of it is told here by the
cycle, the year of it and the day of that year.
-/

/-! ## Years of a cycle -/

/-- The day of a cycle its year begins with; years beyond the cycle are counted
without the leap day that ends one. -/
def yearStart (yearOfCycle : Int) : Int := yearOfCycle * 365 + yearOfCycle / 4 - yearOfCycle / 100

/-- The day a month begins with, of a year that begins in March. -/
def monthStart (month : Int) : Int := (153 * month + 2) / 5

/-- The year of a cycle a day falls in, as both engines work it out. -/
def yearFound (dayOfCycle : Int) : Int :=
  (dayOfCycle - dayOfCycle / 1460 + dayOfCycle / 36524 - dayOfCycle / 146096) / 365

/-- The date of a day of a year that begins in March. -/
def dateOfDay (year dayOfYear : Int) : Civil :=
  let mp := (5 * dayOfYear + 2) / 153
  let month := mp + (if mp < 10 then 3 else -9)
  { year := year + (if month ≤ 2 then 1 else 0)
    month := month
    day := dayOfYear - monthStart mp + 1 }

/-- Whether the year that begins in March ends with a leap day. -/
def endsLeap (year : Int) : Bool := Calendar.isLeap (year + 1)

/-- The length of a year that begins in March. -/
def yearLength (year : Int) : Int := if endsLeap year then 366 else 365

theorem yearStart_cycle (yearOfCycle : Int) :
    yearStart (yearOfCycle + 400) = yearStart yearOfCycle + 146096 := by
  unfold yearStart
  omega

/-- The days of a year found in a cycle, before they are divided by a year's. -/
def commonDays (dayOfCycle : Int) : Int :=
  dayOfCycle - dayOfCycle / 1460 + dayOfCycle / 36524 - dayOfCycle / 146096

theorem commonDays_succ (dayOfCycle : Int) :
    commonDays dayOfCycle ≤ commonDays (dayOfCycle + 1) := by
  have quarter (day : Int) : day / 146096 = day / 36524 / 4 := by omega
  have fourYears : (dayOfCycle + 1) / 1460 ≤ dayOfCycle / 1460 + 1 := by omega
  have century : dayOfCycle / 36524 ≤ (dayOfCycle + 1) / 36524 := by omega
  have centuries :
      (dayOfCycle + 1) / 36524 / 4 - dayOfCycle / 36524 / 4 ≤
        (dayOfCycle + 1) / 36524 - dayOfCycle / 36524 := by
    generalize (dayOfCycle + 1) / 36524 = later at century ⊢
    generalize dayOfCycle / 36524 = earlier at century ⊢
    omega
  unfold commonDays
  rw [quarter, quarter]
  generalize (dayOfCycle + 1) / 36524 / 4 = laterCycles at centuries ⊢
  generalize dayOfCycle / 36524 / 4 = earlierCycles at centuries ⊢
  omega

/-- The year found does not go back. -/
theorem yearFound_mono {first second : Int} (later : first ≤ second) :
    yearFound first ≤ yearFound second := by
  have common : commonDays first ≤ commonDays second := by
    obtain ⟨count, rfl⟩ : ∃ count : Nat, second = first + count :=
      ⟨(second - first).toNat, by omega⟩
    clear later
    induction count with
    | zero => simp
    | succ count ih =>
      have next := commonDays_succ (first + count)
      rw [add_assoc] at next
      push_cast
      exact ih.trans next
  exact Int.ediv_le_ediv (by decide) common

/-- At its two ends each year of a cycle is found. -/
theorem yearFound_ends :
    ∀ year ∈ List.range 400,
      yearFound (yearStart year) = year ∧
        yearFound
            (if year = 399 then 146096 else yearStart (year + 1) - 1) =
          year := by
  decide +kernel

/-- A cycle on, a year is found from its second day to the day after its last. -/
theorem yearFound_ends_cycle_on :
    ∀ year ∈ List.range 400,
      yearFound (yearStart (year + 400) + 1) = year + 400 ∧
        yearFound (yearStart (year + 401)) = year + 400 := by
  decide +kernel

/-- The last day of a year of a cycle. -/
def yearEnd (yearOfCycle : Int) : Int :=
  if yearOfCycle = 399 then 146096 else yearStart (yearOfCycle + 1) - 1

variable {dayOfCycle year : Int}

/-- Every day of a cycle is in one of its years. -/
theorem exists_year (notBefore : 0 ≤ dayOfCycle) (notAfter : dayOfCycle < 146097) :
    ∃ year, 0 ≤ year ∧ year < 400 ∧ yearStart year ≤ dayOfCycle ∧ dayOfCycle ≤ yearEnd year := by
  have upTo :
      ∀ count : Nat, dayOfCycle < yearStart count →
        ∃ year : Int, 0 ≤ year ∧ year < count ∧ yearStart year ≤ dayOfCycle ∧
          dayOfCycle < yearStart (year + 1) := by
    intro count
    induction count with
    | zero =>
      intro isBefore
      have first : yearStart ((0 : Nat) : Int) = 0 := rfl
      omega
    | succ count ih =>
      intro isBefore
      by_cases earlier : dayOfCycle < yearStart count
      · obtain ⟨year, notNegative, isYear, begun, notOver⟩ := ih earlier
        exact ⟨year, notNegative, by omega, begun, notOver⟩
      · refine ⟨count, by omega, by omega, by omega, ?_⟩
        exact_mod_cast isBefore
  by_cases isLast : dayOfCycle = 146096
  · subst isLast
    exact ⟨399, by decide, by decide, by decide, by decide⟩
  · have inside : dayOfCycle < yearStart ((400 : Nat) : Int) := by
      have last : yearStart ((400 : Nat) : Int) = 146096 := rfl
      omega
    obtain ⟨year, notNegative, isYear, begun, notOver⟩ := upTo 400 inside
    refine ⟨year, notNegative, by omega, begun, ?_⟩
    unfold yearEnd
    split
    · omega
    · omega

/-- The year found of a day of a cycle is the year it is in. -/
theorem yearFound_eq (notNegative : 0 ≤ year) (isYear : year < 400)
    (begun : yearStart year ≤ dayOfCycle) (notOver : dayOfCycle ≤ yearEnd year) :
    yearFound dayOfCycle = year := by
  obtain ⟨count, rfl⟩ := Int.eq_ofNat_of_zero_le notNegative
  obtain ⟨atFirst, atLast⟩ := yearFound_ends count (List.mem_range.mpr (by omega))
  have sameEnd :
      (if count = 399 then 146096 else yearStart ((count : Int) + 1) - 1) = yearEnd count := by
    unfold yearEnd
    by_cases isLast : count = 399
    · simp [isLast]
    · rw [if_neg isLast, if_neg (by omega)]
  rw [sameEnd] at atLast
  have fromFirst := yearFound_mono begun
  have toLast := yearFound_mono notOver
  omega

/-- A cycle on, the year found is the year a day later. -/
theorem yearFound_cycle_on (notNegative : 0 ≤ year) (isYear : year < 400)
    (begun : yearStart year ≤ dayOfCycle) (notOver : dayOfCycle < yearStart (year + 1)) :
    yearFound (dayOfCycle + 146097) = year + 400 := by
  obtain ⟨count, rfl⟩ := Int.eq_ofNat_of_zero_le notNegative
  obtain ⟨atFirst, atLast⟩ := yearFound_ends_cycle_on count (List.mem_range.mpr (by omega))
  have firstCycleOn := yearStart_cycle count
  have lastCycleOn := yearStart_cycle ((count : Int) + 1)
  have sameLast : (count : Int) + 1 + 400 = count + 401 := by omega
  rw [sameLast] at lastCycleOn
  have fromFirst := yearFound_mono (show yearStart (count + 400) + 1 ≤ dayOfCycle + 146097 by omega)
  have toLast := yearFound_mono (show dayOfCycle + 146097 ≤ yearStart (count + 401) by omega)
  omega

/-! ## The two conversions -/

/-- Whether a day is taken for one of the cycle before its own: it is before the
first cycle, and not the last of one. -/
def CycleBefore (z : Int) : Prop := z < 0 ∧ z % 146097 ≠ 146096

instance (z : Int) : Decidable (CycleBefore z) := inferInstanceAs (Decidable (_ ∧ _))

/-- The cycle a day is taken for. -/
theorem cycle_of_day (z : Int) :
    (if 0 ≤ z then z else z - 146096) / 146097 = z / 146097 - (if CycleBefore z then 1 else 0) := by
  by_cases isBefore : CycleBefore z
  · obtain ⟨isNegative, notLast⟩ := isBefore
    rw [if_neg (by omega), if_pos ⟨isNegative, notLast⟩]
    omega
  · have known : 0 ≤ z ∨ z % 146097 = 146096 := by
      unfold CycleBefore at isBefore
      omega
    rw [if_neg isBefore]
    split <;> omega

variable (days : Int)

theorem civilFromDays_eq :
    Node.civilFromDays days =
      let z := days + 719468
      let era := (if 0 ≤ z then z else z - 146096) / 146097
      let doe := z - era * 146097
      dateOfDay (yearFound doe + era * 400) (doe - yearStart (yearFound doe)) := by
  have sameStart (year : Int) : 365 * year + year / 4 - year / 100 = yearStart year := by
    rw [yearStart, Int.mul_comm]
  unfold Node.civilFromDays
  simp only [sameStart]
  rfl

/-- What `civilFromDays` makes of a day: the date of the day, or of the day after it
where the cycle before is taken. -/
theorem civilFromDays_of_parts {days cycle year dayOfYear : Int} (notNegative : 0 ≤ year)
    (isYear : year < 400) (begun : 0 ≤ dayOfYear)
    (notOver : yearStart year + dayOfYear ≤ yearEnd year)
    (isDay : days + 719468 = cycle * 146097 + yearStart year + dayOfYear) :
    Node.civilFromDays days =
      dateOfDay (cycle * 400 + year)
        (dayOfYear + if CycleBefore (days + 719468) then 1 else 0) := by
  have isPositive : 0 ≤ yearStart year := by
    unfold yearStart
    omega
  have inCycle : yearStart year + dayOfYear < 146097 := by
    unfold yearEnd at notOver
    have lastEnd : yearStart (year + 1) ≤ 146096 := by
      unfold yearStart
      omega
    split at notOver
    · omega
    · omega
  rw [civilFromDays_eq]
  simp only [cycle_of_day]
  rw [isDay]
  have isCycle : (cycle * 146097 + yearStart year + dayOfYear) / 146097 = cycle := by
    clear notOver isDay
    generalize yearStart year = start at isPositive inCycle ⊢
    omega
  have isDayOfCycle :
      (cycle * 146097 + yearStart year + dayOfYear) % 146097 = yearStart year + dayOfYear := by
    clear notOver isDay
    generalize yearStart year = start at isPositive inCycle ⊢
    omega
  rw [isCycle]
  by_cases isBefore : CycleBefore (cycle * 146097 + yearStart year + dayOfYear)
  · rw [if_pos isBefore]
    have notLast := isBefore.2
    rw [isDayOfCycle] at notLast
    have notOverYear : yearStart year + dayOfYear < yearStart (year + 1) := by
      unfold yearEnd at notOver
      split at notOver
      · rename_i isLastYear
        subst isLastYear
        have lastYear : yearStart (399 + 1) = 146096 := rfl
        omega
      · omega
    have found :
        yearFound
            (cycle * 146097 + yearStart year + dayOfYear - (cycle - 1) * 146097) =
          year + 400 := by
      have cycleOn :
          cycle * 146097 + yearStart year + dayOfYear - (cycle - 1) * 146097 =
            yearStart year + dayOfYear + 146097 := by
        ring
      rw [cycleOn]
      exact yearFound_cycle_on notNegative isYear (by omega) notOverYear
    rw [found, yearStart_cycle]
    congr 1 <;> omega
  · rw [if_neg isBefore]
    have found :
        yearFound
            (cycle * 146097 + yearStart year + dayOfYear - (cycle - 0) * 146097) =
          year := by
      have inOwn :
          cycle * 146097 + yearStart year + dayOfYear - (cycle - 0) * 146097 =
            yearStart year + dayOfYear := by
        ring
      rw [inOwn]
      exact yearFound_eq notNegative isYear (by omega) notOver
    rw [found]
    congr 1 <;> omega

/-- What `daysFromCivil` makes of a date: the count of its day, less one where the
cycle before is taken. -/
def TakesOneLess (year : Int) : Prop := year < 0 ∧ year % 400 ≠ 399

instance (year : Int) : Decidable (TakesOneLess year) := inferInstanceAs (Decidable (_ ∧ _))

/-- The count of a day of a year that begins in March. -/
def countOfDay (year dayOfYear : Int) : Int :=
  year / 400 * 146097 + yearStart (year % 400) + dayOfYear - 719468

/-- The year, from March, that a date is in. -/
def Civil.marchYear (date : Civil) : Int := date.year - (if date.month ≤ 2 then 1 else 0)

/-- The day of that year. -/
def Civil.dayOfYear (date : Civil) : Int :=
  monthStart (date.month + (if 2 < date.month then -3 else 9)) + date.day - 1

theorem daysFromCivil_eq (date : Civil) :
    Node.daysFromCivil date.year date.month date.day =
      countOfDay date.marchYear date.dayOfYear -
        (if TakesOneLess date.marchYear then 1 else 0) := by
  have unfolded :
      Node.daysFromCivil date.year date.month date.day =
        let y := date.marchYear
        let era := (if 0 ≤ y then y else y - 399) / 400
        era * 146097 + (yearStart (y - era * 400) + date.dayOfYear) - 719468 :=
    rfl
  rw [unfolded]
  simp only
  generalize date.marchYear = year
  generalize date.dayOfYear = dayOfYear
  unfold countOfDay
  by_cases isLess : TakesOneLess year
  · obtain ⟨isNegative, notLast⟩ := isLess
    rw [if_neg (by omega), if_pos ⟨isNegative, notLast⟩]
    have cycleOn := yearStart_cycle (year % 400)
    have era : (year - 399) / 400 = year / 400 - 1 := by omega
    have yearOfEra : year - (year / 400 - 1) * 400 = year % 400 + 400 := by omega
    rw [era, yearOfEra, cycleOn]
    omega
  · have known : 0 ≤ year ∨ year % 400 = 399 := by
      unfold TakesOneLess at isLess
      omega
    rw [if_neg isLess]
    have era : (if 0 ≤ year then year else year - 399) / 400 = year / 400 := by split <;> omega
    have yearOfEra : year - year / 400 * 400 = year % 400 := by omega
    rw [era, yearOfEra]
    omega

/-! ## Days of a year and dates -/

theorem yearLength_eq (year : Int) :
    yearLength year =
      if (year + 1) % 4 = 0 ∧
          ((year + 1) % 100 ≠ 0 ∨ (year + 1) % 400 = 0) then
        366
      else
        365 := by
  simp only [yearLength, endsLeap, Calendar.isLeap, decide_eq_true_eq]

theorem yearLength_bounds (year : Int) : 365 ≤ yearLength year ∧ yearLength year ≤ 366 := by
  unfold yearLength
  split <;> omega

/-- A year is as long as the cycle's years are, the last with its leap day. -/
theorem yearLength_of_cycle (notNegative : 0 ≤ year) (isYear : year < 400) (cycle : Int) :
    yearStart year + yearLength (cycle * 400 + year) = yearEnd year + 1 := by
  rw [yearLength_eq]
  unfold yearEnd yearStart
  by_cases isLast : year = 399
  · subst isLast
    rw [if_pos (by omega), if_pos rfl]
    rfl
  · rw [if_neg isLast]
    split <;> omega

/-- Whether `civilFromDays` answers with the day after the one it is given. -/
def SkipsOne (year dayOfYear : Int) : Prop := year < 0 ∧ ¬ (year % 400 = 399 ∧ dayOfYear = 365)

instance (year dayOfYear : Int) : Decidable (SkipsOne year dayOfYear) :=
  inferInstanceAs (Decidable (_ ∧ _))

/-- The day after the last of a year is the first of the next. -/
theorem countOfDay_yearLength (year : Int) :
    countOfDay year (yearLength year) = countOfDay (year + 1) 0 := by
  obtain ⟨cycle, rest, rfl, notNegative, isYear⟩ :
      ∃ cycle rest, year = cycle * 400 + rest ∧ 0 ≤ rest ∧ rest < 400 :=
    ⟨year / 400, year % 400, by omega, by omega, by omega⟩
  have length := yearLength_of_cycle notNegative isYear cycle
  have ownCycle : (cycle * 400 + rest) / 400 = cycle := by omega
  have ownYear : (cycle * 400 + rest) % 400 = rest := by omega
  unfold countOfDay
  rw [ownCycle, ownYear]
  by_cases isLast : rest = 399
  · subst isLast
    have nextCycle : (cycle * 400 + 399 + 1) / 400 = cycle + 1 := by omega
    have firstYear : (cycle * 400 + 399 + 1) % 400 = 0 := by omega
    have lastDay : yearEnd 399 = 146096 := rfl
    have firstDay : yearStart 0 = 0 := rfl
    rw [nextCycle, firstYear, firstDay]
    omega
  · have sameCycle : (cycle * 400 + rest + 1) / 400 = cycle := by omega
    have nextYear : (cycle * 400 + rest + 1) % 400 = rest + 1 := by omega
    rw [sameCycle, nextYear]
    unfold yearEnd at length
    rw [if_neg isLast] at length
    omega

/-- Every day is one of a year's. -/
theorem exists_countOfDay :
    ∃ year dayOfYear, 0 ≤ dayOfYear ∧ dayOfYear < yearLength year ∧
      days = countOfDay year dayOfYear := by
  obtain ⟨rest, notNegative, isYear, begun, notOver⟩ :=
    exists_year
      (show 0 ≤ (days + 719468) % 146097 by omega)
      (show (days + 719468) % 146097 < 146097 by omega)
  let cycle := (days + 719468) / 146097
  have length := yearLength_of_cycle notNegative isYear cycle
  refine
    ⟨cycle * 400 + rest, (days + 719468) % 146097 - yearStart rest,
      by omega, by omega, ?_⟩
  have ownCycle : (cycle * 400 + rest) / 400 = cycle := by omega
  have ownYear : (cycle * 400 + rest) % 400 = rest := by omega
  unfold countOfDay
  rw [ownCycle, ownYear]
  omega

/-- What `civilFromDays` makes of a day of a year. -/
theorem civilFromDays_countOfDay {year dayOfYear : Int} (begun : 0 ≤ dayOfYear)
    (notOver : dayOfYear < yearLength year) :
    Node.civilFromDays (countOfDay year dayOfYear) =
      dateOfDay year (dayOfYear + if SkipsOne year dayOfYear then 1 else 0) := by
  obtain ⟨cycle, rest, rfl, notNegative, isYear⟩ :
      ∃ cycle rest, year = cycle * 400 + rest ∧ 0 ≤ rest ∧ rest < 400 :=
    ⟨year / 400, year % 400, by omega, by omega, by omega⟩
  have length := yearLength_of_cycle notNegative isYear cycle
  have ownCycle : (cycle * 400 + rest) / 400 = cycle := by omega
  have ownYear : (cycle * 400 + rest) % 400 = rest := by omega
  have isDay :
      countOfDay (cycle * 400 + rest) dayOfYear + 719468 =
        cycle * 146097 + yearStart rest + dayOfYear := by
    unfold countOfDay
    rw [ownCycle, ownYear]
    omega
  have sameSkip :
      CycleBefore (countOfDay (cycle * 400 + rest) dayOfYear + 719468) ↔
        SkipsOne (cycle * 400 + rest) dayOfYear := by
    rw [isDay]
    have startNotNegative : 0 ≤ yearStart rest := by
      unfold yearStart
      omega
    unfold CycleBefore SkipsOne
    rw [ownYear]
    by_cases isLast : rest = 399
    · subst isLast
      have lastStart : yearStart 399 = 145731 := rfl
      have lastDay : yearEnd 399 = 146096 := rfl
      omega
    · unfold yearEnd at length
      rw [if_neg isLast] at length
      have lastEnd : yearStart (rest + 1) ≤ 145731 := by
        unfold yearStart
        omega
      generalize yearStart (rest + 1) = nextStart at length lastEnd
      generalize yearStart rest = start at length startNotNegative ⊢
      omega
  rw [civilFromDays_of_parts notNegative isYear begun (by omega) isDay]
  by_cases skips : SkipsOne (cycle * 400 + rest) dayOfYear
  · rw [if_pos skips, if_pos (sameSkip.mpr skips)]
  · rw [if_neg skips, if_neg (mt sameSkip.mp skips)]

/-- The months of a year that begins in March hold its days. -/
theorem month_of_day {dayOfYear : Int} (begun : 0 ≤ dayOfYear) (notOver : dayOfYear ≤ 366) :
    0 ≤ (5 * dayOfYear + 2) / 153 ∧ (5 * dayOfYear + 2) / 153 ≤ 11 := by
  omega

/-- A day's date says its year and its day. -/
theorem marchYear_dateOfDay {dayOfYear : Int} (begun : 0 ≤ dayOfYear) (notOver : dayOfYear ≤ 366)
    (year : Int) :
    (dateOfDay year dayOfYear).marchYear = year := by
  simp only [Civil.marchYear, dateOfDay]
  omega

theorem dayOfYear_dateOfDay {dayOfYear : Int} (begun : 0 ≤ dayOfYear) (notOver : dayOfYear ≤ 366)
    (year : Int) :
    (dateOfDay year dayOfYear).dayOfYear = dayOfYear := by
  obtain ⟨fromFirst, toLast⟩ := month_of_day begun notOver
  have isMonth :
      (dateOfDay year dayOfYear).month =
        (5 * dayOfYear + 2) / 153 + (if (5 * dayOfYear + 2) / 153 < 10 then 3 else -9) := rfl
  have fromMarch :
      (dateOfDay year dayOfYear).month +
          (if 2 < (dateOfDay year dayOfYear).month then -3 else 9) =
        (5 * dayOfYear + 2) / 153 := by
    generalize (dateOfDay year dayOfYear).month = month at isMonth ⊢
    generalize (5 * dayOfYear + 2) / 153 = monthOfYear at *
    subst isMonth
    split <;> split <;> omega
  have isDay :
      (dateOfDay year dayOfYear).day = dayOfYear - monthStart ((5 * dayOfYear + 2) / 153) + 1 := rfl
  unfold Civil.dayOfYear
  rw [fromMarch, isDay]
  omega

/-- What `daysFromCivil` makes of a day's date. -/
theorem daysFromCivil_dateOfDay {dayOfYear : Int} (begun : 0 ≤ dayOfYear)
    (notOver : dayOfYear ≤ 366) (year : Int) :
    Node.daysFromCivil (dateOfDay year dayOfYear).year
        (dateOfDay year dayOfYear).month (dateOfDay year dayOfYear).day =
      countOfDay year dayOfYear - (if TakesOneLess year then 1 else 0) := by
  rw [daysFromCivil_eq, marchYear_dateOfDay begun notOver, dayOfYear_dateOfDay begun notOver]

theorem dateOfDay_injective {firstDay secondDay : Int} (firstBegun : 0 ≤ firstDay)
    (firstNotOver : firstDay ≤ 366) (secondBegun : 0 ≤ secondDay) (secondNotOver : secondDay ≤ 366)
    {firstYear secondYear : Int}
    (same : dateOfDay firstYear firstDay = dateOfDay secondYear secondDay) :
    firstYear = secondYear ∧ firstDay = secondDay := by
  have sameYear := congrArg Civil.marchYear same
  have sameDay := congrArg Civil.dayOfYear same
  rw [marchYear_dateOfDay firstBegun firstNotOver,
    marchYear_dateOfDay secondBegun secondNotOver] at sameYear
  rw [dayOfYear_dateOfDay firstBegun firstNotOver,
    dayOfYear_dateOfDay secondBegun secondNotOver] at sameDay
  exact ⟨sameYear, sameDay⟩

end IyaSts.Xacml
