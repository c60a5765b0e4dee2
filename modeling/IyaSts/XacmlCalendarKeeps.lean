import IyaSts.XacmlCivil

namespace IyaSts.Xacml

/-!
# Which days and dates the engines' arithmetic keeps

Both engines agree, and both take days before March of year zero for days of the
cycle before.  For each day, date and `dateTime` it is said exactly when the day
comes back, when the next date is counted one more, and when what was added can be
taken off again.
-/

/-- The two engines. -/
inductive DateEngine where
  | javascript
  | rust
  deriving DecidableEq

namespace DateEngine

def daysFromCivil : DateEngine → Civil → Int
  | javascript, date => Node.daysFromCivil date.year date.month date.day
  | rust, date => Rust.daysFromCivil date.year date.month date.day

def civilFromDays : DateEngine → Int → Civil
  | javascript => Node.civilFromDays
  | rust => Rust.civilFromDays

def addMonths : DateEngine → Temporal → Int → Temporal
  | javascript => Node.addMonths
  | rust => Rust.addMonths

def addSeconds : DateEngine → Temporal → Rat → Temporal
  | javascript => Node.addSeconds
  | rust => Rust.addSeconds

end DateEngine

/-! ## The Rust functions -/

variable {month dayOfCycle year dayOfYear : Int}

theorem Rust.daysFromCivil_eq (fromJanuary : 1 ≤ month) (year day : Int) :
    Rust.daysFromCivil year month day = Node.daysFromCivil year month day := by
  unfold Rust.daysFromCivil Node.daysFromCivil
  simp only
  have yearOfEra :
      0 ≤ year - (if month ≤ 2 then 1 else 0) -
        (if 0 ≤ year - (if month ≤ 2 then 1 else 0) then
            year - (if month ≤ 2 then 1 else 0)
          else
            year - (if month ≤ 2 then 1 else 0) - 399) / 400 * 400 := by
    generalize year - (if month ≤ 2 then 1 else 0) = marchYear
    split <;> omega
  have monthOfYear : 0 ≤ 153 * (month + (if 2 < month then -3 else 9)) + 2 := by split <;> omega
  rw [Int.tdiv_eq_ediv_of_nonneg yearOfEra, Int.tdiv_eq_ediv_of_nonneg yearOfEra,
    Int.tdiv_eq_ediv_of_nonneg monthOfYear]

/-- The year found has begun, also where it is one of the next cycle. -/
theorem yearStart_yearFound_le (notNegative : 0 ≤ dayOfCycle) (notAfter : dayOfCycle < 292193) :
    yearStart (yearFound dayOfCycle) ≤ dayOfCycle := by
  by_cases isFirst : dayOfCycle < 146097
  · obtain ⟨year, yearNotNegative, isYear, begun, notOver⟩ := exists_year notNegative isFirst
    rw [yearFound_eq yearNotNegative isYear begun notOver]
    exact begun
  · obtain ⟨year, yearNotNegative, isYear, begun, notOver⟩ :=
      exists_year
        (show 0 ≤ dayOfCycle - 146097 by omega)
        (show dayOfCycle - 146097 < 146097 by omega)
    have notOverYear : dayOfCycle - 146097 < yearStart (year + 1) := by
      unfold yearEnd at notOver
      split at notOver
      · rename_i isLast
        subst isLast
        have last : yearStart (399 + 1) = 146096 := rfl
        omega
      · omega
    have found := yearFound_cycle_on yearNotNegative isYear begun notOverYear
    rw [sub_add_cancel] at found
    rw [found, yearStart_cycle]
    omega

theorem yearFound_notNegative (notNegative : 0 ≤ dayOfCycle) :
    0 ≤ dayOfCycle - dayOfCycle / 1460 + dayOfCycle / 36524 - dayOfCycle / 146096 := by
  have quarter : dayOfCycle / 146096 = dayOfCycle / 36524 / 4 := by omega
  have centuries : dayOfCycle / 36524 / 4 ≤ dayOfCycle / 36524 := by
    have : 0 ≤ dayOfCycle / 36524 := by omega
    omega
  rw [quarter]
  omega

theorem Rust.civilFromDays_eq (days : Int) : Rust.civilFromDays days = Node.civilFromDays days := by
  have fromStart :
      0 ≤ days + 719468 -
        (if 0 ≤ days + 719468 then
            days + 719468
          else
            days + 719468 - 146096) / 146097 * 146097 ∧
      days + 719468 -
        (if 0 ≤ days + 719468 then
            days + 719468
          else
            days + 719468 - 146096) / 146097 * 146097 < 292193 := by
    split <;> omega
  unfold Rust.civilFromDays Node.civilFromDays
  simp only
  generalize
    days + 719468 -
        (if 0 ≤ days + 719468 then
            days + 719468
          else
            days + 719468 - 146096) / 146097 * 146097 = doe at fromStart ⊢
  obtain ⟨notNegative, notAfter⟩ := fromStart
  have common := yearFound_notNegative notNegative
  have isYear : 0 ≤ yearFound doe := Int.ediv_nonneg common (by decide)
  have begun := yearStart_yearFound_le notNegative notAfter
  have found : (doe - doe / 1460 + doe / 36524 - doe / 146096) / 365 = yearFound doe := rfl
  rw [Int.tdiv_eq_ediv_of_nonneg notNegative, Int.tdiv_eq_ediv_of_nonneg notNegative,
    Int.tdiv_eq_ediv_of_nonneg notNegative, Int.tdiv_eq_ediv_of_nonneg common, found,
    Int.tdiv_eq_ediv_of_nonneg isYear, Int.tdiv_eq_ediv_of_nonneg isYear]
  unfold yearStart at begun
  generalize yearFound doe = year at *
  have dayOfYear : 0 ≤ 5 * (doe - (365 * year + year / 4 - year / 100)) + 2 := by omega
  rw [Int.tdiv_eq_ediv_of_nonneg dayOfYear]
  have month : 0 ≤ 153 * ((5 * (doe - (365 * year + year / 4 - year / 100)) + 2) / 153) + 2 := by
    omega
  rw [Int.tdiv_eq_ediv_of_nonneg month]

theorem tmod_twelve (total : Int) : (total.tmod 12 + 12).tmod 12 = total % 12 := by
  have rest : total.tmod 12 = total % 12 ∨ total.tmod 12 = total % 12 - 12 := by
    rw [Int.tmod_eq_emod]
    split
    · left
      omega
    · right
      rfl
  rw [Int.tmod_eq_emod_of_nonneg (by omega)]
  omega

theorem Node.daysInMonth_eq (fromJanuary : 1 ≤ month) (toDecember : month ≤ 12) (year : Int) :
    Node.daysInMonth year month = lengthOfMonth year month := by
  have sameLeap :
      ((year.tmod 4 = 0 ∧ year.tmod 100 ≠ 0) ∨ year.tmod 400 = 0) ↔
        Calendar.isLeap year = true := by
    simp only [Calendar.isLeap, decide_eq_true_eq, ne_eq,
      ← Int.dvd_iff_tmod_eq_zero, Int.dvd_iff_emod_eq_zero]
    omega
  unfold Node.daysInMonth lengthOfMonth
  simp only [sameLeap]
  by_cases isFebruary : month = 2
  · subst isFebruary
    by_cases leap : Calendar.isLeap year = true <;> simp [leap, Node.monthLengths]
  · interval_cases month <;> simp [Node.monthLengths] at isFebruary ⊢

theorem Rust.daysInMonth_eq (fromJanuary : 1 ≤ month) (toDecember : month ≤ 12) (year : Int) :
    Rust.daysInMonth year month = Node.daysInMonth year month := by
  have inTable : max 0 (min (month - 1) 11) = month - 1 := by omega
  unfold Rust.daysInMonth Node.daysInMonth
  rw [inTable]

theorem Rust.addMonths_eq (value : Temporal) (months : Int) :
    Rust.addMonths value months = Node.addMonths value months := by
  unfold Rust.addMonths Node.addMonths
  simp only [tmod_twelve]
  rw [Rust.daysInMonth_eq (by omega) (by omega)]

theorem Rust.localSeconds_eq {value : Temporal} (fromJanuary : 1 ≤ value.month) :
    Rust.localSeconds value = Node.localSeconds value := by
  unfold Rust.localSeconds Node.localSeconds
  rw [Rust.daysFromCivil_eq fromJanuary]
  push_cast
  ring

theorem Rust.addSeconds_eq {value : Temporal} (fromJanuary : 1 ≤ value.month) (seconds : Rat) :
    Rust.addSeconds value seconds = Node.addSeconds value seconds := by
  unfold Rust.addSeconds Node.addSeconds
  simp only [Rust.localSeconds_eq fromJanuary, Rust.civilFromDays_eq]

/-! ## What is kept -/

/-- A day comes back from its date, and its date exists. -/
def DateEngine.KeepsDay (engine : DateEngine) (days : Int) : Prop :=
  engine.daysFromCivil (engine.civilFromDays days) = days ∧ (engine.civilFromDays days).Real

/-- The next date is counted one more. -/
def DateEngine.CountsOn (engine : DateEngine) (date : Civil) : Prop :=
  engine.daysFromCivil date.next = engine.daysFromCivil date + 1

/-- The day a moved date has exists, in the month the months lead to. -/
def DateEngine.MovesToDay (engine : DateEngine) (value : Temporal) (months : Int) : Prop :=
  let moved := engine.addMonths value months
  moved.year * 12 + (moved.month - 1) =
      value.year * 12 + (value.month - 1) + months ∧
    Civil.Real
      { year := moved.year, month := moved.month, day := moved.day }

/-- A `dateTime` as both parsers let it pass. -/
structure DateTime where
  date : Civil
  hour : Int
  minute : Int
  second : Rat
  tz : Option Int
  fromJanuary : 1 ≤ date.month
  toDecember : date.month ≤ 12
  fromFirst : 1 ≤ date.day
  toLast : date.day ≤ 31
  fromHour : 0 ≤ hour
  toHour : hour ≤ 24
  fromMinute : 0 ≤ minute
  toMinute : minute ≤ 59
  fromSecond : 0 ≤ second
  toSecond : second < 61

/-- The parsed value. -/
def DateTime.value (dateTime : DateTime) : Temporal where
  shape := .dateTime
  year := dateTime.date.year
  month := dateTime.date.month
  day := dateTime.date.day
  hour := dateTime.hour
  minute := dateTime.minute
  second := dateTime.second
  tz := dateTime.tz

/-- What is added to a `dateTime` can be taken off again. -/
def DateEngine.TakesBack (engine : DateEngine) (dateTime : DateTime) (seconds : Rat) : Prop :=
  engine.addSeconds (engine.addSeconds dateTime.value seconds) (-seconds) = dateTime.value

/-! ## When it is -/

/-- A day from March of year zero on, the last of a cycle before that, or one that
neither is in the last year of its cycle nor ends its year. -/
def KeptDay (days : Int) : Prop :=
  let z := days + 719468
  0 ≤ z ∨ z % 146097 = 146096 ∨
    ∃ year, 0 ≤ year ∧ year < 399 ∧ yearStart year ≤ z % 146097 ∧
      z % 146097 + 1 < yearStart (year + 1)

/-- The ends of February two days of a negative cycle are counted alike by, or one
is left out at. -/
def Civil.EndsOffCycle (date : Civil) : Prop :=
  date.year < 0 ∧ date.month = 2 ∧
    ((date.year % 400 = 399 ∧ date.day = 28) ∨ (date.year % 400 = 0 ∧ date.day = 29))

/-- The dates the day counted for them is the date of. -/
def Civil.ComesBack (date : Civil) : Prop :=
  date.Counted ∧
    ((0 ≤ date.marchYear ∧ date.dayOfYear < yearLength date.marchYear) ∨
      (date.marchYear < 0 ∧ date.marchYear % 400 ≠ 399 ∧
        1 ≤ date.dayOfYear ∧ date.dayOfYear ≤ yearLength date.marchYear) ∨
      (date.marchYear < 0 ∧ date.marchYear % 400 = 399 ∧ date.dayOfYear = 365))

/-- A day before March of year zero in the last year of its cycle, but for the last
day of it. -/
def InLastYear (days : Int) : Prop :=
  let z := days + 719468
  z < 0 ∧ 145731 ≤ z % 146097 ∧ z % 146097 ≠ 146096

namespace DateTime

/-- The seconds of the day. -/
def timeOfDay (dateTime : DateTime) : Rat :=
  dateTime.hour * 3600 + dateTime.minute * 60 + dateTime.second

/-- The day the seconds lead to, from the day the date is taken for. -/
def movedDay (dateTime : DateTime) (seconds : Rat) : Int :=
  countOfDay dateTime.date.marchYear dateTime.date.dayOfYear -
      (if TakesOneLess dateTime.date.marchYear then 1 else 0) +
    ⌊(dateTime.timeOfDay + seconds) / 86400⌋

/-- The time is one of the day, its date comes back, and the day led to is not in
the last year of a cycle. -/
def Returns (dateTime : DateTime) (seconds : Rat) : Prop :=
  dateTime.hour ≤ 23 ∧ dateTime.second < 60 ∧ dateTime.date.ComesBack ∧
    ¬ InLastYear (dateTime.movedDay seconds)

end DateTime

/-! ## Days -/

theorem yearStart_strictMono : StrictMono yearStart := by
  apply strictMono_int_of_lt_succ
  intro year
  unfold yearStart
  omega

/-- A year's days are of its cycle. -/
theorem dayOfCycle_bounds (begun : 0 ≤ dayOfYear) (notOver : dayOfYear < yearLength year) :
    0 ≤ yearStart (year % 400) + dayOfYear ∧ yearStart (year % 400) + dayOfYear < 146097 := by
  have length :=
    yearLength_of_cycle (show 0 ≤ year % 400 by omega) (show year % 400 < 400 by omega) (year / 400)
  have sameYear : year / 400 * 400 + year % 400 = year := by omega
  rw [sameYear] at length
  have start : 0 ≤ yearStart (year % 400) := by
    unfold yearStart
    omega
  have last : yearEnd (year % 400) ≤ 146096 := by
    unfold yearEnd
    split
    · exact le_rfl
    · have lastEnd : yearStart (year % 400 + 1) ≤ 146096 := by
        unfold yearStart
        omega
      omega
  omega

theorem dayOfCycle_countOfDay (begun : 0 ≤ dayOfYear) (notOver : dayOfYear < yearLength year) :
    (countOfDay year dayOfYear + 719468) % 146097 = yearStart (year % 400) + dayOfYear := by
  obtain ⟨fromStart, toEnd⟩ := dayOfCycle_bounds begun notOver
  unfold countOfDay
  generalize yearStart (year % 400) = start at *
  omega

theorem countOfDay_notNegative (begun : 0 ≤ dayOfYear) (notOver : dayOfYear < yearLength year) :
    0 ≤ countOfDay year dayOfYear + 719468 ↔ 0 ≤ year := by
  obtain ⟨fromStart, toEnd⟩ := dayOfCycle_bounds begun notOver
  unfold countOfDay
  generalize yearStart (year % 400) = start at *
  omega

/-- Where the years of a cycle meet. -/
theorem yearStart_add_yearLength (notLast : year % 400 ≠ 399) :
    yearStart (year % 400) + yearLength year = yearStart (year % 400 + 1) := by
  have length :=
    yearLength_of_cycle (show 0 ≤ year % 400 by omega) (show year % 400 < 400 by omega) (year / 400)
  have sameYear : year / 400 * 400 + year % 400 = year := by omega
  rw [sameYear, yearEnd, if_neg notLast] at length
  omega

theorem yearLength_last (isLast : year % 400 = 399) : yearLength year = 366 := by
  rw [yearLength_eq, if_pos (by omega)]

theorem keptDay_countOfDay (begun : 0 ≤ dayOfYear) (notOver : dayOfYear < yearLength year) :
    KeptDay (countOfDay year dayOfYear) ↔
      0 ≤ year ∨ (year % 400 = 399 ∧ dayOfYear = 365) ∨
        (year % 400 ≠ 399 ∧ dayOfYear + 1 < yearLength year) := by
  unfold KeptDay
  simp only [dayOfCycle_countOfDay begun notOver, countOfDay_notNegative begun notOver]
  have lastStart : yearStart 399 = 145731 := rfl
  by_cases isLast : year % 400 = 399
  · have length := yearLength_last isLast
    have noYear :
        ¬ ∃ found, 0 ≤ found ∧ found < 399 ∧
          yearStart found ≤ yearStart (year % 400) + dayOfYear ∧
          yearStart (year % 400) + dayOfYear + 1 < yearStart (found + 1) := by
      rintro ⟨found, -, isYear, -, notOverFound⟩
      have before : yearStart (found + 1) ≤ yearStart 399 :=
        yearStart_strictMono.monotone (by omega)
      rw [isLast] at notOverFound
      omega
    rw [or_iff_left noYear, isLast, lastStart]
    omega
  · have length := yearStart_add_yearLength isLast
    have lastEnd : yearStart (year % 400 + 1) ≤ yearStart 399 :=
      yearStart_strictMono.monotone (by omega)
    have isYear :
        (∃ found, 0 ≤ found ∧ found < 399 ∧
          yearStart found ≤ yearStart (year % 400) + dayOfYear ∧
          yearStart (year % 400) + dayOfYear + 1 < yearStart (found + 1)) ↔
          dayOfYear + 1 < yearLength year := by
      constructor
      · rintro ⟨found, -, -, begunFound, notOverFound⟩
        have notEarlier : ¬ found < year % 400 := by
          intro earlier
          have ended : yearStart (found + 1) ≤ yearStart (year % 400) :=
            yearStart_strictMono.monotone (by omega)
          omega
        have notLater : ¬ year % 400 < found := by
          intro later
          have ended : yearStart (year % 400 + 1) ≤ yearStart found :=
            yearStart_strictMono.monotone (by omega)
          omega
        have same : found = year % 400 := by omega
        rw [same] at notOverFound
        omega
      · intro within
        exact ⟨year % 400, by omega, by omega, by omega, by omega⟩
    rw [isYear]
    clear isYear
    omega

theorem inLastYear_countOfDay (begun : 0 ≤ dayOfYear) (notOver : dayOfYear < yearLength year) :
    InLastYear (countOfDay year dayOfYear) ↔ year < 0 ∧ year % 400 = 399 ∧ dayOfYear ≠ 365 := by
  have sign := countOfDay_notNegative begun notOver
  unfold InLastYear
  simp only [dayOfCycle_countOfDay begun notOver]
  have lastStart : yearStart 399 = 145731 := rfl
  by_cases isLast : year % 400 = 399
  · rw [isLast, lastStart]
    omega
  · have length := yearStart_add_yearLength isLast
    have lastEnd : yearStart (year % 400 + 1) ≤ yearStart 399 :=
      yearStart_strictMono.monotone (by omega)
    generalize yearStart (year % 400 + 1) = nextStart at *
    generalize yearStart (year % 400) = start at *
    omega

namespace DateEngine

variable (engine : DateEngine)

theorem civilFromDays_eq (days : Int) :
    engine.civilFromDays days = Node.civilFromDays days := by
  cases engine with
  | javascript => rfl
  | rust => exact Rust.civilFromDays_eq days

theorem daysFromCivil_eq {date : Civil} (fromJanuary : 1 ≤ date.month) :
    engine.daysFromCivil date = Node.daysFromCivil date.year date.month date.day := by
  cases engine with
  | javascript => rfl
  | rust => exact Rust.daysFromCivil_eq fromJanuary date.year date.day

/-- The count both engines make of a day's date. -/
theorem daysFromCivil_dateOfDay {dayOfYear : Int} (begun : 0 ≤ dayOfYear)
    (notOver : dayOfYear ≤ 366) (year : Int) :
    engine.daysFromCivil (dateOfDay year dayOfYear) =
      countOfDay year dayOfYear - (if TakesOneLess year then 1 else 0) := by
  rw [engine.daysFromCivil_eq (counted_dateOfDay begun notOver year).fromJanuary]
  exact Xacml.daysFromCivil_dateOfDay begun notOver year

theorem addMonths_eq (value : Temporal) (months : Int) :
    engine.addMonths value months = Node.addMonths value months := by
  cases engine with
  | javascript => rfl
  | rust => exact Rust.addMonths_eq value months

theorem addSeconds_eq {value : Temporal} (fromJanuary : 1 ≤ value.month) (seconds : Rat) :
    engine.addSeconds value seconds = Node.addSeconds value seconds := by
  cases engine with
  | javascript => rfl
  | rust => exact Rust.addSeconds_eq fromJanuary seconds

end DateEngine

theorem countOfDay_add (year dayOfYear days : Int) :
    countOfDay year (dayOfYear + days) = countOfDay year dayOfYear + days := by
  unfold countOfDay
  omega

/-- What a year's dates are counted less by, by the sign of the year and its place
in the cycle. -/
theorem takesOneLess_cases (year : Int) :
    ((if TakesOneLess year then 1 else 0 : Int) = 1 ∧ year < 0 ∧
        year % 400 ≠ 399) ∨
      ((if TakesOneLess year then 1 else 0 : Int) = 0 ∧ (0 ≤ year ∨ year % 400 = 399)) := by
  by_cases isLess : TakesOneLess year
  · left
    exact ⟨if_pos isLess, isLess⟩
  · right
    refine ⟨if_neg isLess, ?_⟩
    unfold TakesOneLess at isLess
    omega

/-- What is skipped in the date of a day, likewise. -/
theorem skipsOne_cases (year dayOfYear : Int) :
    ((if SkipsOne year dayOfYear then 1 else 0 : Int) = 1 ∧ year < 0 ∧
        ¬ (year % 400 = 399 ∧ dayOfYear = 365)) ∨
      ((if SkipsOne year dayOfYear then 1 else 0 : Int) = 0 ∧
        (0 ≤ year ∨ (year % 400 = 399 ∧ dayOfYear = 365))) := by
  by_cases skips : SkipsOne year dayOfYear
  · left
    exact ⟨if_pos skips, skips⟩
  · right
    refine ⟨if_neg skips, ?_⟩
    unfold SkipsOne at skips
    omega

theorem skipped_bounds (begun : 0 ≤ dayOfYear) (notOver : dayOfYear < yearLength year) :
    0 ≤ dayOfYear + (if SkipsOne year dayOfYear then 1 else 0) ∧
      dayOfYear + (if SkipsOne year dayOfYear then 1 else 0) ≤ 366 := by
  have atMost := (yearLength_bounds year).2
  split <;> omega

variable (engine : DateEngine) (date : Civil)

theorem keepsDay_iff (days : Int) : engine.KeepsDay days ↔ KeptDay days := by
  obtain ⟨year, dayOfYear, begun, notOver, rfl⟩ := exists_countOfDay days
  have within := skipped_bounds begun notOver
  unfold DateEngine.KeepsDay
  rw [keptDay_countOfDay begun notOver, engine.civilFromDays_eq,
    civilFromDays_countOfDay begun notOver, engine.daysFromCivil_dateOfDay within.1 within.2,
    real_dateOfDay within.1 within.2, countOfDay_add]
  have lastLength : year % 400 = 399 → yearLength year = 366 := yearLength_last
  have less := takesOneLess_cases year
  have skips := skipsOne_cases year dayOfYear
  omega

/-! ## The next date -/

theorem endsOffCycle_dateOfDay (begun : 0 ≤ dayOfYear) (notOver : dayOfYear < yearLength year) :
    (dateOfDay year dayOfYear).EndsOffCycle ↔
      dayOfYear + 1 = yearLength year ∧ year + 1 < 0 ∧ (year % 400 = 398 ∨ year % 400 = 399) := by
  have lengthBefore : year % 400 = 398 → yearLength year = 365 := by
    intro isBefore
    rw [yearLength_eq, if_neg (by omega)]
  have lengthLast : year % 400 = 399 → yearLength year = 366 := yearLength_last
  unfold Civil.EndsOffCycle
  by_cases isFebruary : (dateOfDay year dayOfYear).month = 2
  · obtain ⟨isYear, isDay⟩ := february_dateOfDay begun isFebruary
    rw [isYear, isDay]
    omega
  · have isEarly : dayOfYear < 337 := by
      by_contra isLate
      apply isFebruary
      have atMost := (yearLength_bounds year).2
      have isLast : (5 * dayOfYear + 2) / 153 = 11 := by omega
      simp only [dateOfDay, isLast]
      rfl
    have atLeast := (yearLength_bounds year).1
    omega

theorem countsOn_iff {date : Civil} (isReal : date.Real) :
    engine.CountsOn date ↔ ¬ date.EndsOffCycle := by
  obtain ⟨begun, atMost⟩ := isReal.counted.dayOfYear_bounds
  have sameDate := isReal.counted.dateOfDay_eq
  rw [← sameDate] at isReal ⊢
  generalize date.marchYear = year at *
  generalize date.dayOfYear = dayOfYear at *
  have notOver := (real_dateOfDay begun atMost year).mp isReal
  rw [endsOffCycle_dateOfDay begun notOver]
  unfold DateEngine.CountsOn
  rw [engine.daysFromCivil_dateOfDay begun atMost]
  by_cases within : dayOfYear + 1 < yearLength year
  · have longest := (yearLength_bounds year).2
    rw [next_dateOfDay begun within,
      engine.daysFromCivil_dateOfDay (by omega) (by omega), countOfDay_add]
    omega
  · have isLast : dayOfYear + 1 = yearLength year := by omega
    rw [next_dateOfDay_last isLast, engine.daysFromCivil_dateOfDay (by decide) (by decide),
      ← countOfDay_yearLength, ← isLast, countOfDay_add]
    have ownLess := takesOneLess_cases year
    have nextLess := takesOneLess_cases (year + 1)
    omega

/-! ## Months -/

theorem movesToDay {value : Temporal} (fromFirst : 1 ≤ value.day) (months : Int) :
    engine.MovesToDay value months := by
  unfold DateEngine.MovesToDay
  rw [engine.addMonths_eq]
  unfold Node.addMonths
  simp only [tmod_twelve]
  generalize value.year * 12 + (value.month - 1) + months = total
  rw [Node.daysInMonth_eq (by omega) (by omega)]
  have positive (year month : Int) : 28 ≤ lengthOfMonth year month := by
    unfold lengthOfMonth
    split
    · split <;> decide
    · split <;> decide
  have length := positive (total / 12) (total % 12 + 1)
  refine ⟨by omega, by simp only; omega, by simp only; omega, ?_, ?_⟩
  · simp only
    omega
  · exact min_le_right _ _

/-! ## Seconds -/

/-- A day's date with a time of day. -/
def atTime (shape : TemporalShape) (date : Civil) (rest : Rat) (tz : Option Int) : Temporal :=
  let hour := ⌊rest / 3600⌋
  let minute := ⌊(rest - hour * 3600) / 60⌋
  { shape := shape
    year := date.year
    month := date.month
    day := date.day
    hour := hour
    minute := minute
    second := rest - hour * 3600 - minute * 60
    tz := tz }

/-- What `addSeconds` answers is a day and a time of day. -/
theorem Node.addSeconds_eq_atTime {value : Temporal} {seconds rest : Rat} {days : Int}
    (total : Node.localSeconds value + seconds = days * 86400 + rest) (notNegative : 0 ≤ rest)
    (withinDay : rest < 86400) :
    Node.addSeconds value seconds = atTime value.shape (Node.civilFromDays days) rest value.tz := by
  have isDay : ⌊(days * 86400 + rest) / 86400⌋ = days := by
    rw [Int.floor_eq_iff]
    constructor
    · linarith
    · linarith
  have isRest : (days * 86400 + rest : Rat) - days * 86400 = rest := by ring
  unfold Node.addSeconds atTime
  simp only [total, isDay, isRest]

theorem floor_rest (rest : Rat) {unit : Rat} (positive : 0 < unit) :
    0 ≤ rest - ⌊rest / unit⌋ * unit ∧ rest - ⌊rest / unit⌋ * unit < unit := by
  have atMost := Int.floor_le (rest / unit)
  have beyond := Int.lt_floor_add_one (rest / unit)
  rw [le_div_iff₀ positive] at atMost
  rw [div_lt_iff₀ positive] at beyond
  constructor
  · linarith
  · linarith

/-- The time of day is one. -/
theorem atTime_normal {rest : Rat} (withinDay : rest < 86400)
    (shape : TemporalShape) (date : Civil) (tz : Option Int) :
    (atTime shape date rest tz).hour ≤ 23 ∧ (atTime shape date rest tz).second < 60 := by
  constructor
  · have isBefore : ⌊rest / 3600⌋ < 24 := by
      rw [Int.floor_lt, div_lt_iff₀ (by norm_num)]
      push_cast
      linarith
    exact Int.lt_add_one_iff.mp isBefore
  · exact (floor_rest _ (by norm_num)).2

/-- A time of day is read back. -/
theorem atTime_eq {hour minute : Int} {second : Rat} (fromMinute : 0 ≤ minute)
    (toMinute : minute ≤ 59) (fromSecond : 0 ≤ second) (toSecond : second < 60)
    (shape : TemporalShape) (date : Civil) (tz : Option Int) :
    atTime shape date (hour * 3600 + minute * 60 + second) tz =
      { shape := shape
        year := date.year
        month := date.month
        day := date.day
        hour := hour
        minute := minute
        second := second
        tz := tz } := by
  have minuteFrom : (0 : Rat) ≤ minute := by exact_mod_cast fromMinute
  have minuteTo : (minute : Rat) ≤ 59 := by exact_mod_cast toMinute
  have isHour : ⌊(hour * 3600 + minute * 60 + second : Rat) / 3600⌋ = hour := by
    rw [Int.floor_eq_iff, le_div_iff₀ (by norm_num), div_lt_iff₀ (by norm_num)]
    constructor
    · linarith
    · linarith
  have isMinute :
      ⌊(hour * 3600 + minute * 60 + second - hour * 3600 : Rat) / 60⌋ =
        minute := by
    rw [Int.floor_eq_iff, le_div_iff₀ (by norm_num), div_lt_iff₀ (by norm_num)]
    constructor
    · linarith
    · linarith
  have isSecond :
      (hour * 3600 + minute * 60 + second - hour * 3600 - minute * 60 : Rat) =
        second := by
    ring
  unfold atTime
  simp only [isHour, isMinute, isSecond]

/-- The seconds of a value with a date. -/
theorem Node.localSeconds_of_date {value : Temporal} (hasDate : value.shape ≠ .time) :
    Node.localSeconds value =
      (Node.daysFromCivil value.year value.month value.day : Rat) * 86400 +
        (value.hour * 3600 + value.minute * 60 + value.second) := by
  unfold Node.localSeconds
  rw [if_neg hasDate]
  push_cast
  ring

theorem localSeconds_atTime (rest : Rat) (tz : Option Int) :
    Node.localSeconds (atTime .dateTime date rest tz) =
    (Node.daysFromCivil date.year date.month date.day : Rat) * 86400 +
        rest := by
  rw [Node.localSeconds_of_date (by decide : TemporalShape.dateTime ≠ .time)]
  simp only [atTime]
  ring

/-- Whatever the day, its date is of a month and one of the days it is taken to
have. -/
theorem civilFromDays_counted (days : Int) : (Node.civilFromDays days).Counted := by
  obtain ⟨year, dayOfYear, begun, notOver, rfl⟩ := exists_countOfDay days
  obtain ⟨from0, to366⟩ := skipped_bounds begun notOver
  rw [civilFromDays_countOfDay begun notOver]
  exact counted_dateOfDay from0 to366 year

/-- Which day, counted from the first of a year, has the date of a day of it. -/
theorem civilFromDays_eq_dateOfDay_iff (begun : 0 ≤ dayOfYear) (notOver : dayOfYear ≤ 366)
    (year day : Int) :
    Node.civilFromDays (countOfDay year day) = dateOfDay year dayOfYear ↔
      0 ≤ day ∧ day < yearLength year ∧ day + (if SkipsOne year day then 1 else 0) = dayOfYear := by
  constructor
  · intro same
    obtain ⟨found, dayFound, foundBegun, foundNotOver, isFound⟩ :=
      exists_countOfDay (countOfDay year day)
    obtain ⟨from0, to366⟩ := skipped_bounds foundBegun foundNotOver
    rw [isFound, civilFromDays_countOfDay foundBegun foundNotOver] at same
    obtain ⟨rfl, sameDay⟩ := dateOfDay_injective from0 to366 begun notOver same
    have isDay : day = dayFound := by
      unfold countOfDay at isFound
      omega
    subst isDay
    exact ⟨foundBegun, foundNotOver, sameDay⟩
  · rintro ⟨dayBegun, dayNotOver, isDay⟩
    rw [civilFromDays_countOfDay dayBegun dayNotOver, isDay]

/-- The day a date's count, or the day after it, is the date of. -/
theorem civilFromDays_daysFromCivil_iff {later : Int} (isLater : later = 0 ∨ later = 1) :
    Node.civilFromDays
          (countOfDay date.marchYear date.dayOfYear -
              (if TakesOneLess date.marchYear then 1 else 0) + later) =
        date ↔
      later = 0 ∧ date.ComesBack := by
  by_cases counted : date.Counted
  · obtain ⟨begun, notOver⟩ := counted.dayOfYear_bounds
    have sameDate :
        Node.civilFromDays
              (countOfDay date.marchYear date.dayOfYear -
                  (if TakesOneLess date.marchYear then 1 else 0) + later) =
            date ↔
          Node.civilFromDays
              (countOfDay date.marchYear
                (date.dayOfYear +
                  (later -
                    if TakesOneLess date.marchYear then 1 else 0))) =
            dateOfDay date.marchYear date.dayOfYear := by
      rw [counted.dateOfDay_eq, countOfDay_add, sub_add_eq_add_sub, add_sub_assoc]
    rw [sameDate, civilFromDays_eq_dateOfDay_iff begun notOver]
    unfold Civil.ComesBack
    rw [and_iff_right counted]
    have lastLength :
        date.marchYear % 400 = 399 → yearLength date.marchYear = 366 :=
      yearLength_last
    have length := yearLength_bounds date.marchYear
    have less := takesOneLess_cases date.marchYear
    have skips :=
      skipsOne_cases date.marchYear
        (date.dayOfYear + (later - if TakesOneLess date.marchYear then 1 else 0))
    generalize date.marchYear = year at *
    generalize date.dayOfYear = dayOfYear at *
    generalize (if TakesOneLess year then 1 else 0 : Int) = fewer at *
    generalize (if SkipsOne year (dayOfYear + (later - fewer)) then 1 else 0 : Int) = skipped at *
    clear sameDate
    omega
  · constructor
    · intro same
      exact absurd (same ▸ civilFromDays_counted _) counted
    · rintro ⟨-, comesBack⟩
      exact absurd comesBack.1 counted

/-- How far the count of a day's date is from the day. -/
theorem daysFromCivil_civilFromDays (days : Int) :
    Node.daysFromCivil (Node.civilFromDays days).year
        (Node.civilFromDays days).month (Node.civilFromDays days).day = days ∧
        ¬ InLastYear days ∨
      Node.daysFromCivil (Node.civilFromDays days).year
        (Node.civilFromDays days).month (Node.civilFromDays days).day = days + 1 ∧
        InLastYear days := by
  obtain ⟨year, dayOfYear, begun, notOver, rfl⟩ := exists_countOfDay days
  obtain ⟨from0, to366⟩ := skipped_bounds begun notOver
  rw [civilFromDays_countOfDay begun notOver, daysFromCivil_dateOfDay from0 to366, countOfDay_add,
    inLastYear_countOfDay begun notOver]
  have less := takesOneLess_cases year
  have skips := skipsOne_cases year dayOfYear
  omega

namespace DateTime

variable (dateTime : DateTime)

/-- The seconds of a `dateTime`, from the day its date is taken for. -/
theorem localSeconds_value :
    Node.localSeconds dateTime.value =
    ((countOfDay dateTime.date.marchYear dateTime.date.dayOfYear -
          (if TakesOneLess dateTime.date.marchYear then 1 else 0) : Int) : Rat) *
          86400 + dateTime.timeOfDay := by
  rw [Node.localSeconds_of_date (by decide : TemporalShape.dateTime ≠ .time),
    ← Xacml.daysFromCivil_eq]
  rfl

/-- A day with the `dateTime`'s own time is the `dateTime` where its date is the
day's. -/
theorem atTime_eq_value_iff (isTime : dateTime.second < 60) (date : Civil) :
    atTime .dateTime date dateTime.timeOfDay dateTime.tz = dateTime.value ↔
      date = dateTime.date := by
  unfold timeOfDay
  rw [atTime_eq dateTime.fromMinute dateTime.toMinute dateTime.fromSecond isTime]
  constructor
  · intro same
    have sameYear := congrArg Temporal.year same
    have sameMonth := congrArg Temporal.month same
    have sameDay := congrArg Temporal.day same
    rcases date with ⟨year, month, day⟩
    exact
      show (⟨year, month, day⟩ : Civil) =
          ⟨dateTime.date.year, dateTime.date.month, dateTime.date.day⟩ by
        rw [show year = dateTime.date.year from sameYear,
          show month = dateTime.date.month from sameMonth,
          show day = dateTime.date.day from sameDay]
  · intro same
    rw [same]
    rfl

end DateTime

theorem takesBack_iff (dateTime : DateTime) (seconds : Rat) :
    engine.TakesBack dateTime seconds ↔ dateTime.Returns seconds := by
  let taken :=
    countOfDay dateTime.date.marchYear dateTime.date.dayOfYear -
      (if TakesOneLess dateTime.date.marchYear then 1 else 0)
  let moved := dateTime.movedDay seconds
  let rest := dateTime.timeOfDay + seconds - ⌊(dateTime.timeOfDay + seconds) / 86400⌋ * 86400
  obtain ⟨restFrom, restTo⟩ :=
    floor_rest (dateTime.timeOfDay + seconds) (show (0 : Rat) < 86400 by norm_num)
  have isMoved : (moved : Rat) = taken + ⌊(dateTime.timeOfDay + seconds) / 86400⌋ := by
    exact_mod_cast rfl
  have added :
      Node.addSeconds dateTime.value seconds =
        atTime .dateTime (Node.civilFromDays moved) rest dateTime.tz := by
    apply Node.addSeconds_eq_atTime _ restFrom restTo
    rw [dateTime.localSeconds_value, isMoved]
    ring
  have monthMoved :
      1 ≤ (atTime .dateTime (Node.civilFromDays moved) rest dateTime.tz).month :=
    (civilFromDays_counted moved).fromJanuary
  have fromJanuary : 1 ≤ dateTime.value.month := dateTime.fromJanuary
  unfold DateEngine.TakesBack
  rw [engine.addSeconds_eq fromJanuary seconds, added, engine.addSeconds_eq monthMoved]
  -- what the moved date is counted, and what is then left of the time
  obtain ⟨later, isLater, counted, laterIff⟩ :
      ∃ later : Int,
        (later = 0 ∨ later = 1) ∧
          Node.daysFromCivil (Node.civilFromDays moved).year
              (Node.civilFromDays moved).month
              (Node.civilFromDays moved).day = moved + later ∧
            (later = 0 ↔ ¬ InLastYear moved) := by
    rcases daysFromCivil_civilFromDays moved with
      ⟨counted, notLast⟩ | ⟨counted, isLast⟩
    · exact ⟨0, .inl rfl, by omega, by simp [notLast]⟩
    · exact ⟨1, .inr rfl, counted, by simp [isLast]⟩
  have total :
      Node.localSeconds
            (atTime .dateTime (Node.civilFromDays moved) rest dateTime.tz) +
          -seconds =
        ((taken + later : Int) : Rat) * 86400 + dateTime.timeOfDay := by
    rw [localSeconds_atTime, counted]
    push_cast
    rw [isMoved]
    ring
  have hourFrom : (0 : Rat) ≤ dateTime.hour := by exact_mod_cast dateTime.fromHour
  have minuteFrom : (0 : Rat) ≤ dateTime.minute := by exact_mod_cast dateTime.fromMinute
  have minuteTo : (dateTime.minute : Rat) ≤ 59 := by exact_mod_cast dateTime.toMinute
  have secondFrom := dateTime.fromSecond
  by_cases normal : dateTime.hour ≤ 23 ∧ dateTime.second < 60
  · obtain ⟨isHour, isSecond⟩ := normal
    have hourTo : (dateTime.hour : Rat) ≤ 23 := by exact_mod_cast isHour
    have timeFrom : 0 ≤ dateTime.timeOfDay := by
      unfold DateTime.timeOfDay
      linarith
    have timeTo : dateTime.timeOfDay < 86400 := by
      unfold DateTime.timeOfDay
      linarith
    have removed := Node.addSeconds_eq_atTime total timeFrom timeTo
    have sameTz :
        (atTime .dateTime (Node.civilFromDays moved) rest dateTime.tz).tz = dateTime.tz := rfl
    have sameShape :
        (atTime .dateTime (Node.civilFromDays moved) rest dateTime.tz).shape = .dateTime := rfl
    rw [removed, sameTz, sameShape, dateTime.atTime_eq_value_iff isSecond,
      civilFromDays_daysFromCivil_iff dateTime.date isLater, laterIff]
    unfold DateTime.Returns
    tauto
  · have notNormal : ¬ dateTime.Returns seconds := fun returns =>
      normal ⟨returns.1, returns.2.1⟩
    refine iff_of_false ?_ notNormal
    intro same
    obtain ⟨overFrom, overTo⟩ := floor_rest dateTime.timeOfDay (show (0 : Rat) < 86400 by norm_num)
    have overTotal :
        Node.localSeconds
              (atTime .dateTime (Node.civilFromDays moved) rest dateTime.tz) +
            -seconds =
          ((taken + later + ⌊dateTime.timeOfDay / 86400⌋ : Int) : Rat) *
              86400 +
            (dateTime.timeOfDay - ⌊dateTime.timeOfDay / 86400⌋ * 86400) := by
      rw [total]
      push_cast
      ring
    rw [Node.addSeconds_eq_atTime overTotal overFrom overTo] at same
    have isNormal : dateTime.value.hour ≤ 23 ∧ dateTime.value.second < 60 := by
      rw [← same]
      exact atTime_normal overTo _ _ _
    exact normal isNormal

/-! ## The result -/

end IyaSts.Xacml
