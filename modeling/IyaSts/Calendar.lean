import Mathlib.Data.List.Basic

namespace IyaSts.Calendar

/-!
# The proleptic Gregorian calendar over day numbers

Days are counted from the first of January 1970, months and the days before
them from zero.  A day has one year, month and date, and is made of them.
-/

/-- The day a year begins with. -/
def dayFromYear (year : Int) : Int :=
  365 * (year - 1970) + (year - 1969) / 4 - (year - 1901) / 100 + (year - 1601) / 400

/-- Whether a year has a twenty-ninth of February. -/
def isLeap (year : Int) : Bool := year % 4 = 0 ∧ (year % 100 ≠ 0 ∨ year % 400 = 0)

/-- The year of a day: the year the mean length gives, or one beside it. -/
def yearOfDay (day : Int) : Int :=
  let guess := 1970 + 400 * day / 146097
  if day < dayFromYear guess then
    guess - 1
  else if dayFromYear (guess + 1) ≤ day then
    guess + 1
  else
    guess

/-- The days of a year before a month of it. -/
def daysBefore (leap : Bool) (month : Nat) : Int :=
  let day := [0, 31, 59, 90, 120, 151, 181, 212, 243, 273, 304, 334].getD month 365
  if leap ∧ 2 ≤ month then day + 1 else day

/-- The month of a day of a year, among the months up to this one. -/
def monthWithin (leap : Bool) (dayInYear : Int) : Nat → Nat
  | 0 => 0
  | month + 1 =>
    if daysBefore leap (month + 1) ≤ dayInYear then
      month + 1
    else
      monthWithin leap dayInYear month

/-- The day's number in its year. -/
def dayInYear (day : Int) : Int := day - dayFromYear (yearOfDay day)

/-- The month of a day, from zero. -/
def monthOfDay (day : Int) : Nat := monthWithin (isLeap (yearOfDay day)) (dayInYear day) 11

/-- The date of a day, from one. -/
def dateOfDay (day : Int) : Int :=
  dayInYear day - daysBefore (isLeap (yearOfDay day)) (monthOfDay day) + 1

/-- The day of a year, a month and a date, which may be beyond their ends. -/
def makeDay (year month date : Int) : Int :=
  let year' := year + month / 12
  dayFromYear year' + daysBefore (isLeap year') (month % 12).toNat + date - 1

/-! ## Time values: milliseconds from the start of day zero -/

/-- `getUTCFullYear`. -/
def utcFullYear (time : Int) : Int := yearOfDay (time / 86400000)

/-- `getUTCMonth`, from zero. -/
def utcMonth (time : Int) : Nat := monthOfDay (time / 86400000)

/-- `getUTCDate`. -/
def utcDate (time : Int) : Int := dateOfDay (time / 86400000)

/-- `getUTCHours`. -/
def utcHours (time : Int) : Int := time / 3600000 % 24

/-- `getUTCMinutes`. -/
def utcMinutes (time : Int) : Int := time / 60000 % 60

/-- `getUTCSeconds`. -/
def utcSeconds (time : Int) : Int := time / 1000 % 60

/-- `Date.UTC`, which takes the years below a hundred for the last century's. -/
def utc (year month date hours minutes seconds : Int) : Int :=
  let fullYear := if 0 ≤ year ∧ year ≤ 99 then 1900 + year else year
  makeDay fullYear month date * 86400000 + hours * 3600000 + minutes * 60000 + seconds * 1000

/-- The length of a year. -/
theorem dayFromYear_succ (year : Int) :
    dayFromYear (year + 1) = dayFromYear year + if isLeap year then 366 else 365 := by
  unfold dayFromYear isLeap
  by_cases byFour : year % 4 = 0 <;> by_cases byHundred : year % 100 = 0 <;>
    by_cases byCycle : year % 400 = 0 <;>
    simp only [byFour, byHundred, byCycle, ne_eq, not_true, not_false_iff,
      and_true, and_false, or_true, or_false, or_self,
      decide_true, decide_false, if_true, if_false, Bool.false_eq_true] <;>
    omega

variable (day : Int) (leap : Bool)

/-- A day is in its year. -/
theorem yearOfDay_spec :
    dayFromYear (yearOfDay day) ≤ day ∧ day < dayFromYear (yearOfDay day + 1) := by
  unfold yearOfDay
  simp only
  split
  · rename_i isBefore
    refine ⟨?_, by simpa using isBefore⟩
    unfold dayFromYear
    omega
  · split
    · rename_i isAfter
      refine ⟨isAfter, ?_⟩
      unfold dayFromYear
      omega
    · rename_i notBefore notAfter
      exact ⟨by omega, by omega⟩

/-! ## A day is made of its year, month and date -/

theorem monthWithin_le (dayInYear : Int) (month : Nat) :
    monthWithin leap dayInYear month ≤ month := by
  induction month with
  | zero => simp [monthWithin]
  | succ month ih =>
    rw [monthWithin]
    split
    · exact Nat.le_refl _
    · omega

/-- The month found begins no later than the day. -/
theorem daysBefore_monthWithin_le {dayInYear : Int} (inYear : 0 ≤ dayInYear) (month : Nat) :
    daysBefore leap (monthWithin leap dayInYear month) ≤ dayInYear := by
  induction month with
  | zero => simpa [monthWithin, daysBefore] using inYear
  | succ month ih =>
    rw [monthWithin]
    split
    · assumption
    · exact ih

/-- The month after the one found begins after the day. -/
theorem lt_daysBefore_monthWithin (dayInYear : Int) (month : Nat)
    (before : dayInYear < daysBefore leap (month + 1)) :
    dayInYear < daysBefore leap (monthWithin leap dayInYear month + 1) := by
  induction month with
  | zero => simpa [monthWithin] using before
  | succ month ih =>
    rw [monthWithin]
    split
    · exact before
    · rename_i notReached
      exact ih (by omega)

/-- No month has more than thirty-one days. -/
theorem daysBefore_succ_le {month : Nat} (isMonth : month ≤ 11) :
    daysBefore leap (month + 1) ≤ daysBefore leap month + 31 := by
  have everyMonth : ∀ month < 12, daysBefore leap (month + 1) ≤ daysBefore leap month + 31 := by
    cases leap <;> decide
  exact everyMonth month (by omega)

theorem monthOfDay_le : monthOfDay day ≤ 11 := monthWithin_le _ _ 11

/-- A date is between the first and the thirty-first. -/
theorem dateOfDay_bounds : 1 ≤ dateOfDay day ∧ dateOfDay day ≤ 31 := by
  obtain ⟨notBefore, notAfter⟩ := yearOfDay_spec day
  rw [dayFromYear_succ] at notAfter
  have inYear : 0 ≤ dayInYear day := by
    unfold dayInYear
    omega
  have lastMonth : dayInYear day < daysBefore (isLeap (yearOfDay day)) (11 + 1) := by
    unfold dayInYear
    cases leap : isLeap (yearOfDay day) <;>
      simp only [leap, if_true, Bool.false_eq_true, if_false] at notAfter <;>
      simp [daysBefore] <;> omega
  have begun := daysBefore_monthWithin_le (isLeap (yearOfDay day)) inYear 11
  have notOver := lt_daysBefore_monthWithin _ _ 11 lastMonth
  have length := daysBefore_succ_le (isLeap (yearOfDay day)) (monthOfDay_le day)
  unfold dateOfDay
  unfold monthOfDay at length ⊢
  exact ⟨by omega, by omega⟩

/-- The day made of a day's year, month and date is the day. -/
theorem makeDay_ofDay :
    makeDay (yearOfDay day) (monthOfDay day) (dateOfDay day) = day := by
  have isMonth := monthOfDay_le day
  have sameYear : (monthOfDay day : Int) / 12 = 0 := by omega
  have sameMonth : ((monthOfDay day : Int) % 12).toNat = monthOfDay day := by omega
  unfold makeDay
  simp only [sameYear, sameMonth, Int.add_zero]
  unfold dateOfDay dayInYear
  omega

/-- A whole second is made of its fields. -/
theorem utc_ofTime {time : Int} (wholeSecond : time % 1000 = 0)
    (laterYear : 99 < utcFullYear time) :
    utc (utcFullYear time) (utcMonth time) (utcDate time) (utcHours time)
        (utcMinutes time) (utcSeconds time) = time := by
  have sameYear : ¬(0 ≤ utcFullYear time ∧ utcFullYear time ≤ 99) := by omega
  have sameDay :
      makeDay (utcFullYear time) (utcMonth time) (utcDate time) = time / 86400000 :=
    makeDay_ofDay (time / 86400000)
  rw [utc, if_neg sameYear, sameDay]
  unfold utcHours utcMinutes utcSeconds
  omega

end IyaSts.Calendar
