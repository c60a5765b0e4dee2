import IyaSts.XacmlCalendarKeeps
import IyaSts.XacmlRustParses
import Mathlib.Data.List.TakeWhile

namespace IyaSts.Xacml.Rust

/-!
# Where the Rust engine's integers suffice

A date's day times the seconds of a day leaves an `i64` long before its year does,
and so does a number of years times twelve.  Everything else the parsers and the
comparison compute is small beside these.
-/

open List

/-! ## The limits -/

/-- The dates whose seconds are an `i64`, and those counted like them. -/
def DateWithin (date : Civil) : Prop :=
  (-292277022657 < date.year ∨
      (date.year = -292277022657 ∧ (1 < date.month ∨ 29 ≤ date.day))) ∧
    (date.year < 292277026596 ∨ (date.year = 292277026596 ∧ (date.month < 12 ∨ date.day ≤ 4)))

/-- The date a form states. -/
def statedDate (digits : DigitClass) (shape : TemporalShape) (lexical : List Char) :
    Option Civil := do
  let caps ← captures digits shape (trimmed lexical)
  let (year, month, day) ← caps.date
  some ⟨← intOfText year, ← intOfText month, ← intOfText day⟩

/-- A form that states no date, or one within the limits. -/
def FormWithin (digits : DigitClass) (shape : TemporalShape) (lexical : List Char) : Prop :=
  ∀ date, statedDate digits shape lexical = some date → DateWithin date

/-- A form with a value. -/
def Accepts (digits : DigitClass) (shape : TemporalShape) (lexical : List Char) : Prop :=
  ∃ value, (I64.parseTemporal digits shape lexical).value = some value

/-- A form whose years and months are so many months as an `i64` holds. -/
def MonthsWithin (digits : DigitClass) (lexical : List Char) : Prop :=
  ∀ negative years months,
    captureYearMonth digits (trimmed lexical) =
        some (negative, years, months) →
      ∀ yearCount, years.elim (some 0) parseI64 = some yearCount →
        ∀ monthCount, months.elim (some 0) parseI64 = some monthCount →
          yearCount * 12 + monthCount ≤ 2 ^ 63 - 1

namespace I64

open ExactRun

/-! ## Days -/

theorem eraDividend_value (y : Int) : (eraDividend y).value = if 0 ≤ y then y else y - 399 := by
  unfold eraDividend
  split <;> rfl

/-- The values are those of the engine with unbounded integers. -/
theorem daysFromCivil_value (year month day : Int) :
    (I64.daysFromCivil year month day).value = Rust.daysFromCivil year month day := by
  simp only [I64.daysFromCivil, Rust.daysFromCivil, value_bind, value_plus,
    value_minus, value_times, eraDividend_value]

theorem dateSeconds_value (value : Temporal) :
    (dateSeconds value).value =
      if value.shape = .time then
        0
      else
        Rust.daysFromCivil value.year value.month value.day * 86400 := by
  unfold dateSeconds
  split
  · rfl
  · simp only [value_bind, value_times, daysFromCivil_value]

theorem instantSeconds_value (value : Temporal) (assumedTz : Int) :
    (I64.instantSeconds value assumedTz).value = Rust.instantSeconds value assumedTz := by
  simp only [I64.instantSeconds, Rust.instantSeconds, value_bind, value_pure,
    value_times, value_plus, dateSeconds_value]

theorem compareTemporal_value (left right : Temporal) :
    (I64.compareTemporal left right).value = Rust.compareTemporal left right := by
  unfold I64.compareTemporal Rust.compareTemporal
  split <;> simp only [value_bind, value_pure, value_times, instantSeconds_value]

/-! ## The limits of a date's days -/

/-- Years are some hundreds of days apart. -/
theorem countOfDay_years {first second : Int} (notLater : first ≤ second) :
    countOfDay first 0 + 365 * (second - first) ≤ countOfDay second 0 := by
  obtain ⟨count, rfl⟩ : ∃ count : Nat, second = first + count := ⟨(second - first).toNat, by omega⟩
  clear notLater
  induction count with
  | zero => simp
  | succ count ih =>
    have next := countOfDay_yearLength (first + count)
    have length := (yearLength_bounds (first + count)).1
    have ended := countOfDay_add (first + count) 0 (yearLength (first + count))
    rw [zero_add, next] at ended
    push_cast
    rw [← add_assoc]
    omega

/-- Where the first day of a year is, beside a year it is known of. -/
theorem countOfDay_beside {known start : Int} (isStart : countOfDay known 0 = start) (year : Int) :
    (year < known ∧ countOfDay year 0 + 365 ≤ start) ∨
      (year = known ∧ countOfDay year 0 = start) ∨
      (known < year ∧ start + 365 ≤ countOfDay year 0) := by
  rcases lt_trichotomy year known with earlier | same | later
  · have apart := countOfDay_years earlier.le
    left
    omega
  · subst same
    exact .inr (.inl ⟨rfl, isStart⟩)
  · have apart := countOfDay_years later.le
    right
    right
    omega

/-- The last days whose seconds are an `i64`. -/
theorem dateWithin_iff {date : Civil} (fromJanuary : 1 ≤ date.month) (toDecember : date.month ≤ 12)
    (fromFirst : 1 ≤ date.day) (toLast : date.day ≤ 31) :
    DateWithin date ↔
      -106751991167300 ≤ Rust.daysFromCivil date.year date.month date.day ∧
        Rust.daysFromCivil date.year date.month date.day ≤
          106751991167300 := by
  rw [Rust.daysFromCivil_eq fromJanuary, Xacml.daysFromCivil_eq]
  have low :=
    countOfDay_beside (show countOfDay (-292277022658) 0 = -106751991167633 from rfl) date.marchYear
  have high :=
    countOfDay_beside (show countOfDay 292277026596 0 = 106751991167022 from rfl) date.marchYear
  have isDay := countOfDay_add date.marchYear 0 date.dayOfYear
  rw [zero_add] at isDay
  rw [isDay]
  have less := takesOneLess_cases date.marchYear
  generalize (if TakesOneLess date.marchYear then 1 else 0 : Int) = fewer at *
  generalize countOfDay date.marchYear 0 = first at *
  rcases date with ⟨year, month, day⟩
  simp only at fromJanuary toDecember fromFirst toLast
  simp only [DateWithin, Civil.marchYear, Civil.dayOfYear, monthStart] at *
  clear isDay
  interval_cases month <;> simp at * <;> omega

/-! ## What is read of few characters is small -/

theorem natOfDigits_append (digits : List Char) (digit : Char) :
    natOfDigits (digits ++ [digit]) = natOfDigits digits * 10 + (digit.toNat - 48) := by
  simp [natOfDigits]

/-- So many digits spell a number below that power of ten. -/
theorem natOfDigits_lt {digits : List Char} (isDigits : digits.all Char.isDigit = true) :
    natOfDigits digits < 10 ^ digits.length := by
  induction digits using List.reverseRecOn with
  | nil => decide
  | append_singleton digits digit ih =>
    rw [all_append, Bool.and_eq_true] at isDigits
    have before := ih isDigits.1
    have isDigit : digit.isDigit = true := by simpa using isDigits.2
    have atMost : digit.toNat - 48 ≤ 9 := by
      have bounds := (Char.isDigit_iff_toNat.mp isDigit).2
      have nine : '9'.toNat = 57 := rfl
      omega
    rw [natOfDigits_append, length_append, length_singleton, pow_succ]
    omega

variable {text found rest hour minute second : List Char} {exact number : Int}
    {digits : DigitClass} {shape : TemporalShape} {caps : TemporalCaptures}
    {value : Temporal}

/-- So does a text with a sign. -/
theorem intOfText_bounds (isText : intOfText text = some exact) :
    -(10 ^ text.length : Nat) < exact ∧ exact < (10 ^ text.length : Nat) := by
  have signed
      (digits : List Char)
      (isDigits : digits.all Char.isDigit = true) :
      natOfDigits digits < 10 ^ (digits.length + 1) :=
    (natOfDigits_lt isDigits).trans_le (Nat.pow_le_pow_right (by decide) (by omega))
  unfold intOfText at isText
  split at isText
  · rename_i digits
    split at isText
    · rename_i found
      cases isText
      have below := signed digits found.2
      rw [length_cons]
      omega
    · cases isText
  · rename_i digits
    split at isText
    · rename_i found
      cases isText
      have below := signed digits found.2
      rw [length_cons]
      omega
    · cases isText
  · split at isText
    · rename_i found
      cases isText
      have below := natOfDigits_lt found.2
      omega
    · cases isText

theorem parseI64_eq_some {number : Int} :
    parseI64 text = some number ↔
      intOfText text = some number ∧ -2 ^ 63 ≤ number ∧ number ≤ 2 ^ 63 - 1 := by
  unfold parseI64
  cases intOfText text with
  | none => simp
  | some exact =>
    simp only [Option.bind_eq_bind, Option.bind_some, Option.some.injEq]
    split
    · rename_i inRange
      constructor
      · intro same
        cases same
        exact ⟨rfl, inRange⟩
      · rintro ⟨rfl, -⟩
        rfl
    · rename_i outOfRange
      constructor
      · intro none
        cases none
      · rintro ⟨rfl, inRange⟩
        exact absurd inRange outOfRange

/-- Two characters spell less than a hundred. -/
theorem parseI64_two (atMostTwo : text.length ≤ 2) (isText : parseI64 text = some number) :
    -100 < number ∧ number < 100 := by
  have bounds := intOfText_bounds (parseI64_eq_some.mp isText).1
  have power : 10 ^ text.length ≤ 10 ^ 2 := Nat.pow_le_pow_right (by decide) atMostTwo
  omega

theorem two_length (isTwo : digits.two text = some (found, rest)) : found.length = 2 := by
  unfold DigitClass.two at isTwo
  split at isTwo
  · split at isTwo
    · cases isTwo
      rfl
    · cases isTwo
  · cases isTwo

theorem time_lengths (isTime : digits.time text = some ((hour, minute, second), rest)) :
    hour.length = 2 ∧ minute.length = 2 := by
  simp only [DigitClass.time, Option.bind_eq_bind, Option.bind_eq_some_iff,
    Option.some.injEq, Prod.exists, Prod.mk.injEq] at isTime
  obtain ⟨hour, afterHour, isHour, _, _, minute, afterMinute, isMinute, _, _,
    second, afterSecond, _, ⟨rfl, rfl, rfl⟩, rfl⟩ := isTime
  exact ⟨two_length isHour, two_length isMinute⟩

/-- The hours and minutes captured are of two characters. -/
theorem captures_time (captured : captures digits shape text = some caps)
    (isTime : caps.time = some (hour, minute, second)) :
    hour.length = 2 ∧ minute.length = 2 := by
  cases shape with
  | date =>
    simp only [captures, Option.bind_eq_bind, Option.bind_eq_some_iff,
      Option.some.injEq, Prod.exists] at captured
    obtain ⟨_, _, _, _, _, _, _, rfl⟩ := captured
    cases isTime
  | time =>
    simp only [captures, Option.bind_eq_bind, Option.bind_eq_some_iff,
      Option.some.injEq, Prod.exists] at captured
    obtain ⟨_, _, _, _, found, _, _, rfl⟩ := captured
    cases isTime
    exact time_lengths found
  | dateTime =>
    simp only [captures, Option.bind_eq_bind, Option.bind_eq_some_iff,
      Option.some.injEq, Prod.exists] at captured
    obtain ⟨_, _, _, _, _, _, _, _, _, _, _, found, _, _, rfl⟩ := captured
    cases isTime
    exact time_lengths found

/-! ## What is read -/

/-- A timezone is of hours and minutes of two characters. -/
theorem timezoneMinutes_small (text : Option (List Char)) :
    InRange (timezoneMinutes text) ∧
      ∀ minutes, (timezoneMinutes text).value = some minutes →
        -10000 < minutes ∧ minutes < 10000 := by
  unfold InRange
  cases text with
  | none => exact ⟨within_pure none, fun minutes isNone => by cases isNone⟩
  | some text =>
    by_cases isUtc : text = ['Z']
    · rw [timezoneMinutes, if_pos isUtc]
      refine ⟨within_pure _, fun minutes same => ?_⟩
      cases same
      decide
    · rw [timezoneMinutes, if_neg isUtc]
      simp only
      have sign :
          (if text.head? = some '-' then -1 else 1 : Int) = -1 ∨
            (if text.head? = some '-' then -1 else 1 : Int) = 1 := by
        split
        · exact .inl rfl
        · exact .inr rfl
      generalize (if text.head? = some '-' then -1 else 1 : Int) = sign at *
      cases isHours : parseI64 ((text.drop 1).take 2) with
      | none => exact ⟨within_pure none, fun minutes isNone => by cases isNone⟩
      | some hours =>
        cases isMinutes : parseI64 ((text.drop 4).take 2) with
        | none => exact ⟨within_pure none, fun minutes isNone => by cases isNone⟩
        | some minutes =>
          have hoursSmall := parseI64_two (length_take_le _ _) isHours
          have minutesSmall := parseI64_two (length_take_le _ _) isMinutes
          simp only [within_bind, within_times, within_plus, within_pure, value_times, value_plus,
            value_bind, value_pure, Option.some.injEq, forall_eq', and_true]
          rcases sign with rfl | rfl <;> omega

/-- A value as `parse_temporal` lets it pass. -/
structure Parsed (value : Temporal) : Prop where
  fromJanuary : 1 ≤ value.month
  toDecember : value.month ≤ 12
  fromFirst : 1 ≤ value.day
  toLast : value.day ≤ 31
  hour : -100 < value.hour ∧ value.hour < 100
  minute : -100 < value.minute ∧ value.minute < 100
  zone : ∀ tz, value.tz = some tz → -10000 < tz ∧ tz < 10000

/-- The date read of what was captured, the first of the epoch where none was. -/
def readDate (caps : TemporalCaptures) : Option Civil :=
  match caps.date with
  | none => some ⟨1970, 1, 1⟩
  | some (year, month, day) => do
    some ⟨← parseI64 year, ← parseI64 month, ← parseI64 day⟩

/-- The time of day read, midnight where none was captured. -/
def readTime (caps : TemporalCaptures) : Option (Int × Int × Rat) :=
  match caps.time with
  | none => some (0, 0, 0)
  | some (hour, minute, second) => do
    some (← parseI64 hour, ← parseI64 minute, ← parseF64 second)

theorem parseFields_eq (shape : TemporalShape) (caps : TemporalCaptures) :
    parseFields shape caps =
      match readDate caps, readTime caps with
      | some date, some (hour, minute, second) => do
        let tz ← timezoneMinutes caps.zone
        pure
          (some
            { shape := shape
              year := date.year
              month := date.month
              day := date.day
              hour := hour
              minute := minute
              second := second
              tz := tz })
      | _, _ => pure none :=
  rfl

theorem readTime_small (captured : captures digits shape text = some caps)
    {hour minute : Int} {second : Rat} (isTime : readTime caps = some (hour, minute, second)) :
    (-100 < hour ∧ hour < 100) ∧ (-100 < minute ∧ minute < 100) := by
  unfold readTime at isTime
  cases found : caps.time with
  | none =>
    rw [found] at isTime
    cases isTime
    decide
  | some time =>
    obtain ⟨hourText, minuteText, secondText⟩ := time
    rw [found] at isTime
    simp only [Option.bind_eq_bind, Option.bind_eq_some_iff,
      Option.some.injEq, Prod.mk.injEq] at isTime
    obtain ⟨_, isHour, _, isMinute, _, _, rfl, rfl, rfl⟩ := isTime
    obtain ⟨hourLength, minuteLength⟩ := captures_time captured found
    exact ⟨parseI64_two hourLength.le isHour, parseI64_two minuteLength.le isMinute⟩

/-- Parsing a date, a time or both stays in range, whatever the form; and what it
makes of it. -/
theorem parseTemporal_spec (digits : DigitClass) (shape : TemporalShape) (lexical : List Char) :
    InRange (parseTemporal digits shape lexical) ∧
      ∀ value, (parseTemporal digits shape lexical).value = some value →
        Parsed value ∧ value.shape = shape ∧
          ∃ caps, captures digits shape (trimmed lexical) = some caps ∧
            readDate caps = some ⟨value.year, value.month, value.day⟩ := by
  unfold parseTemporal InRange
  cases captured : captures digits shape (trimmed lexical) with
  | none => exact ⟨within_pure none, fun value isNone => by cases isNone⟩
  | some caps =>
    simp only [parseFields_eq]
    obtain ⟨zoneInRange, zoneSmall⟩ := timezoneMinutes_small caps.zone
    cases isDate : readDate caps with
    | none => exact ⟨within_pure none, fun value isNone => by cases isNone⟩
    | some date =>
      cases isTime : readTime caps with
      | none => exact ⟨within_pure none, fun value isNone => by cases isNone⟩
      | some time =>
        obtain ⟨hour, minute, second⟩ := time
        obtain ⟨hourSmall, minuteSmall⟩ := readTime_small captured isTime
        simp only [within_bind, within_pure, value_bind, value_pure]
        split
        · exact ⟨⟨⟨zoneInRange, trivial⟩, within_pure none⟩, fun value isNone => by cases isNone⟩
        · rename_i accepted
          refine ⟨⟨⟨zoneInRange, trivial⟩, within_pure _⟩, ?_⟩
          intro value same
          cases same
          simp only [not_or, not_lt, not_le] at accepted
          exact
            ⟨⟨accepted.1, accepted.2.1, accepted.2.2.1, accepted.2.2.2.1, hourSmall, minuteSmall,
              zoneSmall⟩, rfl, caps, rfl, isDate⟩

/-! ## What is compared -/

/-- Counting the days of a year of twelve places stays in range. -/
theorem daysFromCivil_inRange {year month day : Int} (fromJanuary : 1 ≤ month)
    (toDecember : month ≤ 12) (fromFirst : 1 ≤ day) (toLast : day ≤ 31)
    (yearFrom : -1000000000000 < year) (yearTo : year < 1000000000000) :
    InRange (I64.daysFromCivil year month day) := by
  have marchYear :
      -1000000000001 < year - (if month ≤ 2 then 1 else 0) ∧
        year - (if month ≤ 2 then 1 else 0) < 1000000000000 := by
    split <;> omega
  have monthOfYear :
      0 ≤ month + (if 2 < month then -3 else 9) ∧ month + (if 2 < month then -3 else 9) ≤ 11 := by
    split <;> omega
  have dividend (y : Int)
      (yFrom : -1000000000001 < y)
      (yTo : y < 1000000000000) :
      (eraDividend y).Within (-2 ^ 63) (2 ^ 63 - 1) ∧
        -1000000000400 < (eraDividend y).value ∧
        (eraDividend y).value < 1000000000000 ∧
        0 ≤ y - (eraDividend y).value / 400 * 400 ∧
        y - (eraDividend y).value / 400 * 400 < 1000 := by
    unfold eraDividend
    split
    · exact ⟨within_pure _, by simp only [value_pure]; omega⟩
    · rw [within_minus, value_minus]
      omega
  unfold InRange I64.daysFromCivil
  simp only [within_bind, within_plus, within_minus, within_times, value_plus,
    value_minus, value_times]
  generalize year - (if month ≤ 2 then 1 else 0) = y at *
  generalize month + (if 2 < month then -3 else 9) = mp at *
  obtain ⟨inRange, from0, to0, yoeFrom, yoeTo⟩ := dividend y marchYear.1 marchYear.2
  generalize (eraDividend y).value = era at *
  rw [Int.tdiv_eq_ediv_of_nonneg yoeFrom, Int.tdiv_eq_ediv_of_nonneg yoeFrom,
    Int.tdiv_eq_ediv_of_nonneg (by omega : 0 ≤ 153 * mp + 2)]
  have eraBounds : -2500000002 ≤ era / 400 ∧ era / 400 ≤ 2500000000 := by omega
  have doyBounds : 0 ≤ (153 * mp + 2) / 5 ∧ (153 * mp + 2) / 5 ≤ 400 := by omega
  refine ⟨by omega, inRange, ?_⟩
  generalize y - era / 400 * 400 = yoe at *
  have yoeBounds : (0 ≤ yoe / 4 ∧ yoe / 4 ≤ 1000) ∧ (0 ≤ yoe / 100 ∧ yoe / 100 ≤ 1000) := by omega
  generalize yoe / 4 = leaps at *
  generalize yoe / 100 = centuries at *
  generalize (153 * mp + 2) / 5 = doy at *
  generalize era / 400 = era at *
  omega

/-- A time, or a value whose date is within the limits. -/
def ValueWithin (value : Temporal) : Prop :=
  value.shape ≠ .time → DateWithin ⟨value.year, value.month, value.day⟩

theorem dateSeconds_inRange_iff (parsed : Parsed value) :
    InRange (dateSeconds value) ↔ ValueWithin value := by
  unfold dateSeconds ValueWithin InRange
  by_cases isTime : value.shape = .time
  · rw [if_pos isTime]
    exact iff_of_true (within_pure 0) (fun hasDate => absurd isTime hasDate)
  · have limits :=
      @dateWithin_iff ⟨value.year, value.month, value.day⟩ parsed.fromJanuary
        parsed.toDecember parsed.fromFirst parsed.toLast
    simp only at limits
    rw [if_neg isTime, forall_prop_of_true isTime, within_bind, within_times, daysFromCivil_value]
    constructor
    · rintro ⟨-, secondsFrom, secondsTo⟩
      refine limits.mpr ⟨?_, ?_⟩ <;> omega
    · intro within
      obtain ⟨daysFrom, daysTo⟩ := limits.mp within
      unfold DateWithin at within
      simp only at within
      exact
        ⟨daysFromCivil_inRange parsed.fromJanuary parsed.toDecember
            parsed.fromFirst parsed.toLast (by omega) (by omega),
          by omega, by omega⟩

theorem instantSeconds_inRange_iff (parsed : Parsed value) {assumedTz : Int}
    (isZone : -10000 < assumedTz ∧ assumedTz < 10000) :
    InRange (I64.instantSeconds value assumedTz) ↔ ValueWithin value := by
  have zone : -10000 < value.tz.getD assumedTz ∧ value.tz.getD assumedTz < 10000 := by
    cases found : value.tz with
    | none => exact isZone
    | some tz => exact parsed.zone tz found
  obtain ⟨hourFrom, hourTo⟩ := parsed.hour
  obtain ⟨minuteFrom, minuteTo⟩ := parsed.minute
  rw [← dateSeconds_inRange_iff parsed]
  unfold I64.instantSeconds InRange
  simp only [within_bind, within_times, within_plus, within_pure, value_times, and_true]
  constructor
  · rintro ⟨inRange, -⟩
    exact inRange
  · intro inRange
    exact ⟨inRange, by omega, by omega, by omega, by omega⟩

/-- Comparing stays in range when both dates are within the limits. -/
theorem compareTemporal_inRange_iff {left right : Temporal} (leftParsed : Parsed left)
    (rightParsed : Parsed right) :
    InRange (I64.compareTemporal left right) ↔ ValueWithin left ∧ ValueWithin right := by
  have ofLeft
      {assumedTz : Int}
      (isZone : -10000 < assumedTz ∧ assumedTz < 10000) :=
    instantSeconds_inRange_iff leftParsed isZone
  have ofRight
      {assumedTz : Int}
      (isZone : -10000 < assumedTz ∧ assumedTz < 10000) :=
    instantSeconds_inRange_iff rightParsed isZone
  unfold InRange at ofLeft ofRight ⊢
  unfold I64.compareTemporal
  split
  · simp only [within_bind, within_pure, and_true]
    rw [ofLeft (by decide), ofRight (by decide)]
  · simp only [within_bind, within_pure, within_times, value_times, and_true]
    rw [ofLeft (by decide), ofRight (by decide), ofLeft (by decide), ofRight (by decide)]
    constructor
    · rintro ⟨-, leftWithin, -, rightWithin, -⟩
      exact ⟨leftWithin, rightWithin⟩
    · rintro ⟨leftWithin, rightWithin⟩
      exact
        ⟨by decide, leftWithin, by decide, rightWithin, by decide, leftWithin,
          by decide, rightWithin⟩

/-- The date stated is the one read. -/
theorem formWithin_iff {lexical : List Char}
    (accepted :
      (parseTemporal digits shape lexical).value = some value) :
    FormWithin digits shape lexical ↔ ValueWithin value := by
  obtain ⟨-, isShape, caps, captured, isDate⟩ :=
    (parseTemporal_spec digits shape lexical).2 value accepted
  have hasDate : shape ≠ .time ↔ caps.date ≠ none := by
    cases shape <;>
      simp only [captures, Option.bind_eq_bind, Option.bind_eq_some_iff,
        Option.some.injEq, Prod.exists] at captured
    · obtain ⟨_, _, _, _, _, _, _, rfl⟩ := captured
      simp
    · obtain ⟨_, _, _, _, _, _, _, rfl⟩ := captured
      simp
    · obtain ⟨_, _, _, _, _, _, _, _, _, _, _, _, _, _, rfl⟩ := captured
      simp
  unfold FormWithin ValueWithin statedDate
  rw [isShape, hasDate, captured]
  unfold readDate at isDate
  cases found : caps.date with
  | none => simp [found]
  | some texts =>
    obtain ⟨year, month, day⟩ := texts
    rw [found] at isDate
    simp only [Option.bind_eq_bind, Option.bind_eq_some_iff,
      Option.some.injEq, parseI64_eq_some] at isDate
    obtain ⟨_, ⟨isYear, -⟩, _, ⟨isMonth, -⟩, _, ⟨isDay, -⟩, isCivil⟩ := isDate
    simp only [Option.bind_eq_bind, Option.bind_some, found, isYear, isMonth, isDay,
      Option.some.injEq, ne_eq, reduceCtorEq, not_false_eq_true, forall_true_left]
    rw [isCivil]
    exact ⟨fun within => within _ rfl, fun within date same => same ▸ within⟩

theorem compareForms_inRange_iff (digits : DigitClass) (shape : TemporalShape)
    (left right : List Char) :
    InRange (compareForms digits shape left right) ↔
      (Accepts digits shape left → Accepts digits shape right →
        FormWithin digits shape left ∧ FormWithin digits shape right) := by
  obtain ⟨leftInRange, leftParsed⟩ := parseTemporal_spec digits shape left
  obtain ⟨rightInRange, rightParsed⟩ := parseTemporal_spec digits shape right
  unfold InRange compareForms Accepts at *
  simp only [within_bind]
  rw [and_iff_right leftInRange, and_iff_right rightInRange]
  cases leftAccepted : (parseTemporal digits shape left).value with
  | none => simp
  | some leftValue =>
    cases rightAccepted : (parseTemporal digits shape right).value with
    | none => simp
    | some rightValue =>
      have compared :=
        compareTemporal_inRange_iff
          (leftParsed leftValue leftAccepted).1
          (rightParsed rightValue rightAccepted).1
      unfold InRange at compared
      simp only [within_bind, within_pure, and_true]
      rw [compared, formWithin_iff leftAccepted, formWithin_iff rightAccepted]
      simp

/-! ## Months -/

theorem intOfText_notNegative (unsigned : '-' ∉ text) (isText : intOfText text = some exact) :
    0 ≤ exact := by
  unfold intOfText at isText
  split at isText
  · exact absurd mem_cons_self unsigned
  · split at isText
    · cases isText
      exact Int.natCast_nonneg _
    · cases isText
  · split at isText
    · cases isText
      exact Int.natCast_nonneg _
    · cases isText

theorem many_unsigned (isMany : digits.many text = some (found, rest)) : '-' ∉ found := by
  simp only [DigitClass.many] at isMany
  split at isMany
  · cases isMany
  · cases isMany
    intro member
    have isDigit := mem_takeWhile_imp member
    rw [digits.ascii '-' (by decide)] at isDigit
    exact absurd isDigit (by decide)

theorem component_unsigned {unit : Char}
    (isComponent : (digits.component unit text).1 = some found) :
    '-' ∉ found := by
  unfold DigitClass.component at isComponent
  split at isComponent
  · rename_i isMany
    split at isComponent
    · cases isComponent
      exact many_unsigned isMany
    · cases isComponent
  · cases isComponent

/-- The years and months captured have no sign. -/
theorem captureYearMonth_unsigned {negative : Bool} {years months : Option (List Char)}
    (captured : captureYearMonth digits text = some (negative, years, months)) :
    (∀ found, years = some found → '-' ∉ found) ∧ (∀ found, months = some found → '-' ∉ found) := by
  simp only [captureYearMonth, Option.bind_eq_bind, Option.bind_eq_some_iff] at captured
  obtain ⟨rest, -, captured⟩ := captured
  split at captured
  · cases captured
    exact ⟨fun found => component_unsigned, fun found => component_unsigned⟩
  · cases captured

/-- What is read of digits, or of none, is not below zero. -/
theorem part_notNegative {text : Option (List Char)}
    (unsigned : ∀ found, text = some found → '-' ∉ found)
    (isPart : text.elim (some 0) parseI64 = some number) :
    0 ≤ number := by
  cases text with
  | none =>
    cases isPart
    decide
  | some found => exact intOfText_notNegative (unsigned found rfl) (parseI64_eq_some.mp isPart).1

theorem parseYearMonth_inRange_iff (digits : DigitClass) (lexical : List Char) :
    InRange (parseYearMonth digits lexical) ↔ MonthsWithin digits lexical := by
  unfold parseYearMonth MonthsWithin InRange
  cases captured : captureYearMonth digits (trimmed lexical) with
  | none =>
    refine iff_of_true (within_pure none) ?_
    intro negative years months isNone
    cases isNone
  | some parts =>
    obtain ⟨negative, years, months⟩ := parts
    obtain ⟨yearsUnsigned, monthsUnsigned⟩ := captureYearMonth_unsigned captured
    have onlyThese
        (property : Option (List Char) → Option (List Char) → Prop) :
        (∀ negative' years' months',
            some (negative, years, months) =
                some (negative', years', months') →
              property years' months') ↔
          property years months := by
      constructor
      · intro every
        exact every negative years months rfl
      · rintro holds negative' years' months' same
        cases same
        exact holds
    rw [onlyThese fun years months => ∀ yearCount,
      years.elim (some 0) parseI64 = some yearCount → ∀ monthCount,
      months.elim (some 0) parseI64 = some monthCount → yearCount * 12 + monthCount ≤ 2 ^ 63 - 1]
    by_cases empty : years = none ∧ months = none
    · obtain ⟨rfl, rfl⟩ := empty
      simp
    · simp only [if_neg empty]
      cases isYears : years.elim (some 0) parseI64 with
      | none => simp
      | some yearCount =>
        cases isMonths : months.elim (some 0) parseI64 with
        | none => simp
        | some monthCount =>
          have yearsFrom := part_notNegative yearsUnsigned isYears
          have monthsFrom := part_notNegative monthsUnsigned isMonths
          simp only [Option.some.injEq, forall_eq']
          rw [within_bind, within_times, value_times, within_bind, within_plus, value_plus]
          split
          · rw [within_bind, within_negate]
            simp only [within_pure, and_true]
            omega
          · simp only [within_pure, and_true]
            omega

/-! ## The result -/

end I64

/-- The digits of ASCII alone. -/
def asciiDigits : DigitClass where
  isDigit := Char.isDigit
  ascii := fun _ _ => rfl

end IyaSts.Xacml.Rust
