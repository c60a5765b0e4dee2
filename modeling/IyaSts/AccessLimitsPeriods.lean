import IyaSts.AccessLimits
import Mathlib.Tactic.Ring

namespace IyaSts.AccessLimits

open Calendar BoundedCorrection

/-!
# The periods of a repeating interval

Counting months on from the first of some month and the days of the start on from
there, every boundary is a day of its own, also where the month is too short for the
start's date.  No month strays from the mean length by so much that the estimated
index is more than one period off.
-/

/-! ## Months counted through the years -/

/-- The first day of a month, counted through the years. -/
def monthStart (month : Int) : Int :=
  dayFromYear (month / 12) + daysBefore (isLeap (month / 12)) (month % 12).toNat

theorem makeDay_eq (year month date : Int) :
    makeDay year month date = monthStart (12 * year + month) + date - 1 := by
  have sameYear : (12 * year + month) / 12 = year + month / 12 := by omega
  have sameMonth : (12 * year + month) % 12 = month % 12 := by omega
  unfold makeDay monthStart
  rw [sameYear, sameMonth]

variable {month : Nat} {text : List Char} {engine : DateParse}

variable (leap : Bool)

/-- The months of a year begin apart. -/
theorem daysBefore_lt_succ (isMonth : month < 11) :
    daysBefore leap month < daysBefore leap (month + 1) := by
  have everyMonth :
      ∀ leap : Bool, ∀ month < 11, daysBefore leap month < daysBefore leap (month + 1) := by
    decide
  exact everyMonth leap month isMonth

theorem monthStart_lt_succ (month : Int) : monthStart month < monthStart (month + 1) := by
  unfold monthStart
  by_cases isLast : month % 12 = 11
  · have nextYear : (month + 1) / 12 = month / 12 + 1 := by omega
    have firstMonth : (month + 1) % 12 = 0 := by omega
    rw [isLast, nextYear, firstMonth, dayFromYear_succ]
    cases isLeap (month / 12) <;> cases isLeap (month / 12 + 1) <;> simp [daysBefore]
  · have sameYear : (month + 1) / 12 = month / 12 := by omega
    have nextMonth : ((month + 1) % 12).toNat = (month % 12).toNat + 1 := by omega
    rw [sameYear, nextMonth]
    have apart := daysBefore_lt_succ (isLeap (month / 12)) (show (month % 12).toNat < 11 by omega)
    omega

theorem monthStart_strictMono : StrictMono monthStart :=
  strictMono_int_of_lt_succ monthStart_lt_succ

/-! ## Months of the mean length -/

theorem dayFromYear_near (year : Int) :
    146097 * (year - 1970) - 800 ≤ 400 * dayFromYear year ∧
      400 * dayFromYear year ≤ 146097 * (year - 1970) + 800 := by
  unfold dayFromYear
  omega

theorem daysBefore_near (isMonth : month < 12) :
    averageMonth * month - 172800 ≤ 86400 * daysBefore leap month ∧
      86400 * daysBefore leap month ≤ averageMonth * month + 172800 := by
  have everyMonth :
      ∀ leap : Bool, ∀ month < 12,
        averageMonth * (month : Nat) - 172800 ≤ 86400 * daysBefore leap month ∧
          86400 * daysBefore leap month ≤ averageMonth * month + 172800 := by
    decide
  exact everyMonth leap month isMonth

/-- Seconds by which a month may begin beside its mean place. -/
theorem monthStart_near (month : Int) :
    averageMonth * (month - 23640) - 345600 ≤ 86400 * monthStart month ∧
      86400 * monthStart month ≤ averageMonth * (month - 23640) + 345600 := by
  have ofYear := dayFromYear_near (month / 12)
  have ofMonth := daysBefore_near (isLeap (month / 12)) (show (month % 12).toNat < 12 by omega)
  rw [Int.toNat_of_nonneg (by omega)] at ofMonth
  unfold monthStart
  unfold averageMonth at *
  omega

/-! ## Boundaries of any size -/

/-- A boundary as it were if dates had no end. -/
def boundary (start : Int) (duration : Duration) (k : Int) : Int :=
  makeDay (yearOfDay (start / 86400))
      (monthOfDay (start / 86400) + duration.months * k)
      (dateOfDay (start / 86400)) * 86400 +
    start % 86400 + duration.seconds * k

/-- The month of a time, counted through the years. -/
def monthOf (start : Int) : Int := 12 * yearOfDay (start / 86400) + monthOfDay (start / 86400)

section Boundaries

variable {start : Int} {duration : Duration}

theorem boundary_eq (start : Int) (duration : Duration) (k : Int) :
    boundary start duration k =
      (monthStart (monthOf start + duration.months * k) +
          dateOfDay (start / 86400) - 1) * 86400 +
        start % 86400 + duration.seconds * k := by
  unfold boundary monthOf
  rw [makeDay_eq, ← Int.add_assoc (12 * yearOfDay (start / 86400))]

theorem boundary_zero (start : Int) (duration : Duration) : boundary start duration 0 = start := by
  unfold boundary
  rw [mul_zero, mul_zero, add_zero, add_zero, makeDay_ofDay]
  omega

/-- The boundaries of a duration that is not empty are in order. -/
theorem boundary_strictMono (positive : 0 < duration.months + duration.seconds) :
    StrictMono (boundary start duration) := by
  intro k k' isBefore
  rw [boundary_eq, boundary_eq]
  by_cases noMonths : duration.months = 0
  · have apart : (duration.seconds : Int) * k < duration.seconds * k' :=
      mul_lt_mul_of_pos_left isBefore (by omega)
    rw [noMonths]
    simp only [zero_mul, add_zero, Nat.cast_zero]
    omega
  · have apart : (duration.months : Int) * k < duration.months * k' :=
      mul_lt_mul_of_pos_left isBefore (by omega)
    have starts :
        monthStart (monthOf start + duration.months * k) <
          monthStart (monthOf start + duration.months * k') :=
      monthStart_strictMono (by omega)
    have apart' : (duration.seconds : Int) * k ≤ duration.seconds * k' :=
      mul_le_mul_of_nonneg_left isBefore.le (by omega)
    omega

/-- The length a period has in the mean. -/
def span (duration : Duration) : Int := duration.months * averageMonth + duration.seconds

/-- Boundaries stray from even ones by less than a period. -/
theorem boundary_even (positive : 0 < duration.months + duration.seconds) :
    Even (boundary start duration) start (span duration) := by
  have first := boundary_zero start duration
  rw [boundary_eq, mul_zero, mul_zero, add_zero, add_zero] at first
  refine ⟨if duration.months = 0 then 0 else 691200, ?_, fun k => ?_⟩
  · unfold span averageMonth
    split <;> omega
  · rw [boundary_eq]
    by_cases noMonths : duration.months = 0
    · rw [if_pos noMonths]
      unfold span
      rw [noMonths]
      simp only [Nat.cast_zero, zero_mul, add_zero, zero_add]
      rw [mul_comm (duration.seconds : Int) k]
      omega
    · rw [if_neg noMonths]
      have ofStart := monthStart_near (monthOf start)
      have ofMonth := monthStart_near (monthOf start + duration.months * k)
      have mean :
          averageMonth * (monthOf start + duration.months * k - 23640) =
            averageMonth * (monthOf start - 23640) + k * (duration.months * averageMonth) := by
        ring
      have even :
          k * span duration = k * (duration.months * averageMonth) + duration.seconds * k := by
        unfold span
        ring
      rw [mean] at ofMonth
      rw [even]
      omega

end Boundaries

/-! ## The boundaries of the code -/

section After

variable {start : Int} {duration : Duration} {k at' : Int}

theorem utc_of_seconds (start : Int) : start * 1000 / 86400000 = start / 86400 := by omega

/-- What the code counts is the boundary, where a date holds it. -/
theorem after_eq (start : Int) (duration : Duration) (k : Int) :
    after start duration k =
      if isTimeValue (start * 1000) = true ∧
          (duration.months ≠ 0 →
            isTimeValue
                ((boundary start duration k - duration.seconds * k) * 1000) =
              true) then
        some (boundary start duration k)
      else
        none := by
  have noMonths (isZero : duration.months = 0) :
      boundary start duration k = start + duration.seconds * k := by
    have first := boundary_zero start duration
    unfold boundary at first ⊢
    rw [isZero] at first ⊢
    rw [Nat.cast_zero, zero_mul] at first ⊢
    omega
  unfold after timeClip
  by_cases isStart : isTimeValue (start * 1000) = true
  · rw [if_pos isStart]
    by_cases isZero : duration.months = 0
    · rw [if_pos ⟨isStart, fun isMonths => absurd isZero isMonths⟩, noMonths isZero]
      simp [isZero]
    · have shifted :
          makeDay (utcFullYear (start * 1000))
                (utcMonth (start * 1000) + duration.months * k)
                (utcDate (start * 1000)) * 86400000 +
              start * 1000 % 86400000 =
            (boundary start duration k - duration.seconds * k) * 1000 := by
        unfold boundary utcFullYear utcMonth utcDate
        rw [utc_of_seconds]
        omega
      simp only [Option.bind_eq_bind, Option.bind_some, ne_eq, isZero, not_false_eq_true, if_true,
        setUTCMonth, timeClip, shifted, isStart, true_and, true_implies]
      split
      · simp
      · rfl
  · rw [if_neg isStart, if_neg fun both => isStart both.1]
    rfl

theorem boundary_of_after (isSome : after start duration k = some at') :
    at' = boundary start duration k := by
  rw [after_eq] at isSome
  split at isSome
  · exact (Option.some.inj isSome).symm
  · cases isSome

theorem after_zero (isStart : isTimeValue (start * 1000) = true) :
    after start duration 0 = some start := by
  rw [after_eq, boundary_zero, mul_zero, sub_zero, if_pos ⟨isStart, fun _ => isStart⟩]

end After

/-! ## Intervals that are accepted -/

/-- A duration is not empty. -/
theorem durationOf_positive {duration : Duration} (isDuration : durationOf text = some duration) :
    0 < duration.months + duration.seconds := by
  unfold durationOf at isDuration
  split at isDuration
  · simp only at isDuration
    split at isDuration
    · split at isDuration
      · cases isDuration
      · rename_i notEmpty
        cases isDuration
        rw [not_or, not_le] at notEmpty
        exact notEmpty.2
    · cases isDuration
  · cases isDuration

/-- A date holds the start. -/
theorem timeOf_isTimeValue {start : Int} (isTime : timeOf engine text = some start) :
    isTimeValue (start * 1000) = true := by
  unfold timeOf at isTime
  split at isTime
  · rw [Option.map_eq_some_iff] at isTime
    obtain ⟨time, isParsed, rfl⟩ := isTime
    have inRange := engine.isTimeValue _ _ isParsed
    unfold isTimeValue at inRange ⊢
    rw [decide_eq_true_iff] at inRange ⊢
    omega
  · cases isTime

theorem of_intervalOf {text : String} {interval : Interval}
    (accepted : intervalOf engine text = some interval) :
    0 < interval.duration.months + interval.duration.seconds ∧
      isTimeValue (interval.start * 1000) = true := by
  simp only [intervalOf, Option.bind_eq_bind, Option.bind_eq_some_iff]
    at accepted
  obtain ⟨⟨repetitions, startText, durationText⟩, -, start, isTime, duration,
    isDuration, checked⟩ := accepted
  rw [Option.ite_none_left_eq_some] at checked
  obtain ⟨-, isInterval⟩ := checked
  cases isInterval
  exact ⟨durationOf_positive isDuration, timeOf_isTimeValue isTime⟩

/-! ## The period of a time -/

/-- The period a time falls in, between two boundaries that dates hold. -/
structure IsPeriod (interval : Interval) (now k begins ends : Int) : Prop where
  isBegin : after interval.start interval.duration k = some begins
  isEnd : after interval.start interval.duration (k + 1) = some ends
  reached : begins ≤ now
  notOver : now < ends

/-- A period the interval repeats. -/
def Repeated (interval : Interval) (k : Int) : Prop :=
  ∀ count, interval.repetitions = some count → k < count

/-- Of the periods the interval repeats, a date holds the end of each that has
begun. -/
def Representable (interval : Interval) (now : Int) : Prop :=
  ∀ k begins, 0 ≤ k → Repeated interval k →
    after interval.start interval.duration k = some begins → begins ≤ now →
      (after interval.start interval.duration (k + 1)).isSome = true

/-- What the answer of `periodAt` is meant to say of the periods. -/
structure Partitioned (interval : Interval) (now : Int) (answer : PeriodAt) :
    Prop where
  unique :
    ∀ k begins ends k' begins' ends',
      IsPeriod interval now k begins ends → IsPeriod interval now k' begins' ends' → k' = k
  answers :
    ∀ k begins ends, IsPeriod interval now k begins ends →
      (Repeated interval k → answer = .period k (some begins) (some ends)) ∧
        (¬ Repeated interval k → answer = .after)
  -- A period that is not repeated may end where no date does.
  covers :
    (∃ k begins ends, 0 ≤ k ∧ IsPeriod interval now k begins ends) ∨
      ∃ count last,
        interval.repetitions = some count ∧
          after interval.start interval.duration count = some last ∧ last ≤ now ∧ answer = .after

section Periods

variable {interval : Interval} {now k begins ends : Int}

theorem IsPeriod.within (isPeriod : IsPeriod interval now k begins ends) :
    Within (boundary interval.start interval.duration) now k := by
  unfold Within
  rw [← boundary_of_after isPeriod.isBegin, ← boundary_of_after isPeriod.isEnd]
  exact ⟨isPeriod.reached, isPeriod.notOver⟩

/-- No index up to the period's is too far. -/
theorem lt_of_isTooFar (increasing : StrictMono (boundary interval.start interval.duration))
    (within : Within (boundary interval.start interval.duration) now k) {index : Int}
    (tooFar : isTooFar interval now index = true) :
    k < index := by
  unfold isTooFar at tooFar
  cases found : after interval.start interval.duration index with
  | none =>
    rw [found] at tooFar
    cases tooFar
  | some at' =>
    rw [found] at tooFar
    have isLater : now < at' := of_decide_eq_true tooFar
    rw [boundary_of_after found] at isLater
    exact increasing.lt_iff_lt.mp (lt_of_le_of_lt within.1 isLater)

theorem not_isTooFar_of_le (increasing : StrictMono (boundary interval.start interval.duration))
    (within : Within (boundary interval.start interval.duration) now k) {index : Int}
    (notAbove : index ≤ k) :
    isTooFar interval now index = false := by
  by_contra tooFar
  rw [Bool.not_eq_false] at tooFar
  have isAbove := lt_of_isTooFar increasing within tooFar
  omega

/-- The estimate is at most one period off. -/
theorem estimate_near (positive : 0 < interval.duration.months + interval.duration.seconds)
    (within : Within (boundary interval.start interval.duration) now k) :
    k - 1 ≤ estimate interval now ∧ estimate interval now ≤ k + 1 :=
  (boundary_even positive).estimate within

/-- The corrected index is the period's. -/
theorem corrected_eq (positive : 0 < interval.duration.months + interval.duration.seconds)
    (isPeriod : IsPeriod interval now k begins ends) :
    corrected interval now = k := by
  have increasing := @boundary_strictMono interval.start _ positive
  have within := isPeriod.within
  obtain ⟨notBelow, notAbove⟩ := estimate_near positive within
  have notTooFar (index : Int) (isUpTo : index ≤ k) :
      isTooFar interval now index = false :=
    not_isTooFar_of_le increasing within isUpTo
  have down :
      stepDown (isTooFar interval now) 8 (estimate interval now) =
        min (estimate interval now) k := by
    by_cases isHigh : k < estimate interval now
    · rw [min_eq_right isHigh.le]
      refine stepDown_eq isHigh.le (by omega) ?_ (notTooFar k le_rfl)
      intro index isAbove isBelow
      obtain rfl : index = k + 1 := by omega
      unfold isTooFar
      rw [isPeriod.isEnd]
      exact decide_eq_true isPeriod.notOver
    · rw [min_eq_left (not_lt.mp isHigh)]
      exact stepDown_of_not (notTooFar _ (not_lt.mp isHigh)) 8
  unfold corrected
  rw [down]
  refine stepUp_eq (min_le_right _ _) (by omega) ?_ ?_
  · intro index isFrom isBelow
    have isPrevious : index + 1 = k := by omega
    unfold isBehind
    rw [isPrevious, isPeriod.isBegin]
    exact decide_eq_true isPeriod.reached
  · unfold isBehind
    rw [isPeriod.isEnd]
    exact decide_eq_false (not_le.mpr isPeriod.notOver)

/-- Where the last period is over, the corrected index is beyond it. -/
theorem le_corrected (positive : 0 < interval.duration.months + interval.duration.seconds)
    (within : Within (boundary interval.start interval.duration) now k) {count last : Int}
    (isLast : after interval.start interval.duration count = some last) (isOver : last ≤ now) :
    count ≤ corrected interval now := by
  have increasing := @boundary_strictMono interval.start _ positive
  obtain ⟨notBelow, -⟩ := estimate_near positive within
  have notAbove : count ≤ k := by
    rw [boundary_of_after isLast] at isOver
    have isBefore := increasing.lt_iff_lt.mp (lt_of_le_of_lt isOver within.2)
    omega
  by_cases isHigh : k ≤ estimate interval now
  · have down := le_stepDown (fun index => @lt_of_isTooFar _ _ _ increasing within index) isHigh 8
    exact notAbove.trans (down.trans (le_stepUp 8))
  · have isPrevious : estimate interval now = k - 1 := by omega
    have stays := stepDown_of_not (not_isTooFar_of_le increasing within (show k - 1 ≤ k by omega)) 8
    unfold corrected
    rw [isPrevious, stays]
    by_cases isBelow : count ≤ k - 1
    · exact isBelow.trans (le_stepUp 8)
    · -- The first step up is made at the last boundary.
      obtain rfl : count = k - 1 + 1 := by omega
      have isBehind' : isBehind interval now (k - 1) = true := by
        unfold isBehind
        rw [isLast]
        exact decide_eq_true isOver
      rw [stepUp, if_pos isBehind']
      exact le_stepUp 7

theorem periodAt_of_interval (engine : DateParse) (asked : Asked)
    (isInterval :
      asked = .read interval ∨ ∃ text, asked = .text text ∧ intervalOf engine text = some interval)
    (begun : interval.start ≤ now)
    (notNegative : 0 ≤ corrected interval now) :
    periodAt engine asked now =
      if interval.repetitions.any
          (fun count => (count : Int) ≤ corrected interval now) then
        .after
      else
        .period (corrected interval now)
          (after interval.start interval.duration (corrected interval now))
          (after interval.start interval.duration (corrected interval now + 1)) := by
  unfold periodAt
  rcases isInterval with rfl | ⟨text, rfl, accepted⟩
  · simp only [not_lt.mpr begun, if_false, not_lt.mpr notNegative]
  · simp only [accepted, not_lt.mpr begun, if_false, not_lt.mpr notNegative]

theorem any_repetitions_iff (index : Int) :
    interval.repetitions.any (fun count => (count : Int) ≤ index) = true ↔
      ¬ Repeated interval index := by
  unfold Repeated
  cases interval.repetitions with
  | none => simp
  | some count => simp

/-- Up to the time, every boundary of a repeated period is held by a date. -/
theorem after_of_representable (positive : 0 < interval.duration.months + interval.duration.seconds)
    (isStart : isTimeValue (interval.start * 1000) = true)
    (representable : Representable interval now)
    (reached : boundary interval.start interval.duration k ≤ now)
    (repeated : ∀ j, j < k → Repeated interval j) (index : Nat) (notAbove : index ≤ k + 1)
    (repeatedLast : index = k + 1 → Repeated interval k) :
    after interval.start interval.duration index =
      some (boundary interval.start interval.duration index) := by
  induction index with
  | zero => rw [Nat.cast_zero, after_zero isStart, boundary_zero]
  | succ index ih =>
    push_cast at notAbove ⊢
    have before := ih (by omega) (by omega)
    have isRepeated : Repeated interval index := by
      by_cases isLast : (index : Int) = k
      · rw [isLast]
        exact repeatedLast (by push_cast; omega)
      · exact repeated index (by omega)
    have isReached :
        boundary interval.start interval.duration index ≤ now :=
      ((boundary_strictMono positive).monotone (by omega)).trans reached
    obtain ⟨next, isNext⟩ :=
      Option.isSome_iff_exists.mp (representable index _ (by omega) isRepeated before isReached)
    rw [isNext, boundary_of_after isNext]

/-- A period, or the end of the last one, is where the time is. -/
theorem covers_of_representable
    (positive : 0 < interval.duration.months + interval.duration.seconds)
    (isStart : isTimeValue (interval.start * 1000) = true)
    (representable : Representable interval now)
    (within : Within (boundary interval.start interval.duration) now k) (notNegative : 0 ≤ k) :
    (∃ begins ends, IsPeriod interval now k begins ends) ∨
      ∃ (count : Nat) (last : Int),
        interval.repetitions = some count ∧
          after interval.start interval.duration count = some last ∧ last ≤ now := by
  obtain ⟨steps, rfl⟩ := Int.eq_ofNat_of_zero_le notNegative
  have increasing := @boundary_strictMono interval.start _ positive
  by_cases repeated : Repeated interval steps
  · have held :=
      after_of_representable positive isStart representable within.1
        (fun j isBefore count isCount => by
          have isLess := repeated count isCount
          omega)
    refine .inl ⟨_, _, held steps (by omega) (by omega), ?_, within.1, within.2⟩
    exact_mod_cast held (steps + 1) (by push_cast; omega) fun _ => repeated
  · obtain ⟨count, isCount, notLess⟩ :
        ∃ count : Nat, interval.repetitions = some count ∧ count ≤ steps := by
      unfold Repeated at repeated
      push Not at repeated
      obtain ⟨count, isCount, notLess⟩ := repeated
      exact ⟨count, isCount, by omega⟩
    have isReached :
        boundary interval.start interval.duration count ≤ now :=
      (increasing.monotone (by omega)).trans within.1
    have held :=
      after_of_representable positive isStart representable isReached
        (fun j isBefore other isOther => by
          rw [isCount] at isOther
          cases isOther
          exact isBefore)
        count (by omega) (by omega)
    exact .inr ⟨count, _, isCount, held, isReached⟩

end Periods

/--
The boundaries of every interval that is accepted strictly increase, and for every
time from its start on `periodAt` answers the only period the time falls in, or that
it is after the last one the interval repeats.
-/
theorem periods_partition_time (engine : DateParse) {text : String} {interval : Interval}
    (accepted : intervalOf engine text = some interval) :
    (∀ k k' at' at'', k < k' →
      after interval.start interval.duration k = some at' →
        after interval.start interval.duration k' = some at'' → at' < at'') ∧
      ∀ asked now,
        asked = .text text ∨ asked = .read interval →
          interval.start ≤ now → Representable interval now →
            Partitioned interval now (periodAt engine asked now) := by
  obtain ⟨positive, isStart⟩ := of_intervalOf accepted
  have increasing := @boundary_strictMono interval.start _ positive
  constructor
  · intro k k' at' at'' isBefore isAt isAt'
    rw [boundary_of_after isAt, boundary_of_after isAt']
    exact increasing isBefore
  intro asked now isAsked begun representable
  have isInterval :
      asked = .read interval ∨
        ∃ text, asked = .text text ∧ intervalOf engine text = some interval := by
    rcases isAsked with rfl | rfl
    · exact .inr ⟨text, rfl, accepted⟩
    · exact .inl rfl
  have begun' : boundary interval.start interval.duration 0 ≤ now := by
    rw [boundary_zero]
    exact begun
  obtain ⟨k, notNegative, within⟩ := exists_within increasing begun'
  refine ⟨?_, ?_, ?_⟩
  · intro k begins ends k' begins' ends' isPeriod isPeriod'
    exact isPeriod.within.unique increasing isPeriod'.within
  · intro k' begins ends isPeriod
    obtain rfl := within.unique increasing isPeriod.within
    have isCorrected := corrected_eq positive isPeriod
    rw [periodAt_of_interval engine asked isInterval begun (by rw [isCorrected]; exact notNegative),
      isCorrected, isPeriod.isBegin, isPeriod.isEnd]
    constructor
    · intro repeated
      rw [if_neg]
      rw [any_repetitions_iff, not_not]
      exact repeated
    · intro notRepeated
      rw [if_pos ((any_repetitions_iff _).mpr notRepeated)]
  · rcases covers_of_representable positive isStart representable within
        notNegative with
      ⟨begins, ends, isPeriod⟩ | ⟨count, last, isCount, isLast, isOver⟩
    · exact .inl ⟨k, begins, ends, notNegative, isPeriod⟩
    · have notBelow := le_corrected positive within isLast isOver
      refine .inr ⟨count, last, isCount, isLast, isOver, ?_⟩
      rw [periodAt_of_interval engine asked isInterval begun (by omega), if_pos]
      rw [isCount]
      exact decide_eq_true notBelow

/-- An engine that reads the start of an interval. -/
def lastOfJanuary : DateParse where
  parse text := if text = "2026-01-31T00:00:00Z" then some 1769817600000 else none
  isTimeValue := by
    intro text time isParsed
    rw [Option.ite_none_right_eq_some] at isParsed
    obtain ⟨-, isTime⟩ := isParsed
    cases isTime
    decide

/-- Two months from the end of January. -/
def twoMonths : Interval where
  repetitions := some 2
  start := 1769817600
  duration := ⟨1, 0⟩
  text := "R2/2026-01-31T00:00:00Z/P1M"

theorem twoMonths_accepted :
    intervalOf lastOfJanuary "R2/2026-01-31T00:00:00Z/P1M" = some twoMonths := by
  decide +kernel

/-- The middle of March is in the second of two months from the end of January, whose
first ends with the second of March. -/
theorem march_is_in_the_second_month :
    Partitioned twoMonths 1773532800
        (periodAt lastOfJanuary (.text "R2/2026-01-31T00:00:00Z/P1M") 1773532800) ∧
      periodAt lastOfJanuary (.text "R2/2026-01-31T00:00:00Z/P1M") 1773532800 =
        .period 1 (some 1772496000) (some 1774915200) := by
  have representable : Representable twoMonths 1773532800 := by
    intro k begins notNegative repeated _ _
    have isLess : k < 2 := repeated 2 rfl
    obtain rfl | rfl : k = 0 ∨ k = 1 := by omega
    · decide
    · decide
  exact
    ⟨(periods_partition_time lastOfJanuary twoMonths_accepted).2
        (.text "R2/2026-01-31T00:00:00Z/P1M") 1773532800 (.inl rfl) (by decide)
        representable,
      by decide +kernel⟩

end IyaSts.AccessLimits
