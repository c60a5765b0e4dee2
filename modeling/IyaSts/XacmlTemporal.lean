import IyaSts.XacmlModel
import Mathlib.Algebra.Order.Floor.Ring
import Mathlib.Data.Rat.Floor

namespace IyaSts.Xacml

/-!
# Dates and times in both engines

`xacml_datatypes.js` and `xacml_functions.js`, and `datatypes.rs` and
`functions/standard.rs`, on the local components of a value.  Integers are
unbounded and seconds exact.
-/

/-- A date of the proleptic Gregorian calendar, or what should be one. -/
structure Civil where
  year : Int
  month : Int
  day : Int
  deriving DecidableEq

/-- The sign of a comparison. -/
def signOf (left right : Rat) : Ordering :=
  if left < right then
    .lt
  else if right < left then
    .gt
  else
    .eq

namespace Node

/-! ## The JavaScript engine -/

/-- `daysFromCivil`. -/
def daysFromCivil (year month day : Int) : Int :=
  let y := year - (if month ≤ 2 then 1 else 0)
  let era := (if 0 ≤ y then y else y - 399) / 400
  let yoe := y - era * 400
  let doy := (153 * (month + (if 2 < month then -3 else 9)) + 2) / 5 + day - 1
  let doe := yoe * 365 + yoe / 4 - yoe / 100 + doy
  era * 146097 + doe - 719468

/-- `civilFromDays`. -/
def civilFromDays (days : Int) : Civil :=
  let z := days + 719468
  let era := (if 0 ≤ z then z else z - 146096) / 146097
  let doe := z - era * 146097
  let yoe := (doe - doe / 1460 + doe / 36524 - doe / 146096) / 365
  let y := yoe + era * 400
  let doy := doe - (365 * yoe + yoe / 4 - yoe / 100)
  let mp := (5 * doy + 2) / 153
  let d := doy - (153 * mp + 2) / 5 + 1
  let m := mp + (if mp < 10 then 3 else -9)
  { year := y + (if m ≤ 2 then 1 else 0)
    month := m
    day := d }

/-- The lengths of the months, of a common year. -/
def monthLengths : List Int := [31, 28, 31, 30, 31, 30, 31, 31, 30, 31, 30, 31]

/-- `daysInMonth`; the remainder has the sign of the year. -/
def daysInMonth (year month : Int) : Int :=
  if month = 2 ∧
      ((year.tmod 4 = 0 ∧ year.tmod 100 ≠ 0) ∨ year.tmod 400 = 0) then
    29
  else
    monthLengths.getD (month - 1).toNat 0

/-- `addMonths`. -/
def addMonths (value : Temporal) (months : Int) : Temporal :=
  let total := value.year * 12 + (value.month - 1) + months
  let year := total / 12
  let month := (total.tmod 12 + 12).tmod 12 + 1
  let day := min value.day (daysInMonth year month)
  { value with year := year, month := month, day := day }

/-- The seconds of the local components. -/
def localSeconds (value : Temporal) : Rat :=
  (if value.shape = .time then
      0
    else
      daysFromCivil value.year value.month value.day * 86400 : Int) +
    value.hour * 3600 + value.minute * 60 + value.second

/-- `addSeconds`. -/
def addSeconds (value : Temporal) (seconds : Rat) : Temporal :=
  let total := localSeconds value + seconds
  let days := ⌊total / 86400⌋
  let rest := total - days * 86400
  let hour := ⌊rest / 3600⌋
  let rest := rest - hour * 3600
  let minute := ⌊rest / 60⌋
  let second := rest - minute * 60
  let civil := civilFromDays days
  { shape := value.shape
    year := civil.year
    month := civil.month
    day := civil.day
    hour := hour
    minute := minute
    second := second
    tz := value.tz }

/-- `instantSeconds`. -/
def instantSeconds (value : Temporal) (assumedTz : Int) : Rat :=
  let tz := value.tz.getD assumedTz
  let date : Int :=
    if value.shape = .time then
      0
    else
      daysFromCivil value.year value.month value.day * 86400
  date + (value.hour * 3600 + value.minute * 60 + value.second) - tz * 60

/-- `compareTemporal`, `none` for `null`. -/
def compareTemporal (left right : Temporal) : Option Ordering :=
  if left.tz.isSome = right.tz.isSome then
    some (signOf (instantSeconds left 0) (instantSeconds right 0))
  else
    let low := instantSeconds left (left.tz.getD (14 * 60))
    let lowRight := instantSeconds right (right.tz.getD (14 * 60))
    let high := instantSeconds left (left.tz.getD (-14 * 60))
    let highRight := instantSeconds right (right.tz.getD (-14 * 60))
    let first := signOf low lowRight
    let second := signOf high highRight
    if first = second then some first else none

end Node

namespace Rust

/-! ## The Rust engine -/

/-- `days_from_civil`: `/` cuts off, `div_euclid` rounds down. -/
def daysFromCivil (year month day : Int) : Int :=
  let y := year - (if month ≤ 2 then 1 else 0)
  let era := (if 0 ≤ y then y else y - 399) / 400
  let yoe := y - era * 400
  let doy := (153 * (month + (if 2 < month then -3 else 9)) + 2).tdiv 5 + day - 1
  let doe := yoe * 365 + yoe.tdiv 4 - yoe.tdiv 100 + doy
  era * 146097 + doe - 719468

/-- `civil_from_days`. -/
def civilFromDays (days : Int) : Civil :=
  let z := days + 719468
  let era := (if 0 ≤ z then z else z - 146096) / 146097
  let doe := z - era * 146097
  let yoe := (doe - doe.tdiv 1460 + doe.tdiv 36524 - doe.tdiv 146096).tdiv 365
  let y := yoe + era * 400
  let doy := doe - (365 * yoe + yoe.tdiv 4 - yoe.tdiv 100)
  let mp := (5 * doy + 2).tdiv 153
  let d := doy - (153 * mp + 2).tdiv 5 + 1
  let m := mp + (if mp < 10 then 3 else -9)
  { year := y + (if m ≤ 2 then 1 else 0)
    month := m
    day := d }

/-- `days_in_month`. -/
def daysInMonth (year month : Int) : Int :=
  if month = 2 ∧
      ((year.tmod 4 = 0 ∧ year.tmod 100 ≠ 0) ∨ year.tmod 400 = 0) then
    29
  else
    Node.monthLengths.getD (max 0 (min (month - 1) 11)).toNat 0

/-- `add_months`. -/
def addMonths (value : Temporal) (months : Int) : Temporal :=
  let total := value.year * 12 + (value.month - 1) + months
  let year := total / 12
  let month := total % 12 + 1
  let day := min value.day (daysInMonth year month)
  { value with year := year, month := month, day := day }

/-- The seconds of the local components. -/
def localSeconds (value : Temporal) : Rat :=
  (if value.shape = .time then
      0
    else
      daysFromCivil value.year value.month value.day * 86400 : Int) +
    (value.hour * 3600 + value.minute * 60 : Int) + value.second

/-- `add_seconds`. -/
def addSeconds (value : Temporal) (seconds : Rat) : Temporal :=
  let total := localSeconds value + seconds
  let days := ⌊total / 86400⌋
  let rest := total - days * 86400
  let hour := ⌊rest / 3600⌋
  let rest := rest - hour * 3600
  let minute := ⌊rest / 60⌋
  let second := rest - minute * 60
  let civil := civilFromDays days
  { shape := value.shape
    year := civil.year
    month := civil.month
    day := civil.day
    hour := hour
    minute := minute
    second := second
    tz := value.tz }

/-- `instant_seconds`. -/
def instantSeconds (value : Temporal) (assumedTz : Int) : Rat :=
  let tz := value.tz.getD assumedTz
  let date : Int :=
    if value.shape = .time then
      0
    else
      daysFromCivil value.year value.month value.day * 86400
  date + ((value.hour * 3600 + value.minute * 60 : Int) + value.second) - (tz * 60 : Int)

/-- `compare_temporal`. -/
def compareTemporal (left right : Temporal) : Option Ordering :=
  if left.tz.isSome = right.tz.isSome then
    some (signOf (instantSeconds left 0) (instantSeconds right 0))
  else
    let first := signOf (instantSeconds left (14 * 60)) (instantSeconds right (14 * 60))
    let second := signOf (instantSeconds left (-14 * 60)) (instantSeconds right (-14 * 60))
    if first = second then some first else none

end Rust

end IyaSts.Xacml
