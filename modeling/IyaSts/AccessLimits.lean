import IyaSts.BoundedCorrection
import IyaSts.Calendar
import IyaSts.DigitRuns

namespace IyaSts.AccessLimits

open Calendar BoundedCorrection DigitRuns

/-!
# The repeating intervals of `access_limits.ts`

An interval is `R[n]/start/duration`.  Times are whole seconds and numbers exact,
as they are below 2^53; a time that no date holds is none.
-/

/-! ## The texts -/

/-- The end of `RFC3339_RE`: `Z`, or an offset. -/
def isOffset (text : List Char) : Bool :=
  match text with
  | 'Z' :: rest => rest.isEmpty
  | sign :: rest =>
    if sign = '+' ∨ sign = '-' then
      match field 2 ':' rest with
      | some (_, rest) => digits 2 2 rest = some (rest, [])
      | none => false
    else
      false
  | [] => false

/-- `RFC3339_RE`. -/
def isRfc3339 (text : List Char) : Bool :=
  let seconds := do
    let (_, rest) ← field 4 '-' text
    let (_, rest) ← field 2 '-' rest
    let (_, rest) ← field 2 'T' rest
    let (_, rest) ← field 2 ':' rest
    let (_, rest) ← field 2 ':' rest
    digits 2 2 rest
  match seconds with
  | some (_, '.' :: rest) =>
    match digits 1 9 rest with
    | some (_, rest) => isOffset rest
    | none => false
  | some (_, rest) => isOffset rest
  | none => false

/-- A time value, which a date holds. -/
def isTimeValue (time : Int) : Bool := -8640000000000000 ≤ time ∧ time ≤ 8640000000000000

/-- `Date.parse` of some engine: milliseconds that a date holds, or none. -/
structure DateParse where
  parse : String → Option Int
  isTimeValue : ∀ text time, parse text = some time → isTimeValue time = true

/-- `timeOf`, of a text. -/
def timeOf (engine : DateParse) (text : List Char) : Option Int :=
  if isRfc3339 text then
    (engine.parse (String.ofList text)).map (· / 1000)
  else
    none

/-! ## Durations and intervals -/

structure Duration where
  months : Nat
  seconds : Nat
  deriving DecidableEq

structure Interval where
  /-- None where it is unbounded. -/
  repetitions : Option Nat
  start : Int
  duration : Duration
  text : String
  deriving DecidableEq

/-- One group of `DURATION_RE` and its unit, where they stand next. -/
def unit (most : Nat) (letter : Char) (text : List Char) : Nat × List Char :=
  match digits 1 most text with
  | some (read, next :: rest) => if next = letter then (number read, rest) else (0, text)
  | _ => (0, text)

/-- `durationOf`, of a text. -/
def durationOf (text : List Char) : Option Duration :=
  match text with
  | 'P' :: rest =>
    let (years, rest) := unit 7 'Y' rest
    let (months, rest) := unit 7 'M' rest
    let (weeks, rest) := unit 7 'W' rest
    let (days, rest) := unit 7 'D' rest
    let inDay :=
      match rest with
      | [] => some (0, 0, 0)
      | 'T' :: rest =>
        let (hours, rest) := unit 7 'H' rest
        let (minutes, rest) := unit 7 'M' rest
        let (seconds, rest) := unit 9 'S' rest
        if rest = [] then some (hours, minutes, seconds) else none
      | _ => none
    match inDay with
    | some (hours, minutes, seconds) =>
      let months := years * 12 + months
      let seconds := weeks * 604800 + days * 86400 + hours * 3600 + minutes * 60 + seconds
      if text.getLast? = some 'T' ∨ months + seconds ≤ 0 then
        none
      else
        some ⟨months, seconds⟩
    | none => none
  | _ => none

/-- The groups of `INTERVAL_RE`. -/
def intervalGroups (text : List Char) : Option (List Char × List Char × List Char) :=
  match text with
  | 'R' :: rest =>
    match digits 0 7 rest with
    | some (repetitions, '/' :: rest) =>
      let start := rest.takeWhile (· ≠ '/')
      match rest.dropWhile (· ≠ '/') with
      | '/' :: 'P' :: rest =>
        if 1 ≤ start.length ∧ start.length ≤ 64 ∧
            1 ≤ rest.length ∧ rest.length ≤ 64 ∧ '/' ∉ rest then
          some (repetitions, start, 'P' :: rest)
        else
          none
      | _ => none
    | _ => none
  | _ => none

/-- `intervalOf`, of a text. -/
def intervalOf (engine : DateParse) (text : String) : Option Interval := do
  let (repetitions, start, duration) ← intervalGroups text.toList
  let repetitions := if repetitions = [] then none else some (number repetitions)
  let start ← timeOf engine start
  let duration ← durationOf duration
  if repetitions = some 0 then
    none
  else
    some ⟨repetitions, start, duration, text⟩

/-! ## Boundaries -/

/-- A time, where a date holds it. -/
def timeClip (time : Int) : Option Int := if isTimeValue time then some time else none

/-- `setUTCMonth`. -/
def setUTCMonth (time month : Int) : Option Int :=
  timeClip (makeDay (utcFullYear time) month (utcDate time) * 86400000 + time % 86400000)

/-- `after`. -/
def after (start : Int) (duration : Duration) (k : Int) : Option Int := do
  let instant ← timeClip (start * 1000)
  let instant ←
    if duration.months ≠ 0 then
      setUTCMonth instant (utcMonth instant + duration.months * k)
    else
      some instant
  some (instant / 1000 + duration.seconds * k)

/-! ## The period of a time -/

/-- `AVERAGE_MONTH_S`. -/
def averageMonth : Int := 2629746

/-- What `periodAt` answers. -/
inductive PeriodAt where
  | malformed
  | before
  | after
  | period (index : Int) (start finish : Option Int)
  deriving DecidableEq

/-- An interval, or its text. -/
inductive Asked where
  | read (interval : Interval)
  | text (text : String)

/-- What the first loop asks: a comparison with what no date holds is false. -/
def isTooFar (interval : Interval) (now index : Int) : Bool :=
  match after interval.start interval.duration index with
  | some boundary => now < boundary
  | none => false

/-- What the second loop asks. -/
def isBehind (interval : Interval) (now index : Int) : Bool :=
  match after interval.start interval.duration (index + 1) with
  | some boundary => boundary ≤ now
  | none => false

/-- The index that the mean length of a month gives. -/
def estimate (interval : Interval) (now : Int) : Int :=
  (now - interval.start) / (interval.duration.months * averageMonth + interval.duration.seconds)

/-- The estimate after the two loops. -/
def corrected (interval : Interval) (now : Int) : Int :=
  stepUp (isBehind interval now) 8 (stepDown (isTooFar interval now) 8 (estimate interval now))

/-- `periodAt`. -/
def periodAt (engine : DateParse) (asked : Asked) (now : Int) : PeriodAt :=
  let read :=
    match asked with
    | .read interval => some interval
    | .text text => intervalOf engine text
  match read with
  | none => .malformed
  | some interval =>
    if now < interval.start then
      .before
    else
      let index := corrected interval now
      let index := if index < 0 then 0 else index
      if interval.repetitions.any (fun count => (count : Int) ≤ index) then
        .after
      else
        .period index (after interval.start interval.duration index)
          (after interval.start interval.duration (index + 1))

end IyaSts.AccessLimits
