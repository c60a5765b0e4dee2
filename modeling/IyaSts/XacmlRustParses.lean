import IyaSts.Binary64
import IyaSts.ExactRun
import IyaSts.XacmlTemporal

namespace IyaSts.Xacml.Rust

/-!
# Dates, times and months as the Rust engine reads them

`datatypes.rs`, from `days_from_civil` to `parse_year_month`, with the result of
every operation on an `i64` kept.
-/

/-- The decimal digits of the regular expressions, which Unicode has more of than
ASCII. -/
structure DigitClass where
  isDigit : Char → Bool
  ascii : ∀ char : Char, char.toNat < 128 → isDigit char = char.isDigit

/-- No result is beyond an `i64`. -/
def InRange {α : Type} (run : ExactRun α) : Prop := run.Within (-2 ^ 63) (2 ^ 63 - 1)

/-! ## Texts -/

/-- White space of Unicode. -/
def isWhiteSpace (char : Char) : Bool :=
  char.toNat ∈ [0x09, 0x0a, 0x0b, 0x0c, 0x0d, 0x20, 0x85, 0xa0, 0x1680, 0x2028,
      0x2029, 0x202f, 0x205f, 0x3000] ∨
    (0x2000 ≤ char.toNat ∧ char.toNat ≤ 0x200a)

/-- `trimmed`. -/
def trimmed (text : List Char) : List Char :=
  ((text.dropWhile isWhiteSpace).reverse.dropWhile isWhiteSpace).reverse

/-- The number ASCII digits spell. -/
def natOfDigits (digits : List Char) : Nat :=
  digits.foldl (fun number digit => number * 10 + (digit.toNat - 48)) 0

/-- The integer a text spells, of any size. -/
def intOfText (text : List Char) : Option Int :=
  match text with
  | '-' :: digits =>
    if digits ≠ [] ∧ digits.all Char.isDigit then
      some (-(natOfDigits digits : Int))
    else
      none
  | '+' :: digits =>
    if digits ≠ [] ∧ digits.all Char.isDigit then
      some (natOfDigits digits)
    else
      none
  | digits =>
    if digits ≠ [] ∧ digits.all Char.isDigit then
      some (natOfDigits digits)
    else
      none

/-- `parse::<i64>`: an integer of more than 64 bits is none. -/
def parseI64 (text : List Char) : Option Int := do
  let exact ← intOfText text
  if -2 ^ 63 ≤ exact ∧ exact ≤ 2 ^ 63 - 1 then
    some exact
  else
    none

/-- `parse::<f64>` of digits, with or without a fraction. -/
def parseF64 (text : List Char) : Option Rat :=
  let whole := text.takeWhile (· ≠ '.')
  let fraction := (text.dropWhile (· ≠ '.')).drop 1
  if whole.all Char.isDigit ∧ fraction.all Char.isDigit then
    some (Binary64.nearest (natOfDigits (whole ++ fraction) / 10 ^ fraction.length))
  else
    none

/-! ## The regular expressions -/

namespace DigitClass

variable (digits : DigitClass)

/-- `\d{2}`. -/
def two : List Char → Option (List Char × List Char)
  | first :: second :: rest =>
    if digits.isDigit first ∧ digits.isDigit second then
      some ([first, second], rest)
    else
      none
  | _ => none

/-- `\d+`. -/
def many (text : List Char) : Option (List Char × List Char) :=
  let found := text.takeWhile digits.isDigit
  if found = [] then none else some (found, text.dropWhile digits.isDigit)

/-- `-?\d{4,}`. -/
def year (text : List Char) : Option (List Char × List Char) := do
  let sign := if text.head? = some '-' then ['-'] else []
  let (found, rest) ← digits.many (text.drop sign.length)
  if 4 ≤ found.length then some (sign ++ found, rest) else none

/-- `\d{2}(?:\.\d+)?`. -/
def seconds (text : List Char) : Option (List Char × List Char) := do
  let (whole, rest) ← digits.two text
  match rest with
  | '.' :: fraction =>
    match digits.many fraction with
    | some (found, rest) => some (whole ++ '.' :: found, rest)
    | none => some (whole, '.' :: fraction)
  | rest => some (whole, rest)

/-- A literal character. -/
def literal (char : Char) : List Char → Option (List Char)
  | first :: rest => if first = char then some rest else none
  | [] => none

/-- `(Z|[+-]\d{2}:\d{2})?$`. -/
def zone (text : List Char) : Option (Option (List Char)) :=
  match text with
  | [] => some none
  | ['Z'] => some (some ['Z'])
  | sign :: rest =>
    if sign = '+' ∨ sign = '-' then do
      let (hours, rest) ← digits.two rest
      let rest ← literal ':' rest
      let (minutes, rest) ← digits.two rest
      if rest = [] then
        some (some (sign :: hours ++ ':' :: minutes))
      else
        none
    else
      none

/-- `(?:(\d+)U)?`, where `U` is the unit. -/
def component (unit : Char) (text : List Char) : Option (List Char) × List Char :=
  match digits.many text with
  | some (found, next :: rest) => if next = unit then (some found, rest) else (none, text)
  | _ => (none, text)

/-- `(-?\d{4,})-(\d{2})-(\d{2})`. -/
def date (text : List Char) :
    Option ((List Char × List Char × List Char) × List Char) := do
  let (year, rest) ← digits.year text
  let rest ← literal '-' rest
  let (month, rest) ← digits.two rest
  let rest ← literal '-' rest
  let (day, rest) ← digits.two rest
  some ((year, month, day), rest)

/-- `(\d{2}):(\d{2}):(\d{2}(?:\.\d+)?)`. -/
def time (text : List Char) :
    Option ((List Char × List Char × List Char) × List Char) := do
  let (hour, rest) ← digits.two text
  let rest ← literal ':' rest
  let (minute, rest) ← digits.two rest
  let rest ← literal ':' rest
  let (second, rest) ← digits.seconds rest
  some ((hour, minute, second), rest)

end DigitClass

/-- The captures of `DATE_RE`, `TIME_RE` and `DATETIME_RE`. -/
structure TemporalCaptures where
  date : Option (List Char × List Char × List Char)
  time : Option (List Char × List Char × List Char)
  zone : Option (List Char)
  deriving DecidableEq

/-- `re.captures(text)`. -/
def captures (digits : DigitClass) (shape : TemporalShape) (text : List Char) :
    Option TemporalCaptures :=
  match shape with
  | .date => do
    let (date, rest) ← digits.date text
    let zone ← digits.zone rest
    some { date := some date, time := none, zone := zone }
  | .time => do
    let (time, rest) ← digits.time text
    let zone ← digits.zone rest
    some { date := none, time := some time, zone := zone }
  | .dateTime => do
    let (date, rest) ← digits.date text
    let rest ← DigitClass.literal 'T' rest
    let (time, rest) ← digits.time rest
    let zone ← digits.zone rest
    some { date := some date, time := some time, zone := zone }

/-- The captures of `YEARMONTH_RE`: the sign, the years and the months. -/
def captureYearMonth (digits : DigitClass) (text : List Char) :
    Option (Bool × Option (List Char) × Option (List Char)) := do
  let negative := text.head? = some '-'
  let rest ← DigitClass.literal 'P' (if negative then text.drop 1 else text)
  let (years, rest) := digits.component 'Y' rest
  let (months, rest) := digits.component 'M' rest
  if rest = [] then some (negative, years, months) else none

/-! ## The functions -/

namespace I64

open ExactRun

/-- `timezone_minutes`. -/
def timezoneMinutes (text : Option (List Char)) : ExactRun (Option Int) :=
  match text with
  | none => pure none
  | some text =>
    if text = ['Z'] then
      pure (some 0)
    else do
      let sign := if text.head? = some '-' then -1 else 1
      match parseI64 ((text.drop 1).take 2),
          parseI64 ((text.drop 4).take 2) with
      | some hours, some minutes =>
        let hours ← times hours 60
        let minutes ← plus hours minutes
        let minutes ← times sign minutes
        pure (some minutes)
      | _, _ => pure none

/-- What the era of a year is a four hundredth of. -/
def eraDividend (y : Int) : ExactRun Int := if 0 ≤ y then pure y else minus y 399

/-- `days_from_civil`. -/
def daysFromCivil (year month day : Int) : ExactRun Int := do
  let y ← minus year (if month ≤ 2 then 1 else 0)
  let dividend ← eraDividend y
  let era := dividend / 400
  let years ← times era 400
  let yoe ← minus y years
  let mp ← plus month (if 2 < month then -3 else 9)
  let doy ← times 153 mp
  let doy ← plus doy 2
  let doy ← plus (doy.tdiv 5) day
  let doy ← minus doy 1
  let doe ← times yoe 365
  let doe ← plus doe (yoe.tdiv 4)
  let doe ← minus doe (yoe.tdiv 100)
  let doe ← plus doe doy
  let days ← times era 146097
  let days ← plus days doe
  minus days 719468

/-- The date, the time and the timezone of `parse_temporal`. -/
def parseFields (shape : TemporalShape) (caps : TemporalCaptures) :
    ExactRun (Option Temporal) := do
  let date :=
    match caps.date with
    | none => some (⟨1970, 1, 1⟩ : Civil)
    | some (year, month, day) => do
      some ⟨← parseI64 year, ← parseI64 month, ← parseI64 day⟩
  let time :=
    match caps.time with
    | none => some ((0, 0, 0) : Int × Int × Rat)
    | some (hour, minute, second) => do
      some (← parseI64 hour, ← parseI64 minute, ← parseF64 second)
  match date, time with
  | some date, some (hour, minute, second) =>
    let tz ← timezoneMinutes caps.zone
    pure
      (some
        { shape := shape
          year := date.year
          month := date.month
          day := date.day
          hour := hour
          minute := minute
          second := second
          tz := tz })
  | _, _ => pure none

/-- `parse_temporal`. -/
def parseTemporal (digits : DigitClass) (shape : TemporalShape) (lexical : List Char) :
    ExactRun (Option Temporal) :=
  match captures digits shape (trimmed lexical) with
  | none => pure none
  | some caps => do
    match ← parseFields shape caps with
    | none => pure none
    | some value =>
      if value.month < 1 ∨ 12 < value.month ∨ value.day < 1 ∨
          31 < value.day ∨ 24 < value.hour ∨ 59 < value.minute ∨
          61 ≤ value.second then
        pure none
      else
        pure (some value)

/-- The seconds of the date, where there is one. -/
def dateSeconds (value : Temporal) : ExactRun Int :=
  if value.shape = .time then
    pure 0
  else do
    let days ← daysFromCivil value.year value.month value.day
    times days 86400

/-- `instant_seconds`. -/
def instantSeconds (value : Temporal) (assumedTz : Int) : ExactRun Rat := do
  let tz := value.tz.getD assumedTz
  let date ← dateSeconds value
  let hours ← times value.hour 3600
  let minutes ← times value.minute 60
  let time ← plus hours minutes
  let offset ← times tz 60
  pure (date + (time + value.second) - offset)

/-- `compare_temporal`. -/
def compareTemporal (left right : Temporal) :
    ExactRun (Option Ordering) := do
  if left.tz.isSome = right.tz.isSome then
    let first ← instantSeconds left 0
    let second ← instantSeconds right 0
    pure (some (signOf first second))
  else
    let offset ← times 14 60
    let low ← instantSeconds left offset
    let offset ← times 14 60
    let lowRight ← instantSeconds right offset
    let first := signOf low lowRight
    let offset ← times (-14) 60
    let high ← instantSeconds left offset
    let offset ← times (-14) 60
    let highRight ← instantSeconds right offset
    let second := signOf high highRight
    pure (if first = second then some first else none)

/-- Both forms parsed and, where both are values, compared. -/
def compareForms (digits : DigitClass) (shape : TemporalShape) (left right : List Char) :
    ExactRun (Option (Option Ordering)) := do
  match ← parseTemporal digits shape left,
      ← parseTemporal digits shape right with
  | some left, some right =>
    let ordering ← compareTemporal left right
    pure (some ordering)
  | _, _ => pure none

/-- `parse_year_month`. -/
def parseYearMonth (digits : DigitClass) (lexical : List Char) : ExactRun (Option Int) :=
  match captureYearMonth digits (trimmed lexical) with
  | none => pure none
  | some (negative, years, months) =>
    if years = none ∧ months = none then
      pure none
    else
      let part (text : Option (List Char)) := text.elim (some 0) parseI64
      match part years, part months with
      | some years, some months => do
        let years ← times years 12
        let total ← plus years months
        if negative then
          let total ← negate total
          pure (some total)
        else
          pure (some total)
      | _, _ => pure none

end I64

end IyaSts.Xacml.Rust
