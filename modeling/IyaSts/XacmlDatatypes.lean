import IyaSts.Base64
import IyaSts.Binary64Arithmetic
import IyaSts.DigitRuns
import IyaSts.TextLines

namespace IyaSts.XacmlDatatypes

open Binary64 DigitRuns TextLines

/-!
# The rows of `xacml_datatypes.js`

How a lexical form becomes a value and when two values are equal, for the datatypes
that have an equality.  Numbers are JavaScript's own; an integer is unbounded.
-/

/-! ## Numbers in texts -/

/-- The number of digits, rounded. -/
def ofDigits (negative : Bool) (digits : List Char) : Number :=
  .round negative (number digits : ℚ≥0)

/-- The number of digits with others after the point, rounded. -/
def ofDecimal (negative : Bool) (whole fraction : List Char) (exponent : Int) : Number :=
  .round negative ((number (whole ++ fraction) : ℚ≥0) * 10 ^ (exponent - fraction.length))

/-- `[+-]?`: whether a sign is a minus, and the rest. -/
def sign (text : List Char) : Bool × List Char :=
  match text with
  | '-' :: rest => (true, rest)
  | '+' :: rest => (false, rest)
  | text => (false, text)

/-- `-?`. -/
def minus (text : List Char) : Bool × List Char :=
  match text with
  | '-' :: rest => (true, rest)
  | text => (false, text)

/-- `parseInt` of a decimal number that may have more behind it. -/
def parseInt (text : List Char) : Number :=
  let (negative, rest) := sign (text.dropWhile isWhitespace)
  match someDigits rest with
  | some (read, _) => ofDigits negative read
  | none => .nan

/-- `\d+(?:\.\d+)?`: the digits before and after the point, and the rest. -/
def decimal (text : List Char) : Option (List Char × List Char × List Char) :=
  match someDigits text with
  | some (whole, '.' :: rest) =>
    match someDigits rest with
    | some (fraction, rest) => some (whole, fraction, rest)
    | none => some (whole, [], '.' :: rest)
  | some (whole, rest) => some (whole, [], rest)
  | none => none

/-! ## Dates and times -/

/-- Which of the three grammars. -/
inductive Shape where
  | date
  | time
  | dateTime
  deriving DecidableEq

/-- What `parseDateTimeish` answers. -/
structure DateTimeish where
  shape : Shape
  year : Number
  month : Nat
  day : Nat
  hour : Nat
  minute : Nat
  second : Number
  tz : Option Int

/-- The groups of `DATE_PART`, and the rest. -/
def datePart (text : List Char) : Option (Number × Nat × Nat × List Char) := do
  let (negative, rest) := minus text
  match ← someDigits rest with
  | (year, '-' :: rest) =>
    if 4 ≤ year.length then do
      let (month, rest) ← field 2 '-' rest
      let (day, rest) ← digits 2 2 rest
      some (ofDigits negative year, number month, number day, rest)
    else
      none
  | _ => none

/-- The groups of `TIME_PART`, and the rest. -/
def timePart (text : List Char) : Option (Nat × Nat × Number × List Char) := do
  let (hour, rest) ← field 2 ':' text
  let (minute, rest) ← field 2 ':' rest
  let (whole, fraction, rest) ← decimal rest
  if whole.length = 2 then
    some (number hour, number minute, ofDecimal false whole fraction 0, rest)
  else
    none

/-- `TZ_PART` to the end, by `timezoneMinutes`. -/
def timezoneMinutes (text : List Char) : Option (Option Int) :=
  match text with
  | [] => some none
  | ['Z'] => some (some 0)
  | sign :: rest =>
    if sign = '+' ∨ sign = '-' then do
      let (hours, rest) ← field 2 ':' rest
      let (minutes, rest) ← digits 2 2 rest
      if rest = [] then
        let minutes : Int := number hours * 60 + number minutes
        some (some (if sign = '-' then -minutes else minutes))
      else
        none
    else
      none

/-- The groups of `DATE_RE`, `TIME_RE` and `DATETIME_RE`. -/
def dateTimeGroups (shape : Shape) (text : List Char) :
    Option DateTimeish := do
  match shape with
  | .date =>
    let (year, month, day, rest) ← datePart text
    let tz ← timezoneMinutes rest
    some ⟨shape, year, month, day, 0, 0, .ofInt 0, tz⟩
  | .time =>
    let (hour, minute, second, rest) ← timePart text
    let tz ← timezoneMinutes rest
    some ⟨shape, .ofInt 1970, 1, 1, hour, minute, second, tz⟩
  | .dateTime =>
    match ← datePart text with
    | (year, month, day, 'T' :: rest) => do
      let (hour, minute, second, rest) ← timePart rest
      let tz ← timezoneMinutes rest
      some ⟨shape, year, month, day, hour, minute, second, tz⟩
    | _ => none

/-- `parseDateTimeish`. -/
def parseDateTimeish (lexical : List Char) (shape : Shape) :
    Option DateTimeish := do
  let value ← dateTimeGroups shape (trim lexical)
  if value.month < 1 ∨ value.month > 12 ∨ value.day < 1 ∨ value.day > 31 ∨
      value.hour > 24 ∨ value.minute > 59 ∨
      value.second.less (.ofInt 61) = false then
    none
  else
    some value

/-- `daysFromCivil`, as doubles are counted with. -/
def daysFromCivil (year : Number) (month day : Nat) : Number :=
  let y := year.sub (.ofInt (if month ≤ 2 then 1 else 0))
  let era := ((if y.less (.ofInt 0) then y.sub (.ofInt 399) else y).div (.ofInt 400)).floor
  let yoe := y.sub (era.mul (.ofInt 400))
  let doy : Int := (153 * ((month : Int) + (if month > 2 then -3 else 9)) + 2) / 5 + day - 1
  let doe :=
    (((yoe.mul (.ofInt 365)).add (yoe.div (.ofInt 4)).floor).sub
      (yoe.div (.ofInt 100)).floor).add (.ofInt doy)
  ((era.mul (.ofInt 146097)).add doe).sub (.ofInt 719468)

/-- The seconds of the local components. -/
def localSeconds (value : DateTimeish) : Number :=
  let date :=
    if value.shape = .time then
      .ofInt 0
    else
      (Number.ofInt 0).add ((daysFromCivil value.year value.month value.day).mul (.ofInt 86400))
  date.add ((Number.ofInt (value.hour * 3600 + value.minute * 60)).add value.second)

/-- `instantSeconds`. -/
def instantSeconds (value : DateTimeish) (assumedTz : Int) : Number :=
  (localSeconds value).sub (.ofInt (value.tz.getD assumedTz * 60))

/-- `a < b ? -1 : (a > b ? 1 : 0)`. -/
def signOf (a b : Number) : Ordering := if a.less b then .lt else if b.less a then .gt else .eq

/-- `compareTemporal`, `none` for `null`. -/
def compareTemporal (left right : DateTimeish) : Option Ordering :=
  if left.tz.isSome = right.tz.isSome then
    some (signOf (instantSeconds left 0) (instantSeconds right 0))
  else
    let first := signOf (instantSeconds left (14 * 60)) (instantSeconds right (14 * 60))
    let second := signOf (instantSeconds left (-14 * 60)) (instantSeconds right (-14 * 60))
    if first = second then some first else none

/-! ## Durations -/

/-- `(?:(\d+)X)?`: the number before a letter, where one stands next. -/
def unit (letter : Char) (text : List Char) : Option Number × List Char :=
  match someDigits text with
  | some (read, next :: rest) =>
    if next = letter then (some (ofDigits false read), rest) else (none, text)
  | _ => (none, text)

/-- `(?:(\d+(?:\.\d+)?)S)?`. -/
def secondsUnit (text : List Char) : Option Number × List Char :=
  match decimal text with
  | some (whole, fraction, 'S' :: rest) => (some (ofDecimal false whole fraction 0), rest)
  | _ => (none, text)

/-- A group that is missing counts zero. -/
def orZero (read : Option Number) : Number := read.getD (.ofInt 0)

def signed (negative : Bool) (number : Number) : Number := if negative then number.neg else number

/-- `parseYearMonthDuration`: its months. -/
def parseYearMonthDuration (lexical : List Char) : Option Number :=
  let (negative, rest) := minus (trim lexical)
  match rest with
  | 'P' :: rest =>
    let (years, rest) := unit 'Y' rest
    let (months, rest) := unit 'M' rest
    if rest ≠ [] ∨ (years.isNone ∧ months.isNone) then
      none
    else
      some (signed negative (((orZero years).mul (.ofInt 12)).add (orZero months)))
  | _ => none

/-- `parseDayTimeDuration`: its seconds. -/
def parseDayTimeDuration (lexical : List Char) : Option Number :=
  let (negative, rest) := minus (trim lexical)
  match rest with
  | 'P' :: rest =>
    let (days, rest) := unit 'D' rest
    let inDay :=
      match rest with
      | [] => some (none, none, none)
      | 'T' :: rest =>
        let (hours, rest) := unit 'H' rest
        let (minutes, rest) := unit 'M' rest
        let (seconds, rest) := secondsUnit rest
        if rest = [] then some (hours, minutes, seconds) else none
      | _ => none
    match inDay with
    | some (hours, minutes, seconds) =>
      if (days.isNone ∧ hours.isNone ∧ minutes.isNone ∧ seconds.isNone) ∨
          rest.getLast? = some 'T' then
        none
      else
        some
          (signed negative
            (((((orZero days).mul (.ofInt 86400)).add
              ((orZero hours).mul (.ofInt 3600))).add
              ((orZero minutes).mul (.ofInt 60))).add (orZero seconds)))
    | none => none
  | _ => none

/-! ## Names -/

structure Rfc822Name where
  localPart : List Char
  domain : List Char
  deriving DecidableEq

structure Rdn where
  attributeType : List Char
  value : List Char
  deriving DecidableEq

/-- What precedes the first of a character, and what follows it. -/
def splitAtFirst (char : Char) (text : List Char) : Option (List Char × List Char) :=
  match text.dropWhile (· ≠ char) with
  | _ :: after => some (text.takeWhile (· ≠ char), after)
  | [] => none

section Folding

-- `String.prototype.toLowerCase`, of any version of Unicode.
variable (toLowerCase : List Char → List Char)

/-- `parseRfc822Name`. -/
def parseRfc822Name (lexical : List Char) : Option Rfc822Name :=
  match splitAtFirst '@' (trim lexical).reverse with
  | some (domain, localPart) =>
    let domain := domain.reverse
    let localPart := localPart.reverse
    let isBad := fun char => isWhitespace char || char == '@'
    if localPart = [] ∨ domain = [] ∨ domain.any isBad ∨
        localPart.any isBad then
      none
    else
      some ⟨localPart, toLowerCase domain⟩
  | none => none

/-- The loop of `parseX500Name` over a text's characters. -/
def x500Parts (escaped quoted : Bool) (current : List Char) :
    List Char → List (List Char)
  | [] => [current]
  | character :: rest =>
    if escaped then
      x500Parts false quoted (current ++ [character]) rest
    else if character = '\\' then
      x500Parts true quoted (current ++ [character]) rest
    else if character = '"' then
      x500Parts escaped (!quoted) (current ++ [character]) rest
    else if character = ',' ∧ quoted = false then
      current :: x500Parts escaped quoted [] rest
    else
      x500Parts escaped quoted (current ++ [character]) rest

/-- The body of the loop of `parseX500Name` over the parts. -/
def x500Rdn (part : List Char) : Option Rdn :=
  match splitAtFirst '=' (trim part) with
  | some (attributeType, value) =>
    if attributeType = [] then
      none
    else
      some ⟨toLowerCase (trim attributeType), trim value⟩
  | none => none

/-- `parseX500Name`. -/
def parseX500Name (lexical : List Char) : Option (List Rdn) :=
  let text := trim lexical
  if text = [] then
    none
  else
    (x500Parts false false [] text).mapM (x500Rdn toLowerCase)

/-- `x500Equal`. -/
def x500Equal (left right : List Rdn) : Bool :=
  left.length == right.length &&
    (left.zip right).all fun pair =>
      pair.1.attributeType == pair.2.attributeType &&
        toLowerCase pair.1.value == toLowerCase pair.2.value

/-! ## Hosts and addresses -/

/-- The ends of a port range, where it has them. -/
structure Ports where
  low : Option Number
  high : Option Number

structure DnsName where
  host : List Char
  ports : Ports

structure IpAddress where
  address : List Char
  mask : Option (List Char)
  ports : Ports

/-- One end of a range with a dash. -/
def port (text : List Char) : Option Number := if text = [] then none else some (parseInt text)

/-- `parsePortRange`. -/
def parsePortRange (text : List Char) : Option Ports :=
  if text = [] then
    some ⟨none, none⟩
  else
    match splitAtFirst '-' text with
    | none =>
      let single := parseInt text
      if single.isNaN then none else some ⟨some single, some single⟩
    | some (low, high) => some ⟨port low, port high⟩

/-- `parseDnsName`. -/
def parseDnsName (lexical : List Char) : Option DnsName := do
  let text := trim lexical
  let (host, rest) := (splitAtFirst ':' text).getD (text, [])
  if host = [] ∨ host.any isWhitespace then
    none
  else do
    let ports ← parsePortRange rest
    some ⟨toLowerCase host, ports⟩

/-- The address of `parseIpAddress` with its mask, and what follows it. -/
def bracketed (text : List Char) : Option (List Char × List Char) :=
  match text with
  | '[' :: rest => splitAtFirst ']' rest
  | text => some (text.takeWhile (· ≠ ':'), text.dropWhile (· ≠ ':'))

/-- `parseIpAddress`. -/
def parseIpAddress (lexical : List Char) : Option IpAddress :=
  let text := trim lexical
  if text = [] then
    none
  else do
    let (address, rest) ← bracketed text
    let (address, mask) :=
      match splitAtFirst '/' address with
      | some (address, mask) => (address, some mask)
      | none => (address, none)
    let ports ←
      parsePortRange
        (match rest with
        | ':' :: rest => rest
        | _ => [])
    some ⟨toLowerCase address, mask, ports⟩

/-- `===` of two ends of ranges. -/
def samePort (left right : Option Number) : Bool :=
  match left, right with
  | none, none => true
  | some left, some right => left.strictEqual right
  | _, _ => false

/-- `portsEqual`. -/
def portsEqual (left right : Ports) : Bool :=
  samePort left.low right.low && samePort left.high right.high

/-! ## The table -/

/-- The datatypes that have an equality. -/
inductive Datatype where
  | string
  | boolean
  | integer
  | double
  | anyURI
  | hexBinary
  | base64Binary
  | date
  | time
  | dateTime
  | yearMonthDuration
  | dayTimeDuration
  | rfc822Name
  | x500Name
  | dnsName
  | ipAddress
  deriving DecidableEq

/-- The values of a datatype. -/
def Datatype.Value : Datatype → Type
  | string => List Char
  | boolean => Bool
  | integer => Int
  | double => Number
  | anyURI => List Char
  | hexBinary => List Char
  | base64Binary => List Char
  | date => DateTimeish
  | time => DateTimeish
  | dateTime => DateTimeish
  | yearMonthDuration => Number
  | dayTimeDuration => Number
  | rfc822Name => Rfc822Name
  | x500Name => List Rdn
  | dnsName => DnsName
  | ipAddress => IpAddress

/-- `boolean`'s `parse`. -/
def parseBoolean (lexical : List Char) : Option Bool :=
  let text := trim lexical
  if text = "true".toList ∨ text = "1".toList then
    some true
  else if text = "false".toList ∨ text = "0".toList then
    some false
  else
    none

/-- `integer`'s `parse`. -/
def parseInteger (lexical : List Char) : Option Int :=
  let (negative, rest) := sign (trim lexical)
  match someDigits rest with
  | some (read, []) => some (if negative then -number read else number read)
  | _ => none

/-- `([eE][+-]?\d+)?` to the end. -/
def exponent (text : List Char) : Option Int :=
  match text with
  | [] => some 0
  | letter :: rest =>
    if letter = 'e' ∨ letter = 'E' then
      let (negative, rest) := sign rest
      match someDigits rest with
      | some (read, []) => some (if negative then -number read else number read)
      | _ => none
    else
      none

/-- `double`'s `parse`. -/
def parseDouble (lexical : List Char) : Option Number :=
  let text := trim lexical
  if text = "INF".toList ∨ text = "+INF".toList then
    some (.infinite false)
  else if text = "-INF".toList then
    some (.infinite true)
  else if text = "NaN".toList then
    some .nan
  else
    let (negative, rest) := sign text
    let whole := rest.takeWhile Char.isDigit
    let (fraction, rest) :=
      match rest.dropWhile Char.isDigit with
      | '.' :: rest => (rest.takeWhile Char.isDigit, rest.dropWhile Char.isDigit)
      | rest => ([], rest)
    if whole = [] ∧ fraction = [] then
      none
    else
      (exponent rest).map (ofDecimal negative whole fraction)

def isHexDigit (char : Char) : Bool :=
  char.isDigit || ('a' ≤ char && char ≤ 'f') || ('A' ≤ char && char ≤ 'F')

/-- `hexBinary`'s `parse`. -/
def parseHexBinary (lexical : List Char) : Option (List Char) :=
  let text := trim lexical
  if text.length % 2 ≠ 0 ∨ text.all isHexDigit = false then
    none
  else
    some (text.map Char.toUpper)

/-- `buffer.toString('hex')`. -/
def hexOf (bytes : Buffer) : List Char :=
  bytes.flatMap fun byte => [Nat.digitChar (byte.toNat / 16), Nat.digitChar (byte.toNat % 16)]

def isBase64Char (char : Char) : Bool := char.isAlphanum || char == '+' || char == '/'

/-- `base64Binary`'s `parse`. -/
def parseBase64Binary (lexical : List Char) : Option (List Char) :=
  let text := (trim lexical).filter fun char => !isWhitespace char
  let padding := text.dropWhile isBase64Char
  if padding = List.replicate padding.length '=' ∧ padding.length ≤ 2 ∧
      text.length % 4 = 0 then
    some (hexOf (Base64.decode text))
  else
    none

/-- A row's `parse`; `none` where it throws. -/
def Datatype.parse : (type : Datatype) → List Char → Option type.Value
  | string => fun lexical => some lexical
  | boolean => parseBoolean
  | integer => parseInteger
  | double => parseDouble
  | anyURI => fun lexical => some (trim lexical)
  | hexBinary => parseHexBinary
  | base64Binary => parseBase64Binary
  | date => fun lexical => parseDateTimeish lexical .date
  | time => fun lexical => parseDateTimeish lexical .time
  | dateTime => fun lexical => parseDateTimeish lexical .dateTime
  | yearMonthDuration => parseYearMonthDuration
  | dayTimeDuration => parseDayTimeDuration
  | rfc822Name => parseRfc822Name toLowerCase
  | x500Name => parseX500Name toLowerCase
  | dnsName => parseDnsName toLowerCase
  | ipAddress => parseIpAddress toLowerCase

/-- `double`'s `equal`: `NaN` equals itself. -/
def doubleEqual (a b : Number) : Bool := if a.isNaN && b.isNaN then true else a.strictEqual b

/-- `equal` of the dates and times. -/
def temporalEqual (a b : DateTimeish) : Bool := compareTemporal a b == some .eq

/-- `dnsName`'s `equal`. -/
def dnsNameEqual (a b : DnsName) : Bool := a.host == b.host && portsEqual a.ports b.ports

/-- `ipAddress`'s `equal`. -/
def ipAddressEqual (a b : IpAddress) : Bool :=
  a.address == b.address && a.mask == b.mask && portsEqual a.ports b.ports

/-- `a === b` of values that are compared by their parts. -/
def sameValue {Value : Type} [DecidableEq Value] (a b : Value) : Bool := a == b

/-- A row's `equal`. -/
def Datatype.equal : (type : Datatype) → type.Value → type.Value → Bool
  | string => @sameValue (List Char) _
  | boolean => @sameValue Bool _
  | integer => @sameValue Int _
  | double => doubleEqual
  | anyURI => @sameValue (List Char) _
  | hexBinary => @sameValue (List Char) _
  | base64Binary => @sameValue (List Char) _
  | date => temporalEqual
  | time => temporalEqual
  | dateTime => temporalEqual
  | yearMonthDuration => Number.strictEqual
  | dayTimeDuration => Number.strictEqual
  | rfc822Name => @sameValue Rfc822Name _
  | x500Name => x500Equal toLowerCase
  | dnsName => dnsNameEqual
  | ipAddress => ipAddressEqual

end Folding

end IyaSts.XacmlDatatypes
