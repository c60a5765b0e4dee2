import IyaSts.AccessLimits
import IyaSts.Json
import IyaSts.JsMap

namespace IyaSts.GnapSpend

open AccessLimits Calendar DigitRuns

/-!
# The running totals of a right's limits, `gnap_spend.ts`

The ledger of one process that shares no store: one row for a right of a grant, of the
period it was last spent in.  A JavaScript number is exact here, and a time or an expiry
whole seconds.
-/

/-! ## Amounts and instants -/

/-- The fraction digits an amount may carry, `FRACTION_DIGITS`. -/
def fractionDigits : Nat := 6

/-- `UNIT`, of the millionths amounts are counted in. -/
def unitsOfOne : Nat := 1000000

/-- `units`, of the text of an amount. -/
def units (text : String) : Option Nat :=
  match digits 1 18 text.toList with
  | some (whole, []) => some (number whole * unitsOfOne)
  | some (whole, '.' :: rest) =>
    match digits 1 fractionDigits rest with
    | some (fraction, []) =>
      some (number whole * unitsOfOne + number (fraction.rightpad fractionDigits '0'))
    | _ => none
  | _ => none

/-- `decimal`, of an amount that is not negative. -/
def decimal (units : Nat) : String :=
  let fraction := (toString (units % unitsOfOne)).toList.leftpad fractionDigits '0'
  let written := (fraction.reverse.dropWhile (· = '0')).reverse
  toString (units / unitsOfOne) ++ (if written = [] then "" else "." ++ String.ofList written)

/-- A number with at least so many digits. -/
def padded (width : Nat) (value : Nat) : String :=
  String.ofList ((toString value).toList.leftpad width '0')

/-- `new Date(seconds * 1000).toISOString()`; `none` where it throws. -/
def toISOString (seconds : Int) : Option String := do
  let time ← timeClip (seconds * 1000)
  let year := utcFullYear time
  let years :=
    if 0 ≤ year ∧ year ≤ 9999 then padded 4 year.toNat
    else (if year < 0 then "-" else "+") ++ padded 6 year.natAbs
  some (years ++ "-" ++ padded 2 (utcMonth time + 1) ++ "-" ++
    padded 2 (utcDate time).toNat ++ "T" ++ padded 2 (utcHours time).toNat ++ ":" ++
    padded 2 (utcMinutes time).toNat ++ ":" ++ padded 2 (utcSeconds time).toNat ++
    "." ++ padded 3 (time % 1000).toNat ++ "Z")

/-! ## A right, and an operation -/

/-- The members of a right's `limits` that have a meaning; `none` is undefined. -/
structure Limits where
  /-- Its text; of a number, the one `String` gives it. -/
  amount : Option String
  currency : Option String
  count : Option Nat
  interval : Option String
  /-- The members of the window, in order. -/
  window : Option (List (String × String))
  /-- The receivers; one alone is a list of it. -/
  receiver : Option (List String)
  deriving DecidableEq

/-- The members of an access right that are read. -/
structure Right where
  type : String
  identifier : String
  limits : Limits
  deriving DecidableEq

/-- `{ amount?, currency?, receiver? }`. -/
structure Operation where
  amount : Option String
  currency : Option String
  receiver : Option String
  deriving DecidableEq

/-- A refusal, `spendRefusal`. -/
structure Refusal where
  code : String
  why : String
  status : Nat
  error : String
  deriving DecidableEq

/-- `keyOf`. -/
def keyOf (grant : String) (right : Right) : String :=
  grant ++ "\n" ++ right.type ++ "\n" ++ right.identifier

/-! ## The checks that need no totals -/

/-- The period an operation is counted in. -/
structure Period where
  index : Int
  start : Option Int
  finish : Option Int
  deriving DecidableEq

/-- `JSON.stringify` of a window. -/
def windowText (window : List (String × String)) : String :=
  "\x7b" ++
    ",".intercalate (window.map fun member => Json.quote member.1 ++ ":" ++ Json.quote member.2) ++
    "\x7d"

/-- Whether a time is outside a window. -/
def isOutside (engine : DateParse) (window : List (String × String)) (now : Int) : Bool :=
  let notBefore := (window.lookup "notBefore").bind fun text => timeOf engine text.toList
  let notAfter := (window.lookup "notAfter").bind fun text => timeOf engine text.toList
  notBefore.any (fun nb => now < nb) || notAfter.any fun na => na ≤ now

/-- The refusal outside of a window. -/
def outsideWindow (window : List (String × String)) : Refusal where
  code := "STS-GNAP-0871"
  why := "the operation is outside the window the token's limits allow (" ++
    windowText window ++ ")."
  status := 403
  error := "insufficient_scope"

/-- The refusal outside of an interval. -/
def outsideInterval (outside interval : String) : Refusal where
  code := "STS-GNAP-0871"
  why := "the operation is " ++ outside ++ " of the interval the token's limits allow (" ++
    interval ++ ")."
  status := 403
  error := "insufficient_scope"

/-- The period of a time, or the refusal. -/
def checkPeriod (engine : DateParse) (limits : Limits) (now : Int) : Except Refusal Period :=
  match limits.interval with
  | none => .ok ⟨0, none, none⟩
  | some interval =>
    match periodAt engine (.text interval) now with
    | .period index start finish => .ok ⟨index, start, finish⟩
    | .before => .error (outsideInterval "before the start" interval)
    | _ => .error (outsideInterval "after the last repetition" interval)

/-- The refusal of a receiver. -/
def wrongReceiver (receivers : List String) (receiver : Option String) : Refusal where
  code := "STS-GNAP-0872"
  why := "the token's limits allow operations for " ++ ", ".intercalate receivers ++
    " only, and this one is for " ++
    (match receiver with
      | some receiver => "\"" ++ receiver ++ "\""
      | none => "nobody named") ++ "."
  status := 403
  error := "insufficient_scope"

/-- The refusal of an amount that is none. -/
def unreadableAmount : Refusal where
  code := "STS-GNAP-0874"
  why := "the operation's amount is not a non-negative decimal."
  status := 400
  error := "invalid_request"

/-- The refusal of an amount that is not counted. -/
def wrongCurrency (limits : Limits) (operation : Operation) : Refusal where
  code := "STS-GNAP-0873"
  why := "the token's limits count amounts in " ++ limits.currency.getD "undefined" ++
    ", and this operation " ++
    (if operation.amount.isSome then
      "is in " ++ ((operation.currency.filter (· ≠ "")).getD "no currency")
    else "states no amount") ++ "."
  status := 403
  error := "insufficient_scope"

/-- The window of the limits. -/
def checkWindow (engine : DateParse) (limits : Limits) (now : Int) : Except Refusal Unit :=
  match limits.window with
  | some window => if isOutside engine window now then .error (outsideWindow window) else .ok ()
  | none => .ok ()

/-- The receivers of the limits. -/
def checkReceiver (limits : Limits) (operation : Operation) : Except Refusal Unit :=
  match limits.receiver with
  | some receivers =>
    if operation.receiver.any fun receiver => receiver ∈ receivers then .ok ()
    else .error (wrongReceiver receivers operation.receiver)
  | none => .ok ()

/-- The units of an operation; of one that states no amount, none. -/
def readAmount (operation : Operation) : Except Refusal Nat :=
  match operation.amount with
  | some amount =>
    match units amount with
    | some read => .ok read
    | none => .error unreadableAmount
  | none => .ok 0

/-- The currency of the limits, where they count amounts. -/
def checkCurrency (limits : Limits) (operation : Operation) : Except Refusal Unit :=
  if limits.amount.isSome ∧
      (operation.amount = none ∨ operation.currency ≠ limits.currency) then
    .error (wrongCurrency limits operation)
  else
    .ok ()

/-- `check`: the period and the units, or a refusal. -/
def check (engine : DateParse) (limits : Limits) (operation : Operation) (now : Int) :
    Except Refusal (Period × Nat) := do
  checkWindow engine limits now
  let period ← checkPeriod engine limits now
  checkReceiver limits operation
  let read ← readAmount operation
  checkCurrency limits operation
  pure (period, read)

/-! ## The ledger -/

/-- A row of the ledger. -/
structure Held where
  period : Int
  amount : Nat
  count : Nat
  expiresAt : Int
  deriving DecidableEq

abbrev Ledger := JsMap String Held

/-- `DEFAULT_HOLD_S`. -/
def defaultHold : Int := 86400

/-- What a spend counted, for its refund. -/
structure Spent where
  key : String
  period : Int
  amount : Nat
  count : Nat
  deriving DecidableEq

/-- The totals with a spend, unless they pass the limits or the row is of a later
period. -/
def totalsWith (held : Option Held) (spent : Spent) (limitAmount limitCount : Option Nat) :
    Option (Nat × Nat) :=
  if held.any fun held => spent.period < held.period then
    none
  else
    let same := held.filter fun held => held.period = spent.period
    let amount := (same.map Held.amount).getD 0 + spent.amount
    let count := (same.map Held.count).getD 0 + spent.count
    if (limitAmount.any fun limit => limit < amount) ∨
        (limitCount.any fun limit => limit < count) then
      none
    else
      some (amount, count)

/-- The totals a spend answers. -/
structure Totals where
  amount : Option String
  currency : Option String
  count : Nat
  deriving DecidableEq

/-- What a spend leaves. -/
structure Remaining where
  amount : Option String
  count : Option Nat
  deriving DecidableEq

/-- What `spend` answers. -/
inductive Answer where
  | refused (refusal : Refusal)
  | granted (spent : Spent) (totals : Totals) (remaining : Remaining)
      (period : Option (String × String))
  /-- A date that is none is written. -/
  | throws
  deriving DecidableEq

/-- The end of a period, where there is one to tell. -/
def Period.told (period : Period) : Option Int := period.finish.filter (· ≠ 0)

/-- The refusal of a spend that passes the limits. -/
def overLimit (period : Period) : Answer :=
  let refusal := fun ending : String =>
    Answer.refused
      ⟨"STS-GNAP-0870", "the operation would pass the token's limits" ++ ending ++ ".",
        403, "insufficient_scope"⟩
  match period.told with
  | none => refusal ""
  | some finish =>
    match toISOString finish with
    | some text => refusal (" for the period ending " ++ text)
    | none => .throws

/-- The answer of a spend that was counted. -/
def grantedAnswer (limits : Limits) (limitAmount : Option Nat) (period : Period)
    (spent : Spent) (totals : Nat × Nat) : Answer :=
  let answer := Answer.granted spent
    ⟨limitAmount.map fun _ => decimal totals.1,
      if limitAmount.isSome then limits.currency else none, totals.2⟩
    ⟨limitAmount.map fun limit => decimal (limit - totals.1),
      limits.count.map fun limit => limit - totals.2⟩
  match period.told with
  | none => answer none
  | some finish =>
    match period.start.bind toISOString, toISOString finish with
    | some start, some finish => answer (some (start, finish))
    | _, _ => .throws

/-- `spend`, of a process that shares no store. -/
def spend (engine : DateParse) (ledger : Ledger) (now : Int) (grant : String)
    (right : Right) (operation : Operation) (expiresAt : Option Int) :
    Ledger × Answer :=
  let limits := right.limits
  match check engine limits operation now with
  | .error refusal => (ledger, .refused refusal)
  | .ok (period, read) =>
    let key := keyOf grant right
    let limitAmount := limits.amount.bind units
    let expiresAt := (expiresAt.filter fun end' => now < end').getD (now + defaultHold)
    let spent : Spent := ⟨key, period.index, if limitAmount.isSome then read else 0, 1⟩
    let held := ledger.get key
    match totalsWith held spent limitAmount limits.count with
    | none => (ledger, overLimit period)
    | some totals =>
      let row : Held :=
        ⟨spent.period, totals.1, totals.2, max expiresAt ((held.map Held.expiresAt).getD 0)⟩
      (ledger.set key row, grantedAnswer limits limitAmount period spent totals)

/-- `refund`: the ledger, and whether the spend was taken back. -/
def refund (ledger : Ledger) (spent : Spent) : Ledger × Bool :=
  if spent.key = "" then
    (ledger, false)
  else
    match ledger.get spent.key with
    | none => (ledger, false)
    | some held =>
      if held.period ≠ spent.period ∨ held.amount < spent.amount ∨
          held.count < spent.count then
        (ledger, false)
      else
        (ledger.set spent.key
            { held with
              amount := held.amount - spent.amount
              count := held.count - spent.count },
          true)

/-- `purge`: the ledger, and how many rows were deleted. -/
def purge (ledger : Ledger) (now : Int) : Ledger × Nat :=
  let kept := ledger.keep fun _ held => now < held.expiresAt
  (kept, ledger.size - kept.size)

end IyaSts.GnapSpend
