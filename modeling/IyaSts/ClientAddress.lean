import IyaSts.TextLines
import Mathlib.Algebra.Group.Nat.Defs

namespace IyaSts.ClientAddress

/-!
# Who a request came from, and which hops may say so

The socket's peer is believed when it is in a configured range, and then the
forwarded entries are walked from the right.  What the platform's `net` makes
of an address is a parameter: its kind, and its number among the addresses of
both families, an IPv4 address being the number of its mapped form.
-/

open TextLines (trim)

/-- The platform's readers of addresses and of numbers. -/
structure Net where
  isIP : List Char → Nat
  numberOf : List Char → Option Nat
  /-- `Number(text)`, where it is a whole number that is not negative. -/
  wholeNumber : List Char → Option Nat

/-- The families of `familyOf`. -/
inductive Family where
  | ipv4
  | ipv6
  deriving DecidableEq

/-- The bits of a family's addresses. -/
def Family.max : Family → Nat
  | .ipv4 => 32
  | .ipv6 => 128

/-- The bits in front of a family's addresses among all addresses. -/
def Family.lead : Family → Nat
  | .ipv4 => 96
  | .ipv6 => 0

/-- A decimal digit. -/
def isDigit (char : Char) : Bool := '0' ≤ char ∧ char ≤ '9'

/-- `\d+\.\d+\.\d+\.\d+`, so many groups of digits with dots between. -/
def dotted : Nat → List Char → Bool
  | 0, _ => false
  | groups + 1, text =>
    let digits := text.takeWhile isDigit
    let rest := text.dropWhile isDigit
    !digits.isEmpty &&
      match groups, rest with
      | 0, [] => true
      | groups + 1, '.' :: rest => dotted (groups + 1) rest
      | _, _ => false

/-- `/^::ffff:/i`, of the first seven characters. -/
def mappedLead (lead : List Char) : Bool := lead.map Char.toLower = "::ffff:".toList

/-- `/^::ffff:\d+\.\d+\.\d+\.\d+$/i`. -/
def isMapped (text : List Char) : Bool := mappedLead (text.take 7) ∧ dotted 4 (text.drop 7)

/-- `normalise`. -/
def normalise (address : List Char) : List Char :=
  let text := trim address
  if isMapped text then text.drop 7 else text

section Ranges

variable (net : Net)

/-- `familyOf`. -/
def familyOf (address : List Char) : Option Family :=
  if net.isIP address = 4 then
    some .ipv4
  else if net.isIP address = 6 then
    some .ipv6
  else
    none

/-- The addresses that share so many bits with one. -/
structure Subnet where
  number : Nat
  bits : Nat
  deriving DecidableEq

/-- Whether an address is in a subnet. -/
def Subnet.contains (subnet : Subnet) (number : Nat) : Bool :=
  number / 2 ^ (128 - subnet.bits) = subnet.number / 2 ^ (128 - subnet.bits)

/-- The address and the bits of an entry, apart at its first slash. -/
def parts (entry : List Char) : List Char × Option (List Char) :=
  (entry.takeWhile (· ≠ '/'),
    match entry.dropWhile (· ≠ '/') with
    | [] => none
    | _ :: bits => some bits)

/-- What `addSubnet` adds; it throws at an address it cannot read. -/
def addSubnet (address : List Char) (family : Family) (bits : Nat) : Option Subnet :=
  (net.numberOf address).map fun number =>
    { number, bits := family.lead + bits }

/-- What `ranges` adds for an entry, if anything. -/
def subnetOf (entry : List Char) : Option Subnet :=
  let address := normalise (parts entry).1
  match familyOf net address with
  | none => none
  | some family =>
    let bits :=
      match (parts entry).2 with
      | some text => net.wholeNumber text
      | none => some family.max
    match bits with
    | none => none
    | some bits => if family.max < bits then none else addSubnet net address family bits

/-- `global.trustedProxies`: a list, or a text of entries. -/
inductive Setting where
  | list (entries : List (List Char))
  | text (entries : List Char)
  deriving DecidableEq

/-- `text.split(',')`. -/
def splitCommas : List Char → List (List Char)
  | [] => [[]]
  | char :: rest =>
    if char = ',' then
      [] :: splitCommas rest
    else
      TextLines.consFirst char (splitCommas rest)

/-- `rangesText`. -/
def rangesText : Setting → List (List Char)
  | .list entries => (entries.map trim).filter (· ≠ [])
  | .text entries => ((splitCommas entries).map trim).filter (· ≠ [])

/-- What `ranges` answers: a block list, and the entries configured. -/
structure Ranges where
  list : List Subnet
  configured : Nat
  deriving DecidableEq

/-- `ranges`. -/
def ranges (entries : List (List Char)) : Ranges :=
  { list := entries.filterMap (subnetOf net), configured := entries.length }

/-- `inRanges`; `check` answers false for what it cannot read. -/
def inRanges (address : List Char) (theRanges : Ranges) : Bool :=
  let clean := normalise address
  match familyOf net clean with
  | none => false
  | some _ =>
    match net.numberOf clean with
    | none => false
    | some number => theRanges.list.any fun subnet => subnet.contains number

end Ranges

/-- What is read of a request. -/
structure Request where
  remoteAddress : List Char
  forwarded : List Char
  cellClient : List Char
  deriving DecidableEq

/-- `peerOf`. -/
def peerOf (request : Request) : List Char := normalise request.remoteAddress

/-- `forwardedFor`. -/
def forwardedFor (request : Request) : List (List Char) :=
  ((splitCommas request.forwarded).map normalise).filter (· ≠ [])

/-- Where the service runs, and its settings. -/
structure Service where
  isRequestWorker : Bool
  trustProxy : Bool
  trustedProxies : Setting

/-- `'unknown'`. -/
def unknown : List Char := "unknown".toList

/-- `first || second`. -/
def orText (first second : List Char) : List Char := if first = [] then second else first

/-- `fromFrontProcess`. -/
def fromFrontProcess (service : Service) (request : Request) : Bool :=
  service.isRequestWorker ∧ peerOf request = []

/-- `clientAddressOf`, of a request. -/
def clientAddressOf (net : Net) (service : Service) (request : Request) : List Char :=
  if request.cellClient ≠ [] then
    orText (normalise request.cellClient) unknown
  else
    let peer := peerOf request
    let chain := forwardedFor request
    if fromFrontProcess service request then
      chain.getLast?.getD unknown
    else if !service.trustProxy then
      orText peer unknown
    else
      let theRanges := ranges net (rangesText service.trustedProxies)
      if theRanges.configured = 0 then
        chain.head?.getD (orText peer unknown)
      else if !inRanges net peer theRanges then
        orText peer unknown
      else
        -- The loop from the right, to the first entry outside the ranges.
        match chain.reverse.find? fun hop => !inRanges net hop theRanges with
        | some hop => hop
        | none => chain.head?.getD (orText peer unknown)

end IyaSts.ClientAddress
