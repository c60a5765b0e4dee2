import IyaSts.GroupLimit
import IyaSts.PkiMerge

namespace IyaSts.PkiMerge

/-!
# The issued register of a certificate authority row, `pki_merge.js`

The register is a union by serial and use case, less what has expired.  The
certificates displaced from a slot are added to it, and of the certificates that
it goes on publishing each slot keeps the newest.
-/

/-! ## Records -/

/-- A certificate in its slot; an absent text is empty. -/
structure Certificate where
  serialHex : String
  useCase : String
  subject : String
  notAfter : String
  /-- `Number(createdAt)`, 0 where it is none. -/
  createdAt : Int
  certificatePem : String
  thumbprint : String
  chainPem : List String
  slot : String
  /-- The canonical spelling of its other members. -/
  details : String
  deriving DecidableEq

/-- A record of the register; an absent text is empty. -/
structure Issued where
  serialHex : String
  useCase : String
  notAfter : String
  issuedAt : String
  identifier : String
  subject : String
  subjectKind : String
  purpose : String
  certificatePem : String
  thumbprint : String
  chainPem : List String
  slot : String
  /-- The canonical spelling of its other members. -/
  details : String
  deriving DecidableEq

/-- The record goes on publishing its certificate. -/
def Issued.HasCertificate (one : Issued) : Prop := one.certificatePem ≠ ""

instance (one : Issued) : Decidable one.HasCertificate := inferInstanceAs (Decidable (_ ≠ _))

/-- The record carries a serial. -/
def Issued.HasSerial (one : Issued) : Prop := one.serialHex ≠ ""

instance (one : Issued) : Decidable one.HasSerial := inferInstanceAs (Decidable (_ ≠ _))

/-- What the register holds a record by: its normalised serial and its use case. -/
def Issued.key (one : Issued) : String × String := (normalSerial one.serialHex, one.useCase)

/-! ## Displaced certificates -/

/-- `PUBLISHED_USE_CASE`. -/
def publishedUseCase : String := "jose"

/-- What stands before the first colon of a slot's name. -/
def useCaseOf (slot : String) : String := String.ofList (slot.toList.takeWhile (· ≠ ':'))

/-- What stands after the first colon of a slot's name. -/
def slotOf (slot : String) : String := String.ofList ((slot.toList.dropWhile (· ≠ ':')).drop 1)

/-- The first of two texts that is not empty. -/
def orElse (first second : String) : String := if first = "" then second else first

/-- What the clock and the formatting of dates answer. -/
structure Dates where
  /-- `new Date(text).getTime()`; none where the text is no date. -/
  time : String → Option Int
  /-- `new Date(ms).toISOString()`. -/
  iso : Int → String
  /-- `Date.now()`. -/
  wall : Int

section

variable (dates : Dates)

/-- `displacedRecord`; a thumbprint is hexadecimal. -/
def displacedRecord (slot : String) (record : Certificate) : Issued :=
  let useCase := orElse record.useCase (useCaseOf slot)
  let published := useCase = publishedUseCase ∧ record.certificatePem ≠ "" ∧ record.thumbprint ≠ ""
  { serialHex := record.serialHex
    useCase := useCase
    notAfter := record.notAfter
    issuedAt := dates.iso (if record.createdAt = 0 then dates.wall else record.createdAt)
    identifier := slot
    subject := record.subject
    subjectKind := "displaced"
    purpose := "displaced:" ++ slot
    certificatePem := if published then record.certificatePem else ""
    thumbprint := if published then record.thumbprint.map Char.toLower else ""
    chainPem := if published then record.chainPem else []
    slot := if published then orElse record.slot (slotOf slot) else ""
    details := "" }

/-- A date that has come; what is no date does not come. -/
def hasCome (now : Int) (date : String) : Bool := date ≠ "" ∧ (dates.time date).any (· ≤ now)

/-! ## The union -/

/-- One record's turn in the union of `mergeIssued`. -/
def addIssued (now : Int) (out : List Issued) (one : Issued) : List Issued :=
  if ¬ one.HasSerial then
    out
  else
    -- `seen` tells where the register holds the key.
    match out.findIdx? fun held => held.key = one.key with
    | some index =>
      if one.HasCertificate ∧ ¬ (out[index]?).any (·.HasCertificate) then
        out.set index one
      else
        out
    | none => if hasCome dates now one.notAfter then out else out ++ [one]

/-- The union of `mergeIssued`, before it is trimmed. -/
def unionIssued (now : Int) (records : List Issued) : List Issued :=
  records.foldl (addIssued dates now) []

end

/-! ## What goes on being published -/

/-- `PUBLISHED_PER_SLOT`. -/
def publishedPerSlot : Nat := 8

/-- A record without the members that publish its certificate. -/
def Issued.trimmed (one : Issued) : Issued :=
  { one with thumbprint := "", certificatePem := "", chainPem := [], slot := "" }

section

-- The keys by which `localeCompare` compares.
variable {κ : Type} [LinearOrder κ] (collate : String → κ)

/-- The records that publish a certificate with where they are, the newest first. -/
def publishedOrder (register : List Issued) : List (Issued × Nat) :=
  (register.zipIdx.filter fun entry => entry.1.HasCertificate).mergeSort
    fun first second => collate second.1.issuedAt ≤ collate first.1.issuedAt

/-- Where the records are that are past the limit of their slot. -/
def strip (register : List Issued) : List Nat :=
  (GroupLimit.surplus (fun entry : Issued × Nat => entry.1.identifier) publishedPerSlot []
    (publishedOrder collate register)).map Prod.snd

/-- `trimPublished`. -/
def trimPublished (register : List Issued) : List Issued :=
  register.zipIdx.map fun entry =>
    if entry.2 ∈ strip collate register then entry.1.trimmed else entry.1

/-- `mergeIssued`. -/
def mergeIssued (dates : Dates) (mine theirs extra : List Issued) (now : Int) : List Issued :=
  trimPublished collate (unionIssued dates now (theirs ++ mine ++ extra))

/-! ## The whole row -/

/-- A row with the members that hold certificates; a slot may hold a null. -/
structure WholeRow where
  row : Row
  certs : Option (List (String × Option Certificate))
  issuedKeyPairs : Option (List Issued)
  deriving DecidableEq

/-- The slots of a row. -/
def WholeRow.slots (row : WholeRow) : List (String × Option Certificate) := row.certs.getD []

/-- The issued register of a row. -/
def WholeRow.register (row : WholeRow) : List Issued := row.issuedKeyPairs.getD []

/-- The slots that both writers changed differently. -/
def conflicts (base mine theirs : WholeRow) : List String :=
  (mergeKeyed base.slots mine.slots theirs.slots).2

/-- The record of what mine held in a slot it did not get. -/
def displacedFrom (dates : Dates) (mine : WholeRow) (slot : String) : Option Issued :=
  match mine.slots.lookup slot with
  | some (some was) => if was.serialHex = "" then none else some (displacedRecord dates slot was)
  | _ => none

/-- The records of the certificates that are displaced. -/
def displaced (dates : Dates) (base mine theirs : WholeRow) : List Issued :=
  (conflicts base mine theirs).filterMap (displacedFrom dates mine)

/-- What `merge` answers of a whole row. -/
structure WholeMerged where
  row : WholeRow
  lost : List String
  displaced : Nat
  published : List (String × Entry)
  deriving DecidableEq

/-- `merge` of whole rows; `time` dates the revocations. -/
def mergeWhole (time : String → Int) (dates : Dates) (now : Int)
    (base mine theirs : WholeRow) : WholeMerged :=
  let merged := merge time base.row mine.row theirs.row
  let extra := displaced dates base mine theirs
  { row :=
      { row := merged.row
        certs := either mine.certs theirs.certs (mergeKeyed base.slots mine.slots theirs.slots).1
        issuedKeyPairs :=
          if mine.issuedKeyPairs.isSome ∨ theirs.issuedKeyPairs.isSome ∨ extra ≠ [] then
            some (mergeIssued collate dates mine.register theirs.register extra now)
          else
            none }
    lost := merged.lost ++ (conflicts base mine theirs).map fun slot => "certs." ++ slot
    displaced := extra.length
    published := merged.published }

end

end IyaSts.PkiMerge
