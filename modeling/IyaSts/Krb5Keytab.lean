import IyaSts.Binary64Arithmetic
import IyaSts.Fallible
import IyaSts.TwosComplement
import IyaSts.Utf8

namespace IyaSts.Krb5Keytab

/-!
# The keytab file format, version 0x502, `krb5_keytab.ts`

A file is a version and then records, each with its signed size: an entry, or
where the size is negative a hole.  The writer takes numbers as JavaScript has
them and masks some of them on the way out; the reader follows a cursor.
-/

open Binary64 (Number)
open Binary64.Number

/-! ## Entries -/

/-- Bytes, or text that is written as UTF-8. -/
inductive Content where
  | bytes (value : Buffer)
  | text (value : String)
  deriving DecidableEq

/-- A number, or text that `Number()` makes one of. -/
inductive Numeral where
  | absent
  | number (value : Number)
  | text (value : String)

/-- A time: none, a `Date` in milliseconds, which may be invalid, or seconds. -/
inductive Timestamp where
  | absent
  | date (milliseconds : Option Int)
  | seconds (value : Number)

/-- An entry as the writer takes it; each component is text. -/
structure KeytabEntry where
  realm : Option Content
  components : List String
  nameType : Option Number
  timestamp : Timestamp
  kvno : Numeral
  etype : Numeral
  key : Option Content

/-- An entry as the reader answers it. -/
structure ReadEntry where
  realm : String
  components : List String
  nameType : Nat
  timestamp : Nat
  kvno : Nat
  etype : Nat
  key : Buffer
  deriving DecidableEq

/-- `KEYTAB_VERSION`. -/
def keytabVersion : Nat := 0x0502

/-- `NAME_TYPE_PRINCIPAL`. -/
def nameTypePrincipal : Number := ofInt 1

/-- `MAX_DATA`. -/
def maxData : Nat := 0xffff

/-- `asBytes`. -/
def asBytes : Option Content → Buffer
  | none => []
  | some (.bytes value) => value
  | some (.text value) => Utf8.encode value

/-! ## Numbers -/

/-- `value >>> 0`: the 32 low bits of a number without its fraction. -/
def toUint32 : Number → Nat
  | finite negative magnitude =>
    ((if negative then -(⌊magnitude⌋₊ : Int) else ⌊magnitude⌋₊) % 2 ^ 32).toNat
  | _ => 0

/-- `Number.isInteger(value) && value >= 0 && value <= 0xffffffff`. -/
def isUint32 : Number → Bool
  | finite negative magnitude =>
    ((⌊magnitude⌋₊ : ℚ≥0) = magnitude) ∧ (negative → magnitude = 0) ∧ magnitude ≤ 0xffffffff
  | _ => false

/-- `!value`. -/
def isFalsy : Number → Bool
  | nan => true
  | finite _ magnitude => magnitude = 0
  | infinite _ => false

/--
The second that is written for a time.  `Date.now()` is whole milliseconds, so
the floor of its quotient is that of the exact one.
-/
def stampOf (now : Int) : Timestamp → Number
  | .absent => ofInt (now / 1000)
  | .date (some milliseconds) => ofInt (milliseconds / 1000)
  | .date none => nan
  | .seconds value => if isFalsy value then ofInt (now / 1000) else floor value

section

-- `Number(text)`.
variable (numberOf : String → Number)

-- `String(number)`.
variable (spelled : Number → String)

/-- `Number(value)`. -/
def Numeral.value : Numeral → Number
  | .absent => nan
  | .number value => value
  | .text value => numberOf value

/-- `String(value)`. -/
def Numeral.asText : Numeral → String
  | .absent => "undefined"
  | .number value => spelled value
  | .text value => value

/-! ## Writing -/

/-- `counted`. -/
def counted (bytes : Buffer) : Except String Buffer :=
  if maxData < bytes.length then
    .error
      ("krb5_keytab: a field of " ++ toString bytes.length ++
        " bytes does not fit a keytab's 16-bit length")
  else
    .ok (Buffer.bigEndian 2 bytes.length ++ bytes)

/-- `buffer.writeUInt16BE(value)`. -/
def writeUInt16BE (value : Nat) : Except String Buffer :=
  if value < 2 ^ 16 then .ok (Buffer.bigEndian 2 value) else .error "ERR_OUT_OF_RANGE"

/-- `buffer.writeInt32BE(value)`, of a length. -/
def writeInt32BE (value : Nat) : Except String Buffer :=
  if value < 2 ^ 31 then .ok (Buffer.bigEndian 4 value) else .error "ERR_OUT_OF_RANGE"

/-- The numbers between the names and the key. -/
def middle (now : Int) (entry : KeytabEntry) : Buffer :=
  Buffer.bigEndian 4 (toUint32 (entry.nameType.getD nameTypePrincipal)) ++
    Buffer.bigEndian 4 (toUint32 (stampOf now entry.timestamp)) ++
    Buffer.bigEndian 1 (toUint32 (entry.kvno.value numberOf) % 2 ^ 8) ++
    Buffer.bigEndian 2 (toUint32 (entry.etype.value numberOf) % 2 ^ 16)

/-- What an entry must have before any of it is written. -/
def checkEntry (index : Nat) (entry : KeytabEntry) : Except String Unit :=
  if entry.components = [] ∨ "" ∈ entry.components then
    .error ("krb5_keytab: entry " ++ toString index ++ " names no principal")
  else if asBytes entry.key = [] then
    .error ("krb5_keytab: entry " ++ toString index ++ " carries no key")
  else if isUint32 (entry.kvno.value numberOf) then
    .ok ()
  else
    .error ("krb5_keytab: entry " ++ toString index ++ " has kvno " ++ entry.kvno.asText spelled)

/-- The parts of an entry, one after the other. -/
def entryBody (now : Int) (entry : KeytabEntry) : Except String Buffer := do
  let count ← writeUInt16BE entry.components.length
  let realm ← counted (asBytes entry.realm)
  let components ← entry.components.mapM fun component => counted (Utf8.encode component)
  let key ← counted (asBytes entry.key)
  let wide := Buffer.bigEndian 4 (toUint32 (entry.kvno.value numberOf))
  return count ++ realm ++ components.flatten ++ middle numberOf now entry ++ key ++ wide

/-- An entry with its size before it. -/
def writeEntry (now : Int) (index : Nat) (entry : KeytabEntry) : Except String Buffer := do
  checkEntry numberOf spelled index entry
  let bytes ← entryBody numberOf now entry
  let size ← writeInt32BE bytes.length
  return size ++ bytes

/-- The entries from an index on. -/
def writeEntries (now : Int) : Nat → List KeytabEntry → Except String Buffer
  | _, [] => .ok []
  | index, entry :: rest => do
    let record ← writeEntry numberOf spelled now index entry
    let records ← writeEntries now (index + 1) rest
    return record ++ records

/-- `writeKeytab`. -/
def writeKeytab (now : Int) (entries : List KeytabEntry) : Except String Buffer := do
  let records ← writeEntries numberOf spelled now 0 entries
  return Buffer.bigEndian 2 keytabVersion ++ records

end

/-! ## Reading -/

/-- `need`. -/
def need (buf : Buffer) (position count : Nat) : Except String Unit :=
  if buf.length < position + count then
    .error ("krb5_keytab: truncated at byte " ++ toString position)
  else
    .ok ()

/-- `buffer.readUInt8`, `readUInt16BE` and `readUInt32BE`, by their width. -/
def readUInt (buf : Buffer) (position width : Nat) : Except String Nat :=
  if position + width ≤ buf.length then
    .ok (Buffer.bigEndianValue ((buf.drop position).take width))
  else
    .error "ERR_OUT_OF_RANGE"

/-- `buffer.readInt32BE`. -/
def readInt32BE (buf : Buffer) (position : Nat) : Except String Int :=
  if position + 4 ≤ buf.length then
    .ok (TwosComplement.value ((buf.drop position).take 4))
  else
    .error "ERR_OUT_OF_RANGE"

/-- `data`: a counted field, and the position after it. -/
def data (buf : Buffer) (stop position : Nat) : Except String (Buffer × Nat) := do
  need buf position 2
  let length ← readUInt buf position 2
  if stop < position + 2 + length then
    .error
      ("krb5_keytab: a field runs past its entry at byte " ++ toString (position + 2))
  else
    .ok ((buf.drop (position + 2)).take length, position + 2 + length)

/-- So many counted fields, one after the other. -/
def fields (buf : Buffer) (stop : Nat) : Nat → Nat → Except String (List Buffer × Nat)
  | 0, position => .ok ([], position)
  | count + 1, position => do
    let (field, afterField) ← data buf stop position
    let (others, afterAll) ← fields buf stop count afterField
    return (field :: others, afterAll)

/-- The numbers of an entry, at the position after its names. -/
structure Numbers where
  nameType : Nat
  timestamp : Nat
  kvno : Nat
  etype : Nat

/-- Reads the numbers between the names and the key. -/
def readNumbers (buf : Buffer) (stop position : Nat) : Except String Numbers :=
  if stop < position + 11 then
    .error "krb5_keytab: an entry ends before its key"
  else do
    let nameType ← readUInt buf position 4
    let timestamp ← readUInt buf (position + 4) 4
    let kvno ← readUInt buf (position + 8) 1
    let etype ← readUInt buf (position + 9) 2
    return { nameType, timestamp, kvno, etype }

/-- The 32-bit kvno, where the entry has four more bytes, or the 8-bit one. -/
def readKvno (buf : Buffer) (stop position kvno : Nat) : Except String Nat :=
  if position + 4 ≤ stop then readUInt buf position 4 else .ok kvno

/-- One entry, from its position to where it stops. -/
def readEntry (buf : Buffer) (stop position : Nat) : Except String ReadEntry := do
  let count ← readUInt buf position 2
  let (realm, afterRealm) ← data buf stop (position + 2)
  let (components, afterNames) ← fields buf stop count afterRealm
  let numbers ← readNumbers buf stop afterNames
  let (key, afterKey) ← data buf stop (afterNames + 11)
  let kvno ← readKvno buf stop afterKey numbers.kvno
  return {
    realm := Utf8.decode realm
    components := components.map Utf8.decode
    nameType := numbers.nameType
    timestamp := numbers.timestamp
    kvno
    etype := numbers.etype
    key }

/-- One record, what it answers and its size; a negative size is that of a hole. -/
def readRecord (buf : Buffer) (position : Nat) : Except String (Option ReadEntry × Nat) := do
  need buf position 4
  let size ← readInt32BE buf position
  need buf (position + 4) size.natAbs
  if size < 0 then
    return (none, size.natAbs)
  else
    let entry ← readEntry buf (position + 4 + size.natAbs) (position + 4)
    return (some entry, size.natAbs)

/-- The records from a position to the end of the file. -/
def readRecords (buf : Buffer) (position : Nat)
    (entries : List ReadEntry) : Except String (List ReadEntry) :=
  if position < buf.length then do
    let (entry, size) ← readRecord buf position
    readRecords buf (position + 4 + size) (entries ++ entry.toList)
  else
    .ok entries
  termination_by buf.length - position

/-- `readKeytab`. -/
def readKeytab (buf : Buffer) : Except String (List ReadEntry) :=
  if 2 ≤ buf.length ∧ Buffer.bigEndianValue (buf.take 2) = keytabVersion then
    readRecords buf 2 []
  else
    .error "krb5_keytab: not a version 0x502 keytab"

end IyaSts.Krb5Keytab
