import IyaSts.ByteBuffer
import IyaSts.CursorCodec
import Mathlib.Data.List.DropRight

namespace IyaSts.Krb5Ndr

/-!
# The NDR reader and writer of the Kerberos PAC

Every number is little-endian and starts at a multiple of its own size, counted
from the start of the stream.  A pointer is a referent id, zero for NULL, and
what it points to comes later in the stream.  A string is a list of UTF-16 code
units.
-/

open CursorCodec

/-- `MAX_NDR_BYTES`. -/
def maxNdrBytes : Nat := 1024 * 1024

/-- `MAX_ARRAY_ELEMENTS`. -/
def maxArrayElements : Nat := 8192

/-- A JavaScript string. -/
abbrev Text := List UInt16

/-! ## Reading -/

/-- A reader of a stream. -/
abbrev NdrReading (α : Type) := Reading UInt8 α

/-- `createReader`, what is read with the reader, and nothing after it. -/
def readStream {α : Type} (reading : NdrReading α) (b : Buffer) : Except String α :=
  if maxNdrBytes < b.length then
    .error (s!"krb5: refusing to read {b.length} bytes of NDR " ++ s!"(limit {maxNdrBytes})")
  else
    (reading b 0).map Prod.fst

/-- `need` and the octets it asked for, the cursor moved past them. -/
def taken (n : Nat) (what : String) : NdrReading Buffer :=
  fun b at_ =>
    if b.length < at_ + n then
      .error ("krb5: NDR ran off the end reading " ++ what ++
        s!" at offset {at_} ({b.length - at_} byte(s) remain of " ++
        s!"{b.length})")
    else
      .ok ((b.drop at_).take n, at_ + n)

/-- `r.offset`. -/
def offset : NdrReading Nat := fun _ at_ => .ok (at_, at_)

/-- `r.remaining`. -/
def remaining : NdrReading Nat := fun b at_ => .ok (b.length - at_, at_)

/-- The octets from a place to the next multiple of a size. -/
def padding (size place : Nat) : Nat := (size - place % size) % size

/-- `align`. -/
def align (size : Nat) : NdrReading Unit := do
  let at_ ← offset
  let _ ← taken (padding size at_) "alignment padding"
  pure ()

/-- `u8`. -/
def u8 : NdrReading Nat := do
  let b ← taken 1 "a byte"
  pure (Buffer.littleEndianValue b)

/-- `u16`. -/
def u16 : NdrReading Nat := do
  align 2
  let b ← taken 2 "a 16-bit value"
  pure (Buffer.littleEndianValue b)

/-- `u32`. -/
def u32 : NdrReading Nat := do
  align 4
  let b ← taken 4 "a 32-bit value"
  pure (Buffer.littleEndianValue b)

/-- The two halves of `u64`. -/
structure U64 where
  low : Nat
  high : Nat
  deriving DecidableEq

/-- `value` of a `u64`. -/
def U64.value (u64 : U64) : Nat := u64.high * 0x100000000 + u64.low

/-- `u64`. -/
def u64 : NdrReading U64 := do
  align 8
  let b ← taken 8 "a 64-bit value"
  pure {
    low := Buffer.littleEndianValue (b.take 4)
    high := Buffer.littleEndianValue (b.drop 4)
  }

/-- `bytes`. -/
def bytes (n : Nat) : NdrReading Buffer := taken n s!"{n} bytes"

/-- `pointer`. -/
def pointer : NdrReading Bool := do
  let id ← u32
  pure (id != 0)

/-- `arrayCount`. -/
def arrayCount (what : String) : NdrReading Nat := do
  let n ← u32
  if maxArrayElements < n then
    throw (s!"krb5: an NDR array of {n} " ++ what ++
      s!" is not credible (limit {maxArrayElements}). Check the " ++
      "byte order — NDR is LITTLE-endian, unlike the rest of Kerberos.")
  else
    pure n

/-! ## Writing -/

/-- The first referent id given out. -/
def firstReferent : Nat := 0x00020000

/--
A writer: what it has written and the referent id it gives out next, which
grows no faster than what is written.
-/
structure Writer where
  bytes : Buffer
  nextReferent : Nat
  positive : 0 < nextReferent
  bounded : nextReferent ≤ firstReferent + bytes.length

/-- `createWriter`. -/
def createWriter : Writer where
  bytes := []
  nextReferent := firstReferent
  positive := by decide
  bounded := Nat.le_refl _

namespace Writer

/-- `push`. -/
def push (arr : Buffer) (w : Writer) : Writer where
  bytes := w.bytes ++ arr
  nextReferent := w.nextReferent
  positive := w.positive
  bounded := by
    have := w.bounded
    rw [List.length_append]
    omega

/-- `w.align`. -/
def align (size : Nat) (w : Writer) : Writer := w.push (Buffer.alloc (padding size w.bytes.length))

/-- `w.u8`. -/
def u8 (v : Nat) (w : Writer) : Writer := w.push (Buffer.littleEndian 1 v)

/-- `w.u16`. -/
def u16 (v : Nat) (w : Writer) : Writer := (w.align 2).push (Buffer.littleEndian 2 v)

/-- `w.u32`. -/
def u32 (v : Nat) (w : Writer) : Writer := (w.align 4).push (Buffer.littleEndian 4 v)

/-- `w.u64`. -/
def u64 (lo hi : Nat) (w : Writer) : Writer :=
  (w.align 8).push (Buffer.littleEndian 4 lo ++ Buffer.littleEndian 4 hi)

/-- `w.zeros`. -/
def zeros (n : Nat) (w : Writer) : Writer := w.push (Buffer.alloc n)

/-- `w.pointer`. -/
def pointer (present : Bool) (w : Writer) : Writer :=
  if present then
    { bytes := (w.u32 w.nextReferent).bytes
      nextReferent := w.nextReferent + 4
      positive := Nat.add_pos_right _ (by decide)
      bounded := by
        have := w.bounded
        simp only [u32, push, align, List.length_append, Buffer.length_littleEndian]
        omega }
  else
    w.u32 0

/-- The octets a `patchU32` puts over those at an offset. -/
def overwrite (bytes : Buffer) (offset v : Nat) : Buffer :=
  (((bytes.set offset (UInt8.ofNat v)).set (offset + 1)
    (UInt8.ofNat (v / 0x100))).set (offset + 2)
    (UInt8.ofNat (v / 0x10000))).set (offset + 3)
    (UInt8.ofNat (v / 0x1000000))

/-- `w.patchU32`. -/
def patchU32 (offset v : Nat) (w : Writer) : Writer where
  bytes := overwrite w.bytes offset v
  nextReferent := w.nextReferent
  positive := w.positive
  bounded := by
    have := w.bounded
    simpa [overwrite] using this

/-- `forEach` over a list, each round writing. -/
def each {ι : Type} (items : List ι) (write : ι → Writer → Writer) (w : Writer) : Writer :=
  items.foldl (fun w item => write item w) w

end Writer

/-! ## Strings -/

/-- The fixed half of an `RPC_UNICODE_STRING`. -/
structure UnicodeStringHeader where
  length : Nat
  maximumLength : Nat
  present : Bool
  deriving DecidableEq

/-- `readUnicodeStringHeader`. -/
def readUnicodeStringHeader : NdrReading UnicodeStringHeader := do
  let length ← u16
  let maximumLength ← u16
  let present ← pointer
  pure { length, maximumLength, present }

/-- The loop that takes the trailing NULs off. -/
def trimTrailingNuls (s : Text) : Text := s.rdropWhile (· == 0)

/-- `readUnicodeStringValue`, of a header that says whether there is one. -/
def readUnicodeStringValue (present : Bool) : NdrReading (Option Text) := do
  if !present then
    pure none
  else
    let maxCount ← arrayCount "UTF-16 code unit(s)"
    let offset ← u32
    let actualCount ← arrayCount "UTF-16 code unit(s)"
    if offset ≠ 0 then
      throw (s!"krb5: an RPC_UNICODE_STRING with a non-zero array offset " ++
        s!"({offset}) — Windows does not emit that, so this PAC is " ++
        "malformed or is being read at the wrong offset")
    else if maxCount < actualCount then
      throw (s!"krb5: an RPC_UNICODE_STRING claims {actualCount} " ++
        s!"characters in an array of at most {maxCount}")
    else
      let units ← (List.range actualCount).mapM fun _ => u16
      pure (some (trimTrailingNuls (units.map UInt16.ofNat)))

/-- `writeUnicodeStringHeader`. -/
def writeUnicodeStringHeader (value : Option Text) (w : Writer) : Writer :=
  let bytesLength := ((value.map List.length).getD 0) * 2
  ((w.u16 bytesLength).u16 bytesLength).pointer value.isSome

/-- The loop that writes a string's code units. -/
def writeUnits (s : Text) (w : Writer) : Writer := w.each s fun unit w => w.u16 unit.toNat

/-- `writeUnicodeStringValue`. -/
def writeUnicodeStringValue (value : Option Text) (w : Writer) : Writer :=
  match value with
  | none => w
  | some value => writeUnits value (((w.u32 value.length).u32 0).u32 value.length)

/-! ## Type marshalling headers -/

/-- What `readTypeMarshallingHeaders` answers. -/
structure MarshallingHeaders where
  version : Nat
  endianness : Nat
  objectBufferLength : Nat
  filler : Buffer
  deriving DecidableEq

/-- `readTypeMarshallingHeaders`, the filler's octets not yet spelled. -/
def readTypeMarshallingHeaders : NdrReading MarshallingHeaders := do
  let version ← u8
  let endianness ← u8
  let commonHeaderLength ← u16
  let filler ← bytes 4
  let objectBufferLength ← u32
  let _ ← u32
  if version ≠ 1 then
    throw s!"krb5: NDR type-marshalling version {version}, expected 1"
  else if endianness ≠ 0x10 then
    throw ("krb5: this NDR stream declares byte order 0x" ++
      String.ofList (Nat.toDigits 16 endianness) ++
      "; only 0x10 (little-endian, ASCII) is handled. 0x00 would be " ++
      "big-endian NDR, which Windows does not emit.")
  else if commonHeaderLength ≠ 8 then
    throw (s!"krb5: NDR common header length {commonHeaderLength}, " ++ "expected 8")
  else
    pure { version, endianness, objectBufferLength, filler }

/-- Where `writeTypeMarshallingHeaders` left room for the length. -/
def lengthOffset : Nat := 8

/-- `writeTypeMarshallingHeaders`. -/
def writeTypeMarshallingHeaders (w : Writer) : Writer :=
  (((((w.u8 1).u8 0x10).u16 8).push [0xcc, 0xcc, 0xcc, 0xcc]).u32 0).u32 0

/-- The end of a marshalled object: its padding and its length. -/
def finishObject (bodyStart : Nat) (w : Writer) : Buffer :=
  let padded := w.align 8
  (padded.patchU32 lengthOffset (padded.bytes.length - bodyStart)).bytes

end IyaSts.Krb5Ndr
