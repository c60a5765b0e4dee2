import IyaSts.ByteBuffer
import IyaSts.JsNumber

namespace IyaSts.VcStatusCodec

open JsNumber

/-!
# The two status lists of `vc_status_codec.ts`

A Token Status List numbers its tokens from the low end of each byte, a
Bitstring Status List its entries from the high end.  Both place an entry by
JavaScript's bitwise operators, which see 32 bits of a position.
-/

/-- `TSL_BITS`: the widths a Token Status List may have. -/
def tslBits : List Int := [1, 2, 4, 8]

/-- `BITSTRING_MIN_ENTRIES`. -/
def bitstringMinEntries : Nat := 131072

/-- A width, or why it is not one. -/
def checkBits (bits : Argument) : Except String Nat :=
  let refused :=
    s!"a Token Status List has 1, 2, 4 or 8 bits per token (section 4.1); this one says {bits.text}."
  match bits with
  | .integer value => if value ∈ tslBits then .ok value.toNat else .error refused
  | .other _ _ => .error refused

/-- An index, or why it is not one. -/
def checkIndex (idx : Argument) : Except String Nat :=
  let refused := s!"a status list index is a non-negative integer; this is {idx.json}."
  match idx with
  | .integer value =>
    if isSafeInteger value = false ∨ value < 0 then
      .error refused
    else
      .ok value.toNat
  | .other _ _ => .error refused

/-- A `Map` from numbers to numbers: its keys are distinct. -/
structure NumberMap where
  entries : List (Int × Int)
  distinct : (entries.map Prod.fst).Nodup

/-- What the caller hands in as `values`: a sparse array or a `Map`. -/
inductive Values where
  | array (elements : List (Option Int))
  | map (entries : NumberMap)

/-- `Math.ceil(count * width / 8)`. -/
def byteLength (count width : Nat) : Nat := ((toDouble (count * width : Nat) + 7) / 8).toNat

/-! ## Token Status List -/

/-- What `packTsl` puts where: an array is read as index to status. -/
def Values.tslEntries : Values → List (Int × Int)
  | .array elements =>
    elements.zipIdx.filterMap fun (element, index) =>
      element.map fun value => ((index : Int), value)
  | .map entries => entries.entries

/-- `put` of `packTsl`. -/
def putTsl (width count : Nat) (out : Buffer) (entry : Int × Int) : Except String Buffer :=
  let (idx, value) := entry
  if value = 0 then
    .ok out
  else if (count : Int) ≤ idx then
    .error s!"index {idx} is outside a list of {count} tokens."
  else if value < 0 ∨ 2 ^ width - 1 < value then
    .error s!"status {value} does not fit in {width} bit(s)."
  else
    let bit := toDouble (idx * width)
    .ok (out.orAt (shiftRight bit 3) (value.toNat <<< lowBits bit 3))

/-- Pack a Token Status List; index 0 is the low end of byte 0. -/
def packTsl (values : Values)
    (bits size : Argument) : Except String Buffer := do
  let width ← checkBits bits
  let count ← checkIndex size
  values.tslEntries.foldlM (putTsl width count)
    (Buffer.alloc (byteLength count width))

/-- Read one token's status. -/
def unpackTslValue (bytes : Buffer)
    (bits idx : Argument) : Except String Nat := do
  let width ← checkBits bits
  let index ← checkIndex idx
  let start := toDouble (index * width : Nat)
  if toDouble (start + width) > toDouble (bytes.length * 8 : Nat) then
    let tokens := bytes.length * 8 / width
    throw s!"index {index} is outside this status list ({tokens} tokens)."
  else
    pure
      ((bytes.byteAt (shiftRight start 3) >>> lowBits start 3) &&&
        (2 ^ width - 1))

/-! ## Bitstring Status List -/

/-- What `packBitstring` puts where: an array lists the indexes set to one. -/
def Values.bitstringEntries : Values → List (Int × Int)
  | .array elements => elements.filterMap fun element => element.map fun idx => (idx, 1)
  | .map entries => entries.entries

/-- The width a `statusSize` gives: one where it is left out. -/
def statusWidth (statusSize : Option Argument) : Option Nat :=
  match statusSize.getD (.integer 1) with
  | .integer value => if value < 1 ∨ value > 8 then none else some value.toNat
  | .other _ _ => none

/-- One turn of the loop of `put` in `packBitstring`. -/
def putBit (width idx value : Nat) (out : Buffer) (b : Nat) : Buffer :=
  if (value >>> (width - 1 - b)) &&& 1 ≠ 0 then
    let bit := toDouble (toDouble (idx * width : Nat) + b)
    out.orAt (shiftRight bit 3) (128 >>> lowBits bit 3)
  else
    out

/-- `put` of `packBitstring`: the most significant bit of the entry first. -/
def putBitstring (width count : Nat) (out : Buffer) (entry : Int × Int) : Except String Buffer :=
  let (idx, value) := entry
  if value = 0 then
    .ok out
  else if isSafeInteger idx = false ∨ idx < 0 ∨ (count : Int) ≤ idx then
    .error s!"index {idx} is outside a list of {count} entries."
  else if value < 0 ∨ 2 ^ width - 1 < value then
    .error s!"status {value} does not fit in {width} bit(s)."
  else
    .ok ((List.range width).foldl (putBit width idx.toNat value.toNat) out)

/-- Pack a Bitstring Status List; index 0 is the high end of byte 0. -/
def packBitstring (values : Values) (size : Argument)
    (statusSize : Option Argument) : Except String Buffer := do
  match statusWidth statusSize with
  | none => throw "statusSize is an integer from 1 to 8 here."
  | some width =>
    let count ← checkIndex size
    if count < bitstringMinEntries then
      throw s!"a Bitstring Status List has at least {bitstringMinEntries} entries (section 3.2)."
    else
      values.bitstringEntries.foldlM (putBitstring width count)
        (Buffer.alloc (byteLength count width))

/-- One turn of the loop of `bitstringValue`. -/
def takeBit (bytes : Buffer) (start : Int) (value b : Nat) : Nat :=
  let bit := toDouble (start + b)
  (value <<< 1) ||| ((bytes.byteAt (shiftRight bit 3) >>> (7 - lowBits bit 3)) &&& 1)

/-- Read one entry's status. -/
def bitstringValue (bytes : Buffer) (idx : Argument)
    (statusSize : Option Argument) : Except String Nat := do
  let index ← checkIndex idx
  let refused := s!"RANGE_ERROR: index {index} is outside this status list."
  match statusWidth statusSize with
  | none => throw refused
  | some width =>
    let start := toDouble (index * width : Nat)
    if toDouble (start + width) > toDouble (bytes.length * 8 : Nat) then
      throw refused
    else
      pure ((List.range width).foldl (takeBit bytes start) 0)

/-! ## What a status list is for -/

/-- The status assigned to an index; zero where none is. -/
def assigned (entries : List (Int × Int)) (index : Nat) : Nat :=
  ((entries.lookup (index : Int)).getD 0).toNat

/-- Statuses that fit the width, at indexes below the size. -/
def Fits (width size : Nat) (entries : List (Int × Int)) : Prop :=
  ∀ entry ∈ entries, (0 ≤ entry.1 ∧ entry.1 < size) ∧ (0 ≤ entry.2 ∧ entry.2 < 2 ^ width)

/--
A status list keeps its entries: every index reads back the status assigned to
it, and changing what one index is assigned changes no other index's reading.
-/
structure Keeps (entries : Values → List (Int × Int)) (pack : Values → Except String Buffer)
    (read : Buffer → Nat → Except String Nat)
    (width size : Nat) : Prop where
  reads :
    ∀ values,
      Fits width size (entries values) →
      ∃ bytes,
        pack values = .ok bytes ∧
          ∀ index < size, read bytes index = .ok (assigned (entries values) index)
  isolated :
    ∀ values values' changed bytes bytes',
      Fits width size (entries values) →
      Fits width size (entries values') →
      (∀ index,
        index ≠ changed →
        assigned (entries values) index = assigned (entries values') index) →
      pack values = .ok bytes →
      pack values' = .ok bytes' →
      ∀ index < size, index ≠ changed → read bytes index = read bytes' index

/-- The Token Status List of a width and a size keeps its entries. -/
def TslKeeps (width size : Nat) : Prop :=
  Keeps Values.tslEntries
    (fun values => packTsl values width size)
    (fun bytes index => unpackTslValue bytes width index)
    width size

/-- The Bitstring Status List of a width and a size keeps its entries. -/
def BitstringKeeps (width size : Nat) : Prop :=
  Keeps Values.bitstringEntries
    (fun values => packBitstring values size (some width))
    (fun bytes index => bitstringValue bytes index (some width))
    width size

end IyaSts.VcStatusCodec
