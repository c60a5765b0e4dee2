import IyaSts.Krb5PacClaimsParses

namespace IyaSts.Krb5PacClaims

/-!
# How long encoded claims are

Where each piece ends, from where it starts.  A number ends after the padding to
its size and its octets; everything else is made of numbers.
-/

open CursorCodec
open Krb5Ndr

/-- Where a number of a size ends. -/
def after (size start : Nat) : Nat := start + padding size start + size

/-- Where a string of so many code units ends. -/
def stringEnd (units start : Nat) : Nat := start + padding 4 start + 12 + 2 * units

/-- Where the values of a claim end. -/
def valuesEnd (values : ClaimValues) (start : Nat) : Nat :=
  match values with
  | .string values =>
    values.foldl (fun place s => stringEnd (s.length + 1) place)
      (values.foldl (fun place _ => after 4 place) start)
  | .boolean values => values.foldl (fun place _ => after 8 place) start
  | .int64 values => values.foldl (fun place _ => after 8 place) start
  | .uint64 values => values.foldl (fun place _ => after 8 place) start

/-- Where the fixed part of an entry ends. -/
def entryEnd (start : Nat) : Nat := start + padding 4 start + 16

/-- Where the referents of an entry end. -/
def referentsEnd (claim : Claim) (start : Nat) : Nat :=
  valuesEnd claim.values (after 4 (stringEnd (claim.id.length + 1) start))

/-- Where the fixed part of an array ends. -/
def arrayEnd (start : Nat) : Nat := after 4 (after 2 start) + 4

/-- Where the entries of an array end. -/
def entriesEnd (array : ClaimsArray) (start : Nat) : Nat :=
  if array.claims.isEmpty then
    start
  else
    array.claims.foldl (fun place claim => referentsEnd claim place)
      (array.claims.foldl (fun place _ => entryEnd place) (after 4 start))

/-- Where a set ends, its padding apart. -/
def setEnd (prepared : List ClaimsArray) : Nat :=
  if prepared.isEmpty then
    40
  else
    prepared.foldl (fun place array => entriesEnd array place)
      (prepared.foldl (fun place _ => arrayEnd place) 44)

/-- How long a set is. -/
def setSize (prepared : List ClaimsArray) : Nat := setEnd prepared + padding 8 (setEnd prepared)

/-- How long the metadata around a set is. -/
def metadataSize (prepared : List ClaimsArray) : Nat := 56 + setSize prepared

/-! ## Numbers and strings -/

@[simp] theorem length_push (arr : Buffer) (w : Writer) :
    (w.push arr).bytes.length = w.bytes.length + arr.length :=
  List.length_append

@[simp] theorem length_align (size : Nat) (w : Writer) :
    (w.align size).bytes.length = w.bytes.length + padding size w.bytes.length := by
  rw [Writer.align, length_push, Buffer.length_alloc]

variable (v : Nat) (s : Text) (claim : Claim) (array : ClaimsArray)
    (prepared : List ClaimsArray)

theorem length_u16 (w : Writer) : (w.u16 v).bytes.length = after 2 w.bytes.length := by
  rw [Writer.u16, length_push, length_align, Buffer.length_littleEndian, after]

theorem length_u32 (w : Writer) : (w.u32 v).bytes.length = after 4 w.bytes.length := by
  rw [Writer.u32, length_push, length_align, Buffer.length_littleEndian, after]

theorem length_pointer (present : Bool) (w : Writer) :
    (w.pointer present).bytes.length = after 4 w.bytes.length := by
  cases present with
  | true => exact length_u32 w.nextReferent w
  | false => exact length_u32 0 w

theorem after_four_mod (start : Nat) : after 4 start % 4 = 0 := by
  simp only [after, padding]
  omega

/-- A number that starts where it may has no padding. -/
theorem after_aligned {size start : Nat} (aligned : start % size = 0) :
    after size start = start + size := by
  rw [after, padding, aligned, Nat.sub_zero, Nat.mod_self, Nat.add_zero]

theorem length_each {ι : Type} {write : ι → Writer → Writer} {placeEnd : ι → Nat → Nat}
    (isEnd :
      ∀ item w,
        (write item w).bytes.length = placeEnd item w.bytes.length)
    (items : List ι)
    (w : Writer) :
    (w.each items write).bytes.length =
      items.foldl (fun place item => placeEnd item place) w.bytes.length := by
  induction items generalizing w with
  | nil => rfl
  | cons item items ih =>
    rw [List.foldl_cons, ← isEnd item w]
    exact ih (write item w)

/-- Code units from an even place are two octets each. -/
theorem length_writeUnits {w : Writer} (even : w.bytes.length % 2 = 0) :
    (writeUnits s w).bytes.length = w.bytes.length + 2 * s.length := by
  induction s generalizing w with
  | nil => rfl
  | cons unit s ih =>
    have one : (w.u16 unit.toNat).bytes.length = w.bytes.length + 2 := by
      rw [length_u16, after_aligned even]
    have rest := ih (w := w.u16 unit.toNat) (by omega)
    rw [one] at rest
    rw [List.length_cons]
    show (writeUnits s (w.u16 unit.toNat)).bytes.length = _
    omega

theorem length_writeUnicodeStringValue (w : Writer) :
    (writeUnicodeStringValue (some s) w).bytes.length = stringEnd s.length w.bytes.length := by
  let counted := ((w.u32 s.length).u32 0).u32 s.length
  have isCounted : counted.bytes.length = after 4 w.bytes.length + 8 := by
    have aligned := after_four_mod w.bytes.length
    rw [length_u32, length_u32, length_u32, after_aligned aligned, after_aligned (by omega)]
  have even : counted.bytes.length % 2 = 0 := by
    have aligned := after_four_mod w.bytes.length
    omega
  have units := length_writeUnits s even
  rw [isCounted] at units
  show (writeUnits s counted).bytes.length = _
  rw [units, stringEnd, after]

theorem length_writeTerminatedString (w : Writer) :
    (writeTerminatedString s w).bytes.length = stringEnd (s.length + 1) w.bytes.length := by
  have same := length_writeUnicodeStringValue (s ++ [0]) w
  rw [← writeTerminatedString_eq, List.length_append, List.length_singleton] at same
  exact same

theorem length_writeU64 (big : Int) (w : Writer) :
    (writeU64 big w).bytes.length = after 8 w.bytes.length := by
  have aligned : (w.align 8).bytes.length % 8 = 0 := by
    rw [length_align, padding]
    omega
  have low :
      after 4 (w.align 8).bytes.length = (w.align 8).bytes.length + 4 :=
    after_aligned (by omega)
  have high :
      after 4 ((w.align 8).bytes.length + 4) = (w.align 8).bytes.length + 4 + 4 :=
    after_aligned (by omega)
  rw [writeU64, length_u32, length_u32, low, high, length_align, after]

/-! ## Claims, arrays and sets -/

theorem length_writeValues (values : ClaimValues) (w : Writer) :
    (writeValues values w).bytes.length = valuesEnd values w.bytes.length := by
  cases values with
  | int64 values => exact length_each (fun v => length_writeU64 v) values w
  | uint64 values => exact length_each (fun v => length_writeU64 v) values w
  | string values =>
    have pointers := length_each (fun (_ : Text) => length_pointer true) values w
    have strings :=
      length_each (fun s => length_writeTerminatedString s) values
        (w.each values fun _ w => w.pointer true)
    rw [pointers] at strings
    exact strings
  | boolean values =>
    exact length_each (fun (b : Bool) => length_writeU64 (if b then 1 else 0)) values w

theorem length_writeEntry (w : Writer) :
    (writeEntry claim w).bytes.length = entryEnd w.bytes.length := by
  have aligned := after_four_mod w.bytes.length
  let start := after 4 w.bytes.length
  have type : after 2 start = start + 2 := after_aligned (by omega)
  have discriminant : after 2 (start + 2) = start + 4 := after_aligned (by omega)
  have count : after 4 (start + 4) = start + 8 := after_aligned (by omega)
  have values : after 4 (start + 8) = start + 12 := after_aligned (by omega)
  rw [writeEntry, length_pointer, length_u32, length_u16, length_u16,
    length_pointer, type, discriminant, count, values, entryEnd]
  rfl

theorem length_writeReferents (w : Writer) :
    (writeReferents claim w).bytes.length = referentsEnd claim w.bytes.length := by
  rw [writeReferents, length_writeValues, length_u32, length_writeTerminatedString, referentsEnd]

theorem length_writeArray (w : Writer) :
    (writeArray array w).bytes.length = arrayEnd w.bytes.length := by
  rw [writeArray, length_pointer, length_u32, length_u16,
    after_aligned (after_four_mod _), arrayEnd]

theorem length_writeEntries (w : Writer) :
    (writeEntries array w).bytes.length = entriesEnd array w.bytes.length := by
  unfold writeEntries entriesEnd
  split
  · rfl
  · rw [length_each length_writeReferents, length_each length_writeEntry, length_u32]

/-- A set ends where its arithmetic says. -/
theorem objectEnd_writeSet :
    objectEnd (writeSet prepared) = setEnd prepared := by
  have header :
      (writeSetHeader prepared (writeTypeMarshallingHeaders createWriter)).bytes.length = 40 := by
    rw [writeSetHeader, length_pointer, length_u32, length_u16,
      length_pointer, length_u32, length_pointer, headers_bytes]
    rfl
  rw [objectEnd, writeSet, writeArrays, setEnd]
  split
  · exact header
  · rw [length_each length_writeEntries, length_each length_writeArray, length_u32, header]
    rfl

theorem length_writeClaimsSet :
    (writeClaimsSet prepared).length = setSize prepared := by
  rw [writeClaimsSet_eq, length_object (writeSet_extends prepared), objectEnd_writeSet, setSize]

/-- The metadata are 56 octets around the set. -/
theorem length_writeClaimsSetMetadata :
    (writeClaimsSetMetadata prepared).length = metadataSize prepared := by
  have set := length_writeClaimsSet prepared
  have isEnd : objectEnd (writeMetadata (writeClaimsSet prepared)) = 52 + setSize prepared := by
    rw [objectEnd, writeMetadata, length_push, length_u32, length_pointer, length_u32, length_u16,
      length_u32, length_u16, length_pointer, length_u32, length_pointer, headers_bytes, set]
    rfl
  have multiple : setSize prepared % 8 = 0 := by
    simp only [setSize, padding]
    omega
  rw [writeClaimsSetMetadata_eq, length_object (writeMetadata_extends (writeClaimsSet prepared)),
    isEnd, metadataSize, padding]
  omega

end IyaSts.Krb5PacClaims
