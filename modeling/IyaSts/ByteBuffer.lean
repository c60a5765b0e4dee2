import Mathlib.Data.List.Basic
import Mathlib.Data.Nat.Bitwise
import Mathlib.Tactic.Ring

namespace IyaSts

/-!
# Byte buffers

A buffer is read and written at integer indexes.  An index outside it reads as
nothing, which the bitwise operators take for zero, and a write there is lost.
The two bit orders number a buffer's bits from the low end of each byte or from
its high end.
-/

open List

/-- A Node `Buffer`. -/
abbrev Buffer := List UInt8

namespace Buffer

/-- `Buffer.alloc(length)`. -/
def alloc (length : Nat) : Buffer := List.replicate length 0

/-- `buffer[index]`, as the bitwise operators read it. -/
def byteAt (buffer : Buffer) (index : Int) : Nat :=
  if index < 0 then
    0
  else
    (buffer.getD index.toNat 0).toNat

/-- `buffer[index] |= mask`. -/
def orAt (buffer : Buffer) (index : Int) (mask : Nat) : Buffer :=
  if index < 0 then
    buffer
  else
    buffer.modify index.toNat fun byte => UInt8.ofNat (byte.toNat ||| mask)

variable (buffer : Buffer) (length bit width value : Nat) (bytes : Buffer)

theorem byteAt_lt (index : Int) : byteAt buffer index < 256 := by
  unfold byteAt
  split
  · decide
  · exact UInt8.toNat_lt _

@[simp] theorem length_alloc : (alloc length).length = length := by simp [alloc]

@[simp] theorem byteAt_alloc (index : Int) : byteAt (alloc length) index = 0 := by
  unfold byteAt alloc
  split
  · rfl
  · simp [getD_eq_getElem?_getD, List.getElem?_replicate]
    split <;> rfl

@[simp] theorem length_orAt (index : Int) (mask : Nat) :
    (buffer.orAt index mask).length = buffer.length := by
  unfold orAt
  split <;> simp

/-- A negative index reads as nothing. -/
theorem byteAt_negative {index : Int} (negative : index < 0) :
    buffer.byteAt index = 0 := by
  simp [byteAt, negative]

/-- The bits of a byte after `|=`: a mask has no bits beyond it. -/
theorem testBit_or_byte (byte : UInt8) (mask bit : Nat) :
    (UInt8.ofNat (byte.toNat ||| mask)).toNat.testBit bit =
      (byte.toNat.testBit bit || (decide (bit < 8) && mask.testBit bit)) := by
  rw [UInt8.toNat_ofNat', Nat.testBit_mod_two_pow, Nat.testBit_or]
  by_cases inByte : bit < 8
  · simp [inByte]
  · have noBit : byte.toNat.testBit bit = false :=
      Nat.testBit_lt_two_pow
        (lt_of_lt_of_le (UInt8.toNat_lt byte)
          (Nat.pow_le_pow_right (by decide) (Nat.le_of_not_lt inByte)))
    simp [inByte, noBit]

variable {position : Nat}

/-- A write inside the buffer changes the byte it names and no other. -/
theorem testBit_orAt (inside : position < buffer.length) (mask index bit : Nat) :
    ((buffer.orAt position mask).byteAt index).testBit bit =
    ((buffer.byteAt index).testBit bit ||
        (decide (index = position) && (decide (bit < 8) && mask.testBit bit))) := by
  have notNegative (value : Nat) : ¬ (value : Int) < 0 := by omega
  simp only [byteAt, orAt, notNegative, if_false, Int.toNat_natCast,
    getD_eq_getElem?_getD, List.getElem?_modify]
  by_cases isPosition : index = position
  · subst isPosition
    simp only [if_true, List.getElem?_eq_getElem inside, Option.map_eq_map,
      Option.map_some, Option.getD_some, decide_true, Bool.true_and]
    exact testBit_or_byte _ mask bit
  · simp [isPosition, Ne.symm isPosition]

/-- The bits of a buffer, from the low end of each byte. -/
def lowBit (buffer : Buffer) (bit : Nat) : Bool := (buffer.byteAt (bit / 8 : Nat)).testBit (bit % 8)

/-- The bits of a buffer, from the high end of each byte. -/
def highBit (buffer : Buffer) (bit : Nat) : Bool :=
  (buffer.byteAt (bit / 8 : Nat)).testBit (7 - bit % 8)

@[simp] theorem lowBit_alloc : (alloc length).lowBit bit = false := by simp [lowBit]

@[simp] theorem highBit_alloc : (alloc length).highBit bit = false := by simp [highBit]

theorem lowBit_orAt (inside : position < buffer.length) (mask bit : Nat) :
    (buffer.orAt position mask).lowBit bit =
    (buffer.lowBit bit || (decide (bit / 8 = position) && mask.testBit (bit % 8))) := by
  have inByte : bit % 8 < 8 := Nat.mod_lt _ (by decide)
  rw [lowBit, testBit_orAt buffer inside, decide_eq_true inByte, Bool.true_and]
  rfl

theorem highBit_orAt (inside : position < buffer.length) (mask bit : Nat) :
    (buffer.orAt position mask).highBit bit =
    (buffer.highBit bit || (decide (bit / 8 = position) && mask.testBit (7 - bit % 8))) := by
  have inByte : 7 - bit % 8 < 8 := by omega
  rw [highBit, testBit_orAt buffer inside, decide_eq_true inByte, Bool.true_and]
  rfl

/-! ## Big-endian numbers -/

/-- The low bytes of a number, the most significant first. -/
def bigEndian : Nat → Nat → Buffer
  | 0, _ => []
  | width + 1, value => UInt8.ofNat (value / 256 ^ width) :: bigEndian width value

/-- The number that bytes spell, the most significant first. -/
def bigEndianValue : Buffer → Nat
  | [] => 0
  | byte :: rest => byte.toNat * 256 ^ rest.length + bigEndianValue rest

@[simp] theorem length_bigEndian : (bigEndian width value).length = width := by
  induction width with
  | zero => rfl
  | succ width ih => simp [bigEndian, ih]

theorem bigEndianValue_lt : bigEndianValue bytes < 256 ^ bytes.length := by
  induction bytes with
  | nil => simp [bigEndianValue]
  | cons byte rest ih =>
    have byteFits : byte.toNat + 1 ≤ 256 := byte.toNat_lt
    calc
      bigEndianValue (byte :: rest)
          < byte.toNat * 256 ^ rest.length + 256 ^ rest.length :=
        Nat.add_lt_add_left ih _
      _ = (byte.toNat + 1) * 256 ^ rest.length := by ring
      _ ≤ 256 * 256 ^ rest.length := Nat.mul_le_mul_right _ byteFits
      _ = 256 ^ (byte :: rest).length := by rw [length_cons, Nat.pow_succ, Nat.mul_comm]

/-- Bytes read back as the number, up to the width they hold. -/
theorem bigEndianValue_bigEndian :
    bigEndianValue (bigEndian width value) = value % 256 ^ width := by
  induction width with
  | zero => simp [bigEndian, bigEndianValue, Nat.mod_one]
  | succ width ih =>
    have highByte :
        value % 256 ^ (width + 1) =
          value % 256 ^ width + 256 ^ width * (value / 256 ^ width % 256) :=
      Nat.mod_pow_succ
    rw [bigEndian, bigEndianValue, length_bigEndian, ih, UInt8.toNat_ofNat',
      highByte, Nat.add_comm, Nat.mul_comm]

/-- What lies beyond the width changes no byte. -/
theorem bigEndian_add_mul (width beyond value : Nat) :
    bigEndian width (beyond * 256 ^ width + value) = bigEndian width value := by
  induction width generalizing beyond with
  | zero => rfl
  | succ width ih =>
    have shape : beyond * 256 ^ (width + 1) + value = beyond * 256 * 256 ^ width + value := by ring
    have highByte :
        (beyond * 256 * 256 ^ width + value) / 256 ^ width =
          beyond * 256 + value / 256 ^ width := by
      rw [Nat.mul_comm _ (256 ^ width), Nat.mul_add_div (Nat.pow_pos (by decide))]
    rw [shape, bigEndian, bigEndian, ih, highByte]
    congr 1
    apply UInt8.toNat_inj.mp
    simp only [UInt8.toNat_ofNat']
    omega

/-- Writing the number that bytes spell writes the bytes. -/
theorem bigEndian_bigEndianValue :
    bigEndian bytes.length (bigEndianValue bytes) = bytes := by
  induction bytes with
  | nil => rfl
  | cons byte rest ih =>
    have highByte :
        (byte.toNat * 256 ^ rest.length + bigEndianValue rest) /
            256 ^ rest.length = byte.toNat := by
      rw [Nat.mul_comm, Nat.mul_add_div (Nat.pow_pos (by decide)),
        Nat.div_eq_of_lt (bigEndianValue_lt rest), Nat.add_zero]
    rw [length_cons, bigEndian, bigEndianValue, highByte,
      bigEndian_add_mul, ih]
    simp

/-- The last byte is the number's own, the others those of what is above it. -/
theorem bigEndian_succ :
    bigEndian (width + 1) value = bigEndian width (value / 256) ++ [UInt8.ofNat value] := by
  induction width with
  | zero => simp [bigEndian]
  | succ width ih =>
    have highByte : value / 256 ^ (width + 1) = value / 256 / 256 ^ width := by
      rw [Nat.div_div_eq_div_mul, Nat.pow_succ, Nat.mul_comm]
    rw [bigEndian, ih, bigEndian, highByte]
    rfl

/-- Folding the bytes from the first gives their number. -/
theorem foldl_eq_bigEndianValue :
    bytes.foldl (fun number byte => number * 256 + byte.toNat) 0 = bigEndianValue bytes := by
  have above (high : Nat) :
      bytes.foldl (fun number byte => number * 256 + byte.toNat) high =
        high * 256 ^ bytes.length + bigEndianValue bytes := by
    induction bytes generalizing high with
    | nil => simp [bigEndianValue]
    | cons byte rest ih =>
      rw [foldl_cons, ih, bigEndianValue, length_cons, Nat.pow_succ]
      ring
  simpa using above 0

/-! ## Little-endian numbers -/

/-- The low bytes of a number, the least significant first. -/
def littleEndian : Nat → Nat → Buffer
  | 0, _ => []
  | width + 1, value => UInt8.ofNat value :: littleEndian width (value / 256)

/-- The number that bytes spell, the least significant first. -/
def littleEndianValue : Buffer → Nat
  | [] => 0
  | byte :: rest => byte.toNat + 256 * littleEndianValue rest

@[simp] theorem length_littleEndian :
    (littleEndian width value).length = width := by
  induction width generalizing value with
  | zero => rfl
  | succ width ih => simp [littleEndian, ih]

theorem littleEndianValue_lt : littleEndianValue bytes < 256 ^ bytes.length := by
  induction bytes with
  | nil => simp [littleEndianValue]
  | cons byte rest ih =>
    have byteFits : byte.toNat < 256 := byte.toNat_lt
    rw [littleEndianValue, length_cons, Nat.pow_succ]
    omega

/-- Bytes read back as the number, up to the width they hold. -/
theorem littleEndianValue_littleEndian :
    littleEndianValue (littleEndian width value) = value % 256 ^ width := by
  induction width generalizing value with
  | zero => simp [littleEndian, littleEndianValue, Nat.mod_one]
  | succ width ih =>
    have lowByte : value % 256 ^ (width + 1) = value % 256 + 256 * (value / 256 % 256 ^ width) := by
      rw [Nat.pow_succ, Nat.mul_comm, Nat.mod_mul]
    rw [littleEndian, littleEndianValue, ih, UInt8.toNat_ofNat', lowByte]

end Buffer

end IyaSts
