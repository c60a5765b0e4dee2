import IyaSts.ByteBuffer

namespace IyaSts.Utf8

/-!
# Text as UTF-8 bytes

`Buffer.from(text, 'utf8')` and `buffer.toString('utf8')`.  Decoding never
fails: a maximal run of bytes that begins a character and does not end it, or
a byte that begins none, is read as U+FFFD.
-/

open List

/-- `Buffer.from(text, 'utf8')`. -/
def encode (text : String) : Buffer := text.toList.flatMap String.utf8EncodeChar

/-- The ranges of the bytes that may follow a first byte. -/
def followers (first : UInt8) : List (UInt8 × UInt8) :=
  if 0xC2 ≤ first ∧ first ≤ 0xDF then
    [(0x80, 0xBF)]
  else if first = 0xE0 then
    [(0xA0, 0xBF), (0x80, 0xBF)]
  else if first = 0xED then
    [(0x80, 0x9F), (0x80, 0xBF)]
  else if 0xE1 ≤ first ∧ first ≤ 0xEF then
    [(0x80, 0xBF), (0x80, 0xBF)]
  else if first = 0xF0 then
    [(0x90, 0xBF), (0x80, 0xBF), (0x80, 0xBF)]
  else if 0xF1 ≤ first ∧ first ≤ 0xF3 then
    [(0x80, 0xBF), (0x80, 0xBF), (0x80, 0xBF)]
  else if first = 0xF4 then
    [(0x80, 0x8F), (0x80, 0xBF), (0x80, 0xBF)]
  else
    []

/-- How many bytes stay within the ranges, one range a byte. -/
def within : List (UInt8 × UInt8) → Buffer → Nat
  | (low, high) :: ranges, byte :: rest =>
    if low ≤ byte ∧ byte ≤ high then within ranges rest + 1 else 0
  | _, _ => 0

/-- How many bytes one replacement character stands for. -/
def replaced : Buffer → Nat
  | [] => 0
  | first :: rest => within (followers first) rest + 1

/-- The characters of some bytes; `fuel` bounds how many there can be. -/
def decodeFrom : Nat → Buffer → List Char
  | 0, _ => []
  | _ + 1, [] => []
  | fuel + 1, bytes =>
    match bytes.toByteArray.utf8DecodeChar? 0 with
    | some char => char :: decodeFrom fuel (bytes.drop char.utf8Size)
    | none => '\uFFFD' :: decodeFrom fuel (bytes.drop (replaced bytes))

/-- `buffer.toString('utf8')`. -/
def decode (bytes : Buffer) : String := String.ofList (decodeFrom bytes.length bytes)

/-- An encoded character decodes to itself. -/
theorem decodeFrom_encodeChar (fuel : Nat) (char : Char) (rest : Buffer) :
    decodeFrom (fuel + 1) (String.utf8EncodeChar char ++ rest) = char :: decodeFrom fuel rest := by
  have decodes :
      (String.utf8EncodeChar char ++ rest).toByteArray.utf8DecodeChar? 0 = some char := by
    rw [toByteArray_append]
    exact ByteArray.utf8DecodeChar?_utf8EncodeChar_append
  cases shape : String.utf8EncodeChar char ++ rest with
  | nil =>
    rw [append_eq_nil_iff] at shape
    exact absurd shape.1 String.utf8EncodeChar_ne_nil
  | cons first others =>
    rw [decodeFrom, ← shape, decodes]
    · simp only [← String.length_utf8EncodeChar, drop_left]
    · simp

/-- Decoding what was encoded gives the text back. -/
theorem decode_encode (text : String) : decode (encode text) = text := by
  have eachChar (chars : List Char) (fuel : Nat)
      (enough : (chars.flatMap String.utf8EncodeChar).length ≤ fuel) :
      decodeFrom fuel (chars.flatMap String.utf8EncodeChar) = chars := by
    induction chars generalizing fuel with
    | nil => cases fuel <;> rfl
    | cons char rest ih =>
      have positive : 0 < (String.utf8EncodeChar char).length :=
        length_pos_of_ne_nil String.utf8EncodeChar_ne_nil
      simp only [flatMap_cons, length_append] at enough ⊢
      cases fuel with
      | zero => omega
      | succ fuel => rw [decodeFrom_encodeChar, ih fuel (by omega)]
  rw [decode, encode, eachChar _ _ (Nat.le_refl _), String.ofList_toList]

end IyaSts.Utf8
