import IyaSts.ByteBuffer

namespace IyaSts.Base64

/-!
# Base64

`buffer.toString('base64')` and `Buffer.from(text, 'base64')`.  The writer
pads the last group; the reader takes both alphabets, passes over every other
character and drops what is left of an unfinished byte.
-/

open List

/-- The character of six bits. -/
def sextetChar (bits : Nat) : Char :=
  if bits < 26 then
    Char.ofNat (0x41 + bits)
  else if bits < 52 then
    Char.ofNat (0x61 + (bits - 26))
  else if bits < 62 then
    Char.ofNat (0x30 + (bits - 52))
  else if bits = 62 then
    '+'
  else
    '/'

/-- The six bits of a character of either alphabet. -/
def sextetOf (char : Char) : Option Nat :=
  if 'A' ≤ char ∧ char ≤ 'Z' then
    some (char.toNat - 0x41)
  else if 'a' ≤ char ∧ char ≤ 'z' then
    some (char.toNat - 0x61 + 26)
  else if '0' ≤ char ∧ char ≤ '9' then
    some (char.toNat - 0x30 + 52)
  else if char = '+' ∨ char = '-' then
    some 62
  else if char = '/' ∨ char = '_' then
    some 63
  else
    none

/-- The bits of some bytes, six at a time, with zeros at the end. -/
def sextets : Buffer → List Nat
  | [] => []
  | [first] => [first.toNat / 4, first.toNat % 4 * 16]
  | [first, second] =>
    [first.toNat / 4, first.toNat % 4 * 16 + second.toNat / 16, second.toNat % 16 * 4]
  | first :: second :: third :: rest =>
    first.toNat / 4 :: (first.toNat % 4 * 16 + second.toNat / 16) ::
      (second.toNat % 16 * 4 + third.toNat / 64) :: third.toNat % 64 ::
      sextets rest

/-- `buffer.toString('base64')`. -/
def encode (bytes : Buffer) : List Char :=
  (sextets bytes).map sextetChar ++ List.replicate ((3 - bytes.length % 3) % 3) '='

/-- The whole bytes that six bits at a time spell. -/
def bytesOf : List Nat → Buffer
  | first :: second :: third :: fourth :: rest =>
    UInt8.ofNat (first * 4 + second / 16) ::
      UInt8.ofNat (second % 16 * 16 + third / 4) ::
      UInt8.ofNat (third % 4 * 64 + fourth) :: bytesOf rest
  | [first, second, third] =>
    [UInt8.ofNat (first * 4 + second / 16), UInt8.ofNat (second % 16 * 16 + third / 4)]
  | [first, second] => [UInt8.ofNat (first * 4 + second / 16)]
  | _ => []

/-- `Buffer.from(text, 'base64')`. -/
def decode (text : List Char) : Buffer := bytesOf (text.filterMap sextetOf)

/-- A written character is read as its bits. -/
theorem sextetOf_sextetChar {bits : Nat} (isSextet : bits < 64) :
    sextetOf (sextetChar bits) = some bits := by
  have everySextet : ∀ bits < 64, sextetOf (sextetChar bits) = some bits := by decide
  exact everySextet bits isSextet

/-- A byte is put together from the bits it was taken apart into. -/
theorem ofNat_eq_byte (byte : UInt8) {spelled : Nat} (same : spelled = byte.toNat) :
    UInt8.ofNat spelled = byte := by
  rw [same]
  simp

variable (bytes : Buffer)

theorem sextets_lt : ∀ bits ∈ sextets bytes, bits < 64 := by
  fun_induction sextets bytes with
  | case1 => simp
  | case2 first =>
    have := first.toNat_lt
    simp only [forall_mem_cons]
    exact ⟨by omega, by omega, by simp⟩
  | case3 first second =>
    have := first.toNat_lt
    have := second.toNat_lt
    simp only [forall_mem_cons]
    exact ⟨by omega, by omega, by omega, by simp⟩
  | case4 first second third rest ih =>
    have := first.toNat_lt
    have := second.toNat_lt
    have := third.toNat_lt
    simp only [forall_mem_cons]
    exact ⟨by omega, by omega, by omega, by omega, ih⟩

theorem bytesOf_sextets : bytesOf (sextets bytes) = bytes := by
  fun_induction sextets bytes with
  | case1 => rfl
  | case2 first => rw [bytesOf, ofNat_eq_byte first (by omega)]
  | case3 first second =>
    have := second.toNat_lt
    rw [bytesOf, ofNat_eq_byte first (by omega), ofNat_eq_byte second (by omega)]
  | case4 first second third rest ih =>
    have := second.toNat_lt
    have := third.toNat_lt
    rw [bytesOf, ofNat_eq_byte first (by omega), ofNat_eq_byte second (by omega),
      ofNat_eq_byte third (by omega), ih]

/-- What is written is read back. -/
theorem decode_encode : decode (encode bytes) = bytes := by
  have areRead : ((sextets bytes).map sextetChar).filterMap sextetOf = sextets bytes := by
    rw [filterMap_map]
    calc
      (sextets bytes).filterMap (sextetOf ∘ sextetChar)
          = (sextets bytes).filterMap some :=
        filterMap_congr fun bits isBits => sextetOf_sextetChar (sextets_lt bytes bits isBits)
      _ = sextets bytes := filterMap_some
  have padding (count : Nat) : (List.replicate count '=').filterMap sextetOf = [] := by
    rw [filterMap_replicate_of_none (by decide)]
  rw [decode, encode, filterMap_append, areRead, padding, append_nil, bytesOf_sextets]

/-- Every character written is of the alphabet or the padding. -/
theorem mem_encode {char : Char} {bytes : Buffer} (isWritten : char ∈ encode bytes) :
    char = '=' ∨ ∃ bits < 64, char = sextetChar bits := by
  rw [encode, mem_append] at isWritten
  rcases isWritten with isSextet | isPadding
  · obtain ⟨bits, isBits, rfl⟩ := mem_map.mp isSextet
    exact .inr ⟨bits, sextets_lt bytes bits isBits, rfl⟩
  · exact .inl (eq_of_mem_replicate isPadding)

end IyaSts.Base64
