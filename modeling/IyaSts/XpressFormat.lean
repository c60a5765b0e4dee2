import IyaSts.XpressHuffmanTable

namespace IyaSts.XpressFormat

/-!
# What a compressed stream says

The format, apart from how it is decoded: a list of bits that always holds a
word's worth and more, and the bytes behind the words that were taken for it.
A symbol is told by its code at the head of the bits, and stands for a byte or
for a copy of what was produced before.
-/

open XpressHuffman (Kraft HasCode lengthOf)

/-! ## Bits and bytes -/

/-- The bits of a number, the most significant first. -/
def bitsOf : Nat → Nat → List Bool
  | 0, _ => []
  | width + 1, number => number.testBit width :: bitsOf width number

/-- The number that bits spell, the most significant first. -/
def valueOf : List Bool → Nat
  | [] => 0
  | bit :: rest => bit.toNat * 2 ^ rest.length + valueOf rest

/-- A byte of a stream; behind its end there are zeros. -/
def byte (rest : Buffer) (index : Nat) : Nat := (rest.getD index 0).toNat

/-- A word of two bytes, the lower one first. -/
def word (rest : Buffer) (index : Nat) : Nat := byte rest index + 256 * byte rest (index + 1)

/-- The bits at hand, and the bytes that no bits were taken of. -/
structure Reading where
  bits : List Bool
  rest : Buffer

/-- A reading past some bits, with another word where a word is not left. -/
def Reading.past (used : Nat) (reading : Reading) : Reading :=
  if (reading.bits.drop used).length < 16 then
    { bits := reading.bits.drop used ++ bitsOf 16 (word reading.rest 0)
      rest := reading.rest.drop 2 }
  else
    { reading with bits := reading.bits.drop used }

/-- The first two words of a chunk. -/
def Reading.start (rest : Buffer) : Reading where
  bits := bitsOf 16 (word rest 0) ++ bitsOf 16 (word rest 2)
  rest := rest.drop 4

/-! ## Symbols -/

/-- What a symbol stands for. -/
inductive Element where
  | literal (byte : UInt8)
  | copy (distance length : Nat)

/-- The length of a match, from its code and the bytes between the words. -/
inductive LengthIs : Nat → Buffer → Nat → Buffer → Prop where
  | short (length : Nat) (rest : Buffer) : length < 15 → LengthIs length rest length rest
  | byte (rest : Buffer) : byte rest 0 < 255 → LengthIs 15 rest (15 + byte rest 0) (rest.drop 1)
  | word (rest : Buffer) :
      byte rest 0 = 255 →
      15 ≤ word rest 1 →
      LengthIs 15 rest (word rest 1) (rest.drop 3)
  | double (rest : Buffer) :
      byte rest 0 = 255 →
      word rest 1 = 0 →
      15 ≤ word rest 3 + 65536 * word rest 5 →
      LengthIs 15 rest (word rest 3 + 65536 * word rest 5) (rest.drop 7)

section Chunks

variable (tableBytes : Buffer)

/-- A symbol's code is at the head of the bits. -/
def Heads (symbol : Nat) (reading : Reading) : Prop :=
  HasCode tableBytes symbol (valueOf (reading.bits.take 15))

/-- The element that is read next. -/
inductive ElementIs : Reading → Element → Reading → Prop where
  | literal (symbol : Nat) (reading : Reading) :
      symbol < 256 →
      Heads tableBytes symbol reading →
      ElementIs reading (.literal (UInt8.ofNat symbol)) (reading.past (lengthOf tableBytes symbol))
  | copy (offsetBits lengthCode length : Nat) (reading : Reading)
      (rest : Buffer) :
      offsetBits < 16 →
      lengthCode < 16 →
      Heads tableBytes (256 + 16 * offsetBits + lengthCode) reading →
      LengthIs lengthCode
        (reading.past (lengthOf tableBytes (256 + 16 * offsetBits + lengthCode))).rest
        length rest →
      ElementIs reading
        (.copy
          (2 ^ offsetBits +
            valueOf
              ((reading.past
                (lengthOf tableBytes (256 + 16 * offsetBits + lengthCode))).bits.take
                offsetBits))
          (length + 3))
        (Reading.past offsetBits
          { reading.past
              (lengthOf tableBytes (256 + 16 * offsetBits + lengthCode)) with
            rest })

/-- Bytes are copied one after the other, those just copied too. -/
def copied (distance : Nat) : Nat → Buffer → Buffer
  | 0, produced => produced
  | length + 1, produced =>
    copied distance length (produced ++ [produced.getD (produced.length - distance) 0])

/-- What an element adds; a copy is of what there is, and fits the output. -/
inductive Adds (size : Nat) : Element → Buffer → Buffer → Prop where
  | literal (byte : UInt8) (produced : Buffer) :
      Adds size (.literal byte) produced (produced ++ [byte])
  | copy (distance length : Nat) (produced : Buffer) :
      distance ≤ produced.length →
      produced.length + length ≤ size →
      Adds size (.copy distance length) produced (copied distance length produced)

/-- The elements of a chunk, until its output is there. -/
inductive Chunk (size limit : Nat) :
    Reading → Buffer → Reading → Buffer → Prop where
  | done (reading : Reading) (produced : Buffer) :
      limit ≤ produced.length →
      Chunk size limit reading produced reading produced
  | next {reading middle last : Reading} {element : Element}
      {produced more whole : Buffer} :
      produced.length < limit →
      ElementIs tableBytes reading element middle →
      Adds size element produced more →
      Chunk size limit middle more last whole →
      Chunk size limit reading produced last whole

end Chunks

/-- The chunks of a stream, each with the table it begins with. -/
inductive Stream (size : Nat) : Buffer → Buffer → Buffer → Prop where
  | done (rest produced : Buffer) : size ≤ produced.length → Stream size rest produced produced
  | chunk {rest produced more whole : Buffer} {last : Reading} :
      produced.length < size →
      260 ≤ rest.length →
      Kraft (rest.take 256) →
      Chunk (rest.take 256) size (min (produced.length + 65536) size)
        (Reading.start (rest.drop 256)) produced last more →
      Stream size last.rest more whole →
      Stream size rest produced whole

/-- A stream's decompression, of the size that is declared. -/
def Decompresses (input : Buffer) (size : Nat) (output : Buffer) : Prop :=
  Stream size input [] output

end IyaSts.XpressFormat
