import IyaSts.Krb5NdrAnswers

namespace IyaSts.Krb5Ndr

/-!
# Marshalled objects

An object is its headers, what is written of it and the padding at its end.  The
length in the headers is put there last, over octets already written, so the
headers that are read are not the headers that were written first.
-/

open CursorCodec List

/-- A marshalled object, of what writes its fields. -/
def object (write : Writer → Writer) : Buffer :=
  let w := writeTypeMarshallingHeaders createWriter
  finishObject w.bytes.length (write w)

/-- The headers, with the length that is there in the end. -/
def writeHeaders (length : Nat) (w : Writer) : Writer :=
  (((((w.u8 1).u8 0x10).u16 8).push [0xcc, 0xcc, 0xcc, 0xcc]).u32 length).u32 0

/-- What the headers are read as. -/
def headersOf (length : Nat) : MarshallingHeaders where
  version := 1
  endianness := 0x10
  objectBufferLength := length % 2 ^ 32
  filler := [0xcc, 0xcc, 0xcc, 0xcc]


variable (length : Nat)

theorem writeHeaders_reads :
    Reads (writeHeaders length) readTypeMarshallingHeaders (some (headersOf length)) :=
  (u8_reads 1).andThen
    (fun w => ((((w.u8 0x10).u16 8).push [0xcc, 0xcc, 0xcc, 0xcc]).u32 length).u32 0)
    ((u8_reads 0x10).andThen
      (fun w => (((w.u16 8).push [0xcc, 0xcc, 0xcc, 0xcc]).u32 length).u32 0)
      ((u16_reads 8).andThen
        (fun w => ((w.push [0xcc, 0xcc, 0xcc, 0xcc]).u32 length).u32 0)
        ((taken_reads [0xcc, 0xcc, 0xcc, 0xcc] "4 bytes" rfl).andThen
          (fun w => (w.u32 length).u32 0)
          ((u32_reads length).andThen (Writer.u32 0)
            ((u32_reads 0).andRead
              (Answers.checked (by decide)
                (Answers.checked (by decide)
                  (Answers.checked (by decide) (Answers.pure (headersOf length))))))))))

theorem headers_bytes :
    (writeTypeMarshallingHeaders createWriter).bytes =
      [1, 0x10, 8, 0, 0xcc, 0xcc, 0xcc, 0xcc, 0, 0, 0, 0, 0, 0, 0, 0] := by
  decide

theorem writeHeaders_bytes :
    (writeHeaders length createWriter).bytes =
    [1, 0x10, 8, 0, 0xcc, 0xcc, 0xcc, 0xcc] ++ Buffer.littleEndian 4 length ++ [0, 0, 0, 0] := by
  simp [writeHeaders, Writer.u8, Writer.u16, Writer.u32, Writer.push,
    Writer.align, createWriter, padding, Buffer.alloc, Buffer.littleEndian]

theorem length_writeHeaders :
    (writeHeaders length createWriter).bytes.length = 16 := by
  rw [writeHeaders_bytes, length_append, length_append, Buffer.length_littleEndian]
  rfl

/-- Putting the length in place makes the headers those with that length. -/
theorem overwrite_headers (rest : Buffer) :
    Writer.overwrite
        ((writeTypeMarshallingHeaders createWriter).bytes ++ rest)
        lengthOffset length =
    (writeHeaders length createWriter).bytes ++ rest := by
  have lengthBytes :
      Buffer.littleEndian 4 length =
        [UInt8.ofNat length, UInt8.ofNat (length / 0x100),
          UInt8.ofNat (length / 0x10000), UInt8.ofNat (length / 0x1000000)] := by
    simp [Buffer.littleEndian, Nat.div_div_eq_div_mul]
  rw [headers_bytes, writeHeaders_bytes, lengthBytes]
  rfl

/-- How long an object is before its padding. -/
def objectEnd (write : Writer → Writer) : Nat :=
  (write (writeTypeMarshallingHeaders createWriter)).bytes.length

/-- The length an object gives in its headers. -/
def objectLength (write : Writer → Writer) : Nat :=
  objectEnd write + padding 8 (objectEnd write) - 16

variable {write : Writer → Writer}

/-- The three parts of an object. -/
theorem object_eq (extends_ : Extends write) :
    object write =
      (writeHeaders (objectLength write) createWriter).bytes ++
        added Writer.bytes write (writeTypeMarshallingHeaders createWriter) ++
          Buffer.alloc (padding 8 (objectEnd write)) := by
  let w := writeTypeMarshallingHeaders createWriter
  have padded :
      ((write w).align 8).bytes =
        w.bytes ++ (added Writer.bytes write w ++ Buffer.alloc (padding 8 (objectEnd write))) := by
    rw [← append_assoc, ← extends_.eq_append w]
    rfl
  have isLength : ((write w).align 8).bytes.length - w.bytes.length = objectLength write := by
    rw [Writer.align, Writer.push, length_append, Buffer.length_alloc]
    rfl
  rw [object, finishObject, Writer.patchU32]
  dsimp only
  rw [isLength, padded, overwrite_headers, append_assoc]

theorem length_object (extends_ : Extends write) :
    (object write).length = objectEnd write + padding 8 (objectEnd write) := by
  have total := length_added extends_ (writeTypeMarshallingHeaders createWriter)
  rw [object_eq extends_, length_append, length_append, Buffer.length_alloc, objectEnd,
    ← total, length_writeHeaders, headers_bytes]
  rfl

/-- The headers of an object are read first. -/
theorem object_headers (extends_ : Extends write) (fits : (object write).length ≤ maxNdrBytes) :
    ReadsTo readTypeMarshallingHeaders (object write) 0 16
      (some (headersOf (objectLength write))) := by
  have reads :=
    (writeHeaders_reads (objectLength write)).reads createWriter []
      (added Writer.bytes write (writeTypeMarshallingHeaders createWriter) ++
        Buffer.alloc (padding 8 (objectEnd write))) rfl
  have isHeaders :
      added Writer.bytes (writeHeaders (objectLength write)) createWriter =
        (writeHeaders (objectLength write) createWriter).bytes :=
    rfl
  rw [nil_append, isHeaders, ← append_assoc,
    ← object_eq extends_, length_writeHeaders] at reads
  exact reads fits

/-- What is written of an object is read from after its headers. -/
theorem object_reads {α : Type} {reading : NdrReading α} {answer : Option α}
    (reads : Reads write reading answer) (fits : (object write).length ≤ maxNdrBytes) :
    ReadsTo reading (object write) 16 (objectEnd write) answer := by
  have read :=
    reads.reads (writeTypeMarshallingHeaders createWriter)
      (writeHeaders (objectLength write) createWriter).bytes
      (Buffer.alloc (padding 8 (objectEnd write)))
      (by rw [length_writeHeaders, headers_bytes]; rfl)
  have isEnd :
      16 +
          (added Writer.bytes write (writeTypeMarshallingHeaders createWriter)).length =
        objectEnd write :=
    length_added reads.appends (writeTypeMarshallingHeaders createWriter)
  rw [← object_eq reads.appends, length_writeHeaders, isEnd] at read
  exact read fits

/-- What is left of an object when it has been read is its padding. -/
theorem object_remaining (extends_ : Extends write) :
    ReadsTo remaining (object write) (objectEnd write) (objectEnd write)
      (some (padding 8 (objectEnd write))) := by
  have left : (object write).length - objectEnd write = padding 8 (objectEnd write) := by
    rw [length_object extends_]
    omega
  rw [← left]
  rfl

end IyaSts.Krb5Ndr
