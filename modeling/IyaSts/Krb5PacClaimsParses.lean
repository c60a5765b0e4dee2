import IyaSts.Krb5NdrObjects
import IyaSts.Krb5PacClaimsAnswers

namespace IyaSts.Krb5PacClaims

/-!
# Parsing what was encoded

A set that fits the reader's stream is parsed when its arrays have an answer, and
then with that answer and nothing left; the metadata around it is parsed with it.
Neither is parsed when the stream is too long.
-/

open CursorCodec
open Krb5Ndr

/-! ## Streams -/

variable {α : Type} {reading : NdrReading α} {b inner : Buffer} {value : α}
    {write : Writer → Writer} {prepared : List ClaimsArray}

theorem readStream_reads {stop : Nat} (fits : b.length ≤ maxNdrBytes)
    (reads : ReadsTo reading b 0 stop (some value)) :
    readStream reading b = .ok value := by
  have read : reading b 0 = .ok (value, stop) := reads
  rw [readStream, if_neg (Nat.not_lt.mpr fits), read]
  rfl

/-- What is read of a stream was read in a stream that is not too long. -/
theorem of_readStream (reads : readStream reading b = .ok value) :
    b.length ≤ maxNdrBytes ∧ ∃ stop, reading b 0 = .ok (value, stop) := by
  unfold readStream at reads
  split at reads
  · cases reads
  rename_i fits
  refine ⟨Nat.not_lt.mp fits, ?_⟩
  cases read : reading b 0 with
  | error failure =>
    rw [read] at reads
    cases reads
  | ok result =>
    rw [read] at reads
    cases reads
    exact ⟨result.2, rfl⟩

/-! ## The set -/

theorem writeClaimsSet_eq (prepared : List ClaimsArray) :
    writeClaimsSet prepared = object (writeSet prepared) :=
  rfl

theorem writeSet_extends (prepared : List ClaimsArray) : Extends (writeSet prepared) :=
  (writeSetHeader_extends prepared).andThen (writeArrays_extends prepared)

/-- The padding at the end of an object is taken. -/
theorem readPadding_object (extends_ : Extends write) :
    ReadsTo readPadding (object write) (objectEnd write) (object write).length (some ()) := by
  have isLength := length_object extends_
  have enough : padding 8 (objectEnd write) ≤ (object write).length - objectEnd write := by omega
  have taken_ : ¬ (object write).length < objectEnd write + padding 8 (objectEnd write) := by omega
  have steps :
      readPadding (object write) (objectEnd write) =
        (if padding 8 (objectEnd write) ≤
            (object write).length - objectEnd write then
          align 8
        else
          pure ()) (object write) (objectEnd write) :=
    rfl
  have aligned :
      align 8 (object write) (objectEnd write) =
        (taken (padding 8 (objectEnd write)) "alignment padding"
          (object write) (objectEnd write) >>= fun result => .ok ((), result.2)) :=
    rfl
  rw [if_pos enough, aligned, taken, if_neg taken_] at steps
  rw [isLength]
  exact steps

/-- What has been read of a set when its arrays have been. -/
def readOf (prepared : List ClaimsArray) (arrays : List ReadArray) :
    SetHeader × List ReadArray × Option Buffer :=
  (setHeaderOf prepared, arrays, none)

/-- What `parseClaimsSet` answers of arrays it has read. -/
def setOf (prepared : List ClaimsArray) (arrays : List ReadArray) : ClaimsSet where
  ndr := headersOf (objectLength (writeSet prepared))
  arrays := arrays
  reservedType := 0
  reservedFieldSize := 0
  reservedField := none
  bytesUnread := 0

/-- The reading of `parseClaimsSet`. -/
def readClaimsSet : NdrReading ClaimsSet := do
  let headers ← readTypeMarshallingHeaders
  let (header, arrays, reserved) ← readSet
  readPadding
  let left ← remaining
  pure {
    ndr := headers
    arrays := arrays
    reservedType := header.reservedType
    reservedFieldSize := header.reservedFieldSize
    reservedField := reserved
    bytesUnread := left
  }

/-- A set that is not too long is read as its arrays' answer. -/
theorem readClaimsSet_reads (fit : Fit prepared)
    (fits : (writeClaimsSet prepared).length ≤ maxNdrBytes) :
    ReadsTo readClaimsSet (writeClaimsSet prepared) 0
      (writeClaimsSet prepared).length
      ((arraysAnswer prepared).map (setOf prepared)) := by
  rw [writeClaimsSet_eq] at fits ⊢
  have extends_ := writeSet_extends prepared
  have reads :
      ReadsTo readClaimsSet (object (writeSet prepared)) 0
        (object (writeSet prepared)).length
        ((some (headersOf (objectLength (writeSet prepared)))).bind
          fun _ =>
            ((arraysAnswer prepared).map (readOf prepared)).bind fun read =>
                (some ()).bind fun _ =>
                  some (setOf prepared read.2.1)) := by
    refine (object_headers extends_ fits).bind fun headers isHeaders => ?_
    refine (object_reads (writeSet_reads fit) fits).bind fun read isRead => ?_
    refine (readPadding_object extends_).bind fun _ _ => ?_
    cases isHeaders
    obtain ⟨arrays, _, rfl⟩ := Option.map_eq_some_iff.mp isRead
    have nothingLeft :
        remaining (object (writeSet prepared))
            (object (writeSet prepared)).length =
          .ok (0, (object (writeSet prepared)).length) := by
      rw [remaining, Nat.sub_self]
    show (remaining >>= _) _ _ = _
    rw [bind_apply, nothingLeft]
    rfl
  have answer :
      ((some (headersOf (objectLength (writeSet prepared)))).bind
          fun _ =>
            ((arraysAnswer prepared).map (readOf prepared)).bind fun read =>
              (some ()).bind fun _ => some (setOf prepared read.2.1)) =
        (arraysAnswer prepared).map (setOf prepared) := by
    cases arraysAnswer prepared <;> rfl
  rwa [answer] at reads

theorem parseClaimsSet_ok {arrays : List ReadArray} (fit : Fit prepared)
    (fits : (writeClaimsSet prepared).length ≤ maxNdrBytes)
    (areRead : arraysAnswer prepared = some arrays) :
    parseClaimsSet (writeClaimsSet prepared) = .ok (setOf prepared arrays) := by
  have reads := readClaimsSet_reads fit fits
  rw [areRead] at reads
  exact readStream_reads fits reads

theorem parseClaimsSet_error (fit : Fit prepared) (notRead : arraysAnswer prepared = none)
    (set : ClaimsSet) :
    parseClaimsSet (writeClaimsSet prepared) ≠ .ok set := by
  intro parses
  obtain ⟨fits, stop, read⟩ := of_readStream parses
  have reads := readClaimsSet_reads fit fits
  rw [notRead] at reads
  exact reads (set, stop) read

/-! ## The metadata -/

/-- What the metadata around a set's octets is read as. -/
def metadataOf (inner : Buffer) : Metadata where
  claimsSetSize := inner.length
  compression := 0
  uncompressedSize := inner.length
  reservedType := 0
  reservedFieldSize := 0
  raw := some inner

/-- The fields of the metadata before the set's octets. -/
def writeMetadataFixed (inner : Buffer) (w : Writer) : Writer :=
  ((((((w.u32 inner.length).pointer true).u16 0).u32 inner.length).u16 0).u32 0).pointer false

/-- The set's octets and their count. -/
def writeRaw (inner : Buffer) (w : Writer) : Writer := (w.u32 inner.length).push inner

theorem writeRaw_reads (isWord : inner.length < 2 ^ 32) :
    Reads (writeRaw inner) (readRaw inner.length) (some (some inner)) := by
  have counted := u32_reads inner.length
  rw [Nat.mod_eq_of_lt isWord] at counted
  exact
    counted.andThen (Writer.push inner)
      (((taken_reads inner s!"{inner.length} bytes" rfl).andRead
        (Answers.pure (some inner))).checked (not_not_intro rfl))

/-- The metadata is read as it is written. -/
theorem writeMetadata_reads (isWord : inner.length < 2 ^ 32) :
    Reads (writeMetadata inner) readMetadata (some (metadataOf inner)) := by
  have counted := u32_reads inner.length
  rw [Nat.mod_eq_of_lt isWord] at counted
  have fields :
      Reads (fun w => writeRaw inner (writeMetadataFixed inner w))
        readMetadataFields
        (some (metadataOf inner)) :=
    counted.andThen
      (fun w =>
        writeRaw inner ((((((w.pointer true).u16 0).u32 inner.length).u16 0).u32 0).pointer false))
      ((pointer_reads true).andThen
        (fun w => writeRaw inner (((((w.u16 0).u32 inner.length).u16 0).u32 0).pointer false))
        ((u16_reads 0).andThen
          (fun w => writeRaw inner ((((w.u32 inner.length).u16 0).u32 0).pointer false))
          (counted.andThen
            (fun w => writeRaw inner (((w.u16 0).u32 0).pointer false))
            ((u16_reads 0).andThen
              (fun w => writeRaw inner ((w.u32 0).pointer false))
              ((u32_reads 0).andThen
                (fun w => writeRaw inner (w.pointer false))
                ((pointer_reads false).andThen (writeRaw inner)
                  ((writeRaw_reads isWord).andRead (Answers.pure (metadataOf inner)))))))))
  exact
    (pointer_reads true).andThen
      (fun w => writeRaw inner (writeMetadataFixed inner w))
      (fields.checked (by decide))

/-- The reading of `parseClaimsInfo`. -/
def readClaimsInfo : NdrReading (MarshallingHeaders × Metadata) := do
  let headers ← readTypeMarshallingHeaders
  let metadata ← readMetadata
  pure (headers, metadata)

theorem writeClaimsSetMetadata_eq (prepared : List ClaimsArray) :
    writeClaimsSetMetadata prepared = object (writeMetadata (writeClaimsSet prepared)) :=
  rfl

theorem writeMetadata_extends (inner : Buffer) : Extends (writeMetadata inner) :=
  (((((((((pointer_extends true).andThen (u32_extends _)).andThen
    (pointer_extends true)).andThen (u16_extends 0)).andThen
      (u32_extends _)).andThen (u16_extends 0)).andThen
        (u32_extends 0)).andThen (pointer_extends false)).andThen
          (u32_extends _)).andThen (push_extends inner)

/-- The set is no longer than what is around it. -/
theorem length_writeClaimsSet_le (prepared : List ClaimsArray) :
    (writeClaimsSet prepared).length ≤ (writeClaimsSetMetadata prepared).length := by
  have isLength := length_object (writeMetadata_extends (writeClaimsSet prepared))
  have isEnd :
      objectEnd (writeMetadata (writeClaimsSet prepared)) =
        ((writeMetadataFixed (writeClaimsSet prepared)
          ((writeTypeMarshallingHeaders createWriter).pointer true)).u32
            (writeClaimsSet prepared).length).bytes.length +
          (writeClaimsSet prepared).length :=
    List.length_append
  rw [writeClaimsSetMetadata_eq, isLength, isEnd]
  omega

theorem readClaimsInfo_reads (fits : (writeClaimsSetMetadata prepared).length ≤ maxNdrBytes) :
    ∃ headers stop,
      ReadsTo readClaimsInfo (writeClaimsSetMetadata prepared) 0 stop
        (some (headers, metadataOf (writeClaimsSet prepared))) := by
  have shorter := length_writeClaimsSet_le prepared
  have isWord : (writeClaimsSet prepared).length < 2 ^ 32 := by
    simp only [maxNdrBytes] at fits
    omega
  let write := writeMetadata (writeClaimsSet prepared)
  rw [writeClaimsSetMetadata_eq] at fits ⊢
  have extends_ := writeMetadata_extends (writeClaimsSet prepared)
  have reads :
      ReadsTo readClaimsInfo (object write) 0 (objectEnd write)
        ((some (headersOf (objectLength write))).bind fun headers =>
          (some (metadataOf (writeClaimsSet prepared))).bind fun metadata =>
            some (headers, metadata)) :=
    (object_headers extends_ fits).bind fun headers _ =>
      (object_reads (writeMetadata_reads isWord) fits).bind fun metadata _ => rfl
  exact ⟨headersOf (objectLength write), objectEnd write, reads⟩

/-- An object is never empty. -/
theorem object_not_empty (extends_ : Extends write) : (object write).isEmpty = false := by
  rw [object_eq extends_, writeHeaders_bytes]
  rfl

/-- What `parseClaimsInfo` answers of a set it has parsed. -/
def infoOf (headers : MarshallingHeaders) (inner : Buffer) (set : ClaimsSet) : ClaimsInfo where
  empty := false
  ndr := some headers
  claimsSetSize := inner.length
  compressionFormat := some 0
  uncompressedClaimsSetSize := inner.length
  reservedType := 0
  reservedFieldSize := 0
  claimsSet := some set
  claims := claimsOf set.arrays

section

variable
  (decompressXpressHuffman : Buffer → Nat → Except String Buffer)
  {prepared : List ClaimsArray}

/-- The claims are those of the set, where the set is parsed. -/
theorem parseClaimsInfo_eq (fits : (writeClaimsSetMetadata prepared).length ≤ maxNdrBytes) :
    ∃ headers,
      parseClaimsInfo decompressXpressHuffman
          (writeClaimsSetMetadata prepared) =
        (parseClaimsSet (writeClaimsSet prepared)).map
          (infoOf headers (writeClaimsSet prepared)) := by
  obtain ⟨headers, stop, reads⟩ := readClaimsInfo_reads fits
  have stream :
      readStream readClaimsInfo (writeClaimsSetMetadata prepared) =
        .ok (headers, metadataOf (writeClaimsSet prepared)) :=
    readStream_reads fits reads
  have notEmpty :
      (writeClaimsSetMetadata prepared).isEmpty = false :=
    object_not_empty (writeMetadata_extends (writeClaimsSet prepared))
  refine ⟨headers, ?_⟩
  unfold parseClaimsInfo
  rw [notEmpty, if_neg Bool.false_ne_true]
  change (readStream readClaimsInfo _ >>= _) = _
  rw [stream]
  change
    (parseClaimsSet (writeClaimsSet prepared) >>= fun set =>
      .ok (infoOf headers (writeClaimsSet prepared) set)) = _
  cases parseClaimsSet (writeClaimsSet prepared) <;> rfl

end

end IyaSts.Krb5PacClaims
