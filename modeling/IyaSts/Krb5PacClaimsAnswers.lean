import IyaSts.Krb5NdrAnswers
import IyaSts.Krb5PacClaims

namespace IyaSts.Krb5PacClaims

/-!
# What the readers of claims answer to their writers

The fixed parts come back as they are written, up to the width of their fields.
The referents come back unless a count or a string passes the reader's limit,
and an identifier loses the NULs at its end.
-/

open CursorCodec List
open Krb5Ndr

/-! ## Values -/

/-- Whether an integer is one of a signed or of an unsigned type. -/
def IsInteger (signed : Bool) (v : Int) : Prop :=
  if signed then
    -(2 ^ 63) ≤ v ∧ v < 2 ^ 63
  else
    0 ≤ v ∧ v < 2 ^ 64

/-- Whether normalised values are ones their type can hold. -/
def ClaimValues.Fit : ClaimValues → Prop
  | .int64 values => ∀ v ∈ values, IsInteger true v
  | .uint64 values => ∀ v ∈ values, IsInteger false v
  | .string values => ∀ v ∈ values, 0 ∉ v
  | .boolean _ => True

/-- The values as they are read. -/
def ClaimValues.read : ClaimValues → List ReadValue
  | .int64 values => values.map fun v => .text (decimal v)
  | .uint64 values => values.map fun v => .text (decimal v)
  | .string values => values.map .text
  | .boolean values => values.map .boolean

theorem writeU64_extends (big : Int) : Extends (writeU64 big) :=
  ((align_extends 8).andThen (u32_extends _)).andThen (u32_extends _)

/-- The integer that `u64Text` spells. -/
def u64Integer (signed : Bool) (lo hi : Nat) : Int :=
  let v : Int := hi * 2 ^ 32 + lo
  if signed && 0x80000000 ≤ hi then v - 2 ^ 64 else v

variable {signed : Bool} {big : Int} {claim : Claim} {array : ClaimsArray}
    {prepared : List ClaimsArray}

/-- The halves of an integer are put together again. -/
theorem u64Integer_halves (isInteger : IsInteger signed big) {u : Nat}
    (isUnsigned : u = (if big < 0 then big + 2 ^ 64 else big).toNat) :
    u64Integer signed (u % 2 ^ 32 % 2 ^ 32) (u / 2 ^ 32 % 2 ^ 32) = big := by
  cases signed with
  | true =>
    simp only [IsInteger, if_true] at isInteger
    simp only [u64Integer, Bool.true_and, decide_eq_true_eq]
    split at isUnsigned <;> split <;> omega
  | false =>
    simp only [IsInteger, Bool.false_eq_true, if_false] at isInteger
    simp only [u64Integer, Bool.false_and, Bool.false_eq_true, if_false]
    split at isUnsigned <;> omega

/-- An integer of a signed or of an unsigned type is read as itself. -/
theorem writeU64_reads (isInteger : IsInteger signed big) :
    Reads (writeU64 big)
      (do
        align 8
        u64Text signed)
      (some (decimal big)) := by
  let u := (if big < 0 then big + 2 ^ 64 else big).toNat
  have reads :
      Reads (writeU64 big)
        (do
          align 8
          u64Text signed)
        ((some ()).bind fun _ =>
          (some (u % 2 ^ 32 % 2 ^ 32)).bind fun lo =>
            (some (u / 2 ^ 32 % 2 ^ 32)).bind fun hi =>
              some (decimal (u64Integer signed lo hi))) :=
    (align_reads 8).bind
      ((u32_extends (u % 2 ^ 32)).andThen (u32_extends (u / 2 ^ 32)))
      fun _ _ =>
        (u32_reads (u % 2 ^ 32)).bind (u32_extends (u / 2 ^ 32)) fun lo _ =>
          (u32_reads (u / 2 ^ 32)).bind_read fun hi _ =>
            Answers.pure (decimal (u64Integer signed lo hi))
  simp only [Option.bind_some, u64Integer_halves isInteger (rfl : u = _)]
    at reads
  exact reads

/-- What reading a string with its terminator comes to. -/
def terminatedAnswer (s : Text) : Option Text :=
  if maxArrayElements < s.length + 1 then none else some (trimTrailingNuls s)

variable (s : Text) (values : ClaimValues) (claimId : Option Text)

/-- A terminated string is a string that ends with the terminator. -/
theorem writeTerminatedString_eq :
    writeTerminatedString s = writeUnicodeStringValue (some (s ++ [0])) := by
  funext w
  simp [writeTerminatedString, writeUnicodeStringValue, writeUnits, Writer.each, foldl_append]

theorem writeTerminatedString_extends : Extends (writeTerminatedString s) := by
  rw [writeTerminatedString_eq]
  exact writeUnicodeStringValue_extends _

theorem trimTrailingNuls_terminated :
    trimTrailingNuls (s ++ [0]) = trimTrailingNuls s := by
  rw [trimTrailingNuls, rdropWhile_concat_pos _ _ _ (by decide), trimTrailingNuls]

theorem writeTerminatedString_reads (what : String) :
    Reads (writeTerminatedString s) (readTerminatedString what) (terminatedAnswer s) := by
  have reads :
      Reads (writeUnicodeStringValue (some (s ++ [0])))
        (readTerminatedString what)
        (((stringAnswer (s ++ [0])).map some).bind id) := by
    refine (writeUnicodeStringValue_reads (s ++ [0])).bind_read fun value isAnswer => ?_
    cases value with
    | none => simp at isAnswer
    | some value => exact Answers.pure value
  have answer : ((stringAnswer (s ++ [0])).map some).bind id = terminatedAnswer s := by
    rw [Option.bind_id_eq_join, stringAnswer, terminatedAnswer, length_append,
      length_singleton, trimTrailingNuls_terminated]
    split <;> rfl
  rwa [answer, ← writeTerminatedString_eq] at reads

/-- What reading a claim's values comes to. -/
def valuesAnswer : ClaimValues → Option (List ReadValue)
  | .string values => values.mapM fun s => (terminatedAnswer s).map .text
  | values => some values.read

theorem writeValues_extends : Extends (writeValues values) := by
  cases values with
  | int64 values => exact each_extends fun v _ => writeU64_extends v
  | uint64 values => exact each_extends fun v _ => writeU64_extends v
  | string values =>
    exact
      (each_extends fun _ _ => pointer_extends true).andThen
        (each_extends fun s _ => writeTerminatedString_extends s)
  | boolean values => exact each_extends fun b _ => writeU64_extends (if b then 1 else 0)

/-- String values are read one by one. -/
theorem writeStrings_reads (id : Option Text) (values : List Text) :
    Reads (writeValues (.string values))
      (readValues id CLAIM_TYPE.string values.length)
      (valuesAnswer (.string values)) := by
  have pointers :
      Reads (fun w => w.each values fun _ w => w.pointer true)
        ((List.range values.length).mapM fun _ => pointer)
        (some (values.map fun _ => true)) :=
    Answers.each_range fun _ _ => pointer_reads true
  have strings :
      Reads (fun w => w.each values writeTerminatedString)
        ((values.map fun _ => true).mapM fun p =>
          if p then
            readTerminatedString "a claim value" >>= fun value => pure (ReadValue.text value)
          else
            pure ReadValue.missing)
        (valuesAnswer (.string values)) := by
    apply Answers.each_map
    intro s _
    rw [if_pos rfl, Option.map_eq_bind]
    exact
      (writeTerminatedString_reads s "a claim value").bind_read
        fun value _ => Answers.pure (ReadValue.text value)
  have both :
      Reads (writeValues (.string values))
        (readValues id CLAIM_TYPE.string values.length)
        ((some (values.map fun _ => true)).bind fun _ =>
          valuesAnswer (.string values)) := by
    refine pointers.bind strings.appends fun present isPresent => ?_
    cases isPresent
    exact strings
  exact both

/-- Integers of either type are read one by one, and so are Booleans. -/
theorem writeIntegers_reads {ι : Type} (signed : Bool) (integer : ι → Int) (value : ι → ReadValue)
    (readAs : Text → ReadValue) {values : List ι}
    (areIntegers : ∀ v ∈ values, IsInteger signed (integer v))
    (readsAs : ∀ v ∈ values, readAs (decimal (integer v)) = value v) :
    Reads (fun w => w.each values fun v w => writeU64 (integer v) w)
      ((List.range values.length).mapM fun _ => do
        align 8
        let text ← u64Text signed
        pure (readAs text))
      (some (values.map value)) := by
  apply Answers.each_range
  intro v isValue
  have reads :
      Reads (writeU64 (integer v))
        ((do
          align 8
          u64Text signed) >>= fun text => pure (readAs text))
        ((some (decimal (integer v))).bind fun text =>
          some (readAs text)) :=
    (writeU64_reads (areIntegers v isValue)).bind_read fun text _ => Answers.pure (readAs text)
  rw [Option.bind_some, readsAs v isValue, bind_assoc] at reads
  exact reads

/-- The values of a claim are read as their answer. -/
theorem writeValues_reads {values : ClaimValues} (fit : values.Fit) :
    Reads (writeValues values)
    (readValues claimId values.type values.length)
    (valuesAnswer values) := by
  cases values with
  | int64 values =>
    exact writeIntegers_reads true id (fun v => .text (decimal v)) ReadValue.text fit fun v _ => rfl
  | uint64 values =>
    exact writeIntegers_reads false id (fun v => .text (decimal v))
      ReadValue.text fit fun v _ => rfl
  | string values => exact writeStrings_reads claimId values
  | boolean values =>
    have areIntegers : ∀ b ∈ values, IsInteger false (if b then 1 else 0 : Int) := by
      intro b _
      cases b <;> simp [IsInteger]
    have readsAs :
        ∀ b ∈ values,
          ReadValue.boolean
              (decimal (if b then 1 else 0 : Int) != ascii "0") =
            ReadValue.boolean b := by
      intro b _
      cases b <;> decide
    have reads :=
      writeIntegers_reads false (fun b : Bool => (if b then 1 else 0 : Int))
        ReadValue.boolean
        (fun text => ReadValue.boolean (text != ascii "0"))
        areIntegers readsAs
    exact reads

theorem writeU64_grows (big : Int) (w : Writer) :
    w.bytes.length + 1 ≤ (writeU64 big w).bytes.length :=
  (Nat.succ_le_succ (align_extends 8 w).length_le).trans
    ((u32_grows _ (w.align 8)).trans (u32_extends _ _).length_le)

/-- Every value takes an octet at least. -/
theorem writeValues_grows (w : Writer) :
    w.bytes.length + values.length ≤ (writeValues values w).bytes.length := by
  cases values with
  | int64 values => exact each_grows writeU64_grows values w
  | uint64 values => exact each_grows writeU64_grows values w
  | string values =>
    exact
      (each_grows (fun (_ : Text) => pointer_grows true) values w).trans
        (each_extends (fun s _ => writeTerminatedString_extends s) _).length_le
  | boolean values =>
    exact each_grows (fun (b : Bool) => writeU64_grows (if b then 1 else 0)) values w

/-! ## Entries -/

/-- The fixed part an entry is read as. -/
def entryOf (claim : Claim) : FixedEntry where
  idPresent := true
  type := claim.values.type
  valueCount := claim.values.length % 2 ^ 32
  valuesPresent := true

theorem ClaimValues.type_lt : values.type < 2 ^ 16 := by
  cases values <;>
    simp [ClaimValues.type, CLAIM_TYPE.int64, CLAIM_TYPE.uint64,
      CLAIM_TYPE.string, CLAIM_TYPE.boolean]

theorem writeEntry_extends (claim : Claim) : Extends (writeEntry claim) :=
  ((((pointer_extends true).andThen (u16_extends _)).andThen
    (u16_extends _)).andThen (u32_extends _)).andThen (pointer_extends true)

theorem writeEntry_grows (claim : Claim) (w : Writer) :
    w.bytes.length + 1 ≤ (writeEntry claim w).bytes.length :=
  (pointer_grows true w).trans
    (((((u16_extends _).andThen (u16_extends _)).andThen
      (u32_extends _)).andThen (pointer_extends true)) _).length_le

/-- The end of an entry's fixed part. -/
def writeEntryEnd (claim : Claim) (w : Writer) : Writer := (w.u32 claim.values.length).pointer true

/-- The end of an entry's fixed part. -/
def readEntryEnd (idPresent : Bool) (type : Nat) : NdrReading FixedEntry := do
  let valueCount ← u32
  let valuesPresent ← pointer
  pure { idPresent, type, valueCount, valuesPresent }

theorem writeEntry_reads (claim : Claim) :
    Reads (writeEntry claim) readEntry (some (entryOf claim)) := by
  have isType : claim.values.type % 2 ^ 16 = claim.values.type :=
    Nat.mod_eq_of_lt claim.values.type_lt
  have endReads :
      Reads (writeEntryEnd claim) (readEntryEnd true claim.values.type) (some (entryOf claim)) :=
    (u32_reads claim.values.length).andThen (Writer.pointer true)
      ((pointer_reads true).andRead (Answers.pure (entryOf claim)))
  have typeReads := u16_reads claim.values.type
  rw [isType] at typeReads
  exact
    (pointer_reads true).andThen
      (fun w => writeEntryEnd claim ((w.u16 claim.values.type).u16 claim.values.type))
      (typeReads.andThen
        (fun w => writeEntryEnd claim (w.u16 claim.values.type))
        (typeReads.andThen (writeEntryEnd claim) (endReads.checked (not_not_intro rfl))))

/-- What reading an entry's referents comes to. -/
def claimAnswer (claim : Claim) : Option ReadClaim :=
  (terminatedAnswer claim.id).bind fun id =>
    (if maxArrayElements < claim.values.length then
      none
    else
      valuesAnswer claim.values).map fun values => {
        id := some id
        type := claim.values.type
        typeName := claimTypeName claim.values.type
        values := values
      }

theorem writeReferents_extends (claim : Claim) : Extends (writeReferents claim) :=
  ((writeTerminatedString_extends claim.id).andThen (u32_extends _)).andThen
    (writeValues_extends claim.values)

/-- The values' count and the values. -/
def writeCounted (values : ClaimValues) (w : Writer) : Writer :=
  writeValues values (w.u32 values.length)

theorem writeCounted_extends : Extends (writeCounted values) :=
  (u32_extends _).andThen (writeValues_extends values)

/-- A claim's values are read unless they are too many. -/
theorem writeCounted_reads (fit : claim.values.Fit) :
    Reads (writeCounted claim.values)
    (readCounted claimId (entryOf claim))
    (if maxArrayElements < claim.values.length then
        none
      else
        valuesAnswer claim.values) := by
  refine Answers.of_short (writeCounted_extends claim.values) fun w short => ?_
  have isWord : claim.values.length < 2 ^ 32 := by
    have total := length_added (writeCounted_extends claim.values) w
    have grown := writeValues_grows claim.values (w.u32 claim.values.length)
    have counted := u32_grows claim.values.length w
    rw [writeCounted] at total
    simp only [maxNdrBytes] at short
    omega
  have reads :
      Reads (writeCounted claim.values)
        (readCounted claimId (entryOf claim))
        ((if maxArrayElements < claim.values.length then
            none
          else
            some claim.values.length).bind fun _ =>
              valuesAnswer claim.values) := by
    refine
      (arrayCount_reads "claim value(s)" isWord).bind
        (writeValues_extends claim.values) fun vn isCount => ?_
    split at isCount
    · cases isCount
    cases isCount
    have sameCount :
        ¬ claim.values.length ≠ (entryOf claim).valueCount :=
      not_not_intro (Nat.mod_eq_of_lt isWord).symm
    exact (writeValues_reads claimId fit).checked sameCount
  by_cases limit : maxArrayElements < claim.values.length
  · rw [if_pos limit] at reads ⊢
    exact reads
  · rw [if_neg limit] at reads ⊢
    exact reads

/-- An entry's referents are read as their answer. -/
theorem writeReferents_reads (fit : claim.values.Fit) :
    Reads (writeReferents claim) (readReferents (entryOf claim)) (claimAnswer claim) := by
  have ids :
      Reads (writeTerminatedString claim.id) (readId (entryOf claim))
        ((terminatedAnswer claim.id).bind fun id => some (some id)) :=
    (writeTerminatedString_reads claim.id "a claim id").bind_read fun id _ => Answers.pure (some id)
  have reads :
      Reads (writeReferents claim) (readReferents (entryOf claim))
        (((terminatedAnswer claim.id).bind fun id => some (some id)).bind
          fun id =>
            (if maxArrayElements < claim.values.length then
              none
            else
              valuesAnswer claim.values).bind fun values =>
                some {
                  id := id
                  type := claim.values.type
                  typeName := claimTypeName claim.values.type
                  values := values
                }) :=
    ids.bind (writeCounted_extends claim.values) fun id _ =>
      (writeCounted_reads id fit).bind_read fun values _ =>
        Answers.pure (ReadClaim.mk id claim.values.type (claimTypeName claim.values.type) values)
  rw [claimAnswer]
  simp only [Option.map_eq_bind]
  rw [Option.bind_assoc] at reads
  exact reads

/-! ## Arrays -/

/-- The fixed part an array is read as. -/
def arrayOf (array : ClaimsArray) : FixedArray where
  sourceType := array.sourceType % 2 ^ 16
  claimsCount := array.claims.length % 2 ^ 32
  present := !array.claims.isEmpty

theorem writeArray_extends (array : ClaimsArray) : Extends (writeArray array) :=
  ((u16_extends _).andThen (u32_extends _)).andThen (pointer_extends _)

theorem writeArray_grows (array : ClaimsArray) (w : Writer) :
    w.bytes.length + 1 ≤ (writeArray array w).bytes.length :=
  (u16_grows _ w).trans (((u32_extends _).andThen (pointer_extends _)) _).length_le

theorem writeArray_reads (array : ClaimsArray) :
    Reads (writeArray array) readArray (some (arrayOf array)) :=
  (u16_reads array.sourceType).andThen
    (fun w => (w.u32 array.claims.length).pointer !array.claims.isEmpty)
    ((u32_reads array.claims.length).andThen
      (Writer.pointer !array.claims.isEmpty)
      ((pointer_reads !array.claims.isEmpty).andRead (Answers.pure (arrayOf array))))

/-- What reading the claims of an array comes to. -/
def claimsAnswer (claims : List Claim) : Option (List ReadClaim) :=
  if maxArrayElements < claims.length then none else claims.mapM claimAnswer

/-- What reading an array's entries comes to. -/
def arrayAnswer (array : ClaimsArray) : Option ReadArray :=
  (claimsAnswer array.claims).map fun claims => {
    sourceType := array.sourceType % 2 ^ 16
    sourceTypeName := claimsSourceTypeName (array.sourceType % 2 ^ 16)
    claimsCount := array.claims.length % 2 ^ 32
    claims := claims
  }

/-- The claims of an array that has some. -/
def writeClaims (claims : List Claim) (w : Writer) : Writer :=
  ((w.u32 claims.length).each claims writeEntry).each claims writeReferents

theorem writeClaims_extends (claims : List Claim) : Extends (writeClaims claims) :=
  ((u32_extends _).andThen
    (each_extends fun claim _ => writeEntry_extends claim)).andThen
      (each_extends fun claim _ => writeReferents_extends claim)

theorem writeEntries_extends (array : ClaimsArray) : Extends (writeEntries array) := by
  unfold writeEntries
  split
  · exact Appends.refl
  · exact writeClaims_extends array.claims

/-- As many entries as are counted, then as many referents. -/
theorem writeClaims_reads (fit : ∀ claim ∈ array.claims, claim.values.Fit) :
    Reads (writeClaims array.claims) (readClaims (arrayOf array)) (claimsAnswer array.claims) := by
  refine Answers.of_short (writeClaims_extends array.claims) fun w short => ?_
  have entriesExtend : Extends (fun w => w.each array.claims writeEntry) :=
    each_extends fun claim _ => writeEntry_extends claim
  have referentsExtend :
      Extends (fun w => w.each array.claims writeReferents) :=
    each_extends fun claim _ => writeReferents_extends claim
  have isWord : array.claims.length < 2 ^ 32 := by
    have total := length_added (writeClaims_extends array.claims) w
    have counted := u32_grows array.claims.length w
    have entries := each_grows writeEntry_grows array.claims (w.u32 array.claims.length)
    have referents :
        ((w.u32 array.claims.length).each array.claims
            writeEntry).bytes.length ≤
          (writeClaims array.claims w).bytes.length :=
      (referentsExtend _).length_le
    simp only [maxNdrBytes] at short
    omega
  have entries :
      Reads (fun w => w.each array.claims writeEntry)
        ((List.range array.claims.length).mapM fun _ => readEntry)
        (some (array.claims.map entryOf)) :=
    Answers.each_range fun claim _ => writeEntry_reads claim
  have referents :
      Reads (fun w => w.each array.claims writeReferents)
        ((array.claims.map entryOf).mapM readReferents)
        (array.claims.mapM claimAnswer) :=
    Answers.each_map fun claim isClaim => writeReferents_reads (fit claim isClaim)
  have reads :
      Reads (writeClaims array.claims) (readClaims (arrayOf array))
        ((if maxArrayElements < array.claims.length then
            none
          else
            some array.claims.length).bind fun _ =>
              array.claims.mapM claimAnswer) := by
    refine
      (arrayCount_reads "claim entr(ies)" isWord).bind
        (entriesExtend.andThen referentsExtend) fun n isCount => ?_
    split at isCount
    · cases isCount
    cases isCount
    have sameCount :
        ¬ array.claims.length ≠ (arrayOf array).claimsCount :=
      not_not_intro (Nat.mod_eq_of_lt isWord).symm
    exact
      (entries.andThen (fun w => w.each array.claims writeReferents) referents).checked sameCount
  rw [claimsAnswer]
  by_cases limit : maxArrayElements < array.claims.length
  · rw [if_pos limit] at reads ⊢
    exact reads
  · rw [if_neg limit] at reads ⊢
    exact reads

/-- An array's entries are read as their answer. -/
theorem writeEntries_reads (fit : ∀ claim ∈ array.claims, claim.values.Fit) :
    Reads (writeEntries array) (readEntries (arrayOf array)) (arrayAnswer array) := by
  have claims :
      Reads (writeEntries array)
        ((if (arrayOf array).present then readClaims else readNoClaims) (arrayOf array))
        (claimsAnswer array.claims) := by
    cases none_ : array.claims.isEmpty with
    | true =>
      have noClaims : array.claims = [] := isEmpty_iff.mp none_
      have isWrite : writeEntries array = id := by
        funext w
        rw [writeEntries, if_pos none_]
        rfl
      have isAbsent : (arrayOf array).present = false := by simp [arrayOf, none_]
      have noneCounted : ¬ (arrayOf array).claimsCount ≠ 0 := by simp [arrayOf, noClaims]
      rw [isWrite, isAbsent, if_neg Bool.false_ne_true, readNoClaims, noClaims]
      exact Answers.checked noneCounted (Answers.pure [])
    | false =>
      have isWrite : writeEntries array = writeClaims array.claims := by
        funext w
        rw [writeEntries, none_, if_neg Bool.false_ne_true, writeClaims]
      have isPresent : (arrayOf array).present = true := by simp [arrayOf, none_]
      rw [isWrite, isPresent, if_pos rfl]
      exact writeClaims_reads fit
  rw [arrayAnswer, Option.map_eq_bind]
  exact claims.bind_read fun claims _ =>
    Answers.pure {
      sourceType := (arrayOf array).sourceType
      sourceTypeName := claimsSourceTypeName (arrayOf array).sourceType
      claimsCount := (arrayOf array).claimsCount
      claims := claims : ReadArray
    }

/-! ## Sets -/

/-- The fixed part a set is read as. -/
def setHeaderOf (prepared : List ClaimsArray) : SetHeader where
  arrayCount := prepared.length % 2 ^ 32
  arraysPresent := !prepared.isEmpty
  reservedType := 0
  reservedFieldSize := 0
  reservedPresent := false

/-- What reading the arrays of a set comes to. -/
def arraysAnswer (prepared : List ClaimsArray) : Option (List ReadArray) :=
  if maxArrayElements < prepared.length then
    none
  else
    prepared.mapM arrayAnswer

theorem writeSetHeader_extends (prepared : List ClaimsArray) : Extends (writeSetHeader prepared) :=
  (((((pointer_extends true).andThen (u32_extends _)).andThen
    (pointer_extends _)).andThen (u16_extends 0)).andThen
      (u32_extends 0)).andThen (pointer_extends false)

/-- The fixed part of a set is read as it is written. -/
theorem writeSetHeader_reads (prepared : List ClaimsArray) :
    Reads (writeSetHeader prepared) readSetHeader (some (setHeaderOf prepared)) := by
  have fields :
      Reads
        (fun w =>
          (((((w.u32 prepared.length).pointer !prepared.isEmpty).u16 0).u32 0).pointer false))
        readSetFields
        (some (setHeaderOf prepared)) :=
    (u32_reads prepared.length).andThen
      (fun w => ((((w.pointer !prepared.isEmpty).u16 0).u32 0).pointer false))
      ((pointer_reads !prepared.isEmpty).andThen
        (fun w => ((w.u16 0).u32 0).pointer false)
        ((u16_reads 0).andThen (fun w => (w.u32 0).pointer false)
          ((u32_reads 0).andThen (Writer.pointer false)
            ((pointer_reads false).andRead (Answers.pure (setHeaderOf prepared))))))
  exact
    (pointer_reads true).andThen
      (fun w => (((((w.u32 prepared.length).pointer !prepared.isEmpty).u16 0).u32 0).pointer false))
      (fields.checked (by decide))

/-- The arrays of a set that has some. -/
def writeDeclaredArrays (prepared : List ClaimsArray) (w : Writer) : Writer :=
  ((w.u32 prepared.length).each prepared writeArray).each prepared writeEntries

theorem writeDeclaredArrays_extends (prepared : List ClaimsArray) :
    Extends (writeDeclaredArrays prepared) :=
  ((u32_extends _).andThen
    (each_extends fun array _ => writeArray_extends array)).andThen
      (each_extends fun array _ => writeEntries_extends array)

theorem writeArrays_extends (prepared : List ClaimsArray) : Extends (writeArrays prepared) := by
  unfold writeArrays
  split
  · exact Appends.refl
  · exact writeDeclaredArrays_extends prepared

/-- Whether every claim's values are ones their type can hold. -/
def Fit (prepared : List ClaimsArray) : Prop :=
  ∀ array ∈ prepared, ∀ claim ∈ array.claims, claim.values.Fit

/-- As many arrays as are counted, then the entries of each. -/
theorem writeDeclaredArrays_reads (fit : Fit prepared) :
    Reads (writeDeclaredArrays prepared)
      (readDeclaredArrays (prepared.length % 2 ^ 32))
      (arraysAnswer prepared) := by
  refine Answers.of_short (writeDeclaredArrays_extends prepared) fun w short => ?_
  have arraysExtend : Extends (fun w => w.each prepared writeArray) :=
    each_extends fun array _ => writeArray_extends array
  have entriesExtend : Extends (fun w => w.each prepared writeEntries) :=
    each_extends fun array _ => writeEntries_extends array
  have isWord : prepared.length < 2 ^ 32 := by
    have total := length_added (writeDeclaredArrays_extends prepared) w
    have counted := u32_grows prepared.length w
    have arrays := each_grows writeArray_grows prepared (w.u32 prepared.length)
    have entries :
        ((w.u32 prepared.length).each prepared writeArray).bytes.length ≤
          (writeDeclaredArrays prepared w).bytes.length :=
      (entriesExtend _).length_le
    simp only [maxNdrBytes] at short
    omega
  have arrays :
      Reads (fun w => w.each prepared writeArray)
        ((List.range prepared.length).mapM fun _ => readArray)
        (some (prepared.map arrayOf)) :=
    Answers.each_range fun array _ => writeArray_reads array
  have entries :
      Reads (fun w => w.each prepared writeEntries)
        ((prepared.map arrayOf).mapM readEntries)
        (prepared.mapM arrayAnswer) :=
    Answers.each_map fun array isArray => writeEntries_reads (fit array isArray)
  have reads :
      Reads (writeDeclaredArrays prepared)
        (readDeclaredArrays (prepared.length % 2 ^ 32))
        ((if maxArrayElements < prepared.length then
            none
          else
            some prepared.length).bind fun _ =>
              prepared.mapM arrayAnswer) := by
    refine
      (arrayCount_reads "claims array(s)" isWord).bind
        (arraysExtend.andThen entriesExtend) fun declared isCount => ?_
    split at isCount
    · cases isCount
    cases isCount
    have sameCount : ¬ prepared.length ≠ prepared.length % 2 ^ 32 :=
      not_not_intro (Nat.mod_eq_of_lt isWord).symm
    exact (arrays.andThen (fun w => w.each prepared writeEntries) entries).checked sameCount
  rw [arraysAnswer]
  by_cases limit : maxArrayElements < prepared.length
  · rw [if_pos limit] at reads ⊢
    exact reads
  · rw [if_neg limit] at reads ⊢
    exact reads

/-- The arrays of a set are read as their answer. -/
theorem writeArrays_reads (fit : Fit prepared) :
    Reads (writeArrays prepared)
      (readArrays (setHeaderOf prepared).arrayCount
        (setHeaderOf prepared).arraysPresent)
      (arraysAnswer prepared) := by
  cases none_ : prepared.isEmpty with
  | true =>
    have noArrays : prepared = [] := isEmpty_iff.mp none_
    subst noArrays
    exact Answers.pure []
  | false =>
    have isWrite : writeArrays prepared = writeDeclaredArrays prepared := by
      funext w
      rw [writeArrays, none_, if_neg Bool.false_ne_true, writeDeclaredArrays]
    have isPresent : (setHeaderOf prepared).arraysPresent = true := by simp [setHeaderOf, none_]
    rw [isWrite, isPresent, readArrays, if_pos rfl]
    exact writeDeclaredArrays_reads fit

/-- The header and the arrays of a set. -/
def writeSet (prepared : List ClaimsArray) (w : Writer) : Writer :=
  writeArrays prepared (writeSetHeader prepared w)

/-- A set is read as its header and its arrays' answer. -/
theorem writeSet_reads (fit : Fit prepared) :
    Reads (writeSet prepared) readSet
      ((arraysAnswer prepared).map fun arrays =>
        (setHeaderOf prepared, arrays, none)) := by
  have noReserved :
      Reads id (readReservedField (setHeaderOf prepared).reservedPresent) (some none) :=
    Answers.pure none
  rw [Option.map_eq_bind]
  exact
    (writeSetHeader_reads prepared).andThen (writeArrays prepared)
      ((writeArrays_reads fit).bind_read fun arrays _ =>
        noReserved.andRead (Answers.pure (setHeaderOf prepared, arrays, none)))

end IyaSts.Krb5PacClaims
