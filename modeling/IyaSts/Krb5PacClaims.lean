import IyaSts.Krb5Ndr

namespace IyaSts.Krb5PacClaims

/-!
# The claims and the delegation information of a Kerberos PAC

A claims set is arrays of claims, each claim an identifier and values of one of
four types, written as NDR inside its own header.  The writer checks the values;
the limits on counts and lengths are the reader's.
-/

open CursorCodec
open Krb5Ndr

/-- Text as it is shown in a message, a code unit that is half a pair by
itself. -/
def shown (text : Text) : String := String.ofList (text.map fun unit => Char.ofNat unit.toNat)

/-- A number in decimal. -/
def decimal (v : Int) : Text := (toString v).toList.map fun char => UInt16.ofNat char.toNat

/-! ## What is to be written -/

namespace CLAIM_TYPE

def int64 : Nat := 1
def uint64 : Nat := 2
def string : Nat := 3
def boolean : Nat := 6

end CLAIM_TYPE

/-- `CLAIM_TYPE_NAMES`. -/
def claimTypeNames (t : Nat) : Option String :=
  match t with
  | 1 => some "INT64"
  | 2 => some "UINT64"
  | 3 => some "STRING"
  | 6 => some "BOOLEAN"
  | _ => none

/-- `claimTypeName`. -/
def claimTypeName (t : Nat) : String := (claimTypeNames t).getD s!"claim type {t}"

/-- A value a caller states for a claim.  A number is given with the text it is
spelled as and the integer it is, when it is one. -/
inductive StatedValue where
  | missing (spelled : Text)
  | boolean (value : Bool)
  | number (spelled : Text) (whole : Option Int)
  | bigint (value : Int)
  | text (value : Text)
  | other (spelled : Text)

/-- The code units of a text of ASCII characters. -/
def ascii (text : String) : Text := text.toList.map fun char => UInt16.ofNat char.toNat

/-- `String(value)`. -/
def StatedValue.spelled : StatedValue → Text
  | .missing spelled => spelled
  | .boolean value => ascii (if value then "true" else "false")
  | .number spelled _ => spelled
  | .bigint value => decimal value
  | .text value => value
  | .other spelled => spelled

/-- A claim a caller states.  The identifier is nothing where it is no string. -/
structure StatedClaim where
  id : Option Text
  type : Nat
  values : List StatedValue

/-- An array of claims a caller states. -/
structure StatedArray where
  sourceType : Option Nat
  claims : List StatedClaim

/-! ## What is written -/

/-- The values of one claim, normalised. -/
inductive ClaimValues where
  | int64 (values : List Int)
  | uint64 (values : List Int)
  | string (values : List Text)
  | boolean (values : List Bool)
  deriving DecidableEq

/-- The `type` of a claim with these values. -/
def ClaimValues.type : ClaimValues → Nat
  | .int64 _ => CLAIM_TYPE.int64
  | .uint64 _ => CLAIM_TYPE.uint64
  | .string _ => CLAIM_TYPE.string
  | .boolean _ => CLAIM_TYPE.boolean

/-- The number of values. -/
def ClaimValues.length : ClaimValues → Nat
  | .int64 values => values.length
  | .uint64 values => values.length
  | .string values => values.length
  | .boolean values => values.length

/-- A claim that is written. -/
structure Claim where
  id : Text
  values : ClaimValues
  deriving DecidableEq

/-- An array of claims that is written. -/
structure ClaimsArray where
  sourceType : Nat
  claims : List Claim
  deriving DecidableEq

/-! ## `claimValuesFor` -/

/-- What is taken for white space. -/
def isWhitespace (unit : UInt16) : Bool :=
  unit.toNat ∈ [0x09, 0x0a, 0x0b, 0x0c, 0x0d, 0x20, 0xa0, 0x1680, 0x2028,
      0x2029, 0x202f, 0x205f, 0x3000, 0xfeff] ∨
    (0x2000 ≤ unit.toNat ∧ unit.toNat ≤ 0x200a)

/-- `text.trim()`. -/
def trim (text : Text) : Text := (text.dropWhile isWhitespace).rdropWhile isWhitespace

/-- A decimal digit's value. -/
def digit (unit : UInt16) : Option Nat :=
  if 0x30 ≤ unit.toNat ∧ unit.toNat ≤ 0x39 then
    some (unit.toNat - 0x30)
  else
    none

/-- The number of `/^\d+$/`. -/
def natural (text : Text) : Option Nat :=
  if text.isEmpty then
    none
  else
    text.foldl
      (fun number unit => do
        let number ← number
        let digit ← digit unit
        pure (number * 10 + digit))
      (some 0)

/-- `BigInt(text)` of `/^-?\d+$/`. -/
def bigInt (text : Text) : Option Int :=
  match text with
  | 0x2d :: digits => (natural digits).map fun number => -(number : Int)
  | digits => (natural digits).map fun number => (number : Int)

/-- The smallest and the largest value of an integer type. -/
def claimRange (type : Nat) : Int × Int :=
  if type = CLAIM_TYPE.int64 then
    (-(2 ^ 63), 2 ^ 63 - 1)
  else
    (0, 2 ^ 64 - 1)

/-- The integer a stated value is, or what is wrong with it. -/
def integerOf : StatedValue → Except String Int
  | .bigint value => .ok value
  | .number _ (some whole) => .ok whole
  | .number _ none => .error "not an integer"
  | value =>
    match bigInt (trim value.spelled) with
    | some number => .ok number
    | none => .error "not a decimal integer"

/-- `claimBigInt`. -/
def claimBigInt (value : StatedValue) (type : Nat) (id : Text) : Except String Int :=
  match integerOf value with
  | .error message =>
    .error ("krb5: the claim " ++ shown id ++ " has the value '" ++
      shown value.spelled ++ "', which is not a " ++ claimTypeName type ++
      ": " ++ message)
  | .ok v =>
    if v < (claimRange type).1 ∨ (claimRange type).2 < v then
      .error ("krb5: the claim " ++ shown id ++ " has the value " ++
        toString v ++ ", which is outside the range of a " ++
        claimTypeName type)
    else
      .ok v

/-- A value of a string claim. -/
def claimString (id : Text) (value : StatedValue) : Except String Text :=
  match value with
  | .missing _ => .error ("krb5: the claim " ++ shown id ++ " has an empty string value")
  | value =>
    if value.spelled.contains 0 then
      .error ("krb5: the claim " ++ shown id ++ " has a value containing " ++
        "NUL, which a [string] LPWSTR cannot carry")
    else
      .ok value.spelled

/-- The Boolean a stated value is, where it is one. -/
def booleanOf : StatedValue → Option Bool
  | .boolean value => some value
  | .text value =>
    if value = ascii "true" ∨ value = ascii "1" then
      some true
    else if value = ascii "false" ∨ value = ascii "0" then
      some false
    else
      none
  | .number _ (some 1) => some true
  | .number _ (some 0) => some false
  | _ => none

/-- A value of a Boolean claim. -/
def claimBoolean (id : Text) (value : StatedValue) : Except String Bool :=
  match booleanOf value with
  | some truth => .ok truth
  | none =>
    .error ("krb5: the claim " ++ shown id ++ " has the value '" ++
      shown value.spelled ++ "', which is not a BOOLEAN")

/-- `claimValuesFor`, of a claim whose type is one of the four. -/
def claimValuesFor (id : Text) (type : Nat) (values : List StatedValue) :
    Except String ClaimValues :=
  if values.isEmpty then
    .error ("krb5: the claim " ++ shown id ++ " has no values; [MS-ADTS] " ++
      "2.2.18.4 requires at least one")
  else if type = CLAIM_TYPE.string then
    (values.mapM (claimString id)).map .string
  else if type = CLAIM_TYPE.boolean then
    (values.mapM (claimBoolean id)).map .boolean
  else if type = CLAIM_TYPE.int64 then
    (values.mapM fun value => claimBigInt value type id).map .int64
  else
    (values.mapM fun value => claimBigInt value type id).map .uint64

/-- One claim, validated. -/
def prepareClaim (claim : StatedClaim) : Except String Claim :=
  match claim.id with
  | none => .error "krb5: a claim with no id"
  | some id =>
    if id.isEmpty then
      .error "krb5: a claim with no id"
    else if (claimTypeNames claim.type).isNone then
      .error ("krb5: the claim " ++ shown id ++ " has the type " ++
        toString claim.type ++ ", which is not one of INT64 (1), UINT64 " ++
        "(2), STRING (3) or BOOLEAN (6)")
    else
      (claimValuesFor id claim.type claim.values).map fun values =>
        { id, values }

/-- The arrays, validated and normalised up front. -/
def prepare (arrays : List StatedArray) : Except String (List ClaimsArray) :=
  arrays.mapM fun array => do
    let claims ← array.claims.mapM prepareClaim
    pure { sourceType := array.sourceType.getD 1, claims := claims }

/-! ## Writing -/

/-- `writeU64`. -/
def writeU64 (big : Int) (w : Writer) : Writer :=
  let u := (if big < 0 then big + 2 ^ 64 else big).toNat
  ((w.align 8).u32 (u % 2 ^ 32)).u32 (u / 2 ^ 32)

/-- `writeTerminatedString`. -/
def writeTerminatedString (s : Text) (w : Writer) : Writer :=
  (writeUnits s (((w.u32 (s.length + 1)).u32 0).u32 (s.length + 1))).u16 0

/-- The values of a claim, in the deferred half. -/
def writeValues (values : ClaimValues) (w : Writer) : Writer :=
  match values with
  | .string values => (w.each values fun _ w => w.pointer true).each values writeTerminatedString
  | .boolean values => w.each values fun b w => writeU64 (if b then 1 else 0) w
  | .int64 values => w.each values writeU64
  | .uint64 values => w.each values writeU64

/-- The fixed part of an entry. -/
def writeEntry (claim : Claim) (w : Writer) : Writer :=
  ((((w.pointer true).u16 claim.values.type).u16 claim.values.type).u32
    claim.values.length).pointer true

/-- The referents of an entry. -/
def writeReferents (claim : Claim) (w : Writer) : Writer :=
  writeValues claim.values ((writeTerminatedString claim.id w).u32 claim.values.length)

/-- The fixed part of an array. -/
def writeArray (array : ClaimsArray) (w : Writer) : Writer :=
  ((w.u16 array.sourceType).u32 array.claims.length).pointer !array.claims.isEmpty

/-- The entries of an array. -/
def writeEntries (array : ClaimsArray) (w : Writer) : Writer :=
  if array.claims.isEmpty then
    w
  else
    ((w.u32 array.claims.length).each array.claims writeEntry).each array.claims writeReferents

/-- The arrays of a set. -/
def writeArrays (prepared : List ClaimsArray) (w : Writer) : Writer :=
  if prepared.isEmpty then
    w
  else
    ((w.u32 prepared.length).each prepared writeArray).each prepared writeEntries

/-- The fixed part of a set. -/
def writeSetHeader (prepared : List ClaimsArray) (w : Writer) : Writer :=
  (((((w.pointer true).u32 prepared.length).pointer !prepared.isEmpty).u16 0).u32 0).pointer false

/-- `encodeClaimsSet` of what was prepared. -/
def writeClaimsSet (prepared : List ClaimsArray) : Buffer :=
  let w := writeTypeMarshallingHeaders createWriter
  finishObject w.bytes.length (writeArrays prepared (writeSetHeader prepared w))

/-- The fields of the metadata around a set's octets. -/
def writeMetadata (inner : Buffer) (w : Writer) : Writer :=
  (((((((((w.pointer true).u32 inner.length).pointer true).u16 0).u32
    inner.length).u16 0).u32 0).pointer false).u32 inner.length).push inner

/-- `encodeClaimsSetMetadata` of what was prepared. -/
def writeClaimsSetMetadata (prepared : List ClaimsArray) : Buffer :=
  let w := writeTypeMarshallingHeaders createWriter
  finishObject w.bytes.length (writeMetadata (writeClaimsSet prepared) w)

/-- `encodeClaimsSetMetadata`. -/
def encodeClaimsSetMetadata (arrays : List StatedArray) : Except String Buffer :=
  (prepare arrays).map writeClaimsSetMetadata

/-! ## Reading -/

/-- A value that was read. -/
inductive ReadValue where
  | missing
  | text (value : Text)
  | boolean (value : Bool)
  deriving DecidableEq

/-- A claim that was read. -/
structure ReadClaim where
  id : Option Text
  type : Nat
  typeName : String
  values : List ReadValue
  deriving DecidableEq

/-- An array that was read. -/
structure ReadArray where
  sourceType : Nat
  sourceTypeName : String
  claimsCount : Nat
  claims : List ReadClaim
  deriving DecidableEq

/-- `CLAIMS_SOURCE_TYPE_NAMES`, with what stands for another. -/
def claimsSourceTypeName (sourceType : Nat) : String :=
  match sourceType with
  | 1 => "AD"
  | 2 => "CERTIFICATE"
  | t => s!"source type {t}"

/-- `u64Text`. -/
def u64Text (signed : Bool) : NdrReading Text := do
  let lo ← u32
  let hi ← u32
  let v : Int := hi * 2 ^ 32 + lo
  pure (decimal (if signed && 0x80000000 ≤ hi then v - 2 ^ 64 else v))

/-- `readTerminatedString`: the string is there, so it is never missing. -/
def readTerminatedString (what : String) : NdrReading Text := do
  let value ← readUnicodeStringValue true
  match value with
  | none => throw ("krb5: " ++ what ++ " is missing")
  | some value => pure value

/-- The values of a claim, in the deferred half. -/
def readValues (id : Option Text) (type vn : Nat) :
    NdrReading (List ReadValue) := do
  if type = CLAIM_TYPE.string then
    let present ← (List.range vn).mapM fun _ => pointer
    present.mapM fun p =>
      if p then do
        let value ← readTerminatedString "a claim value"
        pure (.text value)
      else
        pure .missing
  else if type = CLAIM_TYPE.int64 ∨ type = CLAIM_TYPE.uint64 ∨
      type = CLAIM_TYPE.boolean then
    (List.range vn).mapM fun _ => do
      align 8
      let text ← u64Text (type == CLAIM_TYPE.int64)
      pure (if type = CLAIM_TYPE.boolean then
        .boolean (text != ascii "0")
      else
        .text text)
  else
    throw ("krb5: the claim " ++ shown (id.getD (ascii "null")) ++
      s!" has the type {type}, which [MS-ADTS] 2.2.18.2 does not define")

/-- The fixed part of an entry. -/
structure FixedEntry where
  idPresent : Bool
  type : Nat
  valueCount : Nat
  valuesPresent : Bool
  deriving DecidableEq

/-- One round of the loop over the entries' fixed parts. -/
def readEntry : NdrReading FixedEntry := do
  let idPresent ← pointer
  let type ← u16
  let discriminant ← u16
  if discriminant ≠ type then
    throw (s!"krb5: a claim entry's Type is {type} and its union's " ++
      s!"discriminant is {discriminant}")
  else
    let valueCount ← u32
    let valuesPresent ← pointer
    pure { idPresent, type, valueCount, valuesPresent }

/-- The identifier of an entry, where it has one. -/
def readId (f : FixedEntry) : NdrReading (Option Text) :=
  if f.idPresent then do
    let id ← readTerminatedString "a claim id"
    pure (some id)
  else
    pure none

/-- The values of an entry, counted again where they stand. -/
def readCounted (id : Option Text) (f : FixedEntry) :
    NdrReading (List ReadValue) := do
  let vn ← arrayCount "claim value(s)"
  if vn ≠ f.valueCount then
    throw ("krb5: the claim " ++ shown (id.getD (ascii "null")) ++
      s!" declares {f.valueCount} value(s) and its array holds {vn}")
  else
    readValues id f.type vn

/-- The referents of an entry. -/
def readReferents (f : FixedEntry) : NdrReading ReadClaim := do
  let id ← readId f
  let values ← if f.valuesPresent then readCounted id f else pure []
  pure { id := id, type := f.type, typeName := claimTypeName f.type, values := values }

/-- The fixed part of an array. -/
structure FixedArray where
  sourceType : Nat
  claimsCount : Nat
  present : Bool
  deriving DecidableEq

/-- One round of the loop over the arrays' fixed parts. -/
def readArray : NdrReading FixedArray := do
  let sourceType ← u16
  let claimsCount ← u32
  let present ← pointer
  pure { sourceType, claimsCount, present }

/-- The claims of an array. -/
def readClaims (array : FixedArray) : NdrReading (List ReadClaim) := do
  let n ← arrayCount "claim entr(ies)"
  if n ≠ array.claimsCount then
    throw (s!"krb5: ulClaimsCount is {array.claimsCount} but the " ++
      s!"entries' own conformant count is {n}")
  else
    let fixed ← (List.range n).mapM fun _ => readEntry
    fixed.mapM readReferents

/-- The claims of an array without any. -/
def readNoClaims (array : FixedArray) : NdrReading (List ReadClaim) :=
  if array.claimsCount ≠ 0 then
    throw (s!"krb5: a claims array declares {array.claimsCount} " ++
      "claim(s) and a NULL entries pointer")
  else
    pure []

/-- The entries of an array. -/
def readEntries (array : FixedArray) : NdrReading ReadArray := do
  let claims ← (if array.present then readClaims else readNoClaims) array
  pure {
    sourceType := array.sourceType
    sourceTypeName := claimsSourceTypeName array.sourceType
    claimsCount := array.claimsCount
    claims := claims
  }

/-- The arrays of a set that has some. -/
def readDeclaredArrays (arrayCount_ : Nat) : NdrReading (List ReadArray) := do
  let declared ← arrayCount "claims array(s)"
  if declared ≠ arrayCount_ then
    throw (s!"krb5: ulClaimsArrayCount is {arrayCount_} but the array's " ++
      s!"own conformant count is {declared}")
  else
    let fixed ← (List.range declared).mapM fun _ => readArray
    fixed.mapM readEntries

/-- The arrays of a set. -/
def readArrays (arrayCount_ : Nat) (arraysPresent : Bool) : NdrReading (List ReadArray) :=
  if arraysPresent then readDeclaredArrays arrayCount_ else pure []

/-- What `parseClaimsSet` answers. -/
structure ClaimsSet where
  ndr : MarshallingHeaders
  arrays : List ReadArray
  reservedType : Nat
  reservedFieldSize : Nat
  reservedField : Option Buffer
  bytesUnread : Nat
  deriving DecidableEq

/-- The fixed part of a set. -/
structure SetHeader where
  arrayCount : Nat
  arraysPresent : Bool
  reservedType : Nat
  reservedFieldSize : Nat
  reservedPresent : Bool
  deriving DecidableEq

/-- The fields of a set's fixed part after its top-level pointer. -/
def readSetFields : NdrReading SetHeader := do
  let arrayCount ← u32
  let arraysPresent ← pointer
  let reservedType ← u16
  let reservedFieldSize ← u32
  let reservedPresent ← pointer
  pure {
    arrayCount, arraysPresent, reservedType, reservedFieldSize,
    reservedPresent
  }

/-- The fixed part of a set. -/
def readSetHeader : NdrReading SetHeader := do
  let top ← pointer
  if !top then
    throw "krb5: the claims set's top-level pointer is NULL"
  else
    readSetFields

/-- The octets of a set's reserved field. -/
def readReservedField (reservedPresent : Bool) : NdrReading (Option Buffer) :=
  if reservedPresent then do
    let rn ← arrayCount "reserved byte(s)"
    let reserved ← bytes rn
    pure (some reserved)
  else
    pure none

/-- The header, the arrays and the reserved field of a set. -/
def readSet : NdrReading (SetHeader × List ReadArray × Option Buffer) := do
  let header ← readSetHeader
  let arrays ← readArrays header.arrayCount header.arraysPresent
  let reserved ← readReservedField header.reservedPresent
  pure (header, arrays, reserved)

/-- The padding at the end of a set, where there is room for it. -/
def readPadding : NdrReading Unit := do
  let at_ ← offset
  let left ← remaining
  if padding 8 at_ ≤ left then
    align 8
  else
    pure ()

/-- `parseClaimsSet`, the reserved field's octets not yet spelled. -/
def parseClaimsSet (b : Buffer) : Except String ClaimsSet :=
  readStream (do
    let headers ← readTypeMarshallingHeaders
    let (header, arrays, reserved) ← readSet
    readPadding
    let left ← remaining
    pure {
      ndr := headers
      arrays := arrays
      reservedType := header.reservedType
      reservedFieldSize := header.reservedFieldSize
      reservedField := reserved
      bytesUnread := left
    }) b

/-- One claim of a parsed set, with its source type. -/
structure FlatClaim where
  sourceType : Nat
  id : Option Text
  type : Nat
  typeName : String
  values : List ReadValue
  deriving DecidableEq

/-- `claimsOf`. -/
def claimsOf (arrays : List ReadArray) : List FlatClaim :=
  arrays.flatMap fun array =>
    array.claims.map fun claim => {
      sourceType := array.sourceType
      id := claim.id
      type := claim.type
      typeName := claim.typeName
      values := claim.values
    }

/-- What `parseClaimsInfo` answers. -/
structure ClaimsInfo where
  empty : Bool
  ndr : Option MarshallingHeaders
  claimsSetSize : Nat
  compressionFormat : Option Nat
  uncompressedClaimsSetSize : Nat
  reservedType : Nat
  reservedFieldSize : Nat
  claimsSet : Option ClaimsSet
  claims : List FlatClaim
  deriving DecidableEq

/-- `CLAIMS_COMPRESSION_NAMES`, with what stands for another. -/
def claimsCompressionName (compression : Nat) : String :=
  match compression with
  | 0 => "COMPRESSION_FORMAT_NONE"
  | 2 => "COMPRESSION_FORMAT_LZNT1"
  | 3 => "COMPRESSION_FORMAT_XPRESS"
  | 4 => "COMPRESSION_FORMAT_XPRESS_HUFF"
  | t => s!"compression format {t}"

/-- The metadata's fields: its sizes, its compression and the set's octets. -/
structure Metadata where
  claimsSetSize : Nat
  compression : Nat
  uncompressedSize : Nat
  reservedType : Nat
  reservedFieldSize : Nat
  raw : Option Buffer
  deriving DecidableEq

/-- The octets of the set, counted again where they stand. -/
def readRaw (claimsSetSize : Nat) : NdrReading (Option Buffer) := do
  let declared ← u32
  if declared ≠ claimsSetSize then
    throw (s!"krb5: ulClaimsSetSize is {claimsSetSize} but the " ++
      s!"array's own conformant count is {declared}")
  else
    let raw ← bytes declared
    pure (some raw)

/-- The octets of the reserved field. -/
def readReserved : NdrReading Unit := do
  let rn ← u32
  let _ ← bytes rn
  pure ()

/-- The fields of the metadata after its top-level pointer. -/
def readMetadataFields : NdrReading Metadata := do
  let claimsSetSize ← u32
  let setPresent ← pointer
  let compression ← u16
  let uncompressedSize ← u32
  let reservedType ← u16
  let reservedFieldSize ← u32
  let reservedPresent ← pointer
  let raw ← if setPresent then readRaw claimsSetSize else pure none
  if reservedPresent then readReserved else pure ()
  pure {
    claimsSetSize, compression, uncompressedSize, reservedType,
    reservedFieldSize, raw
  }

/-- The fields of the metadata. -/
def readMetadata : NdrReading Metadata := do
  let top ← pointer
  if !top then
    throw "krb5: the claims metadata's top-level pointer is NULL"
  else
    readMetadataFields

/-- The octets of a set as they are before compression. -/
def uncompressed (decompressXpressHuffman : Buffer → Nat → Except String Buffer)
    (metadata : Metadata) (raw : Buffer) :
    Except String Buffer :=
  if metadata.compression = 0 then
    .ok raw
  else if metadata.compression = 4 then
    decompressXpressHuffman raw metadata.uncompressedSize
  else
    .error ("krb5: this claims set is compressed with " ++
      claimsCompressionName metadata.compression ++ ", which no KDC uses for " ++
      "claims and this codec does not decode; only " ++
      "COMPRESSION_FORMAT_XPRESS_HUFF is read")

/-- `parseClaimsInfo`. -/
def parseClaimsInfo (decompressXpressHuffman : Buffer → Nat → Except String Buffer) (b : Buffer) :
    Except String ClaimsInfo := do
  if b.isEmpty then
    pure {
      empty := true, ndr := none, claimsSetSize := 0
      compressionFormat := none, uncompressedClaimsSetSize := 0
      reservedType := 0, reservedFieldSize := 0, claimsSet := none, claims := []
    }
  else
    let (headers, metadata) ←
      readStream (do
        let headers ← readTypeMarshallingHeaders
        let metadata ← readMetadata
        pure (headers, metadata)) b
    let out : ClaimsInfo := {
      empty := false
      ndr := some headers
      claimsSetSize := metadata.claimsSetSize
      compressionFormat := some metadata.compression
      uncompressedClaimsSetSize := metadata.uncompressedSize
      reservedType := metadata.reservedType
      reservedFieldSize := metadata.reservedFieldSize
      claimsSet := none
      claims := []
    }
    match metadata.raw with
    | none => pure out
    | some raw =>
      let inner ← uncompressed decompressXpressHuffman metadata raw
      let set ← parseClaimsSet inner
      pure { out with claimsSet := some set, claims := claimsOf set.arrays }

/-! ## Delegation information -/

/-- The `spec` of `encodeDelegationInfo`. -/
structure DelegationSpec where
  s4u2proxyTarget : Option Text
  transitedServices : List (Option Text)
  deriving DecidableEq

/-- The transited services, where there are any. -/
def writeServices (services : List (Option Text)) (w : Writer) : Writer :=
  if services.isEmpty then
    w
  else
    ((w.u32 services.length).each services writeUnicodeStringHeader).each
      services writeUnicodeStringValue

/-- The fields of the delegation information. -/
def writeDelegation (spec : DelegationSpec) (w : Writer) : Writer :=
  let services := spec.transitedServices
  let w := writeUnicodeStringHeader spec.s4u2proxyTarget (w.pointer true)
  let w := (w.u32 services.length).pointer !services.isEmpty
  writeServices services (writeUnicodeStringValue spec.s4u2proxyTarget w)

/-- `encodeDelegationInfo`. -/
def encodeDelegationInfo (spec : DelegationSpec) : Buffer :=
  let w := writeTypeMarshallingHeaders createWriter
  finishObject w.bytes.length (writeDelegation spec w)

/-- What `parseDelegationInfo` answers. -/
structure DelegationInfo where
  ndr : MarshallingHeaders
  s4u2proxyTarget : Option Text
  transitedServices : List (Option Text)
  bytesUnread : Nat
  deriving DecidableEq

/-- The transited services, counted again where they stand. -/
def readDeclaredServices (listSize : Nat) :
    NdrReading (List (Option Text)) := do
  let declared ← arrayCount "transited service(s)"
  if declared ≠ listSize then
    throw (s!"krb5: TransitedListSize is {listSize} but the array's own " ++
      s!"conformant count is {declared}")
  else
    let headers ← (List.range declared).mapM fun _ => readUnicodeStringHeader
    headers.mapM fun header => readUnicodeStringValue header.present

/-- The transited services. -/
def readServices (listSize : Nat) (listPresent : Bool) : NdrReading (List (Option Text)) :=
  if listPresent then
    readDeclaredServices listSize
  else if listSize ≠ 0 then
    throw (s!"krb5: TransitedListSize is {listSize} but the array pointer " ++ "is NULL")
  else
    pure []

/-- The fields of the delegation information after its top-level pointer. -/
def readDelegationFields :
    NdrReading (Option Text × List (Option Text)) := do
  let target ← readUnicodeStringHeader
  let listSize ← u32
  let listPresent ← pointer
  let s4u2proxyTarget ← readUnicodeStringValue target.present
  let services ← readServices listSize listPresent
  pure (s4u2proxyTarget, services)

/-- The fields of the delegation information. -/
def readDelegation : NdrReading (Option Text × List (Option Text)) := do
  let top ← pointer
  if !top then
    throw "krb5: the delegation information's top-level pointer is NULL"
  else
    readDelegationFields

/-- `parseDelegationInfo`. -/
def parseDelegationInfo (b : Buffer) : Except String DelegationInfo :=
  readStream (do
    let headers ← readTypeMarshallingHeaders
    let (s4u2proxyTarget, services) ← readDelegation
    let left ← remaining
    pure {
      ndr := headers
      s4u2proxyTarget := s4u2proxyTarget
      transitedServices := services
      bytesUnread := left
    }) b

end IyaSts.Krb5PacClaims
