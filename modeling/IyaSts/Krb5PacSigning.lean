import IyaSts.Krb5Pac

namespace IyaSts.Krb5Pac

/-!
# Minting and re-signing a Kerberos PAC

A PAC is assembled with its signatures zero, and they are filled in place: the
ticket's, the extended one over the whole PAC, the server's over the whole PAC,
and the KDC's over the server's alone.  Re-signing carries the buffers of a PAC
it has read.
-/

open CursorCodec
open Krb5Ndr
open Krb5Profiles

/-- An entry to assemble. -/
structure PacEntry where
  type : Nat
  bytes : Buffer
  deriving DecidableEq

/-- An entry and where it landed. -/
structure PlacedEntry where
  type : Nat
  bytes : Buffer
  offset : Nat
  deriving DecidableEq

/-- What `assemblePac` answers. -/
structure Assembled where
  bytes : Buffer
  placed : List PlacedEntry
  deriving DecidableEq

/-- `encodeSignaturePlaceholder`. -/
def encodeSignaturePlaceholder (signatureType : Int) (length : Nat) (rodcIdentifier : Option Nat) :
    Buffer :=
  let raw := if signatureType < 0 then signatureType + 0x100000000 else signatureType
  let w := (createWriter.u32 raw.toNat).zeros length
  match rodcIdentifier with
  | none => w.bytes
  | some rodcIdentifier => (w.u16 rodcIdentifier).bytes

/-- The loop that places each entry at a multiple of eight, and where the last
one ends. -/
def place (offset : Nat) : List PacEntry → List PlacedEntry × Nat
  | [] => ([], offset)
  | e :: entries =>
    let stop := offset + e.bytes.length
    let (placed, last) := place (stop + padding 8 stop) entries
    ({ type := e.type, bytes := e.bytes, offset := offset } :: placed, last)

/-- `out.set(chunk, at)` of a typed array. -/
def setAt (out chunk : Buffer) (at_ : Nat) : Except String Buffer :=
  if out.length < at_ + chunk.length then
    .error "RangeError: offset is out of bounds"
  else
    .ok (out.take at_ ++ chunk ++ out.drop (at_ + chunk.length))

/-- The header and the table of an assembled PAC. -/
def writeTable (placed : List PlacedEntry) (w : Writer) : Writer :=
  ((w.u32 placed.length).u32 0).each placed fun p w =>
    ((w.u32 p.type).u32 p.bytes.length).u64 p.offset 0

/-- `assemblePac`. -/
def assemblePac (entries : List PacEntry) : Except String Assembled := do
  let headerBytes := 8 + entries.length * 16
  let (placed, last) := place (headerBytes + padding 8 headerBytes) entries
  let out := Buffer.alloc last
  let out ← setAt out (writeTable placed createWriter).bytes 0
  let out ← placed.foldlM (fun out p => setAt out p.bytes p.offset) out
  pure { bytes := out, placed := placed }

/-- What both signing callers state. -/
structure SigningSpec where
  serverKey : Key
  kdcKey : Key
  ticketBytes : Option Buffer
  includeTicketSignature : Bool
  includeExtendedKdcSignature : Bool
  rodcIdentifier : Option Nat
  deriving DecidableEq

/-- `signatureAt`. -/
def signatureAt (placed : List PlacedEntry) (type : Nat) : Option Nat :=
  (placed.find? fun p => p.type == type).map fun p => p.offset + 4

/-- `write`. -/
def writeSignature (placed : List PlacedEntry) (type : Nat) (sig bytes : Buffer) :
    Except String Buffer :=
  match signatureAt placed type with
  | none => .error ("krb5: no " ++ bufferTypeName type ++ " buffer to write into")
  | some at_ => setAt bytes sig at_

/-- `has`. -/
def hasSignature (placed : List PlacedEntry) (type : Nat) : Bool := (signatureAt placed type).isSome

/-- Step 1 of the signing pass: the ticket signature, over bytes the caller
supplies. -/
def signTicket (placed : List PlacedEntry) (kdcChecksum : Buffer → Buffer)
    (ticketBytes : Option Buffer) (bytes : Buffer) :
    Except String Buffer :=
  if hasSignature placed TYPE.ticketChecksum then
    match ticketBytes with
    | none =>
      .error ("krb5: a ticket signature was asked for but no " ++
        "EncTicketPart bytes were supplied to compute it over. It " ++
        "covers the DER of the ticket with this PAC's ad-data replaced " ++
        "by a single zero byte, which the caller has to build.")
    | some ticketBytes => writeSignature placed TYPE.ticketChecksum (kdcChecksum ticketBytes) bytes
  else
    .ok bytes

/-- Step 2: the extended one, while the server's and the KDC's are still
zero. -/
def signExtended (placed : List PlacedEntry) (kdcChecksum : Buffer → Buffer) (bytes : Buffer) :
    Except String Buffer :=
  if hasSignature placed TYPE.extendedKdcChecksum then
    writeSignature placed TYPE.extendedKdcChecksum (kdcChecksum bytes) bytes
  else
    .ok bytes

/-- `signAssembled`. -/
def signAssembled (checksums : Checksums) (assembled : Assembled) (spec : SigningSpec) :
    Except String Buffer := do
  let serverProfile ← etypeById spec.serverKey.etype
  let kdcProfile ← etypeById spec.kdcKey.etype
  let kdcChecksum (message : Buffer) : Buffer :=
    checksums.checksum kdcProfile spec.kdcKey.key kerbNonKerbCksumSalt message
  let bytes ←
    signTicket assembled.placed kdcChecksum spec.ticketBytes assembled.bytes
  let bytes ← signExtended assembled.placed kdcChecksum bytes
  -- 3. The server's, which covers the extended one.
  let serverSig := checksums.checksum serverProfile spec.serverKey.key kerbNonKerbCksumSalt bytes
  let bytes ←
    writeSignature assembled.placed TYPE.serverChecksum serverSig bytes
  -- 4. The KDC's, over the server's alone.
  writeSignature assembled.placed TYPE.kdcChecksum (kdcChecksum serverSig) bytes

/-- The signature buffers both callers add, still zero. -/
def signaturePlaceholders (serverProfile kdcProfile : EtypeProfile) (spec : SigningSpec) :
    List PacEntry :=
  let kdcPlaceholder :=
    encodeSignaturePlaceholder kdcProfile.checksumType kdcProfile.checksumBytes spec.rodcIdentifier
  (if spec.includeTicketSignature then
    [{ type := TYPE.ticketChecksum, bytes := kdcPlaceholder }]
  else
    []) ++
  ((if spec.includeExtendedKdcSignature then
    [{ type := TYPE.extendedKdcChecksum, bytes := kdcPlaceholder }]
  else
    []) ++
  [{ type := TYPE.serverChecksum
     bytes := encodeSignaturePlaceholder serverProfile.checksumType
      serverProfile.checksumBytes none },
   { type := TYPE.kdcChecksum, bytes := kdcPlaceholder }])

/-! ## Minting -/

/-- `spec.clientInfo`, its logon time as `fileTimeFromDate` splits it. -/
structure ClientInfo where
  clientIdLow : Nat
  clientIdHigh : Nat
  name : Text
  deriving DecidableEq

/-- `encodeClientInfo`. -/
def encodeClientInfo (spec : ClientInfo) : Buffer :=
  (writeUnits spec.name
    (((createWriter.u32 spec.clientIdLow).u32 spec.clientIdHigh).u16 (spec.name.length * 2))).bytes

/-- The other content buffers' encoders, each of which may refuse. -/
structure ContentEncoders (Value : Type) where
  encodeLogonInfo : Value → Except String Buffer
  encodeUpnDnsInfo : Value → Except String Buffer
  encodeClaimsSetMetadata : Value → Except String Buffer
  encodeAttributesInfo : Value → Except String Buffer
  encodeRequestorSid : Value → Except String Buffer
  encodeDelegationInfo : Value → Except String Buffer

/-- The `spec` of `buildPac`. -/
structure BuildSpec (Value : Type) where
  logonInfo : Value
  clientInfo : ClientInfo
  upnDns : Option Value
  clientClaims : Option Value
  attributes : Option Value
  requestorSid : Option Value
  delegationInfo : Option Value
  signing : SigningSpec

section

variable {Value : Type}
variable (checksums : Checksums)
variable (encoders : ContentEncoders Value)

/-- An entry that is written only when the caller states it. -/
def optionalEntry (type : Nat) (encode : Value → Except String Buffer) (stated : Option Value) :
    Except String (List PacEntry) :=
  match stated with
  | none => .ok []
  | some value => (encode value).map fun bytes => [{ type, bytes }]

/-- The content entries of `buildPac`, in its order. -/
def buildEntries (spec : BuildSpec Value) : Except String (List PacEntry) := do
  let logonInfo ← encoders.encodeLogonInfo spec.logonInfo
  let upnDns ←
    optionalEntry TYPE.upnDnsInfo encoders.encodeUpnDnsInfo spec.upnDns
  let clientClaims ←
    optionalEntry TYPE.clientClaims encoders.encodeClaimsSetMetadata spec.clientClaims
  let attributes ←
    optionalEntry TYPE.attributesInfo encoders.encodeAttributesInfo spec.attributes
  let requestorSid ←
    optionalEntry TYPE.requestorSid encoders.encodeRequestorSid spec.requestorSid
  let delegationInfo ←
    optionalEntry TYPE.delegationInfo encoders.encodeDelegationInfo spec.delegationInfo
  pure ([{ type := TYPE.logonInfo, bytes := logonInfo },
      { type := TYPE.clientInfo, bytes := encodeClientInfo spec.clientInfo }] ++
    (upnDns ++ (clientClaims ++
      (attributes ++ (requestorSid ++ delegationInfo)))))

/-- `buildPac`. -/
def buildPac (spec : BuildSpec Value) : Except String Buffer := do
  let serverProfile ← etypeById spec.signing.serverKey.etype
  let kdcProfile ← etypeById spec.signing.kdcKey.etype
  let entries ← buildEntries encoders spec
  let assembled ←
    assemblePac
      (entries ++ signaturePlaceholders serverProfile kdcProfile spec.signing)
  signAssembled checksums assembled spec.signing

/-! ## Re-signing -/

/-- The `spec` of `resignPac`.  Client claims that are stated to be none remove
the buffer. -/
structure ResignSpec (Value : Type) where
  clientClaims : Option (Option Value)
  delegationInfo : Option Value
  signing : SigningSpec

/-- Every buffer that is not a signature, in its original order and bytes. -/
def carriedEntries (existing : Pac Value) : List PacEntry :=
  existing.buffers.filterMap fun b =>
    if isSignatureBuffer b.type then
      none
    else
      b.bytes.map fun bytes => { type := b.type, bytes := bytes }

/-- Where `resignPac` puts the client claims: where the first old ones were,
else after the last user principal name, else at the end. -/
def claimsPosition (before entries : List PacEntry) : Nat :=
  let found :=
    match before.findIdx? fun e => e.type == TYPE.clientClaims with
    | some at_ => some at_
    | none =>
      entries.zipIdx.foldl
        (fun at_ (e, i) => if e.type = TYPE.upnDnsInfo then some (i + 1) else at_)
        none
  match found with
  | none => entries.length
  | some at_ => min at_ entries.length

/-- The client claims replaced, or removed. -/
def replaceClaims (entries : List PacEntry) (clientClaims : Option (Option Value)) :
    Except String (List PacEntry) :=
  match clientClaims with
  | none => .ok entries
  | some stated =>
    let others := entries.filter fun e => e.type != TYPE.clientClaims
    match stated with
    | none => .ok others
    | some claims =>
      (encoders.encodeClaimsSetMetadata claims).map fun bytes =>
        others.insertIdx (claimsPosition entries others)
          { type := TYPE.clientClaims, bytes := bytes }

/-- The delegation information replaced, at the end. -/
def replaceDelegation (entries : List PacEntry) (delegationInfo : Option Value) :
    Except String (List PacEntry) :=
  match delegationInfo with
  | none => .ok entries
  | some stated =>
    (encoders.encodeDelegationInfo stated).map fun bytes =>
      (entries.filter fun e => e.type != TYPE.delegationInfo) ++
        [{ type := TYPE.delegationInfo, bytes := bytes }]

/-- The content entries of `resignPac`. -/
def resignEntries (existing : Pac Value) (spec : ResignSpec Value) :
    Except String (List PacEntry) := do
  let entries := carriedEntries existing
  if entries.isEmpty then
    throw "krb5: this PAC has no content buffers to re-sign"
  let entries ← replaceClaims encoders entries spec.clientClaims
  replaceDelegation encoders entries spec.delegationInfo

/-- `resignPac`. -/
def resignPac (parseContent : Nat → Buffer → Except String (Option Value))
    (pacBytes : Buffer) (spec : ResignSpec Value) :
    Except String Buffer := do
  let existing ← parsePac parseContent pacBytes
  let kdcProfile ← etypeById spec.signing.kdcKey.etype
  let serverProfile ← etypeById spec.signing.serverKey.etype
  let entries ← resignEntries encoders existing spec
  let assembled ←
    assemblePac
      (entries ++ signaturePlaceholders serverProfile kdcProfile spec.signing)
  signAssembled checksums assembled spec.signing

end

end IyaSts.Krb5Pac
