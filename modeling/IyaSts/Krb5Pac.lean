import IyaSts.Krb5Ndr
import IyaSts.Krb5Profiles

namespace IyaSts.Krb5Pac

/-!
# Reading a Kerberos PAC and checking its signatures

A PAC is a table of typed buffers over one run of octets.  Each of its four
signatures covers the octets as they stood when it was made, which are
reproduced by zeroing the signatures that were filled in later.
-/

open CursorCodec
open Krb5Ndr
open Krb5Profiles

namespace TYPE

def logonInfo : Nat := 1
def serverChecksum : Nat := 6
def kdcChecksum : Nat := 7
def clientInfo : Nat := 10
def delegationInfo : Nat := 11
def upnDnsInfo : Nat := 12
def clientClaims : Nat := 13
def ticketChecksum : Nat := 16
def attributesInfo : Nat := 17
def requestorSid : Nat := 18
def extendedKdcChecksum : Nat := 19

end TYPE

/-- `bufferTypeName`. -/
def bufferTypeName (t : Nat) : String :=
  match t with
  | 1 => "Logon information (KERB_VALIDATION_INFO)"
  | 2 => "Credentials information (PAC_CREDENTIAL_INFO)"
  | 6 => "Server checksum"
  | 7 => "KDC checksum"
  | 10 => "Client name and ticket information (PAC_CLIENT_INFO)"
  | 11 => "Constrained delegation information (S4U_DELEGATION_INFO)"
  | 12 => "UPN and DNS information (UPN_DNS_INFO)"
  | 13 => "Client claims information (PAC_CLIENT_CLAIMS_INFO)"
  | 14 => "Device information (PAC_DEVICE_INFO)"
  | 15 => "Device claims information (PAC_DEVICE_CLAIMS_INFO)"
  | 16 => "Ticket checksum"
  | 17 => "PAC attributes (PAC_ATTRIBUTES_INFO)"
  | 18 => "PAC requestor SID (PAC_REQUESTOR_SID)"
  | 19 => "Extended KDC checksum"
  | 20 => "PAC requestor GUID"
  | t => s!"unknown buffer type {t}"

/-- `SIGNATURE_TYPES_IN_GENERATION_ORDER`. -/
def signatureTypesInGenerationOrder : List Nat :=
  [TYPE.ticketChecksum, TYPE.extendedKdcChecksum, TYPE.serverChecksum, TYPE.kdcChecksum]

/-- `isSignatureBuffer`. -/
def isSignatureBuffer (t : Nat) : Bool := signatureTypesInGenerationOrder.contains t

/-- `SIGNATURE_TYPE_TO_ETYPE`. -/
def signatureTypeToEtype (signatureType : Int) : Option Int :=
  match signatureType with
  | -138 => some 23
  | 15 => some 17
  | 16 => some 18
  | 19 => some 19
  | 20 => some 20
  | _ => none

/-- `profileForSignatureType`. -/
def profileForSignatureType (signatureType : Int) : Except String EtypeProfile :=
  match signatureTypeToEtype signatureType with
  | none =>
    .error (s!"krb5: PAC signature type {signatureType} is not one this " ++
      "code can compute ([MS-PAC] section 2.8 defines -138, 15 and 16)")
  | some etype => etypeById etype

/-- `signatureTypeName`. -/
def signatureTypeName (t : Int) : String :=
  match t with
  | -138 => "KERB_CHECKSUM_HMAC_MD5"
  | 15 => "HMAC_SHA1_96_AES128"
  | 16 => "HMAC_SHA1_96_AES256"
  | 19 => "HMAC_SHA256_128_AES128 (not a Windows signature type)"
  | 20 => "HMAC_SHA384_192_AES256 (not a Windows signature type)"
  | t => s!"signature type {t}"

/-- `KERB_NON_KERB_CKSUM_SALT`. -/
def kerbNonKerbCksumSalt : Nat := 17

/-! ## Parsing -/

/-- `MAX_BUFFERS`. -/
def maxBuffers : Nat := 64

/-- What `parseSignature` answers. -/
structure PacSignature where
  signatureType : Int
  signatureTypeName : String
  signature : Buffer
  expectedLength : Option Nat
  rodcIdentifier : Option Nat
  trailing : Option Buffer
  signatureOffsetInBuffer : Nat
  deriving DecidableEq

/-- `parseSignature`. -/
def parseSignature (b : Buffer) : Except String PacSignature := do
  if b.length < 4 then
    throw s!"krb5: a signature buffer of {b.length} bytes"
  let raw ← readStream u32 b
  -- SignatureType is signed: 0xFFFFFF76 is -138.
  let signatureType : Int := if 0x7fffffff < raw then (raw : Int) - 0x100000000 else raw
  let rest := b.drop 4
  let expected :=
    match profileForSignatureType signatureType with
    | .ok profile => some profile.checksumBytes
    | .error _ => none
  let signature :=
    match expected with
    | none => rest
    | some expected => rest.take expected
  let trailing :=
    match expected with
    | none => []
    | some _ => rest.drop signature.length
  pure {
    signatureType := signatureType
    signatureTypeName := signatureTypeName signatureType
    signature := signature
    expectedLength := expected
    rodcIdentifier :=
      if trailing.length = 2 then
        some (Buffer.littleEndianValue trailing)
      else
        none
    trailing := if trailing.length = 2 then none else some trailing
    signatureOffsetInBuffer := 4
  }

section

variable {Value : Type}

/-- What `parseBuffer` answers: a signature, or what a buffer's own reader
makes of it. -/
inductive ParsedBuffer (Value : Type) where
  | signature (signature : PacSignature)
  | content (value : Value)

/-- One entry of `pac.buffers`. -/
structure PacBuffer (Value : Type) where
  type : Nat
  typeName : String
  size : Nat
  offset : Nat
  bytes : Option Buffer
  parsed : Option (ParsedBuffer Value)
  error : Option String

/-- What `parsePac` answers. -/
structure Pac (Value : Type) where
  cBuffers : Nat
  version : Nat
  buffers : List (PacBuffer Value)
  problems : List String
  raw : Buffer

/-- The signature a signature buffer was read as. -/
def PacBuffer.signature? (entry : PacBuffer Value) : Option PacSignature :=
  match entry.parsed with
  | some (.signature signature) => some signature
  | _ => none

/-- `parseBuffer`: the content buffers' own readers answer for their types,
and nothing for a type they do not know. -/
def parseBuffer (parseContent : Nat → Buffer → Except String (Option Value))
    (type : Nat) (bytes : Buffer) :
    Except String (Option (ParsedBuffer Value)) :=
  if isSignatureBuffer type then
    (parseSignature bytes).map fun signature => some (.signature signature)
  else
    (parseContent type bytes).map fun value => value.map .content

/-- One round of the loop over the table: an entry and the problems it adds. -/
def readEntry (all : Buffer) (i : Nat) :
    NdrReading (PacBuffer Value × List String) := do
  let ulType ← u32
  let cbBufferSize ← u32
  let off ← u64
  let typeName := bufferTypeName ulType
  if off.high ≠ 0 ∨ all.length < off.value + cbBufferSize then
    let error :=
      s!"This buffer claims {cbBufferSize} bytes at offset {off.value}, " ++
        s!"which is outside the {all.length}-byte PAC."
    pure ({
      type := ulType
      typeName := typeName
      size := cbBufferSize
      offset := off.value
      bytes := none
      parsed := none
      error := some error
    }, [s!"Buffer {i} (" ++ typeName ++ "): " ++ error])
  else
    pure ({
      type := ulType
      typeName := typeName
      size := cbBufferSize
      offset := off.value
      bytes := some ((all.drop off.value).take cbBufferSize)
      parsed := none
      error := none
    }, if off.value % 8 ≠ 0 then
        [s!"Buffer {i} (" ++ typeName ++ s!") starts at offset {off.value}, " ++
          "which is not a multiple of 8 — [MS-PAC] section 2.4 requires " ++
          "it. Windows will reject this PAC."]
      else
        [])

/-- The second loop's round: an entry parsed, and the problems that adds. -/
def parseEntry (parseContent : Nat → Buffer → Except String (Option Value))
    (entry : PacBuffer Value) :
    PacBuffer Value × List String :=
  match entry.bytes with
  | none => (entry, [])
  | some bytes =>
    match parseBuffer parseContent entry.type bytes with
    | .ok parsed => ({ entry with parsed := parsed }, [])
    | .error message =>
      ({ entry with error := some message }, [entry.typeName ++ " did not parse: " ++ message])

/-- `countOfType`. -/
def countOfType (buffers : List (PacBuffer Value)) (type : Nat) : Nat :=
  (buffers.filter fun b => b.type == type).length

/-- `checkRequiredBuffers`: the problems it adds. -/
def checkRequiredBuffers (buffers : List (PacBuffer Value)) : List String :=
  ([(TYPE.logonInfo, "Logon information"),
    (TYPE.clientInfo, "Client name and ticket information")].flatMap
    fun (type, name) =>
      let n := countOfType buffers type
      if n = 0 then
        ["There is no " ++ name ++ " buffer. [MS-PAC] section 2.4 " ++ "requires one."]
      else if 1 < n then
        [s!"There are {n} " ++ name ++ " buffers. Only the first is used; " ++
          "the rest MUST be ignored, so a second one is a place to hide " ++
          "something."]
      else
        []) ++
  ([TYPE.serverChecksum, TYPE.kdcChecksum].flatMap fun t =>
    if countOfType buffers t = 0 then
      ["There is no " ++ bufferTypeName t ++ " buffer. A PAC in a ticket " ++
        "always carries one; without it nothing about this PAC can be " ++
        "verified."]
    else
      [])

/-- The table of a PAC: its version and the entries with their problems. -/
def readTable (all : Buffer) :
    NdrReading (Nat × List (PacBuffer Value × List String)) := do
  let cBuffers ← u32
  let version ← u32
  if cBuffers = 0 then
    throw "krb5: this PAC declares zero buffers"
  else if maxBuffers < cBuffers then
    throw (s!"krb5: this PAC declares {cBuffers} buffers (a real one has a " ++
      "handful) — these bytes are probably not a PAC, or not being read " ++
      "little-endian")
  else if all.length < 8 + cBuffers * 16 then
    throw (s!"krb5: this PAC declares {cBuffers} buffers, whose table " ++
      s!"alone would need {8 + cBuffers * 16} bytes of a " ++
      s!"{all.length}-byte structure")
  else
    let entries ← (List.range cBuffers).mapM (readEntry all)
    pure (version, entries)

/-- `parsePac`. -/
def parsePac (parseContent : Nat → Buffer → Except String (Option Value)) (all : Buffer) :
    Except String (Pac Value) := do
  let (version, table) ← readStream (readTable all) all
  let parsed := table.map fun (entry, _) => parseEntry parseContent entry
  let buffers := parsed.map Prod.fst
  pure {
    cBuffers := table.length
    version := version
    buffers := buffers
    problems :=
      (if version ≠ 0 then
        [s!"The PACTYPE Version is {version}; [MS-PAC] section 2.3 " ++ "requires 0."]
      else
        []) ++
      table.flatMap Prod.snd ++ parsed.flatMap Prod.snd ++ checkRequiredBuffers buffers
    raw := all
  }

/-- `bufferOfType`. -/
def bufferOfType (pac : Pac Value) (type : Nat) : Option (PacBuffer Value) :=
  pac.buffers.find? fun b => b.type == type

/-! ## Verifying -/

/-- The loop that zeroes a region of a copy. -/
def zeroRegion (copy : Buffer) (start length : Nat) : Buffer :=
  (List.range length).foldl (fun copy i => copy.set (start + i) 0) copy

/-- `pacWithSignaturesZeroed`. -/
def pacWithSignaturesZeroed (pac : Pac Value) (types : List Nat) : Buffer :=
  types.foldl
    (fun copy t =>
      pac.buffers.foldl
        (fun copy b =>
          if b.type ≠ t then
            copy
          else
            match b.bytes, b.signature? with
            | some _, some signature =>
              zeroRegion copy (b.offset + signature.signatureOffsetInBuffer)
                signature.signature.length
            | _, _ => copy)
        copy)
    pac.raw

/-- The two keys a signature may be made with. -/
inductive Role where
  | serviceKey
  | krbtgtKey
  deriving DecidableEq

/-- `role` as text. -/
def Role.name : Role → String
  | .serviceKey => "service key"
  | .krbtgtKey => "krbtgt key"

/-- One row of `signatureCoverage`. -/
structure Coverage where
  type : Nat
  role : Role
  data : Option Buffer
  missing : Option String
  note : String
  deriving DecidableEq

/-- `signatureCoverage`. -/
def signatureCoverage (pac : Pac Value) (ticketBytes : Option Buffer) : List Coverage :=
  let serverEntry := bufferOfType pac TYPE.serverChecksum
  [{ type := TYPE.serverChecksum
     role := .serviceKey
     data := some (pacWithSignaturesZeroed pac [TYPE.serverChecksum, TYPE.kdcChecksum])
     missing := none
     note := "This is the one a SERVICE can check for itself — it is signed " ++
      "with the service's own long-term key." },
   { type := TYPE.kdcChecksum
     role := .krbtgtKey
     data := (serverEntry.bind PacBuffer.signature?).map PacSignature.signature
     missing := some "there is no server signature for it to counter-sign"
     note := "A counter-signature over the server signature ALONE, not over " ++
      "the PAC. Only a KDC holds the key, which is what makes it the one a " ++
      "forged PAC cannot produce." },
   { type := TYPE.extendedKdcChecksum
     role := .krbtgtKey
     data := some (pacWithSignaturesZeroed pac
      [TYPE.serverChecksum, TYPE.kdcChecksum, TYPE.extendedKdcChecksum])
     missing := none
     note := "Added by the CVE-2022-37967 hardening: the KDC signature " ++
      "covers only the server signature, so this one covers the whole PAC." },
   { type := TYPE.ticketChecksum
     role := .krbtgtKey
     data := ticketBytes
     missing := some ("the EncTicketPart it covers was not supplied. It is " ++
      "the DER of the ticket with this PAC's ad-data replaced by a single " ++
      "zero byte, so it binds the PAC to ONE ticket")
     note := "Binds this PAC to one specific ticket, so a PAC cannot be " ++
      "lifted out of one and dropped into another." }]

/-- The `keys` of `verifySignatures`. -/
structure VerifyingKeys where
  serverKey : Option Key
  kdcKey : Option Key
  ticketBytes : Option Buffer
  deriving DecidableEq

/-- One answer of `verifySignatures`. -/
structure SignatureCheck where
  type : Nat
  name : String
  signatureType : Option Int
  signatureTypeName : Option String
  verified : Option Bool
  note : Option String
  deriving DecidableEq

/-- `check` of a buffer that parsed, with the key and the data it needs: the
verdict and its note. -/
def checkSignature (checksums : Checksums) (signature : PacSignature) (keyLabel : String)
    (key : Key) (data : Buffer) :
    Bool × String :=
  match profileForSignatureType signature.signatureType with
  | .error message => (false, "Could not be checked: " ++ message)
  | .ok profile =>
    if profile.id ≠ key.etype then
      (false, "This signature is " ++ signature.signatureTypeName ++
        s!", which belongs to etype {profile.id}, but the " ++ keyLabel ++
        s!" supplied is etype {key.etype}. The key cannot verify this " ++
        "signature whatever its value.")
    else if checksums.verifyChecksum profile key.key kerbNonKerbCksumSalt data
        signature.signature then
      (true, "Verified with the " ++ keyLabel ++ ".")
    else
      (false, "DOES NOT verify with the " ++ keyLabel ++ " supplied. " ++
        "Either the key is wrong or the PAC has been altered since it " ++
        "was signed.")

/-- `check`. -/
def check (checksums : Checksums) (pac : Pac Value) (keys : VerifyingKeys) (c : Coverage) :
    Option SignatureCheck :=
  let key :=
    match c.role with
    | .serviceKey => keys.serverKey
    | .krbtgtKey => keys.kdcKey
  let note := if c.data.isNone then c.missing else some c.note
  (bufferOfType pac c.type).map fun entry =>
    let out (verified : Option Bool) (note : String) : SignatureCheck := {
      type := c.type
      name := bufferTypeName c.type
      signatureType := entry.signature?.map PacSignature.signatureType
      signatureTypeName := entry.signature?.map PacSignature.signatureTypeName
      verified := verified
      note := some note
    }
    match entry.signature? with
    | none =>
      out none ("This signature buffer did not parse" ++
        (match entry.error with
        | some error => ": " ++ error
        | none => "."))
    | some signature =>
      match key, c.data with
      | none, _ => out none ("Not checked: no " ++ c.role.name ++ " was supplied. " ++ note.getD "")
      | some _, none =>
        out none ("Not checked: " ++ note.getD "the data it covers was not available here.")
      | some key, some data =>
        let (verified, note) := checkSignature checksums signature c.role.name key data
        out (some verified) note

/-- `verifySignatures`. -/
def verifySignatures (checksums : Checksums) (pac : Pac Value) (keys : VerifyingKeys) :
    List SignatureCheck :=
  (signatureCoverage pac keys.ticketBytes).filterMap (check checksums pac keys)

end

end IyaSts.Krb5Pac
