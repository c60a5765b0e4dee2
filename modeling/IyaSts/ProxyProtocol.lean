import IyaSts.Utf8

namespace IyaSts.ProxyProtocol

/-!
# The PROXY protocol, version 2

The header a load balancer writes before the first byte of its client, and the
gate that takes it off.  How an IPv6 address is spelled is a parameter.
-/

/-- `SIGNATURE`. -/
def signature : Buffer := [0x0D, 0x0A, 0x0D, 0x0A, 0x00, 0x0D, 0x0A, 0x51, 0x55, 0x49, 0x54, 0x0A]

/-- `PREFIX_LENGTH`. -/
def prefixLength : Nat := 16

/-- `V1_PREFIX`. -/
def v1Prefix : Buffer := [0x50, 0x52, 0x4F, 0x58, 0x59, 0x20]

/-- `MAX_BLOCK_LENGTH`. -/
def maxBlockLength : Nat := 4096

/-- `FIRST_FLIGHT_CAP`. -/
def firstFlightCap : Nat := 256 * 1024

/-- `FAMILY`. -/
inductive Family where
  | unspec
  | inet
  | inet6
  | unix
  deriving DecidableEq

/-- The family a nibble names. -/
def Family.of : Nat → Option Family
  | 0 => some .unspec
  | 1 => some .inet
  | 2 => some .inet6
  | 3 => some .unix
  | _ => none

/-- The name of a family. -/
def Family.name : Family → String
  | .unspec => "UNSPEC"
  | .inet => "INET"
  | .inet6 => "INET6"
  | .unix => "UNIX"

/-- `FAMILY_BLOCK`. -/
def Family.block : Family → Nat
  | .unspec => 0
  | .inet => 12
  | .inet6 => 36
  | .unix => 216

/-- `TRANSPORT`. -/
inductive Transport where
  | unspec
  | stream
  | dgram
  deriving DecidableEq

/-- The transport a nibble names. -/
def Transport.of : Nat → Option Transport
  | 0 => some .unspec
  | 1 => some .stream
  | 2 => some .dgram
  | _ => none

/-- What a header says of an end of the connection. -/
inductive Endpoint where
  | address (address : String) (port : Nat) (family : String)
  | path (path : String)
  deriving DecidableEq

/-- One TLV vector after the address block. -/
structure Tlv where
  type : Nat
  offset : Nat
  value : Buffer
  deriving DecidableEq

/-- A header that was read. -/
structure Header where
  isProxy : Bool
  family : Option Family
  transport : Option Transport
  source : Option Endpoint
  destination : Option Endpoint
  tlvs : List (Nat × Nat)
  authority : Option String
  alpn : Option String
  awsVpceId : Option String
  deriving DecidableEq

/-- What `parse` answers. -/
inductive ParseResult where
  | incomplete
  | invalid (code reason : String)
  | complete (length : Nat) (header : Header)
  deriving DecidableEq

/-! ## Pieces of a header -/

/-- `buffer.readUInt16BE(offset)`. -/
def readUInt16 (buffer : Buffer) (offset : Nat) : Nat :=
  Buffer.bigEndianValue ((buffer.drop offset).take 2)

/-- `number.toString(16)`. -/
def hex (number : Nat) : String := String.ofList (Nat.toDigits 16 number)

/-- `buffer.toString('ascii')`. -/
def ascii (bytes : Buffer) : String :=
  String.ofList (bytes.map fun byte => Char.ofNat (byte.toNat % 128))

/-- One bit of an entry of `CRC32C_TABLE`. -/
def crcBit (code : UInt32) : UInt32 :=
  if code &&& 1 = 1 then
    (0x82F63B78 : UInt32) ^^^ (code >>> 1)
  else
    code >>> 1

/-- An entry of `CRC32C_TABLE`. -/
def crcEntry (index : UInt32) : UInt32 :=
  crcBit (crcBit (crcBit (crcBit (crcBit (crcBit (crcBit (crcBit index)))))))

/-- The checksum so far, with one more byte. -/
def crcStep (code : UInt32) (byte : UInt8) : UInt32 :=
  crcEntry ((code ^^^ byte.toUInt32) &&& 0xFF) ^^^ (code >>> 8)

/-- `crc32c`. -/
def crc32c (bytes : Buffer) : Nat := (bytes.foldl crcStep 0xFFFFFFFF ^^^ 0xFFFFFFFF).toNat

/-- `unixPathOf`. -/
def unixPathOf (bytes : Buffer) : String := Utf8.decode (bytes.takeWhile fun byte => byte ≠ 0)

/-- The four numbers of an IPv4 address. -/
def ipv4Of (bytes : Buffer) : String := ".".intercalate (bytes.map fun byte => toString byte.toNat)

/-- `tlvsOf`, from a place in the block on. -/
def tlvsFrom (offset : Nat) (block : Buffer) : Option (List Tlv) :=
  match block with
  | [] => some []
  | type :: high :: low :: rest =>
    let length := Buffer.bigEndianValue [high, low]
    if rest.length < length then
      none
    else
      (tlvsFrom (offset + 3 + length) (rest.drop length)).map fun tlvs =>
        { type := type.toNat, offset := offset + 3,
          value := rest.take length } :: tlvs
  | _ => none
termination_by block.length
decreasing_by simp only [List.length_drop, List.length_cons]; omega

/-- `tlvsOf`. -/
def tlvsOf (block : Buffer) : Option (List Tlv) := tlvsFrom 0 block

/-- `ipv6Of`, by how node spells an address, where it does not throw. -/
def ipv6Of (canonical : String → Option String) (bytes : Buffer) : String :=
  let groups := (List.range 8).map fun group => hex (readUInt16 bytes (2 * group))
  let text := ":".intercalate groups
  (canonical text).getD text

/-- The source and the destination of an address block. -/
def endpointsOf (canonical : String → Option String) (family : Family) (block : Buffer) :
    Option (Endpoint × Endpoint) :=
  match family with
  | .unspec => none
  | .inet =>
    some
      (.address (ipv4Of (block.take 4)) (readUInt16 block 8) "IPv4",
        .address (ipv4Of ((block.drop 4).take 4)) (readUInt16 block 10) "IPv4")
  | .inet6 =>
    some
      (.address (ipv6Of canonical (block.take 16)) (readUInt16 block 32)
          "IPv6",
        .address (ipv6Of canonical ((block.drop 16).take 16)) (readUInt16 block 34) "IPv6")
  | .unix =>
    some (.path (unixPathOf (block.take 108)), .path (unixPathOf ((block.drop 108).take 108)))

/-- A part of a buffer with zeros in it. -/
def zeroed (buffer : Buffer) (start length : Nat) : Buffer :=
  buffer.take start ++ List.replicate length 0 ++ buffer.drop (start + length)

/-- What one TLV vector says, after those before it. -/
def readTlv (whole : Buffer) (tlvsStart : Nat) (header : Header) (tlv : Tlv) :
    Except (String × String) Header :=
  let listed (header : Header) : Header :=
    { header with tlvs := header.tlvs ++ [(tlv.type, tlv.value.length)] }
  if tlv.type = 0x03 then
    if tlv.value.length ≠ 4 then
      .error ("STS-PROXY-0004",
        "the CRC32C TLV is " ++ (toString tlv.value.length ++ " bytes, not 4"))
    else
      let expected := Buffer.bigEndianValue tlv.value
      let computed := crc32c (zeroed whole (tlvsStart + tlv.offset) 4)
      if expected ≠ computed then
        .error ("STS-PROXY-0006", "the CRC32C TLV says 0x" ++ (hex expected ++
            (" and the header computes to 0x" ++ hex computed)))
      else
        .ok (listed header)
  else if tlv.type = 0x02 then
    .ok (listed { header with authority := some (Utf8.decode tlv.value) })
  else if tlv.type = 0x01 then
    .ok (listed { header with alpn := some (ascii tlv.value) })
  else if tlv.type = 0xEA ∧ tlv.value.length > 1 ∧
      tlv.value.head? = some 0x01 then
    .ok (listed { header with awsVpceId := some (ascii (tlv.value.drop 1)) })
  else
    .ok (listed header)

/-- `parse`, of the bytes of a whole header. -/
def parseWhole (canonical : String → Option String) (whole : Buffer) : ParseResult :=
  let familyByte := Buffer.byteAt whole 13
  let family := Family.of (familyByte / 16)
  let transport := Transport.of (familyByte % 16)
  let block := whole.drop prefixLength
  let header : Header :=
    { isProxy := Buffer.byteAt whole 12 % 16 ≠ 0, family, transport,
      source := none, destination := none, tlvs := [], authority := none,
      alpn := none, awsVpceId := none }
  if header.isProxy = false then
    .complete whole.length header
  else
    match family, transport with
    | some known, some _ =>
      if block.length < known.block then
        .invalid "STS-PROXY-0004"
          ("the header declares " ++ (toString block.length ++
            (" bytes, shorter than the " ++ (toString known.block ++
              (" an " ++ (known.name ++ " address block needs"))))))
      else
        let endpoints := endpointsOf canonical known block
        match tlvsOf (block.drop known.block) with
        | none =>
          .invalid "STS-PROXY-0004"
            ("a TLV vector after the address block runs past the " ++ "declared length")
        | some tlvs =>
          let addressed :=
            { header with
              source := endpoints.map Prod.fst
              destination := endpoints.map Prod.snd }
          match tlvs.foldlM (readTlv whole (prefixLength + known.block))
              addressed with
          | .error (code, reason) => .invalid code reason
          | .ok read => .complete whole.length read
    | _, _ =>
      .invalid "STS-PROXY-0004"
        ("the address family or transport byte is 0x" ++
          (hex familyByte ++ ", which the specification defines no meaning for"))

/-- The bytes so far agree with a pattern, as far as both go. -/
def agrees (buffer pattern : Buffer) : Bool :=
  let seen := min buffer.length pattern.length
  buffer.take seen = pattern.take seen

/-- `parse`. -/
def parse (canonical : String → Option String) (buffer : Buffer) : ParseResult :=
  if agrees buffer signature = false then
    if agrees buffer v1Prefix then
      if buffer.length < v1Prefix.length then
        .incomplete
      else
        .invalid "STS-PROXY-0003"
          ("a PROXY protocol version 1 (text) header, and " ++
            "global.proxyProtocol accepts version 2 only")
    else
      .invalid "STS-PROXY-0002"
        ("the connection did not begin with the PROXY protocol v2 " ++ "signature")
  else if buffer.length < prefixLength then
    .incomplete
  else
    let version := Buffer.byteAt buffer 12 / 16
    let command := Buffer.byteAt buffer 12 % 16
    let blockLength := readUInt16 buffer 14
    if version ≠ 2 then
      .invalid "STS-PROXY-0004" ("the version nibble is " ++ (toString version ++ ", not 2"))
    else if command ≠ 0 ∧ command ≠ 1 then
      .invalid "STS-PROXY-0004"
        ("the command nibble is " ++ (toString command ++ ", neither LOCAL (0) nor PROXY (1)"))
    else if blockLength > maxBlockLength then
      .invalid "STS-PROXY-0005"
        ("the header declares " ++ (toString blockLength ++
          (" bytes of addresses and TLVs, over the " ++
            (toString maxBlockLength ++ " this service reads"))))
    else if buffer.length < prefixLength + blockLength then
      .incomplete
    else
      parseWhole canonical (buffer.take (prefixLength + blockLength))

/-! ## The first flight -/

/-- The handshake bytes of the records, if no other record follows. -/
def handshakeOf (bytes : Buffer) : Option Buffer :=
  match bytes with
  | [] => some []
  | type :: rest =>
    if type ≠ 0x16 then
      none
    else if rest.length < 4 then
      some []
    else
      let length := readUInt16 rest 2
      let content := rest.drop 4
      if content.length < length then
        some content
      else
        (handshakeOf (content.drop length)).map fun later => content.take length ++ later
termination_by bytes.length
decreasing_by simp only [List.length_drop, List.length_cons]; omega

/-- `firstFlightComplete`. -/
def firstFlightComplete (bytes : Buffer) : Bool :=
  if bytes.head? ≠ some 0x16 then
    true
  else
    match handshakeOf bytes with
    | none => true
    | some message =>
      message.length ≥ 4 && message.length ≥ 4 + Buffer.bigEndianValue ((message.drop 1).take 3)

/-! ## The gate -/

/-- What is known of a connection: `socket[INFO]`. -/
structure Info where
  via : String
  header : Header
  listener : String
  deriving DecidableEq

/-- How far the gate has come with a connection. -/
inductive Phase where
  | reading
  | holding (heldFrom : Nat)
  | handedOver
  | refused (code reason : String)
  deriving DecidableEq

/-- A connection at the gate, and what its listener has received. -/
structure Connection where
  phase : Phase
  buffered : Buffer
  received : Buffer
  adopted : Option Endpoint
  info : Option Info

/-- `readHeader`, before the first chunk. -/
def Connection.new : Connection where
  phase := .reading
  buffered := []
  received := []
  adopted := none
  info := none

/-- A listener of the gate, and the peer it reads a header from. -/
structure Listener where
  isTls : Bool
  label : String
  peer : String
  /-- The peer is this host, which may send no header. -/
  optional : Bool

/-- `handOver`. -/
def handOver (connection : Connection) (rest : Buffer) : Connection :=
  { connection with phase := .handedOver, received := rest }

/-- What follows the header is the start of an unfinished ClientHello. -/
def unfinished (listener : Listener) (rest : Buffer) : Bool :=
  listener.isTls && rest ≠ [] && rest.length < firstFlightCap && !firstFlightComplete rest

/-- `handOverWhenWhole`. -/
def handOverWhenWhole (listener : Listener) (connection : Connection) (heldFrom : Nat) :
    Connection :=
  let rest := connection.buffered.drop heldFrom
  if unfinished listener rest then
    { connection with phase := .holding heldFrom }
  else
    handOver connection rest

/-- The address that is adopted: the source of a header with one. -/
def Header.adopted (header : Header) : Option Endpoint :=
  match header.isProxy, header.source with
  | true, some (.address address port family) =>
    if address = "" then none else some (.address address port family)
  | _, _ => none

/-- `onData`, while the header is read. -/
def readOn (canonical : String → Option String) (listener : Listener) (connection : Connection) :
    Connection :=
  if listener.optional && connection.buffered.head? ≠ signature.head? then
    handOverWhenWhole listener connection 0
  else
    match parse canonical connection.buffered with
    | .incomplete => connection
    | .invalid code reason =>
      { connection with phase := .refused code reason }
    | .complete length header =>
      handOverWhenWhole listener
        { connection with
          info := some { via := listener.peer, header, listener := listener.label }
          adopted := header.adopted }
        length

/-- `onData`; after the gate has finished, the listener has the socket. -/
def onData (canonical : String → Option String)
    (listener : Listener) (connection : Connection) (chunk : Buffer) :
    Connection :=
  let buffered :=
    { connection with buffered := connection.buffered ++ chunk }
  match connection.phase with
  | .reading => readOn canonical listener buffered
  | .holding heldFrom => handOverWhenWhole listener buffered heldFrom
  | .handedOver =>
    { connection with received := connection.received ++ chunk }
  | .refused _ _ => connection

/-- A piece of the stream as a socket gives it: some bytes. -/
structure Chunk where
  bytes : Buffer
  some : bytes ≠ []

/-- The stream that was cut into chunks. -/
def streamOf (chunks : List Chunk) : Buffer := chunks.flatMap Chunk.bytes

/-- A connection after all its chunks. -/
def run (canonical : String → Option String) (listener : Listener) (chunks : List Chunk) :
    Connection :=
  chunks.foldl
    (fun connection chunk => onData canonical listener connection chunk.bytes)
    .new

end IyaSts.ProxyProtocol
