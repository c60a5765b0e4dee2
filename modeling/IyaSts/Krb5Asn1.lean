import IyaSts.Calendar
import IyaSts.Krb5Primitives
import Mathlib.Algebra.Order.Ring.Int

namespace IyaSts.Krb5Asn1

/-!
# The DER coder of the Kerberos messages

Octets are written as a tag, a length and a value, and read with every bound
checked against the octets given.  Text is a list of UTF-16 code units where it
is read and a string where it is written.
-/

open Krb5Primitives

/-- `MAX_INPUT_BYTES`. -/
def maxInputBytes : Nat := 2 * 1024 * 1024

/-- `MAX_DEPTH`. -/
def maxDepth : Nat := 32

namespace TAG

def integer : Nat := 0x02
def bitString : Nat := 0x03
def octetString : Nat := 0x04
def sequence : Nat := 0x30
def generalString : Nat := 0x1b
def ia5String : Nat := 0x16
def generalizedTime : Nat := 0x18

end TAG

/-- `contextTag`: `[n]` context-specific, constructed. -/
def contextTag (n : Int) : Except String Nat :=
  if n < 0 ∨ 30 < n then
    .error s!"krb5: context tag {n} out of range for this coder"
  else
    .ok (0xa0 ||| n.toNat)

/-- `applicationTag`: `[APPLICATION n]`, constructed. -/
def applicationTag (n : Int) : Except String Nat :=
  if n < 0 ∨ 30 < n then
    .error s!"krb5: application tag {n} out of range for this coder"
  else
    .ok (0x60 ||| n.toNat)

/-! ## Writing -/

/-- The loop that puts a number's octets in front, the lowest first. -/
def unshiftOctets (v : Nat) (bytes : Buffer) : Buffer :=
  if v = 0 then
    bytes
  else
    unshiftOctets (v / 256) (UInt8.ofNat (v &&& 0xff) :: bytes)
  termination_by v

/-- `encodeLength`. -/
def encodeLength (n : Nat) : Except String Buffer :=
  if n < 0x80 then
    .ok [UInt8.ofNat n]
  else
    let bytes := unshiftOctets n []
    if 4 < bytes.length then
      .error s!"krb5: refusing to encode a length of {n} bytes"
    else
      .ok (UInt8.ofNat (0x80 ||| bytes.length) :: bytes)

/-- `tlv`: one tag, length and value. -/
def tlv (tag : Nat) (value : Buffer) : Except String Buffer := do
  let length ← encodeLength value.length
  return [UInt8.ofNat tag] ++ length ++ value

/-- The loop that finds the octets a negative number takes. -/
def negativeWidth (value : Int) (n : Nat) : Nat :=
  if value < -2 ^ (8 * n - 1) then
    negativeWidth value (n + 1)
  else
    n
  termination_by (-value - 2 ^ (8 * n - 1)).toNat
  decreasing_by
    have grows : (2 : Int) ^ (8 * n - 1) < 2 ^ (8 * (n + 1) - 1) :=
      pow_lt_pow_right₀ (by decide) (by omega)
    omega

/-- The loop that fills so many octets from the last. -/
def fillOctets : Nat → Nat → Buffer → Buffer
  | 0, _, bytes => bytes
  | i + 1, m, bytes => fillOctets i (m / 256) (UInt8.ofNat (m &&& 0xff) :: bytes)

/-- `integerContent`: two's complement of the least length. -/
def integerContent (value : Int) : Buffer :=
  if value = 0 then
    [0]
  else if 0 < value then
    let bytes := unshiftOctets value.toNat []
    -- A leading bit of one would read as negative.
    if bytes.byteAt 0 &&& 0x80 ≠ 0 then 0 :: bytes else bytes
  else
    let n := negativeWidth value 1
    fillOctets n (value + 2 ^ (8 * n)).toNat []

/-- `encInteger`. -/
def encInteger (value : Int) : Except String Buffer := tlv TAG.integer (integerContent value)

/-- `encOctetString`. -/
def encOctetString (bytes : Buffer) : Except String Buffer := tlv TAG.octetString bytes

/-- `encGeneralString`. -/
def encGeneralString (text : String) : Except String Buffer :=
  tlv TAG.generalString (utf8 (Json.codeUnits text))

/-- The loop of `encFlags`, which sets one bit after the other. -/
def setFlags : List Int → Buffer → Except String Buffer
  | [], bytes => .ok bytes
  | bit :: rest, bytes =>
    if bit < 0 ∨ 31 < bit then
      .error s!"krb5: flag bit {bit} out of range"
    else
      setFlags rest (bytes.orAt (bit.toNat >>> 3 : Nat) (0x80 >>> (bit.toNat &&& 7)))

/-- `encFlags`. -/
def encFlags (bitNumbers : List Int) : Except String Buffer := do
  let bytes ← setFlags bitNumbers (Buffer.alloc 4)
  tlv TAG.bitString ([0] ++ bytes)

/-- `bitsFromFlags`. -/
def bitsFromFlags (bytes : Buffer) : List Nat :=
  (List.range (bytes.length * 8)).filter fun i =>
    bytes.byteAt (i >>> 3 : Nat) &&& (0x80 >>> (i &&& 7)) ≠ 0

/-- `two`. -/
def two (n : Int) : String := (if n < 10 then "0" else "") ++ toString n

/-- `formatKerberosTime` of a date, which holds a time value or none. -/
def formatKerberosTime (date : Option Int) : Except String String :=
  match date with
  | none => .error "krb5: not a date: Invalid Date"
  | some time =>
    .ok (toString (Calendar.utcFullYear time) ++
      two (Calendar.utcMonth time + 1) ++ two (Calendar.utcDate time) ++
      two (Calendar.utcHours time) ++ two (Calendar.utcMinutes time) ++
      two (Calendar.utcSeconds time) ++ "Z")

/-- `\d`, of a code unit. -/
def isDigit (unit : Nat) : Bool := 0x30 ≤ unit ∧ unit ≤ 0x39

/-- `+m[i]`, of a group of digits. -/
def number (digits : List Nat) : Nat := digits.foldl (fun read unit => read * 10 + (unit - 0x30)) 0

/-- `parseKerberosTime`; the expression matches fourteen digits and `Z`. -/
def parseKerberosTime (text : List Nat) : Except String Int :=
  let digits := text.take 14
  if digits.length = 14 ∧ digits.all isDigit ∧ text.drop 14 = [0x5a] then
    .ok (Calendar.utc (number (digits.take 4))
      ((number ((digits.drop 4).take 2) : Int) - 1)
      (number ((digits.drop 6).take 2)) (number ((digits.drop 8).take 2))
      (number ((digits.drop 10).take 2)) (number ((digits.drop 12).take 2)))
  else
    .error ("krb5: KerberosTime must be YYYYMMDDHHMMSSZ, got " ++
      Json.quote (String.ofList (text.map Char.ofNat)))

/-- `encKerberosTime`. -/
def encKerberosTime (date : Option Int) : Except String Buffer := do
  let text ← formatKerberosTime date
  tlv TAG.generalizedTime (utf8 (Json.codeUnits text))

/-- `encSequence`. -/
def encSequence (items : List Buffer) : Except String Buffer := tlv TAG.sequence items.flatten

/-- A field of a SEQUENCE; an optional one may have no value. -/
structure Field where
  tag : Int
  value : Option Buffer
  deriving DecidableEq

/-- The parts `encTaggedSequence` pushes, one for a field that is there. -/
def taggedParts : List (Option Field) → Except String (List Buffer)
  | [] => .ok []
  | none :: rest => taggedParts rest
  | some ⟨_, none⟩ :: rest => taggedParts rest
  | some ⟨tag, some value⟩ :: rest => do
    let part ← tlv (← contextTag tag) value
    let parts ← taggedParts rest
    return part :: parts

/-- `encTaggedSequence`. -/
def encTaggedSequence (fields : List (Option Field)) :
    Except String Buffer := do
  encSequence (← taggedParts fields)

/-- `encApplication`. -/
def encApplication (n : Int) (inner : Buffer) : Except String Buffer := do
  tlv (← applicationTag n) inner

/-- `encContext`. -/
def encContext (n : Int) (inner : Buffer) : Except String Buffer := do
  tlv (← contextTag n) inner

/-- `encSequenceOf`. -/
def encSequenceOf (items : List Buffer) : Except String Buffer := encSequence items

/-! ## Reading -/

/--
What `readTlv` returns.  The value and the element's original octets are views
of the octets given, and `valueEnd` is where the next element starts.
-/
structure Tlv where
  tag : Nat
  length : Nat
  headerLength : Nat
  start : Nat
  valueStart : Nat
  valueEnd : Nat
  value : Buffer
  raw : Buffer
  deriving DecidableEq

/-- `b.subarray(start, stop)`. -/
def subarray (b : Buffer) (start stop : Nat) : Buffer := (b.take stop).drop start

/-- The end of `readTlv`: the element whose length has been read. -/
def element (b : Buffer) (offset headerLen len : Nat) : Except String Tlv :=
  let valueStart := offset + headerLen
  let valueEnd := valueStart + len
  if b.length < valueEnd then
    .error (s!"krb5: ASN.1 element at offset {offset} claims {len} bytes " ++
      s!"but only {b.length - valueStart} remain")
  else
    .ok {
      tag := (b.getD offset 0).toNat
      length := len
      headerLength := headerLen
      start := offset
      valueStart := valueStart
      valueEnd := valueEnd
      value := subarray b valueStart valueEnd
      raw := subarray b offset valueEnd
    }

/-- `readTlv`. -/
def readTlv (b : Buffer) (offset depth : Nat) : Except String Tlv :=
  if maxDepth < depth then
    .error s!"krb5: ASN.1 nested deeper than {maxDepth}"
  else if b.length < offset + 2 then
    .error (s!"krb5: truncated ASN.1 at offset {offset} (need a tag and a " ++ "length)")
  else
    let lenByte := (b.getD (offset + 1) 0).toNat
    if lenByte < 0x80 then
      element b offset 2 lenByte
    else if lenByte = 0x80 then
      .error (s!"krb5: indefinite ASN.1 length at offset {offset} — DER " ++
        "requires a definite length")
    else
      let n := lenByte &&& 0x7f
      if 4 < n then
        .error s!"krb5: ASN.1 length field of {n} bytes at offset {offset}"
      else if b.length < offset + 2 + n then
        .error s!"krb5: truncated ASN.1 length at offset {offset}"
      else
        let octets := subarray b (offset + 2) (offset + 2 + n)
        element b offset (2 + n) (octets.foldl (fun len byte => len * 256 + byte.toNat) 0)

variable {b : Buffer} {t : Tlv}

theorem element_valueEnd {offset headerLen len : Nat}
    (isElement : element b offset headerLen len = .ok t) :
    t.valueEnd = offset + headerLen + len := by
  simp only [element] at isElement
  split at isElement
  · exact absurd isElement (by simp)
  · rw [Except.ok.injEq] at isElement
    rw [← isElement]

/-- Every element takes at least its tag and a length. -/
theorem readTlv_advances {offset depth : Nat} (isRead : readTlv b offset depth = .ok t) :
    offset + 2 ≤ t.valueEnd := by
  simp only [readTlv] at isRead
  split at isRead
  · exact absurd isRead (by simp)
  split at isRead
  · exact absurd isRead (by simp)
  split at isRead
  · have isEnd := element_valueEnd isRead
    omega
  split at isRead
  · exact absurd isRead (by simp)
  split at isRead
  · exact absurd isRead (by simp)
  split at isRead
  · exact absurd isRead (by simp)
  have isEnd := element_valueEnd isRead
  omega

/-- The loop of `readChildren`. -/
def readFrom (b : Buffer) (depth offset : Nat) : Except String (List Tlv) :=
  if offset < b.length then
    match isRead : readTlv b offset depth with
    | .error error => .error error
    | .ok t =>
      have := readTlv_advances isRead
      match readFrom b depth t.valueEnd with
      | .error error => .error error
      | .ok rest => .ok (t :: rest)
  else
    .ok []
  termination_by b.length - offset

/-- `readChildren`: every element of a constructed value, in order. -/
def readChildren (value : Buffer) (depth : Nat) : Except String (List Tlv) :=
  readFrom value (depth + 1) 0

/-- A number in hexadecimal, as `toString(16)` writes it. -/
def hex (n : Nat) : String := String.ofList (Nat.toDigits 16 n)

/-- A map from tag numbers to elements; the last one set is found first. -/
abbrev FieldMap := List (Nat × Tlv)

/-- The loop of `readTaggedSequence`, one child after the other. -/
def readFields (depth : Nat) :
    List Tlv → FieldMap → Except String FieldMap
  | [], map => .ok map
  | child :: rest, map =>
    if child.tag &&& 0xc0 ≠ 0x80 then
      .error ("krb5: expected a context tag in this SEQUENCE, saw 0x" ++ hex child.tag)
    else
      let n := child.tag &&& 0x1f
      match readChildren child.value (depth + 1) with
      | .error error => .error error
      | .ok [inner] => readFields depth rest ((n, inner) :: map)
      | .ok inner =>
        .error (s!"krb5: context tag [{n}] wraps {inner.length} " ++ "elements, expected 1")

/-- `readTaggedSequence`: the element inside each context tag. -/
def readTaggedSequence (value : Buffer) (depth : Nat) :
    Except String FieldMap := do
  readFields depth (← readChildren value depth) []

/-- `expectTag`. -/
def expectTag (t : Tlv) (tag : Nat) (what : String) : Except String Tlv :=
  if t.tag ≠ tag then
    .error ("krb5: expected " ++ what ++ " (tag 0x" ++ hex tag ++ ") but found tag 0x" ++ hex t.tag)
  else
    .ok t

/-- `decInteger`. -/
def decInteger (t : Tlv) : Except String Int := do
  let t ← expectTag t TAG.integer "an INTEGER"
  let b := t.value
  if b.length = 0 then
    .error "krb5: zero-length INTEGER"
  else if 6 < b.length then
    .error (s!"krb5: INTEGER of {b.length} bytes is out of range for this " ++ "coder")
  else
    let negative := b.byteAt 0 &&& 0x80 ≠ 0
    let v : Nat := b.foldl (fun v byte => v * 256 + byte.toNat) 0
    .ok (if negative then (v : Int) - 2 ^ (8 * b.length) else v)

/-- `decOctetString`. -/
def decOctetString (t : Tlv) : Except String Buffer := do
  let t ← expectTag t TAG.octetString "an OCTET STRING"
  return t.value

/-- `decLatin1`. -/
def decLatin1 (bytes : Buffer) : List Nat := bytes.map UInt8.toNat

/-- `decGeneralString`. -/
def decGeneralString (t : Tlv) : Except String (List Nat) := do
  if t.tag ≠ TAG.generalString ∧ t.tag ≠ TAG.ia5String then
    let _ ← expectTag t TAG.generalString "a KerberosString"
  return (fromUtf8 t.value).getD (decLatin1 t.value)

/-- `decKerberosTime`. -/
def decKerberosTime (t : Tlv) : Except String Int := do
  let t ← expectTag t TAG.generalizedTime "a KerberosTime"
  parseKerberosTime (decLatin1 t.value)

/-- `decFlags`, past the count of unused trailing bits. -/
def decFlags (t : Tlv) : Except String Buffer := do
  let t ← expectTag t TAG.bitString "a KerberosFlags BIT STRING"
  if t.value.length < 1 then
    .error "krb5: empty BIT STRING"
  else
    .ok (t.value.drop 1)

/-- `decSequenceOf`. -/
def decSequenceOf (t : Tlv) : Except String (List Tlv) := do
  let t ← expectTag t TAG.sequence "a SEQUENCE"
  readChildren t.value 0

/-- What `readApplication` returns. -/
structure Application where
  applicationNumber : Nat
  sequence : Tlv
  outer : Tlv
  deriving DecidableEq

/-- `readApplication`, of any number or of the one expected. -/
def readApplication (b : Buffer) (expectedNumber : Option Nat) :
    Except String Application := do
  if maxInputBytes < b.length then
    throw s!"krb5: refusing to parse {b.length} bytes (limit {maxInputBytes})"
  let outer ← readTlv b 0 0
  if outer.tag &&& 0xe0 ≠ 0x60 then
    throw ("krb5: not a Kerberos message — the outermost tag is 0x" ++
      hex outer.tag ++
      ", expected an [APPLICATION n] constructed tag (0x60-0x7e)")
  let number := outer.tag &&& 0x1f
  match expectedNumber with
  | some expected =>
    if number ≠ expected then
      throw (s!"krb5: expected [APPLICATION {expected}] but found " ++ s!"[APPLICATION {number}]")
  | none => pure ()
  match ← readChildren outer.value 1 with
  | [inner] =>
    let sequence ← expectTag inner TAG.sequence s!"the SEQUENCE inside [APPLICATION {number}]"
    return { applicationNumber := number, sequence, outer }
  | inner =>
    throw (s!"krb5: [APPLICATION {number}] wraps {inner.length} " ++ "elements, expected 1")

end IyaSts.Krb5Asn1
