import IyaSts.JsNumber
import IyaSts.Json
import IyaSts.Utf8

namespace IyaSts.VcStatusCodec

open JsNumber

/-!
# The CBOR codec of `vc_status_codec.ts`

The encoder walks a value, the decoder a position in a buffer.  Both count how
deep they are and refuse to go below `cborMaxDepth`: here `left` is how many
levels remain.
-/

/-- `CBOR_MAX_DEPTH`. -/
def cborMaxDepth : Nat := 64

/-- A JavaScript value the codec meets. -/
inductive Item where
  | boolean (value : Bool)
  | null
  | undefined
  /-- A number that is an integer. -/
  | integer (value : Int)
  | bigint (value : Int)
  /-- A number that is not an integer, by the bits of its double. -/
  | float (bits : Nat)
  | bytes (value : Buffer)
  | text (value : String)
  | array (items : List Item)
  | map (members : List (Item × Item))
  | tagged (tag : Nat) (value : Item)
  /-- A plain object. -/
  | record (members : List (String × Item))
  /-- A value of no other kind, by its `typeof`. -/
  | other (type : String)

/-! ## Encoding -/

/-- The shortest head of a major type and an argument. -/
def cborHead (major value : Nat) : Except String Buffer :=
  if value < 24 then
    .ok [UInt8.ofNat (major <<< 5 ||| value)]
  else if value < 0x100 then
    .ok [UInt8.ofNat (major <<< 5 ||| 24), UInt8.ofNat value]
  else if value < 0x10000 then
    .ok (UInt8.ofNat (major <<< 5 ||| 25) :: Buffer.bigEndian 2 value)
  else if value < 0x100000000 then
    .ok (UInt8.ofNat (major <<< 5 ||| 26) :: Buffer.bigEndian 4 value)
  else if value < 2 ^ 64 then
    .ok (UInt8.ofNat (major <<< 5 ||| 27) :: Buffer.bigEndian 8 value)
  else
    -- `writeBigUInt64BE` throws.
    .error "ERR_OUT_OF_RANGE"

/-- The head of an integer: major type 0, or 1 where it is negative. -/
def cborInteger (value : Int) : Except String Buffer :=
  if 0 ≤ value then
    cborHead 0 value.toNat
  else
    cborHead 1 (-1 - value).toNat

/-- A key and its value, one after the other. -/
def writeMember (write : Item → Except String Buffer)
    (key value : Item) : Except String Buffer := do
  let key ← write key
  let value ← write value
  pure (key ++ value)

/-- `walk` of `cborEncode`, with `left` levels to go. -/
def walk : Nat → Item → Except String Buffer
  | 0, _ => throw s!"CBOR: nested deeper than {cborMaxDepth}."
  | left + 1, item =>
    match item with
    | .boolean value => pure [if value then 0xf5 else 0xf4]
    | .null => pure [0xf6]
    | .undefined => pure [0xf7]
    | .float bits => pure (0xfb :: Buffer.bigEndian 8 bits)
    | .integer value =>
      if isSafeInteger value = false then
        throw s!"CBOR: {value} is not a safe integer; pass a bigint."
      else
        cborInteger value
    | .bigint value => cborInteger value
    | .bytes value => do
      let head ← cborHead 2 value.length
      pure (head ++ value)
    | .text value => do
      let text := Utf8.encode value
      let head ← cborHead 3 text.length
      pure (head ++ text)
    | .array items => do
      let head ← cborHead 4 items.length
      let parts ← items.mapM (walk left)
      pure (head ++ parts.flatten)
    | .map members => do
      let head ← cborHead 5 members.length
      let parts ← members.mapM fun member => writeMember (walk left) member.1 member.2
      pure (head ++ parts.flatten)
    | .tagged tag value => do
      let head ← cborHead 6 tag
      let part ← walk left value
      pure (head ++ part)
    | .record members => do
      let head ← cborHead 5 members.length
      let parts ← members.mapM fun member => writeMember (walk left) (.text member.1) member.2
      pure (head ++ parts.flatten)
    | .other type => throw s!"CBOR: cannot encode a {type}."

/-- `cborEncode`. -/
def cborEncode (value : Item) : Except String Buffer := walk (cborMaxDepth + 1) value

/-! ## Decoding -/

/-- What the engine makes of floating-point bits, which is not modelled. -/
structure FloatReader where
  half : Nat → Item
  single : Nat → Item
  double : Nat → Item
  /-- `JSON.stringify` of a number that is no safe integer. -/
  json : Item → String

/-- A major type and its argument, with the bits that say how it is written. -/
structure Head where
  major : Nat
  info : Nat
  arg : Nat
  deriving DecidableEq

/-- Refuse to read past the end. -/
def need (buf : Buffer) (pos n : Nat) : Except String Unit :=
  if pos + n > buf.length then
    throw s!"CBOR: truncated at byte {pos}."
  else
    pure ()

/-- `readUInt8`, `readUInt16BE`, `readUInt32BE` and `readBigUInt64BE`. -/
def readUInt (buf : Buffer) (pos width : Nat) : Nat :=
  Buffer.bigEndianValue ((buf.drop pos).take width)

/-- The argument a first byte announces, and where the head ends. -/
def headArgument (buf : Buffer) (pos major info : Nat) :
    Except String (Head × Nat) := do
  if info = 24 then
    need buf pos 1
    pure (⟨major, info, readUInt buf pos 1⟩, pos + 1)
  else if info = 25 then
    need buf pos 2
    pure (⟨major, info, readUInt buf pos 2⟩, pos + 2)
  else if info = 26 then
    need buf pos 4
    pure (⟨major, info, readUInt buf pos 4⟩, pos + 4)
  else if info = 27 then
    need buf pos 8
    let big := readUInt buf pos 8
    if major ≠ 7 ∧ big > maxSafeInteger then
      throw s!"CBOR: an argument larger than {maxSafeInteger} is not accepted."
    else if major = 7 then
      -- The position goes back for `readDoubleBE`.
      pure (⟨major, info, 0⟩, pos)
    else
      pure (⟨major, info, big⟩, pos + 8)
  else if info > 27 then
    throw s!"CBOR: indefinite lengths and reserved values are not accepted (info {info})."
  else
    pure (⟨major, info, info⟩, pos)

/-- `head` of `cborDecode`: a head, and where it ends. -/
def head (buf : Buffer) (start : Nat) : Except String (Head × Nat) := do
  need buf start 1
  let first := readUInt buf start 1
  headArgument buf (start + 1) (first >>> 5) (first &&& 31)

/-- Whether a `Map` takes two decoded keys for one. -/
def sameKey : Item → Item → Bool
  | .boolean value, .boolean value' => value == value'
  | .null, .null => true
  | .undefined, .undefined => true
  | .integer value, .integer value' => value == value'
  | .float bits, .float bits' => bits == bits'
  | .text value, .text value' => value == value'
  -- Every other decoded key is an object of its own.
  | _, _ => false

/-- `JSON.stringify` of a key a map repeats. -/
def keyJson (floats : FloatReader) : Item → String
  | .boolean value => toString value
  | .null => "null"
  | .integer value =>
    if isSafeInteger value then
      toString value
    else
      floats.json (.integer value)
  | .float bits => floats.json (.float bits)
  | .text value => Json.quote value
  | _ => "undefined"

/-- The loop that reads the items of an array. -/
def readItems (read : Nat → Except String (Item × Nat)) :
    Nat → Nat → Except String (List Item × Nat)
  | 0, pos => pure ([], pos)
  | count + 1, pos => do
    let (one, pos) ← read pos
    let (others, pos) ← readItems read count pos
    pure (one :: others, pos)

/-- The loop that reads the members of a map. -/
def readMembers (floats : FloatReader) (read : Nat → Except String (Item × Nat)) :
    Nat →
    List (Item × Item) →
    Nat →
    Except String (List (Item × Item) × Nat)
  | 0, held, pos => pure (held, pos)
  | count + 1, held, pos => do
    let (key, pos) ← read pos
    if held.any fun member => sameKey member.1 key then
      let shown := keyJson floats key
      throw s!"CBOR: a map repeats the key {shown}."
    else
      let (value, pos) ← read pos
      readMembers floats read count (held ++ [(key, value)]) pos

/-- What a head of major type 7 says; `pos` is where the head ends. -/
def readSimple (floats : FloatReader) (buf : Buffer) (h : Head)
    (pos : Nat) : Except String (Item × Nat) := do
  if h.info = 20 then
    pure (.boolean false, pos)
  else if h.info = 21 then
    pure (.boolean true, pos)
  else if h.info = 22 then
    pure (.null, pos)
  else if h.info = 23 then
    pure (.undefined, pos)
  else if h.info = 25 then
    need buf (pos - 2) 2
    pure (floats.half (readUInt buf (pos - 2) 2), pos)
  else if h.info = 26 then
    pure (floats.single (readUInt buf (pos - 4) 4), pos)
  else if h.info = 27 then
    need buf pos 8
    pure (floats.double (readUInt buf pos 8), pos + 8)
  else
    throw s!"CBOR: simple value {h.arg} is not accepted."

/-- The switch of `item`: what follows a head, read one level down. -/
def content (floats : FloatReader) (buf : Buffer) (read : Nat → Except String (Item × Nat))
    (h : Head)
    (pos : Nat) : Except String (Item × Nat) := do
  match h.major with
  | 0 => pure (.integer h.arg, pos)
  | 1 => pure (.integer (-1 - h.arg), pos)
  | 2 =>
    need buf pos h.arg
    pure (.bytes ((buf.drop pos).take h.arg), pos + h.arg)
  | 3 =>
    need buf pos h.arg
    let text := Utf8.decode ((buf.drop pos).take h.arg)
    pure (.text text, pos + h.arg)
  | 4 =>
    need buf pos h.arg
    let (items, pos) ← readItems read h.arg pos
    pure (.array items, pos)
  | 5 =>
    need buf pos (h.arg * 2)
    let (members, pos) ← readMembers floats read h.arg [] pos
    pure (.map members, pos)
  | 6 =>
    let (value, pos) ← read pos
    pure (.tagged h.arg value, pos)
  | _ => readSimple floats buf h pos

/-- `item` of `cborDecode`, with `left` levels to go. -/
def item (floats : FloatReader) (buf : Buffer) :
    Nat → Nat → Except String (Item × Nat)
  | 0, _ => throw s!"CBOR: nested deeper than {cborMaxDepth}."
  | left + 1, start => do
    let (h, pos) ← head buf start
    content floats buf (item floats buf left) h pos

/-- `cborDecode`: one item that is the whole input. -/
def cborDecode (floats : FloatReader) (input : Buffer) :
    Except String Item := do
  let (out, pos) ← item floats input (cborMaxDepth + 1) 0
  if pos ≠ input.length then
    let trailing := input.length - pos
    throw s!"CBOR: {trailing} byte(s) follow the item."
  else
    pure out

/-! ## What round trips -/

/--
A value of the data model, nested within some levels: integers that are safe,
maps whose keys are distinct, lengths and tags that a number counts.
-/
def WellFormed : Nat → Item → Prop
  | 0, _ => False
  | left + 1, item =>
    match item with
    | .boolean _ => True
    | .null => True
    | .undefined => True
    | .integer value => value.natAbs ≤ maxSafeInteger
    | .bytes value => value.length ≤ maxSafeInteger
    | .text value => (Utf8.encode value).length ≤ maxSafeInteger
    | .array items => items.length ≤ maxSafeInteger ∧ ∀ one ∈ items, WellFormed left one
    | .map members =>
      members.length ≤ maxSafeInteger ∧
        members.Pairwise
            (fun member member' => sameKey member.1 member'.1 = false) ∧
          ∀ member ∈ members, WellFormed left member.1 ∧ WellFormed left member.2
    | .tagged tag value => tag ≤ maxSafeInteger ∧ WellFormed left value
    | _ => False

/-- A head that is as short as its argument allows. -/
def Head.Shortest (h : Head) : Prop :=
  (h.info = 24 → 24 ≤ h.arg) ∧
    (h.info = 25 → 0x100 ≤ h.arg) ∧
      (h.info = 26 → 0x10000 ≤ h.arg) ∧ (h.info = 27 → 0x100000000 ≤ h.arg)

instance (h : Head) : Decidable h.Shortest := inferInstanceAs (Decidable (_ ∧ _ ∧ _ ∧ _))

/-- A head that begins a floating-point number. -/
def Head.IsFloat (h : Head) : Prop := h.major = 7 ∧ 25 ≤ h.info

instance (h : Head) : Decidable h.IsFloat := inferInstanceAs (Decidable (_ ∧ _))

/-- How many bytes after a head are content and no heads. -/
def Head.payload (h : Head) : Nat := if h.major = 2 ∨ h.major = 3 then h.arg else 0

/--
Every head of a buffer, from a position on, has a property.  It is told where
the head's content begins.
-/
inductive AllHeads (buf : Buffer) (Holds : Head → Nat → Prop) :
    Nat → Prop where
  | done {pos : Nat} (ended : buf.length ≤ pos) : AllHeads buf Holds pos
  | more {pos next : Nat} {h : Head}
      (reads : head buf pos = .ok (h, next))
      (holds : Holds h next)
      (others : AllHeads buf Holds (next + h.payload)) :
      AllHeads buf Holds pos

/-- Heads in shortest form, and no floating-point numbers. -/
def ShortestHeads (buf : Buffer) : Prop := AllHeads buf (fun h _ => h.Shortest ∧ ¬ h.IsFloat) 0

/-- A head whose content the decoded value still tells. -/
def Head.Faithful (buf : Buffer) (h : Head) (pos : Nat) : Prop :=
  (h.major = 3 → ∃ text, (buf.drop pos).take h.arg = Utf8.encode text) ∧
    ¬ (h.major = 1 ∧ h.arg = maxSafeInteger)

end IyaSts.VcStatusCodec
