import IyaSts.Binary64Bits
import IyaSts.Utf8

namespace IyaSts.Cbor

open Binary64

/-!
# Concise binary object representation

The data items of RFC 8949 and the bytes that encode them.  An encoding tells how
each head is written, of a definite length always; the data item it encodes does
not.
-/

open List

/-! ## Data items -/

/-- A data item of the generic data model. -/
inductive DataItem where
  | integer (value : Int)
  | bytes (value : Buffer)
  | text (value : String)
  | array (items : List DataItem)
  | map (members : List (DataItem × DataItem))
  | tagged (tag : Nat) (value : DataItem)
  | simple (value : Nat)
  | float (value : Number)

namespace DataItem

/-- The same data item: the members of a map are in no order. -/
inductive Same : DataItem → DataItem → Prop where
  | integer (value : Int) : Same (.integer value) (.integer value)
  | bytes (value : Buffer) : Same (.bytes value) (.bytes value)
  | text (value : String) : Same (.text value) (.text value)
  | array {items items' : List DataItem}
      (each : List.Forall₂ Same items items') :
      Same (.array items) (.array items')
  | map {members members' reordered : List (DataItem × DataItem)}
      (reorders : reordered.Perm members')
      (keys : List.Forall₂ Same (members.map Prod.fst) (reordered.map Prod.fst))
      (values : List.Forall₂ Same (members.map Prod.snd) (reordered.map Prod.snd)) :
      Same (.map members) (.map members')
  | tagged (tag : Nat) {value value' : DataItem}
      (same : Same value value') :
      Same (.tagged tag value) (.tagged tag value')
  | simple (value : Nat) : Same (.simple value) (.simple value)
  | float (value : Number) : Same (.float value) (.float value)

/-- The data items a data item is made of. -/
def parts : DataItem → List DataItem
  | .array items => items
  | .map members => members.flatMap fun member => [member.1, member.2]
  | .tagged _ value => [value]
  | _ => []

/-- Where it is a map, no two of its keys are the same. -/
def KeysDiffer : DataItem → Prop
  | .map members => members.Pairwise fun member member' => ¬ Same member.1 member'.1
  | _ => True

/-- In no map of it two keys are the same. -/
inductive DistinctKeys : DataItem → Prop where
  | intro {item : DataItem}
      (differ : item.KeysDiffer)
      (within : ∀ part ∈ item.parts, DistinctKeys part) :
      DistinctKeys item

end DataItem

/-! ## Encodings -/

/-- A data item as it is written; `info` tells how its head is. -/
inductive Encoding where
  | unsigned (info value : Nat)
  | negative (info value : Nat)
  | bytes (info : Nat) (value : Buffer)
  | text (info : Nat) (value : Buffer)
  | array (info : Nat) (items : List Encoding)
  | map (info : Nat) (members : List (Encoding × Encoding))
  | tagged (info tag : Nat) (value : Encoding)
  /-- A simple value, or the bits of a floating-point number. -/
  | special (info value : Nat)

/-- How many bytes of argument follow a first byte. -/
def argumentWidth (info : Nat) : Nat :=
  if info = 24 then
    1
  else if info = 25 then
    2
  else if info = 26 then
    4
  else if info = 27 then
    8
  else
    0

/-- A first byte and the bytes of the argument. -/
def headBytes (major info argument : Nat) : Buffer :=
  UInt8.ofNat (major * 32 + info) :: Buffer.bigEndian (argumentWidth info) argument

/-- An argument can be written so. -/
def Announces (info argument : Nat) : Prop :=
  info ≤ 27 ∧
    if info < 24 then
      argument = info
    else
      argument < 256 ^ argumentWidth info

namespace Encoding

/-- The major type. -/
def major : Encoding → Nat
  | .unsigned .. => 0
  | .negative .. => 1
  | .bytes .. => 2
  | .text .. => 3
  | .array .. => 4
  | .map .. => 5
  | .tagged .. => 6
  | .special .. => 7

/-- How the head is written. -/
def info : Encoding → Nat
  | .unsigned info _
  | .negative info _
  | .bytes info _
  | .text info _
  | .array info _
  | .map info _
  | .tagged info _ _
  | .special info _ => info

/-- What the head counts or names. -/
def argument : Encoding → Nat
  | .unsigned _ value => value
  | .negative _ value => value
  | .bytes _ value => value.length
  | .text _ value => value.length
  | .array _ items => items.length
  | .map _ members => members.length
  | .tagged _ tag _ => tag
  | .special _ value => value

/-- The encodings an encoding is made of. -/
def parts : Encoding → List Encoding
  | .array _ items => items
  | .map _ members => members.flatMap fun member => [member.1, member.2]
  | .tagged _ _ value => [value]
  | _ => []

theorem sizeOf_member_lt {member : Encoding × Encoding} {members : List (Encoding × Encoding)}
    (isMember : member ∈ members) :
    sizeOf member.1 < sizeOf members ∧ sizeOf member.2 < sizeOf members := by
  have isLess := sizeOf_lt_of_mem isMember
  obtain ⟨key, value⟩ := member
  simp only [Prod.mk.sizeOf_spec] at isLess ⊢
  omega

/-- The bytes of an encoding. -/
def bytesOf : Encoding → Buffer
  | .unsigned info value => headBytes 0 info value
  | .negative info value => headBytes 1 info value
  | .bytes info value => headBytes 2 info value.length ++ value
  | .text info value => headBytes 3 info value.length ++ value
  | .array info items => headBytes 4 info items.length ++ items.flatMap bytesOf
  | .map info members =>
    headBytes 5 info members.length ++
      members.flatMap fun member => bytesOf member.1 ++ bytesOf member.2
  | .tagged info tag value => headBytes 6 info tag ++ bytesOf value
  | .special info value => headBytes 7 info value
  decreasing_by
    · decreasing_tactic
    · have := sizeOf_member_lt ‹_›
      decreasing_tactic
    · have := sizeOf_member_lt ‹_›
      decreasing_tactic
    · decreasing_tactic

/-- What a head of major type 7 stands for. -/
def specialMeaning (info value : Nat) : DataItem :=
  if info = 25 then
    .float (Format.half.read value)
  else if info = 26 then
    .float (Format.single.read value)
  else if info = 27 then
    .float (Format.double.read value)
  else
    .simple value

/-- The data item that is encoded, where every text is UTF-8. -/
def meaning : Encoding → DataItem
  | .unsigned _ value => .integer value
  | .negative _ value => .integer (-1 - value)
  | .bytes _ value => .bytes value
  | .text _ value => .text (Utf8.decode value)
  | .array _ items => .array (items.map meaning)
  | .map _ members => .map (members.map fun member => (meaning member.1, meaning member.2))
  | .tagged _ tag value => .tagged tag (meaning value)
  | .special info value => specialMeaning info value
  decreasing_by
    · decreasing_tactic
    · have := sizeOf_member_lt ‹_›
      decreasing_tactic
    · have := sizeOf_member_lt ‹_›
      decreasing_tactic
    · decreasing_tactic

/-- A property of an encoding and of all it is made of. -/
inductive Every (Holds : Encoding → Prop) : Encoding → Prop where
  | intro {encoding : Encoding}
      (here : Holds encoding)
      (within : ∀ part ∈ encoding.parts, Every Holds part) :
      Every Holds encoding

/-- The head can be written so; a simple value below 32 needs no byte of its own. -/
def Proper (encoding : Encoding) : Prop :=
  Announces encoding.info encoding.argument ∧
    match encoding with
    | .special info value => info = 24 → 32 ≤ value
    | _ => True

/-- Where it is a text, its bytes are UTF-8. -/
def ProperText : Encoding → Prop
  | .text _ value => ∃ text, value = Utf8.encode text
  | _ => True

end Encoding

/-- Some bytes, all of them, are a data item. -/
def Encodes (bytes : Buffer) (item : DataItem) : Prop :=
  ∃ encoding : Encoding,
    encoding.Every Encoding.Proper ∧
      encoding.Every Encoding.ProperText ∧ encoding.bytesOf = bytes ∧ encoding.meaning = item

/-! ## One encoding for some bytes -/

/-- A head and what follows it are told by the bytes. -/
theorem headBytes_append_inj {major major' info info' argument argument' : Nat}
    {rest rest' : Buffer} (isMajor : major < 8) (isMajor' : major' < 8)
    (announces : Announces info argument) (announces' : Announces info' argument')
    (same : headBytes major info argument ++ rest = headBytes major' info' argument' ++ rest') :
    major = major' ∧ info = info' ∧ argument = argument' ∧ rest = rest' := by
  obtain ⟨inRange, isArgument⟩ := announces
  obtain ⟨inRange', isArgument'⟩ := announces'
  rw [headBytes, headBytes, cons_append, cons_append, List.cons.injEq] at same
  obtain ⟨sameFirst, sameOthers⟩ := same
  have firsts := congrArg UInt8.toNat sameFirst
  rw [UInt8.toNat_ofNat', UInt8.toNat_ofNat'] at firsts
  have sameMajor : major = major' := by omega
  have sameInfo : info = info' := by omega
  subst sameInfo
  obtain ⟨sameArguments, sameRest⟩ := append_inj sameOthers (by
      rw [Buffer.length_bigEndian, Buffer.length_bigEndian])
  refine ⟨sameMajor, rfl, ?_, sameRest⟩
  by_cases immediate : info < 24
  · rw [if_pos immediate] at isArgument isArgument'
    rw [isArgument, isArgument']
  · rw [if_neg immediate] at isArgument isArgument'
    have spelled := congrArg Buffer.bigEndianValue sameArguments
    rwa [Buffer.bigEndianValue_bigEndian, Buffer.bigEndianValue_bigEndian,
      Nat.mod_eq_of_lt isArgument, Nat.mod_eq_of_lt isArgument'] at spelled

/-- What is written, with anything after it, is told from any other one. -/
def ToldApart {α : Type} (write : α → Buffer) (Good : α → Prop) (one : α) : Prop :=
  ∀ ⦃other : α⦄ ⦃rest rest' : Buffer⦄,
    Good other → write one ++ rest = write other ++ rest' → one = other ∧ rest = rest'

theorem toldApart_flatMap {α : Type} {write : α → Buffer} {Good : α → Prop}
    {items items' : List α} {rest rest' : Buffer} (each : ∀ item ∈ items, ToldApart write Good item)
    (isGood : ∀ item ∈ items', Good item) (asMany : items.length = items'.length)
    (same : items.flatMap write ++ rest = items'.flatMap write ++ rest') :
    items = items' ∧ rest = rest' := by
  induction items generalizing items' with
  | nil =>
    cases items' with
    | nil => exact ⟨rfl, same⟩
    | cons item' others' => cases asMany
  | cons item others ih =>
    cases items' with
    | nil => cases asMany
    | cons item' others' =>
      rw [flatMap_cons, flatMap_cons, append_assoc, append_assoc] at same
      obtain ⟨sameItem, sameOthers⟩ :=
        each item mem_cons_self (isGood item' mem_cons_self) same
      obtain ⟨sameItems, sameRest⟩ :=
        ih
          (fun one isOne => each one (mem_cons_of_mem _ isOne))
          (fun one isOne => isGood one (mem_cons_of_mem _ isOne))
          (Nat.succ.inj asMany) sameOthers
      exact ⟨by rw [sameItem, sameItems], sameRest⟩

namespace Encoding

theorem major_lt (encoding : Encoding) : encoding.major < 8 := by cases encoding <;> simp [major]

theorem mem_parts_of_member {info : Nat} {members : List (Encoding × Encoding)}
    {member : Encoding × Encoding} (isMember : member ∈ members) :
    member.1 ∈ (Encoding.map info members).parts ∧ member.2 ∈ (Encoding.map info members).parts :=
  ⟨mem_flatMap.mpr ⟨member, isMember, by simp⟩,
    mem_flatMap.mpr ⟨member, isMember, by simp⟩⟩

/-- What follows a head, by the parts. -/
def body : Encoding → Buffer
  | .bytes _ value => value
  | .text _ value => value
  | .array _ items => items.flatMap bytesOf
  | .map _ members => members.flatMap fun member => bytesOf member.1 ++ bytesOf member.2
  | .tagged _ _ value => bytesOf value
  | _ => []

theorem bytesOf_eq (encoding : Encoding) :
    encoding.bytesOf =
      headBytes encoding.major encoding.info encoding.argument ++ encoding.body := by
  cases encoding <;> simp only [bytesOf, major, info, argument, body, append_nil]

variable {encoding : Encoding}

/-- Bytes have one proper encoding, whatever follows them. -/
theorem toldApart (isProper : encoding.Every Proper) :
    ToldApart bytesOf (Every Proper) encoding := by
  induction isProper with
  | @intro encoding here within ih =>
    rintro other rest rest' ⟨here', within'⟩ same
    rw [bytesOf_eq, bytesOf_eq other, append_assoc, append_assoc] at same
    obtain ⟨sameMajor, sameInfo, sameArgument, sameBody⟩ :=
      headBytes_append_inj encoding.major_lt other.major_lt here.1 here'.1 same
    cases encoding <;> cases other <;> try cases sameMajor
    all_goals simp only [info, argument] at sameInfo sameArgument
    all_goals subst sameInfo
    case intro.unsigned.unsigned.refl => exact ⟨by rw [sameArgument], sameBody⟩
    case intro.negative.negative.refl => exact ⟨by rw [sameArgument], sameBody⟩
    case intro.bytes.bytes.refl =>
      obtain ⟨sameValue, sameRest⟩ := append_inj sameBody sameArgument
      exact ⟨congrArg _ sameValue, sameRest⟩
    case intro.text.text.refl =>
      obtain ⟨sameValue, sameRest⟩ := append_inj sameBody sameArgument
      exact ⟨congrArg _ sameValue, sameRest⟩
    case intro.array.array.refl =>
      obtain ⟨sameItems, sameRest⟩ := toldApart_flatMap ih within' sameArgument sameBody
      exact ⟨congrArg _ sameItems, sameRest⟩
    case intro.map.map.refl =>
      obtain ⟨sameMembers, sameRest⟩ :=
        @toldApart_flatMap _ _
          (fun member => member.1.Every Proper ∧ member.2.Every Proper)
          _ _ _ _
          (by
            intro member isMember other rest rest' isGood sameMember
            obtain ⟨isKey, isValue⟩ := mem_parts_of_member isMember
            rw [append_assoc, append_assoc] at sameMember
            obtain ⟨sameKey, sameTail⟩ := ih _ isKey isGood.1 sameMember
            obtain ⟨sameValue, sameRest⟩ := ih _ isValue isGood.2 sameTail
            exact ⟨Prod.ext sameKey sameValue, sameRest⟩)
          (fun member isMember =>
            ⟨within' _ (mem_parts_of_member isMember).1,
              within' _ (mem_parts_of_member isMember).2⟩)
          sameArgument sameBody
      exact ⟨congrArg _ sameMembers, sameRest⟩
    case intro.tagged.tagged.refl =>
      obtain ⟨sameValue, sameRest⟩ := ih _ (by simp [parts]) (within' _ (by simp [parts])) sameBody
      exact ⟨by rw [sameArgument, sameValue], sameRest⟩
    case intro.special.special.refl => exact ⟨by rw [sameArgument], sameBody⟩

/-- Some bytes, all of them, have one proper encoding. -/
theorem bytesOf_inj {encoding encoding' : Encoding} (isProper : encoding.Every Proper)
    (isProper' : encoding'.Every Proper) (same : encoding.bytesOf = encoding'.bytesOf) :
    encoding = encoding' :=
  (toldApart isProper isProper'
    (show encoding.bytesOf ++ [] = encoding'.bytesOf ++ [] by rw [same])).1

/-! ## Properties of every part -/

variable (Holds : Encoding → Prop)

theorem every_iff (encoding : Encoding) :
    encoding.Every Holds ↔ Holds encoding ∧ ∀ part ∈ encoding.parts, part.Every Holds :=
  ⟨fun ⟨here, within⟩ => ⟨here, within⟩, fun ⟨here, within⟩ => .intro here within⟩

theorem Every.here {Holds : Encoding → Prop} (every : encoding.Every Holds) : Holds encoding :=
  ((every_iff Holds encoding).mp every).1

theorem forall_parts_map_iff (info : Nat) (members : List (Encoding × Encoding)) :
    (∀ part ∈ (Encoding.map info members).parts, Holds part) ↔
      ∀ member ∈ members, Holds member.1 ∧ Holds member.2 := by
  simp only [parts, forall_mem_flatMap, forall_mem_cons, not_mem_nil,
    false_implies, implies_true, and_true]

/-- A data item is made of what the parts of its encoding mean. -/
theorem parts_meaning (encoding : Encoding) :
    encoding.meaning.parts = encoding.parts.map meaning := by
  cases encoding with
  | map info members =>
    rw [meaning, parts, DataItem.parts, flatMap_map, map_flatMap]
    rfl
  | special info value =>
    rw [meaning, specialMeaning]
    split_ifs <;> rfl
  | _ =>
    rw [meaning]
    rfl

theorem Every.imp {Holds Holds' : Encoding → Prop} (implies : ∀ one, Holds one → Holds' one)
    (holds : encoding.Every Holds) :
    encoding.Every Holds' := by
  induction holds with
  | intro here within ih => exact .intro (implies _ here) ih


theorem bytesOf_length_pos (encoding : Encoding) : 0 < encoding.bytesOf.length := by
  rw [bytesOf_eq, headBytes, cons_append]
  exact Nat.succ_pos _

end Encoding

end IyaSts.Cbor
