import IyaSts.Cbor
import IyaSts.VcStatusCborRoundTrip

namespace IyaSts.VcStatusCodec

open JsNumber Fallible Binary64
open Cbor (Encoding Announces headBytes)

/-!
# What the CBOR decoder accepts

The decoder accepts the bytes of an encoding that has a certain form and of no
other, and answers a value that follows from the encoding.
-/

open List

/-! ## Floating-point numbers -/

/-- A number among the values of the codec; of a zero the sign is not kept. -/
def numberItem : Number → Item
  | .finite negative magnitude =>
    if (Number.exactly negative magnitude).den = 1 then
      .integer (Number.exactly negative magnitude).num
    else
      .float (toBits (.finite negative magnitude))
  | number => .float (toBits number)

/--
What the decoder computes of a half.  Every factor and every product is a
double, so nothing is rounded.
-/
def halfNumber (half : Nat) : Number :=
  let exp := half >>> 10 &&& 0x1f
  let mant := half &&& 0x3ff
  let negative := decide (half &&& 0x8000 ≠ 0)
  if exp = 0 then
    .finite negative (mant * 2 ^ (-14 : ℤ))
  else if exp = 31 then
    if mant ≠ 0 then .nan else .infinite negative
  else
    .finite negative ((mant + 1024 : ℕ) * 2 ^ ((exp : ℤ) - 25))

/-- The decoder's own halves, `readFloatBE` and `readDoubleBE`. -/
def floatReader (json : Item → String) : FloatReader where
  half := fun bits => numberItem (halfNumber bits)
  single := fun bits => numberItem (Format.single.read bits)
  double := fun bits => numberItem (Format.double.read bits)
  json := json

/-! ## Values of encodings -/

/-- What a head of major type 7 is read as, where it is accepted. -/
def specialValue (info value : Nat) : Item :=
  if info = 20 then
    .boolean false
  else if info = 21 then
    .boolean true
  else if info = 22 then
    .null
  else if info = 23 then
    .undefined
  else if info = 25 then
    numberItem (halfNumber value)
  else if info = 26 then
    numberItem (Format.single.read value)
  else
    numberItem (Format.double.read value)

/-- What an encoding is read as, where it is accepted. -/
def valueOf : Encoding → Item
  | .unsigned _ value => .integer value
  | .negative _ value => .integer (-1 - value)
  | .bytes _ value => .bytes value
  | .text _ value => .text (Utf8.decode value)
  | .array _ items => .array (items.map valueOf)
  | .map _ members => .map (members.map fun member => (valueOf member.1, valueOf member.2))
  | .tagged _ tag value => .tagged tag (valueOf value)
  | .special info value => specialValue info value
  decreasing_by
    · decreasing_tactic
    · have := Encoding.sizeOf_member_lt ‹_›
      decreasing_tactic
    · have := Encoding.sizeOf_member_lt ‹_›
      decreasing_tactic
    · decreasing_tactic

/-- What a `Map` compares of a key; of an object it compares nothing. -/
def keyOf : Encoding → Option Item
  | .unsigned _ value => some (.integer value)
  | .negative _ value => some (.integer (-1 - value))
  | .text _ value => some (.text (Utf8.decode value))
  | .special info value => some (specialValue info value)
  | _ => none

/-- A `Map` takes the two keys for one. -/
def TakenForOne (key key' : Encoding) : Prop :=
  ∃ compared, keyOf key = some compared ∧ keyOf key' = some compared

/-- No key is taken for an earlier one. -/
def KeysApart (members : List (Encoding × Encoding)) : Prop :=
  members.Pairwise fun member member' => ¬ TakenForOne member.1 member'.1

/-! ## The form that is accepted -/

/-- A head is accepted, and of a map no key is taken for another. -/
def AcceptedHere (encoding : Encoding) : Prop :=
  encoding.Proper ∧
    match encoding with
    | .special info _ => info ∈ [20, 21, 22, 23, 25, 26, 27]
    | .map _ members => members.length ≤ maxSafeInteger ∧ KeysApart members
    | _ => encoding.argument ≤ maxSafeInteger

/-- An encoding nested within some levels. -/
def Nested : Nat → Encoding → Prop
  | 0, _ => False
  | left + 1, encoding => ∀ part ∈ encoding.parts, Nested left part

/-- The form of what the decoder accepts with some levels to go. -/
structure Accepted (left : Nat) (encoding : Encoding) : Prop where
  form : encoding.Every AcceptedHere
  nested : Nested left encoding

/-! ## Heads -/

/-- A first byte is a major type and how the head is written. -/
theorem firstByte_eq (first : UInt8) :
    first = UInt8.ofNat ((first.toNat >>> 5) * 32 + (first.toNat &&& 31)) := by
  have mask : (31 : Nat) = 2 ^ 5 - 1 := rfl
  rw [Nat.shiftRight_eq_div_pow, mask, Nat.and_two_pow_sub_one_eq_mod,
    Nat.div_add_mod', UInt8.ofNat_toNat]

theorem firstByte_parts {major info : Nat} (isMajor : major < 8) (isInfo : info < 32) :
    (UInt8.ofNat (major * 32 + info)).toNat >>> 5 = major ∧
      (UInt8.ofNat (major * 32 + info)).toNat &&& 31 = info := by
  have shape : major <<< 5 ||| info = major * 32 + info := by
    rw [← Nat.shiftLeft_add_eq_or_of_lt (by omega), Nat.shiftLeft_eq]
  rw [← shape]
  exact firstByte isMajor isInfo

theorem length_headBytes (major info argument : Nat) :
    (headBytes major info argument).length = argumentWidth info + 1 := by
  rw [headBytes, length_cons, Buffer.length_bigEndian]
  rfl

/-- The argument of a head stands past its first byte. -/
theorem At.argument {buf rest : Buffer} {pos major info argument : Nat}
    (announces : Announces info argument)
    (standing : At buf pos (headBytes major info argument ++ rest)) :
    (if info < 24 then info else readUInt buf (pos + 1) (argumentWidth info)) =
      argument := by
  obtain ⟨_, isArgument⟩ := announces
  by_cases immediate : info < 24
  · rw [if_pos immediate] at isArgument ⊢
    exact isArgument.symm
  · rw [if_neg immediate] at isArgument ⊢
    have spelled := At.readUInt_eq (At.advance_one standing)
    rw [Buffer.length_bigEndian, Buffer.bigEndianValue_bigEndian,
      Nat.mod_eq_of_lt isArgument] at spelled
    exact spelled

/-- The decoder reads a head that is announced so. -/
theorem head_of_headBytes {buf rest : Buffer} {pos major info argument : Nat} (isMajor : major < 8)
    (notDouble : ¬ (major = 7 ∧ info = 27)) (announces : Announces info argument)
    (safe : argument ≤ maxSafeInteger)
    (standing : At buf pos (headBytes major info argument ++ rest)) :
    head buf pos = .ok (⟨major, info, argument⟩, pos + (headBytes major info argument).length) := by
  have inRange : info ≤ 27 := announces.1
  obtain ⟨majorRead, infoRead⟩ := firstByte_parts isMajor (show info < 32 by omega)
  have isArgument := At.argument announces standing
  have lengths := standing.length_eq
  rw [length_append, length_headBytes] at lengths
  rw [head_eq standing, majorRead, infoRead,
    headArgument_eq_ok_iff (by omega) notDouble, isArgument, length_headBytes]
  exact ⟨inRange, safe, by omega, by omega, rfl⟩

variable {h : Head} {pos next : Nat}

/-- A head that is answered is of the first byte. -/
theorem headArgument_parts {buf : Buffer} {pos major info next : Nat} (inside : pos ≤ buf.length)
    (reads : headArgument buf pos major info = .ok (h, next)) :
    h.major = major ∧ h.info = info := by
  by_cases isDouble : major = 7 ∧ info = 27
  · obtain ⟨rfl, rfl⟩ := isDouble
    simp only [headArgument, Nat.reduceEqDiff, if_false, if_true,
      not_true, ne_eq, false_and, bind_eq_ok_iff] at reads
    obtain ⟨_, _, answered⟩ := reads
    simp only [pure, Except.pure, Except.ok.injEq, Prod.mk.injEq] at answered
    rw [← answered.1]
    exact ⟨rfl, rfl⟩
  · rw [headArgument_eq_ok_iff inside isDouble] at reads
    obtain ⟨_, _, _, _, rfl⟩ := reads
    exact ⟨rfl, rfl⟩

/-- What the decoder reads as a head is one. -/
theorem headBytes_of_head {buf : Buffer} (notDouble : ¬ (h.major = 7 ∧ h.info = 27))
    (reads : head buf pos = .ok (h, next)) :
    h.major < 8 ∧
      Announces h.info h.arg ∧
        h.arg ≤ maxSafeInteger ∧
          ∃ rest,
            At buf pos (headBytes h.major h.info h.arg ++ rest) ∧
              next = pos + (headBytes h.major h.info h.arg).length := by
  obtain ⟨first, rest, standing⟩ := exists_first reads
  have restAt := standing.advance_one
  have isMajor : first.toNat >>> 5 < 8 := by
    rw [Nat.shiftRight_eq_div_pow]
    have := first.toNat_lt
    omega
  rw [head_eq standing] at reads
  obtain ⟨sameMajor, sameInfo⟩ := headArgument_parts restAt.inside reads
  rw [sameMajor, sameInfo] at notDouble
  rw [headArgument_eq_ok_iff restAt.inside notDouble] at reads
  obtain ⟨inRange, safe, enough, isNext, isHead⟩ := reads
  have lengths := restAt.length_eq
  obtain ⟨taken, isTaken⟩ :
      ∃ taken, taken = rest.take (argumentWidth (first.toNat &&& 31)) := ⟨_, rfl⟩
  have width : taken.length = argumentWidth (first.toNat &&& 31) := by
    rw [isTaken, length_take]
    omega
  have parts : rest = taken ++ rest.drop (argumentWidth (first.toNat &&& 31)) := by
    rw [isTaken, take_append_drop]
  have argumentAt : At buf (pos + 1) (taken ++ _) := parts ▸ restAt
  have spelled := argumentAt.readUInt_eq
  rw [width] at spelled
  subst isHead
  have announces :
      Announces (first.toNat &&& 31)
        (if first.toNat &&& 31 < 24 then
          first.toNat &&& 31
        else
          readUInt buf (pos + 1) (argumentWidth (first.toNat &&& 31))) := by
    refine ⟨inRange, ?_⟩
    split
    · rfl
    · exact readUInt_lt _ _ _
  refine ⟨isMajor, announces, safe, rest.drop (argumentWidth (first.toNat &&& 31)), ?_, ?_⟩
  · rw [headBytes, ← firstByte_eq]
    have written :
        Buffer.bigEndian (argumentWidth (first.toNat &&& 31))
            (if first.toNat &&& 31 < 24 then
              first.toNat &&& 31
            else
              readUInt buf (pos + 1) (argumentWidth (first.toNat &&& 31))) =
          taken := by
      split
      · rename_i immediate
        have none : argumentWidth (first.toNat &&& 31) = 0 := by
          unfold argumentWidth
          split_ifs <;> omega
        rw [none] at width ⊢
        exact (length_eq_zero_iff.mp width).symm
      · rw [spelled, ← width, Buffer.bigEndian_bigEndianValue]
    change At buf pos (first :: (Buffer.bigEndian (argumentWidth _) _ ++ _))
    rw [written, ← parts]
    exact standing
  · rw [length_headBytes, isNext, Nat.add_assoc, Nat.add_comm 1]

/-! ## Loops over items -/

/-- What is read from a position is an encoding there that is accepted. -/
def Reads (buf : Buffer) (read : Nat → Except String (Item × Nat))
    (Good : Encoding → Prop) : Prop :=
  ∀ ⦃pos : Nat⦄,
    pos ≤ buf.length →
      ∀ (value : Item) (next : Nat),
        read pos = .ok (value, next) ↔
          ∃ encoding rest,
            At buf pos (encoding.bytesOf ++ rest) ∧
              Good encoding ∧ value = valueOf encoding ∧ next = pos + encoding.bytesOf.length

section

variable
  {buf : Buffer}
  {read : Nat → Except String (Item × Nat)}
  {Good : Encoding → Prop}

theorem readItems_eq_ok_iff (reads : Reads buf read Good) (count : Nat) {pos : Nat}
    (inside : pos ≤ buf.length) (values : List Item) (next : Nat) :
    readItems read count pos = .ok (values, next) ↔
      ∃ (items : List Encoding) (rest : Buffer),
        At buf pos (items.flatMap Encoding.bytesOf ++ rest) ∧
          items.length = count ∧
            (∀ item ∈ items, Good item) ∧
              values = items.map valueOf ∧
                next = pos + (items.flatMap Encoding.bytesOf).length := by
  induction count generalizing pos values with
  | zero =>
    rw [readItems, pure_eq_ok_iff, Prod.mk.injEq]
    constructor
    · rintro ⟨rfl, rfl⟩
      exact ⟨[], buf.drop pos, At.of_le inside, rfl, by simp, rfl, rfl⟩
    · rintro ⟨items, rest, _, isCount, _, rfl, rfl⟩
      rw [length_eq_zero_iff] at isCount
      subst isCount
      exact ⟨rfl, rfl⟩
  | succ count ih =>
    rw [readItems, bind_eq_ok_iff]
    constructor
    · rintro ⟨⟨one, pos'⟩, readsOne, others⟩
      obtain ⟨encoding, rest, standing, isGood, rfl, rfl⟩ := (reads inside one pos').mp readsOne
      rw [bind_eq_ok_iff] at others
      obtain ⟨⟨values', next'⟩, readsOthers, answered⟩ := others
      rw [pure_eq_ok_iff, Prod.mk.injEq] at answered
      obtain ⟨rfl, rfl⟩ := answered
      obtain ⟨items, rest', standing', isCount, areGood, rfl, rfl⟩ :=
        (ih standing.advance.inside values').mp readsOthers
      refine ⟨encoding :: items, rest', ?_, by rw [length_cons, isCount], ?_, rfl, ?_⟩
      · have sameRest := At.unique standing.advance standing'
        rw [flatMap_cons, append_assoc, ← sameRest]
        exact standing
      · intro item isItem
        rcases mem_cons.mp isItem with rfl | isOther
        · exact isGood
        · exact areGood item isOther
      · rw [flatMap_cons, length_append, Nat.add_assoc]
    · rintro ⟨items, rest, standing, isCount, areGood, rfl, rfl⟩
      cases items with
      | nil => cases isCount
      | cons encoding items =>
        rw [flatMap_cons, append_assoc] at standing
        have readsOne :=
          (reads inside (valueOf encoding) (pos + encoding.bytesOf.length)).mpr
            ⟨encoding, _, standing, areGood encoding mem_cons_self, rfl, rfl⟩
        refine ⟨_, readsOne, ?_⟩
        rw [bind_eq_ok_iff]
        refine
          ⟨_, (ih standing.advance.inside (items.map valueOf)).mpr
              ⟨items, rest, standing.advance, Nat.succ.inj isCount,
                fun item isItem => areGood item (mem_cons_of_mem _ isItem), rfl, ?_⟩,
            rfl⟩
        rw [flatMap_cons, length_append, Nat.add_assoc]

end

/-! ## Keys that are taken for one -/

/-- A value that is no object. -/
def Item.IsScalar : Item → Prop
  | .boolean _ | .null | .undefined | .integer _ | .float _ | .text _ => True
  | _ => False

theorem sameKey_iff (key key' : Item) : sameKey key key' = true ↔ key = key' ∧ key.IsScalar := by
  cases key <;> cases key' <;> simp [sameKey, Item.IsScalar]

theorem isScalar_numberItem (number : Number) : (numberItem number).IsScalar := by
  cases number with
  | nan => trivial
  | infinite negative => trivial
  | finite negative magnitude =>
    unfold numberItem
    dsimp only
    split <;> trivial

theorem isScalar_specialValue (info value : Nat) : (specialValue info value).IsScalar := by
  unfold specialValue
  split_ifs
  iterate 4 trivial
  all_goals exact isScalar_numberItem _

/-- A key that is compared is compared by its value. -/
theorem keyOf_eq_some_iff (key : Encoding) (compared : Item) :
    keyOf key = some compared ↔ valueOf key = compared ∧ compared.IsScalar := by
  cases key with
  | special info value =>
    rw [keyOf, valueOf, Option.some_inj]
    constructor
    · rintro rfl
      exact ⟨rfl, isScalar_specialValue info value⟩
    · exact And.left
  | unsigned info value =>
    rw [keyOf, valueOf, Option.some_inj]
    constructor
    · rintro rfl
      exact ⟨rfl, trivial⟩
    · exact And.left
  | negative info value =>
    rw [keyOf, valueOf, Option.some_inj]
    constructor
    · rintro rfl
      exact ⟨rfl, trivial⟩
    · exact And.left
  | text info value =>
    rw [keyOf, valueOf, Option.some_inj]
    constructor
    · rintro rfl
      exact ⟨rfl, trivial⟩
    · exact And.left
  | bytes info value =>
    rw [valueOf]
    constructor
    · intro isKey
      cases isKey
    · rintro ⟨rfl, isScalar⟩
      exact isScalar.elim
  | array info items =>
    rw [valueOf]
    constructor
    · intro isKey
      cases isKey
    · rintro ⟨rfl, isScalar⟩
      exact isScalar.elim
  | map info members =>
    rw [valueOf]
    constructor
    · intro isKey
      cases isKey
    · rintro ⟨rfl, isScalar⟩
      exact isScalar.elim
  | tagged info tag value =>
    rw [valueOf]
    constructor
    · intro isKey
      cases isKey
    · rintro ⟨rfl, isScalar⟩
      exact isScalar.elim

/-- Two keys are one to a `Map` as their encodings tell. -/
theorem sameKey_valueOf (key key' : Encoding) :
    sameKey (valueOf key) (valueOf key') = true ↔ TakenForOne key key' := by
  rw [sameKey_iff]
  simp only [TakenForOne, keyOf_eq_some_iff]
  constructor
  · rintro ⟨same, isScalar⟩
    exact ⟨_, ⟨rfl, isScalar⟩, same.symm, isScalar⟩
  · rintro ⟨compared, ⟨rfl, isScalar⟩, same, _⟩
    exact ⟨same.symm, isScalar⟩

/-! ## Loops over members -/

/-- A member of a map as it is written. -/
def memberBytes (member : Encoding × Encoding) : Buffer := member.1.bytesOf ++ member.2.bytesOf

def memberValue (member : Encoding × Encoding) : Item × Item := (valueOf member.1, valueOf member.2)

variable (held : List (Encoding × Encoding))

theorem any_sameKey_iff (key : Encoding) :
    ((held.map memberValue).any fun member => sameKey member.1 (valueOf key)) = true ↔
      ∃ member ∈ held, TakenForOne member.1 key := by
  rw [any_map, any_eq_true]
  simp only [Function.comp_apply, memberValue, sameKey_valueOf]

theorem keysApart_concat (member : Encoding × Encoding) :
    KeysApart (held ++ [member]) ↔ KeysApart held ∧ ¬ ∃ one ∈ held, TakenForOne one.1 member.1 := by
  rw [KeysApart, pairwise_append]
  simp only [pairwise_singleton, mem_singleton, forall_eq, true_and, not_exists,
    not_and, KeysApart]

theorem KeysApart.of_append {held members : List (Encoding × Encoding)}
    (apart : KeysApart (held ++ members)) :
    KeysApart held :=
  (pairwise_append.mp apart).1

section

variable
  {buf : Buffer}
  {read : Nat → Except String (Item × Nat)}
  {Good : Encoding → Prop}

/-- One member that is read, of a key that is not held. -/
theorem readMember_eq_ok_iff {floats : FloatReader} (reads : Reads buf read Good)
    (count : Nat) {pos : Nat} (inside : pos ≤ buf.length)
    (held : List (Encoding × Encoding)) (values : List (Item × Item)) (next : Nat) :
    readMembers floats read (count + 1) (held.map memberValue) pos = .ok (values, next) ↔
      ∃ (member : Encoding × Encoding) (rest : Buffer),
        At buf pos (memberBytes member ++ rest) ∧
          (Good member.1 ∧ Good member.2) ∧
            (¬ ∃ one ∈ held, TakenForOne one.1 member.1) ∧
              readMembers floats read count ((held ++ [member]).map memberValue)
                  (pos + (memberBytes member).length) =
                .ok (values, next) := by
  rw [readMembers, bind_eq_ok_iff]
  constructor
  · rintro ⟨⟨keyItem, pos'⟩, readsKey, others⟩
    obtain ⟨key, rest, standing, isGood, rfl, rfl⟩ := (reads inside keyItem pos').mp readsKey
    dsimp only at others
    split at others
    · cases others
    · rename_i notHeld
      rw [bind_eq_ok_iff] at others
      obtain ⟨⟨valueItem, pos''⟩, readsValue, others⟩ := others
      obtain ⟨value, rest', standing', isGood', rfl, rfl⟩ :=
        (reads standing.advance.inside valueItem pos'').mp readsValue
      have sameRest := At.unique standing.advance standing'
      refine ⟨(key, value), rest', ?_, ⟨isGood, isGood'⟩, ?_, ?_⟩
      · rw [memberBytes, append_assoc, ← sameRest]
        exact standing
      · rwa [any_sameKey_iff] at notHeld
      · rw [map_append, memberBytes, length_append, ← Nat.add_assoc]
        exact others
  · rintro ⟨⟨key, value⟩, rest, standing, ⟨isGood, isGood'⟩, notHeld, others⟩
    rw [memberBytes, append_assoc] at standing
    have readsKey :=
      (reads inside (valueOf key) (pos + key.bytesOf.length)).mpr
        ⟨key, _, standing, isGood, rfl, rfl⟩
    have readsValue :=
      (reads standing.advance.inside (valueOf value)
        (pos + key.bytesOf.length + value.bytesOf.length)).mpr
          ⟨value, _, standing.advance, isGood', rfl, rfl⟩
    refine ⟨_, readsKey, ?_⟩
    dsimp only
    rw [← any_sameKey_iff] at notHeld
    rw [if_neg notHeld, bind_eq_ok_iff]
    refine ⟨_, readsValue, ?_⟩
    rw [map_append, memberBytes, length_append, ← Nat.add_assoc] at others
    exact others

theorem readMembers_eq_ok_iff {floats : FloatReader} (reads : Reads buf read Good)
    (count : Nat) {pos : Nat} (inside : pos ≤ buf.length)
    {held : List (Encoding × Encoding)} (apart : KeysApart held)
    (values : List (Item × Item)) (next : Nat) :
    readMembers floats read count (held.map memberValue) pos = .ok (values, next) ↔
      ∃ (members : List (Encoding × Encoding)) (rest : Buffer),
        At buf pos (members.flatMap memberBytes ++ rest) ∧
          members.length = count ∧
            (∀ member ∈ members, Good member.1 ∧ Good member.2) ∧
              KeysApart (held ++ members) ∧
                values = (held ++ members).map memberValue ∧
                  next = pos + (members.flatMap memberBytes).length := by
  induction count generalizing pos held with
  | zero =>
    rw [readMembers, pure_eq_ok_iff, Prod.mk.injEq]
    constructor
    · rintro ⟨rfl, rfl⟩
      refine ⟨[], buf.drop pos, At.of_le inside, rfl, by simp, ?_, ?_, rfl⟩
      · rwa [append_nil]
      · rw [append_nil]
    · rintro ⟨members, rest, _, isCount, _, _, rfl, rfl⟩
      rw [length_eq_zero_iff] at isCount
      subst isCount
      rw [append_nil]
      exact ⟨rfl, rfl⟩
  | succ count ih =>
    rw [readMember_eq_ok_iff reads count inside held values next]
    constructor
    · rintro ⟨member, rest, standing, isGood, notHeld, others⟩
      have apart' : KeysApart (held ++ [member]) :=
        (keysApart_concat held member).mpr ⟨apart, notHeld⟩
      obtain ⟨members, rest', standing', isCount, areGood, allApart, isValues, isNext⟩ :=
        (ih standing.advance.inside apart').mp others
      have sameRest := At.unique standing.advance standing'
      rw [append_assoc, singleton_append] at allApart isValues
      refine
        ⟨member :: members, rest', ?_, by rw [length_cons, isCount], ?_, allApart,
          isValues, ?_⟩
      · rw [flatMap_cons, append_assoc, ← sameRest]
        exact standing
      · intro one isOne
        rcases mem_cons.mp isOne with rfl | isOther
        · exact isGood
        · exact areGood one isOther
      · rw [isNext, flatMap_cons, length_append, Nat.add_assoc]
    · rintro ⟨members, rest, standing, isCount, areGood, allApart, isValues, isNext⟩
      cases members with
      | nil => cases isCount
      | cons member members =>
        rw [flatMap_cons, append_assoc] at standing
        rw [← singleton_append, ← append_assoc] at allApart isValues
        have apart' := allApart.of_append
        refine
          ⟨member, _, standing, areGood member mem_cons_self,
            ((keysApart_concat held member).mp apart').2, ?_⟩
        refine
          (ih standing.advance.inside apart').mpr
            ⟨members, rest, standing.advance, Nat.succ.inj isCount,
              fun one isOne => areGood one (mem_cons_of_mem _ isOne), allApart,
              isValues, ?_⟩
        rw [isNext, flatMap_cons, length_append, Nat.add_assoc]

end

/-! ## Items -/

/-- The bytes that are needed are there to take. -/
theorem At.take_of_need {buf rest : Buffer} {pos n : Nat} {answer : Unit}
    (standing : At buf pos rest) (needed : need buf pos n = .ok answer) :
    rest = rest.take n ++ rest.drop n ∧ (rest.take n).length = n := by
  have lengths := standing.length_eq
  have enough := (need_ok_iff buf pos n).mp needed
  refine ⟨(take_append_drop n rest).symm, ?_⟩
  rw [length_take]
  omega

theorem accepted_succ_iff (left : Nat) (encoding : Encoding) :
    Accepted (left + 1) encoding ↔
      AcceptedHere encoding ∧ ∀ part ∈ encoding.parts, Accepted left part := by
  constructor
  · rintro ⟨⟨here, within⟩, nested⟩
    exact ⟨here, fun part isPart => ⟨within part isPart, nested part isPart⟩⟩
  · rintro ⟨here, within⟩
    exact ⟨.intro here fun part isPart => (within part isPart).form,
      fun part isPart => (within part isPart).nested⟩

/-- Every item takes a byte at least. -/
theorem length_le_flatMap {α : Type} {write : α → Buffer} {width : Nat} (items : List α)
    (each : ∀ item ∈ items, width ≤ (write item).length) :
    items.length * width ≤ (items.flatMap write).length := by
  rw [length_flatMap, ← @List.length_map _ _ items fun item => (write item).length]
  exact card_nsmul_le_sum _ width (by simpa using each)

section

variable {buf : Buffer} {json : Item → String} {left : Nat}

/-- Of no more than four bytes an argument is safe. -/
theorem safe_of_announces {info argument : Nat} (notDouble : info ≠ 27)
    (announces : Announces info argument) :
    argument ≤ maxSafeInteger := by
  obtain ⟨inRange, isArgument⟩ := announces
  have power : 256 ^ Cbor.argumentWidth info ≤ 256 ^ 4 := by
    refine Nat.pow_le_pow_right (by decide) ?_
    unfold Cbor.argumentWidth
    split_ifs <;> omega
  simp only [maxSafeInteger]
  split at isArgument <;> omega

variable {rest : Buffer} {pos : Nat}

/-- What a head of major type 7 is read as, but for a double. -/
theorem readSimple_eq_ok_iff {pos info argument : Nat} (notDouble : info ≠ 27)
    (announces : Announces info argument)
    (standing : At buf pos (headBytes 7 info argument ++ rest)) (value : Item) (next : Nat) :
    readSimple (floatReader json) buf ⟨7, info, argument⟩
          (pos + (headBytes 7 info argument).length) =
        .ok (value, next) ↔
      info ∈ [20, 21, 22, 23, 25, 26, 27] ∧
        value = specialValue info argument ∧ next = pos + (headBytes 7 info argument).length := by
  have isArgument := At.argument announces standing
  have lengths := standing.length_eq
  rw [length_append] at lengths
  have simple (result : Item) (isNamed : info ∈ [20, 21, 22, 23, 25, 26, 27])
      (isResult : specialValue info argument = result) (p : Nat) :
      (pure (result, p) : Except String (Item × Nat)) = .ok (value, next) ↔
        info ∈ [20, 21, 22, 23, 25, 26, 27] ∧ value = specialValue info argument ∧ next = p := by
    rw [pure_eq_ok_iff, Prod.mk.injEq, isResult]
    exact ⟨fun ⟨sameValue, sameNext⟩ => ⟨isNamed, sameValue.symm, sameNext.symm⟩,
      fun ⟨_, sameValue, sameNext⟩ => ⟨sameValue.symm, sameNext.symm⟩⟩
  unfold readSimple
  dsimp only
  by_cases is20 : info = 20
  · rw [if_pos is20]
    exact simple _ (by simp [is20]) (by simp [specialValue, is20]) _
  rw [if_neg is20]
  by_cases is21 : info = 21
  · rw [if_pos is21]
    exact simple _ (by simp [is21]) (by simp [specialValue, is21]) _
  rw [if_neg is21]
  by_cases is22 : info = 22
  · rw [if_pos is22]
    exact simple _ (by simp [is22]) (by simp [specialValue, is22]) _
  rw [if_neg is22]
  by_cases is23 : info = 23
  · rw [if_pos is23]
    exact simple _ (by simp [is23]) (by simp [specialValue, is23]) _
  rw [if_neg is23]
  by_cases is25 : info = 25
  · rw [if_pos is25]
    subst is25
    have isBack : pos + (headBytes 7 25 argument).length - 2 = pos + 1 := by
      rw [length_headBytes]
      rfl
    have needed : need buf (pos + 1) 2 = .ok () := by
      rw [length_headBytes] at lengths
      rw [need_ok_iff]
      change buf.length = pos + (2 + 1 + rest.length) at lengths
      omega
    rw [isBack, needed]
    exact simple _ (by simp) (by rw [← isArgument]; rfl) _
  rw [if_neg is25]
  by_cases is26 : info = 26
  · rw [if_pos is26]
    subst is26
    have isBack : pos + (headBytes 7 26 argument).length - 4 = pos + 1 := by
      rw [length_headBytes]
      rfl
    rw [isBack]
    exact simple _ (by simp) (by rw [← isArgument]; rfl) _
  rw [if_neg is26, if_neg notDouble]
  constructor
  · intro refused
    cases refused
  · rintro ⟨isNamed, _⟩
    simp [is20, is21, is22, is23, is25, is26, notDouble] at isNamed

/-- A double is read past its first byte. -/
theorem item_double_eq_ok_iff {first : UInt8} (isSpecial : first.toNat >>> 5 = 7)
    (isDouble : first.toNat &&& 31 = 27)
    (standing : At buf pos (first :: rest)) (value : Item) (next : Nat) :
    item (floatReader json) buf (left + 1) pos = .ok (value, next) ↔
      8 ≤ rest.length ∧
        value = numberItem (Format.double.read (readUInt buf (pos + 1) 8)) ∧ next = pos + 9 := by
  have lengths := standing.advance_one.length_eq
  rw [item, head_eq standing, isSpecial, isDouble]
  have isHead : headArgument buf (pos + 1) 7 27 =
      (need buf (pos + 1) 8 >>= fun _ => pure (⟨7, 27, 0⟩, pos + 1)) := by
    simp [headArgument]
  have isContent :
      content (floatReader json) buf (item (floatReader json) buf left) ⟨7, 27, 0⟩ (pos + 1) =
        (need buf (pos + 1) 8 >>= fun _ =>
          pure (numberItem (Format.double.read (readUInt buf (pos + 1) 8)), pos + 1 + 8)) :=
    rfl
  rw [isHead]
  by_cases enough : 8 ≤ rest.length
  · have needed : need buf (pos + 1) 8 = .ok () := by
      rw [need_ok_iff]
      omega
    rw [needed, ok_bind, pure_bind]
    dsimp only
    rw [isContent, needed, ok_bind, pure_eq_ok_iff, Prod.mk.injEq]
    constructor
    · rintro ⟨sameValue, sameNext⟩
      exact ⟨enough, sameValue.symm, sameNext.symm⟩
    · rintro ⟨_, sameValue, sameNext⟩
      exact ⟨sameValue.symm, sameNext.symm⟩
  · constructor
    · intro accepts
      rw [bind_eq_ok_iff] at accepts
      obtain ⟨_, reads, _⟩ := accepts
      rw [bind_eq_ok_iff] at reads
      obtain ⟨_, needed, _⟩ := reads
      have := (need_ok_iff buf (pos + 1) 8).mp needed
      omega
    · rintro ⟨isEnough, _⟩
      exact absurd isEnough enough

/-- An encoding that is accepted is read. -/
theorem item_of_accepted (readsParts : Reads buf (item (floatReader json) buf left) (Accepted left))
    {encoding : Encoding} (here : AcceptedHere encoding)
    (within : ∀ part ∈ encoding.parts, Accepted left part)
    (standing : At buf pos (encoding.bytesOf ++ rest)) :
    item (floatReader json) buf (left + 1) pos =
      .ok (valueOf encoding, pos + encoding.bytesOf.length) := by
  obtain ⟨⟨announces, _⟩, form⟩ := here
  rw [Encoding.bytesOf_eq, append_assoc] at standing
  rw [Encoding.bytesOf_eq, length_append, ← Nat.add_assoc]
  have bodyAt := standing.advance
  have enough := bodyAt.length_eq
  rw [length_append] at enough
  have headed
      (notDouble : ¬ (encoding.major = 7 ∧ encoding.info = 27))
      (safe : encoding.argument ≤ maxSafeInteger) :=
    @item_of_head (floatReader json) left _ _ _ _
      (head_of_headBytes encoding.major_lt notDouble announces safe standing)
  cases encoding with
  | unsigned info value =>
    rw [headed (by simp [Encoding.major]) form, valueOf]
    rfl
  | negative info value =>
    rw [headed (by simp [Encoding.major]) form, valueOf]
    rfl
  | bytes info value =>
    rw [headed (by simp [Encoding.major]) form, valueOf]
    have needed := bodyAt.need_front
    have taken := bodyAt.take
    simp only [content, Encoding.major, Encoding.argument, Encoding.body] at needed taken ⊢
    rw [needed, taken]
    rfl
  | text info value =>
    rw [headed (by simp [Encoding.major]) form, valueOf]
    have needed := bodyAt.need_front
    have taken := bodyAt.take
    simp only [content, Encoding.major, Encoding.argument, Encoding.body] at needed taken ⊢
    rw [needed, taken]
    rfl
  | array info items =>
    rw [headed (by simp [Encoding.major]) form, valueOf]
    have counted :=
      @length_le_flatMap _ Encoding.bytesOf 1 items fun one _ => Encoding.bytesOf_length_pos one
    have needed := bodyAt.need_eq (n := items.length) (by
      rw [length_append]
      simp only [Encoding.body]
      omega)
    have readsItems :=
      (readItems_eq_ok_iff readsParts items.length bodyAt.inside (items.map valueOf) _).mpr
        ⟨items, rest, bodyAt, rfl, within, rfl, rfl⟩
    simp only [content, Encoding.major, Encoding.argument] at needed readsItems ⊢
    rw [needed, ok_bind, readsItems]
    rfl
  | map info members =>
    rw [headed (by simp [Encoding.major]) form.1, valueOf]
    have counted := @length_le_flatMap _ memberBytes 2 members fun one _ => by
        have key := Encoding.bytesOf_length_pos one.1
        have value := Encoding.bytesOf_length_pos one.2
        rw [memberBytes, length_append]
        omega
    have needed := bodyAt.need_eq (n := members.length * 2) (by
      rw [length_append]
      exact counted.trans (Nat.le_add_right _ _))
    have readsMembers :=
      (@readMembers_eq_ok_iff _ _ _ (floatReader json) readsParts members.length _
        bodyAt.inside [] List.Pairwise.nil (members.map memberValue) _).mpr
          ⟨members, rest, bodyAt, rfl,
            fun one isOne =>
              ⟨within _ (Encoding.mem_parts_of_member isOne).1,
                within _ (Encoding.mem_parts_of_member isOne).2⟩,
            form.2, rfl, rfl⟩
    simp only [content, Encoding.major, Encoding.argument] at needed readsMembers ⊢
    rw [needed, ok_bind]
    rw [map_nil] at readsMembers
    rw [readsMembers]
    rfl
  | tagged info tag value =>
    rw [headed (by simp [Encoding.major]) form, valueOf]
    have readsValue :=
      (readsParts bodyAt.inside (valueOf value) _).mpr
        ⟨value, rest, bodyAt, within value mem_cons_self, rfl, rfl⟩
    simp only [content, Encoding.major, Encoding.argument] at readsValue ⊢
    rw [readsValue]
    rfl
  | special info value =>
    rw [valueOf]
    by_cases isDouble : info = 27
    · subst isDouble
      obtain ⟨isMajor, isInfo⟩ := @firstByte_parts 7 27 (by decide) (by decide)
      have isArgument := At.argument announces standing
      change readUInt buf (pos + 1) 8 = value at isArgument
      refine (item_double_eq_ok_iff isMajor isInfo standing _ _).mpr ⟨?_, ?_, rfl⟩
      · change 8 ≤ (Buffer.bigEndian 8 value ++ _).length
        rw [length_append, Buffer.length_bigEndian]
        exact Nat.le_add_right _ _
      · exact congrArg (fun bits => numberItem (Format.double.read bits)) isArgument.symm
    · have safe := safe_of_announces isDouble announces
      rw [headed (fun both => isDouble both.2) safe]
      exact (readSimple_eq_ok_iff isDouble announces standing _ _).mpr ⟨form, rfl, rfl⟩

/-- What is read is the value of an encoding that is accepted. -/
theorem accepted_of_item (readsParts : Reads buf (item (floatReader json) buf left) (Accepted left))
    {pos next : Nat} {value : Item}
    (reads : item (floatReader json) buf (left + 1) pos = .ok (value, next)) :
    ∃ encoding rest,
      At buf pos (encoding.bytesOf ++ rest) ∧
        (AcceptedHere encoding ∧ ∀ part ∈ encoding.parts, Accepted left part) ∧
          value = valueOf encoding ∧ next = pos + encoding.bytesOf.length := by
  have unfolded := reads
  rw [item, bind_eq_ok_iff] at unfolded
  obtain ⟨⟨h, p⟩, readsHead, readsContent⟩ := unfolded
  by_cases isDouble : h.major = 7 ∧ h.info = 27
  · obtain ⟨first, rest, standing⟩ := exists_first readsHead
    have restAt := standing.advance_one
    rw [head_eq standing] at readsHead
    obtain ⟨sameMajor, sameInfo⟩ := headArgument_parts restAt.inside readsHead
    rw [sameMajor, sameInfo] at isDouble
    obtain ⟨enough, rfl, rfl⟩ :=
      (item_double_eq_ok_iff isDouble.1 isDouble.2 standing value next).mp reads
    have announces : Announces 27 (readUInt buf (pos + 1) 8) :=
      ⟨by decide, readUInt_lt buf (pos + 1) 8⟩
    have isFirst : UInt8.ofNat (7 * 32 + 27) = first := by
      rw [firstByte_eq first, isDouble.1, isDouble.2]
    have written : Buffer.bigEndian 8 (readUInt buf (pos + 1) 8) = rest.take 8 := by
      have width : (rest.take 8).length = 8 := by
        rw [length_take]
        omega
      have spelled := Buffer.bigEndian_bigEndianValue (rest.take 8)
      rw [width] at spelled
      rw [readUInt, restAt.drop]
      exact spelled
    refine
      ⟨.special 27 (readUInt buf (pos + 1) 8), rest.drop 8, ?_,
        ⟨⟨⟨announces, fun is24 => absurd is24 (by decide)⟩, by simp⟩,
          fun part isPart => absurd isPart (by simp [Encoding.parts])⟩,
        by rw [valueOf]; rfl, ?_⟩
    · rw [Encoding.bytesOf, headBytes, isFirst]
      change At buf pos (first :: (Buffer.bigEndian 8 _ ++ _))
      rw [written, take_append_drop]
      exact standing
    · rw [Encoding.bytesOf, length_headBytes]
      rfl
  · obtain ⟨isMajor, announces, safe, rest, standing, rfl⟩ := headBytes_of_head isDouble readsHead
    have bodyAt := standing.advance
    -- What is found of the body completes the head that was read.
    have complete
        (encoding : Encoding)
        (rest' : Buffer)
        (sameHead : encoding.major = h.major ∧ encoding.info = h.info ∧ encoding.argument = h.arg)
        (isBody : rest = encoding.body ++ rest')
        (here : AcceptedHere encoding)
        (within : ∀ part ∈ encoding.parts, Accepted left part)
        (isValue : value = valueOf encoding)
        (isNext : next = pos + (headBytes h.major h.info h.arg).length + encoding.body.length) :
        ∃ encoding rest,
          At buf pos (encoding.bytesOf ++ rest) ∧
            (AcceptedHere encoding ∧ ∀ part ∈ encoding.parts, Accepted left part) ∧
              value = valueOf encoding ∧ next = pos + encoding.bytesOf.length := by
      obtain ⟨sameMajor, sameInfo, sameArgument⟩ := sameHead
      refine ⟨encoding, rest', ?_, ⟨here, within⟩, isValue, ?_⟩
      · rw [Encoding.bytesOf_eq, sameMajor, sameInfo, sameArgument, append_assoc, ← isBody]
        exact standing
      · rw [Encoding.bytesOf_eq, sameMajor, sameInfo, sameArgument, length_append,
          ← Nat.add_assoc]
        exact isNext
    obtain ⟨major, info, argument⟩ := h
    dsimp only at isMajor announces safe standing bodyAt readsContent complete isDouble
    have leaf : ∀ part ∈ ([] : List Encoding), Accepted left part := by simp
    have majors :
      major = 0 ∨ major = 1 ∨ major = 2 ∨ major = 3 ∨ major = 4 ∨ major = 5 ∨ major = 6 ∨
        major = 7 := by
      omega
    rcases majors with rfl | rfl | rfl | rfl | rfl | rfl | rfl | rfl
    · simp only [content, pure_eq_ok_iff, Prod.mk.injEq] at readsContent
      obtain ⟨rfl, rfl⟩ := readsContent
      exact
        complete (.unsigned info argument) rest ⟨rfl, rfl, rfl⟩ rfl ⟨⟨announces, trivial⟩, safe⟩
          leaf (by rw [valueOf]) rfl
    · simp only [content, pure_eq_ok_iff, Prod.mk.injEq] at readsContent
      obtain ⟨rfl, rfl⟩ := readsContent
      exact
        complete (.negative info argument) rest ⟨rfl, rfl, rfl⟩ rfl ⟨⟨announces, trivial⟩, safe⟩
          leaf (by rw [valueOf]) rfl
    · simp only [content, bind_eq_ok_iff, pure_eq_ok_iff, Prod.mk.injEq] at readsContent
      obtain ⟨_, needed, rfl, rfl⟩ := readsContent
      obtain ⟨isBody, width⟩ := bodyAt.take_of_need needed
      exact
        complete (.bytes info (rest.take argument)) _ ⟨rfl, rfl, width⟩ isBody
          ⟨⟨by rw [Encoding.argument, width]; exact announces, trivial⟩,
            by rw [Encoding.argument, width]; exact safe⟩
          leaf (by rw [valueOf, bodyAt.drop]) (by rw [Encoding.body, width])
    · simp only [content, bind_eq_ok_iff, pure_eq_ok_iff, Prod.mk.injEq] at readsContent
      obtain ⟨_, needed, rfl, rfl⟩ := readsContent
      obtain ⟨isBody, width⟩ := bodyAt.take_of_need needed
      exact
        complete (.text info (rest.take argument)) _ ⟨rfl, rfl, width⟩ isBody
          ⟨⟨by rw [Encoding.argument, width]; exact announces, trivial⟩,
            by rw [Encoding.argument, width]; exact safe⟩
          leaf (by rw [valueOf, bodyAt.drop]) (by rw [Encoding.body, width])
    · simp only [content, bind_eq_ok_iff, pure_eq_ok_iff, Prod.mk.injEq] at readsContent
      obtain ⟨_, _, ⟨values, next'⟩, readsItems, rfl, rfl⟩ := readsContent
      obtain ⟨items, rest', standing', rfl, within, rfl, rfl⟩ :=
        (readItems_eq_ok_iff readsParts argument bodyAt.inside values _).mp readsItems
      exact
        complete (.array info items) rest' ⟨rfl, rfl, rfl⟩ (At.unique bodyAt standing')
          ⟨⟨announces, trivial⟩, safe⟩ within (by rw [valueOf]) rfl
    · simp only [content, bind_eq_ok_iff, pure_eq_ok_iff, Prod.mk.injEq] at readsContent
      obtain ⟨_, _, ⟨values, next'⟩, readsMembers, rfl, rfl⟩ := readsContent
      obtain ⟨members, rest', standing', rfl, within, apart, rfl, rfl⟩ :=
        (@readMembers_eq_ok_iff _ _ _ (floatReader json) readsParts argument _
          bodyAt.inside [] List.Pairwise.nil values _).mp readsMembers
      refine
        complete (.map info members) rest' ⟨rfl, rfl, rfl⟩ (At.unique bodyAt standing')
          ⟨⟨announces, trivial⟩, safe, apart⟩ ?_ (by rw [valueOf]; rfl) rfl
      intro part isPart
      obtain ⟨member, isMember, isPart⟩ := mem_flatMap.mp isPart
      rw [mem_cons, mem_singleton] at isPart
      rcases isPart with rfl | rfl
      · exact (within member isMember).1
      · exact (within member isMember).2
    · simp only [content, bind_eq_ok_iff, pure_eq_ok_iff, Prod.mk.injEq] at readsContent
      obtain ⟨⟨inner, next'⟩, readsValue, rfl, rfl⟩ := readsContent
      obtain ⟨encoding, rest', standing', isAccepted, rfl, rfl⟩ :=
        (readsParts bodyAt.inside inner _).mp readsValue
      refine
        complete (.tagged info argument encoding) rest' ⟨rfl, rfl, rfl⟩
          (At.unique bodyAt standing') ⟨⟨announces, trivial⟩, safe⟩ ?_ (by rw [valueOf]) rfl
      intro part isPart
      rw [mem_singleton.mp isPart]
      exact isAccepted
    · obtain ⟨isNamed, rfl, rfl⟩ :=
        (readSimple_eq_ok_iff (fun is27 => isDouble ⟨rfl, is27⟩) announces standing value
          next).mp readsContent
      refine
        complete (.special info argument) rest ⟨rfl, rfl, rfl⟩ rfl
          ⟨⟨announces, ?_⟩, isNamed⟩ leaf (by rw [valueOf]) rfl
      rintro rfl
      simp at isNamed

/-- Whatever the levels to go, the decoder reads what is accepted and nothing else. -/
theorem item_reads (left : Nat) : Reads buf (item (floatReader json) buf left) (Accepted left) := by
  induction left with
  | zero =>
    intro pos inside value next
    constructor
    · intro refused
      cases refused
    · rintro ⟨encoding, rest, _, isAccepted, _⟩
      exact isAccepted.nested.elim
  | succ left ih =>
    intro pos inside value next
    simp only [accepted_succ_iff]
    constructor
    · exact accepted_of_item ih
    · rintro ⟨encoding, rest, standing, ⟨here, within⟩, rfl, rfl⟩
      exact item_of_accepted ih here within standing

end

/-- The decoder accepts the bytes of what has the form, and answers its value. -/
theorem cborDecode_eq_ok_iff (json : Item → String) (input : Buffer) (value : Item) :
    cborDecode (floatReader json) input = .ok value ↔
      ∃ encoding : Encoding,
        Accepted (cborMaxDepth + 1) encoding ∧
          encoding.bytesOf = input ∧ value = valueOf encoding := by
  have reads := @item_reads input json (cborMaxDepth + 1) 0 (Nat.zero_le _)
  rw [cborDecode, bind_eq_ok_iff]
  constructor
  · rintro ⟨⟨out, pos⟩, readsOut, answered⟩
    dsimp only at answered
    obtain ⟨encoding, rest, standing, isAccepted, rfl, isNext⟩ := (reads out pos).mp readsOut
    split at answered
    · cases answered
    · rename_i isWhole
      rw [pure_eq_ok_iff] at answered
      have lengths := standing.length_eq
      rw [length_append] at lengths
      have nothingLeft : rest = [] := length_eq_zero_iff.mp (by omega)
      have whole := standing.drop
      rw [drop_zero, nothingLeft, append_nil] at whole
      exact ⟨encoding, isAccepted, whole.symm, answered.symm⟩
  · rintro ⟨encoding, isAccepted, rfl, rfl⟩
    refine
      ⟨_, (reads (valueOf encoding) _).mpr
          ⟨encoding, [], ⟨Nat.zero_le _, by simp⟩, isAccepted, rfl, rfl⟩,
        ?_⟩
    dsimp only
    rw [if_neg (by simp)]
    rfl

end IyaSts.VcStatusCodec
