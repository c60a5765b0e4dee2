import IyaSts.VcStatusCborReads

namespace IyaSts.VcStatusCodec

open JsNumber Fallible Binary64
open Cbor (Encoding DataItem Announces Encodes)

/-!
# Where the CBOR decoder answers the data item

A value stands for a data item when its numbers are the exact ones.  The decoder
answers such a value but for three kinds of input: a half that is subnormal, a
text that is not UTF-8, and a map that repeats a key which is an object.
-/

open List

/-! ## What a value stands for -/

/-- A value of the codec stands for a data item. -/
inductive Represents : Item → DataItem → Prop where
  | integer (value : Int) : Represents (.integer value) (.integer value)
  | bytes (value : Buffer) : Represents (.bytes value) (.bytes value)
  | text (value : String) : Represents (.text value) (.text value)
  | array {values : List Item} {items : List DataItem}
      (each : List.Forall₂ Represents values items) :
      Represents (.array values) (.array items)
  | map {held : List (Item × Item)} {members : List (DataItem × DataItem)}
      (keys : List.Forall₂ Represents (held.map Prod.fst) (members.map Prod.fst))
      (values : List.Forall₂ Represents (held.map Prod.snd) (members.map Prod.snd)) :
      Represents (.map held) (.map members)
  | tagged (tag : Nat) {value : Item} {item : DataItem}
      (content : Represents value item) :
      Represents (.tagged tag value) (.tagged tag item)
  | false : Represents (.boolean false) (.simple 20)
  | true : Represents (.boolean true) (.simple 21)
  | null : Represents .null (.simple 22)
  | undefined : Represents .undefined (.simple 23)
  /-- A number that is an integer. -/
  | whole {value : Int} {negative : Bool} {magnitude : ℚ≥0}
      (exact : Number.exactly negative magnitude = value) :
      Represents (.integer value) (.float (.finite negative magnitude))
  /-- Any other number, by the bits of its double. -/
  | float (bits : Nat) : Represents (.float bits) (.float (Format.double.read bits))

/-- What is accepted is answered as the data item that the bytes are. -/
def DecodesRight (json : Item → String) (input : Buffer) : Prop :=
  ∀ value : Item,
    cborDecode (floatReader json) input = .ok value →
      ∃ item : DataItem, Encodes input item ∧ item.DistinctKeys ∧ Represents value item

/-! ## The three kinds of input -/

/-- The bits of a half below the least normal one, not of a zero. -/
def SubnormalHalf (bits : Nat) : Prop := bits / 2 ^ 10 % 2 ^ 5 = 0 ∧ bits % 2 ^ 10 ≠ 0

/-- Where it is a half, it is not subnormal. -/
def HalfHere : Encoding → Prop
  | .special info bits => info = 25 → ¬ SubnormalHalf bits
  | _ => True

/-- Where it is a map, it repeats no key that is an object. -/
def ObjectKeysHere : Encoding → Prop
  | .map _ members =>
    members.Pairwise fun member member' =>
      keyOf member.1 = none → ¬ DataItem.Same member.1.meaning member'.1.meaning
  | _ => True

/-- It is of none of the three kinds. -/
def Sound (encoding : Encoding) : Prop :=
  encoding.Every HalfHere ∧ encoding.Every Encoding.ProperText ∧ encoding.Every ObjectKeysHere

/-! ## Numbers -/

variable (bits : Nat)

/-- The fields of a half are the bits that the decoder masks. -/
theorem halfNumber_fields :
    bits >>> 10 &&& 0x1f = bits / 2 ^ 10 % 2 ^ 5 ∧
      bits &&& 0x3ff = bits % 2 ^ 10 ∧
        decide (bits &&& 0x8000 ≠ 0) = decide (bits / 2 ^ 10 / 2 ^ 5 % 2 = 1) := by
  refine ⟨?_, ?_, ?_⟩
  · rw [Nat.shiftRight_eq_div_pow]
    exact Nat.and_two_pow_sub_one_eq_mod _ 5
  · exact Nat.and_two_pow_sub_one_eq_mod _ 10
  · rw [show (0x8000 : Nat) = 2 ^ 15 from rfl, Nat.and_two_pow,
      Nat.testBit_eq_decide_div_mod_eq, Nat.div_div_eq_div_mul, ← Nat.pow_add]
    by_cases isSet : bits / 2 ^ 15 % 2 = 1 <;> simp

/-- The number that the bits of a half stand for. -/
theorem read_half :
    Format.half.read bits =
      if bits / 2 ^ 10 % 2 ^ 5 = 31 then
        if bits % 2 ^ 10 = 0 then
          .infinite (bits / 2 ^ 10 / 2 ^ 5 % 2 = 1)
        else
          .nan
      else if bits / 2 ^ 10 % 2 ^ 5 = 0 then
        .finite (bits / 2 ^ 10 / 2 ^ 5 % 2 = 1)
          ((bits % 2 ^ 10 : ℕ) * 2 ^ (-24 : ℤ))
      else
        .finite (bits / 2 ^ 10 / 2 ^ 5 % 2 = 1)
          ((1024 + bits % 2 ^ 10 : ℕ) * 2 ^ (((bits / 2 ^ 10 % 2 ^ 5 : ℕ) : ℤ) - 25)) := by
  have isBias : Format.half.bias = 15 := by decide
  have places (exponent : ℤ) : exponent - 15 - (Format.half.fractionWidth : ℤ) = exponent - 25 := by
    change exponent - 15 - 10 = exponent - 25
    ring
  rw [Format.read, Format.number, isBias, places, places]
  rfl

/-- What the decoder computes of a half is its number, but of a subnormal one. -/
theorem halfNumber_eq {bits : Nat} (notSubnormal : ¬ SubnormalHalf bits) :
    halfNumber bits = Format.half.read bits := by
  obtain ⟨exponent, fraction, sign⟩ := halfNumber_fields bits
  rw [halfNumber, exponent, fraction, sign, read_half]
  by_cases isZero : bits / 2 ^ 10 % 2 ^ 5 = 0
  · have noFraction : bits % 2 ^ 10 = 0 := by
      by_contra hasFraction
      exact notSubnormal ⟨isZero, hasFraction⟩
    rw [if_pos isZero, if_neg (by omega), if_pos isZero, noFraction, Nat.cast_zero, zero_mul,
      zero_mul]
  rw [if_neg isZero]
  by_cases isTop : bits / 2 ^ 10 % 2 ^ 5 = 31
  · rw [if_pos isTop, if_pos isTop, ite_not]
  · rw [if_neg isTop, if_neg isTop, if_neg isZero, Nat.add_comm]

/-- A double is answered as a number that stands for it. -/
theorem represents_numberItem {number : Number} (isDouble : Number.IsDouble number) :
    Represents (numberItem number) (.float number) := by
  have byBits : Represents (.float (toBits number)) (.float number) := by
    have stands := Represents.float (toBits number)
    rwa [read_toBits isDouble] at stands
  cases number with
  | nan => exact byBits
  | infinite negative => exact byBits
  | finite negative magnitude =>
    unfold numberItem
    dsimp only
    split
    · rename_i isWhole
      exact .whole (Rat.den_eq_one_iff _ |>.mp isWhole).symm
    · exact byBits

theorem isDouble_halfNumber : Number.IsDouble (halfNumber bits) := by
  obtain ⟨exponent, fraction, sign⟩ := halfNumber_fields bits
  have fractionLt : bits % 2 ^ 10 < 2 ^ 10 := Nat.mod_lt _ (by decide)
  have exponentLt : bits / 2 ^ 10 % 2 ^ 5 < 2 ^ 5 := Nat.mod_lt _ (by decide)
  rw [halfNumber, exponent, fraction]
  split_ifs
  · exact isDouble_shifted _ fractionLt (by decide) (by decide) (by decide)
  · trivial
  · trivial
  · exact @isDouble_shifted _ 11 _ _ (by omega) (by decide) (by omega) (by omega)

theorem represents_float_iff (number : Number) :
    Represents (.float bits) (.float number) ↔ Format.double.read bits = number := by
  constructor
  · intro stands
    generalize isItem : DataItem.float number = item at stands
    cases stands
    exact (DataItem.float.inj isItem).symm
  · rintro rfl
    exact .float bits

theorem nnabs_exactly (negative : Bool) (magnitude : ℚ≥0) :
    (Number.exactly negative magnitude).nnabs = magnitude := by
  rw [← NNRat.coe_inj, Rat.coe_nnabs]
  cases negative <;> simp [Number.exactly]

/-- A finite double stands for none of another magnitude. -/
theorem magnitude_eq_of_represents {negative negative' : Bool} {magnitude magnitude' : ℚ≥0}
    (isDouble : Number.IsDouble (.finite negative magnitude))
    (stands :
      Represents (numberItem (.finite negative magnitude))
        (.float (.finite negative' magnitude'))) :
    magnitude = magnitude' := by
  unfold numberItem at stands
  dsimp only at stands
  split at stands
  · rename_i isWhole
    have exact : Number.exactly negative magnitude = Number.exactly negative' magnitude' := by
      cases stands with
      | whole exact => exact (Rat.den_eq_one_iff _ |>.mp isWhole).symm.trans exact.symm
    rw [← nnabs_exactly negative magnitude, exact, nnabs_exactly]
  · rw [represents_float_iff, read_toBits isDouble] at stands
    exact (Number.finite.inj stands).2

/-- A half is answered as its number where it is not subnormal. -/
theorem represents_half_iff :
    Represents (numberItem (halfNumber bits)) (.float (Format.half.read bits)) ↔
      ¬ SubnormalHalf bits := by
  constructor
  · rintro stands ⟨isZero, hasFraction⟩
    obtain ⟨exponent, fraction, sign⟩ := halfNumber_fields bits
    have computed :
        halfNumber bits =
          .finite (decide (bits / 2 ^ 10 / 2 ^ 5 % 2 = 1))
            ((bits % 2 ^ 10 : ℕ) * 2 ^ (-14 : ℤ)) := by
      rw [halfNumber, exponent, fraction, sign, if_pos isZero]
    have specified :
        Format.half.read bits =
          .finite (decide (bits / 2 ^ 10 / 2 ^ 5 % 2 = 1))
            ((bits % 2 ^ 10 : ℕ) * 2 ^ (-24 : ℤ)) := by
      rw [read_half, if_neg (by omega), if_pos isZero]
    have isDouble := isDouble_halfNumber bits
    rw [computed] at stands isDouble
    rw [specified] at stands
    have sameMagnitude := magnitude_eq_of_represents isDouble stands
    have digits : ((bits % 2 ^ 10 : ℕ) : ℚ≥0) ≠ 0 := by exact_mod_cast hasFraction
    have scales := mul_left_cancel₀ digits sameMagnitude
    norm_num at scales
  · intro notSubnormal
    rw [← halfNumber_eq notSubnormal]
    exact represents_numberItem (isDouble_halfNumber bits)

/-! ## Values and data items -/

/-- What a head of major type 7 is read as stands for what it means. -/
theorem represents_special_iff {info value : Nat} (announces : Announces info value)
    (isNamed : info ∈ [20, 21, 22, 23, 25, 26, 27]) :
    Represents (specialValue info value) (Encoding.specialMeaning info value) ↔
      (info = 25 → ¬ SubnormalHalf value) := by
  obtain ⟨_, isArgument⟩ := announces
  simp only [mem_cons, not_mem_nil, or_false] at isNamed
  rcases isNamed with rfl | rfl | rfl | rfl | rfl | rfl | rfl
  · cases isArgument
    exact iff_of_true .false fun is25 => absurd is25 (by decide)
  · cases isArgument
    exact iff_of_true .true fun is25 => absurd is25 (by decide)
  · cases isArgument
    exact iff_of_true .null fun is25 => absurd is25 (by decide)
  · cases isArgument
    exact iff_of_true .undefined fun is25 => absurd is25 (by decide)
  · exact (represents_half_iff value).trans (by simp)
  · exact iff_of_true
      (represents_numberItem (Format.isDouble_read single_narrow value))
      fun is25 => absurd is25 (by decide)
  · exact iff_of_true
      (represents_numberItem (Format.isDouble_read double_narrow value))
      fun is25 => absurd is25 (by decide)

theorem represents_array_iff (items : List Encoding) :
    Represents (.array (items.map valueOf)) (.array (items.map Encoding.meaning)) ↔
      ∀ item ∈ items, Represents (valueOf item) item.meaning := by
  have each :
      List.Forall₂ Represents (items.map valueOf) (items.map Encoding.meaning) ↔
        ∀ item ∈ items, Represents (valueOf item) item.meaning := by
    rw [forall₂_map_left_iff, forall₂_map_right_iff, forall₂_same]
  rw [← each]
  constructor
  · intro stands
    cases stands with
    | array each => exact each
  · exact .array

theorem represents_map_iff (members : List (Encoding × Encoding)) :
    Represents
        (.map (members.map fun member => (valueOf member.1, valueOf member.2)))
        (.map (members.map fun member => (member.1.meaning, member.2.meaning))) ↔
      ∀ member ∈ members,
        Represents (valueOf member.1) member.1.meaning ∧
          Represents (valueOf member.2) member.2.meaning := by
  have each (part : Encoding × Encoding → Encoding) :
      List.Forall₂ Represents (members.map fun member => valueOf (part member))
          (members.map fun member => (part member).meaning) ↔
        ∀ member ∈ members, Represents (valueOf (part member)) (part member).meaning := by
    rw [forall₂_map_left_iff, forall₂_map_right_iff, forall₂_same]
  rw [forall₂_and, ← each Prod.fst, ← each Prod.snd]
  constructor
  · intro stands
    cases stands with
    | map keys values =>
      rw [map_map, map_map] at keys values
      exact ⟨keys, values⟩
  · rintro ⟨keys, values⟩
    refine .map ?_ ?_
    · rw [map_map, map_map]
      exact keys
    · rw [map_map, map_map]
      exact values

variable {encoding : Encoding}

/-- What is accepted is answered as its data item where no half is subnormal. -/
theorem represents_valueOf_iff (form : encoding.Every AcceptedHere) :
    Represents (valueOf encoding) encoding.meaning ↔ encoding.Every HalfHere := by
  induction form with
  | @intro encoding here within ih =>
    obtain ⟨⟨announces, _⟩, form⟩ := here
    have each :
        (∀ part ∈ encoding.parts, Represents (valueOf part) part.meaning) ↔
          ∀ part ∈ encoding.parts, part.Every HalfHere :=
      forall₂_congr ih
    rw [Encoding.every_iff, ← each]
    cases encoding with
    | unsigned info value =>
      rw [valueOf, Encoding.meaning]
      exact iff_of_true (.integer _) ⟨trivial, forall_mem_nil _⟩
    | negative info value =>
      rw [valueOf, Encoding.meaning]
      exact iff_of_true (.integer _) ⟨trivial, forall_mem_nil _⟩
    | bytes info value =>
      rw [valueOf, Encoding.meaning]
      exact iff_of_true (.bytes _) ⟨trivial, forall_mem_nil _⟩
    | text info value =>
      rw [valueOf, Encoding.meaning]
      exact iff_of_true (.text _) ⟨trivial, forall_mem_nil _⟩
    | array info items =>
      rw [valueOf, Encoding.meaning, represents_array_iff]
      exact (iff_of_eq (true_and _)).symm
    | map info members =>
      rw [valueOf, Encoding.meaning, represents_map_iff, Encoding.forall_parts_map_iff]
      exact (iff_of_eq (true_and _)).symm
    | tagged info tag value =>
      rw [valueOf, Encoding.meaning]
      constructor
      · intro stands
        cases stands with
        | tagged _ content => exact ⟨trivial, by simpa [Encoding.parts] using content⟩
      · rintro ⟨_, stands⟩
        exact .tagged tag (stands value mem_cons_self)
    | special info value =>
      rw [valueOf, Encoding.meaning]
      exact (represents_special_iff announces form).trans (and_iff_left (forall_mem_nil _)).symm

/-! ## Keys -/

/-- What a `Map` compares of a data item, where nothing of it was misread. -/
def comparedOf : DataItem → Option Item
  | .integer value => some (.integer value)
  | .text value => some (.text value)
  | .simple value => some (specialValue value value)
  | .float number => some (numberItem number)
  | _ => none

theorem comparedOf_same {item item' : DataItem} (same : DataItem.Same item item') :
    comparedOf item = comparedOf item' := by
  cases same <;> rfl

/-- A key that is accepted and no subnormal half is compared as its data item. -/
theorem keyOf_eq_comparedOf {key : Encoding} (here : AcceptedHere key) (isHalf : HalfHere key) :
    keyOf key = comparedOf key.meaning := by
  obtain ⟨⟨⟨_, isArgument⟩, _⟩, form⟩ := here
  cases key with
  | special info value =>
    rw [keyOf, Encoding.meaning]
    simp only [mem_cons, not_mem_nil, or_false] at form
    rcases form with rfl | rfl | rfl | rfl | rfl | rfl | rfl
    · cases isArgument
      rfl
    · cases isArgument
      rfl
    · cases isArgument
      rfl
    · cases isArgument
      rfl
    · exact congrArg (fun number => some (numberItem number)) (halfNumber_eq (isHalf rfl))
    · rfl
    · rfl
  | _ =>
    rw [Encoding.meaning]
    rfl

/-- Keys of a map differ where its keys that are objects do. -/
theorem keysDiffer_iff (here : AcceptedHere encoding)
    (accepted : ∀ part ∈ encoding.parts, AcceptedHere part)
    (halves : ∀ part ∈ encoding.parts, HalfHere part) :
    encoding.meaning.KeysDiffer ↔ ObjectKeysHere encoding := by
  cases encoding with
  | map info members =>
    obtain ⟨_, _, apart⟩ := here
    rw [Encoding.meaning, DataItem.KeysDiffer, pairwise_map, ObjectKeysHere]
    constructor
    · intro differ
      refine differ.imp ?_
      intro member member' different _
      exact different
    · intro objectsDiffer
      refine (objectsDiffer.and apart).imp_of_mem ?_
      rintro member member' isMember isMember' ⟨objectDiffers, notTaken⟩ same
      obtain ⟨isPart, _⟩ := @Encoding.mem_parts_of_member info _ _ isMember
      obtain ⟨isPart', _⟩ := @Encoding.mem_parts_of_member info _ _ isMember'
      cases compares : keyOf member.1 with
      | none => exact objectDiffers compares same
      | some compared =>
        refine notTaken ⟨compared, compares, ?_⟩
        rw [keyOf_eq_comparedOf (accepted _ isPart') (halves _ isPart'), ← comparedOf_same same,
          ← keyOf_eq_comparedOf (accepted _ isPart) (halves _ isPart), compares]
  | special info value =>
    rw [Encoding.meaning, Encoding.specialMeaning]
    split_ifs <;> exact Iff.rfl
  | _ =>
    rw [Encoding.meaning]
    exact Iff.rfl

theorem distinctKeys_iff (form : encoding.Every AcceptedHere) (halves : encoding.Every HalfHere) :
    encoding.meaning.DistinctKeys ↔ encoding.Every ObjectKeysHere := by
  induction form with
  | @intro encoding here within ih =>
    obtain ⟨_, halvesWithin⟩ := halves
    have differ :=
      keysDiffer_iff here (fun part isPart => (within part isPart).here)
        fun part isPart => (halvesWithin part isPart).here
    rw [Encoding.every_iff, ← differ]
    constructor
    · rintro ⟨keysDiffer, distinct⟩
      rw [Encoding.parts_meaning, forall_mem_map] at distinct
      exact ⟨keysDiffer, fun part isPart =>
        (ih part isPart (halvesWithin part isPart)).mp (distinct part isPart)⟩
    · rintro ⟨keysDiffer, objectsDiffer⟩
      refine .intro keysDiffer ?_
      rw [Encoding.parts_meaning, forall_mem_map]
      exact fun part isPart =>
        (ih part isPart (halvesWithin part isPart)).mpr (objectsDiffer part isPart)

/-! ## The decoder -/

/-- What is decoded right holds nothing of the three kinds. -/
theorem sound_of_decodesRight {json : Item → String}
    (decodesRight : DecodesRight json encoding.bytesOf)
    (isAccepted : Accepted (cborMaxDepth + 1) encoding) :
    Sound encoding := by
  obtain ⟨item, ⟨encoding', isProper', areTexts, sameBytes, rfl⟩, distinct, stands⟩ :=
    decodesRight (valueOf encoding)
      ((cborDecode_eq_ok_iff json _ _).mpr ⟨encoding, isAccepted, rfl, rfl⟩)
  have same : encoding' = encoding :=
    Encoding.bytesOf_inj isProper' (isAccepted.form.imp fun _ => And.left) sameBytes
  subst same
  have halves := (represents_valueOf_iff isAccepted.form).mp stands
  exact ⟨halves, areTexts, (distinctKeys_iff isAccepted.form halves).mp distinct⟩

/--
What is accepted is answered as the data item that the bytes are exactly where
it holds no subnormal half, no text that is not UTF-8 and no map that repeats a
key which is an object.
-/
theorem decodes_right_iff (json : Item → String) (input : Buffer) :
    DecodesRight json input ↔
      ∀ encoding : Encoding,
        Accepted (cborMaxDepth + 1) encoding → encoding.bytesOf = input → Sound encoding := by
  constructor
  · rintro decodesRight encoding isAccepted rfl
    exact sound_of_decodesRight decodesRight isAccepted
  · intro sound value decodes
    obtain ⟨encoding, isAccepted, sameBytes, rfl⟩ :=
      (cborDecode_eq_ok_iff json input value).mp decodes
    obtain ⟨halves, areTexts, objectsDiffer⟩ := sound encoding isAccepted sameBytes
    exact
      ⟨encoding.meaning,
        ⟨encoding, isAccepted.form.imp fun _ => And.left, areTexts, sameBytes, rfl⟩,
        (distinctKeys_iff isAccepted.form halves).mpr objectsDiffer,
        (represents_valueOf_iff isAccepted.form).mpr halves⟩

/-- The least subnormal half, `f9 00 01`, is answered as another number. -/
theorem not_always_decodes_right :
    ¬ ∀ (json : Item → String) (input : Buffer), DecodesRight json input := by
  intro decodesRight
  have isAccepted : Accepted (cborMaxDepth + 1) (.special 25 1) :=
    ⟨.intro ⟨⟨⟨by decide, by decide⟩, nofun⟩, by decide⟩ nofun, nofun⟩
  obtain ⟨halves, _⟩ := sound_of_decodesRight (decodesRight (fun _ => "") _) isAccepted
  exact halves.here rfl ⟨by decide, by decide⟩

/-- What the decoder answers there: `2^-14`, where the bytes are `2^-24`. -/
example :
    halfNumber 1 = .finite false (2 ^ (-14 : ℤ)) ∧
      Format.half.read 1 = .finite false (2 ^ (-24 : ℤ)) := by
  constructor <;> decide +kernel

end IyaSts.VcStatusCodec
