import IyaSts.Krb5Asn1
import IyaSts.TwosComplement

namespace IyaSts.Krb5Asn1

/-!
# What the contents octets of an element say

Lengths, whole numbers, flags and times each have octets that their reader
takes back, and lengths and whole numbers have the fewest there are.
-/

open Buffer Krb5Primitives List

theorem low_octet (v : Nat) : v &&& 0xff = v % 256 := Nat.and_two_pow_sub_one_eq_mod v 8

/-- The loop puts the octets of the number's own width in front. -/
theorem unshiftOctets_eq {v : Nat} (positive : 0 < v) :
    ∃ width,
      256 ^ width ≤ v ∧ v < 256 ^ (width + 1) ∧
        ∀ bytes, unshiftOctets v bytes = bigEndian (width + 1) v ++ bytes := by
  induction v using Nat.strongRecOn with
  | ind v ih =>
    have lastOctet (bytes : Buffer) :
        unshiftOctets v bytes = unshiftOctets (v / 256) (UInt8.ofNat v :: bytes) := by
      have sameOctet : UInt8.ofNat (v &&& 0xff) = UInt8.ofNat v := by
        apply UInt8.toNat_inj.mp
        rw [low_octet, UInt8.toNat_ofNat', UInt8.toNat_ofNat', Nat.mod_mod]
      rw [unshiftOctets, if_neg (by omega), sameOctet]
    by_cases oneOctet : v < 256
    · refine ⟨0, positive, oneOctet, ?_⟩
      intro bytes
      have noMore : v / 256 = 0 := by omega
      rw [lastOctet, noMore, unshiftOctets, if_pos rfl]
      simp [bigEndian]
    · obtain ⟨width, notLess, less, rest⟩ := ih (v / 256) (by omega) (by omega)
      refine ⟨width + 1, ?_, ?_, ?_⟩
      · rw [Nat.pow_succ]
        omega
      · rw [Nat.pow_succ]
        omega
      · intro bytes
        rw [lastOctet, rest, bigEndian_succ (width + 1) v]
        simp

/-! ## Lengths -/

/-- The definite forms of a length: short, or long with its octets. -/
inductive DefiniteLength : Buffer → Nat → Prop where
  | short (n : Nat) : n < 0x80 → DefiniteLength [UInt8.ofNat n] n
  | long (octets : Buffer) :
      0 < octets.length →
      octets.length < 0x7f →
      DefiniteLength (UInt8.ofNat (0x80 + octets.length) :: octets) (bigEndianValue octets)

/-- The mark of the long form leaves the count of its octets. -/
theorem long_mark (count : Nat) (fits : count ≤ 4) :
    0x80 ||| count = 128 + count ∧ (128 + count) &&& 0x7f = count := by
  have everyCount : ∀ count < 5, 0x80 ||| count = 128 + count ∧ (128 + count) &&& 0x7f = count := by
    decide
  exact everyCount count (by omega)

variable {n : Nat} {form : Buffer} {t : Tlv} {bits : List Nat} {text : String}
    {time : Int}

/-- A length is written in the short form, or in the fewest octets. -/
theorem encodeLength_form (written : encodeLength n = .ok form) :
    n < 0x80 ∧ form = [UInt8.ofNat n] ∨
      ∃ width,
        width < 4 ∧ 0x80 ≤ n ∧ 256 ^ width ≤ n ∧ n < 256 ^ (width + 1) ∧
          form = UInt8.ofNat (128 + (width + 1)) :: bigEndian (width + 1) n := by
  unfold encodeLength at written
  by_cases isShort : n < 0x80
  · rw [if_pos isShort, Except.ok.injEq] at written
    exact .inl ⟨isShort, written.symm⟩
  · obtain ⟨width, notLess, less, octets⟩ := unshiftOctets_eq (v := n) (by omega)
    simp only [octets, append_nil, length_bigEndian] at written
    rw [if_neg isShort] at written
    by_cases tooLong : 4 < width + 1
    · rw [if_pos tooLong] at written
      exact absurd written (by simp)
    · rw [if_neg tooLong, Except.ok.injEq, (long_mark (width + 1) (by omega)).1] at written
      exact .inr ⟨width, by omega, by omega, notLess, less, written.symm⟩

/-- A length is refused from the fifth octet on. -/
theorem encodeLength_refusal {error : String} (refused : encodeLength n = .error error) :
    2 ^ 32 ≤ n ∧ error = s!"krb5: refusing to encode a length of {n} bytes" := by
  unfold encodeLength at refused
  by_cases isShort : n < 0x80
  · rw [if_pos isShort] at refused
    exact absurd refused (by simp)
  · obtain ⟨width, notLess, less, octets⟩ := unshiftOctets_eq (v := n) (by omega)
    simp only [octets, append_nil, length_bigEndian] at refused
    rw [if_neg isShort] at refused
    by_cases tooLong : 4 < width + 1
    · rw [if_pos tooLong, Except.error.injEq] at refused
      refine ⟨?_, refused.symm⟩
      calc
        2 ^ 32 = 256 ^ 4 := by decide
        _ ≤ 256 ^ width := Nat.pow_le_pow_right (by decide) (by omega)
        _ ≤ n := notLess
    · rw [if_neg tooLong] at refused
      exact absurd refused (by simp)

/-- The length written is a form of the length, and none is shorter. -/
theorem encodeLength_minimal (written : encodeLength n = .ok form) :
    DefiniteLength form n ∧ ∀ other, DefiniteLength other n → form.length ≤ other.length := by
  rcases encodeLength_form written with
    ⟨isShort, rfl⟩ | ⟨width, isLong, notShort, notLess, less, rfl⟩
  · refine ⟨.short n isShort, ?_⟩
    intro other denotes
    cases denotes <;> simp
  · constructor
    · have denotes :=
        DefiniteLength.long (bigEndian (width + 1) n)
          (by rw [length_bigEndian]; omega)
          (by rw [length_bigEndian]; omega)
      rw [length_bigEndian, bigEndianValue_bigEndian, Nat.mod_eq_of_lt less] at denotes
      exact denotes
    · intro other denotes
      cases denotes with
      | short _ isShort => omega
      | long octets _ _ =>
        have below := bigEndianValue_lt octets
        have wide : width < octets.length :=
          (Nat.pow_lt_pow_iff_right (by decide)).mp (lt_of_le_of_lt notLess below)
        simp only [length_cons, length_bigEndian]
        omega

/-! ## Whole numbers -/

theorem half_eq_pow (positive : 0 < n) : (2 : Int) ^ (8 * n - 1) = TwosComplement.half n := by
  obtain ⟨below, rfl⟩ : ∃ below, n = below + 1 := ⟨n - 1, by omega⟩
  have exponent : 8 * (below + 1) - 1 = 7 + 8 * below := by omega
  rw [exponent, pow_add, pow_mul, TwosComplement.half, Nat.add_sub_cancel]
  rfl

theorem octets_eq_pow (n : Nat) : (2 : Int) ^ (8 * n) = 256 ^ n := by
  rw [pow_mul]
  rfl

variable (value : Int) (bit : Nat)

/-- The loop stops at the first width whose range the number is in. -/
theorem negativeWidth_spec (positive : 0 < n) :
    n ≤ negativeWidth value n ∧
      -TwosComplement.half (negativeWidth value n) ≤ value ∧
      ∀ fewer, n ≤ fewer → fewer < negativeWidth value n → value < -TwosComplement.half fewer := by
  fun_induction negativeWidth value n with
  | case1 n isBeyond ih =>
    obtain ⟨wider, reaches, beyond⟩ := ih (by omega)
    refine ⟨by omega, reaches, ?_⟩
    intro fewer notFewer isFewer
    by_cases isFirst : fewer = n
    · rw [isFirst, ← half_eq_pow positive]
      exact isBeyond
    · exact beyond fewer (by omega) isFewer
  | case2 n isReached =>
    refine ⟨Nat.le_refl n, ?_, ?_⟩
    · rw [← half_eq_pow positive]
      omega
    · intro fewer notFewer isFewer
      omega

/-- Filling the octets from the last spells the number. -/
theorem fillOctets_eq (n m : Nat) (bytes : Buffer) :
    fillOctets n m bytes = bigEndian n m ++ bytes := by
  induction n generalizing m bytes with
  | zero => rfl
  | succ n ih =>
    have sameOctet : UInt8.ofNat (m &&& 0xff) = UInt8.ofNat m := by
      apply UInt8.toNat_inj.mp
      rw [low_octet, UInt8.toNat_ofNat', UInt8.toNat_ofNat', Nat.mod_mod]
    rw [fillOctets, ih, sameOctet, bigEndian_succ]
    simp

/-- The highest bit of an octet is what the readers test. -/
theorem high_bit {octet : Nat} (isOctet : octet < 256) : octet &&& 0x80 ≠ 0 ↔ 128 ≤ octet := by
  rw [show 0x80 = 2 ^ 7 from rfl, Nat.and_two_pow, Nat.testBit_eq_decide_div_mod_eq]
  by_cases isHigh : octet / 2 ^ 7 % 2 = 1
  · simp only [isHigh, decide_true, Bool.toNat_true]
    omega
  · simp only [isHigh, decide_false, Bool.toNat_false]
    omega

/-- A number is written in two's complement of the least width it fits in. -/
theorem integerContent_eq :
    ∃ width,
      0 < width ∧ integerContent value = TwosComplement.content width value ∧
        TwosComplement.Fits width value ∧
        ∀ fewer, 0 < fewer → fewer < width → ¬TwosComplement.Fits fewer value := by
  rcases Int.lt_trichotomy value 0 with isNegative | rfl | isPositive
  · obtain ⟨atLeast, reaches, beyond⟩ := negativeWidth_spec value (n := 1) (by decide)
    set n := negativeWidth value 1
    have wraps : (256 : Int) ^ n = 2 * TwosComplement.half n := by
      obtain ⟨below, isWidth⟩ : ∃ below, n = below + 1 := ⟨n - 1, by omega⟩
      rw [isWidth]
      exact TwosComplement.half_succ below
    have residue : value % 256 ^ n = value + 256 ^ n := by
      rw [← Int.add_emod_right]
      exact Int.emod_eq_of_lt (by omega) (by omega)
    refine ⟨n, by omega, ?_, ⟨reaches, by omega⟩, ?_⟩
    · rw [integerContent, if_neg (by omega), if_neg (by omega)]
      simp only
      rw [fillOctets_eq, octets_eq_pow, TwosComplement.content, residue, append_nil]
    · intro fewer isSome isFewer fits
      have := beyond fewer isSome isFewer
      have := fits.1
      omega
  · refine ⟨1, by decide, rfl, ⟨by decide, by decide⟩, ?_⟩
    intro fewer isSome isFewer
    omega
  · obtain ⟨v, rfl⟩ : ∃ v : Nat, value = v := ⟨value.toNat, by omega⟩
    obtain ⟨width, notLess, less, octets⟩ := unshiftOctets_eq (v := v) (by omega)
    have lessInt : (v : Int) < 256 ^ (width + 1) := by exact_mod_cast less
    have notLessInt : (256 : Int) ^ width ≤ v := by exact_mod_cast notLess
    have isHalf : TwosComplement.half (width + 1) = 128 * 256 ^ width := rfl
    have first : (bigEndian (width + 1) v).byteAt 0 = v / 256 ^ width := by
      have fits : v / 256 ^ width < 256 := by
        rw [Nat.div_lt_iff_lt_mul (Nat.pow_pos (by decide)), Nat.mul_comm, ← Nat.pow_succ]
        exact less
      simp only [byteAt, bigEndian, Int.lt_irrefl, if_false, Int.toNat_zero,
        getD_cons_zero, UInt8.toNat_ofNat']
      exact Nat.mod_eq_of_lt fits
    have highFirst :
        (bigEndian (width + 1) v).byteAt 0 &&& 0x80 ≠ 0 ↔ TwosComplement.half (width + 1) ≤ v := by
      rw [high_bit (byteAt_lt _ _), first, Nat.le_div_iff_mul_le (Nat.pow_pos (by decide)), isHalf]
      exact_mod_cast Iff.rfl
    have written :
        integerContent v =
          if TwosComplement.half (width + 1) ≤ v then
            0 :: bigEndian (width + 1) v
          else
            bigEndian (width + 1) v := by
      rw [integerContent, if_neg (by omega), if_pos isPositive]
      simp only [Int.toNat_natCast, octets, append_nil, highFirst]
    by_cases padded : TwosComplement.half (width + 1) ≤ v
    · have wider : (256 : Int) ^ (width + 1) ≤ 256 ^ (width + 2) :=
        pow_le_pow_right₀ (by decide) (by omega)
      have isWiderHalf : TwosComplement.half (width + 2) = 128 * 256 ^ (width + 1) := rfl
      refine ⟨width + 2, by omega, ?_, ⟨by omega, by omega⟩, ?_⟩
      · have padding :
            bigEndian (width + 2) v =
              UInt8.ofNat (v / 256 ^ (width + 1)) :: bigEndian (width + 1) v :=
          rfl
        rw [written, if_pos padded, TwosComplement.content, Int.emod_eq_of_lt (by omega) (by omega),
          Int.toNat_natCast, padding, Nat.div_eq_of_lt less]
        rfl
      · intro fewer isSome isFewer fits
        have := TwosComplement.half_mono fewer (width + 1) (by omega)
        have := fits.2
        omega
    · refine ⟨width + 1, by omega, ?_, ⟨by omega, by omega⟩, ?_⟩
      · rw [written, if_neg padded, TwosComplement.content,
          Int.emod_eq_of_lt (by omega) lessInt, Int.toNat_natCast]
      · intro fewer isSome isFewer fits
        have := TwosComplement.half_mono fewer width (by omega)
        have := fits.2
        have wraps := TwosComplement.half_succ (width - 1)
        rw [show width - 1 + 1 = width by omega] at wraps
        omega

/-- The number is what its contents octets say, and no fewer octets say it. -/
theorem integerContent_minimal :
    TwosComplement.value (integerContent value) = value ∧
      ∀ other, other ≠ [] → TwosComplement.value other = value →
        (integerContent value).length ≤ other.length := by
  obtain ⟨width, isSome, written, fits, isLeast⟩ := integerContent_eq value
  rw [written]
  refine ⟨TwosComplement.value_content isSome fits, ?_⟩
  intro other isOther spells
  rw [TwosComplement.length_content]
  exact TwosComplement.least_width isLeast isOther spells

/-- The reader of an INTEGER takes the contents octets for two's complement. -/
theorem decInteger_eq (isInteger : t.tag = TAG.integer) (isSome : t.value ≠ [])
    (isShort : t.value.length ≤ 6) :
    decInteger t = .ok (TwosComplement.value t.value) := by
  have notEmpty : ¬t.value.length = 0 := by
    rw [length_eq_zero_iff]
    exact isSome
  have notLong : ¬6 < t.value.length := by omega
  simp only [decInteger, expectTag, isInteger, ne_eq, not_true, if_false,
    bind, Except.bind, notEmpty, notLong, foldl_eq_bigEndianValue]
  cases octets : t.value with
  | nil => exact absurd octets isSome
  | cons first rest =>
    have isFirst : byteAt (first :: rest) 0 = first.toNat := rfl
    have signed := high_bit first.toNat_lt
    rw [isFirst, TwosComplement.value, octets_eq_pow, length_cons]
    by_cases isNegative : 128 ≤ first.toNat
    · rw [if_pos (signed.mpr isNegative), if_pos isNegative]
    · rw [if_neg (fun high => isNegative (signed.mp high)), if_neg isNegative, Int.sub_zero]

/-- A number of at most six octets is read back. -/
theorem decInteger_integerContent {value : Int} (isInteger : t.tag = TAG.integer)
    (written : t.value = integerContent value) (inRange : -2 ^ 47 ≤ value ∧ value < 2 ^ 47) :
    decInteger t = .ok value := by
  obtain ⟨width, isSome, octets, fits, isLeast⟩ := integerContent_eq value
  have sixOctets : width ≤ 6 := by
    by_contra isLonger
    refine isLeast 6 (by decide) (by omega) ?_
    have isHalf : TwosComplement.half 6 = 2 ^ 47 := by decide
    exact ⟨by omega, by omega⟩
  have length : t.value.length = width := by rw [written, octets, TwosComplement.length_content]
  have notEmpty : t.value ≠ [] := by
    rw [← length_pos_iff, length]
    exact isSome
  rw [decInteger_eq isInteger notEmpty (by omega), written, (integerContent_minimal value).1]

/-! ## Flags -/

/-- The mask of a flag is its bit of the octet. -/
theorem flag_mask : 0x80 >>> (bit &&& 7) = 2 ^ (7 - bit % 8) := by
  have everyPlace : ∀ place < 8, 0x80 >>> place = 2 ^ (7 - place) := by decide
  rw [show bit &&& 7 = bit % 8 from Nat.and_two_pow_sub_one_eq_mod bit 3]
  exact everyPlace _ (Nat.mod_lt _ (by decide))

theorem flag_octet : bit >>> 3 = bit / 8 := Nat.shiftRight_eq_div_pow bit 3

/-- Setting flags adds them to those that are set. -/
theorem setFlags_spec (inRange : ∀ bit ∈ bits, bit ≤ 31) (bytes : Buffer)
    (isFour : bytes.length = 4) :
    ∃ written,
      setFlags (bits.map Int.ofNat) bytes = .ok written ∧
        written.length = 4 ∧
        ∀ i, written.highBit i = (bytes.highBit i || decide (i ∈ bits)) := by
  induction bits generalizing bytes with
  | nil => exact ⟨bytes, rfl, isFour, by simp⟩
  | cons bit rest ih =>
    have isFlag := inRange bit mem_cons_self
    have restInRange :
        ∀ other ∈ rest, other ≤ 31 :=
      fun other isOther => inRange other (mem_cons_of_mem _ isOther)
    have inside : bit / 8 < bytes.length := by omega
    obtain ⟨written, isSet, length, flags⟩ :=
      ih restInRange
        (bytes.orAt (bit / 8 : Nat) (2 ^ (7 - bit % 8)))
        (by rw [length_orAt, isFour])
    refine ⟨written, ?_, length, ?_⟩
    · rw [map_cons, setFlags, if_neg (by simp; omega)]
      simp only [Int.ofNat_eq_natCast, Int.toNat_natCast, flag_octet, flag_mask]
      exact isSet
    · intro i
      have isBit :
          (decide (i / 8 = bit / 8) &&
              (2 ^ (7 - bit % 8)).testBit (7 - i % 8)) =
            decide (i = bit) := by
        rw [Nat.testBit_two_pow, ← Bool.decide_and, decide_eq_decide]
        omega
      rw [flags, highBit_orAt bytes inside, isBit]
      simp only [mem_cons, Bool.decide_or, Bool.or_assoc]

/-- The bits read are those set, from the high end of each octet. -/
theorem bitsFromFlags_eq (bytes : Buffer) :
    bitsFromFlags bytes = (List.range (bytes.length * 8)).filter bytes.highBit := by
  unfold bitsFromFlags
  congr 1
  funext i
  rw [flag_octet, flag_mask, Nat.and_two_pow, highBit]
  cases isSet : (bytes.byteAt (i / 8 : Nat)).testBit (7 - i % 8) <;> simp

/-- Flags are read back, in their order. -/
theorem decFlags_setFlags {bytes : Buffer} (isBitString : t.tag = TAG.bitString)
    (inRange : ∀ bit ∈ bits, bit ≤ 31)
    (written : setFlags (bits.map Int.ofNat) (alloc 4) = .ok bytes)
    (contents : t.value = [0] ++ bytes) :
    (decFlags t).map bitsFromFlags =
      .ok ((List.range 32).filter fun bit => decide (bit ∈ bits)) := by
  obtain ⟨others, sameWritten, length, flags⟩ := setFlags_spec inRange _ (length_alloc 4)
  rw [written, Except.ok.injEq] at sameWritten
  subst sameWritten
  have isRead : decFlags t = .ok bytes := by
    simp [decFlags, expectTag, isBitString, contents, bind, Except.bind]
  have sameBits : bytes.highBit = fun bit => decide (bit ∈ bits) := by
    funext bit
    rw [flags, highBit_alloc, Bool.false_or]
  rw [isRead, Except.map, bitsFromFlags_eq, length, sameBits]

/-! ## Text -/

/-- Text is read back. -/
theorem decGeneralString_utf8 (isGeneralString : t.tag = TAG.generalString)
    (written : t.value = utf8 (Json.codeUnits text)) :
    decGeneralString t = .ok (Json.codeUnits text) := by
  simp [decGeneralString, isGeneralString, written, fromUtf8_utf8, pure, Except.pure]

/-! ## Times -/

/-- Latin-1 reads what UTF-8 writes of the first code units. -/
theorem decLatin1_utf8 {units : List Nat} (isAscii : ∀ unit ∈ units, unit < 0x80) :
    decLatin1 (utf8 units) = units := by
  induction units with
  | nil => rfl
  | cons unit rest ih =>
    have first := isAscii unit mem_cons_self
    have isRead := ih fun other isOther => isAscii other (mem_cons_of_mem _ isOther)
    have isByte : (UInt8.ofNat unit).toNat = unit := by
      rw [UInt8.toNat_ofNat']
      omega
    unfold decLatin1 utf8 at isRead ⊢
    rw [utf8Octets_unit (by omega), utf8Octets.unit, if_pos first,
      map_append, map_append, isRead]
    simp [isByte]

theorem codeUnits_append (first second : String) :
    Json.codeUnits (first ++ second) = Json.codeUnits first ++ Json.codeUnits second := by
  simp [Json.codeUnits]

/-- A decimal digit is one code unit. -/
theorem codeUnits_digit (isDigit : n < 10) : Json.codeUnits (toString n) = [0x30 + n] := by
  have inPlane : ¬0x10000 ≤ n.digitChar.toNat := by
    rw [Nat.toNat_digitChar_of_lt_ten isDigit]
    omega
  rw [codeUnits_eq, Nat.toString_eq_ofList_toDigits, String.toList_ofList,
    Nat.toDigits_of_lt_base isDigit, flatMap_singleton, fromCodePoint,
    if_neg inPlane, Nat.toNat_digitChar_of_lt_ten isDigit]

/-- A longer decimal is that of its tens and a digit. -/
theorem codeUnits_decimal (isLonger : 10 ≤ n) :
    Json.codeUnits (toString n) = Json.codeUnits (toString (n / 10)) ++ [0x30 + n % 10] := by
  have lastDigit := codeUnits_digit (n := n % 10) (Nat.mod_lt _ (by decide))
  rw [← lastDigit, codeUnits_eq, codeUnits_eq, codeUnits_eq, Nat.toString_eq_ofList_toDigits,
    Nat.toString_eq_ofList_toDigits, Nat.toString_eq_ofList_toDigits, String.toList_ofList,
    String.toList_ofList, String.toList_ofList, Nat.toDigits_of_base_le (by decide) isLonger,
    flatMap_append, Nat.toDigits_of_lt_base (n := n % 10) (Nat.mod_lt _ (by decide))]

/-- A field of a time is written with two digits. -/
theorem codeUnits_two (twoDigits : n < 100) :
    Json.codeUnits (two n) = [0x30 + n / 10, 0x30 + n % 10] := by
  have asNat : toString (n : Int) = toString n := rfl
  rw [two, asNat, codeUnits_append]
  by_cases oneDigit : n < 10
  · rw [if_pos (by omega), codeUnits_digit oneDigit]
    have tens : n / 10 = 0 := by omega
    have ones : n % 10 = n := by omega
    rw [tens, ones]
    rfl
  · rw [if_neg (by omega), codeUnits_decimal (by omega), codeUnits_digit (by omega)]
    rfl

/-- A year of four digits is written with them. -/
theorem codeUnits_year {year : Nat} (fourDigits : 1000 ≤ year ∧ year ≤ 9999) :
    Json.codeUnits (toString (year : Int)) =
      [0x30 + year / 10 / 10 / 10, 0x30 + year / 10 / 10 % 10,
        0x30 + year / 10 % 10, 0x30 + year % 10] := by
  have asNat : toString (year : Int) = toString year := rfl
  rw [asNat, codeUnits_decimal (by omega), codeUnits_decimal (by omega),
    codeUnits_decimal (by omega), codeUnits_digit (by omega)]
  rfl

/-- The time values the coder writes whole. -/
def WholeTime (time : Int) : Prop :=
  time % 1000 = 0 ∧ 1000 ≤ Calendar.utcFullYear time ∧ Calendar.utcFullYear time ≤ 9999

/-- Fourteen digits and `Z` are the fields of a time. -/
theorem parseKerberosTime_fields {year month date hours minutes seconds : Nat}
    (yearFits : year ≤ 9999) (monthFits : month < 100) (dateFits : date < 100)
    (hoursFit : hours < 100) (minutesFit : minutes < 100) (secondsFit : seconds < 100) :
    parseKerberosTime
        [0x30 + year / 10 / 10 / 10, 0x30 + year / 10 / 10 % 10,
          0x30 + year / 10 % 10, 0x30 + year % 10,
          0x30 + month / 10, 0x30 + month % 10,
          0x30 + date / 10, 0x30 + date % 10,
          0x30 + hours / 10, 0x30 + hours % 10,
          0x30 + minutes / 10, 0x30 + minutes % 10,
          0x30 + seconds / 10, 0x30 + seconds % 10, 0x5a] =
      .ok (Calendar.utc year ((month : Int) - 1) date hours minutes seconds) := by
  have digit {n : Nat} (fits : n < 10) : isDigit (0x30 + n) = true := by
    simp only [isDigit, decide_eq_true_eq]
    omega
  have twoDigits (n : Nat) : number [0x30 + n / 10, 0x30 + n % 10] = n := by
    simp only [number, foldl_cons, foldl_nil]
    omega
  have fourDigits :
      number
          [0x30 + year / 10 / 10 / 10, 0x30 + year / 10 / 10 % 10,
            0x30 + year / 10 % 10, 0x30 + year % 10] = year := by
    simp only [number, foldl_cons, foldl_nil]
    omega
  have allDigits :
      ([0x30 + year / 10 / 10 / 10, 0x30 + year / 10 / 10 % 10, 0x30 + year / 10 % 10,
          0x30 + year % 10, 0x30 + month / 10, 0x30 + month % 10, 0x30 + date / 10,
          0x30 + date % 10, 0x30 + hours / 10, 0x30 + hours % 10, 0x30 + minutes / 10,
          0x30 + minutes % 10, 0x30 + seconds / 10, 0x30 + seconds % 10].all isDigit) =
        true := by
    simp only [all_cons, all_nil, Bool.and_true, Bool.and_eq_true]
    refine ⟨digit ?_, digit ?_, digit ?_, digit ?_, digit ?_, digit ?_, digit ?_, digit ?_,
      digit ?_, digit ?_, digit ?_, digit ?_, digit ?_, digit ?_⟩ <;> omega
  unfold parseKerberosTime
  simp only [take_succ_cons, take_zero, drop_succ_cons, drop_zero,
    length_cons, length_nil, allDigits, fourDigits, twoDigits, and_self, if_true]

/-- A whole second of a year of four digits is parsed as what was formatted. -/
theorem parse_formatKerberosTime (isWhole : WholeTime time) :
    ∃ text,
      formatKerberosTime (some time) = .ok text ∧
        (∀ unit ∈ Json.codeUnits text, unit < 0x80) ∧
        parseKerberosTime (Json.codeUnits text) = .ok time := by
  obtain ⟨wholeSecond, notEarlier, notLater⟩ := isWhole
  have sameTime := Calendar.utc_ofTime wholeSecond (by omega)
  have monthBound := Calendar.monthOfDay_le (time / 86400000)
  have dateBounds := Calendar.dateOfDay_bounds (time / 86400000)
  obtain ⟨year, isYear⟩ :
      ∃ year : Nat, Calendar.utcFullYear time = year :=
    ⟨(Calendar.utcFullYear time).toNat, by omega⟩
  obtain ⟨month, isMonth, monthFits⟩ :
      ∃ month : Nat, (Calendar.utcMonth time : Int) + 1 = month ∧ month < 100 :=
    ⟨Calendar.utcMonth time + 1, by simp, by
      unfold Calendar.utcMonth
      omega⟩
  obtain ⟨date, isDate, dateFits⟩ :
      ∃ date : Nat, Calendar.utcDate time = date ∧ date < 100 :=
    ⟨(Calendar.utcDate time).toNat, by
      unfold Calendar.utcDate
      omega, by
      unfold Calendar.utcDate
      omega⟩
  obtain ⟨hours, isHours, hoursFit⟩ :
      ∃ hours : Nat, Calendar.utcHours time = hours ∧ hours < 100 :=
    ⟨(Calendar.utcHours time).toNat, by
      unfold Calendar.utcHours
      omega, by
      unfold Calendar.utcHours
      omega⟩
  obtain ⟨minutes, isMinutes, minutesFit⟩ :
      ∃ minutes : Nat, Calendar.utcMinutes time = minutes ∧ minutes < 100 :=
    ⟨(Calendar.utcMinutes time).toNat, by
      unfold Calendar.utcMinutes
      omega, by
      unfold Calendar.utcMinutes
      omega⟩
  obtain ⟨seconds, isSeconds, secondsFit⟩ :
      ∃ seconds : Nat, Calendar.utcSeconds time = seconds ∧ seconds < 100 :=
    ⟨(Calendar.utcSeconds time).toNat, by
      unfold Calendar.utcSeconds
      omega, by
      unfold Calendar.utcSeconds
      omega⟩
  have fourDigits : 1000 ≤ year ∧ year ≤ 9999 := by omega
  have units :
      Json.codeUnits
          (toString (Calendar.utcFullYear time) ++
            two (Calendar.utcMonth time + 1) ++ two (Calendar.utcDate time) ++
            two (Calendar.utcHours time) ++ two (Calendar.utcMinutes time) ++
            two (Calendar.utcSeconds time) ++ "Z") =
        [0x30 + year / 10 / 10 / 10, 0x30 + year / 10 / 10 % 10,
          0x30 + year / 10 % 10, 0x30 + year % 10,
          0x30 + month / 10, 0x30 + month % 10,
          0x30 + date / 10, 0x30 + date % 10,
          0x30 + hours / 10, 0x30 + hours % 10,
          0x30 + minutes / 10, 0x30 + minutes % 10,
          0x30 + seconds / 10, 0x30 + seconds % 10, 0x5a] := by
    simp only [codeUnits_append, isYear, isMonth, isDate, isHours, isMinutes, isSeconds,
      codeUnits_year fourDigits, codeUnits_two monthFits, codeUnits_two dateFits,
      codeUnits_two hoursFit, codeUnits_two minutesFit, codeUnits_two secondsFit]
    rfl
  refine ⟨_, rfl, ?_, ?_⟩
  · rw [units]
    simp only [forall_mem_cons]
    refine ⟨?_, ?_, ?_, ?_, ?_, ?_, ?_, ?_, ?_, ?_, ?_, ?_, ?_, ?_, ?_, ?_⟩
    case refine_16 =>
      intro unit isUnit
      exact absurd isUnit not_mem_nil
    all_goals omega
  · rw [units, parseKerberosTime_fields fourDigits.2 monthFits dateFits
      hoursFit minutesFit secondsFit, ← isMonth, ← isYear, ← isDate,
      ← isHours, ← isMinutes, ← isSeconds, Int.add_sub_cancel, sameTime]

/-- A whole second is read back. -/
theorem decKerberosTime_format (isGeneralizedTime : t.tag = TAG.generalizedTime)
    (isWhole : WholeTime time) (formatted : formatKerberosTime (some time) = .ok text)
    (written : t.value = utf8 (Json.codeUnits text)) :
    decKerberosTime t = .ok time := by
  obtain ⟨sameText, isFormatted, isAscii, parsed⟩ := parse_formatKerberosTime isWhole
  rw [formatted, Except.ok.injEq] at isFormatted
  subst isFormatted
  simp only [decKerberosTime, expectTag, isGeneralizedTime, ne_eq, not_true,
    if_false, bind, Except.bind, written, decLatin1_utf8 isAscii, parsed]

end IyaSts.Krb5Asn1
