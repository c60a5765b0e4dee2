import IyaSts.VcStatusList
import Mathlib.Data.List.Nodup

namespace IyaSts.VcStatusCodec

open JsNumber

/-!
# When a status list keeps its entries

Packing only ever sets bits, so a packed list is described by which of its bits
are set.  Up to `2^31` bits the 32-bit operators find every position, and a
list keeps its entries.  From there on they do not: the Bitstring Status List,
whose size nothing bounds, loses the entry that reaches bit `2^31`.
-/

open List

/-! ## Putting entries one after another -/

variable {entries : List (Int × Int)} {out bytes : Buffer} {width size index status : Nat}
    {entry : Int × Int} {values : Values}

/--
Where every `put` sets the bits of its own entry and changes no other, the
packed list has exactly the bits its entries set.
-/
theorem foldlM_put (put : Buffer → Int × Int → Except String Buffer) (view : Buffer → Nat → Bool)
    (sets : Int × Int → Nat → Bool) {length : Nat}
    (putSets :
      ∀ entry ∈ entries, ∀ out : Buffer,
        out.length = length →
        ∃ out',
          put out entry = .ok out' ∧
            out'.length = length ∧ ∀ bit, view out' bit = (view out bit || sets entry bit))
    (hasLength : out.length = length) :
    ∃ out',
      entries.foldlM put out = .ok out' ∧
        out'.length = length ∧
          ∀ bit, view out' bit = (view out bit || entries.any fun entry => sets entry bit) := by
  induction entries generalizing out with
  | nil => exact ⟨out, rfl, hasLength, by simp⟩
  | cons entry rest ih =>
    obtain ⟨next, putNext, nextLength, nextView⟩ := putSets entry mem_cons_self out hasLength
    obtain ⟨final, foldFinal, finalLength, finalView⟩ :=
      ih
        (fun later isLater => putSets later (mem_cons_of_mem _ isLater))
        nextLength
    refine ⟨final, ?_, finalLength, ?_⟩
    · rw [foldlM_cons, putNext]
      exact foldFinal
    · intro bit
      simp [finalView, nextView, Bool.or_assoc]

/-- Entries for one index assign it one status. -/
def Consistent (entries : List (Int × Int)) : Prop :=
  ∀ entry ∈ entries, ∀ entry' ∈ entries, entry.1 = entry'.1 → entry = entry'

theorem consistent_of_distinct (distinct : (entries.map Prod.fst).Nodup) : Consistent entries := by
  intro entry isEntry entry' isEntry' sameIndex
  exact inj_on_of_nodup_map distinct isEntry isEntry' sameIndex

/-- An array has one element at each of its indexes. -/
theorem tslEntries_consistent (values : Values) : Consistent values.tslEntries := by
  cases values with
  | map entries => exact consistent_of_distinct entries.distinct
  | array elements =>
    intro entry isEntry entry' isEntry' sameIndex
    simp only [Values.tslEntries, mem_filterMap, Prod.exists,
      Option.map_eq_some_iff, mem_zipIdx_iff_getElem?]
      at isEntry isEntry'
    obtain ⟨_, index, found, value, rfl, rfl⟩ := isEntry
    obtain ⟨_, index', found', value', rfl, rfl⟩ := isEntry'
    have same : index = index' := Int.ofNat_inj.mp sameIndex
    subst same
    rw [found] at found'
    simp_all

/-- The array form of a bitstring assigns one to every index it lists. -/
theorem bitstringEntries_consistent (values : Values) : Consistent values.bitstringEntries := by
  cases values with
  | map entries => exact consistent_of_distinct entries.distinct
  | array elements =>
    intro entry isEntry entry' isEntry' sameIndex
    simp only [Values.bitstringEntries, mem_filterMap,
      Option.map_eq_some_iff] at isEntry isEntry'
    obtain ⟨_, _, idx, _, rfl⟩ := isEntry
    obtain ⟨_, _, idx', _, rfl⟩ := isEntry'
    simp_all

/-- The bits consistent entries set at an index are those of its status. -/
theorem any_testBit_eq_assigned (consistent : Consistent entries) (index bit : Nat) :
    (entries.any fun entry =>
        decide (entry.1 = index) && entry.2.toNat.testBit bit) =
      (assigned entries index).testBit bit := by
  unfold assigned
  cases looked : entries.lookup (index : Int) with
  | none =>
    simp only [Option.getD_none, Int.toNat_zero, Nat.zero_testBit,
      any_eq_false, Bool.and_eq_true, decide_eq_true_eq, not_and]
    intro entry isEntry isIndex
    rw [lookup_eq_none_iff] at looked
    have differs := looked entry isEntry
    simp [isIndex] at differs
  | some status =>
    obtain ⟨before, after, shape, _⟩ := lookup_eq_some_iff.mp looked
    have isEntry : ((index : Int), status) ∈ entries := by simp [shape]
    rw [Option.getD_some, Bool.eq_iff_iff]
    simp only [any_eq_true, Bool.and_eq_true, decide_eq_true_eq]
    constructor
    · rintro ⟨entry, isEntry', isIndex, isSet⟩
      have same := consistent entry isEntry' _ isEntry isIndex
      rwa [same] at isSet
    · intro isSet
      exact ⟨_, isEntry, rfl, isSet⟩

/-- An assigned status fits as its entries do. -/
theorem assigned_lt (fits : Fits width size entries) (index : Nat) :
    assigned entries index < 2 ^ width := by
  unfold assigned
  cases looked : entries.lookup (index : Int) with
  | none => exact Nat.two_pow_pos width
  | some status =>
    obtain ⟨before, after, shape, _⟩ := lookup_eq_some_iff.mp looked
    have fitsHere := (fits (index, status) (by simp [shape])).2
    have bound : status < ((2 ^ width : Nat) : Int) := by simpa using fitsHere.2
    simp only [Option.getD_some]
    omega

/-- A list whose every index reads back its status is isolated too. -/
theorem Keeps.of_reads {entries : Values → List (Int × Int)} {pack : Values → Except String Buffer}
    {read : Buffer → Nat → Except String Nat}
    (reads :
      ∀ values,
        Fits width size (entries values) →
        ∃ bytes,
          pack values = .ok bytes ∧
            ∀ index < size, read bytes index = .ok (assigned (entries values) index)) :
    Keeps entries pack read width size where
  reads := reads
  isolated := by
    intro values values' changed bytes bytes' fits fits' same packed packed' index inside notChanged
    obtain ⟨_, packs, readsBack⟩ := reads values fits
    obtain ⟨_, packs', readsBack'⟩ := reads values' fits'
    rw [packed, Except.ok.injEq] at packs
    rw [packed', Except.ok.injEq] at packs'
    subst packs packs'
    rw [readsBack index inside, readsBack' index inside, same index notChanged]

/-! ## Positions below `2^31` -/

/-- A position below `2^31` is found where it is. -/
theorem shiftRight_three {bit : Nat} (small : bit < 2 ^ 31) :
    shiftRight bit 3 = (bit / 8 : Nat) := by
  rw [shiftRight, toInt32_eq (by omega) (by omega)]
  omega

theorem lowBits_three (bit : Nat) : lowBits bit 3 = bit % 8 := by
  simp only [lowBits]
  omega

/-- Arithmetic on positions below `2^31` and a little beyond is exact. -/
theorem toDouble_natCast {exact : Nat} (small : exact ≤ 2 ^ 53) : toDouble (exact : Int) = exact :=
  toDouble_eq (by omega)

/-- A list of at most `2^31` bits has the length it should. -/
theorem byteLength_eq {count width : Nat} (small : count * width ≤ 2 ^ 31) :
    byteLength count width = (count * width + 7) / 8 := by
  rw [byteLength, toDouble_natCast (by omega)]
  omega

/-- An index below the size leaves room for its entry. -/
theorem entry_inside {idx size : Nat} (inside : idx < size) (width : Nat) :
    idx * width + width ≤ size * width := by
  calc
    idx * width + width = (idx + 1) * width := by ring
    _ ≤ size * width := Nat.mul_le_mul_right width inside

theorem isSafeInteger_natCast (safe : index ≤ maxSafeInteger) :
    isSafeInteger (index : Int) = true := by
  simpa [isSafeInteger] using safe

/-- An index of a list of safe size is accepted. -/
theorem checkIndex_natCast (safe : index ≤ maxSafeInteger) : checkIndex index = .ok index := by
  have isSafe := isSafeInteger_natCast safe
  have notNegative : ¬ ((index : Int) < 0) := by omega
  simp [checkIndex, isSafe, notNegative]

/-! ## Token Status List -/

/-- The widths, as naturals. -/
def IsTslWidth (width : Nat) : Prop := width = 1 ∨ width = 2 ∨ width = 4 ∨ width = 8

theorem checkBits_natCast (isWidth : IsTslWidth width) : checkBits width = .ok width := by
  rcases isWidth with rfl | rfl | rfl | rfl <;> rfl

/-- The bits an entry sets, from the low end. -/
def tslSets (width : Nat) (entry : Int × Int) (bit : Nat) : Bool :=
  decide (entry.1 = (bit / width : Nat)) && entry.2.toNat.testBit (bit % width)

/-- An entry of a Token Status List stays within one byte. -/
theorem tsl_mask_testBit {width value : Nat} (isWidth : IsTslWidth width) (fits : value < 2 ^ width)
    (idx bit : Nat) :
    (decide (bit / 8 = idx * width / 8) &&
        (value <<< (idx * width % 8)).testBit (bit % 8)) =
      (decide ((idx : Int) = (bit / width : Nat)) && value.testBit (bit % width)) := by
  rw [Nat.testBit_shiftLeft]
  by_cases isEntry : idx = bit / width
  · have sameByte : bit / 8 = idx * width / 8 := by
      rcases isWidth with rfl | rfl | rfl | rfl <;> omega
    have notBefore : bit % 8 ≥ idx * width % 8 := by
      rcases isWidth with rfl | rfl | rfl | rfl <;> omega
    have sameBit : bit % 8 - idx * width % 8 = bit % width := by
      rcases isWidth with rfl | rfl | rfl | rfl <;> omega
    have isEntryInt : (idx : Int) = (bit / width : Nat) := by rw [isEntry]
    rw [decide_eq_true sameByte, decide_eq_true notBefore, sameBit, decide_eq_true isEntryInt]
    rfl
  · have notEntryInt : ¬ ((idx : Int) = (bit / width : Nat)) :=
      fun same => isEntry (Int.ofNat_inj.mp same)
    rw [decide_eq_false notEntryInt, Bool.false_and]
    by_cases reached : bit / 8 = idx * width / 8 ∧ bit % 8 ≥ idx * width % 8
    · have beyond : width ≤ bit % 8 - idx * width % 8 := by
        rcases isWidth with rfl | rfl | rfl | rfl <;> omega
      have noBit :
          value.testBit (bit % 8 - idx * width % 8) = false :=
        Nat.testBit_lt_two_pow (lt_of_lt_of_le fits (Nat.pow_le_pow_right (by decide) beyond))
      simp [noBit]
    · rw [not_and_or] at reached
      rcases reached with otherByte | before
      · simp [otherByte]
      · simp [before]

/-- One `put` sets the bits of its entry and no other. -/
theorem putTsl_sets (isWidth : IsTslWidth width) (small : size * width ≤ 2 ^ 31)
    (inside : 0 ≤ entry.1 ∧ entry.1 < size) (fits : 0 ≤ entry.2 ∧ entry.2 < 2 ^ width)
    (out : Buffer) (hasLength : out.length = byteLength size width) :
    ∃ out',
      putTsl width size out entry = .ok out' ∧
        out'.length = byteLength size width ∧
          ∀ bit, out'.lowBit bit = (out.lowBit bit || tslSets width entry bit) := by
  obtain ⟨idx, value⟩ := entry
  lift idx to Nat using inside.1
  lift value to Nat using fits.1
  have valueFits : value < 2 ^ width := by
    have bound := fits.2
    push_cast at bound
    exact_mod_cast bound
  have idxInside : idx < size := Int.ofNat_lt.mp inside.2
  by_cases isZero : value = 0
  · subst isZero
    exact ⟨out, by simp [putTsl], hasLength, by simp [tslSets]⟩
  · have room := entry_inside idxInside width
    have widthPositive : 0 < width := by rcases isWidth with rfl | rfl | rfl | rfl <;> decide
    have inBuffer : idx * width / 8 < out.length := by
      rw [hasLength, byteLength_eq small]
      omega
    have position : toDouble ((idx : Int) * width) = (idx * width : Nat) := by
      rw [← Nat.cast_mul, toDouble_natCast (by omega)]
    refine ⟨out.orAt (idx * width / 8 : Nat) (value <<< (idx * width % 8)), ?_, ?_, ?_⟩
    · have notOutside : ¬ ((size : Int) ≤ idx) := by omega
      have notTooLarge : ¬ ((value : Int) < 0 ∨ 2 ^ width - 1 < (value : Int)) := by
        have bound : (value : Int) < 2 ^ width := by exact_mod_cast valueFits
        omega
      have valueNonzero : ¬ ((value : Int) = 0) := by omega
      simp only [putTsl, valueNonzero, if_false, notOutside, notTooLarge, position,
        Int.toNat_natCast, lowBits_three, shiftRight_three (show idx * width < 2 ^ 31 by omega)]
    · simpa using hasLength
    · intro bit
      rw [Buffer.lowBit_orAt out inBuffer, tsl_mask_testBit isWidth valueFits]
      rfl

/-- The bits of a packed Token Status List are those of its statuses. -/
theorem packTsl_lowBit (isWidth : IsTslWidth width) (small : size * width ≤ 2 ^ 31)
    (fits : Fits width size values.tslEntries) :
    ∃ bytes,
      packTsl values width size = .ok bytes ∧
        bytes.length = byteLength size width ∧
          ∀ bit,
            bytes.lowBit bit =
              (assigned values.tslEntries (bit / width)).testBit (bit % width) := by
  have sizeSafe : size ≤ maxSafeInteger := by
    have positive : 1 ≤ width := by rcases isWidth with rfl | rfl | rfl | rfl <;> decide
    have bound : size * 1 ≤ size * width := Nat.mul_le_mul_left size positive
    simp only [maxSafeInteger]
    omega
  obtain ⟨bytes, packed, hasLength, bits⟩ :=
    foldlM_put (putTsl width size) Buffer.lowBit (tslSets width)
      (fun entry isEntry out hasLength =>
        putTsl_sets isWidth small (fits entry isEntry).1 (fits entry isEntry).2 out hasLength)
      (Buffer.length_alloc (byteLength size width))
  refine ⟨bytes, ?_, hasLength, ?_⟩
  · simpa [packTsl, checkBits_natCast isWidth,
      checkIndex_natCast sizeSafe, bind, Except.bind] using packed
  · intro bit
    rw [bits, Buffer.lowBit_alloc, Bool.false_or,
      ← any_testBit_eq_assigned (tslEntries_consistent values)]
    rfl

/-- Reading an entry reads its bits. -/
theorem unpackTslValue_eq (isWidth : IsTslWidth width) (small : size * width ≤ 2 ^ 31)
    (hasLength : bytes.length = byteLength size width) (inside : index < size)
    (fits : status < 2 ^ width)
    (bits : ∀ bit < width, bytes.lowBit (index * width + bit) = status.testBit bit) :
    unpackTslValue bytes width index = .ok status := by
  have room := entry_inside inside width
  have positive : 0 < width := by rcases isWidth with rfl | rfl | rfl | rfl <;> decide
  have indexSafe : index ≤ maxSafeInteger := by
    have bound : index * 1 ≤ index * width := Nat.mul_le_mul_left index positive
    simp only [maxSafeInteger]
    omega
  have enough : ¬ (index * width + width > bytes.length * 8) := by
    rw [hasLength, byteLength_eq small]
    omega
  have enoughInt :
      ¬ (toDouble (((index * width : Nat) : Int) + width) >
          toDouble ((bytes.length * 8 : Nat) : Int)) := by
    rw [← Nat.cast_add, toDouble_natCast (by omega), toDouble_natCast]
    · omega
    · rw [hasLength, byteLength_eq small]
      omega
  have read :
      ((bytes.byteAt (index * width / 8 : Nat)) >>>
          (index * width % 8)) &&& (2 ^ width - 1) = status := by
    apply Nat.eq_of_testBit_eq
    intro bit
    rw [Nat.and_two_pow_sub_one_eq_mod, Nat.testBit_mod_two_pow, Nat.testBit_shiftRight]
    by_cases inEntry : bit < width
    · have sameByte : (index * width + bit) / 8 = index * width / 8 := by
        rcases isWidth with rfl | rfl | rfl | rfl <;> omega
      have sameBit : (index * width + bit) % 8 = index * width % 8 + bit := by
        rcases isWidth with rfl | rfl | rfl | rfl <;> omega
      rw [← bits bit inEntry, Buffer.lowBit, sameByte, sameBit,
        decide_eq_true inEntry, Bool.true_and]
    · have noBit : status.testBit bit = false :=
        Nat.testBit_lt_two_pow
          (lt_of_lt_of_le fits (Nat.pow_le_pow_right (by decide) (Nat.le_of_not_lt inEntry)))
      simp [inEntry, noBit]
  simp only [unpackTslValue, checkBits_natCast isWidth, checkIndex_natCast indexSafe, bind,
    Except.bind, toDouble_natCast (show index * width ≤ 2 ^ 53 by omega), enoughInt, if_false,
    shiftRight_three (show index * width < 2 ^ 31 by omega), lowBits_three, read]
  rfl

/-- A Token Status List of at most `2^31` bits keeps its entries. -/
theorem tslKeeps (isWidth : IsTslWidth width) (small : size * width ≤ 2 ^ 31) :
    TslKeeps width size := by
  apply Keeps.of_reads
  intro values fits
  obtain ⟨bytes, packed, hasLength, bits⟩ := packTsl_lowBit isWidth small fits
  refine ⟨bytes, packed, ?_⟩
  intro index inside
  apply unpackTslValue_eq isWidth small hasLength inside (assigned_lt fits index)
  intro bit inEntry
  have positive : 0 < width := by omega
  have sameIndex : (index * width + bit) / width = index := by
    rw [Nat.mul_comm, Nat.mul_add_div positive, Nat.div_eq_of_lt inEntry, Nat.add_zero]
  have sameBit : (index * width + bit) % width = bit := by
    rw [Nat.mul_comm, Nat.mul_add_mod, Nat.mod_eq_of_lt inEntry]
  rw [bits, sameIndex, sameBit]

/-! ## Bitstring Status List -/

/-- The widths an entry may have. -/
def IsStatusSize (width : Nat) : Prop := 1 ≤ width ∧ width ≤ 8

theorem statusWidth_natCast (isSize : IsStatusSize width) :
    statusWidth (some (width : Argument)) = some width := by
  have accepted : ¬ ((width : Int) < 1 ∨ (width : Int) > 8) := by
    have := isSize.1
    have := isSize.2
    omega
  simp only [statusWidth, Option.getD_some, accepted, if_false, Int.toNat_natCast]

/-- The bits an entry sets, from the high end. -/
def bitstringSets (width : Nat) (entry : Int × Int) (bit : Nat) : Bool :=
  decide (entry.1 = (bit / width : Nat)) && entry.2.toNat.testBit (width - 1 - bit % width)

/-- `0x80 >> shift` is the one bit `7 - shift`. -/
theorem highMask_testBit :
    ∀ shift < 8, ∀ target < 8, (128 >>> shift).testBit target = decide (target = 7 - shift) := by
  decide

/-- One turn of the loop sets the one bit it names. -/
theorem putBit_sets (width idx b value : Nat) (small : idx * width + b < 2 ^ 31)
    (inside : (idx * width + b) / 8 < out.length) :
    (putBit width idx value out b).length = out.length ∧
      ∀ bit,
        (putBit width idx value out b).highBit bit =
          (out.highBit bit ||
            (decide (bit = idx * width + b) && value.testBit (width - 1 - b))) := by
  have position :
      toDouble (toDouble ((idx * width : Nat) : Int) + b) = (idx * width + b : Nat) := by
    rw [toDouble_natCast (by omega), ← Nat.cast_add, toDouble_natCast (by omega)]
  have isSet : (value >>> (width - 1 - b)) &&& 1 ≠ 0 ↔ value.testBit (width - 1 - b) = true := by
    simp [Nat.testBit, Nat.and_comm]
  unfold putBit
  simp only [isSet, position, shiftRight_three small, lowBits_three]
  cases value.testBit (width - 1 - b) with
  | false => simp
  | true =>
    simp only [if_true, Buffer.length_orAt, true_and, Bool.and_true]
    intro bit
    rw [Buffer.highBit_orAt out inside]
    congr 1
    rw [highMask_testBit _ (Nat.mod_lt _ (by decide)) _ (by omega),
      ← Bool.decide_and, decide_eq_decide]
    omega

/-- The loop over an entry's bits, up to some turn. -/
theorem putBits_sets (width idx turns value : Nat) (small : idx * width + turns ≤ 2 ^ 31)
    (inside : ∀ b < turns, (idx * width + b) / 8 < out.length) :
    ((List.range turns).foldl (putBit width idx value) out).length =
        out.length ∧
      ∀ bit,
        ((List.range turns).foldl (putBit width idx value) out).highBit
            bit =
          (out.highBit bit ||
            (List.range turns).any fun b =>
              decide (bit = idx * width + b) && value.testBit (width - 1 - b)) := by
  induction turns with
  | zero => simp
  | succ turns ih =>
    obtain ⟨sameLength, earlierBits⟩ := ih (by omega) (fun b before => inside b (by omega))
    obtain ⟨lastLength, lastBits⟩ :=
      putBit_sets width idx turns value (by omega) (sameLength ▸ inside turns (by omega))
    simp only [range_succ, foldl_append, any_append]
    refine ⟨?_, ?_⟩
    · simpa using lastLength.trans sameLength
    · intro bit
      simp only [foldl_cons, foldl_nil, any_cons, any_nil, Bool.or_false]
      rw [lastBits, earlierBits, Bool.or_assoc]

/-- The bits the loop names are the entry's. -/
theorem any_bit_eq_sets (positive : 0 < width) (idx value bit : Nat) :
    ((List.range width).any fun b =>
        decide (bit = idx * width + b) && value.testBit (width - 1 - b)) =
      bitstringSets width (idx, value) bit := by
  rw [Bool.eq_iff_iff]
  simp only [any_eq_true, mem_range, Bool.and_eq_true,
    decide_eq_true_eq, bitstringSets, Int.toNat_natCast, Int.ofNat_inj]
  constructor
  · rintro ⟨b, inEntry, rfl, isSet⟩
    have sameIndex : (idx * width + b) / width = idx := by
      rw [Nat.mul_comm, Nat.mul_add_div positive, Nat.div_eq_of_lt inEntry, Nat.add_zero]
    have sameBit : (idx * width + b) % width = b := by
      rw [Nat.mul_comm, Nat.mul_add_mod, Nat.mod_eq_of_lt inEntry]
    rw [sameIndex, sameBit]
    exact ⟨rfl, isSet⟩
  · rintro ⟨rfl, isSet⟩
    exact ⟨bit % width, Nat.mod_lt _ positive, (Nat.div_add_mod' bit width).symm, isSet⟩

/-- One `put` sets the bits of its entry and no other. -/
theorem putBitstring_sets (isSize : IsStatusSize width) (small : size * width ≤ 2 ^ 31)
    (inside : 0 ≤ entry.1 ∧ entry.1 < size) (fits : 0 ≤ entry.2 ∧ entry.2 < 2 ^ width)
    (out : Buffer) (hasLength : out.length = byteLength size width) :
    ∃ out',
      putBitstring width size out entry = .ok out' ∧
        out'.length = byteLength size width ∧
          ∀ bit, out'.highBit bit = (out.highBit bit || bitstringSets width entry bit) := by
  obtain ⟨idx, value⟩ := entry
  lift idx to Nat using inside.1
  lift value to Nat using fits.1
  have idxInside : idx < size := Int.ofNat_lt.mp inside.2
  by_cases isZero : value = 0
  · subst isZero
    exact ⟨out, by simp [putBitstring], hasLength,
      by simp [bitstringSets]⟩
  · have room := entry_inside idxInside width
    have positive : 0 < width := isSize.1
    have idxSafe : isSafeInteger (idx : Int) = true := by
      have bound : idx * 1 ≤ idx * width := Nat.mul_le_mul_left idx positive
      apply isSafeInteger_natCast
      simp only [maxSafeInteger]
      omega
    have inBuffer : ∀ b < width, (idx * width + b) / 8 < out.length := by
      intro b inEntry
      rw [hasLength, byteLength_eq small]
      omega
    obtain ⟨sameLength, bits⟩ := putBits_sets width idx width value (by omega) inBuffer
    refine ⟨_, ?_, sameLength.trans hasLength, ?_⟩
    · have accepted :
          ¬ (isSafeInteger (idx : Int) = false ∨ (idx : Int) < 0 ∨ (size : Int) ≤ idx) := by
        rintro (notSafe | negative | outside)
        · rw [idxSafe] at notSafe
          cases notSafe
        · omega
        · omega
      have notTooLarge : ¬ ((value : Int) < 0 ∨ 2 ^ width - 1 < (value : Int)) := by
        have bound := fits.2
        simp only at bound
        omega
      have valueNonzero : ¬ ((value : Int) = 0) := by omega
      simp only [putBitstring, valueNonzero, if_false, accepted, notTooLarge, Int.toNat_natCast]
    · intro bit
      rw [bits, any_bit_eq_sets positive]

/-- The bits of a packed Bitstring Status List are those of its statuses. -/
theorem packBitstring_highBit (isSize : IsStatusSize width) (enough : bitstringMinEntries ≤ size)
    (small : size * width ≤ 2 ^ 31) (fits : Fits width size values.bitstringEntries) :
    ∃ bytes,
      packBitstring values size (some width) = .ok bytes ∧
        bytes.length = byteLength size width ∧
          ∀ bit,
            bytes.highBit bit =
              (assigned values.bitstringEntries (bit / width)).testBit
                (width - 1 - bit % width) := by
  have sizeSafe : size ≤ maxSafeInteger := by
    have bound : size * 1 ≤ size * width := Nat.mul_le_mul_left size isSize.1
    simp only [maxSafeInteger]
    omega
  obtain ⟨bytes, packed, hasLength, bits⟩ :=
    foldlM_put (putBitstring width size) Buffer.highBit
      (bitstringSets width)
      (fun entry isEntry out hasLength =>
        putBitstring_sets isSize small (fits entry isEntry).1 (fits entry isEntry).2 out hasLength)
      (Buffer.length_alloc (byteLength size width))
  refine ⟨bytes, ?_, hasLength, ?_⟩
  · have notTooShort : ¬ (size < bitstringMinEntries) := by omega
    simpa [packBitstring, statusWidth_natCast isSize,
      checkIndex_natCast sizeSafe, bind, Except.bind, notTooShort]
      using packed
  · intro bit
    rw [bits, Buffer.highBit_alloc, Bool.false_or,
      ← any_testBit_eq_assigned (bitstringEntries_consistent values)]
    rfl

/-- The bit `takeBit` finds at a position. -/
def bitAt (bytes : Buffer) (position : Int) : Bool :=
  (bytes.byteAt (shiftRight position 3)).testBit (7 - lowBits position 3)

/-- Taking bits high end first builds the number they are the digits of. -/
theorem takeBits_testBit (bytes : Buffer) (start turns bit : Nat) :
    ((List.range turns).foldl (takeBit bytes start) 0).testBit bit =
      (decide (bit < turns) && bitAt bytes (toDouble (start + (turns - 1 - bit : Nat)))) := by
  induction turns generalizing bit with
  | zero => simp
  | succ turns ih =>
    rw [range_succ, foldl_append, foldl_cons, foldl_nil, takeBit,
      Nat.testBit_or, Nat.testBit_shiftLeft, ih, Nat.and_one_is_mod]
    cases bit with
    | zero => simp [bitAt, Nat.testBit]
    | succ bit =>
      have noBit (value : Nat) :
          (value % 2).testBit (bit + 1) = false :=
        Nat.testBit_lt_two_pow
          (lt_of_lt_of_le (Nat.mod_lt _ (by decide))
            (Nat.pow_le_pow_right (n := 2) (by decide) (show 1 ≤ bit + 1 by omega)))
      have samePosition : turns - (bit + 1) = turns - 1 - bit := by omega
      simp [noBit, samePosition]

/-- Below `2^31` it is the bit there. -/
theorem bitAt_eq_highBit {position : Nat} (small : position < 2 ^ 31) (bytes : Buffer) :
    bitAt bytes (toDouble (position : Int)) = bytes.highBit position := by
  rw [toDouble_natCast (by omega), bitAt, shiftRight_three small, lowBits_three, Buffer.highBit]

/-- At `2^31` there is none to find. -/
theorem bitAt_two_pow (bytes : Buffer) : bitAt bytes (toDouble ((2 ^ 31 : Nat) : Int)) = false := by
  have negative : shiftRight ((2 ^ 31 : Nat) : Int) 3 < 0 := by
    have wraps : toInt32 ((2 ^ 31 : Nat) : Int) < 0 := toInt32_negative (by omega) (by omega)
    simp only [shiftRight]
    omega
  rw [toDouble_natCast (by omega), bitAt, Buffer.byteAt_negative bytes negative, Nat.zero_testBit]

/-- Reading an entry reads its bits. -/
theorem bitstringValue_eq (isSize : IsStatusSize width) (small : size * width ≤ 2 ^ 31)
    (hasLength : bytes.length = byteLength size width) (inside : index < size)
    (fits : status < 2 ^ width)
    (bits : ∀ bit < width, bytes.highBit (index * width + bit) = status.testBit (width - 1 - bit)) :
    bitstringValue bytes index (some width) = .ok status := by
  have room := entry_inside inside width
  have indexSafe : index ≤ maxSafeInteger := by
    have bound : index * 1 ≤ index * width := Nat.mul_le_mul_left index isSize.1
    simp only [maxSafeInteger]
    omega
  have enough :
      ¬ (toDouble (((index * width : Nat) : Int) + width) >
          toDouble ((bytes.length * 8 : Nat) : Int)) := by
    rw [hasLength, byteLength_eq small, ← Nat.cast_add,
      toDouble_natCast (by omega), toDouble_natCast (by omega)]
    omega
  have read : (List.range width).foldl (takeBit bytes (index * width : Nat)) 0 = status := by
    apply Nat.eq_of_testBit_eq
    intro bit
    rw [takeBits_testBit]
    by_cases inEntry : bit < width
    · rw [← Nat.cast_add, bitAt_eq_highBit (by omega), bits _ (by omega),
        decide_eq_true inEntry, Bool.true_and]
      congr 1
      omega
    · have noBit : status.testBit bit = false :=
        Nat.testBit_lt_two_pow
          (lt_of_lt_of_le fits (Nat.pow_le_pow_right (by decide) (Nat.le_of_not_lt inEntry)))
      simp [inEntry, noBit]
  simp only [bitstringValue, checkIndex_natCast indexSafe, statusWidth_natCast isSize, bind,
    Except.bind, toDouble_natCast (show index * width ≤ 2 ^ 53 by omega), enough, if_false, read]
  rfl

/-- A Bitstring Status List of at most `2^31` bits keeps its entries. -/
theorem bitstringKeeps (isSize : IsStatusSize width) (enough : bitstringMinEntries ≤ size)
    (small : size * width ≤ 2 ^ 31) :
    BitstringKeeps width size := by
  apply Keeps.of_reads
  intro values fits
  obtain ⟨bytes, packed, hasLength, bits⟩ := packBitstring_highBit isSize enough small fits
  refine ⟨bytes, packed, ?_⟩
  intro index inside
  apply bitstringValue_eq isSize small hasLength inside (assigned_lt fits index)
  intro bit inEntry
  have positive : 0 < width := by omega
  have sameIndex : (index * width + bit) / width = index := by
    rw [Nat.mul_comm, Nat.mul_add_div positive, Nat.div_eq_of_lt inEntry, Nat.add_zero]
  have sameBit : (index * width + bit) % width = bit := by
    rw [Nat.mul_comm, Nat.mul_add_mod, Nat.mod_eq_of_lt inEntry]
  rw [bits, sameIndex, sameBit]

/-! ## Beyond `2^31` bits -/

/-- The entry that holds bit `2^31` never reads back all ones. -/
theorem bitstringValue_loses (isSize : IsStatusSize width) (bytes : Buffer) :
    bitstringValue bytes (2 ^ 31 / width : Nat) (some width) ≠ .ok (2 ^ width - 1) := by
  have positive : 0 < width := isSize.1
  have bound : 2 ^ 31 / width ≤ 2 ^ 31 := Nat.div_le_self _ _
  have digits : 2 ^ 31 / width * width + 2 ^ 31 % width = 2 ^ 31 := Nat.div_add_mod' _ _
  have inEntry : 2 ^ 31 % width < width := Nat.mod_lt _ positive
  have indexSafe : 2 ^ 31 / width ≤ maxSafeInteger := by
    simp only [maxSafeInteger]
    omega
  intro readAll
  simp only [bitstringValue, checkIndex_natCast indexSafe, statusWidth_natCast isSize, bind,
    Except.bind, toDouble_natCast (show 2 ^ 31 / width * width ≤ 2 ^ 53 by omega)]
    at readAll
  split at readAll
  · cases readAll
  · simp only [pure, Except.pure, Except.ok.injEq] at readAll
    have lost := takeBits_testBit bytes (2 ^ 31 / width * width) width (width - 1 - 2 ^ 31 % width)
    have position :
        2 ^ 31 / width * width + (width - 1 - (width - 1 - 2 ^ 31 % width)) = 2 ^ 31 := by
      omega
    rw [readAll, ← Nat.cast_add, position, bitAt_two_pow, Bool.and_false,
      Nat.testBit_two_pow_sub_one] at lost
    simp only [decide_eq_false_iff_not] at lost
    omega

/-- A Bitstring Status List of more than `2^31` bits loses an entry. -/
theorem bitstring_not_keeps (width size : Nat) (isSize : IsStatusSize width)
    (large : 2 ^ 31 < size * width) :
    ¬ BitstringKeeps width size := by
  intro keeps
  have inside : 2 ^ 31 / width < size := by
    rw [Nat.div_lt_iff_lt_mul isSize.1]
    exact large
  let values : Values :=
    .map ⟨[((2 ^ 31 / width : Nat), ((2 ^ width - 1 : Nat) : Int))],
      by simp⟩
  have fits : Fits width size values.bitstringEntries := by
    intro entry isEntry
    have isOnly : entry = (((2 ^ 31 / width : Nat) : Int), ((2 ^ width - 1 : Nat) : Int)) := by
      simpa [values, Values.bitstringEntries] using isEntry
    subst isOnly
    refine ⟨⟨Int.natCast_nonneg _, Int.ofNat_lt.mpr inside⟩, Int.natCast_nonneg _, ?_⟩
    have below : 2 ^ width - 1 < 2 ^ width := Nat.sub_lt (Nat.two_pow_pos width) Nat.one_pos
    simpa only [Nat.cast_pow, Nat.cast_ofNat] using Int.ofNat_lt.mpr below
  obtain ⟨bytes, _, reads⟩ := keeps.reads values fits
  have readAll := reads _ inside
  have assignedAll : assigned values.bitstringEntries (2 ^ 31 / width) = 2 ^ width - 1 := by
    simp only [assigned, values, Values.bitstringEntries, lookup_cons, beq_self_eq_true,
      Option.getD_some, Int.toNat_natCast]
  rw [assignedAll] at readAll
  exact bitstringValue_loses isSize bytes readAll

/--
A Token Status List below `2^31` bits keeps its entries.  A Bitstring Status
List keeps them if and only if it has at most `2^31` bits.
-/
theorem statusLists_keep_iff (width size : Nat) :
    (IsTslWidth width → size * width < 2 ^ 31 → TslKeeps width size) ∧
    (IsStatusSize width →
      bitstringMinEntries ≤ size →
      (BitstringKeeps width size ↔ size * width ≤ 2 ^ 31)) := by
  constructor
  · intro isWidth small
    exact tslKeeps isWidth (Nat.le_of_lt small)
  · intro isSize enough
    constructor
    · intro keeps
      by_contra large
      exact bitstring_not_keeps width size isSize (Nat.lt_of_not_le large) keeps
    · exact bitstringKeeps isSize enough

/-- Lists of the usual size keep their entries, also across byte boundaries. -/
theorem usual_statusLists_keep : TslKeeps 2 1000000 ∧ BitstringKeeps 3 131072 :=
  ⟨(statusLists_keep_iff 2 1000000).1 (by simp [IsTslWidth]) (by decide),
    ((statusLists_keep_iff 3 131072).2 (by simp [IsStatusSize])
      (by simp [bitstringMinEntries])).mpr (by decide)⟩

/-- One byte an entry, and one entry too many. -/
theorem bitstring_not_always_keeps :
    ¬ ∀ width size,
        IsStatusSize width →
        bitstringMinEntries ≤ size →
        BitstringKeeps width size := by
  intro alwaysKeeps
  exact bitstring_not_keeps 8 (2 ^ 28 + 1)
    (by simp [IsStatusSize]) (by decide)
    (alwaysKeeps 8 (2 ^ 28 + 1) (by simp [IsStatusSize]) (by simp [bitstringMinEntries]))

end IyaSts.VcStatusCodec
