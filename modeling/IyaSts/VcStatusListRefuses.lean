import IyaSts.Binary64Arithmetic
import IyaSts.VcStatusListKeeps

namespace IyaSts.VcStatusCodec

open Binary64 JsNumber

/-!
# What the two packers refuse

The packers are handed a `Map` of any numbers.  They refuse an entry before they write
it, so a list is packed exactly where no entry is refused, and then it has the bits of
every entry that lies below `2^31`.
-/

open List

/-! ## The packers on a `Map` -/

/-- A `Map<number, number>`: its keys are distinct, and zero has no sign. -/
structure StatusMap where
  entries : List (Number × Number)
  distinct : (entries.map Prod.fst).Nodup
  unsigned : ∀ entry ∈ entries, entry.1 ≠ .finite true 0

/-- Why an entry is refused, or the call. -/
inductive Refusal where
  | index (idx : Number) (count : Nat)
  | status (value : Number) (width : Nat)
  | call (message : String)
  deriving DecidableEq

/-- The integer from zero on that a number is. -/
def natOf : Number → Option Nat
  | .finite negative magnitude =>
    if magnitude = ⌊magnitude⌋₊ ∧ (negative = true → magnitude = 0) then
      some ⌊magnitude⌋₊
    else
      none
  | _ => none

/-- `!value`. -/
def isFalsy : Number → Bool
  | .nan => true
  | .infinite _ => false
  | .finite _ magnitude => decide (magnitude = 0)

/-- `idx >= count`. -/
def atLeast (idx : Number) (count : Nat) : Bool := !idx.isNaN && !idx.less (.ofInt count)

/-- The integer that the bitwise operators read of a number. -/
def truncate : Number → Int
  | .finite negative magnitude => if negative then -(⌊magnitude⌋₊ : Int) else ⌊magnitude⌋₊
  | _ => 0

/-- `!Number.isInteger(value) || value < 0 || value > max`, or the status. -/
def statusOf (width : Nat) (value : Number) : Except Refusal Nat :=
  match natOf value with
  | some status =>
    if 2 ^ width - 1 < status then
      .error (.status value width)
    else
      .ok status
  | none => .error (.status value width)

/-- `put` of `packTsl`. -/
def putTslNumber (width count : Nat) (out : Buffer)
    (entry : Number × Number) : Except Refusal Buffer :=
  let (idx, value) := entry
  if isFalsy value then
    .ok out
  else if atLeast idx count then
    .error (.index idx count)
  else do
    let status ← statusOf width value
    let bit := truncate (idx.mul (.ofInt width))
    .ok (out.orAt (shiftRight bit 3) (status <<< lowBits bit 3))

/-- `put` of `packBitstring`. -/
def putBitstringNumber (width count : Nat) (out : Buffer)
    (entry : Number × Number) : Except Refusal Buffer :=
  let (idx, value) := entry
  if isFalsy value then
    .ok out
  else
    match natOf idx with
    | some index =>
      if isSafeInteger index = false ∨ count ≤ index then
        .error (.index idx count)
      else do
        let status ← statusOf width value
        .ok ((List.range width).foldl (putBit width index status) out)
    | none => .error (.index idx count)

/-- `packTsl` of a `Map`. -/
def packTslMap (values : StatusMap)
    (bits size : Argument) : Except Refusal Buffer := do
  let width ← (checkBits bits).mapError .call
  let count ← (checkIndex size).mapError .call
  values.entries.foldlM (putTslNumber width count)
    (Buffer.alloc (byteLength count width))

/-- `packBitstring` of a `Map`. -/
def packBitstringMap (values : StatusMap) (size : Argument)
    (statusSize : Option Argument) : Except Refusal Buffer := do
  match statusWidth statusSize with
  | none => throw (.call "statusSize is an integer from 1 to 8 here.")
  | some width =>
    let count ← (checkIndex size).mapError .call
    if count < bitstringMinEntries then
      throw
        (.call
          s!"a Bitstring Status List has at least {bitstringMinEntries} entries (section 3.2).")
    else
      values.entries.foldlM (putBitstringNumber width count) (Buffer.alloc (byteLength count width))

/-! ## What is claimed -/

/-- An entry that a list of a size and a width has no place for. -/
def IsWrong (width count : Nat) (entry : Number × Number) : Prop :=
  (∀ negative, entry.2 ≠ .finite negative 0) ∧
    ((∀ index, natOf entry.1 = some index → count ≤ index) ∨
      ∀ status, natOf entry.2 = some status → 2 ^ width - 1 < status)

/-- The status of an index, zero where it has none. -/
def statusAt (entries : List (Number × Number)) (index : Nat) : Nat :=
  ((entries.find? fun entry => natOf entry.1 == some index).bind fun entry => natOf entry.2).getD 0

/-- A packer throws at a wrong entry only, and loses and moves no other. -/
structure PackLaw (entries : List (Number × Number)) (width count : Nat)
    (bitOf : Buffer → Nat → Nat → Bool)
    (packed : Except Refusal Buffer) : Prop where
  throws : (∃ refusal, packed = .error refusal) ↔ ∃ entry ∈ entries, IsWrong width count entry
  places :
    ∀ bytes, packed = .ok bytes →
      ∀ index < count, ∀ b < width, bitOf bytes index b = (statusAt entries index).testBit b

/-- A bit of a token, which starts at the low end. -/
def tslBitOf (width : Nat) (bytes : Buffer) (index b : Nat) : Bool :=
  bytes.lowBit (index * width + b)

/-- A bit of an entry, which starts at the high end. -/
def bitstringBitOf (width : Nat) (bytes : Buffer) (index b : Nat) : Bool :=
  bytes.highBit (index * width + (width - 1 - b))

/-- An entry that `packTsl` refuses. -/
def tslRefuses (width count : Nat) (entry : Number × Number) : Prop :=
  isFalsy entry.2 = false ∧
    (atLeast entry.1 count = true ∨ ∀ status, natOf entry.2 = some status → 2 ^ width - 1 < status)

/-- An entry that `packBitstring` refuses. -/
def bitstringRefuses (width count : Nat) (entry : Number × Number) : Prop :=
  isFalsy entry.2 = false ∧
    ((∀ index, natOf entry.1 = some index → count ≤ index) ∨
      ∀ status, natOf entry.2 = some status → 2 ^ width - 1 < status)

/-- An entry with a place that the bitwise operators find. -/
def TslFine (width count : Nat) (entry : Number × Number) : Prop :=
  ∃ index status,
    natOf entry.1 = some index ∧ index < count ∧
      natOf entry.2 = some status ∧ status < 2 ^ width ∧ index * width < 2 ^ 31

/-- An entry whose every bit has a place that the bitwise operators find. -/
def BitstringFine (width count : Nat) (entry : Number × Number) : Prop :=
  ∃ index status,
    natOf entry.1 = some index ∧ index < count ∧
      natOf entry.2 = some status ∧ status < 2 ^ width ∧
        ∀ b < width, status.testBit (width - 1 - b) = true → index * width + b < 2 ^ 31

/-- Some entry is refused, or every one that is not zero is fine. -/
def MapFine (refuses fine : Number × Number → Prop) (entries : List (Number × Number)) : Prop :=
  (∃ entry ∈ entries, refuses entry) ∨
    ∀ entry ∈ entries, (∀ negative, entry.2 ≠ .finite negative 0) → fine entry

/-! ## Numbers that are integers -/

theorem eq_of_natOf {number : Number} {value : Nat} (isNat : natOf number = some value) :
    number = .finite false value ∨ (value = 0 ∧ number = .finite true 0) := by
  cases number with
  | nan => cases isNat
  | infinite negative => cases isNat
  | finite negative magnitude =>
    rw [natOf, Option.ite_none_right_eq_some] at isNat
    obtain ⟨⟨isWhole, isPlain⟩, isFloor⟩ := isNat
    cases isFloor
    cases negative with
    | false => exact .inl (congrArg _ isWhole)
    | true =>
      have isZero := isPlain rfl
      subst isZero
      exact .inr ⟨Nat.floor_zero, rfl⟩

theorem natOf_natCast (value : Nat) : natOf (.finite false value) = some value := by simp [natOf]

/-- An index below the size is not refused for it. -/
theorem atLeast_natOf {idx : Number} {index count : Nat} (isIndex : natOf idx = some index)
    (inside : index < count) :
    atLeast idx count = false := by
  have isLess : idx.less (.ofInt count) = true := by
    rw [Number.less_iff]
    rcases eq_of_natOf isIndex with rfl | ⟨rfl, rfl⟩
    · refine ⟨rfl, rfl, ?_⟩
      rw [← Number.ofInt_natCast, Number.place_natCast, Number.place_natCast]
      exact_mod_cast inside
    · refine ⟨rfl, rfl, ?_⟩
      rw [Number.place_natCast, Number.place, Number.exactly, if_pos rfl]
      have positive : -((0 : ℚ≥0) : ℚ) < (count : ℚ) := by
        push_cast
        simpa using inside
      exact_mod_cast positive
  rw [atLeast, isLess, Bool.not_true, Bool.and_false]

variable {value : Number} {status bit : Nat}

theorem isFalsy_of_natOf (isStatus : natOf value = some status)
    (notZero : ∀ negative, value ≠ .finite negative 0) :
    isFalsy value = false := by
  rcases eq_of_natOf isStatus with rfl | ⟨-, rfl⟩
  · refine decide_eq_false fun isZero => notZero false ?_
    rw [isZero]
  · exact absurd rfl (notZero true)

theorem isFalsy_zero (negative : Bool) : isFalsy (.finite negative 0) = true := by simp [isFalsy]

theorem ne_zero_of_not_falsy (notFalsy : isFalsy value = false) (negative : Bool) :
    value ≠ .finite negative 0 := by
  rintro rfl
  rw [isFalsy_zero] at notFalsy
  cases notFalsy

/-! ## The entries of a map -/

section Entries

variable {entries : List (Number × Number)} {width count : Nat}

variable (values : StatusMap)

/-- A map has one entry for an index. -/
theorem eq_of_sameIndex {entry entry' : Number × Number} (isEntry : entry ∈ values.entries)
    (isEntry' : entry' ∈ values.entries) {index : Nat} (isIndex : natOf entry.1 = some index)
    (isIndex' : natOf entry'.1 = some index) :
    entry = entry' := by
  have sameKey : entry.1 = entry'.1 := by
    rcases eq_of_natOf isIndex with isPlain | ⟨-, isNegative⟩
    · rcases eq_of_natOf isIndex' with isPlain' | ⟨-, isNegative'⟩
      · rw [isPlain, isPlain']
      · exact absurd isNegative' (values.unsigned entry' isEntry')
    · exact absurd isNegative (values.unsigned entry isEntry)
  exact inj_on_of_nodup_map values.distinct isEntry isEntry' sameKey

/-- The bits that an entry is to set. -/
def setsOf (entry : Number × Number) (index b : Nat) : Bool :=
  natOf entry.1 == some index && ((natOf entry.2).getD 0).testBit b

/-- What the entries set is the status of each index. -/
theorem any_setsOf (index b : Nat) :
    (values.entries.any fun entry => setsOf entry index b) =
    (statusAt values.entries index).testBit b := by
  unfold statusAt
  cases isFound : values.entries.find? fun entry => natOf entry.1 == some index with
  | none =>
    rw [List.find?_eq_none] at isFound
    simp only [Option.bind_none, Option.getD_none, Nat.zero_testBit, any_eq_false]
    intro entry isEntry
    simp [setsOf, isFound entry isEntry]
  | some found =>
    have isIndex : natOf found.1 = some index := by simpa using List.find?_some isFound
    have isMember := mem_of_find?_eq_some isFound
    rw [Option.bind_some, Bool.eq_iff_iff, any_eq_true]
    constructor
    · rintro ⟨entry, isEntry, sets⟩
      rw [setsOf, Bool.and_eq_true, beq_iff_eq] at sets
      cases eq_of_sameIndex values isEntry isMember sets.1 isIndex
      exact sets.2
    · intro isSet
      refine ⟨found, isMember, ?_⟩
      rw [setsOf, Bool.and_eq_true, beq_iff_eq]
      exact ⟨isIndex, isSet⟩

variable {entry : Number × Number}

/-- An entry that is neither zero nor wrong is an index and a status. -/
theorem natOf_of_not_wrong (notZero : ∀ negative, entry.2 ≠ .finite negative 0)
    (notWrong : ¬ IsWrong width count entry) :
    ∃ index status,
      natOf entry.1 = some index ∧ index < count ∧
        natOf entry.2 = some status ∧ status < 2 ^ width := by
  unfold IsWrong at notWrong
  push Not at notWrong
  obtain ⟨⟨index, isIndex, inside⟩, status, isStatus, fits⟩ := notWrong notZero
  have positive := Nat.two_pow_pos width
  exact ⟨index, status, isIndex, inside, isStatus, by omega⟩

theorem not_wrong_of_natOf {index status : Nat} (isIndex : natOf entry.1 = some index)
    (inside : index < count) (isStatus : natOf entry.2 = some status) (fits : status < 2 ^ width) :
    ¬ IsWrong width count entry := by
  rintro ⟨-, isOutside | isTooLarge⟩
  · exact absurd (isOutside index isIndex) (by omega)
  · exact absurd (isTooLarge status isStatus) (by omega)

end Entries

/-! ## Packers -/

/-- What makes a `put` one of a packer. -/
structure IsPacker (width count : Nat) (put : Buffer → Number × Number → Except Refusal Buffer)
    (write : Buffer → Number × Number → Buffer) (refuses fine : Number × Number → Prop)
    (bitOf : Buffer → Nat → Nat → Bool) : Prop where
  put_refuses : ∀ out entry, refuses entry → ∃ refusal, put out entry = .error refusal
  put_writes : ∀ out entry, ¬ refuses entry → put out entry = .ok (write out entry)
  wrong_of_refuses : ∀ entry, refuses entry → IsWrong width count entry
  length_write : ∀ out entry, (write out entry).length = out.length
  write_zero : ∀ out idx negative, write out (idx, .finite negative 0) = out
  write_fine :
    ∀ out entry, fine entry → entry.1 ≠ .finite true 0 →
      (∀ negative, entry.2 ≠ .finite negative 0) →
        out.length = byteLength count width →
          ∀ index, ∀ b < width,
            bitOf (write out entry) index b = (bitOf out index b || setsOf entry index b)
  fine_natOf :
    ∀ entry, fine entry →
      ∃ index status,
        natOf entry.1 = some index ∧ index < count ∧
          natOf entry.2 = some status ∧ status < 2 ^ width
  lost :
    ∀ entry, ¬ fine entry →
      (∀ negative, entry.2 ≠ .finite negative 0) →
        ¬ IsWrong width count entry →
          ∃ index < count, ∃ b < width,
            setsOf entry index b = true ∧
              ∀ out other, bitOf (write out other) index b = bitOf out index b
  empty : ∀ length index b, bitOf (Buffer.alloc length) index b = false

namespace IsPacker

variable {width count : Nat}
  {put : Buffer → Number × Number → Except Refusal Buffer}
  {write : Buffer → Number × Number → Buffer}
  {refuses fine : Number × Number → Prop}
  {bitOf : Buffer → Nat → Nat → Bool}

/-- A list is refused at its first entry that is. -/
theorem foldlM_refuses (packer : IsPacker width count put write refuses fine bitOf)
    {entries : List (Number × Number)} (isRefused : ∃ entry ∈ entries, refuses entry)
    (out : Buffer) :
    ∃ refusal, entries.foldlM put out = .error refusal := by
  induction entries generalizing out with
  | nil =>
    obtain ⟨_, isMember, -⟩ := isRefused
    cases isMember
  | cons first rest ih =>
    by_cases isFirst : refuses first
    · obtain ⟨refusal, isPut⟩ := packer.put_refuses out first isFirst
      exact ⟨refusal, by rw [foldlM_cons, isPut]; rfl⟩
    · obtain ⟨entry, isMember, isEntry⟩ := isRefused
      have isRest : entry ∈ rest := by
        rcases mem_cons.mp isMember with rfl | isRest
        · exact absurd isEntry isFirst
        · exact isRest
      rw [foldlM_cons, packer.put_writes out first isFirst]
      exact ih ⟨entry, isRest, isEntry⟩ (write out first)

theorem foldlM_writes (packer : IsPacker width count put write refuses fine bitOf)
    {entries : List (Number × Number)} (notRefused : ∀ entry ∈ entries, ¬ refuses entry)
    (out : Buffer) :
    entries.foldlM put out = .ok (entries.foldl write out) := by
  induction entries generalizing out with
  | nil => rfl
  | cons first rest ih =>
    rw [foldlM_cons, packer.put_writes out first (notRefused first mem_cons_self)]
    exact ih
      (fun entry isRest => notRefused entry (mem_cons_of_mem _ isRest)) _

variable {index b : Nat}

/-- A bit that no entry is written to stays as it is. -/
theorem foldl_lost {entries : List (Number × Number)}
    (never : ∀ out other, bitOf (write out other) index b = bitOf out index b) (out : Buffer) :
    bitOf (entries.foldl write out) index b = bitOf out index b := by
  induction entries generalizing out with
  | nil => rfl
  | cons first rest ih => rw [foldl_cons, ih, never]

/-- Fine entries set their bits. -/
theorem foldl_fine (packer : IsPacker width count put write refuses fine bitOf)
    {entries : List (Number × Number)} (unsigned : ∀ entry ∈ entries, entry.1 ≠ .finite true 0)
    (allFine : ∀ entry ∈ entries, (∀ negative, entry.2 ≠ .finite negative 0) → fine entry)
    {out : Buffer} (hasLength : out.length = byteLength count width) (inEntry : b < width) :
    bitOf (entries.foldl write out) index b =
      (bitOf out index b || entries.any fun entry => setsOf entry index b) := by
  induction entries generalizing out with
  | nil => simp
  | cons first rest ih =>
    have restFine :=
      @ih
        (fun entry isRest => unsigned entry (mem_cons_of_mem _ isRest))
        (fun entry isRest => allFine entry (mem_cons_of_mem _ isRest))
        (write out first) ((packer.length_write out first).trans hasLength)
    rw [foldl_cons, restFine, any_cons, ← Bool.or_assoc]
    congr 1
    by_cases isZero : ∃ negative, first.2 = .finite negative 0
    · obtain ⟨negative, isZero⟩ := isZero
      obtain ⟨idx, value⟩ := first
      subst isZero
      rw [packer.write_zero]
      have noBit : setsOf (idx, .finite negative 0) index b = false := by
        cases negative <;> simp [setsOf, natOf]
      rw [noBit, Bool.or_false]
    · push Not at isZero
      exact packer.write_fine out first (allFine first mem_cons_self isZero)
        (unsigned first mem_cons_self) isZero hasLength index b inEntry

/-- A packer keeps its law where an entry is refused, or all are fine. -/
theorem law_iff (packer : IsPacker width count put write refuses fine bitOf) (values : StatusMap) :
    PackLaw values.entries width count bitOf
        (values.entries.foldlM put (Buffer.alloc (byteLength count width))) ↔
      MapFine refuses fine values.entries := by
  by_cases isRefused : ∃ entry ∈ values.entries, refuses entry
  · refine iff_of_true ?_ (.inl isRefused)
    obtain ⟨refusal, isError⟩ :=
      packer.foldlM_refuses isRefused (Buffer.alloc (byteLength count width))
    obtain ⟨entry, isEntry, refused⟩ := isRefused
    refine ⟨iff_of_true ⟨refusal, isError⟩
      ⟨entry, isEntry, packer.wrong_of_refuses entry refused⟩, ?_⟩
    intro bytes isOk
    rw [isError] at isOk
    cases isOk
  · have isPacked :=
      packer.foldlM_writes
        (fun entry isEntry refused => isRefused ⟨entry, isEntry, refused⟩)
        (Buffer.alloc (byteLength count width))
    rw [isPacked]
    constructor
    · intro law
      right
      intro entry isEntry notZero
      by_contra notFine
      have notWrong : ¬ IsWrong width count entry := fun wrong => by
        obtain ⟨refusal, isError⟩ := law.throws.mpr ⟨entry, isEntry, wrong⟩
        cases isError
      obtain ⟨index, inside, b, inEntry, sets, never⟩ := packer.lost entry notFine notZero notWrong
      have isBit := law.places _ rfl index inside b inEntry
      rw [foldl_lost never, packer.empty, ← any_setsOf values] at isBit
      exact Bool.false_ne_true (isBit.trans (any_eq_true.mpr ⟨entry, isEntry, sets⟩))
    · rintro (refused | allFine)
      · exact absurd refused isRefused
      · constructor
        · refine iff_of_false (by rintro ⟨refusal, isError⟩; cases isError) ?_
          rintro ⟨entry, isEntry, wrong⟩
          obtain ⟨index, status, isIndex, inside, isStatus, fits⟩ :=
            packer.fine_natOf entry (allFine entry isEntry wrong.1)
          exact not_wrong_of_natOf isIndex inside isStatus fits wrong
        · intro bytes isBytes index inside b inEntry
          cases isBytes
          rw [packer.foldl_fine values.unsigned allFine (Buffer.length_alloc _) inEntry,
            packer.empty, Bool.false_or, any_setsOf]

end IsPacker

/-! ## Writes of 32 bits -/

variable (buffer : Buffer)

theorem byteAt_orAt_other {index : Int} {position : Nat} (isOther : index ≠ position) (mask : Nat) :
    (buffer.orAt index mask).byteAt position = buffer.byteAt position := by
  unfold Buffer.orAt
  split
  · rfl
  · rename_i notNegative
    have notPosition : index.toNat ≠ position := by omega
    simp [Buffer.byteAt, getD_eq_getElem?_getD, notPosition]

/-- The operators reach `2^28` bytes. -/
theorem shiftRight_three_lt (value : Int) : shiftRight value 3 < 2 ^ 28 := by
  have isSmall : toInt32 value < 2 ^ 31 := by
    have bound := Int.bmod_lt (x := value) (m := 2 ^ 32) (by decide)
    rw [toInt32]
    omega
  rw [shiftRight]
  omega

theorem lowBit_orAt_beyond (value : Int) (mask : Nat) (isBeyond : 2 ^ 31 ≤ bit) :
    (buffer.orAt (shiftRight value 3) mask).lowBit bit = buffer.lowBit bit := by
  have reached := shiftRight_three_lt value
  rw [Buffer.lowBit, byteAt_orAt_other _ (by omega)]
  rfl

theorem highBit_orAt_beyond (value : Int) (mask : Nat) (isBeyond : 2 ^ 31 ≤ bit) :
    (buffer.orAt (shiftRight value 3) mask).highBit bit = buffer.highBit bit := by
  have reached := shiftRight_three_lt value
  rw [Buffer.highBit, byteAt_orAt_other _ (by omega)]
  rfl

/-- A rounded length is as long as `2^52`, or exact. -/
theorem roundMagnitude_large {magnitude : Nat} (large : 2 ^ 53 < magnitude) :
    2 ^ 52 ≤ roundMagnitude magnitude := by
  have notZero : magnitude ≠ 0 := by omega
  have isLog : 2 ^ Nat.log 2 magnitude ≤ magnitude := Nat.pow_log_le_self 2 notZero
  have logLarge : 53 ≤ Nat.log 2 magnitude :=
    (Nat.le_log_iff_pow_le (by decide) notZero).mpr large.le
  have quotient : 2 ^ 52 ≤ magnitude / 2 ^ (Nat.log 2 magnitude - 52) := by
    rw [Nat.le_div_iff_mul_le (Nat.two_pow_pos _), ← pow_add]
    refine le_trans (le_of_eq ?_) isLog
    congr 1
    omega
  have enough (factor : Nat) (isLarge : 2 ^ 52 ≤ factor) :
      2 ^ 52 ≤ factor * 2 ^ (Nat.log 2 magnitude - 52) :=
    le_mul_of_le_of_one_le isLarge (Nat.two_pow_pos _)
  rw [roundMagnitude, if_neg (by omega)]
  simp only
  split
  · exact enough _ quotient
  · exact enough _ (quotient.trans (Nat.le_succ _))

/-- A list is long enough for what lies below `2^31`. -/
theorem inside_byteLength {count width bit : Nat} (inside : bit < count * width)
    (small : bit < 2 ^ 31) :
    bit / 8 < byteLength count width := by
  unfold byteLength
  rcases Nat.lt_or_ge (2 ^ 53) (count * width) with large | exact'
  · have rounded := roundMagnitude_large large
    have isSign : ((count * width : Nat) : Int).sign = 1 := Int.sign_eq_one_of_pos (by omega)
    rw [toDouble, isSign, one_mul, Int.natAbs_natCast]
    omega
  · rw [toDouble_natCast exact']
    omega

/-- The position of a token, as it is computed. -/
theorem truncate_mul {index width : Nat} (small : index * width < 2 ^ 31) :
    truncate ((Number.finite false index).mul (.ofInt width)) = (index * width : Nat) := by
  rw [← Number.ofInt_natCast, Number.mul_natCast (small.trans (by decide)),
    Number.ofInt_natCast, truncate, if_neg (by decide), Nat.floor_natCast]

theorem exists_testBit {status width : Nat} (notZero : status ≠ 0) (fits : status < 2 ^ width) :
    ∃ b < width, status.testBit b = true := by
  obtain ⟨b, isSet⟩ := Nat.exists_testBit_of_ne_zero notZero
  refine ⟨b, ?_, isSet⟩
  by_contra notInside
  rw [Nat.testBit_lt_two_pow
    (lt_of_lt_of_le fits (Nat.pow_le_pow_right (by decide) (Nat.le_of_not_lt notInside)))] at isSet
  cases isSet

/-- A status that is not the number zero is not zero. -/
theorem status_ne_zero (isStatus : natOf value = some status)
    (notZero : ∀ negative, value ≠ .finite negative 0) :
    status ≠ 0 := by
  rintro rfl
  rcases eq_of_natOf isStatus with isPlain | ⟨-, isNegative⟩
  · exact notZero false (by rw [isPlain, Nat.cast_zero])
  · exact notZero true isNegative

/-! ## Token Status List -/

/-- What an entry that is not refused writes. -/
def writeTsl (width : Nat) (out : Buffer) (entry : Number × Number) : Buffer :=
  if isFalsy entry.2 then
    out
  else
    let bit := truncate (entry.1.mul (.ofInt width))
    out.orAt (shiftRight bit 3) ((natOf entry.2).getD 0 <<< lowBits bit 3)

theorem tslPacker {width : Nat} (isWidth : IsTslWidth width) (count : Nat) :
    IsPacker width count (putTslNumber width count) (writeTsl width)
      (tslRefuses width count) (TslFine width count) (tslBitOf width) where
  put_refuses := by
    rintro out ⟨idx, value⟩ ⟨notFalsy, isOutside | isTooLarge⟩
    · refine ⟨.index idx count, ?_⟩
      simp only at notFalsy isOutside
      simp [putTslNumber, notFalsy, isOutside]
    · simp only at notFalsy isTooLarge
      by_cases isOutside : atLeast idx count = true
      · exact ⟨.index idx count, by simp [putTslNumber, notFalsy, isOutside]⟩
      · refine ⟨.status value width, ?_⟩
        cases isStatus : natOf value with
        | none => simp [putTslNumber, notFalsy, isOutside, statusOf, isStatus, bind, Except.bind]
        | some status =>
          simp [putTslNumber, notFalsy, isOutside, statusOf, isStatus, bind,
            Except.bind, isTooLarge status isStatus]
  put_writes := by
    rintro out ⟨idx, value⟩ notRefused
    cases falsy : isFalsy value with
    | true => simp [putTslNumber, writeTsl, falsy]
    | false =>
      simp only [tslRefuses, falsy, true_and, not_or, Bool.not_eq_true, not_forall] at notRefused
      obtain ⟨inside, status, isStatus, fits⟩ := notRefused
      simp [putTslNumber, writeTsl, falsy, inside, statusOf, isStatus, fits, bind, Except.bind]
  wrong_of_refuses := by
    rintro entry ⟨notFalsy, isOutside | isTooLarge⟩
    · refine ⟨ne_zero_of_not_falsy notFalsy, .inl fun index isIndex => ?_⟩
      by_contra inside
      rw [atLeast_natOf isIndex (Nat.lt_of_not_le inside)] at isOutside
      cases isOutside
    · exact ⟨ne_zero_of_not_falsy notFalsy, .inr isTooLarge⟩
  length_write := by
    intro out entry
    unfold writeTsl
    split
    · rfl
    · exact Buffer.length_orAt _ _ _
  write_zero := by
    intro out idx negative
    rw [writeTsl, if_pos (isFalsy_zero negative)]
  write_fine := by
    rintro out ⟨idx, value⟩
      ⟨position, status, isPosition, inside, isStatus, fits, small⟩ unsigned
      notZero hasLength index b inEntry
    rcases eq_of_natOf isPosition with isIdx | ⟨-, isNegative⟩
    · simp only at isIdx
      subst isIdx
      have room := entry_inside inside width
      have widthPositive : 0 < width := by omega
      have inBuffer : position * width / 8 < out.length := by
        rw [hasLength]
        exact inside_byteLength (by omega) small
      have sameIndex : (index * width + b) / width = index := by
        rw [Nat.mul_comm, Nat.mul_add_div widthPositive, Nat.div_eq_of_lt inEntry, Nat.add_zero]
      have sameBit : (index * width + b) % width = b := by
        rw [Nat.mul_comm, Nat.mul_add_mod, Nat.mod_eq_of_lt inEntry]
      have isFalse := isFalsy_of_natOf isStatus notZero
      simp only [writeTsl, isFalse, Bool.false_eq_true, if_false,
        truncate_mul small, shiftRight_three small, lowBits_three, tslBitOf]
      rw [isStatus, Option.getD_some, Buffer.lowBit_orAt out inBuffer,
        tsl_mask_testBit isWidth fits, sameIndex, sameBit, setsOf, isPosition,
        isStatus, Option.getD_some]
      congr 2
      rw [Bool.eq_iff_iff]
      simp
    · exact absurd isNegative unsigned
  fine_natOf := by
    rintro entry ⟨index, status, isIndex, inside, isStatus, fits, -⟩
    exact ⟨index, status, isIndex, inside, isStatus, fits⟩
  lost := by
    intro entry notFine notZero notWrong
    obtain ⟨index, status, isIndex, inside, isStatus, fits⟩ := natOf_of_not_wrong notZero notWrong
    have isBeyond : 2 ^ 31 ≤ index * width := by
      by_contra small
      exact notFine ⟨index, status, isIndex, inside, isStatus, fits, Nat.lt_of_not_le small⟩
    obtain ⟨b, inEntry, isSet⟩ := exists_testBit (status_ne_zero isStatus notZero) fits
    refine ⟨index, inside, b, inEntry, ?_, fun out other => ?_⟩
    · rw [setsOf, isIndex, isStatus, Option.getD_some, isSet, beq_self_eq_true]
      rfl
    · unfold writeTsl tslBitOf
      split
      · rfl
      · exact lowBit_orAt_beyond _ _ _ (isBeyond.trans (Nat.le_add_right _ _))
  empty := fun length index b => Buffer.lowBit_alloc length _

/-! ## Bitstring Status List -/

/-- The loop over an entry's bits, of which those that are set are reached. -/
theorem putBits_reached (width idx turns value : Nat) {out : Buffer}
    (reached :
      ∀ b < turns, value.testBit (width - 1 - b) = true →
        idx * width + b < 2 ^ 31 ∧ (idx * width + b) / 8 < out.length) :
    ((List.range turns).foldl (putBit width idx value) out).length =
        out.length ∧
      ∀ bit,
        ((List.range turns).foldl (putBit width idx value) out).highBit
            bit =
          (out.highBit bit ||
            (List.range turns).any fun b =>
              decide (bit = idx * width + b) && value.testBit (width - 1 - b)) := by
  induction turns with
  | zero => simp
  | succ turns ih =>
    obtain ⟨sameLength, earlierBits⟩ := ih fun b before => reached b (by omega)
    simp only [range_succ, foldl_append, any_append, foldl_cons, foldl_nil,
      any_cons, any_nil, Bool.or_false]
    cases isSet : value.testBit (width - 1 - turns) with
    | false =>
      have unset (out : Buffer) : putBit width idx value out turns = out := by
        have notSet : ¬ (value >>> (width - 1 - turns)) &&& 1 ≠ 0 := by
          have isZero := isSet
          simp only [Nat.testBit, bne_eq_false_iff_eq] at isZero
          rw [Nat.and_comm]
          exact not_not.mpr isZero
        rw [putBit, if_neg notSet]
      rw [unset]
      refine ⟨sameLength, fun bit => ?_⟩
      rw [earlierBits, Bool.and_false, Bool.or_false]
    | true =>
      obtain ⟨small, inside⟩ := reached turns (by omega) isSet
      obtain ⟨lastLength, lastBits⟩ := putBit_sets width idx turns value small (sameLength ▸ inside)
      refine ⟨lastLength.trans sameLength, fun bit => ?_⟩
      rw [lastBits, earlierBits, isSet, Bool.or_assoc]

theorem length_putBits (width idx turns value : Nat) (out : Buffer) :
    ((List.range turns).foldl (putBit width idx value) out).length = out.length := by
  induction turns with
  | zero => rfl
  | succ turns ih =>
    rw [range_succ, foldl_append, foldl_cons, foldl_nil, putBit]
    split
    · rw [Buffer.length_orAt, ih]
    · exact ih

theorem highBit_putBits_beyond (width idx turns value : Nat) (out : Buffer)
    (isBeyond : 2 ^ 31 ≤ bit) :
    ((List.range turns).foldl (putBit width idx value) out).highBit bit = out.highBit bit := by
  induction turns with
  | zero => rfl
  | succ turns ih =>
    rw [range_succ, foldl_append, foldl_cons, foldl_nil, putBit]
    split
    · rw [highBit_orAt_beyond _ _ _ isBeyond, ih]
    · exact ih

/-- What an entry that is not refused writes. -/
def writeBitstring (width : Nat) (out : Buffer) (entry : Number × Number) : Buffer :=
  if isFalsy entry.2 then
    out
  else
    (List.range width).foldl (putBit width ((natOf entry.1).getD 0) ((natOf entry.2).getD 0)) out

theorem bitstringPacker {width count : Nat} (isSize : IsStatusSize width)
    (safe : count ≤ maxSafeInteger) :
    IsPacker width count (putBitstringNumber width count) (writeBitstring width)
      (bitstringRefuses width count) (BitstringFine width count)
      (bitstringBitOf width) where
  put_refuses := by
    rintro out ⟨idx, value⟩ ⟨notFalsy, isOutside | isTooLarge⟩
    · refine ⟨.index idx count, ?_⟩
      simp only at notFalsy isOutside
      cases isIndex : natOf idx with
      | none => simp [putBitstringNumber, notFalsy, isIndex]
      | some index => simp [putBitstringNumber, notFalsy, isIndex, isOutside index isIndex]
    · simp only at notFalsy isTooLarge
      have isWide : statusOf width value = .error (.status value width) := by
        unfold statusOf
        cases isStatus : natOf value with
        | none => rfl
        | some status => exact if_pos (isTooLarge status isStatus)
      cases isIndex : natOf idx with
      | none => exact ⟨.index idx count, by simp [putBitstringNumber, notFalsy, isIndex]⟩
      | some index =>
        by_cases isOutside : isSafeInteger index = false ∨ count ≤ index
        · exact ⟨.index idx count,
            by simp [putBitstringNumber, notFalsy, isIndex, isOutside]⟩
        · exact ⟨.status value width,
            by simp [putBitstringNumber, notFalsy, isIndex, isOutside, isWide, bind, Except.bind]⟩
  put_writes := by
    rintro out ⟨idx, value⟩ notRefused
    cases falsy : isFalsy value with
    | true => simp [putBitstringNumber, writeBitstring, falsy]
    | false =>
      simp only [bitstringRefuses, falsy, true_and, not_or, not_forall] at notRefused
      obtain ⟨⟨index, isIndex, inside⟩, status, isStatus, fits⟩ := notRefused
      have accepted : ¬ (isSafeInteger (index : Int) = false ∨ count ≤ index) := by
        rintro (notSafe | isOutside)
        · rw [isSafeInteger_natCast (by omega)] at notSafe
          cases notSafe
        · exact inside isOutside
      simp [putBitstringNumber, writeBitstring, falsy, isIndex, accepted,
        statusOf, isStatus, fits, bind, Except.bind]
  wrong_of_refuses := by
    rintro entry ⟨notFalsy, isRefused⟩
    exact ⟨ne_zero_of_not_falsy notFalsy, isRefused⟩
  length_write := by
    intro out entry
    unfold writeBitstring
    split
    · rfl
    · exact length_putBits _ _ _ _ _
  write_zero := by
    intro out idx negative
    rw [writeBitstring, if_pos (isFalsy_zero negative)]
  write_fine := by
    rintro out ⟨idx, value⟩
      ⟨position, status, isPosition, inside, isStatus, fits, small⟩ -
      notZero hasLength index b inEntry
    have room := entry_inside inside width
    obtain ⟨-, bits⟩ :=
      @putBits_reached width position width status out
        fun turn isTurn isSet =>
          ⟨small turn isTurn isSet,
            hasLength ▸ inside_byteLength (by omega) (small turn isTurn isSet)⟩
    have isFalse := isFalsy_of_natOf isStatus notZero
    have sameIndex : (index * width + (width - 1 - b)) / width = index := by
      rw [Nat.mul_comm, Nat.mul_add_div (by omega), Nat.div_eq_of_lt (by omega), Nat.add_zero]
    have sameBit : (index * width + (width - 1 - b)) % width = width - 1 - b := by
      rw [Nat.mul_comm, Nat.mul_add_mod, Nat.mod_eq_of_lt (by omega)]
    have isBit : width - 1 - (width - 1 - b) = b := by omega
    simp only [writeBitstring, isFalse, Bool.false_eq_true, if_false, bitstringBitOf]
    rw [isPosition, isStatus, Option.getD_some, Option.getD_some, bits,
      any_bit_eq_sets isSize.1, bitstringSets, sameIndex, sameBit, isBit, setsOf,
      isPosition, isStatus, Option.getD_some, Int.toNat_natCast]
    congr 2
    rw [Bool.eq_iff_iff]
    simp
  fine_natOf := by
    rintro entry ⟨index, status, isIndex, inside, isStatus, fits, -⟩
    exact ⟨index, status, isIndex, inside, isStatus, fits⟩
  lost := by
    intro entry notFine notZero notWrong
    obtain ⟨index, status, isIndex, inside, isStatus, fits⟩ := natOf_of_not_wrong notZero notWrong
    have isBeyond :
        ∃ b < width, status.testBit (width - 1 - b) = true ∧ 2 ^ 31 ≤ index * width + b := by
      by_contra allSmall
      push Not at allSmall
      exact notFine ⟨index, status, isIndex, inside, isStatus, fits, allSmall⟩
    obtain ⟨b, inEntry, isSet, isBeyond⟩ := isBeyond
    refine ⟨index, inside, width - 1 - b, by omega, ?_, fun out other => ?_⟩
    · rw [setsOf, isIndex, isStatus, Option.getD_some, isSet, beq_self_eq_true]
      rfl
    · have isBit : width - 1 - (width - 1 - b) = b := by omega
      unfold writeBitstring bitstringBitOf
      rw [isBit]
      split
      · rfl
      · exact highBit_putBits_beyond _ _ _ _ _ isBeyond
  empty := fun length index b => Buffer.highBit_alloc length _

/-! ## Both packers -/

/--
Of a width and a size that are accepted, each packer throws exactly at a wrong entry
and otherwise keeps every entry in its place, if and only if some entry is refused, or
every entry that is not zero has an index and a status and lies below bit `2^31`.
-/
theorem packers_lawful_iff (values : StatusMap) (width count : Nat)
    (safe : count ≤ maxSafeInteger) :
    (IsTslWidth width →
      (PackLaw values.entries width count (tslBitOf width)
          (packTslMap values width count) ↔
        MapFine (tslRefuses width count) (TslFine width count) values.entries)) ∧
    (IsStatusSize width →
      bitstringMinEntries ≤ count →
        (PackLaw values.entries width count (bitstringBitOf width)
            (packBitstringMap values count (some width)) ↔
          MapFine (bitstringRefuses width count) (BitstringFine width count) values.entries)) := by
  constructor
  · intro isWidth
    have isPacked :
        packTslMap values width count =
          values.entries.foldlM (putTslNumber width count)
            (Buffer.alloc (byteLength count width)) := by
      simp only [packTslMap, checkBits_natCast isWidth, checkIndex_natCast safe,
        Except.mapError, bind, Except.bind]
    rw [isPacked]
    exact (tslPacker isWidth count).law_iff values
  · intro isSize enough
    have isPacked :
        packBitstringMap values count (some width) =
          values.entries.foldlM (putBitstringNumber width count)
            (Buffer.alloc (byteLength count width)) := by
      simp only [packBitstringMap, statusWidth_natCast isSize, checkIndex_natCast safe,
        Except.mapError, bind, Except.bind, if_neg (not_lt.mpr enough)]
    rw [isPacked]
    exact (bitstringPacker isSize safe).law_iff values

/-- One token is set, far below bit `2^31`. -/
def oneToken : StatusMap where
  entries := [(.finite false 3, .finite false 1)]
  distinct := by simp
  unsigned := by simp

/-- The lists of the usual size keep it. -/
theorem oneToken_lawful :
    PackLaw oneToken.entries 2 1000000 (tslBitOf 2)
        (packTslMap oneToken (2 : Nat) (1000000 : Nat)) ∧
      PackLaw oneToken.entries 1 131072 (bitstringBitOf 1)
        (packBitstringMap oneToken (131072 : Nat) (some ((1 : Nat) : Argument))) := by
  constructor
  · refine ((packers_lawful_iff oneToken 2 1000000 (by decide)).1
      (by simp [IsTslWidth])).mpr (.inr ?_)
    intro entry isEntry _
    cases mem_singleton.mp isEntry
    exact ⟨3, 1, natOf_natCast 3, by decide, natOf_natCast 1, by decide, by decide⟩
  · refine ((packers_lawful_iff oneToken 1 131072 (by decide)).2
      (by simp [IsStatusSize]) (by simp [bitstringMinEntries])).mpr (.inr ?_)
    intro entry isEntry _
    cases mem_singleton.mp isEntry
    exact ⟨3, 1, natOf_natCast 3, by decide, natOf_natCast 1, by decide, fun b isBit _ => by omega⟩

/-- A token below the first. -/
def negativeToken : StatusMap where
  entries := [(.finite true 1, .finite false 1)]
  distinct := by simp
  unsigned := by simp

/-- It is dropped without a word. -/
theorem negativeToken_unlawful :
    ¬ PackLaw negativeToken.entries 1 8 (tslBitOf 1)
        (packTslMap negativeToken (1 : Nat) (8 : Nat)) := by
  intro law
  have packed : packTslMap negativeToken (1 : Nat) (8 : Nat) = .ok [0] := by decide +kernel
  have wrong : IsWrong 1 8 (.finite true 1, .finite false 1) := by
    refine ⟨fun negative => by simp, .inl fun index isIndex => ?_⟩
    simp [natOf] at isIndex
  obtain ⟨refusal, isError⟩ := law.throws.mpr ⟨_, mem_singleton.mpr rfl, wrong⟩
  rw [packed] at isError
  cases isError

end IyaSts.VcStatusCodec
