import IyaSts.XpressFormat

namespace IyaSts.XpressHuffman

/-!
# Streams are decompressed as the format says

The register of thirty-two bits holds the bits at hand, and zeros behind them;
the bytes written so far are what was produced.  Round by round the loops do
what the format says, and refuse what it has no meaning for.
-/

open XpressFormat CanonicalCode List

/-! ## Bits as numbers -/

variable (width number : Nat)

@[simp] theorem length_bitsOf : (bitsOf width number).length = width := by
  induction width with
  | zero => rfl
  | succ width ih => rw [bitsOf, length_cons, ih]

theorem valueOf_bitsOf :
    valueOf (bitsOf width number) = number % 2 ^ width := by
  induction width with
  | zero => rw [Nat.pow_zero, Nat.mod_one]; rfl
  | succ width ih =>
    rw [bitsOf, valueOf, length_bitsOf, ih,
      Nat.mod_pow_succ, Nat.toNat_testBit, Nat.mul_comm, Nat.add_comm]

theorem valueOf_lt (bits : List Bool) : valueOf bits < 2 ^ bits.length := by
  induction bits with
  | nil => decide
  | cons bit rest ih =>
    rw [valueOf, length_cons, Nat.pow_succ]
    cases bit <;> simp <;> omega

theorem valueOf_append (first second : List Bool) :
    valueOf (first ++ second) = valueOf first * 2 ^ second.length + valueOf second := by
  induction first with
  | nil => simp [valueOf]
  | cons bit rest ih =>
    rw [cons_append, valueOf, valueOf, ih, length_append, Nat.pow_add,
      Nat.add_mul, Nat.mul_assoc, Nat.add_assoc]

/-- Bits are those at the head and the others. -/
theorem valueOf_split (bits : List Bool) (count : Nat) :
    valueOf bits =
        valueOf (bits.take count) * 2 ^ (bits.length - count) + valueOf (bits.drop count) ∧
      valueOf (bits.drop count) < 2 ^ (bits.length - count) := by
  have others := @List.length_drop _ count bits
  have isLess := valueOf_lt (bits.drop count)
  have parts := valueOf_append (bits.take count) (bits.drop count)
  rw [take_append_drop] at parts
  rw [others] at parts isLess
  exact ⟨parts, isLess⟩

variable {bits : List Bool} {count : Nat}

/-- The bits at the head of the register. -/
theorem register_head (inside : count ≤ bits.length) (fits : bits.length ≤ 32) :
    (valueOf bits * 2 ^ (32 - bits.length)) >>> (32 - count) = valueOf (bits.take count) := by
  obtain ⟨parts, isLess⟩ := valueOf_split bits count
  have places : 2 ^ (32 - count) = 2 ^ (bits.length - count) * 2 ^ (32 - bits.length) := by
    rw [← Nat.pow_add]
    congr 1
    omega
  rw [Nat.shiftRight_eq_div_pow, places, Nat.mul_div_mul_right _ _ (Nat.two_pow_pos _), parts,
    Nat.add_comm, Nat.add_mul_div_right _ _ (Nat.two_pow_pos _), Nat.div_eq_of_lt isLess,
    Nat.zero_add]

/-- The register behind the bits at its head. -/
theorem register_tail (inside : count ≤ bits.length) (fits : bits.length ≤ 32) :
    ((valueOf bits * 2 ^ (32 - bits.length)) <<< count) % 2 ^ 32 =
      valueOf (bits.drop count) * 2 ^ (32 - (bits.length - count)) := by
  obtain ⟨parts, isLess⟩ := valueOf_split bits count
  have places : 2 ^ (32 - bits.length) * 2 ^ count = 2 ^ (32 - (bits.length - count)) := by
    rw [← Nat.pow_add]
    congr 1
    omega
  have register : 2 ^ (bits.length - count) * 2 ^ (32 - (bits.length - count)) = 2 ^ 32 := by
    rw [← Nat.pow_add]
    congr 1
    omega
  have inRegister : valueOf (bits.drop count) * 2 ^ (32 - (bits.length - count)) < 2 ^ 32 := by
    rw [← register]
    exact Nat.mul_lt_mul_of_pos_right isLess (Nat.two_pow_pos _)
  rw [Nat.shiftLeft_eq, Nat.mul_assoc, places, parts, Nat.add_mul, Nat.mul_assoc, register,
    Nat.mul_add_mod_self_right, Nat.mod_eq_of_lt inRegister]

/-- A word behind the bits of the register. -/
theorem register_word {number : Nat} (isWord : number < 2 ^ 16) (isShort : bits.length ≤ 16) :
    (valueOf bits * 2 ^ (32 - bits.length)) |||
        (number <<< (16 - bits.length)) =
      valueOf (bits ++ bitsOf 16 number) * 2 ^ (32 - (bits ++ bitsOf 16 number).length) := by
  have places : 2 ^ (32 - bits.length) = 2 ^ 16 * 2 ^ (16 - bits.length) := by
    rw [← Nat.pow_add]
    congr 1
    omega
  have isLow : number <<< (16 - bits.length) < 2 ^ (32 - bits.length) := by
    rw [Nat.shiftLeft_eq, places]
    exact Nat.mul_lt_mul_of_pos_right isWord (Nat.two_pow_pos _)
  have sameLength : 32 - (bits ++ bitsOf 16 number).length = 16 - bits.length := by
    rw [length_append, length_bitsOf]
    omega
  rw [← Nat.shiftLeft_eq (valueOf bits), ← Nat.shiftLeft_add_eq_or_of_lt isLow, Nat.shiftLeft_eq,
    Nat.shiftLeft_eq, sameLength, valueOf_append, length_bitsOf, valueOf_bitsOf,
    Nat.mod_eq_of_lt isWord, places, Nat.add_mul, Nat.mul_assoc]

/-! ## Words of the stream -/

section Stream

variable
    {src : Buffer}

theorem byteAt_eq (inPos index : Nat) :
    byteAt src (inPos + index) = XpressFormat.byte (src.drop inPos) index := by
  rw [byteAt, XpressFormat.byte, getD_eq_getElem?_getD,
    getD_eq_getElem?_getD, List.getElem?_drop]

theorem u16At_eq (inPos index : Nat) : u16At src (inPos + index) = word (src.drop inPos) index := by
  have isByte : byteAt src (inPos + index) < 2 ^ 8 := UInt8.toNat_lt _
  rw [u16At, word, ← byteAt_eq, ← byteAt_eq, Nat.lor_comm,
    ← Nat.shiftLeft_add_eq_or_of_lt isByte, Nat.shiftLeft_eq, Nat.add_assoc]
  omega

theorem word_lt (rest : Buffer) (index : Nat) : word rest index < 2 ^ 16 := by
  have first : XpressFormat.byte rest index < 256 := UInt8.toNat_lt _
  have second : XpressFormat.byte rest (index + 1) < 256 := UInt8.toNat_lt _
  unfold word
  omega

/-! ## The register -/

variable (src) in
/-- The register and the position say what a reading holds. -/
structure Shows (state : State) (reading : Reading) : Prop where
  enough : 16 ≤ reading.bits.length
  fits : reading.bits.length ≤ 32
  register : state.bits = valueOf reading.bits * 2 ^ (32 - reading.bits.length)
  extra : state.extra = (reading.bits.length : Int) - 16
  rest : reading.rest = src.drop state.inPos

/-- Using bits is going past them. -/
theorem Shows.useBits {state : State} {reading : Reading}
    (isShown : Shows src state reading) {used : Nat} (inside : used ≤ 15) :
    Shows src (useBits src used state) (reading.past used) := by
  obtain ⟨enough, fits, register, extra, rest⟩ := isShown
  have isLeft := @List.length_drop _ used reading.bits
  have tail := register_tail (show used ≤ reading.bits.length by omega) fits
  unfold XpressHuffman.useBits Reading.past
  dsimp only
  rw [register, tail, extra, isLeft]
  by_cases isShort : reading.bits.length - used < 16
  · rw [if_pos (by omega), if_pos isShort]
    have places :
        (-((reading.bits.length : Int) - 16 - used)).toNat =
          16 - (reading.bits.drop used).length := by
      omega
    have isWord := @u16At_eq src state.inPos 0
    rw [Nat.add_zero, ← rest] at isWord
    refine ⟨?_, ?_, ?_, ?_, ?_⟩
    · dsimp only
      rw [length_append, length_bitsOf]
      omega
    · dsimp only
      rw [length_append, length_bitsOf]
      omega
    · dsimp only
      rw [places, isWord, ← isLeft]
      exact register_word (word_lt _ _) (by omega)
    · dsimp only
      rw [length_append, length_bitsOf]
      omega
    · dsimp only
      rw [rest, drop_drop]
  · rw [if_neg (by omega), if_neg isShort]
    refine ⟨?_, ?_, ?_, ?_, rest⟩
    · dsimp only
      omega
    · dsimp only
      omega
    · dsimp only
      rw [isLeft]
    · dsimp only
      omega

/-- A chunk begins with two words in the register. -/
theorem shows_chunkStart (out : Buffer) (outPos inPos : Nat) :
    Shows src (chunkStart src out outPos inPos) (Reading.start (src.drop inPos)) := by
  have first := @u16At_eq src inPos 0
  have second := @u16At_eq src inPos 2
  rw [Nat.add_zero] at first
  have value :
      word (src.drop inPos) 0 <<< 16 ||| word (src.drop inPos) 2 =
        valueOf (bitsOf 16 (word (src.drop inPos) 0) ++ bitsOf 16 (word (src.drop inPos) 2)) := by
    rw [← Nat.shiftLeft_add_eq_or_of_lt (word_lt _ _), Nat.shiftLeft_eq,
      valueOf_append, length_bitsOf, valueOf_bitsOf, valueOf_bitsOf,
      Nat.mod_eq_of_lt (word_lt _ _), Nat.mod_eq_of_lt (word_lt _ _)]
  refine ⟨?_, ?_, ?_, ?_, ?_⟩
  · simp [Reading.start]
  · simp [Reading.start]
  · simp only [chunkStart, Reading.start, first, second, value, length_append, length_bitsOf]
    rw [Nat.sub_self, Nat.pow_zero, Nat.mul_one]
  · simp [chunkStart, Reading.start]
  · simp only [chunkStart, Reading.start, drop_drop]

/-! ## Lengths and distances -/

/-- A long match's length, in the words of the format. -/
theorem matchLengthAt_long (inPos : Nat) :
    matchLengthAt src 15 inPos =
      if XpressFormat.byte (src.drop inPos) 0 = 255 then
        if word (src.drop inPos) 1 = 0 then
          if word (src.drop inPos) 3 + 65536 * word (src.drop inPos) 5 <
              15 then
            .error "krb5: an XPRESS Huffman match length that underflows"
          else
            .ok (word (src.drop inPos) 3 + 65536 * word (src.drop inPos) 5 + 3, inPos + 7)
        else if word (src.drop inPos) 1 < 15 then
          .error "krb5: an XPRESS Huffman match length that underflows"
        else
          .ok (word (src.drop inPos) 1 + 3, inPos + 3)
      else
        .ok (XpressFormat.byte (src.drop inPos) 0 + 15 + 3, inPos + 1) := by
  have isByte := @byteAt_eq src inPos 0
  have isWord := @u16At_eq src inPos 1
  have isLow := @u16At_eq src inPos 3
  have isHigh := @u16At_eq src inPos 5
  have isDouble :
      word (src.drop inPos) 3 ||| word (src.drop inPos) 5 <<< 16 =
        word (src.drop inPos) 3 + 65536 * word (src.drop inPos) 5 := by
    rw [Nat.lor_comm, ← Nat.shiftLeft_add_eq_or_of_lt (word_lt _ _), Nat.shiftLeft_eq]
    omega
  rw [Nat.add_zero] at isByte
  unfold matchLengthAt longLengthAt wordLengthAt
  simp only [Nat.add_assoc, Nat.reduceAdd, isByte, isWord, isLow, isHigh, isDouble, if_true]
  by_cases isLong : XpressFormat.byte (src.drop inPos) 0 = 255
  · rw [if_pos isLong, if_pos isLong]
    by_cases isZero : word (src.drop inPos) 1 = 0
    · rw [if_pos isZero, if_pos isZero]
      dsimp only
      split
      · rfl
      · refine congrArg Except.ok (Prod.ext ?_ rfl)
        dsimp only
        omega
    · rw [if_neg isZero, if_neg isZero]
      dsimp only
      split
      · rfl
      · refine congrArg Except.ok (Prod.ext ?_ rfl)
        dsimp only
        omega
  · rw [if_neg isLong, if_neg isLong]
    rfl

/-- A match's length is refused, or read as the format says. -/
theorem lengthIs_of_read {lengthCode inPos matchLength next : Nat} (isCode : lengthCode < 16)
    (isRead : matchLengthAt src lengthCode inPos = .ok (matchLength, next)) :
    ∃ length,
      matchLength = length + 3 ∧ LengthIs lengthCode (src.drop inPos) length (src.drop next) := by
  by_cases isShort : lengthCode < 15
  · rw [matchLengthAt, if_neg (by omega), Except.ok.injEq, Prod.mk.injEq] at isRead
    obtain ⟨rfl, rfl⟩ := isRead
    exact ⟨lengthCode, rfl, .short lengthCode _ isShort⟩
  · obtain rfl : lengthCode = 15 := by omega
    rw [matchLengthAt_long] at isRead
    split at isRead
    · rename_i isLong
      split at isRead
      · rename_i isZero
        split at isRead
        · exact absurd isRead (by simp)
        · rename_i enough
          rw [Except.ok.injEq, Prod.mk.injEq] at isRead
          obtain ⟨rfl, rfl⟩ := isRead
          refine ⟨_, rfl, ?_⟩
          rw [← drop_drop]
          exact .double _ isLong isZero (by omega)
      · split at isRead
        · exact absurd isRead (by simp)
        · rename_i enough
          rw [Except.ok.injEq, Prod.mk.injEq] at isRead
          obtain ⟨rfl, rfl⟩ := isRead
          refine ⟨_, rfl, ?_⟩
          rw [← drop_drop]
          exact .word _ isLong (by omega)
    · rename_i notLong
      rw [Except.ok.injEq, Prod.mk.injEq] at isRead
      obtain ⟨rfl, rfl⟩ := isRead
      have isByte : XpressFormat.byte (src.drop inPos) 0 < 256 := UInt8.toNat_lt _
      refine ⟨_, rfl, ?_⟩
      rw [← drop_drop, Nat.add_comm _ 15]
      exact .byte _ (by omega)

/-- A length of the format is read. -/
theorem read_of_lengthIs {lengthCode inPos length : Nat} {rest : Buffer}
    (isLength : LengthIs lengthCode (src.drop inPos) length rest) :
    ∃ next, matchLengthAt src lengthCode inPos = .ok (length + 3, next) ∧ rest = src.drop next := by
  generalize isRest : src.drop inPos = here at isLength
  cases isLength with
  | short length rest isShort =>
    exact ⟨inPos, by rw [matchLengthAt, if_neg (by omega)], isRest.symm⟩
  | byte rest notLong =>
    refine ⟨inPos + 1, ?_, by rw [← isRest, drop_drop]⟩
    rw [matchLengthAt_long, isRest, if_neg (by omega), Nat.add_comm _ 15]
    rfl
  | word rest isLong enough =>
    refine ⟨inPos + 3, ?_, by rw [← isRest, drop_drop]⟩
    rw [matchLengthAt_long, isRest, if_pos isLong, if_neg (by omega), if_neg (by omega)]
  | double rest isLong isZero enough =>
    refine ⟨inPos + 7, ?_, by rw [← isRest, drop_drop]⟩
    rw [matchLengthAt_long, isRest, if_pos isLong, if_pos isZero, if_neg (by omega)]

/-- The distance of a match, and the register behind its bits. -/
theorem Shows.takeOffset {state : State} {reading : Reading}
    (isShown : Shows src state reading) {offsetBits : Nat} (inside : offsetBits < 16) :
    (takeOffset src offsetBits state).1 =
        2 ^ offsetBits + valueOf (reading.bits.take offsetBits) ∧
      Shows src (takeOffset src offsetBits state).2 (reading.past offsetBits) := by
  have enough := isShown.enough
  unfold XpressHuffman.takeOffset
  by_cases isSome : offsetBits ≠ 0
  · rw [if_pos isSome]
    refine ⟨?_, isShown.useBits (by omega)⟩
    dsimp only
    rw [isShown.register, register_head (by omega) isShown.fits, Nat.one_shiftLeft]
  · obtain rfl : offsetBits = 0 := by omega
    refine ⟨rfl, ?_⟩
    have isSame : reading.past 0 = reading := by
      rw [Reading.past, drop_zero, if_neg (by omega)]
    rw [isSame]
    exact isShown

/-! ## What is written -/

/-- The bytes of the output so far are what was produced. -/
structure Holds (size : Nat) (state : State) (produced : Buffer) : Prop where
  size : state.out.length = size
  position : state.outPos = produced.length
  bytes : state.out.take state.outPos = produced

theorem take_set (out : Buffer) {position : Nat} (inside : position < out.length) (byte : UInt8) :
    (out.set position byte).take (position + 1) = out.take position ++ [byte] := by
  rw [take_succ_eq_append_getElem (by simpa using inside), take_set_of_le (Nat.le_refl _)]
  simp

/-- A literal is what is produced next. -/
theorem Holds.literal {size : Nat} {state : State} {produced : Buffer}
    (holds : Holds size state produced) (inside : state.outPos < size) (symbol : Nat) :
    Holds size (writeLiteral symbol state) (produced ++ [UInt8.ofNat symbol]) := by
  obtain ⟨isSize, isPosition, areBytes⟩ := holds
  refine ⟨?_, ?_, ?_⟩
  · rw [writeLiteral, length_set, isSize]
  · rw [writeLiteral, length_append, isPosition]
    rfl
  · rw [writeLiteral, take_set _ (by omega), areBytes]

/-- The loop of a match copies as the format says. -/
theorem copyMatch_eq {distance count : Nat} {out produced : Buffer} {outPos : Nat}
    (isPositive : 0 < distance) (isPosition : outPos = produced.length)
    (areBytes : out.take outPos = produced) (inside : distance ≤ outPos)
    (fits : outPos + count ≤ out.length) :
    (copyMatch distance count out outPos).length = out.length ∧
      (copied distance count produced).length = outPos + count ∧
      (copyMatch distance count out outPos).take (outPos + count) =
        copied distance count produced := by
  induction count generalizing out produced outPos with
  | zero => exact ⟨rfl, isPosition.symm, areBytes⟩
  | succ count ih =>
    have isByte :
        out.getD (outPos - distance) 0 = produced.getD (produced.length - distance) 0 := by
      rw [← areBytes, getD_eq_getElem?_getD, getD_eq_getElem?_getD, length_take,
        Nat.min_eq_left (by omega), List.getElem?_take_of_lt (by omega)]
    have longer :
        outPos + 1 = (produced ++ [produced.getD (produced.length - distance) 0]).length := by
      rw [length_append, isPosition]
      rfl
    have written :
        (out.set outPos (out.getD (outPos - distance) 0)).take
            (outPos + 1) =
          produced ++ [produced.getD (produced.length - distance) 0] := by
      rw [take_set _ (by omega), areBytes, isByte]
    have next := ih longer written (by omega) (by rw [length_set]; omega)
    rw [length_set] at next
    rw [copyMatch, copied, show outPos + (count + 1) = outPos + 1 + count by omega]
    exact next

/-- A match inside the output is written as it is copied. -/
theorem Holds.copy {size : Nat} {state : State} {produced : Buffer}
    (holds : Holds size state produced) {distance length : Nat} (isPositive : 0 < distance)
    (inside : distance ≤ produced.length) (fits : produced.length + length ≤ size) :
    ∃ next,
      writeMatch size distance length state = .ok next ∧
        Holds size next (copied distance length produced) ∧
        next.bits = state.bits ∧ next.extra = state.extra ∧
        next.inPos = state.inPos := by
  obtain ⟨isSize, isPosition, areBytes⟩ := holds
  obtain ⟨sameLength, isLonger, written⟩ :=
    @copyMatch_eq distance length _ _ _ isPositive isPosition areBytes (by omega) (by omega)
  refine ⟨_, if_neg (by omega), ⟨?_, ?_, ?_⟩, rfl, rfl, rfl⟩
  · dsimp only
    rw [sameLength, isSize]
  · dsimp only
    rw [isLonger]
  · exact written

theorem useBits_out (used : Nat) (state : State) :
    (XpressHuffman.useBits src used state).out = state.out := by
  unfold XpressHuffman.useBits
  dsimp only
  split <;> rfl

theorem takeOffset_out (offsetBits : Nat) (state : State) :
    (XpressHuffman.takeOffset src offsetBits state).2.out = state.out := by
  unfold XpressHuffman.takeOffset
  split
  · exact useBits_out offsetBits state
  · rfl

/-! ## Round by round -/

section Rounds

variable
    {tableBytes : Buffer}
    {table : Table}
    {size : Nat}
    {state : State}
    {reading : Reading}
    {produced : Buffer}

/-- The symbol that is decoded is the one whose code heads the bits. -/
theorem heads_iff (isBuilt : buildXpressHuffmanTable tableBytes = .ok table)
    (isShown : Shows src state reading) (symbol : Nat) :
    Heads tableBytes symbol reading ↔ symbol = table.decode (state.bits >>> 17) := by
  obtain ⟨_, _, decodes⟩ := decode_of_build isBuilt
  have enough := isShown.enough
  have isPattern : state.bits >>> 17 = valueOf (reading.bits.take 15) := by
    rw [isShown.register]
    exact register_head (show 15 ≤ reading.bits.length by omega) isShown.fits
  have inPatterns : state.bits >>> 17 < 2 ^ 15 := by
    have isLess := valueOf_lt (reading.bits.take 15)
    rw [length_take, Nat.min_eq_left (by omega)] at isLess
    rw [isPattern]
    exact isLess
  obtain ⟨hasCode, isOnly⟩ := decodes _ inPatterns
  rw [Heads, ← isPattern]
  constructor
  · exact isOnly symbol
  · rintro rfl
    exact hasCode

/-- A symbol of a match is made of its parts. -/
theorem symbol_parts {symbol : Nat} (isCopy : ¬symbol < 256) (isSymbol : symbol < 512) :
    ∃ offsetBits lengthCode,
      offsetBits < 16 ∧ lengthCode < 16 ∧ symbol = 256 + 16 * offsetBits + lengthCode :=
  ⟨(symbol - 256) / 16, (symbol - 256) % 16, by omega, by omega, by omega⟩

/-- The parts of a match's symbol. -/
theorem parts_symbol {offsetBits lengthCode : Nat} (isLength : lengthCode < 16) :
    (256 + 16 * offsetBits + lengthCode - 256) >>> 4 = offsetBits ∧
      (256 + 16 * offsetBits + lengthCode - 256) &&& 15 = lengthCode := by
  rw [Nat.shiftRight_eq_div_pow,
    show (256 + 16 * offsetBits + lengthCode - 256) &&& 15 =
        (256 + 16 * offsetBits + lengthCode - 256) % 16 from
      Nat.and_two_pow_sub_one_eq_mod _ 4]
  omega

variable (src size) in
/-- What a state shows of the stream, and what it holds of the output. -/
structure Stands (state : State) (reading : Reading)
    (produced : Buffer) : Prop where
  shows : Shows src state reading
  holds : Holds size state produced

/-- Past its code, a symbol leaves the output as it was. -/
theorem Stands.useBits (stands : Stands src size state reading produced) {used : Nat}
    (inside : used ≤ 15) :
    Stands src size (XpressHuffman.useBits src used state) (reading.past used) produced := by
  refine ⟨stands.shows.useBits inside, ?_, ?_, ?_⟩
  · rw [useBits_out, stands.holds.size]
  · rw [useBits_outPos, stands.holds.position]
  · rw [useBits_out, useBits_outPos, stands.holds.bytes]

/-- A literal is written behind what was produced. -/
theorem Stands.literal (stands : Stands src size state reading produced)
    (inside : produced.length < size) (symbol : Nat) :
    Stands src size (writeLiteral symbol state) reading (produced ++ [UInt8.ofNat symbol]) := by
  obtain ⟨⟨enough, fits, register, extra, rest⟩, holds⟩ := stands
  have isInside : state.outPos < size := by
    rw [holds.position]
    exact inside
  exact ⟨⟨enough, fits, register, extra, rest⟩, holds.literal isInside symbol⟩

/-- The bytes of a length are passed. -/
theorem Stands.passLength (stands : Stands src size state reading produced) (inPos : Nat) :
    Stands src size { state with inPos }
      { reading with rest := src.drop inPos } produced := by
  obtain ⟨⟨enough, fits, register, extra, -⟩, isSize, isPosition, areBytes⟩ := stands
  exact ⟨⟨enough, fits, register, extra, rfl⟩, isSize, isPosition, areBytes⟩

/-- The distance of a match, whose bits are passed. -/
theorem Stands.takeOffset (stands : Stands src size state reading produced) {offsetBits : Nat}
    (inside : offsetBits < 16) :
    (XpressHuffman.takeOffset src offsetBits state).1 =
        2 ^ offsetBits + valueOf (reading.bits.take offsetBits) ∧
      Stands src size (XpressHuffman.takeOffset src offsetBits state).2
        (reading.past offsetBits) produced := by
  obtain ⟨isOffset, isShown⟩ := stands.shows.takeOffset inside
  refine ⟨isOffset, isShown, ?_, ?_, ?_⟩
  · rw [takeOffset_out, stands.holds.size]
  · rw [takeOffset_outPos, stands.holds.position]
  · rw [takeOffset_out, takeOffset_outPos, stands.holds.bytes]

variable {distance length chunkEnd : Nat} {next : State}

/-- A match that is written copies what there is, and there is room. -/
theorem Stands.inside_of_written (stands : Stands src size state reading produced)
    (isWritten : writeMatch size distance length state = .ok next) :
    distance ≤ produced.length ∧ produced.length + length ≤ size := by
  have isPosition := stands.holds.position
  unfold writeMatch at isWritten
  split at isWritten
  · exact absurd isWritten (by simp)
  · omega

/-- A match inside the output is written, and is what is produced next. -/
theorem Stands.copy (stands : Stands src size state reading produced) (isPositive : 0 < distance)
    (inside : distance ≤ produced.length) (fits : produced.length + length ≤ size) :
    ∃ next,
      writeMatch size distance length state = .ok next ∧
        Stands src size next reading (copied distance length produced) := by
  obtain ⟨next, isWritten, held, sameBits, sameExtra, samePos⟩ :=
    stands.holds.copy isPositive inside fits
  obtain ⟨⟨enough, fitting, register, extra, rest⟩, -⟩ := stands
  exact
    ⟨next, isWritten, ⟨enough, fitting, by rw [sameBits, register], by rw [sameExtra, extra],
        by rw [samePos, rest]⟩,
      held⟩

/-- A round writes an element that the format reads and adds. -/
theorem element_of_step (isBuilt : buildXpressHuffmanTable tableBytes = .ok table)
    (stands : Stands src size state reading produced) (inside : produced.length < size)
    (isStep : step src table size state = .ok next) :
    ∃ element middle more,
      ElementIs tableBytes reading element middle ∧
        Adds size element produced more ∧
        Stands src size next middle more := by
  obtain ⟨_, sameLengths, _⟩ := decode_of_build isBuilt
  have heads := (heads_iff isBuilt stands.shows _).mpr rfl
  unfold step takeSymbol at isStep
  dsimp only at isStep
  rw [sameLengths] at isStep
  generalize table.decode (state.bits >>> 17) = symbol at heads isStep
  have isCoded := mem_coded.mp heads.1
  have stood := stands.useBits (lengthOf_le tableBytes symbol)
  generalize XpressHuffman.useBits src (lengthOf tableBytes symbol) state = after at stood isStep
  by_cases isLiteral : symbol < 256
  · rw [if_pos isLiteral] at isStep
    rw [← Except.ok.inj isStep]
    exact
      ⟨_, _, _, .literal symbol reading isLiteral heads, .literal _ produced,
        stood.literal inside symbol⟩
  · rw [if_neg isLiteral] at isStep
    obtain ⟨offsetBits, lengthCode, isOffset, isCode, rfl⟩ := symbol_parts isLiteral isCoded.1
    obtain ⟨isBits, isLow⟩ := @parts_symbol offsetBits lengthCode isCode
    rw [isBits, isLow] at isStep
    obtain ⟨⟨matchLength, inPos⟩, isRead, isWritten⟩ := (Fallible.bind_eq_ok_iff _ _ _).mp isStep
    obtain ⟨length, rfl, isLength⟩ := lengthIs_of_read isCode isRead
    obtain ⟨isDistance, taken⟩ := (stood.passLength inPos).takeOffset isOffset
    dsimp only at isWritten isDistance
    rw [isDistance] at isWritten
    obtain ⟨isThere, fits⟩ := taken.inside_of_written isWritten
    obtain ⟨other, isOther, copied⟩ :=
      taken.copy (Nat.add_pos_left (Nat.two_pow_pos _) _) isThere fits
    obtain rfl := Except.ok.inj (isWritten.symm.trans isOther)
    rw [← stood.shows.rest] at isLength
    exact
      ⟨_, _, _,
        .copy offsetBits lengthCode length reading (src.drop inPos) isOffset isCode heads isLength,
        .copy _ _ produced isThere fits, copied⟩

/-- An element that the format reads and adds is written in a round. -/
theorem step_of_element (isBuilt : buildXpressHuffmanTable tableBytes = .ok table)
    (stands : Stands src size state reading produced) (inside : produced.length < size)
    {element : Element} {middle : Reading} {more : Buffer}
    (isElement : ElementIs tableBytes reading element middle)
    (adds : Adds size element produced more) :
    ∃ next, step src table size state = .ok next ∧ Stands src size next middle more := by
  obtain ⟨_, sameLengths, _⟩ := decode_of_build isBuilt
  cases isElement with
  | literal symbol reading isLiteral heads =>
    cases adds with
    | literal _ produced =>
      have stood := stands.useBits (lengthOf_le tableBytes symbol)
      refine ⟨_, ?_, stood.literal inside symbol⟩
      unfold step takeSymbol
      dsimp only
      rw [sameLengths, ← (heads_iff isBuilt stands.shows _).mp heads, if_pos isLiteral]
  | copy offsetBits lengthCode length reading rest isOffset isCode heads
      isLength =>
    cases adds with
    | copy _ _ produced isThere fits =>
      have stood := stands.useBits (lengthOf_le tableBytes (256 + 16 * offsetBits + lengthCode))
      rw [stood.shows.rest] at isLength
      obtain ⟨inPos, isRead, rfl⟩ := read_of_lengthIs isLength
      obtain ⟨isDistance, taken⟩ := (stood.passLength inPos).takeOffset isOffset
      obtain ⟨next, isWritten, copied⟩ :=
        taken.copy (Nat.add_pos_left (Nat.two_pow_pos _) _) isThere fits
      obtain ⟨isBits, isLow⟩ := @parts_symbol offsetBits lengthCode isCode
      refine ⟨next, ?_, copied⟩
      unfold step takeSymbol
      dsimp only
      rw [sameLengths, ← (heads_iff isBuilt stands.shows _).mp heads,
        if_neg (by omega), isBits, isLow]
      refine (Fallible.bind_eq_ok_iff _ _ _).mpr ⟨_, isRead, ?_⟩
      dsimp only at isDistance ⊢
      rw [isDistance]
      exact isWritten

/-- A chunk that is inflated is one of the format. -/
theorem chunk_of_inflate (isBuilt : buildXpressHuffmanTable tableBytes = .ok table)
    (stands : Stands src size state reading produced) (inside : chunkEnd ≤ size) {last : State}
    (isRun : inflateChunk src table size chunkEnd state = .ok last) :
    ∃ final whole,
      Chunk tableBytes size chunkEnd reading produced final whole ∧
        Stands src size last final whole := by
  fun_induction inflateChunk src table size chunkEnd state
    generalizing reading produced with
  | case1 state isLess error failed => exact absurd isRun (by simp)
  | case2 state isLess next isStep advances ih =>
    have isProduced : produced.length < chunkEnd := by
      rw [← stands.holds.position]
      exact isLess
    obtain ⟨element, middle, more, isElement, adds, stood⟩ :=
      element_of_step isBuilt stands (by omega) isStep
    obtain ⟨final, whole, isChunk, final_stands⟩ := ih stood isRun
    exact ⟨final, whole, .next isProduced isElement adds isChunk, final_stands⟩
  | case3 state isEnd =>
    obtain rfl := Except.ok.inj isRun
    have isProduced : chunkEnd ≤ produced.length := by
      rw [← stands.holds.position]
      omega
    exact ⟨reading, produced, .done reading produced isProduced, stands⟩

/-- A chunk of the format is inflated. -/
theorem inflate_of_chunk (isBuilt : buildXpressHuffmanTable tableBytes = .ok table)
    (stands : Stands src size state reading produced) (inside : chunkEnd ≤ size)
    {final : Reading} {whole : Buffer}
    (isChunk : Chunk tableBytes size chunkEnd reading produced final whole) :
    ∃ last,
      inflateChunk src table size chunkEnd state = .ok last ∧ Stands src size last final whole := by
  induction isChunk generalizing state with
  | done reading produced isEnd =>
    refine ⟨state, ?_, stands⟩
    rw [inflateChunk.eq_def, if_neg]
    rw [stands.holds.position]
    omega
  | next isLess isElement adds isRest ih =>
    obtain ⟨next, isStep, stood⟩ := step_of_element isBuilt stands (by omega) isElement adds
    obtain ⟨last, isRun, last_stands⟩ := ih stood
    refine ⟨last, ?_, last_stands⟩
    rw [inflateChunk.eq_def, if_pos (by rw [stands.holds.position]; exact isLess)]
    split
    · rename_i failed
      rw [isStep] at failed
      exact absurd failed (by simp)
    · rename_i other isOther
      obtain rfl := Except.ok.inj (isStep.symm.trans isOther)
      exact isRun

end Rounds

/-! ## Chunk by chunk -/

variable
    {size : Nat}

/-- What is held and produced where a chunk begins. -/
theorem stands_start {out produced : Buffer} (isSize : out.length = size)
    (areBytes : out.take produced.length = produced) (inPos : Nat) :
    Stands src size (chunkStart src out produced.length inPos)
      (Reading.start (src.drop inPos)) produced :=
  ⟨shows_chunkStart out produced.length inPos, isSize, rfl, areBytes⟩

/-- The chunk that is inflated next, and what is behind it. -/
theorem nextChunk_spec {out produced : Buffer} (isSize : out.length = size)
    (areBytes : out.take produced.length = produced) (inPos : Nat) :
    (∀ {last : State},
        nextChunk src size out produced.length inPos = .ok last →
          260 ≤ (src.drop inPos).length ∧
            Kraft ((src.drop inPos).take 256) ∧
            ∃ final whole,
              Chunk ((src.drop inPos).take 256) size
                  (min (produced.length + 65536) size)
                  (Reading.start ((src.drop inPos).drop 256)) produced final
                  whole ∧
                Stands src size last final whole) ∧
      ∀ {final : Reading} {whole : Buffer},
        260 ≤ (src.drop inPos).length →
          Kraft ((src.drop inPos).take 256) →
          Chunk ((src.drop inPos).take 256) size
            (min (produced.length + 65536) size)
            (Reading.start ((src.drop inPos).drop 256)) produced final
            whole →
          ∃ last,
            nextChunk src size out produced.length inPos = .ok last ∧
              Stands src size last final whole := by
  have start := @stands_start src _ _ _ isSize areBytes (inPos + 256)
  have isLeft := @List.length_drop _ inPos src
  rw [← drop_drop] at start
  unfold nextChunk
  constructor
  · intro last isRun
    split at isRun
    · exact absurd isRun (by simp)
    · obtain ⟨table, isBuilt, isChunk⟩ := (Fallible.bind_eq_ok_iff _ _ _).mp isRun
      exact
        ⟨by omega, (decode_of_build isBuilt).1,
          chunk_of_inflate isBuilt start (Nat.min_le_right _ _) isChunk⟩
  · intro final whole enough isKraft isChunk
    obtain ⟨table, isBuilt⟩ := build_of_kraft isKraft
    obtain ⟨last, isRun, stood⟩ := inflate_of_chunk isBuilt start (Nat.min_le_right _ _) isChunk
    refine ⟨last, ?_, stood⟩
    rw [if_neg (by omega)]
    exact (Fallible.bind_eq_ok_iff _ _ _).mpr ⟨table, isBuilt, isRun⟩

/-- A stream that is inflated is one of the format. -/
theorem stream_of_inflate {out produced output : Buffer} {outPos inPos : Nat}
    (isSize : out.length = size) (isPosition : outPos = produced.length)
    (areBytes : out.take produced.length = produced)
    (isRun : inflate src size out outPos inPos = .ok output) :
    Stream size (src.drop inPos) produced output ∧ output.length = size := by
  fun_induction inflate src size out outPos inPos generalizing produced with
  | case1 out outPos inPos inside error failed => exact absurd isRun (by simp)
  | case2 out outPos inPos inside last isNext advances ih =>
    subst isPosition
    obtain ⟨enough, isKraft, final, whole, isChunk, stood⟩ :=
      (nextChunk_spec isSize areBytes inPos).1 isNext
    have areMore := stood.holds.bytes
    rw [stood.holds.position] at areMore
    obtain ⟨isRest, isLength⟩ := ih stood.holds.size stood.holds.position areMore isRun
    rw [← stood.shows.rest] at isRest
    exact ⟨.chunk inside enough isKraft isChunk isRest, isLength⟩
  | case3 out outPos inPos isEnd =>
    obtain rfl := Except.ok.inj isRun
    have isWhole : out = produced := by rw [← areBytes, take_of_length_le (by omega)]
    refine ⟨?_, isSize⟩
    rw [isWhole]
    exact .done _ _ (by omega)

/-- A stream of the format is inflated. -/
theorem inflate_of_stream {out produced output rest : Buffer} {inPos : Nat}
    (isSize : out.length = size) (areBytes : out.take produced.length = produced)
    (isRest : rest = src.drop inPos) (isStream : Stream size rest produced output) :
    inflate src size out produced.length inPos = .ok output := by
  induction isStream generalizing out inPos with
  | done rest produced isEnd =>
    rw [inflate.eq_def, dif_neg (by omega), ← areBytes, take_of_length_le (by omega)]
  | @chunk rest produced more whole last inside enough isKraft isChunk isRest
      ih =>
    subst isRest
    obtain ⟨next, isNext, stood⟩ := (nextChunk_spec isSize areBytes inPos).2 enough isKraft isChunk
    have areMore := stood.holds.bytes
    rw [stood.holds.position] at areMore
    have isRun := ih stood.holds.size areMore stood.shows.rest
    rw [inflate.eq_def, dif_pos inside]
    split
    · rename_i failed
      rw [isNext] at failed
      exact absurd failed (by simp)
    · rename_i other isOther
      obtain rfl := Except.ok.inj (isNext.symm.trans isOther)
      rw [← stood.holds.position] at isRun
      exact isRun

end Stream

/-- What is decompressed is what the format says, of the size declared. -/
theorem decompress_iff (input output : Buffer) (size : Nat) :
    decompressXpressHuffman input size = .ok output ↔
      (0 < size ∧ size ≤ claimsMaxSize) ∧
        Decompresses input size output ∧ output.length = size := by
  have isSize : (Buffer.alloc size).length = size := length_replicate
  unfold decompressXpressHuffman
  constructor
  · intro isRun
    split at isRun
    · exact absurd isRun (by simp)
    · rename_i inBounds
      exact
        ⟨by omega, @stream_of_inflate input size _ [] output 0 0 isSize rfl take_zero isRun⟩
  · rintro ⟨inBounds, isStream, -⟩
    rw [if_neg (by omega)]
    exact @inflate_of_stream input size _ [] output input 0 isSize take_zero rfl isStream

end IyaSts.XpressHuffman
