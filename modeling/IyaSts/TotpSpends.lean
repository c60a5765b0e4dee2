import IyaSts.Totp
import Mathlib.Tactic.IntervalCases

namespace IyaSts.Totp

/-!
# Codes are spent in the order of their steps

A secret is read back from its text.  A call answers the lowest step of the
window that has the code, so it answers a fresh one, and accepts whenever there
is one, exactly where the steps that share the code are on one side of the step
spent last.
-/

open List

/-! ## Base32 -/

/-- A register with its low bits empty takes bits by addition. -/
theorem shiftIn_eq (value : Nat) {places bits : Nat} (fits : bits < 2 ^ places)
    (inRegister : places ≤ 32) :
    shiftIn value places bits = value * 2 ^ places % 2 ^ 32 + bits := by
  have emptied : value * 2 ^ places % 2 ^ 32 = 2 ^ places * (value % 2 ^ (32 - places)) := by
    have isRegister : 2 ^ 32 = 2 ^ places * 2 ^ (32 - places) := by
      rw [← Nat.pow_add]
      congr 1
      omega
    rw [isRegister, Nat.mul_comm value, Nat.mul_mod_mul_left]
  rw [shiftIn, emptied, Nat.two_pow_add_eq_or_of_lt fits]

theorem low_five (value : Nat) : value &&& 31 = value % 32 := Nat.and_two_pow_sub_one_eq_mod value 5

theorem low_eight (value : Nat) : value &&& 255 = value % 256 :=
  Nat.and_two_pow_sub_one_eq_mod value 8

variable {digit bits value : Nat} {char : Char} {bytes : List UInt8}

/-- A digit is found at its place in the alphabet. -/
theorem idxOf_base32Char (isDigit : digit < 32) :
    base32Alphabet.idxOf (base32Char digit) = digit := by
  have everyDigit : ∀ digit < 32, base32Alphabet.idxOf (base32Char digit) = digit := by decide
  exact everyDigit digit isDigit

/-- A digit that completes a byte. -/
theorem decodeFrom_full (value : Nat) (isDigit : digit < 32) (isFull : 3 ≤ bits)
    (rest : List Char) :
    decodeFrom value bits (base32Char digit :: rest) =
      (decodeFrom (value * 32 % 2 ^ 32 + digit) (bits - 3) rest).map
        (UInt8.ofNat ((value * 32 % 2 ^ 32 + digit) / 2 ^ (bits - 3) % 256) :: ·) := by
  have shifted := shiftIn_eq value (show digit < 2 ^ 5 from isDigit) (by decide)
  have fewer : bits + 5 - 8 = bits - 3 := by omega
  rw [decodeFrom]
  simp only [idxOf_base32Char isDigit, shifted, fewer, low_eight, Nat.shiftRight_eq_div_pow]
  rw [if_pos (by exact isDigit), if_pos (by omega)]
  rfl

/-- A digit that does not. -/
theorem decodeFrom_part (value : Nat) (isDigit : digit < 32) (notFull : bits < 3)
    (rest : List Char) :
    decodeFrom value bits (base32Char digit :: rest) =
      decodeFrom (value * 32 % 2 ^ 32 + digit) (bits + 5) rest := by
  have shifted := shiftIn_eq value (show digit < 2 ^ 5 from isDigit) (by decide)
  rw [decodeFrom]
  simp only [idxOf_base32Char isDigit, shifted]
  rw [if_pos (by exact isDigit), if_neg (by omega)]
  rfl

/-- One digit is drained, and then what is left. -/
theorem drain_digit (value : Nat) (isDigit : 5 ≤ bits) :
    drain value bits =
      (base32Char (value / 2 ^ (bits - 5) % 32) ::
          (drain value (bits - 5)).1,
        (drain value (bits - 5)).2) := by
  rw [drain, if_pos isDigit, low_five, Nat.shiftRight_eq_div_pow]

theorem drain_rest (value : Nat) (noDigit : bits < 5) : drain value bits = ([], bits) := by
  rw [drain, if_neg (by omega)]

/-- The byte that two registers hold the bits of. -/
def joined (first value bits : Nat) : List UInt8 :=
  if bits = 0 then
    []
  else
    [UInt8.ofNat (first % 2 ^ (8 - bits) * 2 ^ bits + value % 2 ^ bits)]

/-- The decoder's register and the encoder's hold a byte between them. -/
theorem decodeFrom_encodeFrom (bytes : List UInt8) (first value bits : Nat) (isRest : bits < 5) :
    decodeFrom first ((8 - bits) % 8) (encodeFrom value bits bytes) =
      .ok (joined first value bits ++ bytes) := by
  induction bytes generalizing first value bits with
  | nil =>
    rw [encodeFrom]
    by_cases isEmpty : bits = 0
    · subst isEmpty
      rfl
    · have places : 5 - bits ≤ 32 := by omega
      have padded := shiftIn_eq value (Nat.two_pow_pos (5 - bits)) places
      rw [if_pos (by omega), padded, low_five,
        decodeFrom_full _ (Nat.mod_lt _ (by decide)) (by omega), joined, if_neg isEmpty, decodeFrom]
      simp only [Except.map, append_nil]
      have isByte :
          (first * 32 % 2 ^ 32 + (value * 2 ^ (5 - bits) % 2 ^ 32 + 0) % 32)
              / 2 ^ ((8 - bits) % 8 - 3) % 256 =
            first % 2 ^ (8 - bits) * 2 ^ bits + value % 2 ^ bits := by
        interval_cases bits <;> simp only [Nat.reduceSub, Nat.reduceMod, Nat.reducePow] <;> omega
      rw [isByte]
  | cons byte rest ih =>
    have isByte := byte.toNat_lt
    have shifted :
        shiftIn value 8 byte.toNat = value * 256 % 2 ^ 32 + byte.toNat :=
      shiftIn_eq value isByte (by decide)
    have sameByte (number : Nat) (isSame : number = byte.toNat) : UInt8.ofNat number = byte := by
      rw [isSame, UInt8.ofNat_toNat]
    have twoBytes (first second number : Nat) (isFirst : first = number)
        (isSecond : second = byte.toNat) :
        Except.ok (ε := String)
            (UInt8.ofNat first :: UInt8.ofNat second :: rest) =
          .ok (UInt8.ofNat number :: byte :: rest) := by
      rw [isFirst, sameByte _ isSecond]
    rw [encodeFrom]
    simp only [shifted]
    generalize isRegister : value * 256 % 2 ^ 32 + byte.toNat = register
    interval_cases bits
    -- One digit is drained, or two, and each completes a byte or does not.
    · rw [drain_digit _ (by decide), drain_rest _ (by decide)]
      simp only [cons_append, nil_append, Nat.reduceAdd, Nat.reduceSub, Nat.reduceMod]
      rw [decodeFrom_part _ (Nat.mod_lt _ (by decide)) (by decide)]
      have continues := ih (first * 32 % 4294967296 + register / 8 % 32) register 3 (by decide)
      simp only [Nat.reduceSub, Nat.reduceMod, Nat.reducePow] at continues ⊢
      rw [continues]
      simp only [joined, OfNat.ofNat_ne_zero, if_false, if_true, Nat.reduceSub, Nat.reducePow]
      rw [sameByte _ (by omega)]
      rfl
    · rw [drain_digit _ (by decide), drain_rest _ (by decide)]
      simp only [cons_append, nil_append, Nat.reduceAdd, Nat.reduceSub, Nat.reduceMod]
      rw [decodeFrom_full _ (Nat.mod_lt _ (by decide)) (by decide)]
      have continues := ih (first * 32 % 4294967296 + register / 16 % 32) register 4 (by decide)
      simp only [Nat.reduceSub, Nat.reduceMod, Nat.reducePow] at continues ⊢
      rw [continues]
      simp only [Except.map, joined, OfNat.ofNat_ne_zero, one_ne_zero, if_false, Nat.reduceSub,
        Nat.reducePow, nil_append, cons_append]
      exact twoBytes _ _ _ (by omega) (by omega)
    · rw [drain_digit _ (by decide), drain_digit _ (by decide), drain_rest _ (by decide)]
      simp only [cons_append, nil_append, Nat.reduceAdd, Nat.reduceSub, Nat.reduceMod]
      rw [decodeFrom_full _ (Nat.mod_lt _ (by decide)) (by decide),
        decodeFrom_full _ (Nat.mod_lt _ (by decide)) (by decide)]
      have continues :=
        ih
          ((first * 32 % 4294967296 + register / 32 % 32) * 32 % 4294967296 + register / 1 % 32)
          register 0 (by decide)
      simp only [Nat.reduceSub, Nat.reduceMod, Nat.reducePow] at continues ⊢
      rw [continues]
      simp only [Except.map, joined, OfNat.ofNat_ne_zero, if_false, if_true,
        Nat.reduceSub, Nat.reducePow, nil_append, cons_append]
      exact twoBytes _ _ _ (by omega) (by omega)
    · rw [drain_digit _ (by decide), drain_digit _ (by decide), drain_rest _ (by decide)]
      simp only [cons_append, nil_append, Nat.reduceAdd, Nat.reduceSub, Nat.reduceMod]
      rw [decodeFrom_full _ (Nat.mod_lt _ (by decide)) (by decide),
        decodeFrom_part _ (Nat.mod_lt _ (by decide)) (by decide)]
      have continues :=
        ih
          ((first * 32 % 4294967296 + register / 64 % 32) * 32 % 4294967296 + register / 2 % 32)
          register 1 (by decide)
      simp only [Nat.reduceSub, Nat.reduceMod, Nat.reducePow] at continues ⊢
      rw [continues]
      simp only [Except.map, joined, OfNat.ofNat_ne_zero, if_false, Nat.reduceSub, Nat.reducePow,
        nil_append, cons_append]
      exact twoBytes _ _ _ (by omega) (by omega)
    · rw [drain_digit _ (by decide), drain_digit _ (by decide), drain_rest _ (by decide)]
      simp only [cons_append, nil_append, Nat.reduceAdd, Nat.reduceSub, Nat.reduceMod]
      rw [decodeFrom_full _ (Nat.mod_lt _ (by decide)) (by decide),
        decodeFrom_part _ (Nat.mod_lt _ (by decide)) (by decide)]
      have continues :=
        ih
          ((first * 32 % 4294967296 + register / 128 % 32) * 32 % 4294967296 + register / 4 % 32)
          register 2 (by decide)
      simp only [Nat.reduceSub, Nat.reduceMod, Nat.reducePow] at continues ⊢
      rw [continues]
      simp only [Except.map, joined, OfNat.ofNat_ne_zero, if_false, Nat.reduceSub, Nat.reducePow,
        nil_append, cons_append]
      exact twoBytes _ _ _ (by omega) (by omega)

/-! ## A secret in any spelling -/

/-- An ASCII letter in upper case. -/
def upperAscii (char : Char) : Char :=
  if 97 ≤ char.toNat ∧ char.toNat ≤ 122 then
    Char.ofNat (char.toNat - 32)
  else
    char

/-- What upper-casing does to ASCII and to white space. -/
def UpperCases (toUpperCase : List Char → List Char) : Prop :=
  ∀ text : List Char,
    (∀ char ∈ text, char.toNat < 128 ∨ isSpace char = true) →
    toUpperCase text = text.map upperAscii

/-- A text that is a code but for its spacing, its case and its padding. -/
def Spells (text code : String) : Prop :=
  ∃ padding, (withoutSpacing text.toList).map upperAscii = code.toList ++ List.replicate padding '='

/-- A letter has no spacing in either case. -/
theorem isSpacing_upperAscii (char : Char) : isSpacing (upperAscii char) = isSpacing char := by
  have everyLetter :
      ∀ letter < 26,
        isSpacing (Char.ofNat (97 + letter - 32)) = isSpacing (Char.ofNat (97 + letter)) := by
    decide
  unfold upperAscii
  split
  · rename_i isLower
    have isLetter := everyLetter (char.toNat - 97) (by omega)
    have sameCode : 97 + (char.toNat - 97) = char.toNat := by omega
    rw [sameCode, Char.ofNat_toNat] at isLetter
    exact isLetter
  · rfl

theorem withoutSpacing_upperAscii (text : List Char) :
    withoutSpacing (text.map upperAscii) = (withoutSpacing text).map upperAscii := by
  simp only [withoutSpacing, filter_map, Function.comp_def, isSpacing_upperAscii]

/-- The characters of a spelled code are ASCII. -/
theorem ascii_of_upperAscii (isAscii : (upperAscii char).toNat < 128) : char.toNat < 128 := by
  unfold upperAscii at isAscii
  split at isAscii
  · omega
  · exact isAscii

theorem mem_alphabet (digit : Nat) : base32Char digit ∈ base32Alphabet := by
  unfold base32Char
  rw [getD_eq_getElem?_getD]
  rcases Nat.lt_or_ge digit base32Alphabet.length with inside | outside
  · rw [List.getElem?_eq_getElem inside]
    exact getElem_mem inside
  · rw [List.getElem?_eq_none outside]
    decide

theorem mem_alphabet_of_drain (isDrained : char ∈ (drain value bits).1) :
    char ∈ base32Alphabet := by
  fun_induction drain value bits with
  | case1 bits isDigit rest ih =>
    rcases mem_cons.mp isDrained with rfl | inRest
    · exact mem_alphabet _
    · exact ih inRest
  | case2 bits noDigit => exact absurd isDrained not_mem_nil

/-- A code is written in the alphabet. -/
theorem mem_alphabet_of_encodeFrom (isWritten : char ∈ encodeFrom value bits bytes) :
    char ∈ base32Alphabet := by
  induction bytes generalizing value bits with
  | nil =>
    unfold encodeFrom at isWritten
    split at isWritten
    · rw [mem_singleton.mp isWritten]
      exact mem_alphabet _
    · exact absurd isWritten not_mem_nil
  | cons byte rest ih =>
    rcases mem_append.mp isWritten with inFirst | inRest
    · exact mem_alphabet_of_drain inFirst
    · exact ih inRest

/-- Padding after a code is dropped, and nothing of the code. -/
theorem withoutPadding_append {code : List Char} (isCode : ∀ char ∈ code, char ∈ base32Alphabet)
    (padding : Nat) :
    withoutPadding (code ++ List.replicate padding '=') = code := by
  have noPadding : (code.reverse.dropWhile (· = '=')) = code.reverse := by
    cases isReversed : code.reverse with
    | nil => rfl
    | cons last others =>
      have isLast : last ∈ base32Alphabet := by
        apply isCode
        rw [← mem_reverse, isReversed]
        exact mem_cons_self
      have notPadding : ¬last = '=' := by
        rintro rfl
        exact absurd isLast (by decide)
      simp [notPadding]
  have dropped :
      ∀ count : Nat,
        (List.replicate count '=' ++ code.reverse).dropWhile (· = '=') =
          code.reverse.dropWhile (· = '=') := by
    intro count
    induction count with
    | zero => rfl
    | succ count ih =>
      rw [replicate_succ, cons_append, dropWhile_cons]
      simp [ih]
  rw [withoutPadding, reverse_append, reverse_replicate,
    dropped, noPadding, reverse_reverse]

/-- A secret is read back from every spelling of its code. -/
theorem base32Decode_spelled {toUpperCase : List Char → List Char}
    (upperCases : UpperCases toUpperCase) {text : String}
    (isSpelled : Spells text (base32Encode bytes)) :
    base32Decode toUpperCase (some text) = .ok bytes := by
  obtain ⟨padding, isText⟩ := isSpelled
  rw [base32Encode, String.toList_ofList] at isText
  have isAscii : ∀ char ∈ text.toList, char.toNat < 128 ∨ isSpace char = true := by
    intro char inText
    by_cases isSpaced : isSpacing char = true
    · rcases of_decide_eq_true isSpaced with isWhite | rfl
      · exact .inr isWhite
      · exact .inl (by decide)
    · have isUpper : upperAscii char ∈ encodeFrom 0 0 bytes ++ List.replicate padding '=' := by
        rw [← isText]
        apply mem_map_of_mem
        exact mem_filter.mpr ⟨inText, by simpa using isSpaced⟩
      refine .inl (ascii_of_upperAscii ?_)
      rcases mem_append.mp isUpper with inCode | inPadding
      · have everyDigit : base32Alphabet.all (fun digit => digit.toNat < 128) = true := by
          decide
        simpa using all_eq_true.mp everyDigit _ (mem_alphabet_of_encodeFrom inCode)
      · rw [eq_of_mem_replicate inPadding]
        decide
  rw [base32Decode, Option.getD_some, upperCases _ isAscii, withoutSpacing_upperAscii, isText,
    withoutPadding_append fun _ => mem_alphabet_of_encodeFrom]
  exact decodeFrom_encodeFrom bytes 0 0 0 (by decide)

/-! ## The steps of a window -/

section Steps

variable
    {candidate : Nat → String}
    {centre : Int}
    {code : List Char}

/-- The step that was found first is kept. -/
theorem tryDrifts_found (steps : Nat) (drift : Int) (found : Nat × Int) :
    tryDrifts candidate centre code steps drift (some found) = some found := by
  induction steps generalizing drift with
  | zero => rfl
  | succ steps ih =>
    unfold tryDrifts
    simp only [reduceCtorEq, and_false, if_false, ite_self]
    exact ih _

/-- The lowest step that has the code is found. -/
theorem tryDrifts_eq_some_iff {steps : Nat} {drift : Int} {counter : Nat} {found : Int} :
    tryDrifts candidate centre code steps drift none =
        some (counter, found) ↔
      (counter : Int) = centre + found ∧ drift ≤ found ∧
        found < drift + steps ∧ (candidate counter).toList = code ∧
        ∀ lower : Nat, centre + drift ≤ lower → lower < counter →
          (candidate lower).toList ≠ code := by
  induction steps generalizing drift with
  | zero =>
    constructor
    · intro isFound
      exact absurd isFound (by simp [tryDrifts])
    · rintro ⟨_, notBefore, notAfter, _⟩
      omega
  | succ steps ih =>
    unfold tryDrifts
    simp only [and_true]
    by_cases isNegative : centre + drift < 0
    · rw [if_pos isNegative, ih]
      constructor
      · rintro ⟨isStep, notBefore, notAfter, hasCode, isLowest⟩
        exact
          ⟨isStep, by omega, by omega, hasCode, fun lower _ isLower =>
            isLowest lower (by omega) isLower⟩
      · rintro ⟨isStep, notBefore, notAfter, hasCode, isLowest⟩
        exact
          ⟨isStep, by omega, by omega, hasCode, fun lower _ isLower =>
            isLowest lower (by omega) isLower⟩
    · have isStep : ((centre + drift).toNat : Int) = centre + drift :=
        Int.toNat_of_nonneg (by omega)
      rw [if_neg isNegative]
      by_cases hasCode : (candidate (centre + drift).toNat).toList = code
      · rw [if_pos hasCode, tryDrifts_found]
        constructor
        · rintro ⟨rfl, rfl⟩
          exact ⟨isStep, by omega, by omega, hasCode, fun lower _ isLower => by omega⟩
        · rintro ⟨isCounter, notBefore, notAfter, _, isLowest⟩
          have isFirst : (centre + drift).toNat = counter := by
            by_contra isOther
            exact isLowest (centre + drift).toNat (by omega) (by omega) hasCode
          have sameDrift : drift = found := by omega
          rw [isFirst, sameDrift]
      · rw [if_neg hasCode, ih]
        constructor
        · rintro ⟨isCounter, notBefore, notAfter, found, isLowest⟩
          refine ⟨isCounter, by omega, by omega, found, ?_⟩
          intro lower notBefore isLower
          by_cases isFirst : (lower : Int) = centre + drift
          · have sameStep : (centre + drift).toNat = lower := by omega
            rw [← sameStep]
            exact hasCode
          · exact isLowest lower (by omega) isLower
        · rintro ⟨isCounter, notBefore, notAfter, foundCode, isLowest⟩
          have notFirst : found ≠ drift := by
            rintro rfl
            have sameStep : (centre + found).toNat = counter := by omega
            rw [sameStep] at hasCode
            exact hasCode foundCode
          exact
            ⟨isCounter, by omega, by omega, foundCode,
              fun lower _ isLower => isLowest lower (by omega) isLower⟩

end Steps

/-! ## One call -/

section Calls

variable
    (toUpperCase : List Char → List Char)
    (hotpCode : List UInt8 → Nat → Nat → String → String)
    (settings : TotpSettings)

/-- Whether a call's code has the shape of the record's codes. -/
def Shaped (record : TotpRecord) (call : Call) : Prop :=
  wellShaped call.code (orNumber record.digits settings.digits) = true

/-- A step of the call's window that has its code. -/
def Offers (record : TotpRecord) (call : Call) (counter : Nat) : Prop :=
  ∃ secret,
    base32Decode toUpperCase record.secret = .ok secret ∧
      counterAt call.now (orNumber record.period settings.period) -
          (call.window.getD settings.window : Nat) ≤ counter ∧
      counter ≤ counterAt call.now (orNumber record.period settings.period) +
          (call.window.getD settings.window : Nat) ∧
      (hotpCode secret counter (orNumber record.digits settings.digits)
        (orText record.algorithm settings.algorithm)).toList = call.code

/-- A step that was not spent: it is above the one spent last. -/
def Above (record : TotpRecord) (counter : Nat) : Prop :=
  ∀ last, record.lastCounter = some last → last < counter

/-- A call is accepted. -/
def Accepts (record : TotpRecord) (call : Call) : Prop :=
  ∃ counter drift, verify toUpperCase hotpCode settings record call = .ok counter drift

/-- A call is accepted for a fresh step exactly where one has its code. -/
structure Meets (record : TotpRecord) (call : Call) : Prop where
  accepts_iff :
    Shaped settings record call →
    (Accepts toUpperCase hotpCode settings record call ↔
      ∃ counter, Offers toUpperCase hotpCode settings record call counter ∧ Above record counter)
  isAbove :
    ∀ counter drift,
      verify toUpperCase hotpCode settings record call = .ok counter drift →
      Above record counter

/--
The steps that share the call's code are all spent or all fresh, and step zero
is not among them once it is spent.
-/
structure Separate (record : TotpRecord) (call : Call) : Prop where
  oneSide :
    ∀ counter other,
      Offers toUpperCase hotpCode settings record call counter →
      Offers toUpperCase hotpCode settings record call other →
      (Above record counter ↔ Above record other)
  notZero : record.lastCounter = some 0 → ¬Offers toUpperCase hotpCode settings record call 0

variable
    {toUpperCase : List Char → List Char}
    {hotpCode : List UInt8 → Nat → Nat → String → String}
    {settings : TotpSettings}
    {record : TotpRecord}
    {call : Call}

/-- With a secret, the steps are those of the window that have the code. -/
theorem offers_iff {secret : List UInt8}
    (isSecret : base32Decode toUpperCase record.secret = .ok secret) {counter : Nat} :
    Offers toUpperCase hotpCode settings record call counter ↔
      counterAt call.now (orNumber record.period settings.period) -
          (call.window.getD settings.window : Nat) ≤ counter ∧
      counter ≤ counterAt call.now (orNumber record.period settings.period) +
          (call.window.getD settings.window : Nat) ∧
      (hotpCode secret counter (orNumber record.digits settings.digits)
        (orText record.algorithm settings.algorithm)).toList =
        call.code := by
  unfold Offers
  rw [isSecret]
  simp only [Except.ok.injEq, exists_eq_left']

/-- The loop finds the lowest step that has the code. -/
theorem lowest_found {secret : List UInt8}
    (isSecret : base32Decode toUpperCase record.secret = .ok secret) (counter : Nat) (drift : Int) :
    tryDrifts
        (hotpCode secret · (orNumber record.digits settings.digits)
          (orText record.algorithm settings.algorithm))
        (counterAt call.now (orNumber record.period settings.period))
        call.code (2 * call.window.getD settings.window + 1)
        (-(call.window.getD settings.window : Nat)) none =
        some (counter, drift) ↔
      Offers toUpperCase hotpCode settings record call counter ∧
        (∀ other, Offers toUpperCase hotpCode settings record call other → counter ≤ other) ∧
        drift = counter - counterAt call.now (orNumber record.period settings.period) := by
  rw [tryDrifts_eq_some_iff]
  simp only [offers_iff isSecret]
  constructor
  · rintro ⟨isStep, notBefore, notAfter, hasCode, isLowest⟩
    refine ⟨⟨by omega, by omega, hasCode⟩, ?_, by omega⟩
    rintro other ⟨notLower, _, otherCode⟩
    by_contra isLower
    exact isLowest other (by omega) (by omega) otherCode
  · rintro ⟨⟨notBefore, notAfter, hasCode⟩, isLowest, isDrift⟩
    refine ⟨by omega, by omega, by omega, hasCode, ?_⟩
    intro lower notLower isLower otherCode
    have := isLowest lower ⟨by omega, by omega, otherCode⟩
    omega

variable {counter : Nat}

/-- A call is answered with the lowest step that has its code. -/
theorem verify_eq_ok_iff {drift : Int} :
    verify toUpperCase hotpCode settings record call = .ok counter drift ↔
      Shaped settings record call ∧
        Offers toUpperCase hotpCode settings record call counter ∧
        (∀ other, Offers toUpperCase hotpCode settings record call other → counter ≤ other) ∧
        (record.lastCounter.getD 0 = 0 ∨ record.lastCounter.getD 0 < counter) ∧
        drift = counter - counterAt call.now (orNumber record.period settings.period) := by
  unfold verify Shaped
  simp only [Bool.not_eq_true']
  by_cases isShaped : wellShaped call.code (orNumber record.digits settings.digits) = true
  · rw [if_neg (by simp [isShaped])]
    cases isSecret : base32Decode toUpperCase record.secret with
    | error _ => simp [Offers, isSecret]
    | ok secret =>
      have found :=
        @lowest_found toUpperCase hotpCode settings record call secret isSecret counter drift
      simp only [isShaped, true_and]
      constructor
      · intro isOk
        split at isOk
        · exact absurd isOk (by simp)
        · rename_i step place isFound
          split at isOk
          · exact absurd isOk (by simp)
          · rename_i notSpent
            rw [VerifyResult.ok.injEq] at isOk
            obtain ⟨rfl, rfl⟩ := isOk
            obtain ⟨isOffered, isLowest, isDrift⟩ := found.mp isFound
            exact ⟨isOffered, isLowest, by omega, isDrift⟩
      · rintro ⟨isOffered, isLowest, notSpent, isDrift⟩
        rw [found.mpr ⟨isOffered, isLowest, isDrift⟩]
        exact if_neg (by omega)
  · rw [if_pos (by simpa using isShaped)]
    simp [isShaped]

/-- Where any step has the code, a lowest one does. -/
theorem exists_lowest (isOffered : Offers toUpperCase hotpCode settings record call counter) :
    ∃ lowest,
      Offers toUpperCase hotpCode settings record call lowest ∧
        ∀ other, Offers toUpperCase hotpCode settings record call other → lowest ≤ other := by
  classical
  have isSome :
      ∃ step, Offers toUpperCase hotpCode settings record call step :=
    ⟨counter, isOffered⟩
  exact
    ⟨Nat.find isSome, Nat.find_spec isSome, fun other isOther => Nat.find_min' isSome isOther⟩

/-- A call meets the claim exactly where its steps are separate. -/
theorem meets_iff :
    Meets toUpperCase hotpCode settings record call ↔
      (Shaped settings record call → Separate toUpperCase hotpCode settings record call) := by
  constructor
  · intro meets isShaped
    have acceptsIff := meets.accepts_iff isShaped
    -- The lowest step decides: refused as spent, or answered.
    have ofLowest (lowest : Nat)
        (isOffered : Offers toUpperCase hotpCode settings record call lowest)
        (isLowest :
          ∀ other, Offers toUpperCase hotpCode settings record call other → lowest ≤ other)
        (notSpent : record.lastCounter.getD 0 = 0 ∨ record.lastCounter.getD 0 < lowest) :
        Above record lowest :=
      meets.isAbove lowest _ (verify_eq_ok_iff.mpr ⟨isShaped, isOffered, isLowest, notSpent, rfl⟩)
    have fromLowest (lowest step : Nat)
        (isOffered : Offers toUpperCase hotpCode settings record call lowest)
        (isLowest :
          ∀ other, Offers toUpperCase hotpCode settings record call other → lowest ≤ other)
        (isStep : Offers toUpperCase hotpCode settings record call step)
        (isAbove : Above record step) :
        Above record lowest := by
      obtain ⟨counter, drift, isOk⟩ := acceptsIff.mpr ⟨step, isStep, isAbove⟩
      have answered := verify_eq_ok_iff.mp isOk
      have sameStep : counter = lowest :=
        Nat.le_antisymm (answered.2.2.1 _ isOffered) (isLowest _ answered.2.1)
      rw [← sameStep]
      exact meets.isAbove counter drift isOk
    constructor
    · have oneWay (counter other : Nat)
          (isCounter : Offers toUpperCase hotpCode settings record call counter)
          (isOther : Offers toUpperCase hotpCode settings record call other)
          (isAbove : Above record counter) :
          Above record other := by
        obtain ⟨lowest, isOffered, isLowest⟩ := exists_lowest isCounter
        have lowestAbove := fromLowest lowest counter isOffered isLowest isCounter isAbove
        intro last isLast
        exact Nat.lt_of_lt_of_le (lowestAbove last isLast) (isLowest other isOther)
      intro counter other isCounter isOther
      exact ⟨oneWay counter other isCounter isOther, oneWay other counter isOther isCounter⟩
    · intro isZero offersZero
      have isAbove := ofLowest 0 offersZero (fun _ _ => Nat.zero_le _) (.inl (by rw [isZero]; rfl))
      exact Nat.lt_irrefl 0 (isAbove 0 isZero)
  · intro separate
    constructor
    · intro isShaped
      obtain ⟨oneSide, notZero⟩ := separate isShaped
      constructor
      · rintro ⟨counter, drift, isOk⟩
        obtain ⟨_, isOffered, _, notSpent, _⟩ := verify_eq_ok_iff.mp isOk
        refine ⟨counter, isOffered, ?_⟩
        intro last isLast
        rw [isLast, Option.getD_some] at notSpent
        rcases notSpent with rfl | isLess
        · apply Nat.pos_of_ne_zero
          rintro rfl
          exact notZero isLast isOffered
        · exact isLess
      · rintro ⟨counter, isCounter, isAbove⟩
        obtain ⟨lowest, isOffered, isLowest⟩ := exists_lowest isCounter
        have lowestAbove := (oneSide counter lowest isCounter isOffered).mp isAbove
        refine ⟨lowest, _, verify_eq_ok_iff.mpr ⟨isShaped, isOffered, isLowest, ?_, rfl⟩⟩
        cases isLast : record.lastCounter with
        | none => exact .inl rfl
        | some last => exact .inr (lowestAbove last isLast)
    · intro counter drift isOk last isLast
      obtain ⟨isShaped, isOffered, _, notSpent, _⟩ := verify_eq_ok_iff.mp isOk
      rw [isLast, Option.getD_some] at notSpent
      rcases notSpent with rfl | isLess
      · apply Nat.pos_of_ne_zero
        rintro rfl
        exact (separate isShaped).notZero isLast isOffered
      · exact isLess

end Calls

/-! ## Runs of calls -/

section Runs

variable
    (toUpperCase : List Char → List Char)
    (hotpCode : List UInt8 → Nat → Nat → String → String)
    (settings : TotpSettings)

/-- A property of every call of a run, at the record the call meets. -/
def EveryCall (holds : TotpRecord → Call → Prop) :
    TotpRecord → List Call → Prop
  | _, [] => True
  | record, call :: rest =>
    holds record call ∧ EveryCall holds (spend toUpperCase hotpCode settings record call) rest

variable
    {toUpperCase : List Char → List Char}
    {hotpCode : List UInt8 → Nat → Nat → String → String}
    {settings : TotpSettings}

variable {calls : List Call}

theorem everyCall_mono {holds weaker : TotpRecord → Call → Prop}
    (implies : ∀ record call, holds record call → weaker record call) {record : TotpRecord}
    (held : EveryCall toUpperCase hotpCode settings holds record calls) :
    EveryCall toUpperCase hotpCode settings weaker record calls := by
  induction calls generalizing record with
  | nil => trivial
  | cons call rest ih => exact ⟨implies _ _ held.1, ih held.2⟩

/-- Where calls meet the claim, their counters rise, above the one before. -/
theorem acceptedCounters_rise {record : TotpRecord}
    (meet :
      EveryCall toUpperCase hotpCode settings
        (Meets toUpperCase hotpCode settings) record calls) :
    (acceptedCounters toUpperCase hotpCode settings record calls).Pairwise
        (· < ·) ∧
      ∀ counter ∈ acceptedCounters toUpperCase hotpCode settings record calls,
        Above record counter := by
  induction calls generalizing record with
  | nil => exact ⟨List.Pairwise.nil, forall_mem_nil _⟩
  | cons call rest ih =>
    obtain ⟨rises, areAbove⟩ := ih meet.2
    unfold acceptedCounters
    unfold spend at rises areAbove ⊢
    cases isAnswer :
        verify toUpperCase hotpCode settings record call with
    | refused _ _ _ _ =>
      simp only [isAnswer] at rises areAbove ⊢
      exact ⟨rises, areAbove⟩
    | ok counter drift =>
      simp only [isAnswer] at rises areAbove ⊢
      have isAbove := meet.1.isAbove counter drift isAnswer
      have isLater :
          ∀ later ∈ acceptedCounters toUpperCase hotpCode settings
              { record with lastCounter := some counter } rest,
            counter < later :=
        fun later isAccepted => areAbove later isAccepted counter rfl
      refine ⟨pairwise_cons.mpr ⟨isLater, rises⟩, ?_⟩
      intro accepted isAccepted
      rcases mem_cons.mp isAccepted with rfl | inRest
      · exact isAbove
      · intro last isLast
        exact Nat.lt_trans (isAbove last isLast) (isLater _ inRest)

/--
A call meets the claim exactly where the steps of its window that have its code
are on one side of the step spent last, step zero apart once it is spent.  In a
run of such calls the counters accepted rise strictly.  A secret is read back
from every spelling of its code.
-/
theorem codes_are_spent_in_order (upperCases : UpperCases toUpperCase) :
    (∀ record call,
      Meets toUpperCase hotpCode settings record call ↔
        (Shaped settings record call → Separate toUpperCase hotpCode settings record call)) ∧
      (∀ record calls,
        EveryCall toUpperCase hotpCode settings
          (fun record call =>
            Shaped settings record call →
            Separate toUpperCase hotpCode settings record call)
          record calls →
        (acceptedCounters toUpperCase hotpCode settings record
            calls).Pairwise (· < ·) ∧
          (∀ counter ∈
              acceptedCounters toUpperCase hotpCode settings record calls,
            Above record counter) ∧
          EveryCall toUpperCase hotpCode settings
            (Meets toUpperCase hotpCode settings) record calls) ∧
      ∀ bytes text,
        Spells text (base32Encode bytes) →
        base32Decode toUpperCase (some text) = .ok bytes := by
  refine ⟨fun _ _ => meets_iff, ?_, fun _ _ => base32Decode_spelled upperCases⟩
  intro record calls separate
  have meet := everyCall_mono (fun _ _ => meets_iff.mpr) separate
  obtain ⟨rises, areAbove⟩ := acceptedCounters_rise meet
  exact ⟨rises, areAbove, meet⟩

end Runs

/-! ## Samples -/

/-- A truncation that gives two steps one code. -/
def sampleHotp (_ : List UInt8) (counter _ : Nat) (_ : String) : String :=
  if counter = 0 ∨ counter = 5 ∨ counter = 6 then "123456" else "000000"

def sampleSettings : TotpSettings :=
  { digits := 6, period := 30, algorithm := "SHA1", window := 1 }

def sampleRecord (lastCounter : Option Nat) : TotpRecord where
  secret := some "MY"
  digits := none
  period := none
  algorithm := none
  lastCounter := lastCounter

/-- The code presented in a step. -/
def sampleCall (step : Nat) : Call where
  presented := some "123 456"
  moment := none
  window := none
  clock := 30000 * step + 1

/-- The theorem of a secret's spelling, of one call and of a run of it. -/
theorem samples_are_spent_in_order :
    (Meets (List.map upperAscii) sampleHotp sampleSettings (sampleRecord none)
        (sampleCall 6) ↔
      (Shaped sampleSettings (sampleRecord none) (sampleCall 6) →
        Separate (List.map upperAscii) sampleHotp sampleSettings
          (sampleRecord none) (sampleCall 6))) ∧
      (acceptedCounters (List.map upperAscii) sampleHotp sampleSettings
        (sampleRecord none) [sampleCall 6]).Pairwise (· < ·) ∧
      base32Decode (List.map upperAscii) (some " m-y==") = .ok [0x66] := by
  have spent :=
    @codes_are_spent_in_order (List.map upperAscii) sampleHotp sampleSettings (fun _ _ => rfl)
  have isSpelled : Spells " m-y==" (base32Encode [0x66]) := by
    refine ⟨2, ?_⟩
    rw [base32Encode, encodeFrom, drain_digit _ (by decide), drain_rest _ (by decide), encodeFrom]
    decide
  refine
    ⟨spent.1 _ _, (spent.2.1 (sampleRecord none) [sampleCall 6] ⟨?_, trivial⟩).1,
      spent.2.2 _ _ isSpelled⟩
  intro _
  constructor
  · intro counter other _ _
    constructor
    · intro _ last isLast
      exact absurd isLast (by simp [sampleRecord])
    · intro _ last isLast
      exact absurd isLast (by simp [sampleRecord])
  · intro isZero
    exact absurd isZero (by simp [sampleRecord])

/--
A fresh step shares its code with the one spent last and is refused as spent;
step zero is spent twice.
-/
theorem fresh_code_refused :
    verify (List.map upperAscii) sampleHotp sampleSettings
        (sampleRecord (some 5)) (sampleCall 6) =
      .refused "replay"
        ("That code has already been used. Wait for your " ++ "authenticator to show the next one.")
        "STS-AUTHN-0106" (some 5) ∧
      (sampleHotp [0x66] 6 6 "SHA1").toList = (sampleCall 6).code ∧
      Above (sampleRecord (some 5)) 6 ∧
      acceptedCounters (List.map upperAscii) sampleHotp sampleSettings
        (sampleRecord none) [sampleCall 0, sampleCall 0] = [0, 0] := by
  refine ⟨by decide +kernel, by decide +kernel, ?_, by decide +kernel⟩
  rintro last isLast
  rw [sampleRecord, Option.some.injEq] at isLast
  omega

end IyaSts.Totp
