import IyaSts.SetOperations
import IyaSts.XacmlDatatypes

namespace IyaSts.XacmlDatatypes

open Binary64 SetOperations

/-!
# Where a datatype's equality is one

On the values that a row's `parse` answers, its `equal` is an equivalence, and bags of
them are sets, except where a port is `NaN`, which is not itself, and where the days of
a date are, which then is every other.
-/

/-! ## What is claimed -/

section Claims

variable (toLowerCase : List Char → List Char)

/-- A value that a row's `parse` answers. -/
structure Parsed (type : Datatype) where
  value : type.Value
  lexical : List Char
  accepted : type.parse toLowerCase lexical = some value

variable {toLowerCase}

/-- Equality, as far as it is about one value. -/
structure LawfulAt {type : Datatype} (one : Parsed toLowerCase type) : Prop where
  refl : type.equal toLowerCase one.value one.value = true
  symm :
    ∀ other : Parsed toLowerCase type,
      type.equal toLowerCase one.value other.value = type.equal toLowerCase other.value one.value
  trans :
    ∀ first third : Parsed toLowerCase type,
      type.equal toLowerCase first.value one.value = true →
        type.equal toLowerCase one.value third.value = true →
          type.equal toLowerCase first.value third.value = true

/-- A range without an end that is no number. -/
def SoundPorts (ports : Ports) : Prop :=
  (∀ low, ports.low = some low → low.isNaN = false) ∧
    ∀ high, ports.high = some high → high.isNaN = false

/-- A date whose days can be counted. -/
def SoundDate (value : DateTimeish) : Prop :=
  (daysFromCivil value.year value.month value.day).isNaN = false

/-- A value that is equal to itself only and to which only itself is. -/
def Datatype.Sound : (type : Datatype) → type.Value → Prop
  | .date => SoundDate
  | .dateTime => SoundDate
  | .dnsName => fun value => SoundPorts (DnsName.ports value)
  | .ipAddress => fun value => SoundPorts (IpAddress.ports value)
  | _ => fun _ => True

end Claims

/-! ## Numbers -/

theorem strictEqual_symm (a b : Number) : a.strictEqual b = b.strictEqual a := by
  rw [Bool.eq_iff_iff, Number.strictEqual_iff, Number.strictEqual_iff]
  constructor
  · rintro ⟨notNaN, notNaN', same⟩
    exact ⟨notNaN', notNaN, same.symm⟩
  · rintro ⟨notNaN, notNaN', same⟩
    exact ⟨notNaN', notNaN, same.symm⟩

theorem strictEqual_trans {a b c : Number} (first : a.strictEqual b = true)
    (second : b.strictEqual c = true) :
    a.strictEqual c = true := by
  rw [Number.strictEqual_iff] at first second ⊢
  exact ⟨first.1, second.2.1, first.2.2.trans second.2.2⟩

theorem strictEqual_self (a : Number) : a.strictEqual a = true ↔ a.isNaN = false := by
  rw [Number.strictEqual_iff]
  simp

theorem place_of_isNaN {a : Number} (isNaN : a.isNaN = true) : a.place = 0 := by
  cases a with
  | nan => rfl
  | _ => cases isNaN

theorem doubleEqual_iff (a b : Number) :
    doubleEqual a b = true ↔ a.isNaN = b.isNaN ∧ a.place = b.place := by
  unfold doubleEqual
  cases isNaN : a.isNaN with
  | false =>
    rw [Bool.false_and, if_neg (by decide), Number.strictEqual_iff, isNaN,
      eq_self, true_and, eq_comm (a := b.isNaN)]
  | true =>
    cases isNaN' : b.isNaN with
    | false =>
      rw [Bool.and_false, if_neg (by decide), Number.strictEqual_iff, isNaN]
      simp
    | true =>
      rw [place_of_isNaN isNaN, place_of_isNaN isNaN']
      simp

/-! ## Texts and names -/

section Texts

variable {Value : Type} [DecidableEq Value]

theorem sameValue_iff (a b : Value) : sameValue a b = true ↔ a = b := by simp [sameValue]

end Texts

theorem x500Equal_iff (toLowerCase : List Char → List Char) (left right : List Rdn) :
    x500Equal toLowerCase left right = true ↔
      left.map (fun rdn => (rdn.attributeType, toLowerCase rdn.value)) =
        right.map fun rdn => (rdn.attributeType, toLowerCase rdn.value) := by
  induction left generalizing right with
  | nil => cases right <;> simp [x500Equal]
  | cons first rest ih =>
    cases right with
    | nil => simp [x500Equal]
    | cons first' rest' =>
      have later := ih rest'
      simp only [x500Equal, Bool.and_eq_true, beq_iff_eq] at later
      simp only [x500Equal, List.length_cons, List.zip_cons_cons, List.all_cons, Bool.and_eq_true,
        beq_iff_eq, List.map_cons, List.cons.injEq, Prod.mk.injEq, add_left_inj, ← later]
      tauto

/-! ## Dates and times -/

/-- When a time is, in a timezone. -/
def moment (value : DateTimeish) (tz : Int) : WithTop (WithBot ℚ) :=
  ((localSeconds value).sub (.ofInt (tz * 60))).place

theorem signOf_eq_iff (a b : Number) :
    signOf a b = .eq ↔ a.isNaN = true ∨ b.isNaN = true ∨ a.place = b.place := by
  cases isNaN : a.isNaN with
  | true => simp [signOf, Number.less, isNaN]
  | false =>
    cases isNaN' : b.isNaN with
    | true => simp [signOf, Number.less, isNaN']
    | false =>
      simp only [signOf, Number.less, isNaN, isNaN', Bool.not_false,
        Bool.true_and, decide_eq_true_eq, Bool.false_eq_true, false_or]
      rcases lt_trichotomy a.place b.place with isLess | isSame | isMore
      · simp [isLess, isLess.ne]
      · simp [isSame]
      · simp [isMore, isMore.not_gt, isMore.ne']

section Temporal

variable {a b c : DateTimeish}

/-- A time at no moment is any time. -/
theorem temporalEqual_of_isNaN
    (isNaN :
      (localSeconds a).isNaN = true ∨ (localSeconds b).isNaN = true) :
    temporalEqual a b = true := by
  have each (tz tz' : Int) : signOf (instantSeconds a tz) (instantSeconds b tz') = .eq := by
    rw [signOf_eq_iff, instantSeconds, instantSeconds,
      Number.isNaN_sub_ofInt, Number.isNaN_sub_ofInt]
    rcases isNaN with isNaN | isNaN
    · exact .inl isNaN
    · exact .inr (.inl isNaN)
  unfold temporalEqual compareTemporal
  simp [each]

theorem temporalEqual_iff (isNumber : (localSeconds a).isNaN = false)
    (isNumber' : (localSeconds b).isNaN = false) :
    temporalEqual a b = true ↔
      if a.tz.isSome = b.tz.isSome then
        moment a (a.tz.getD 0) = moment b (b.tz.getD 0)
      else
        moment a (a.tz.getD 840) = moment b (b.tz.getD 840) ∧
          moment a (a.tz.getD (-840)) = moment b (b.tz.getD (-840)) := by
  have each (tz tz' : Int) :
      signOf (instantSeconds a tz) (instantSeconds b tz') = .eq ↔
        moment a (a.tz.getD tz) = moment b (b.tz.getD tz') := by
    rw [signOf_eq_iff, instantSeconds, instantSeconds,
      Number.isNaN_sub_ofInt, Number.isNaN_sub_ofInt, isNumber, isNumber']
    simp [moment]
  unfold temporalEqual compareTemporal
  split
  · rw [beq_iff_eq, Option.some.injEq, each]
  · rw [beq_iff_eq, ← each, ← each]
    simp only
    split
    · rename_i same
      rw [Option.some.injEq]
      constructor
      · intro isEq
        exact ⟨isEq, same ▸ isEq⟩
      · exact And.left
    · rename_i differ
      refine iff_of_false (by simp) fun both => differ ?_
      exact both.1.trans both.2.symm

theorem isDouble_localSeconds (value : DateTimeish) : Number.IsDouble (localSeconds value) :=
  Number.isDouble_add _ _

/-- Two moments that are the same are in every timezone. -/
theorem moment_congr (isNumber : (localSeconds a).isNaN = false)
    (isNumber' : (localSeconds b).isNaN = false) (same : moment a 0 = moment b 0) (tz : Int) :
    moment a tz = moment b tz := by
  unfold moment at same ⊢
  rw [zero_mul, Number.place_sub_zero (isDouble_localSeconds a),
    Number.place_sub_zero (isDouble_localSeconds b)] at same
  exact Number.place_sub_congr isNumber isNumber' same _

/-- East of here it is earlier. -/
theorem moment_between (isNumber : (localSeconds a).isNaN = false) :
    moment a 840 ≤ moment a 0 ∧ moment a 0 ≤ moment a (-840) :=
  ⟨Number.place_sub_anti isNumber (by norm_num), Number.place_sub_anti isNumber (by norm_num)⟩

/-- What two equal times share: that their timezone is known, or does not matter, and
when they are. -/
def key (value : DateTimeish) : Bool × WithTop (WithBot ℚ) :=
  match value.tz with
  | some tz => (true, moment value tz)
  | none => (decide (moment value 840 = moment value (-840)), moment value 0)

theorem temporalEqual_iff_key (isNumber : (localSeconds a).isNaN = false)
    (isNumber' : (localSeconds b).isNaN = false) :
    temporalEqual a b = true ↔ key a = key b := by
  have mixed {value : DateTimeish} {at' : WithTop (WithBot ℚ)}
      (isNumber : (localSeconds value).isNaN = false) :
      (at' = moment value 840 ∧ at' = moment value (-840)) ↔
        moment value 840 = moment value (-840) ∧ at' = moment value 0 := by
    obtain ⟨before, after⟩ := moment_between isNumber
    constructor
    · rintro ⟨isFirst, isLast⟩
      have same := isFirst.symm.trans isLast
      exact ⟨same, le_antisymm (isFirst.trans_le before) (after.trans_eq isLast.symm)⟩
    · rintro ⟨same, isNow⟩
      have isFirst : moment value 840 = moment value 0 :=
        le_antisymm before (after.trans_eq same.symm)
      exact ⟨isNow.trans isFirst.symm, isNow.trans (isFirst.symm.trans same)⟩
  rw [temporalEqual_iff isNumber isNumber']
  unfold key
  cases isTz : a.tz with
  | some tz =>
    cases isTz' : b.tz with
    | some tz' => simp
    | none =>
      simp only [Option.isSome_some, Option.isSome_none, Bool.true_eq_false, if_false,
        Option.getD_some, Option.getD_none, Prod.mk.injEq, mixed isNumber', true_eq_decide_iff]
  | none =>
    cases isTz' : b.tz with
    | some tz' =>
      simp only [Option.isSome_some, Option.isSome_none, Bool.false_eq_true, if_false,
        Option.getD_some, Option.getD_none, Prod.mk.injEq, decide_eq_true_eq,
        eq_comm (b := moment b tz'), mixed isNumber]
    | none =>
      simp only [Option.isSome_none, if_true, Option.getD_none, Prod.mk.injEq]
      constructor
      · intro same
        have each := moment_congr isNumber isNumber' same
        rw [each, each, each]
        exact ⟨rfl, rfl⟩
      · exact And.right

end Temporal

/-! ## Times that were parsed -/

/-- What `parseDateTimeish` has checked. -/
structure Checked (shape : Shape) (value : DateTimeish) : Prop where
  shape : value.shape = shape
  hour : value.hour ≤ 24
  minute : value.minute ≤ 59
  second : ∃ exact, value.second = .finite false exact ∧ exact < 61

theorem isUnsigned_timePart {text rest : List Char} {hour minute : Nat} {second : Number}
    (isPart : timePart text = some (hour, minute, second, rest)) :
    second.isUnsigned = true := by
  simp only [timePart, Option.bind_eq_bind, Option.bind_eq_some_iff] at isPart
  obtain ⟨_, -, _, -, ⟨whole, fraction, _⟩, -, isPart⟩ := isPart
  rw [Option.ite_none_right_eq_some] at isPart
  obtain ⟨-, isPart⟩ := isPart
  cases isPart
  exact Number.isUnsigned_round _

variable {shape : Shape} {value : DateTimeish}

theorem groups_spec {text : List Char} (isGroups : dateTimeGroups shape text = some value) :
    value.shape = shape ∧ value.second.isUnsigned = true := by
  cases shape with
  | date =>
    simp only [dateTimeGroups, Option.bind_eq_bind, Option.bind_eq_some_iff]
      at isGroups
    obtain ⟨_, -, _, -, isGroups⟩ := isGroups
    cases isGroups
    exact ⟨rfl, rfl⟩
  | time =>
    simp only [dateTimeGroups, Option.bind_eq_bind, Option.bind_eq_some_iff]
      at isGroups
    obtain ⟨⟨_, _, _, _⟩, isPart, _, -, isGroups⟩ := isGroups
    cases isGroups
    exact ⟨rfl, isUnsigned_timePart isPart⟩
  | dateTime =>
    simp only [dateTimeGroups, Option.bind_eq_bind, Option.bind_eq_some_iff]
      at isGroups
    obtain ⟨_, -, isGroups⟩ := isGroups
    split at isGroups
    · simp only [Option.bind_eq_some_iff] at isGroups
      obtain ⟨⟨_, _, _, _⟩, isPart, _, -, isGroups⟩ := isGroups
      cases isGroups
      exact ⟨rfl, isUnsigned_timePart isPart⟩
    · cases isGroups

theorem checked_of_parse {lexical : List Char}
    (parses : parseDateTimeish lexical shape = some value) :
    Checked shape value := by
  simp only [parseDateTimeish, Option.bind_eq_bind, Option.bind_eq_some_iff]
    at parses
  obtain ⟨value', isGroups, checked⟩ := parses
  rw [Option.ite_none_left_eq_some] at checked
  obtain ⟨fine, isValue⟩ := checked
  cases isValue
  obtain ⟨isShape, unsigned⟩ := groups_spec isGroups
  simp only [not_or, not_lt, Bool.not_eq_false] at fine
  obtain ⟨-, -, -, -, hour, minute, second⟩ := fine
  refine ⟨isShape, hour, minute, ?_⟩
  rw [Number.less_iff] at second
  obtain ⟨-, -, isLess⟩ := second
  cases isSecond : value.second with
  | nan =>
    rw [isSecond] at unsigned
    cases unsigned
  | infinite negative =>
    rw [isSecond] at unsigned isLess
    cases negative with
    | true => cases unsigned
    | false => exact absurd isLess not_top_lt
  | finite negative exact =>
    rw [isSecond] at unsigned isLess
    cases negative with
    | true => cases unsigned
    | false =>
      refine ⟨exact, rfl, ?_⟩
      have bound : (Number.ofInt 61).place = (((61 : ℚ) : WithBot ℚ) : WithTop (WithBot ℚ)) := by
        have isPlace := Number.place_natCast 61
        norm_cast at isPlace ⊢
      rw [bound, Number.place, WithTop.coe_lt_coe, WithBot.coe_lt_coe]
        at isLess
      exact_mod_cast isLess

/-- The time of day is a number. -/
theorem timeOfDay_finite (checked : Checked shape value) :
    ∃ negative exact,
      (Number.ofInt (value.hour * 3600 + value.minute * 60)).add value.second =
        .finite negative exact := by
  obtain ⟨second, isSecond, isLess⟩ := checked.second
  have isSum :
      (value.hour * 3600 + value.minute * 60 : Int) =
        ((value.hour * 3600 + value.minute * 60 : ℕ) : Int) := by
    push_cast
    rfl
  rw [isSum, Number.ofInt_natCast, isSecond]
  simp only [Number.add]
  split
  · exact ⟨_, _, rfl⟩
  · have isSmall :
        (Number.exactly false ((value.hour * 3600 + value.minute * 60 : ℕ) : ℚ≥0) +
            Number.exactly false second).nnabs ≤ ((2 ^ 52 : ℕ) : ℚ≥0) := by
      have hour := checked.hour
      have minute := checked.minute
      have whole : value.hour * 3600 + value.minute * 60 ≤ 100000 := by omega
      have whole' : (((value.hour * 3600 + value.minute * 60 : ℕ) : ℚ≥0) : ℚ) ≤ 100000 := by
        exact_mod_cast whole
      have isLess' : (second : ℚ) < 61 := by exact_mod_cast isLess
      have notNegative := second.coe_nonneg
      have notNegative' := ((value.hour * 3600 + value.minute * 60 : ℕ) : ℚ≥0).coe_nonneg
      rw [← NNRat.coe_le_coe, Rat.coe_nnabs, Number.exactly, Number.exactly, if_neg (by decide),
        if_neg (by decide), abs_of_nonneg (by linarith)]
      have large : (((2 ^ 52 : ℕ) : ℚ≥0) : ℚ) = 4503599627370496 := by norm_num
      rw [large]
      linarith
    obtain ⟨rounded, isRounded⟩ := Number.round_finite isSmall _
    exact ⟨_, _, isRounded⟩

/-- A time is counted where its days are. -/
theorem isNaN_localSeconds (checked : Checked shape value) :
    (localSeconds value).isNaN =
      if shape = .time then
        false
      else
        (daysFromCivil value.year value.month value.day).isNaN := by
  obtain ⟨negative, exact, isTime⟩ := timeOfDay_finite checked
  unfold localSeconds
  simp only
  rw [isTime, Number.isNaN_add_finite, checked.shape]
  split
  · rfl
  · rw [Number.ofInt, Number.isNaN_finite_add, Number.isNaN_mul_ofInt (by decide)]

/-! ## Two days that differ -/

/-- A day of March 2000, where the cycle of the calendar starts. -/
def marchDay (shape : Shape) (day : Nat) : DateTimeish where
  shape := shape
  year := .ofInt 2000
  month := 3
  day := day
  hour := 0
  minute := 0
  second := .ofInt 0
  tz := none

theorem daysFromCivil_march (day : Nat) (isDay : 1 ≤ day ∧ day ≤ 2) :
    daysFromCivil (.ofInt 2000) 3 day = .ofInt ((11016 + day : ℕ) : Int) := by
  have year :
      (Number.ofInt 2000).sub (.ofInt (if 3 ≤ 2 then 1 else 0)) = .ofInt 2000 :=
    Number.sub_natCast (n := 2000) (m := 0) (by norm_num) (by norm_num)
  have notNegative : (Number.ofInt 2000).less (.ofInt 0) = false := by decide +kernel
  have era : ((Number.ofInt 2000).div (.ofInt 400)).floor = .ofInt 5 := by
    have quotient := Number.div_natCast (n := 5) (m := 400) (by norm_num) (by norm_num)
    exact (congrArg Number.floor quotient).trans (Number.floor_natCast 5)
  have yearsBefore : (Number.ofInt 5).mul (.ofInt 400) = .ofInt 2000 :=
    Number.mul_natCast (n := 5) (m := 400) (by norm_num)
  have yearOfEra : (Number.ofInt 2000).sub (.ofInt 2000) = .ofInt 0 :=
    Number.sub_natCast (n := 2000) (m := 2000) (by norm_num) (by norm_num)
  have daysOfYears : (Number.ofInt 0).mul (.ofInt 365) = .ofInt 0 :=
    Number.mul_natCast (n := 0) (m := 365) (by norm_num)
  have leaps (length : ℕ) (positive : 0 < length) :
      ((Number.ofInt 0).div (.ofInt length)).floor = .ofInt 0 := by
    have quotient := Number.div_natCast (n := 0) (m := length) positive (by norm_num)
    rw [Nat.zero_mul] at quotient
    exact (congrArg Number.floor quotient).trans (Number.floor_natCast 0)
  have leapDays : (Number.ofInt 0).add (.ofInt 0) = .ofInt 0 :=
    Number.add_natCast (n := 0) (m := 0) (by norm_num)
  have leapDays' : (Number.ofInt 0).sub (.ofInt 0) = .ofInt 0 :=
    Number.sub_natCast (n := 0) (m := 0) (by norm_num) (by norm_num)
  have dayOfYear :
      (153 * ((3 : Int) + (if 3 > 2 then -3 else 9)) + 2) / 5 + day - 1 =
        ((day - 1 : ℕ) : Int) := by
    push_cast [isDay.1]
    norm_num
  have dayOfEra :
      (Number.ofInt 0).add (.ofInt ((day - 1 : ℕ) : Int)) = .ofInt ((day - 1 : ℕ) : Int) := by
    have sum := Number.add_natCast (n := 0) (m := day - 1) (by omega)
    rw [Nat.zero_add] at sum
    exact sum
  have eras : (Number.ofInt 5).mul (.ofInt 146097) = .ofInt 730485 :=
    Number.mul_natCast (n := 5) (m := 146097) (by norm_num)
  unfold daysFromCivil
  simp only [year, notNegative, Bool.false_eq_true, if_false, era, yearsBefore,
    yearOfEra, daysOfYears]
  rw [show (4 : Int) = ((4 : ℕ) : Int) from rfl, leaps 4 (by norm_num),
    show (100 : Int) = ((100 : ℕ) : Int) from rfl, leaps 100 (by norm_num),
    leapDays, leapDays', Nat.cast_ofNat, dayOfYear, dayOfEra, eras]
  have total := Number.add_natCast (n := 730485) (m := day - 1) (by omega)
  have sinceEpoch :=
    Number.sub_natCast (n := 730485 + (day - 1)) (m := 719468) (by omega) (by omega)
  have isTotal : 730485 + (day - 1) - 719468 = 11016 + day := by omega
  rw [isTotal] at sinceEpoch
  exact (congrArg (fun number => number.sub (.ofInt 719468)) total).trans sinceEpoch

theorem localSeconds_march (notTime : shape ≠ .time) (day : Nat) (isDay : 1 ≤ day ∧ day ≤ 2) :
    localSeconds (marchDay shape day) = .ofInt (((11016 + day) * 86400 : ℕ) : Int) := by
  have isSmall : (11016 + day) * 86400 < 2 ^ 53 :=
    calc (11016 + day) * 86400 ≤ 11018 * 86400 :=
          Nat.mul_le_mul_right 86400 (by omega)
      _ < 2 ^ 53 := by norm_num
  have seconds :
      (Number.ofInt ((11016 + day : ℕ) : Int)).mul (.ofInt 86400) =
        .ofInt (((11016 + day) * 86400 : ℕ) : Int) :=
    Number.mul_natCast (n := 11016 + day) (m := 86400) isSmall
  generalize (11016 + day) * 86400 = total at isSmall seconds ⊢
  have start : (Number.ofInt 0).add (.ofInt (total : Int)) = .ofInt (total : Int) := by
    have sum := Number.add_natCast (n := 0) (m := total) (by rwa [Nat.zero_add])
    rw [Nat.zero_add] at sum
    exact sum
  have midnight : (Number.ofInt 0).add (.ofInt 0) = .ofInt 0 :=
    Number.add_natCast (n := 0) (m := 0) (by norm_num)
  have sum :
      (Number.ofInt (total : Int)).add (.ofInt 0) = .ofInt (total : Int) :=
    Number.add_natCast (n := total) (m := 0) isSmall
  unfold localSeconds marchDay
  simp only [if_neg notTime, daysFromCivil_march day isDay]
  rw [seconds, start]
  exact (congrArg (Number.ofInt (total : Int)).add midnight).trans sum

/-- Two days of March are not one. -/
theorem march_differs (notTime : shape ≠ .time) :
    temporalEqual (marchDay shape 1) (marchDay shape 2) = false := by
  have first := localSeconds_march notTime 1 (by norm_num)
  have second := localSeconds_march notTime 2 (by norm_num)
  rw [← Bool.not_eq_true, temporalEqual_iff (by rw [first]; rfl) (by rw [second]; rfl)]
  simp only [marchDay, Option.isSome_none, if_true, Option.getD_none]
  intro same
  have same : moment (marchDay shape 1) 0 = moment (marchDay shape 2) 0 := same
  unfold moment at same
  rw [zero_mul, Number.place_sub_zero (isDouble_localSeconds _),
    Number.place_sub_zero (isDouble_localSeconds _), first, second,
    Number.place_natCast, Number.place_natCast] at same
  have isSame := WithBot.coe_injective (WithTop.coe_injective same)
  norm_num at isSame

end IyaSts.XacmlDatatypes
