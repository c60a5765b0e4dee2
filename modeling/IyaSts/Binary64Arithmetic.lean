import IyaSts.Binary64Rounding
import Mathlib.Algebra.Order.Floor.Ring
import Mathlib.Data.Rat.Floor

namespace IyaSts.Binary64

/-!
# Arithmetic on JavaScript numbers

Every operation rounds its exact result to the nearest double, or to an infinity
beyond the largest.  Numbers compare by what they stand for, of which both zeros
stand for the same and `NaN` for nothing.
-/

namespace Number

/-- The number nearest to an exact one. -/
def round (negative : Bool) (magnitude : ℚ≥0) : Number :=
  if nearest magnitude < 2 ^ 1024 then
    .finite negative (nearest magnitude)
  else
    .infinite negative

/-- What a finite number stands for. -/
def exactly (negative : Bool) (magnitude : ℚ≥0) : ℚ := if negative then -magnitude else magnitude

def isNaN : Number → Bool
  | nan => true
  | _ => false

def isInfinite : Number → Bool
  | infinite _ => true
  | _ => false

/-- An integer literal. -/
def ofInt (value : Int) : Number := .finite (value < 0) value.natAbs

def neg : Number → Number
  | nan => nan
  | infinite negative => infinite !negative
  | finite negative magnitude => finite (!negative) magnitude

def add : Number → Number → Number
  | nan, _ => nan
  | _, nan => nan
  | infinite first, infinite second => if first = second then infinite first else nan
  | infinite first, finite _ _ => infinite first
  | finite _ _, infinite second => infinite second
  | finite first a, finite second b =>
    let sum := exactly first a + exactly second b
    if sum = 0 then
      finite (first && second) 0
    else
      round (sum < 0) sum.nnabs

def sub (first second : Number) : Number := add first (neg second)

def mul : Number → Number → Number
  | nan, _ => nan
  | _, nan => nan
  | infinite first, infinite second => infinite (first ^^ second)
  | infinite first, finite second b => if b = 0 then nan else infinite (first ^^ second)
  | finite first a, infinite second => if a = 0 then nan else infinite (first ^^ second)
  | finite first a, finite second b => round (first ^^ second) (a * b)

def div : Number → Number → Number
  | nan, _ => nan
  | _, nan => nan
  | infinite _, infinite _ => nan
  | infinite first, finite second _ => infinite (first ^^ second)
  | finite first _, infinite second => finite (first ^^ second) 0
  | finite first a, finite second b =>
    if b = 0 then
      if a = 0 then nan else infinite (first ^^ second)
    else
      round (first ^^ second) (a / b)

/-- `Math.floor`. -/
def floor : Number → Number
  | finite negative magnitude => finite negative (⌊exactly negative magnitude⌋ : ℚ).nnabs
  | number => number

/-- The place of a number in the order, where it has one. -/
def place : Number → WithTop (WithBot ℚ)
  | nan => 0
  | infinite true => ((⊥ : WithBot ℚ) : WithTop (WithBot ℚ))
  | infinite false => ⊤
  | finite negative magnitude => ((exactly negative magnitude : WithBot ℚ) : WithTop (WithBot ℚ))

/-- `<`. -/
def less (first second : Number) : Bool :=
  !first.isNaN && !second.isNaN && decide (first.place < second.place)

/-- `===`. -/
def strictEqual (first second : Number) : Bool :=
  !first.isNaN && !second.isNaN && decide (first.place = second.place)

/-! ## Comparing -/

theorem strictEqual_iff (first second : Number) :
    strictEqual first second = true ↔
      first.isNaN = false ∧ second.isNaN = false ∧ first.place = second.place := by
  simp [strictEqual, and_assoc]

theorem less_iff (first second : Number) :
    less first second = true ↔
      first.isNaN = false ∧ second.isNaN = false ∧ first.place < second.place := by
  simp [less, and_assoc]

/-! ## Numbers that are none -/

theorem isNaN_round (negative : Bool) (magnitude : ℚ≥0) :
    (round negative magnitude).isNaN = false := by
  unfold round
  split <;> rfl


@[simp] theorem isNaN_neg (number : Number) : number.neg.isNaN = number.isNaN := by
  cases number <;> rfl

theorem isNaN_add_finite (number : Number) (negative : Bool) (magnitude : ℚ≥0) :
    (add number (finite negative magnitude)).isNaN = number.isNaN := by
  cases number with
  | nan => rfl
  | infinite first => rfl
  | finite first a =>
    simp only [add]
    split
    · rfl
    · exact isNaN_round _ _

/-- Taking an integer off keeps a number one. -/
theorem isNaN_sub_ofInt (number : Number) (value : Int) :
    (sub number (ofInt value)).isNaN = number.isNaN :=
  isNaN_add_finite number _ _

/-! ## Numbers without a minus -/

/-- A number, of no sign. -/
def isUnsigned : Number → Bool
  | nan => false
  | infinite negative => !negative
  | finite negative _ => !negative

variable {number : Number} {value : Int} {a b magnitude : ℚ≥0}
    {negative first second : Bool} {n m : ℕ}

theorem isNaN_of_isUnsigned (unsigned : number.isUnsigned = true) : number.isNaN = false := by
  cases number with
  | nan => cases unsigned
  | infinite negative => rfl
  | finite negative magnitude => rfl

theorem isUnsigned_round (magnitude : ℚ≥0) : (round false magnitude).isUnsigned = true := by
  unfold round
  split <;> rfl

theorem isUnsigned_mul_ofInt (unsigned : number.isUnsigned = true) (positive : 0 < value) :
    (mul number (ofInt value)).isUnsigned = true := by
  have notNegative : decide (value < 0) = false := by simpa using positive.le
  have notZero : ((value.natAbs : ℕ) : ℚ≥0) ≠ 0 := by
    exact_mod_cast Int.natAbs_ne_zero.mpr positive.ne'
  unfold ofInt
  rw [notNegative]
  cases number with
  | nan => cases unsigned
  | infinite negative =>
    rw [isUnsigned, Bool.not_eq_true'] at unsigned
    subst unsigned
    rw [mul, if_neg notZero]
    rfl
  | finite negative magnitude =>
    rw [isUnsigned, Bool.not_eq_true'] at unsigned
    subst unsigned
    exact isUnsigned_round _

theorem isUnsigned_add {first second : Number} (unsigned : first.isUnsigned = true)
    (unsigned' : second.isUnsigned = true) :
    (add first second).isUnsigned = true := by
  cases first with
  | nan => cases unsigned
  | infinite negative =>
    rw [isUnsigned, Bool.not_eq_true'] at unsigned
    subst unsigned
    cases second with
    | nan => cases unsigned'
    | infinite negative' =>
      rw [isUnsigned, Bool.not_eq_true'] at unsigned'
      subst unsigned'
      rfl
    | finite negative' magnitude' => rfl
  | finite negative magnitude =>
    rw [isUnsigned, Bool.not_eq_true'] at unsigned
    subst unsigned
    cases second with
    | nan => cases unsigned'
    | infinite negative' => exact unsigned'
    | finite negative' magnitude' =>
      rw [isUnsigned, Bool.not_eq_true'] at unsigned'
      subst unsigned'
      have notNegative :
          ¬ exactly false magnitude + exactly false magnitude' < 0 :=
        not_lt.mpr (add_nonneg magnitude.coe_nonneg magnitude'.coe_nonneg)
      simp only [add]
      split
      · rfl
      · rw [decide_eq_false notNegative]
        exact isUnsigned_round _

/-! ## Rounding keeps the order -/

/-- The place of the number nearest to an exact one. -/
def placeOf (exact : ℚ) : WithTop (WithBot ℚ) := (round (exact < 0) exact.nnabs).place

theorem placeOf_zero : placeOf 0 = 0 := by
  have isZero : (0 : ℚ).nnabs = 0 := by
    rw [← NNRat.coe_inj, Rat.coe_nnabs]
    simp
  unfold placeOf round
  rw [isZero, nearest_zero, if_pos (by norm_num)]
  rfl

theorem place_add_finite (first second : Bool) (a b : ℚ≥0) :
    (add (finite first a) (finite second b)).place =
      placeOf (exactly first a + exactly second b) := by
  simp only [add]
  split
  · rename_i isZero
    rw [isZero, placeOf_zero]
    cases first <;> cases second <;> simp [place, exactly]
  · rfl

theorem place_round_false (magnitude : ℚ≥0) :
    (round false magnitude).place =
      if nearest magnitude < 2 ^ 1024 then
        (((nearest magnitude : ℚ) : WithBot ℚ) : WithTop (WithBot ℚ))
      else
        ⊤ := by
  unfold round
  split <;> rfl

theorem place_round_true (magnitude : ℚ≥0) :
    (round true magnitude).place =
      if nearest magnitude < 2 ^ 1024 then
        (((-(nearest magnitude : ℚ) : ℚ) : WithBot ℚ) : WithTop (WithBot ℚ))
      else
        ((⊥ : WithBot ℚ) : WithTop (WithBot ℚ)) := by
  unfold round
  split <;> rfl

theorem place_round_false_mono (isLe : a ≤ b) : (round false a).place ≤ (round false b).place := by
  have nearestLe := nearest_mono isLe
  rw [place_round_false, place_round_false]
  split
  · split
    · exact_mod_cast nearestLe
    · exact le_top
  · rename_i isLarge
    rw [if_neg fun isSmall => isLarge (nearestLe.trans_lt isSmall)]

theorem place_round_true_anti (isLe : a ≤ b) : (round true b).place ≤ (round true a).place := by
  have nearestLe := nearest_mono isLe
  rw [place_round_true, place_round_true]
  split
  · rename_i isSmall
    rw [if_pos (nearestLe.trans_lt isSmall)]
    rw [WithTop.coe_le_coe, WithBot.coe_le_coe]
    exact neg_le_neg (by exact_mod_cast nearestLe)
  · split
    · rw [WithTop.coe_le_coe]
      exact bot_le
    · exact le_rfl

theorem place_round_true_le (a b : ℚ≥0) : (round true a).place ≤ (round false b).place := by
  calc
    (round true a).place ≤ (round true 0).place := place_round_true_anti zero_le
    _ = (round false 0).place := by
      rw [place_round_true, place_round_false, nearest_zero]
      simp
    _ ≤ (round false b).place := place_round_false_mono zero_le

/-- A larger exact number is not rounded below a smaller one. -/
theorem placeOf_mono {a b : ℚ} (isLe : a ≤ b) : placeOf a ≤ placeOf b := by
  unfold placeOf
  by_cases isNegative : b < 0
  · rw [decide_eq_true (isLe.trans_lt isNegative), decide_eq_true isNegative]
    refine place_round_true_anti ?_
    rw [← NNRat.coe_le_coe, Rat.coe_nnabs, Rat.coe_nnabs,
      abs_of_neg isNegative, abs_of_neg (isLe.trans_lt isNegative)]
    exact neg_le_neg isLe
  · rw [decide_eq_false isNegative]
    by_cases isNegative' : a < 0
    · rw [decide_eq_true isNegative']
      exact place_round_true_le _ _
    · rw [decide_eq_false isNegative']
      refine place_round_false_mono ?_
      rw [← NNRat.coe_le_coe, Rat.coe_nnabs, Rat.coe_nnabs, abs_of_nonneg (not_lt.mp isNegative),
        abs_of_nonneg (not_lt.mp isNegative')]
      exact isLe

/-! ## Doubles -/

/-- A number that is what it is rounded to. -/
def IsDouble : Number → Prop
  | finite _ magnitude => nearest magnitude = magnitude ∧ magnitude < 2 ^ 1024
  | _ => True

theorem isDouble_round (negative : Bool) (magnitude : ℚ≥0) :
    IsDouble (round negative magnitude) := by
  unfold round
  split
  · rename_i isSmall
    exact ⟨nearest_nearest magnitude, isSmall⟩
  · trivial

theorem isDouble_add_finite (first : Number) (negative : Bool) (magnitude : ℚ≥0) :
    IsDouble (add first (finite negative magnitude)) := by
  cases first with
  | nan => trivial
  | infinite negative' => trivial
  | finite negative' magnitude' =>
    simp only [add]
    split
    · exact ⟨nearest_zero, by norm_num⟩
    · exact isDouble_round _ _

theorem placeOf_exactly (isDouble : IsDouble (finite negative magnitude)) :
    placeOf (exactly negative magnitude) = (finite negative magnitude).place := by
  obtain ⟨isNearest, isSmall⟩ := isDouble
  have isAbs : (exactly negative magnitude).nnabs = magnitude := by
    rw [← NNRat.coe_inj, Rat.coe_nnabs]
    cases negative <;> simp [exactly]
  unfold placeOf round
  rw [isAbs, isNearest, if_pos isSmall]
  cases negative with
  | false => simp [place, exactly]
  | true =>
    by_cases isZero : magnitude = 0
    · simp [place, exactly, isZero]
    · have isNegative : exactly true magnitude < 0 := by
        have positive : (0 : ℚ) < magnitude :=
          magnitude.coe_nonneg.lt_of_ne (by exact_mod_cast Ne.symm isZero)
        simpa [exactly] using positive
      rw [decide_eq_true isNegative]

theorem isDouble_add (first second : Number) : IsDouble (add first second) := by
  cases second with
  | nan => cases first <;> trivial
  | infinite negative =>
    cases first with
    | infinite negative' =>
      rw [add]
      split <;> trivial
    | _ => trivial
  | finite negative magnitude => exact isDouble_add_finite _ _ _

/-! ## Sums and products that are numbers -/

/-- Below a power of two of 53 places nothing is rounded to an infinity. -/
theorem round_finite (small : magnitude ≤ (2 ^ 52 : ℕ)) (negative : Bool) :
    ∃ rounded, round negative magnitude = finite negative rounded := by
  have isSmall : nearest magnitude < 2 ^ 1024 :=
    calc
      nearest magnitude ≤ nearest ((2 ^ 52 : ℕ) : ℚ≥0) := nearest_mono small
      _ = ((2 ^ 52 : ℕ) : ℚ≥0) := nearest_natCast (by norm_num)
      _ = 2 ^ 52 := by norm_cast
      _ < 2 ^ 1024 := pow_lt_pow_right₀ (by norm_num) (by norm_num)
  exact ⟨nearest magnitude, by rw [round, if_pos isSmall]⟩

theorem isNaN_mul_ofInt (notZero : value ≠ 0) :
    (mul number (ofInt value)).isNaN = number.isNaN := by
  have notZero' : ((value.natAbs : ℕ) : ℚ≥0) ≠ 0 := by exact_mod_cast Int.natAbs_ne_zero.mpr notZero
  cases number with
  | nan => rfl
  | infinite negative =>
    rw [ofInt, mul, if_neg notZero']
    rfl
  | finite negative magnitude => exact isNaN_round _ _

theorem isNaN_finite_add (negative : Bool) (magnitude : ℚ≥0) (number : Number) :
    (add (finite negative magnitude) number).isNaN = number.isNaN := by
  cases number with
  | nan => rfl
  | infinite negative' => rfl
  | finite negative' magnitude' => exact isNaN_add_finite _ _ _

/-! ## Taking an integer off -/

theorem place_sub_ofInt (negative : Bool) (magnitude : ℚ≥0) (value : Int) :
    (sub (finite negative magnitude) (ofInt value)).place =
      placeOf (exactly negative magnitude - value) := by
  have isNeg : exactly (!decide (value < 0)) ((value.natAbs : ℕ) : ℚ≥0) = -value := by
    have isAbs : (((value.natAbs : ℕ) : ℚ≥0) : ℚ) = |(value : ℚ)| := by
      rw [NNRat.coe_natCast, Nat.cast_natAbs]
      push_cast
      rfl
    by_cases isNegative : value < 0
    · have isNegative' : (value : ℚ) < 0 := by exact_mod_cast isNegative
      rw [exactly, isAbs, abs_of_neg isNegative']
      simp [isNegative]
    · have notNegative : (0 : ℚ) ≤ value := by
        exact_mod_cast not_lt.mp isNegative
      rw [exactly, isAbs, abs_of_nonneg notNegative]
      simp [isNegative]
  unfold sub ofInt neg
  rw [place_add_finite, isNeg, ← sub_eq_add_neg]


/-- The more is taken off, the less is left. -/
theorem place_sub_anti {less' more : Int} (isNumber : number.isNaN = false) (isLe : less' ≤ more) :
    (sub number (ofInt more)).place ≤ (sub number (ofInt less')).place := by
  cases number with
  | nan => cases isNumber
  | infinite negative => exact le_rfl
  | finite negative magnitude =>
    rw [place_sub_ofInt, place_sub_ofInt]
    exact placeOf_mono (sub_le_sub_left (by exact_mod_cast isLe) _)

theorem place_sub_zero (isDouble : IsDouble number) :
    (sub number (ofInt 0)).place = number.place := by
  cases number with
  | nan => rfl
  | infinite negative => rfl
  | finite negative magnitude =>
    rw [place_sub_ofInt, Int.cast_zero, sub_zero, placeOf_exactly isDouble]

/-- What is left depends on the number's place only. -/
theorem place_sub_congr {number other : Number} (isNumber : number.isNaN = false)
    (isNumber' : other.isNaN = false) (same : number.place = other.place) (value : Int) :
    (sub number (ofInt value)).place = (sub other (ofInt value)).place := by
  cases number with
  | nan => cases isNumber
  | infinite negative =>
    cases other with
    | nan => cases isNumber'
    | infinite negative' => exact same
    | finite negative' magnitude' => cases negative <;> cases same
  | finite negative magnitude =>
    cases other with
    | nan => cases isNumber'
    | infinite negative' => cases negative' <;> cases same
    | finite negative' magnitude' =>
      have sameExactly :
          exactly negative magnitude = exactly negative' magnitude' :=
        WithBot.coe_injective (WithTop.coe_injective same)
      rw [place_sub_ofInt, place_sub_ofInt, sameExactly]

/-! ## Differences of doubles -/

/-- A double is a multiple of the smallest. -/
theorem exists_multiple (isDouble : IsDouble (finite negative magnitude)) :
    ∃ count : ℤ, exactly negative magnitude = count * smallest := by
  have isMultiple : ∃ count : ℕ, (magnitude : ℚ) = count * smallest := by
    have above : -1074 ≤ lastPlace magnitude := le_max_right _ _
    obtain ⟨steps, isSteps⟩ := Int.le.dest above
    refine ⟨nearestEven (magnitude / 2 ^ lastPlace magnitude) * 2 ^ steps, ?_⟩
    have isNearest : ((nearest magnitude : ℚ≥0) : ℚ) = magnitude :=
      congrArg (fun exact : ℚ≥0 => (exact : ℚ)) isDouble.1
    conv_lhs => rw [← isNearest, nearest]
    generalize nearestEven (magnitude / 2 ^ lastPlace magnitude) = count
    push_cast
    rw [smallest, ← isSteps, zpow_add₀ (by norm_num), zpow_natCast]
    ring
  obtain ⟨count, isCount⟩ := isMultiple
  rw [exactly, isCount]
  cases negative with
  | false => exact ⟨count, by simp⟩
  | true => exact ⟨-count, by simp⟩

theorem isDouble_smallest (negative : Bool) : IsDouble (finite negative (2 ^ (-1074 : ℤ))) := by
  constructor
  · have isShifted := @nearest_shifted 1 (-1074) (by norm_num) le_rfl
    rw [Nat.cast_one, one_mul] at isShifted
    exact isShifted
  · calc
      (2 : ℚ≥0) ^ (-1074 : ℤ) ≤ 2 ^ (0 : ℤ) := zpow_le_zpow_right₀ (by norm_num) (by norm_num)
      _ = 1 := zpow_zero _
      _ < 2 ^ 1024 := one_lt_pow₀ (by norm_num) (by norm_num)

theorem placeOf_neg_smallest : placeOf (-smallest) < 0 := by
  have isExactly : exactly true (2 ^ (-1074 : ℤ)) = -smallest := by simp [exactly, smallest]
  rw [← isExactly, placeOf_exactly (isDouble_smallest true), place, isExactly]
  exact_mod_cast neg_neg_of_pos smallest_pos

theorem placeOf_smallest : 0 < placeOf smallest := by
  have isExactly : exactly false (2 ^ (-1074 : ℤ)) = smallest := by simp [exactly, smallest]
  rw [← isExactly, placeOf_exactly (isDouble_smallest false), place, isExactly]
  exact_mod_cast smallest_pos

/-- Doubles that differ do so by the smallest at least. -/
theorem exactly_sub_le (isDouble : IsDouble (finite first a))
    (isDouble' : IsDouble (finite second b)) (isLess : exactly first a < exactly second b) :
    exactly first a - exactly second b ≤ -smallest := by
  obtain ⟨count, isCount⟩ := exists_multiple isDouble
  obtain ⟨count', isCount'⟩ := exists_multiple isDouble'
  rw [isCount, isCount'] at isLess ⊢
  have fewer : count + 1 ≤ count' := by exact_mod_cast lt_of_mul_lt_mul_right isLess smallest_pos.le
  have step : (count : ℚ) - count' ≤ -1 := by
    have : (count : ℚ) + 1 ≤ count' := by exact_mod_cast fewer
    linarith
  calc
    (count : ℚ) * smallest - count' * smallest = (count - count') * smallest := (sub_mul _ _ _).symm
    _ ≤ -1 * smallest := mul_le_mul_of_nonneg_right step smallest_pos.le
    _ = -smallest := neg_one_mul _

theorem place_sub_finite (first second : Bool) (a b : ℚ≥0) :
    (sub (finite first a) (finite second b)).place =
      placeOf (exactly first a - exactly second b) := by
  have isNeg : exactly (!second) b = -exactly second b := by cases second <;> simp [exactly]
  rw [sub, neg, place_add_finite, isNeg, ← sub_eq_add_neg]

/-- The difference of two doubles has the sign that it has exactly. -/
theorem place_sub_neg_iff (isDouble : IsDouble (finite first a))
    (isDouble' : IsDouble (finite second b)) :
    (sub (finite first a) (finite second b)).place < 0 ↔ exactly first a < exactly second b := by
  rw [place_sub_finite]
  constructor
  · intro isNegative
    by_contra notLess
    have notNegative := placeOf_mono (sub_nonneg.mpr (not_lt.mp notLess))
    rw [placeOf_zero] at notNegative
    exact notNegative.not_gt isNegative
  · intro isLess
    exact (placeOf_mono (exactly_sub_le isDouble isDouble' isLess)).trans_lt placeOf_neg_smallest

theorem place_sub_pos_iff (isDouble : IsDouble (finite first a))
    (isDouble' : IsDouble (finite second b)) :
    0 < (sub (finite first a) (finite second b)).place ↔ exactly second b < exactly first a := by
  rw [place_sub_finite]
  constructor
  · intro isPositive
    by_contra notLess
    have notPositive := placeOf_mono (sub_nonpos.mpr (not_lt.mp notLess))
    rw [placeOf_zero] at notPositive
    exact notPositive.not_gt isPositive
  · intro isLess
    have apart := exactly_sub_le isDouble' isDouble isLess
    exact placeOf_smallest.trans_le (placeOf_mono (by linarith))

/-! ## Small integers -/

theorem ofInt_natCast (n : ℕ) : ofInt n = finite false n := by simp [ofInt]

theorem round_natCast {n : ℕ} (small : n < 2 ^ 53) : round false n = ofInt n := by
  have isSmall : ((n : ℕ) : ℚ≥0) < 2 ^ 1024 := by
    calc
      ((n : ℕ) : ℚ≥0) < 2 ^ 53 := by exact_mod_cast small
      _ ≤ 2 ^ 1024 := pow_le_pow_right₀ (by norm_num) (by norm_num)
  rw [round, nearest_natCast small, if_pos isSmall, ofInt_natCast]

/-- Integers below `2^53` are added and subtracted exactly. -/
theorem add_natCast (small : n + m < 2 ^ 53) : add (ofInt n) (ofInt m) = ofInt (n + m : ℕ) := by
  rw [ofInt_natCast, ofInt_natCast]
  simp only [add]
  have sum : exactly false (n : ℚ≥0) + exactly false m = ((n + m : ℕ) : ℚ) := by simp [exactly]
  have isAbs : ((n + m : ℕ) : ℚ).nnabs = ((n + m : ℕ) : ℚ≥0) := by
    rw [← NNRat.coe_inj, Rat.coe_nnabs, NNRat.coe_natCast, Nat.abs_cast]
  rw [sum]
  split
  · rename_i isZero
    have isZero : n + m = 0 := by exact_mod_cast isZero
    rw [isZero]
    rfl
  · rw [decide_eq_false (not_lt.mpr (Nat.cast_nonneg _)), isAbs, round_natCast small]

theorem sub_natCast (isLe : m ≤ n) (small : n < 2 ^ 53) :
    sub (ofInt n) (ofInt m) = ofInt (n - m : ℕ) := by
  rw [sub, ofInt_natCast, ofInt_natCast, neg]
  simp only [add]
  have sum : exactly false (n : ℚ≥0) + exactly (!false) m = ((n - m : ℕ) : ℚ) := by
    rw [Nat.cast_sub isLe]
    simp [exactly, sub_eq_add_neg]
  have isAbs : ((n - m : ℕ) : ℚ).nnabs = ((n - m : ℕ) : ℚ≥0) := by
    rw [← NNRat.coe_inj, Rat.coe_nnabs, NNRat.coe_natCast, Nat.abs_cast]
  rw [sum]
  split
  · rename_i isZero
    have isZero : n - m = 0 := by exact_mod_cast isZero
    rw [isZero]
    rfl
  · rw [decide_eq_false (not_lt.mpr (Nat.cast_nonneg _)), isAbs,
      round_natCast (lt_of_le_of_lt (Nat.sub_le n m) small)]

theorem mul_natCast (small : n * m < 2 ^ 53) : mul (ofInt n) (ofInt m) = ofInt (n * m : ℕ) := by
  rw [ofInt_natCast, ofInt_natCast, mul, ← Nat.cast_mul]
  exact round_natCast small

theorem div_natCast (positive : 0 < m) (small : n < 2 ^ 53) :
    div (ofInt (n * m : ℕ)) (ofInt m) = ofInt n := by
  have notZero : (m : ℚ≥0) ≠ 0 := by exact_mod_cast positive.ne'
  rw [ofInt_natCast (n * m), ofInt_natCast m, div, if_neg notZero,
    Nat.cast_mul, mul_div_cancel_right₀ _ notZero]
  exact round_natCast small

theorem floor_natCast (n : ℕ) : floor (ofInt n) = ofInt n := by
  have whole : exactly false (n : ℚ≥0) = ((n : ℤ) : ℚ) := by simp [exactly]
  have isAbs : ((((n : ℤ) : ℤ) : ℚ)).nnabs = ((n : ℕ) : ℚ≥0) := by
    rw [← NNRat.coe_inj, Rat.coe_nnabs, NNRat.coe_natCast, Int.cast_natCast, Nat.abs_cast]
  rw [ofInt_natCast, floor, whole, Int.floor_intCast, isAbs]

theorem place_natCast (n : ℕ) :
    (ofInt n).place = (((n : ℚ) : WithBot ℚ) : WithTop (WithBot ℚ)) := by
  rw [ofInt_natCast]
  simp [place, exactly]

end Number

end IyaSts.Binary64
