import IyaSts.Binary64Arithmetic

namespace IyaSts.Binary64

/-!
# Numbers as bits

A binary interchange format is a sign, an exponent and a fraction, one after the
other.  The least exponent is that of the subnormal numbers, the largest that of
the infinities and of `NaN`.
-/

/-- How many bits the exponent and the fraction have. -/
structure Format where
  exponentWidth : Nat
  fractionWidth : Nat

namespace Format

def half : Format := ⟨5, 10⟩

def single : Format := ⟨8, 23⟩

def double : Format := ⟨11, 52⟩

variable (format : Format)

def bias : ℤ := 2 ^ (format.exponentWidth - 1) - 1

/-- The number that a sign, an exponent and a fraction stand for. -/
def number (negative : Bool) (exponent fraction : Nat) : Number :=
  if exponent = 2 ^ format.exponentWidth - 1 then
    if fraction = 0 then .infinite negative else .nan
  else if exponent = 0 then
    .finite negative (fraction * 2 ^ (1 - format.bias - format.fractionWidth))
  else
    .finite negative
      ((2 ^ format.fractionWidth + fraction : ℕ) *
        2 ^ (exponent - format.bias - format.fractionWidth))

/-- The number that some bits stand for. -/
def read (bits : Nat) : Number :=
  format.number
    (bits / 2 ^ format.fractionWidth / 2 ^ format.exponentWidth % 2 = 1)
    (bits / 2 ^ format.fractionWidth % 2 ^ format.exponentWidth)
    (bits % 2 ^ format.fractionWidth)

/-- A sign, an exponent and a fraction, one after the other. -/
def pack (negative : Bool) (exponent fraction : Nat) : Nat :=
  (negative.toNat * 2 ^ format.exponentWidth + exponent) * 2 ^ format.fractionWidth + fraction

/-- What is packed is read back. -/
theorem read_pack {exponent fraction : Nat} (negative : Bool)
    (isExponent : exponent < 2 ^ format.exponentWidth)
    (isFraction : fraction < 2 ^ format.fractionWidth) :
    format.read (format.pack negative exponent fraction) =
      format.number negative exponent fraction := by
  have unfractioned :
      format.pack negative exponent fraction / 2 ^ format.fractionWidth =
        negative.toNat * 2 ^ format.exponentWidth + exponent := by
    rw [pack, Nat.add_comm, Nat.add_mul_div_right _ _ (by positivity),
      Nat.div_eq_of_lt isFraction, Nat.zero_add]
  have isSign :
      (negative.toNat * 2 ^ format.exponentWidth + exponent) /
          2 ^ format.exponentWidth =
        negative.toNat := by
    rw [Nat.add_comm, Nat.add_mul_div_right _ _ (by positivity),
      Nat.div_eq_of_lt isExponent, Nat.zero_add]
  have remaining :
      format.pack negative exponent fraction % 2 ^ format.fractionWidth =
        fraction := by
    rw [pack, Nat.mul_add_mod_of_lt isFraction]
  rw [read, unfractioned, isSign, remaining, Nat.mul_add_mod_of_lt isExponent]
  cases negative <;> rfl

end Format

open Number

/-! ## A narrower format's numbers are doubles -/

theorem isDouble_shifted {n width : ℕ} {place : ℤ} (negative : Bool) (small : n < 2 ^ width)
    (narrow : width ≤ 53) (notBelow : -1074 ≤ place) (notAbove : width + place ≤ 1024) :
    IsDouble (.finite negative (n * 2 ^ place)) := by
  refine ⟨nearest_shifted ?_ notBelow, ?_⟩
  · exact small.trans_le (Nat.pow_le_pow_right (by decide) narrow)
  · calc
      (n : ℚ≥0) * 2 ^ place < 2 ^ width * 2 ^ place := by
        refine mul_lt_mul_of_pos_right ?_ (zpow_pos (by norm_num) _)
        exact_mod_cast small
      _ = 2 ^ (width + place) := by rw [zpow_add₀ (by norm_num), zpow_natCast]
      _ ≤ 2 ^ (1024 : ℤ) := zpow_le_zpow_right₀ (by norm_num) notAbove
      _ = 2 ^ 1024 := zpow_natCast _ _

/-- No format is wider than a double's. -/
structure Format.Narrow (format : Format) : Prop where
  hasExponent : 0 < format.exponentWidth
  exponent : format.exponentWidth ≤ 11
  fraction : format.fractionWidth ≤ 52

namespace Format

variable {format : Format}

theorem two_pow_exponentWidth (isNarrow : format.Narrow) :
    ((2 ^ format.exponentWidth : ℕ) : ℤ) = 2 * (format.bias + 1) := by
  obtain ⟨width, isWidth⟩ := Nat.exists_eq_succ_of_ne_zero isNarrow.hasExponent.ne'
  rw [bias, isWidth]
  push_cast
  rw [pow_succ]
  ring

theorem bias_le (isNarrow : format.Narrow) : 0 ≤ format.bias ∧ format.bias ≤ 1023 := by
  have widths : format.exponentWidth - 1 ≤ 10 := by
    have := isNarrow.exponent
    omega
  have above : (2 : ℤ) ^ (format.exponentWidth - 1) ≤ 2 ^ 10 := pow_le_pow_right₀ (by decide) widths
  have beneath : (1 : ℤ) ≤ 2 ^ (format.exponentWidth - 1) := one_le_pow₀ (by decide)
  unfold bias
  constructor <;> omega

theorem isDouble_number (isNarrow : format.Narrow) {exponent fraction : ℕ} (negative : Bool)
    (isExponent : exponent < 2 ^ format.exponentWidth)
    (isFraction : fraction < 2 ^ format.fractionWidth) :
    IsDouble (format.number negative exponent fraction) := by
  have widthOf := two_pow_exponentWidth isNarrow
  obtain ⟨biasNotNegative, biasLe⟩ := bias_le isNarrow
  have fractionLe := isNarrow.fraction
  unfold number
  split_ifs with isTop isZero notSubnormal
  · trivial
  · trivial
  · exact isDouble_shifted negative isFraction (by omega) (by omega) (by omega)
  · have digits : 2 ^ format.fractionWidth + fraction < 2 ^ (format.fractionWidth + 1) := by
      rw [pow_succ]
      omega
    refine isDouble_shifted negative digits (by omega) ?_ ?_
    · omega
    · push_cast
      omega

theorem isDouble_read (isNarrow : format.Narrow) (bits : Nat) : IsDouble (format.read bits) :=
  isDouble_number isNarrow _ (Nat.mod_lt _ (by positivity)) (Nat.mod_lt _ (by positivity))

end Format


theorem single_narrow : Format.single.Narrow := ⟨by decide, by decide, by decide⟩

theorem double_narrow : Format.double.Narrow := ⟨by decide, by decide, by decide⟩

/-! ## The bits of a double -/

/-- The bits of a double, of `NaN` always the same. -/
def toBits : Number → Nat
  | .nan => Format.double.pack false 2047 (2 ^ 51)
  | .infinite negative => Format.double.pack negative 2047 0
  | .finite negative magnitude =>
    let place := lastPlace magnitude
    let digits := ⌊magnitude / 2 ^ place⌋₊
    if digits < 2 ^ 52 then
      Format.double.pack negative 0 digits
    else
      Format.double.pack negative (place + 1075).toNat (digits - 2 ^ 52)

variable {magnitude : ℚ≥0} {digits : ℕ}

/-- A double is an integer of its last place. -/
theorem eq_digits (isNearest : nearest magnitude = magnitude) :
    magnitude = ⌊magnitude / 2 ^ lastPlace magnitude⌋₊ * 2 ^ lastPlace magnitude := by
  have unit : (0 : ℚ≥0) < 2 ^ lastPlace magnitude := zpow_pos (by norm_num) _
  have quotient :
      magnitude / 2 ^ lastPlace magnitude = nearestEven (magnitude / 2 ^ lastPlace magnitude) := by
    rw [div_eq_iff unit.ne']
    exact isNearest.symm
  have isFloor :
      (⌊magnitude / 2 ^ lastPlace magnitude⌋₊ : ℚ≥0) = magnitude / 2 ^ lastPlace magnitude := by
    rw [quotient, Nat.floor_natCast]
  rw [isFloor, div_mul_cancel₀ _ unit.ne']

/-- Too few digits are those of a subnormal number. -/
theorem lastPlace_of_lt (isDigits : magnitude = digits * 2 ^ lastPlace magnitude)
    (isPositive : 0 < digits) (few : digits < 2 ^ 52) :
    lastPlace magnitude = -1074 := by
  have positive : 0 < magnitude := by
    rw [isDigits]
    exact mul_pos (by exact_mod_cast isPositive) (zpow_pos (by norm_num) _)
  have isLess : magnitude < 2 ^ (52 + lastPlace magnitude) :=
    calc
      magnitude = digits * 2 ^ lastPlace magnitude := isDigits
      _ < 2 ^ (52 : ℤ) * 2 ^ lastPlace magnitude := by
        refine mul_lt_mul_of_pos_right ?_ (zpow_pos (by norm_num) _)
        exact_mod_cast few
      _ = 2 ^ (52 + lastPlace magnitude) := (zpow_add₀ (by norm_num) _ _).symm
  have log : Int.log 2 magnitude < 52 + lastPlace magnitude :=
    (Int.lt_zpow_iff_log_lt (by decide) positive).mp (by exact_mod_cast isLess)
  unfold lastPlace at log ⊢
  omega

/-- A double has no more digits than a format's fraction and one. -/
theorem digits_lt (isDigits : magnitude = digits * 2 ^ lastPlace magnitude) : digits < 2 ^ 53 := by
  have isLess := lt_two_zpow magnitude
  conv_lhs at isLess => rw [isDigits]
  rw [add_comm, zpow_add₀ (by norm_num)] at isLess
  have := lt_of_mul_lt_mul_right isLess (zpow_pos (by norm_num) _).le
  exact_mod_cast this

theorem lastPlace_lt (isDigits : magnitude = digits * 2 ^ lastPlace magnitude)
    (many : 2 ^ 52 ≤ digits) (isSmall : magnitude < 2 ^ 1024) :
    lastPlace magnitude < 972 := by
  have isLess : (2 : ℚ≥0) ^ (52 + lastPlace magnitude) < 2 ^ (1024 : ℤ) :=
    calc
      (2 : ℚ≥0) ^ (52 + lastPlace magnitude) =
          2 ^ (52 : ℤ) * 2 ^ lastPlace magnitude := zpow_add₀ (by norm_num) _ _
      _ ≤ digits * 2 ^ lastPlace magnitude := by
        refine mul_le_mul_of_nonneg_right ?_ zero_le
        exact_mod_cast many
      _ = magnitude := isDigits.symm
      _ < 2 ^ (1024 : ℤ) := by
        rw [show (1024 : ℤ) = ((1024 : ℕ) : ℤ) from rfl, zpow_natCast]
        exact isSmall
  have := (zpow_lt_zpow_iff_right₀ (by norm_num)).mp isLess
  omega

/-- The bits of a double stand for it. -/
theorem read_toBits {number : Number} (isDouble : IsDouble number) :
    Format.double.read (toBits number) = number := by
  have fits (exponent : ℕ) (isLess : exponent < 2048) :
      exponent < 2 ^ Format.double.exponentWidth := isLess
  cases number with
  | nan => exact Format.double.read_pack false (fits 2047 (by decide)) (by decide)
  | infinite negative => exact Format.double.read_pack negative (fits 2047 (by decide)) (by decide)
  | finite negative magnitude =>
    obtain ⟨isNearest, isSmall⟩ := isDouble
    have isDigits := eq_digits isNearest
    rw [toBits]
    generalize ⌊magnitude / 2 ^ lastPlace magnitude⌋₊ = digits at isDigits ⊢
    have isBias : Format.double.bias = 1023 := by decide
    split
    · rename_i few
      rw [Format.read_pack _ _ (fits 0 (by decide)) few, Format.number, if_neg (by decide),
        if_pos rfl, isBias]
      congr 1
      rcases Nat.eq_zero_or_pos digits with isZero | isPositive
      · rw [isDigits, isZero]
        simp
      · conv_rhs => rw [isDigits, lastPlace_of_lt isDigits isPositive few]
        rfl
    · rename_i many
      have many := not_lt.mp many
      have isLess := digits_lt isDigits
      have places := lastPlace_lt isDigits many isSmall
      have notBelow : -1074 ≤ lastPlace magnitude := le_max_right _ _
      have isFraction : digits - 2 ^ 52 < 2 ^ Format.double.fractionWidth := by
        change digits - 2 ^ 52 < 2 ^ 52
        omega
      rw [Format.read_pack _ _ (fits _ (by omega)) isFraction, Format.number, isBias]
      have notTop : (lastPlace magnitude + 1075).toNat ≠ 2 ^ Format.double.exponentWidth - 1 := by
        change (lastPlace magnitude + 1075).toNat ≠ 2047
        omega
      have notZero : (lastPlace magnitude + 1075).toNat ≠ 0 := by omega
      rw [if_neg notTop, if_neg notZero]
      have restored : 2 ^ Format.double.fractionWidth + (digits - 2 ^ 52) = digits :=
        Nat.add_sub_cancel' many
      have isPlace :
          ((lastPlace magnitude + 1075).toNat : ℤ) - 1023 - Format.double.fractionWidth =
            lastPlace magnitude := by
        rw [Int.toNat_of_nonneg (by omega), show (Format.double.fractionWidth : ℤ) = 52 from rfl]
        ring
      rw [restored, isPlace, ← isDigits]

end IyaSts.Binary64
