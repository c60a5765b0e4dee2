import IyaSts.Binary64

namespace IyaSts.Binary64

/-!
# Rounding keeps the order

A larger number is never rounded below a smaller one's double, and a double is
rounded to itself.
-/

/-! ## To an integer -/

theorem le_nearestEven (exact : ℚ≥0) : ⌊exact⌋₊ ≤ nearestEven exact := by
  unfold nearestEven
  simp only
  split
  · exact le_rfl
  · exact Nat.le_succ _

theorem nearestEven_le (exact : ℚ≥0) : nearestEven exact ≤ ⌊exact⌋₊ + 1 := by
  unfold nearestEven
  simp only
  split
  · exact Nat.le_succ _
  · exact le_rfl

variable {x y : ℚ≥0}

theorem nearestEven_mono (isLe : x ≤ y) : nearestEven x ≤ nearestEven y := by
  rcases (Nat.floor_mono isLe).lt_or_eq with isLess | isEqual
  · calc
      nearestEven x ≤ ⌊x⌋₊ + 1 := nearestEven_le x
      _ ≤ ⌊y⌋₊ := isLess
      _ ≤ nearestEven y := le_nearestEven y
  · -- Of one integer part, the larger fraction decides.
    have fractions : x - ⌊x⌋₊ ≤ y - ⌊y⌋₊ := by
      rw [isEqual]
      exact tsub_le_tsub_right isLe _
    unfold nearestEven
    simp only
    by_cases isLow : y - ⌊y⌋₊ < 1 / 2 ∨ (y - ⌊y⌋₊ = 1 / 2 ∧ ⌊y⌋₊ % 2 = 0)
    · rw [if_pos isLow, if_pos]
      · exact isEqual.le
      · rcases isLow with isLess | ⟨isTie, isEven⟩
        · exact .inl (lt_of_le_of_lt fractions isLess)
        · rw [isTie] at fractions
          rcases fractions.lt_or_eq with isLess | isTie
          · exact .inl isLess
          · exact .inr ⟨isTie, by rw [isEqual]; exact isEven⟩
    · rw [if_neg isLow]
      split <;> omega

/-! ## To a double -/

theorem lt_two_zpow (exact : ℚ≥0) : exact < 2 ^ (lastPlace exact + 53) := by
  calc
    exact < 2 ^ (Int.log 2 exact + 1) := Int.lt_zpow_succ_log_self (by decide) exact
    _ ≤ 2 ^ (lastPlace exact + 53) := by
      refine zpow_le_zpow_right₀ (by norm_num) ?_
      have isMax := le_max_left (Int.log 2 exact - 52) (-1074)
      unfold lastPlace
      omega

/-- A double is an integer of 53 places, shifted. -/
theorem nearestEven_le_two_pow (exact : ℚ≥0) :
    nearestEven (exact / 2 ^ lastPlace exact) ≤ 2 ^ 53 := by
  have isLe : exact / 2 ^ lastPlace exact ≤ ((2 ^ 53 : ℕ) : ℚ≥0) := by
    rw [div_le_iff₀ (zpow_pos (by norm_num) _)]
    refine (lt_two_zpow exact).le.trans (le_of_eq ?_)
    rw [zpow_add₀ (by norm_num), mul_comm]
    norm_num
  calc
    nearestEven (exact / 2 ^ lastPlace exact) ≤
        nearestEven ((2 ^ 53 : ℕ) : ℚ≥0) := nearestEven_mono isLe
    _ = 2 ^ 53 := nearestEven_natCast _

/-- What is an integer of its last place is a double. -/
theorem nearest_of_places {exact : ℚ≥0} {n places : ℕ}
    (isShifted : exact = n * 2 ^ (lastPlace exact + places)) :
    nearest exact = exact := by
  have scaled :
      exact / 2 ^ lastPlace exact = ((n * 2 ^ places : ℕ) : ℚ≥0) := by
    rw [div_eq_iff (zpow_pos (by norm_num) _).ne']
    conv_lhs => rw [isShifted]
    rw [zpow_add₀ (by norm_num), zpow_natCast]
    push_cast
    ring
  rw [nearest, scaled, nearestEven_natCast, ← scaled,
    div_mul_cancel₀ _ (zpow_pos (by norm_num) _).ne']

theorem nearest_shifted {n : ℕ} {place : ℤ} (small : n < 2 ^ 53) (notBelow : -1074 ≤ place) :
    nearest ((n : ℚ≥0) * 2 ^ place) = n * 2 ^ place := by
  rcases Nat.eq_zero_or_pos n with isZero | isPositive
  · rw [isZero, Nat.cast_zero, zero_mul, nearest_zero]
  · have isPositive' : (0 : ℚ≥0) < n * 2 ^ place :=
      mul_pos (by exact_mod_cast isPositive) (zpow_pos (by norm_num) _)
    have isLess : (n : ℚ≥0) * 2 ^ place < 2 ^ (53 + place) := by
      rw [zpow_add₀ (by norm_num)]
      refine mul_lt_mul_of_pos_right ?_ (zpow_pos (by norm_num) _)
      exact_mod_cast small
    have log : Int.log 2 ((n : ℚ≥0) * 2 ^ place) < 53 + place :=
      (Int.lt_zpow_iff_log_lt (by decide) isPositive').mp (by exact_mod_cast isLess)
    have notAbove : lastPlace ((n : ℚ≥0) * 2 ^ place) ≤ place := by
      unfold lastPlace
      omega
    obtain ⟨places, isPlaces⟩ := Int.eq_ofNat_of_zero_le (sub_nonneg.mpr notAbove)
    refine @nearest_of_places _ n places ?_
    rw [← isPlaces]
    congr 2
    omega

/-- A double is rounded to itself. -/
theorem nearest_nearest (exact : ℚ≥0) : nearest (nearest exact) = nearest exact := by
  have notBelow : -1074 ≤ lastPlace exact := le_max_right _ _
  rcases (nearestEven_le_two_pow exact).lt_or_eq with isLess | isEqual
  · exact nearest_shifted isLess notBelow
  · -- The last of a power of two is the first of the next.
    have shifted : nearest exact = ((2 ^ 52 : ℕ) : ℚ≥0) * 2 ^ (lastPlace exact + 1) := by
      rw [nearest, isEqual, zpow_add₀ (by norm_num)]
      push_cast
      ring
    rw [shifted]
    exact nearest_shifted (by norm_num) (by omega)

theorem nearest_mono (isLe : x ≤ y) : nearest x ≤ nearest y := by
  rcases eq_or_lt_of_le (zero_le : 0 ≤ x) with isZero | isPositive
  · rw [← isZero, nearest_zero]
    exact zero_le
  have logs : Int.log 2 x ≤ Int.log 2 y := Int.log_mono_right isPositive isLe
  by_cases samePlace : lastPlace x = lastPlace y
  · unfold nearest
    rw [samePlace]
    refine mul_le_mul_of_nonneg_right ?_ zero_le
    exact_mod_cast nearestEven_mono (div_le_div_of_nonneg_right isLe zero_le)
  · -- A power of two is between them.
    have places : lastPlace x < lastPlace y := by
      unfold lastPlace at samePlace ⊢
      omega
    have isLog : lastPlace y = Int.log 2 y - 52 := by
      unfold lastPlace at places ⊢
      omega
    have logLess : Int.log 2 x < Int.log 2 y := by
      unfold lastPlace at places
      omega
    have beneath : x ≤ 2 ^ Int.log 2 y :=
      calc
        x ≤ 2 ^ (Int.log 2 x + 1) := (Int.lt_zpow_succ_log_self (by decide) x).le
        _ ≤ 2 ^ Int.log 2 y := zpow_le_zpow_right₀ (by norm_num) (by omega)
    have above : (2 : ℚ≥0) ^ Int.log 2 y ≤ y :=
      by exact_mod_cast Int.zpow_log_le_self (b := 2) (by decide) (isPositive.trans_le isLe)
    have power (e : ℤ) (notAbove : e ≤ Int.log 2 y) :
        (2 : ℚ≥0) ^ Int.log 2 y / 2 ^ e = ((2 ^ (Int.log 2 y - e).toNat : ℕ) : ℚ≥0) := by
      rw [← zpow_sub₀ (by norm_num)]
      push_cast
      rw [← zpow_natCast, Int.toNat_of_nonneg (by omega)]
    have cancel (e : ℤ) (notAbove : e ≤ Int.log 2 y) :
        ((2 ^ (Int.log 2 y - e).toNat : ℕ) : ℚ≥0) * 2 ^ e = 2 ^ Int.log 2 y := by
      rw [← power e notAbove, div_mul_cancel₀ _ (zpow_pos (by norm_num) _).ne']
    calc
      nearest x ≤ 2 ^ Int.log 2 y := by
        rw [nearest, ← cancel (lastPlace x) (by omega)]
        refine mul_le_mul_of_nonneg_right ?_ zero_le
        have isLess :=
          nearestEven_mono
            (div_le_div_of_nonneg_right beneath (zero_le : (0 : ℚ≥0) ≤ 2 ^ lastPlace x))
        rw [power _ (by omega), nearestEven_natCast] at isLess
        exact_mod_cast isLess
      _ ≤ nearest y := by
        rw [nearest, ← cancel (lastPlace y) (by omega)]
        refine mul_le_mul_of_nonneg_right ?_ zero_le
        have isLess :=
          nearestEven_mono
            (div_le_div_of_nonneg_right above (zero_le : (0 : ℚ≥0) ≤ 2 ^ lastPlace y))
        rw [power _ (by omega), nearestEven_natCast] at isLess
        exact_mod_cast isLess

end IyaSts.Binary64
