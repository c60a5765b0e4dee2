import Mathlib.Data.Int.Log
import Mathlib.Data.NNRat.Floor
import Mathlib.Tactic.Linarith
import Mathlib.Tactic.Positivity
import Mathlib.Tactic.Ring

namespace IyaSts.Binary64

/-!
# Doubles

A finite double is a sign and a magnitude, an exact rational number.  An
operation gives the double nearest to its exact result, ties to even.  Zero
has both signs.
-/

-- Named, so that the definitions of every module have the same literals.
instance atLeastTwo_two : Nat.AtLeastTwo 2 := ⟨Nat.le_refl 2⟩

instance atLeastTwo_ten : Nat.AtLeastTwo 10 := ⟨by decide⟩

/-- A JavaScript number. -/
inductive Number where
  | nan
  | infinite (negative : Bool)
  | finite (negative : Bool) (magnitude : ℚ≥0)
  deriving DecidableEq

/-- The nearest integer, of two the even one. -/
def nearestEven (exact : ℚ≥0) : ℕ :=
  let low := ⌊exact⌋₊
  if exact - low < 1 / 2 ∨ (exact - low = 1 / 2 ∧ low % 2 = 0) then
    low
  else
    low + 1

/-- The exponent of a double's last place, of 53 places where it has them. -/
def lastPlace (exact : ℚ≥0) : ℤ := max (Int.log 2 exact - 52) (-1074)

/-- The magnitude of a double nearest to an exact one below `2^1024`. -/
def nearest (exact : ℚ≥0) : ℚ≥0 := nearestEven (exact / 2 ^ lastPlace exact) * 2 ^ lastPlace exact

/-! ## Rounding to an integer -/

theorem nearestEven_natCast (n : ℕ) : nearestEven n = n := by simp [nearestEven]


/-! ## Rounding to a double -/

theorem nearest_zero : nearest 0 = 0 := by simp [nearest, nearestEven]

/-- The smallest double above zero. -/
def smallest : ℚ := 2 ^ (-1074 : ℤ)

theorem smallest_pos : 0 < smallest := zpow_pos (by norm_num) _


/-- An integer of 53 places is a double. -/
theorem nearest_natCast {n : ℕ} (small : n < 2 ^ 53) : nearest (n : ℚ≥0) = n := by
  have log : Nat.log 2 n ≤ 52 := by
    rcases Nat.eq_zero_or_pos n with isZero | isPositive
    · simp [isZero]
    · exact Nat.lt_succ_iff.mp (Nat.log_lt_of_lt_pow isPositive.ne' small)
  obtain ⟨places, isPlace⟩ : ∃ places : ℕ, lastPlace (n : ℚ≥0) = -(places : ℤ) := by
    have notPositive : lastPlace (n : ℚ≥0) ≤ 0 := by
      rw [lastPlace, Int.log_natCast]
      omega
    exact ⟨(-lastPlace (n : ℚ≥0)).toNat, by omega⟩
  have scaled : (n : ℚ≥0) / 2 ^ lastPlace (n : ℚ≥0) = (n * 2 ^ places : ℕ) := by
    rw [isPlace, zpow_neg, div_inv_eq_mul, zpow_natCast]
    push_cast
    rfl
  rw [nearest, scaled, nearestEven_natCast, isPlace, zpow_neg, zpow_natCast]
  push_cast
  rw [mul_assoc, mul_inv_cancel₀ (by positivity), mul_one]

end IyaSts.Binary64
