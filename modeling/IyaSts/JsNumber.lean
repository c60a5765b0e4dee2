import Mathlib.Data.Int.Basic
import Mathlib.Data.Nat.Log
import Mathlib.Tactic.Ring

namespace IyaSts.JsNumber

/-!
# Integers as JavaScript numbers

A number is a double: arithmetic on integers is exact up to `2^53` and rounds
beyond it.  The bitwise operators read 32 bits of it, as a signed integer.
-/

/-- `Number.MAX_SAFE_INTEGER`. -/
def maxSafeInteger : Nat := 2 ^ 53 - 1

/-- `Number.isSafeInteger`, on a number that is an integer. -/
def isSafeInteger (value : Int) : Bool := value.natAbs ≤ maxSafeInteger

/-- The magnitude of a double nearest to an integer's, ties to even. -/
def roundMagnitude (magnitude : Nat) : Nat :=
  if magnitude ≤ 2 ^ 53 then
    magnitude
  else
    let unit := 2 ^ (Nat.log 2 magnitude - 52)
    let quotient := magnitude / unit
    let remainder := magnitude % unit
    if 2 * remainder < unit ∨
        (2 * remainder = unit ∧ quotient % 2 = 0) then
      quotient * unit
    else
      (quotient + 1) * unit

/-- The double an arithmetic operation gives for its exact integer result. -/
def toDouble (exact : Int) : Int := exact.sign * roundMagnitude exact.natAbs

/-- Up to `2^53` arithmetic is exact. -/
theorem toDouble_eq {exact : Int} (small : exact.natAbs ≤ 2 ^ 53) : toDouble exact = exact := by
  simp only [toDouble, roundMagnitude, small, if_true]
  exact Int.sign_mul_natAbs exact

/-- `ToInt32`: the 32 low bits of an integer, as a signed one. -/
def toInt32 (value : Int) : Int := value.bmod (2 ^ 32)

variable {value : Int}

/-- Below `2^31` nothing is lost. -/
theorem toInt32_eq (notNegative : 0 ≤ value) (small : value < 2 ^ 31) : toInt32 value = value := by
  rw [toInt32, Int.bmod_def]
  omega

/-- The upper half of the 32-bit range reads as negative. -/
theorem toInt32_negative (large : 2 ^ 31 ≤ value) (small : value < 2 ^ 32) : toInt32 value < 0 := by
  rw [toInt32, Int.bmod_def]
  omega

/-- `value >> count`. -/
def shiftRight (value : Int) (count : Nat) : Int := toInt32 value / 2 ^ count

/-- `value & (2^count - 1)`, for the masks of the low bits. -/
def lowBits (value : Int) (count : Nat) : Nat := (value % 2 ^ count).toNat

/-- A value handed in: a number that is an integer, or anything else. -/
inductive Argument where
  | integer (value : Int)
  -- Anything else, by what `String` and `JSON.stringify` make of it.
  | other (text json : String)
  deriving DecidableEq

/-- `String(value)`. -/
def Argument.text : Argument → String
  | .integer value => toString value
  | .other text _ => text

/-- `JSON.stringify(value)`. -/
def Argument.json : Argument → String
  | .integer value => toString value
  | .other _ json => json

instance : Coe Nat Argument := ⟨fun value => .integer value⟩

end IyaSts.JsNumber
