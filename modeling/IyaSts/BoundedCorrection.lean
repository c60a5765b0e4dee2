import Mathlib.Data.Int.ConditionallyCompleteOrder
import Mathlib.Data.Int.LeastGreatest
import Mathlib.Order.Monotone.Basic
import Mathlib.Tactic.Linarith

namespace IyaSts.BoundedCorrection

/-!
# An estimated index, corrected step by step

Boundaries that strictly increase cut the line into periods.  The period of a point
is estimated by a division, which is off by less than a period and a half, and then
corrected by single steps, of which only so many are made.
-/

/-! ## Steps -/

/-- At most so many steps down, while the index is too far. -/
def stepDown (tooFar : Int → Bool) : Nat → Int → Int
  | 0, index => index
  | steps + 1, index => if tooFar index then stepDown tooFar steps (index - 1) else index

/-- At most so many steps up, while the index is behind. -/
def stepUp (behind : Int → Bool) : Nat → Int → Int
  | 0, index => index
  | steps + 1, index => if behind index then stepUp behind steps (index + 1) else index

section Steps

variable {tooFar behind : Int → Bool} {k index : Int}

theorem stepDown_of_not (isNot : tooFar index = false) (steps : Nat) :
    stepDown tooFar steps index = index := by
  cases steps with
  | zero => rfl
  | succ steps =>
    rw [stepDown, isNot]
    rfl

theorem stepUp_of_not (isNot : behind index = false) (steps : Nat) :
    stepUp behind steps index = index := by
  cases steps with
  | zero => rfl
  | succ steps =>
    rw [stepUp, isNot]
    rfl

/-- No step leads below an index that is not too far. -/
theorem le_stepDown (notTooFar : ∀ j, tooFar j = true → k < j) (notBelow : k ≤ index)
    (steps : Nat) :
    k ≤ stepDown tooFar steps index := by
  induction steps generalizing index with
  | zero => exact notBelow
  | succ steps ih =>
    rw [stepDown]
    split
    · rename_i isTooFar
      have isAbove := notTooFar index isTooFar
      exact ih (by omega)
    · exact notBelow

theorem le_stepUp (steps : Nat) : index ≤ stepUp behind steps index := by
  induction steps generalizing index with
  | zero => exact le_rfl
  | succ steps ih =>
    rw [stepUp]
    split
    · have isAbove := @ih (index + 1)
      omega
    · exact le_rfl

variable {steps : Nat}

/-- Enough steps reach the first index that is not too far. -/
theorem stepDown_eq (notBelow : k ≤ index) (enough : index - k ≤ steps)
    (above : ∀ j, k < j → j ≤ index → tooFar j = true) (isNot : tooFar k = false) :
    stepDown tooFar steps index = k := by
  induction steps generalizing index with
  | zero => exact le_antisymm (by rw [stepDown]; omega) notBelow
  | succ steps ih =>
    by_cases isReached : index = k
    · rw [isReached]
      exact stepDown_of_not isNot _
    · rw [stepDown, above index (by omega) le_rfl, if_pos rfl]
      exact
        ih (by omega) (by omega) fun j isAbove isBelow => above j isAbove (by omega)

theorem stepUp_eq (notAbove : index ≤ k) (enough : k - index ≤ steps)
    (beneath : ∀ j, index ≤ j → j < k → behind j = true) (isNot : behind k = false) :
    stepUp behind steps index = k := by
  induction steps generalizing index with
  | zero => exact le_antisymm notAbove (by rw [stepUp]; omega)
  | succ steps ih =>
    by_cases isReached : index = k
    · rw [isReached]
      exact stepUp_of_not isNot _
    · rw [stepUp, beneath index le_rfl (by omega), if_pos rfl]
      exact
        ih (by omega) (by omega) fun j isAbove isBelow => beneath j (by omega) isBelow

end Steps

/-! ## Periods -/

section Periods

variable {boundary : Int → Int} {now k : Int}

/-- The period a point falls in. -/
def Within (boundary : Int → Int) (now k : Int) : Prop := boundary k ≤ now ∧ now < boundary (k + 1)

theorem Within.unique {k' : Int} (increasing : StrictMono boundary)
    (within : Within boundary now k) (within' : Within boundary now k') :
    k' = k := by
  have before : k < k' + 1 := increasing.lt_iff_lt.mp (lt_of_le_of_lt within.1 within'.2)
  have after : k' < k + 1 := increasing.lt_iff_lt.mp (lt_of_le_of_lt within'.1 within.2)
  omega

/-- Boundaries of integers are at least one apart. -/
theorem add_le_boundary (increasing : StrictMono boundary) (steps : Nat) :
    boundary 0 + steps ≤ boundary steps := by
  induction steps with
  | zero => simp
  | succ steps ih =>
    have next : boundary steps < boundary (steps + 1) := increasing (by omega)
    push_cast
    omega

/-- Every point from the first boundary on falls in a period. -/
theorem exists_within (increasing : StrictMono boundary) (begun : boundary 0 ≤ now) :
    ∃ k, 0 ≤ k ∧ Within boundary now k := by
  obtain ⟨k, isReached, isLast⟩ :=
    Int.exists_greatest_of_bdd (P := fun k => boundary k ≤ now)
      ⟨now - boundary 0, fun k isReached => by
        by_cases isNegative : k < 0
        · omega
        · have apart := add_le_boundary increasing k.toNat
          rw [Int.toNat_of_nonneg (by omega)] at apart
          omega⟩
      ⟨0, begun⟩
  refine ⟨k, isLast 0 begun, isReached, ?_⟩
  by_contra notOver
  have isNext := isLast (k + 1) (not_lt.mp notOver)
  omega

/-- Boundaries that stray from even ones by less than a period. -/
structure Even (boundary : Int → Int) (start span : Int) : Prop where
  near :
    ∃ drift, drift < span ∧
      ∀ k, start + k * span - drift ≤ boundary k ∧ boundary k ≤ start + k * span + drift

/-- A division by the even length is at most one period off. -/
theorem Even.estimate {start span : Int} (even : Even boundary start span)
    (within : Within boundary now k) :
    k - 1 ≤ (now - start) / span ∧ (now - start) / span ≤ k + 1 := by
  obtain ⟨drift, isLess, near⟩ := even.near
  have ofBegin := (near k).1
  have ofEnd := (near (k + 1)).2
  have notNegative : 0 ≤ drift := by
    have both := near 0
    omega
  obtain ⟨isReached, notOver⟩ := within
  constructor
  · rw [Int.le_ediv_iff_mul_le (by omega), sub_mul]
    linarith
  · rw [← Int.lt_add_one_iff, Int.ediv_lt_iff_lt_mul (by omega), add_mul, add_mul]
    rw [add_mul] at ofEnd
    linarith

end Periods

end IyaSts.BoundedCorrection
