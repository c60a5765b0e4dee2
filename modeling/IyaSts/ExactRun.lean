import Mathlib.Logic.Basic

namespace IyaSts

/-!
# Arithmetic with its results kept

A run of integer operations, each on exact integers, with every result on the way.
Where all of them are within the bounds of a machine integer the machine computes
the same; the first that is not is where it overflows.
-/

open List

/-- What is computed, and the results of the operations in order. -/
structure ExactRun (α : Type) where
  value : α
  results : List Int
  deriving DecidableEq

namespace ExactRun

variable {α β : Type}

instance : Monad ExactRun where
  pure value := { value := value, results := [] }
  bind run next :=
    { value := (next run.value).value
      results := run.results ++ (next run.value).results }

/-- An operation with its exact result. -/
def result (exact : Int) : ExactRun Int where
  value := exact
  results := [exact]

def plus (left right : Int) : ExactRun Int := result (left + right)

def minus (left right : Int) : ExactRun Int := result (left - right)

def times (left right : Int) : ExactRun Int := result (left * right)

def negate (operand : Int) : ExactRun Int := result (-operand)

/-- Every result is within the bounds. -/
def Within (low high : Int) (run : ExactRun α) : Prop :=
  ∀ exact ∈ run.results, low ≤ exact ∧ exact ≤ high

@[simp]
theorem value_pure (value : α) : (pure value : ExactRun α).value = value := rfl

@[simp]
theorem value_bind (run : ExactRun α) (next : α → ExactRun β) :
    (run >>= next).value = (next run.value).value :=
  rfl

@[simp]
theorem value_result (exact : Int) : (result exact).value = exact := rfl

variable (left right : Int)

@[simp]
theorem value_plus : (plus left right).value = left + right := rfl

@[simp]
theorem value_minus : (minus left right).value = left - right := rfl

@[simp]
theorem value_times : (times left right).value = left * right := rfl

@[simp]
theorem value_negate (operand : Int) : (negate operand).value = -operand := rfl

section Within

variable {low high : Int}

@[simp]
theorem within_pure (value : α) : (pure value : ExactRun α).Within low high := by
  intro exact member
  exact absurd member not_mem_nil

/-- A run is within the bounds when its parts are. -/
@[simp]
theorem within_bind {run : ExactRun α} {next : α → ExactRun β} :
    (run >>= next).Within low high ↔ run.Within low high ∧ (next run.value).Within low high := by
  constructor
  · intro within
    exact
      ⟨fun exact member => within exact (mem_append_left _ member),
        fun exact member => within exact (mem_append_right _ member)⟩
  · rintro ⟨first, second⟩ exact member
    rcases mem_append.mp member with member | member
    · exact first exact member
    · exact second exact member

@[simp]
theorem within_result {exact : Int} :
    (result exact).Within low high ↔ low ≤ exact ∧ exact ≤ high := by
  constructor
  · intro within
    exact within exact (mem_singleton.mpr rfl)
  · intro within other member
    rw [mem_singleton.mp member]
    exact within

variable {left right : Int}

@[simp]
theorem within_plus :
    (plus left right).Within low high ↔ low ≤ left + right ∧ left + right ≤ high :=
  within_result

@[simp]
theorem within_minus :
    (minus left right).Within low high ↔ low ≤ left - right ∧ left - right ≤ high :=
  within_result

@[simp]
theorem within_times :
    (times left right).Within low high ↔ low ≤ left * right ∧ left * right ≤ high :=
  within_result

@[simp]
theorem within_negate {operand : Int} :
    (negate operand).Within low high ↔ low ≤ -operand ∧ -operand ≤ high :=
  within_result

end Within

end ExactRun

end IyaSts
