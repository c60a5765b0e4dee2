import Mathlib.Data.List.Perm.Basic
import Mathlib.Data.List.Forall2
import Mathlib.Order.Lattice

namespace IyaSts.StrongKleene

/-!
# Strong three-valued logic

False, unknown and true in this order: a conjunction is the least of its parts
and a disjunction the greatest.  An unknown value may turn out to be any; what
is known of the whole does not change when it does.
-/

/-- A truth value that may be unknown. -/
inductive Truth where
  | isFalse
  | unknown
  | isTrue
  deriving DecidableEq

namespace Truth

/-- The place of a value in the order. -/
def rank : Truth → Nat
  | .isFalse => 0
  | .unknown => 1
  | .isTrue => 2

theorem rank_injective : Function.Injective rank := by
  intro first second same
  cases first <;> cases second <;> first | rfl | cases same

instance : LinearOrder Truth := LinearOrder.lift' rank rank_injective

/-- A value may turn out to be another: an unknown one any, a known one only
itself. -/
def Becomes (before after : Truth) : Prop := before = .unknown ∨ before = after

variable (value : Truth)

@[refl] theorem Becomes.refl : Becomes value value := Or.inr rfl

/-- What is known stays as it is. -/
theorem Becomes.eq_of_known {before after : Truth} (becomes : Becomes before after)
    (known : before ≠ .unknown) :
    after = before := by
  rcases becomes with isUnknown | same
  · exact absurd isUnknown known
  · exact same.symm

variable {first first' second second' : Truth}

theorem Becomes.min (left : Becomes first first') (right : Becomes second second') :
    Becomes (first ⊓ second) (first' ⊓ second') := by
  revert left right
  unfold Becomes
  cases first <;> cases first' <;> cases second <;> cases second' <;> decide

theorem Becomes.max (left : Becomes first first') (right : Becomes second second') :
    Becomes (first ⊔ second) (first' ⊔ second') := by
  revert left right
  unfold Becomes
  cases first <;> cases first' <;> cases second <;> cases second' <;> decide

@[simp] theorem isFalse_inf : isFalse ⊓ value = isFalse := by cases value <;> rfl

@[simp] theorem isTrue_inf : isTrue ⊓ value = value := by cases value <;> rfl

@[simp] theorem isFalse_sup : isFalse ⊔ value = value := by cases value <;> rfl

@[simp] theorem isTrue_sup : isTrue ⊔ value = isTrue := by cases value <;> rfl

end Truth

/-- The conjunction of many. -/
def all (values : List Truth) : Truth := values.foldr (· ⊓ ·) .isTrue

/-- The disjunction of many. -/
def any (values : List Truth) : Truth := values.foldr (· ⊔ ·) .isFalse


variable (value : Truth) (rest : List Truth)

@[simp] theorem all_cons :
    all (value :: rest) = value ⊓ all rest :=
  rfl

@[simp] theorem any_cons :
    any (value :: rest) = value ⊔ any rest :=
  rfl

variable {values others : List Truth}

/-- The order of the parts is nothing to a conjunction. -/
theorem all_perm (same : values.Perm others) : all values = all others := by
  unfold all
  exact same.foldr_eq (f := (· ⊓ ·)) Truth.isTrue

/-- Nor to a disjunction. -/
theorem any_perm (same : values.Perm others) : any values = any others := by
  unfold any
  exact same.foldr_eq (f := (· ⊔ ·)) Truth.isFalse

/-- What is known of a conjunction stays when its parts become known. -/
theorem all_becomes (become : List.Forall₂ Truth.Becomes values others) :
    (all values).Becomes (all others) := by
  induction become with
  | nil => exact .refl _
  | cons first _ ih => exact first.min ih

/-- What is known of a disjunction stays when its parts become known. -/
theorem any_becomes (become : List.Forall₂ Truth.Becomes values others) :
    (any values).Becomes (any others) := by
  induction become with
  | nil => exact .refl _
  | cons first _ ih => exact first.max ih

end IyaSts.StrongKleene
