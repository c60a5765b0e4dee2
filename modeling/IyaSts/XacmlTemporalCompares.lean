import IyaSts.XacmlTemporal
import Mathlib.Tactic.Linarith

namespace IyaSts.Xacml

/-!
# Comparing dates and times

A value without a timezone could be at any instant of twenty-eight hours.  Two
values compare as their instants do whatever timezone is assumed, and where that
depends on the timezone they do not compare.
-/

/-! ## Instants -/

/-- The timezones a value may be in, in minutes. -/
def TimezoneRange (tz : Int) : Prop := -(14 * 60) ≤ tz ∧ tz ≤ 14 * 60

/-- An instant that moves against the timezone that is assumed, where one is. -/
def Assumes (value : Temporal) (instant : Int → Rat) : Prop :=
  ∀ tz, instant tz = instant 0 - (if value.tz.isSome then 0 else tz * 60)

theorem signOf_eq_lt_iff {left right : Rat} : signOf left right = .lt ↔ left < right := by
  unfold signOf
  split
  · rename_i less
    simpa using less
  · rename_i notLess
    split <;> simpa using notLess

theorem signOf_eq_gt_iff {left right : Rat} : signOf left right = .gt ↔ right < left := by
  unfold signOf
  split
  · rename_i less
    simpa using less.le
  · split
    · rename_i greater
      simpa using greater
    · rename_i notGreater
      simpa using notGreater

theorem signOf_eq_eq_iff {left right : Rat} : signOf left right = .eq ↔ left = right := by
  unfold signOf
  split
  · rename_i less
    simpa using less.ne
  · split
    · rename_i greater
      simpa using greater.ne'
    · rename_i notLess notGreater
      simpa using le_antisymm (not_lt.mp notGreater) (not_lt.mp notLess)

/-- Two instants that move together keep their order. -/
theorem signOf_sub (left right moved : Rat) :
    signOf (left - moved) (right - moved) = signOf left right := by
  cases order : signOf left right with
  | lt =>
    rw [signOf_eq_lt_iff] at order ⊢
    linarith
  | gt =>
    rw [signOf_eq_gt_iff] at order ⊢
    linarith
  | eq =>
    rw [signOf_eq_eq_iff] at order ⊢
    rw [order]

variable {left right : Int → Rat} {first second : Temporal}

/-- Instants that compare alike at both ends of the range compare so within it. -/
theorem signOf_within (leftAssumes : Assumes first left)
    (rightAssumes : Assumes second right) {sign : Ordering}
    (atLow : signOf (left (14 * 60)) (right (14 * 60)) = sign)
    (atHigh : signOf (left (-(14 * 60))) (right (-(14 * 60))) = sign)
    {tz : Int} (inRange : TimezoneRange tz) :
    signOf (left tz) (right tz) = sign := by
  obtain ⟨notBelow, notAbove⟩ := inRange
  have notBelowRat : (-(14 * 60) : Rat) ≤ tz := by exact_mod_cast notBelow
  have notAboveRat : (tz : Rat) ≤ 14 * 60 := by exact_mod_cast notAbove
  rw [leftAssumes, rightAssumes] at atLow atHigh ⊢
  push_cast at atLow atHigh
  cases sign with
  | lt =>
    rw [signOf_eq_lt_iff] at atLow atHigh ⊢
    split at atLow <;> split at atLow <;> simp_all <;> linarith
  | gt =>
    rw [signOf_eq_gt_iff] at atLow atHigh ⊢
    split at atLow <;> split at atLow <;> simp_all <;> linarith
  | eq =>
    rw [signOf_eq_eq_iff] at atLow atHigh ⊢
    split at atLow <;> split at atLow <;> simp_all <;> linarith

/-- Where both values have a timezone or both lack one, it is nothing to their
order. -/
theorem signOf_same (leftAssumes : Assumes first left) (rightAssumes : Assumes second right)
    (alike : first.tz.isSome = second.tz.isSome) (tz : Int) :
    signOf (left tz) (right tz) = signOf (left 0) (right 0) := by
  rw [leftAssumes, rightAssumes, alike, signOf_sub]

/-! ## The two engines -/

variable (value : Temporal)

theorem Node.instantSeconds_assumes :
    Assumes value (Node.instantSeconds value) := by
  intro tz
  unfold Node.instantSeconds
  cases value.tz with
  | none => simp
  | some known => simp

theorem Rust.instantSeconds_assumes :
    Assumes value (Rust.instantSeconds value) := by
  intro tz
  unfold Rust.instantSeconds
  cases value.tz with
  | none => simp
  | some known => simp

/-- What is compared: directly where both have a timezone or both lack one, else at
both ends of the range. -/
def compareAtEnds (left right : Temporal)
    (leftInstant rightInstant : Int → Rat) : Option Ordering :=
  if left.tz.isSome = right.tz.isSome then
    some (signOf (leftInstant 0) (rightInstant 0))
  else
    let first := signOf (leftInstant (14 * 60)) (rightInstant (14 * 60))
    let second := signOf (leftInstant (-(14 * 60))) (rightInstant (-(14 * 60)))
    if first = second then some first else none

theorem Node.instantSeconds_getD (tz : Int) :
    Node.instantSeconds value (value.tz.getD tz) = Node.instantSeconds value tz := by
  unfold Node.instantSeconds
  cases value.tz <;> rfl

theorem Node.compareTemporal_eq (left right : Temporal) :
    Node.compareTemporal left right =
      compareAtEnds left right (Node.instantSeconds left) (Node.instantSeconds right) := by
  simp only [Node.compareTemporal, Node.instantSeconds_getD, compareAtEnds]
  rfl

theorem Rust.compareTemporal_eq (left right : Temporal) :
    Rust.compareTemporal left right =
      compareAtEnds left right (Rust.instantSeconds left) (Rust.instantSeconds right) :=
  rfl

/-- The comparison answers a sign exactly when the instants have it whatever the
timezone. -/
theorem compareAtEnds_iff {left right : Temporal} {leftInstant rightInstant : Int → Rat}
    (leftAssumes : Assumes left leftInstant) (rightAssumes : Assumes right rightInstant)
    (sign : Ordering) :
    compareAtEnds left right leftInstant rightInstant = some sign ↔
      ∀ tz, TimezoneRange tz → signOf (leftInstant tz) (rightInstant tz) = sign := by
  unfold compareAtEnds
  split
  · rename_i alike
    have same := signOf_same leftAssumes rightAssumes alike
    constructor
    · intro answered tz _
      rw [same]
      exact Option.some.inj answered
    · intro everywhere
      rw [everywhere 0 ⟨by decide, by decide⟩]
  · constructor
    · intro answered tz inRange
      simp only at answered
      split at answered
      · rename_i sameEnds
        have atLow := Option.some.inj answered
        exact signOf_within leftAssumes rightAssumes atLow (sameEnds ▸ atLow) inRange
      · cases answered
    · intro everywhere
      simp only
      rw [everywhere (14 * 60) ⟨by decide, by decide⟩,
        everywhere (-(14 * 60)) ⟨by decide, by decide⟩, if_pos rfl]

/--
A comparison of dates, times or dateTimes orders them as the instants they stand
for: it answers a sign exactly when the instants have it for every timezone given
to the values that lack one, and what is less by it is ordered strictly.
-/
structure OrdersInstants (instantSeconds : Temporal → Int → Rat)
    (compareTemporal : Temporal → Temporal → Option Ordering) : Prop where
  answers :
    ∀ left right sign,
      compareTemporal left right = some sign ↔
        ∀ tz, TimezoneRange tz → signOf (instantSeconds left tz) (instantSeconds right tz) = sign
  irreflexive : ∀ value, compareTemporal value value ≠ some .lt
  asymmetric :
    ∀ left right, compareTemporal left right = some .lt → compareTemporal right left ≠ some .lt
  transitive :
    ∀ first second third,
      compareTemporal first second = some .lt →
        compareTemporal second third = some .lt → compareTemporal first third = some .lt

theorem OrdersInstants.ofAnswers {instantSeconds : Temporal → Int → Rat}
    {compareTemporal : Temporal → Temporal → Option Ordering}
    (answers :
      ∀ left right sign,
        compareTemporal left right = some sign ↔
          ∀ tz, TimezoneRange tz →
            signOf (instantSeconds left tz) (instantSeconds right tz) = sign) :
    OrdersInstants instantSeconds compareTemporal := by
  have utc : TimezoneRange 0 := ⟨by decide, by decide⟩
  have less
      {left right : Temporal}
      (isLess : compareTemporal left right = some .lt)
      {tz : Int}
      (inRange : TimezoneRange tz) :
      instantSeconds left tz < instantSeconds right tz :=
    signOf_eq_lt_iff.mp ((answers left right .lt).mp isLess tz inRange)
  refine
    { answers := answers
      irreflexive := ?_
      asymmetric := ?_
      transitive := ?_ }
  · intro value isLess
    exact absurd (less isLess utc) (lt_irrefl _)
  · intro left right isLess isGreater
    exact absurd (less isLess utc) (less isGreater utc).asymm
  · intro first second third firstLess secondLess
    refine (answers first third .lt).mpr fun tz inRange => ?_
    exact signOf_eq_lt_iff.mpr ((less firstLess inRange).trans (less secondLess inRange))

end IyaSts.Xacml
