import IyaSts.ReportRows
import Mathlib.Data.List.Lex

namespace IyaSts.Report

/-!
# The order of rows

A source row holds, for each field, nothing or a value of the field's type.  Of
such rows the order of a plan is a weak order, and a row that shows every field
of the order is ordered as the row it shows.
-/

open Binary64 (Number)
open Selection (Consistent)

/-! ## Source rows -/

/-- A field's value is nothing or of its type, a number a finite double. -/
def Typed (type : Option FieldType) (value : Scalar) : Prop :=
  match type, value with
  | _, .undefined => True
  | _, .null => True
  | _, .number number => IsFiniteDouble number
  | some .number, _ => False
  | _, _ => True

def RowTyped (types : String → Option FieldType) (row : Row) : Prop :=
  ∀ field, Typed (types field) (row.value field)

/-- A row as a source hands it. -/
abbrev SourceRow (types : String → Option FieldType) :=
  { row : Row // RowTyped types row }


theorem value_project (ids : List String) (row : Row) (id : String) :
    (project ids row).value id = if id ∈ ids then nullable (row.value id) else .undefined := by
  rw [project, Row.value]
  induction ids with
  | nil => rfl
  | cons first rest ih =>
    rw [List.map_cons, List.lookup_cons]
    by_cases isFirst : id = first
    · subst isFirst
      simp
    · rw [beq_false_of_ne isFirst]
      dsimp only
      rw [ih]
      simp [isFirst]

theorem typed_nullable {type : Option FieldType} {value : Scalar} (typed : Typed type value) :
    Typed type (nullable value) := by
  rw [nullable]
  split
  · rw [Typed]
    trivial
  · exact typed

/-- What a row shows is typed as it is. -/
theorem rowTyped_project {types : String → Option FieldType}
    {row : Row} (typed : RowTyped types row) (ids : List String) :
    RowTyped types (project ids row) := by
  intro field
  rw [value_project]
  split
  · exact typed_nullable (typed field)
  · rw [Typed]
    trivial

/-! ## Comparing -/

section

variable {platform : Platform}
variable {types : String → Option FieldType}

theorem place_zero : (Number.ofInt 0).place = 0 := by
  rw [Number.ofInt]
  simp [Number.place, Number.exactly]

/-- The sign of a difference tells which of two doubles is less. -/
theorem signOf_sub {first second : Number} (isFinite : IsFiniteDouble first)
    (isFinite' : IsFiniteDouble second) :
    (signOf (Number.sub first second) < 0 ↔ first.place < second.place) ∧
      (0 < signOf (Number.sub first second) ↔ second.place < first.place) := by
  obtain ⟨negative, magnitude, rfl⟩ := isFinite.eq_finite
  obtain ⟨negative', magnitude', rfl⟩ := isFinite'.eq_finite
  have isNumber :
      (Number.sub (.finite negative magnitude) (.finite negative' magnitude')).isNaN = false := by
    rw [Number.sub, Number.isNaN_finite_add]
    rfl
  have isNegative :
      Number.less (Number.sub (.finite negative magnitude) (.finite negative' magnitude'))
          (Number.ofInt 0) = true ↔
        Number.exactly negative magnitude < Number.exactly negative' magnitude' := by
    rw [Number.less_iff, place_zero, ← Number.place_sub_neg_iff isFinite.2.2 isFinite'.2.2]
    exact (and_iff_right isNumber).trans (and_iff_right rfl)
  have isPositive :
      Number.less (Number.ofInt 0)
          (Number.sub (.finite negative magnitude) (.finite negative' magnitude')) = true ↔
        Number.exactly negative' magnitude' < Number.exactly negative magnitude := by
    rw [Number.less_iff, place_zero, ← Number.place_sub_pos_iff isFinite.2.2 isFinite'.2.2]
    exact (and_iff_right rfl).trans (and_iff_right isNumber)
  rw [Number.place, Number.place, WithTop.coe_lt_coe, WithBot.coe_lt_coe, WithTop.coe_lt_coe,
    WithBot.coe_lt_coe, ← isNegative, ← isPositive, signOf]
  split
  · rename_i isLess
    refine ⟨iff_of_true (by decide) isLess, iff_of_false (by decide) ?_⟩
    rw [isPositive]
    exact lt_asymm (isNegative.mp isLess)
  · rename_i notLess
    split
    · rename_i isMore
      exact ⟨iff_of_false (by decide) notLess, iff_of_true (by decide) isMore⟩
    · rename_i notMore
      exact ⟨iff_of_false (by decide) notLess, iff_of_false (by decide) notMore⟩

variable (left right : String)

theorem compareTexts_neg_iff :
    compareTexts left right < 0 ↔ Json.codeUnits left < Json.codeUnits right := by
  rw [compareTexts]
  split
  · rename_i isLess
    exact iff_of_true (by decide) isLess
  · rename_i notLess
    refine iff_of_false ?_ notLess
    split <;> decide

theorem compareTexts_pos_iff :
    0 < compareTexts left right ↔ Json.codeUnits right < Json.codeUnits left := by
  rw [compareTexts]
  split
  · rename_i isLess
    exact iff_of_false (by decide) (lt_asymm isLess)
  · split
    · rename_i isMore
      exact iff_of_true (by decide) isMore
    · rename_i notMore
      exact iff_of_false (by decide) notMore

/-- What is absent sorts before all that is present. -/
def absentFirst (inner : Scalar → Scalar → Int) (left right : Scalar) : Int :=
  if left.isAbsent && right.isAbsent then 0
  else if left.isAbsent then -1
  else if right.isAbsent then 1
  else inner left right

theorem consistent_absentFirst {Place : Type} [LinearOrder Place] {type : Option FieldType}
    {inner : Scalar → Scalar → Int} {place : Scalar → Place}
    (before :
      ∀ {left right},
        left.isAbsent = false → right.isAbsent = false → Typed type left → Typed type right →
        (inner left right < 0 ↔ place left < place right))
    (after :
      ∀ {left right},
        left.isAbsent = false → right.isAbsent = false → Typed type left → Typed type right →
        (0 < inner left right ↔ place right < place left)) :
    Consistent fun left right : { value : Scalar // Typed type value } =>
      absentFirst inner left.val right.val := by
  refine
    @Selection.consistent_of_place _ (WithBot Place) _ _
      (fun value => if value.val.isAbsent then ⊥ else (place value.val : WithBot Place)) ?_ ?_
  · rintro ⟨left, typed⟩ ⟨right, typed'⟩
    rw [absentFirst]
    cases isLeft : left.isAbsent <;> cases isRight : right.isAbsent
    · simp [before isLeft isRight typed typed']
    · simp
    · simp
    · simp
  · rintro ⟨left, typed⟩ ⟨right, typed'⟩
    rw [absentFirst]
    cases isLeft : left.isAbsent <;> cases isRight : right.isAbsent
    · simp [after isLeft isRight typed typed']
    · simp
    · simp
    · simp

/-- The time that a timestamp is sorted by. -/
def timeOf (platform : Platform) (value : Scalar) : Number :=
  (stamp platform (.scalar value)).getD (Number.ofInt 0)

theorem isFiniteDouble_zero : IsFiniteDouble (Number.ofInt 0) := by
  refine ⟨rfl, rfl, ?_⟩
  rw [Number.ofInt]
  exact ⟨by simp [Binary64.nearest_zero], by simp⟩

variable {value : Scalar}

theorem isFiniteDouble_timeOf (typed : Typed (some .timestamp) value) :
    IsFiniteDouble (timeOf platform value) := by
  rw [timeOf]
  cases value with
  | number number =>
    obtain ⟨negative, magnitude, rfl⟩ := IsFiniteDouble.eq_finite typed
    exact typed
  | string text =>
    rw [stamp]
    split
    · rename_i isFinite
      refine ⟨?_, ?_, platform.dateParse_isDouble text⟩
      · revert isFinite
        cases platform.dateParse text <;> simp [isFinite, Number.isNaN]
      · revert isFinite
        cases platform.dateParse text <;> simp [isFinite, Number.isInfinite]
    · exact isFiniteDouble_zero
  | undefined => exact isFiniteDouble_zero
  | null => exact isFiniteDouble_zero
  | boolean value => exact isFiniteDouble_zero

theorem isFiniteDouble_toNumber (isPresent : value.isAbsent = false)
    (typed : Typed (some .number) value) :
    IsFiniteDouble (toNumber platform value) := by
  cases value with
  | number number => exact typed
  | undefined => cases isPresent
  | null => cases isPresent
  | boolean value => exact typed.elim
  | string text => exact typed.elim

/-- Values of a field are compared by a weak order. -/
theorem consistent_compare (field : String) :
    Consistent fun left right : { value : Scalar // Typed (types field) value } =>
      compare platform types field left.val right.val := by
  have byTexts {type : Option FieldType} :
      Consistent fun left right : { value : Scalar // Typed type value } =>
        absentFirst
          (fun left right => compareTexts (scalarText platform left) (scalarText platform right))
          left.val right.val :=
    @consistent_absentFirst _ _ type _ (fun value => Json.codeUnits (scalarText platform value))
      (fun _ _ _ _ => compareTexts_neg_iff _ _) fun _ _ _ _ => compareTexts_pos_iff _ _
  unfold compare
  generalize types field = type
  rcases type with _ | _ | _ | _ | _
  · exact byTexts
  · exact byTexts
  · exact
      @consistent_absentFirst _ _ (some .number)
        (fun left right => signOf (Number.sub (toNumber platform left) (toNumber platform right)))
        (fun value => (toNumber platform value).place)
        (fun present present' typed typed' =>
          (signOf_sub (isFiniteDouble_toNumber present typed)
            (isFiniteDouble_toNumber present' typed')).1)
        fun present present' typed typed' =>
          (signOf_sub (isFiniteDouble_toNumber present typed)
            (isFiniteDouble_toNumber present' typed')).2
  · exact byTexts
  · exact
      @consistent_absentFirst _ _ (some .timestamp)
        (fun left right => signOf (Number.sub (timeOf platform left) (timeOf platform right)))
        (fun value => (timeOf platform value).place)
        (fun _ _ typed typed' =>
          (signOf_sub (isFiniteDouble_timeOf typed) (isFiniteDouble_timeOf typed')).1)
        fun _ _ typed typed' =>
          (signOf_sub (isFiniteDouble_timeOf typed) (isFiniteDouble_timeOf typed')).2

/-! ## Ordering -/

/-- The order of source rows is a weak order. -/
theorem consistent_order (orderBy : List OrderKey) :
    Consistent fun first second : SourceRow types =>
      order platform types orderBy first.val second.val := by
  induction orderBy with
  | nil => exact ⟨fun _ _ => Iff.rfl, fun _ _ => le_rfl⟩
  | cons key rest ih =>
    have byField :
        Consistent fun first second : SourceRow types =>
          compare platform types key.field (first.val.value key.field)
            (second.val.value key.field) :=
      (@consistent_compare platform types key.field).comap
        fun row : SourceRow types => ⟨row.val.value key.field, row.property key.field⟩
    by_cases isDescending : key.dir = "desc"
    · refine (byField.neg.orElse ih).congr fun first second => ?_
      rw [order, if_pos isDescending]
      grind
    · refine (byField.orElse ih).congr fun first second => ?_
      rw [order, if_neg isDescending]
      grind

theorem compare_nullable (field : String) (left right : Scalar) :
    compare platform types field (nullable left) (nullable right) =
      compare platform types field left right := by
  have isAbsent (value : Scalar) : (nullable value).isAbsent = value.isAbsent := by
    cases value <;> rfl
  have ofPresent {value : Scalar} (isPresent : value.isAbsent = false) : nullable value = value := by
    rw [nullable, isPresent, if_neg Bool.false_ne_true]
  rw [compare, compare, isAbsent, isAbsent]
  cases isLeft : left.isAbsent with
  | true => cases right.isAbsent <;> rfl
  | false =>
    cases isRight : right.isAbsent with
    | true => rfl
    | false => rw [ofPresent isLeft, ofPresent isRight]

/-- A row that shows every field of an order is ordered as the row it shows. -/
theorem order_project {orderBy : List OrderKey} {ids : List String}
    (shown : ∀ key ∈ orderBy, key.field ∈ ids) (first second : Row) :
    order platform types orderBy (project ids first) (project ids second) =
      order platform types orderBy first second := by
  induction orderBy with
  | nil => rfl
  | cons key rest ih =>
    obtain ⟨isShown, others⟩ := List.forall_mem_cons.mp shown
    rw [order, order, value_project, value_project, if_pos isShown, if_pos isShown,
      compare_nullable, ih others]

end

end IyaSts.Report
