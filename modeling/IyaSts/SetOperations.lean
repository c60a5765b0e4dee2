import Mathlib.Data.List.Basic

namespace IyaSts.SetOperations

/-!
# Sets in lists, by an equality of their own

Membership, intersection, union and set equality of lists, where a value counts as
another by some test.  They are what their names say on values on which the test is
an equivalence.
-/

open List

universe u

variable {Value : Type u} (equal : Value → Value → Bool)

/-- `bagHas`. -/
def bagHas (values : List Value) (candidate : Value) : Bool :=
  values.any fun value => equal value candidate

/-- The loop of `intersection`. -/
def intersection (left right : List Value) : List Value :=
  left.foldl (fun result candidate =>
    if bagHas equal right candidate && !bagHas equal result candidate then
      result ++ [candidate]
    else
      result) []

/-- The loop of `union` over one bag. -/
def addNew (result source : List Value) : List Value :=
  source.foldl (fun result candidate =>
    if !bagHas equal result candidate then
      result ++ [candidate]
    else
      result) result

/-- `union`. -/
def union (left right : List Value) : List Value := addNew equal (addNew equal [] left) right

/-- `at-least-one-member-of`. -/
def atLeastOneMemberOf (left right : List Value) : Bool :=
  left.any fun candidate => bagHas equal right candidate

/-- `subset`. -/
def subset (left right : List Value) : Bool :=
  left.all fun candidate => bagHas equal right candidate

/-- `set-equals`. -/
def setEquals (left right : List Value) : Bool :=
  (left.all fun candidate => bagHas equal right candidate) &&
    right.all fun candidate => bagHas equal left candidate

/-! ## What they are meant to be -/

/-- A test that is an equivalence on some values. -/
structure EquivalenceOn (Sound : Value → Prop) : Prop where
  refl : ∀ value, Sound value → equal value value = true
  symm :
    ∀ first second, Sound first → Sound second →
      equal first second = true → equal second first = true
  trans :
    ∀ first second third, Sound first → Sound second → Sound third →
      equal first second = true → equal second third = true → equal first third = true

/-- No two values are equal. -/
def Distinct (values : List Value) : Prop :=
  values.Pairwise fun first second => equal first second = false ∧ equal second first = false

/-- What holds of sets, of two lists. -/
structure SetLaws (left right : List Value) : Prop where
  subsetSelf : subset equal left left = true
  setEqualsSelf : setEquals equal left left = true
  setEqualsSymm : setEquals equal left right = setEquals equal right left
  intersectionDistinct : Distinct equal (intersection equal left right)
  unionDistinct : Distinct equal (union equal left right)
  intersectionComm :
    setEquals equal (intersection equal left right) (intersection equal right left) = true
  atLeastOne : atLeastOneMemberOf equal left right = true ↔ intersection equal left right ≠ []

/-! ## Membership -/

section Membership

variable {equal}

theorem bagHas_iff (values : List Value) (candidate : Value) :
    bagHas equal values candidate = true ↔ ∃ value ∈ values, equal value candidate = true := by
  simp [bagHas]

theorem subset_iff (left right : List Value) :
    subset equal left right = true ↔
      ∀ candidate ∈ left, ∃ value ∈ right, equal value candidate = true := by
  simp [subset, bagHas_iff]

theorem setEquals_eq (left right : List Value) :
    setEquals equal left right = (subset equal left right && subset equal right left) :=
  rfl

theorem setEquals_symm (left right : List Value) :
    setEquals equal left right = setEquals equal right left := by
  rw [setEquals_eq, setEquals_eq, Bool.and_comm]

end Membership

/-! ## Intersections and unions -/

section Laws

variable {equal} {Sound : Value → Prop}

/-- A value is kept unless one like it is. -/
theorem distinct_append (equivalence : EquivalenceOn equal Sound) {values : List Value}
    {candidate : Value} (sound : ∀ value ∈ values, Sound value)
    (isSound : Sound candidate) (distinct : Distinct equal values)
    (notHeld : bagHas equal values candidate = false) :
    Distinct equal (values ++ [candidate]) := by
  rw [Distinct, pairwise_append]
  refine ⟨distinct, pairwise_singleton _ _, ?_⟩
  intro value isValue other isOther
  rw [mem_singleton] at isOther
  subst isOther
  rw [← Bool.not_eq_true, bagHas_iff] at notHeld
  constructor
  · rw [← Bool.not_eq_true]
    exact fun isEqual => notHeld ⟨value, isValue, isEqual⟩
  · rw [← Bool.not_eq_true]
    intro isEqual
    exact notHeld ⟨value, isValue, equivalence.symm _ _ isSound (sound value isValue) isEqual⟩

/-- A loop that keeps candidates one by one, of those that are taken at all. -/
theorem foldl_keeps (equivalence : EquivalenceOn equal Sound) (taken : Value → Bool)
    (source result : List Value) (soundSource : ∀ value ∈ source, Sound value)
    (soundResult : ∀ value ∈ result, Sound value) (distinct : Distinct equal result) :
    let kept :=
      source.foldl (fun result candidate =>
        if taken candidate && !bagHas equal result candidate then
          result ++ [candidate]
        else
          result) result
    Distinct equal kept ∧
      (∀ value ∈ kept, value ∈ result ∨ (value ∈ source ∧ taken value = true)) ∧
        (∀ value ∈ result, value ∈ kept) ∧
          ∀ value ∈ source, taken value = true → bagHas equal kept value = true := by
  induction source generalizing result with
  | nil =>
    exact
      ⟨distinct, fun _ isKept => .inl isKept, fun _ isHeld => isHeld,
        fun _ isSource => (nomatch isSource)⟩
  | cons candidate rest ih =>
    rw [forall_mem_cons] at soundSource
    obtain ⟨isSound, soundRest⟩ := soundSource
    simp only [foldl_cons]
    by_cases isKept : (taken candidate && !bagHas equal result candidate) = true
    · rw [if_pos isKept]
      rw [Bool.and_eq_true, Bool.not_eq_true'] at isKept
      obtain ⟨distinctKept, origin, held, found⟩ :=
        ih (result ++ [candidate]) soundRest (by
            intro value isValue
            rw [mem_append, mem_singleton] at isValue
            rcases isValue with isResult | rfl
            · exact soundResult value isResult
            · exact isSound)
          (distinct_append equivalence soundResult isSound distinct isKept.2)
      refine ⟨distinctKept, ?_, ?_, ?_⟩
      · intro value isValue
        rcases origin value isValue with isResult | ⟨isRest, isTaken⟩
        · rw [mem_append, mem_singleton] at isResult
          rcases isResult with isResult | rfl
          · exact .inl isResult
          · exact .inr ⟨mem_cons_self, isKept.1⟩
        · exact .inr ⟨mem_cons_of_mem _ isRest, isTaken⟩
      · exact fun value isResult => held value (mem_append_left _ isResult)
      · intro value isSource isTaken
        rcases mem_cons.mp isSource with rfl | isRest
        · rw [bagHas_iff]
          exact
            ⟨value, held value (mem_append_right _ mem_cons_self),
              equivalence.refl value isSound⟩
        · exact found value isRest isTaken
    · rw [if_neg isKept]
      obtain ⟨distinctKept, origin, held, found⟩ := ih result soundRest soundResult distinct
      refine ⟨distinctKept, ?_, held, ?_⟩
      · intro value isValue
        rcases origin value isValue with isResult | ⟨isRest, isTaken⟩
        · exact .inl isResult
        · exact .inr ⟨mem_cons_of_mem _ isRest, isTaken⟩
      · intro value isSource isTaken
        rcases mem_cons.mp isSource with rfl | isRest
        · rw [isTaken, Bool.true_and, Bool.not_eq_true', Bool.not_eq_false]
            at isKept
          rw [bagHas_iff] at isKept ⊢
          obtain ⟨one, isOne, isEqual⟩ := isKept
          exact ⟨one, held one isOne, isEqual⟩
        · exact found value isRest isTaken

section TwoLists

variable {left right : List Value}

theorem intersection_spec (equivalence : EquivalenceOn equal Sound)
    (soundLeft : ∀ value ∈ left, Sound value) :
    Distinct equal (intersection equal left right) ∧
      (∀ value ∈ intersection equal left right,
        value ∈ left ∧ bagHas equal right value = true) ∧
        ∀ value ∈ left, bagHas equal right value = true →
          bagHas equal (intersection equal left right) value = true := by
  obtain ⟨distinct, origin, -, found⟩ :=
    foldl_keeps equivalence (fun candidate => bagHas equal right candidate) left
      [] soundLeft (fun _ isNone => (nomatch isNone)) List.Pairwise.nil
  refine ⟨distinct, fun value isValue => ?_, found⟩
  rcases origin value isValue with isNone | isTaken
  · cases isNone
  · exact isTaken

theorem union_distinct (equivalence : EquivalenceOn equal Sound)
    (soundLeft : ∀ value ∈ left, Sound value) (soundRight : ∀ value ∈ right, Sound value) :
    Distinct equal (union equal left right) := by
  obtain ⟨distinct, origin, -, -⟩ :=
    foldl_keeps equivalence (fun _ => true) left [] soundLeft
      (fun _ isNone => (nomatch isNone)) List.Pairwise.nil
  refine (foldl_keeps equivalence (fun _ => true) right _ soundRight ?_ distinct).1
  intro value isValue
  rcases origin value isValue with isNone | ⟨isLeft, -⟩
  · cases isNone
  · exact soundLeft value isLeft

/-- An intersection is within the other way round. -/
theorem intersection_subset (equivalence : EquivalenceOn equal Sound)
    (soundLeft : ∀ value ∈ left, Sound value) (soundRight : ∀ value ∈ right, Sound value) :
    subset equal (intersection equal left right) (intersection equal right left) = true := by
  rw [subset_iff]
  intro value isValue
  obtain ⟨-, origin, -⟩ := @intersection_spec _ _ _ left right equivalence soundLeft
  obtain ⟨-, -, found⟩ := @intersection_spec _ _ _ right left equivalence soundRight
  obtain ⟨isLeft, isHeld⟩ := origin value isValue
  obtain ⟨other, isRight, isEqual⟩ := (bagHas_iff _ _).mp isHeld
  have isSound := soundLeft value isLeft
  have isSound' := soundRight other isRight
  have isHeld' : bagHas equal left other = true :=
    (bagHas_iff _ _).mpr ⟨value, isLeft, equivalence.symm _ _ isSound' isSound isEqual⟩
  obtain ⟨one, isOne, isEqual'⟩ := (bagHas_iff _ _).mp (found other isRight isHeld')
  have isSoundOne : Sound one := by
    obtain ⟨-, origin, -⟩ := @intersection_spec _ _ _ right left equivalence soundRight
    exact soundRight one (origin one isOne).1
  exact ⟨one, isOne, equivalence.trans _ _ _ isSoundOne isSound' isSound isEqual' isEqual⟩

theorem subset_self (equivalence : EquivalenceOn equal Sound)
    (soundLeft : ∀ value ∈ left, Sound value) :
    subset equal left left = true := by
  rw [subset_iff]
  exact fun value isLeft => ⟨value, isLeft, equivalence.refl value (soundLeft value isLeft)⟩

theorem atLeastOneMemberOf_iff (equivalence : EquivalenceOn equal Sound)
    (soundLeft : ∀ value ∈ left, Sound value) :
    atLeastOneMemberOf equal left right = true ↔ intersection equal left right ≠ [] := by
  obtain ⟨-, origin, found⟩ := @intersection_spec _ _ _ left right equivalence soundLeft
  rw [atLeastOneMemberOf, any_eq_true]
  constructor
  · rintro ⟨value, isLeft, isHeld⟩ isEmpty
    have isFound := found value isLeft isHeld
    rw [isEmpty] at isFound
    cases isFound
  · intro notEmpty
    obtain ⟨value, isValue⟩ := exists_mem_of_ne_nil _ notEmpty
    exact ⟨value, origin value isValue⟩

/-- On values on which the test is an equivalence, the lists are sets. -/
theorem setLaws (equivalence : EquivalenceOn equal Sound) (soundLeft : ∀ value ∈ left, Sound value)
    (soundRight : ∀ value ∈ right, Sound value) :
    SetLaws equal left right where
  subsetSelf := subset_self equivalence soundLeft
  setEqualsSelf := by rw [setEquals_eq, subset_self equivalence soundLeft, Bool.and_self]
  setEqualsSymm := setEquals_symm left right
  intersectionDistinct := (intersection_spec equivalence soundLeft).1
  unionDistinct := union_distinct equivalence soundLeft soundRight
  intersectionComm := by
    rw [setEquals_eq, intersection_subset equivalence soundLeft soundRight,
      intersection_subset equivalence soundRight soundLeft, Bool.and_self]
  atLeastOne := atLeastOneMemberOf_iff equivalence soundLeft

end TwoLists

end Laws

end IyaSts.SetOperations
