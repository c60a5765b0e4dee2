import IyaSts.GnapCovers

namespace IyaSts.GnapAccess

open Json

/-!
# When the union of the granted rights is asked exactly

A dimension that is no array is not unfolded, so a required right that has one is asked as
if it did not, or makes the code throw past the cap.  Where every dimension is an array the
answer is the cross product's.
-/

open List

/-! ## Tests that may throw -/

section Tests

variable {α : Type} {test : α → Option Bool}

/-- An element is the first of a list, or a later one behind the first. -/
theorem exists_behind_iff (Holds Before : α → Prop) (first : α) (rest : List α) :
    (∃ before element after,
        first :: rest = before ++ element :: after ∧ Holds element ∧
          ∀ earlier ∈ before, Before earlier) ↔
      Holds first ∨
        (Before first ∧
          ∃ before element after,
            rest = before ++ element :: after ∧ Holds element ∧
              ∀ earlier ∈ before, Before earlier) := by
  constructor
  · rintro ⟨before, element, after, shape, holds, allBefore⟩
    cases before with
    | nil =>
      cases shape
      exact .inl holds
    | cons head before =>
      cases shape
      exact .inr ⟨allBefore first mem_cons_self, before, element, after, rfl, holds,
        fun earlier isEarlier => allBefore earlier (mem_cons_of_mem _ isEarlier)⟩
  · rintro (holds | ⟨isBefore, before, element, after, rfl, holds, allBefore⟩)
    · exact ⟨[], first, rest, rfl, holds, fun earlier isEarlier => by cases isEarlier⟩
    · exact ⟨first :: before, element, after, rfl, holds,
        forall_mem_cons.mpr ⟨isBefore, allBefore⟩⟩

variable (elements : List α)

theorem anyM_eq_false_iff :
    elements.anyM test = some false ↔ ∀ element ∈ elements, test element = some false := by
  induction elements with
  | nil => simp [List.anyM]
  | cons element rest ih =>
    rw [List.anyM]
    cases answer : test element with
    | none => simp [answer]
    | some accepted =>
      cases accepted with
      | true => simp [answer]
      | false => simpa [answer] using ih

theorem anyM_eq_none_iff :
    elements.anyM test = none ↔
      ∃ before element after,
        elements = before ++ element :: after ∧ test element = none ∧
          ∀ earlier ∈ before, test earlier = some false := by
  induction elements with
  | nil => simp [List.anyM]
  | cons element rest ih =>
    rw [List.anyM, exists_behind_iff (test · = none) (test · = some false), ← ih]
    cases answer : test element with
    | none => simp
    | some accepted => cases accepted <;> simp

/-- A test of all refuses where some element is refused before any throws. -/
theorem allM_eq_false_iff :
    elements.allM test = some false ↔
      ∃ before element after,
        elements = before ++ element :: after ∧ test element = some false ∧
          ∀ earlier ∈ before, test earlier ≠ none := by
  induction elements with
  | nil => simp [List.allM]
  | cons element rest ih =>
    rw [List.allM, exists_behind_iff (test · = some false) (test · ≠ none), ← ih]
    cases answer : test element with
    | none => simp
    | some accepted => cases accepted <;> simp

end Tests

/-! ## What is answered of one required element -/

theorem coversNeed_string (rights : List Json) (text : String) :
    coversNeed rights (.string text) = some true ↔ .string text ∈ rights := by
  rw [coversNeed, Option.some.injEq, includes_iff]
  constructor
  · rintro ⟨held, isHeld, same⟩
    rw [← strictEqual_string same]
    exact isHeld
  · intro isHeld
    exact ⟨_, isHeld, strictEqual_self _⟩

theorem coversNeed_untyped {required : Members} (untyped : hasType required = false)
    (rights : List Json) (identity : Nat) :
    coversNeed rights (.object identity required) = some false := by
  simp [coversNeed, untyped]

/-- The code refuses an element as said. -/
theorem coversNeed_eq_false_iff (rights : List Json) (need : Json) :
    coversNeed rights need = some false ↔ NeedRefused rights need := by
  cases need with
  | string text =>
    have granted_iff := coversNeed_string rights text
    rw [NeedRefused, ← granted_iff]
    simp [coversNeed]
  | object identity required =>
    rw [NeedRefused]
    by_cases typed : hasType required = true
    · rw [or_iff_right (by rw [typed]; exact Bool.noConfusion)]
      by_cases within : WithinCap required
      · obtain ⟨answers, covered_iff⟩ := coversNeed_within typed within rights identity
        rw [or_iff_left fun past => past.1 within, and_iff_right within]
        have refused_iff :
            coversNeed rights (.object identity required) = some false ↔
              ¬ coversNeed rights (.object identity required) = some true := by
          obtain ⟨answer, isAnswer⟩ := Option.isSome_iff_exists.mp answers
          rw [isAnswer]
          cases answer <;> simp
        rw [refused_iff, covered_iff]
        push Not
        rfl
      · rw [or_iff_right fun isWithin => within isWithin.1, and_iff_right within,
          coversNeed_past typed within, someCovers, anyM_eq_false_iff]
    · rw [Bool.not_eq_true] at typed
      rw [coversNeed_untyped typed]
      exact iff_of_true rfl (.inl typed)
  | _ => exact iff_of_true rfl trivial

/-- The code throws on an element as said. -/
theorem coversNeed_eq_none_iff (rights : List Json) (need : Json) :
    coversNeed rights need = none ↔ NeedThrows rights need := by
  cases need with
  | object identity required =>
    rw [NeedThrows]
    by_cases typed : hasType required = true
    · rw [and_iff_right typed]
      by_cases within : WithinCap required
      · have answers := (coversNeed_within typed within rights identity).1
        rw [Option.isSome_iff_ne_none] at answers
        exact iff_of_false answers fun throws => throws.1 within
      · rw [and_iff_right within, coversNeed_past typed within, someCovers, anyM_eq_none_iff]
    · have untyped := Bool.not_eq_true _ ▸ typed
      rw [coversNeed_untyped untyped]
      exact iff_of_false (by simp) fun throws => typed throws.1
  | _ => exact iff_of_false (by simp [coversNeed]) id

variable {need : Json} {rights : List Json}

/-- An element whose dimensions are lists is answered, and granted only where it is
covered. -/
theorem coversNeed_of_isRight (isRight : IsRight need) (rights : List Json) :
    (coversNeed rights need).isSome = true ∧
      (coversNeed rights need = some true → NeedCovered rights need) := by
  cases need with
  | string text => exact ⟨rfl, (coversNeed_string rights text).mp⟩
  | object identity required =>
    by_cases typed : hasType required = true
    · by_cases within : WithinCap required
      · obtain ⟨answers, covered_iff⟩ := coversNeed_within typed within rights identity
        exact ⟨answers, fun isTrue => ⟨typed, isRight, covered_iff.mp isTrue⟩⟩
      · rw [coversNeed_past typed within]
        have answers := @objectCoversPoint_wholeOf_isSome required identity isRight
        refine ⟨anyM_isSome fun right _ => answers right, fun isTrue => ?_⟩
        obtain ⟨identity', granted, isGranted, covers⟩ := (someCovers_eq_true_iff answers).mp isTrue
        exact ⟨typed, isRight, fun choice chooses =>
          ⟨identity', granted, isGranted, coversPoint_of_whole typed covers chooses⟩⟩
    · rw [Bool.not_eq_true] at typed
      rw [coversNeed_untyped typed]
      exact ⟨rfl, fun isTrue => by cases isTrue⟩
  | _ => exact ⟨rfl, fun isTrue => by cases isTrue⟩

/-- What is covered is granted, up to the cap. -/
theorem coversNeed_of_covered (within : NeedWithinCap need) (isCovered : NeedCovered rights need) :
    coversNeed rights need = some true := by
  cases need with
  | string text => exact (coversNeed_string rights text).mpr isCovered
  | object identity required =>
    obtain ⟨typed, -, allCovered⟩ := isCovered
    exact (coversNeed_within typed within rights identity).2.mpr allCovered
  | _ => exact isCovered.elim

/-- What is covered has its dimensions as lists. -/
theorem isRight_of_covered (isCovered : NeedCovered rights need) : IsRight need := by
  cases need with
  | object identity required => exact isCovered.2.1
  | _ => trivial

/-- More granted rights do not refuse what some of them grant. -/
theorem coversNeed_mono {rights more : List Json} (subset : rights ⊆ more)
    (isTrue : coversNeed rights need = some true) :
    coversNeed more need ≠ some false := by
  cases need with
  | string text =>
    rw [(coversNeed_string more text).mpr (subset ((coversNeed_string rights text).mp isTrue))]
    simp
  | object identity required =>
    by_cases typed : hasType required = true
    · rw [coversNeed_object _ _ typed] at isTrue ⊢
      rw [allM_eq_true_iff] at isTrue
      refine allM_ne_false fun part isPart => ?_
      obtain ⟨right, isRight, covers⟩ := exists_of_anyM (isTrue part isPart)
      obtain ⟨isGranted, isObj⟩ := mem_filter.mp isRight
      exact anyM_ne_false (mem_filter.mpr ⟨subset isGranted, isObj⟩) covers
    · rw [Bool.not_eq_true] at typed
      rw [coversNeed_untyped typed] at isTrue
      cases isTrue
  | _ => cases isTrue

/-! ## The whole array -/

/-- A granted right to read photos. -/
def grantedRead : Json :=
  .object 1 [("type", .string "photo-api"), ("actions", .array 2 [.string "read"])]

/-- A right to write them, its action no array. -/
def requiredWrite : Json := .object 3 [("type", .string "photo-api"), ("actions", .string "write")]

end IyaSts.GnapAccess
