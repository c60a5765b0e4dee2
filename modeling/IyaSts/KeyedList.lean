import Mathlib.Data.List.Basic

namespace IyaSts.KeyedList

/-!
# Arrays as sets of keyed values

Values are compared by a key.  A union and an intersection hold each key once,
in the order the first array has it.
-/

open List

variable {α κ : Type} [DecidableEq κ] (key : α → κ)

/-- Every key of the one is a key of the other. -/
def subsetOf (small big : List α) : Bool :=
  let keys := big.map key
  small.all fun one => decide (key one ∈ keys)

/-- The values whose keys are not seen yet, each key once. -/
def unseen (seen : List κ) : List α → List α
  | [] => []
  | one :: rest =>
    if key one ∈ seen then
      unseen seen rest
    else
      one :: unseen (seen ++ [key one]) rest

/-- The values of both. -/
def union (first second : List α) : List α := unseen key [] (first ++ second)

/-- The values of the first whose keys the second has. -/
def intersection (first second : List α) : List α :=
  let keys := second.map key
  (union key first []).filter fun one => decide (key one ∈ keys)

theorem subsetOf_iff (small big : List α) :
    subsetOf key small big = true ↔ small.map key ⊆ big.map key := by
  simp only [subsetOf, all_eq_true, decide_eq_true_eq]
  constructor
  · intro allHeld held isHeld
    obtain ⟨one, isOne, rfl⟩ := mem_map.mp isHeld
    exact allHeld one isOne
  · intro isSubset one isOne
    exact isSubset (mem_map_of_mem isOne)

variable {one : α} {first second : List α}

/-- Nothing is there but values of the list. -/
theorem mem_of_mem_unseen {seen : List κ} {values : List α}
    (isUnseen : one ∈ unseen key seen values) :
    one ∈ values := by
  induction values generalizing seen with
  | nil => exact isUnseen
  | cons first rest ih =>
    unfold unseen at isUnseen
    split at isUnseen
    · exact mem_cons_of_mem _ (ih isUnseen)
    · rcases mem_cons.mp isUnseen with isFirst | isLater
      · exact isFirst ▸ mem_cons_self
      · exact mem_cons_of_mem _ (ih isLater)

/-- Every key of the list is seen or there. -/
theorem mem_keys_unseen_iff (seen : List κ) (values : List α) (held : κ) :
    (held ∈ seen ∨ held ∈ (unseen key seen values).map key) ↔
      held ∈ seen ∨ held ∈ values.map key := by
  induction values generalizing seen with
  | nil => rfl
  | cons first rest ih =>
    unfold unseen
    split
    · rename_i isSeen
      rw [ih seen, map_cons, mem_cons]
      constructor
      · rintro (before | later)
        · exact .inl before
        · exact .inr (.inr later)
      · rintro (before | isFirst | later)
        · exact .inl before
        · exact .inl (isFirst ▸ isSeen)
        · exact .inr later
    · have step := ih (seen ++ [key first])
      rw [mem_append, mem_singleton, or_assoc, or_assoc] at step
      simpa only [map_cons, mem_cons] using step

/-- A union has the keys of both. -/
theorem mem_keys_union_iff (first second : List α) (held : κ) :
    held ∈ (union key first second).map key ↔ held ∈ first.map key ∨ held ∈ second.map key := by
  have keys := mem_keys_unseen_iff key [] (first ++ second) held
  simpa only [union, not_mem_nil, false_or, map_append, mem_append] using keys

/-- The values of a union are values of one of the two. -/
theorem mem_of_mem_union (isUnion : one ∈ union key first second) : one ∈ first ∨ one ∈ second :=
  mem_append.mp (mem_of_mem_unseen key isUnion)

/-- An intersection has the keys that both have. -/
theorem mem_keys_intersection_iff (first second : List α) (held : κ) :
    held ∈ (intersection key first second).map key ↔
      held ∈ first.map key ∧ held ∈ second.map key := by
  simp only [intersection, mem_map, mem_filter, decide_eq_true_eq]
  constructor
  · rintro ⟨one, ⟨isUnion, isSecond⟩, rfl⟩
    rcases mem_of_mem_union key isUnion with isFirst | isNone
    · exact ⟨⟨one, isFirst, rfl⟩, isSecond⟩
    · cases isNone
  · rintro ⟨isFirst, isSecond⟩
    have isUnion : held ∈ (union key first []).map key :=
      (mem_keys_union_iff key first [] held).mpr (.inl (mem_map.mpr isFirst))
    obtain ⟨one, isOne, rfl⟩ := mem_map.mp isUnion
    exact ⟨one, ⟨isOne, isSecond⟩, rfl⟩

/-- The values of an intersection are values of the first. -/
theorem mem_of_mem_intersection (isBoth : one ∈ intersection key first second) :
    one ∈ first ∧ key one ∈ second.map key := by
  simp only [intersection, mem_filter, decide_eq_true_eq] at isBoth
  rcases mem_of_mem_union key isBoth.1 with isFirst | isNone
  · exact ⟨isFirst, isBoth.2⟩
  · cases isNone

end IyaSts.KeyedList
