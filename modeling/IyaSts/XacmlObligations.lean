import IyaSts.XacmlVisitsRead

namespace IyaSts.Xacml.Node

/-!
# Whose obligations a response carries

The obligations and advice of a response are those of the visited nodes along
which every node up to the root decided as the response does.
-/

open List

section

variable {Payload : Type}

/-- A node is reached from another along nodes that all decided the same. -/
inductive Along (decision : Decision) :
    Visit Payload → Visit Payload → Prop where
  | here {visit : Visit Payload} (agrees : visit.decision = decision) : Along decision visit visit
  | inside
      {visit child holder : Visit Payload}
      (agrees : visit.decision = decision)
      (isChild : child ∈ visit.children)
      (along : Along decision child holder) :
      Along decision visit holder

theorem Visit.sizeOf_child {visit child : Visit Payload} (isChild : child ∈ visit.children) :
    sizeOf child < sizeOf visit := by
  obtain ⟨decided, status, obligations, advice, children⟩ := visit
  have smaller : sizeOf child < sizeOf children := sizeOf_lt_of_mem isChild
  simp only [Visit.mk.sizeOf_spec]
  omega

section

variable
  (own : List (ResolvedObligation Payload) →
    List (ResolvedObligation Payload) → List (ResolvedObligation Payload))
  (decision : Decision)

/-- Gathering over children is gathering each of them in turn. -/
theorem Visit.gatherAll_eq (visits : List (Visit Payload)) :
    Visit.gatherAll own decision visits = visits.flatMap (Visit.gather own decision) := by
  induction visits with
  | nil => rfl
  | cons visit rest ih => rw [Visit.gatherAll, ih, flatMap_cons]

/-- What a visit gathers when it decided so: its children's, then its own. -/
theorem Visit.gather_eq (visit : Visit Payload) :
    visit.gather own decision =
      if visit.decision = decision then
        visit.children.flatMap (Visit.gather own decision) ++ own visit.obligations visit.advice
      else
        [] := by
  obtain ⟨decided, status, obligations, advice, children⟩ := visit
  rw [Visit.gather, Visit.gatherAll_eq]

variable {item : ResolvedObligation Payload}

/-- What is gathered is held by a node along an agreeing path. -/
theorem Visit.along_of_mem_gather (visit : Visit Payload)
    (gathered : item ∈ visit.gather own decision) :
    ∃ holder, Along decision visit holder ∧ item ∈ own holder.obligations holder.advice := by
  rw [Visit.gather_eq] at gathered
  split at gathered
  · rename_i agrees
    rcases mem_append.mp gathered with fromChildren | isOwn
    · obtain ⟨child, isChild, fromChild⟩ := mem_flatMap.mp fromChildren
      have smaller := Visit.sizeOf_child isChild
      obtain ⟨holder, along, isHeld⟩ := Visit.along_of_mem_gather child fromChild
      exact ⟨holder, .inside agrees isChild along, isHeld⟩
    · exact ⟨visit, .here agrees, isOwn⟩
  · cases gathered
termination_by sizeOf visit

/-- And what such a node holds is gathered. -/
theorem Visit.mem_gather_of_along {visit holder : Visit Payload}
    (along : Along decision visit holder) (isHeld : item ∈ own holder.obligations holder.advice) :
    item ∈ visit.gather own decision := by
  induction along with
  | here agrees =>
    rw [Visit.gather_eq, if_pos agrees]
    exact mem_append_right _ isHeld
  | inside agrees isChild along ih =>
    rw [Visit.gather_eq, if_pos agrees]
    exact mem_append_left _ (mem_flatMap.mpr ⟨_, isChild, ih isHeld⟩)

/-- What is gathered is what the nodes along agreeing paths hold. -/
theorem Visit.mem_gather_iff (visit : Visit Payload) :
    item ∈ visit.gather own decision ↔
      ∃ holder, Along decision visit holder ∧ item ∈ own holder.obligations holder.advice :=
  ⟨Visit.along_of_mem_gather own decision visit,
    fun ⟨_, along, isHeld⟩ => Visit.mem_gather_of_along own decision along isHeld⟩

end

variable {decision : Decision}

/-- A definite decision is what the response says of it. -/
theorem externalDecision_definite {effect : Effect} :
    definite decision.externalDecision = some effect ↔ definite decision = some effect := by
  cases decision <;> simp [Decision.externalDecision, definite]

/-- The decision of an effect is the only one it is definite of. -/
theorem decision_of_definite {effect : Effect} (isDefinite : definite decision = some effect) :
    decision = effect.decision := by
  cases decision with
  | permit =>
    cases isDefinite
    rfl
  | deny =>
    cases isDefinite
    rfl
  | notApplicable => cases isDefinite
  | indeterminate => cases isDefinite
  | indeterminateP => cases isDefinite
  | indeterminateD => cases isDefinite
  | indeterminateDP => cases isDefinite

end

end IyaSts.Xacml.Node
