import IyaSts.XacmlCombinersAgree

namespace IyaSts.Xacml

open DemandWalk

/-!
# What an extended Indeterminate promises

`Indeterminate{D}` says that the decision would have been Deny or
NotApplicable had nothing failed.  The two 3.0 overrides algorithms keep that
promise: repair the errors among the children in any way and the combined
decision is one that the original combined decision named.
-/

open List

/-- The decisions an evaluation could have reached had nothing failed. -/
def Decision.outcomes : Decision → List Decision
  | .permit => [.permit]
  | .deny => [.deny]
  | .notApplicable => [.notApplicable]
  | .indeterminateD => [.deny, .notApplicable]
  | .indeterminateP => [.permit, .notApplicable]
  | .indeterminateDP => [.permit, .deny, .notApplicable]
  | .indeterminate => [.permit, .deny, .notApplicable]

/-- The outcomes of a definite decision are that decision. -/
theorem Decision.outcomes_of_definite {decision : Decision}
    (definite : decision.isIndeterminate = false) :
    decision.outcomes = [decision] := by
  cases decision <;> simp_all [isIndeterminate, outcomes]


/-- Every child of the second list is a repair of its fellow in the first. -/
def Repaired (decisions repaired : List Decision) : Prop :=
  List.Forall₂ (fun decision repair => repair ∈ decision.outcomes) decisions repaired

namespace Repaired

variable {decisions repaired : List Decision} {repair : Decision}

/-- A definite child stays as it was. -/
theorem mem_of_definite (repairs : Repaired decisions repaired) (decision : Decision)
    (definite : decision.isIndeterminate = false) (isChild : decision ∈ decisions) :
    decision ∈ repaired := by
  induction repairs with
  | nil => cases isChild
  | @cons first repair _ _ named _ ih =>
    rcases mem_cons.mp isChild with isFirst | inRest
    · rw [← isFirst, Decision.outcomes_of_definite definite, mem_singleton] at named
      simp [named]
    · exact mem_cons_of_mem _ (ih inRest)

/-- A repaired child is an outcome of some original child. -/
theorem exists_original (repairs : Repaired decisions repaired) (isChild : repair ∈ repaired) :
    ∃ decision ∈ decisions, repair ∈ decision.outcomes := by
  induction repairs with
  | nil => cases isChild
  | @cons first firstRepair _ _ named _ ih =>
    rcases mem_cons.mp isChild with isFirst | inRest
    · exact ⟨first, mem_cons_self, isFirst ▸ named⟩
    · obtain ⟨decision, isOriginal, isOutcome⟩ := ih inRest
      exact ⟨decision, mem_cons_of_mem _ isOriginal, isOutcome⟩

/-- No error is left. -/
theorem definite (repairs : Repaired decisions repaired) (isChild : repair ∈ repaired) :
    repair.isIndeterminate = false := by
  obtain ⟨decision, _, isOutcome⟩ := exists_original repairs isChild
  revert isOutcome
  cases decision <;> cases repair <;> simp [Decision.outcomes, Decision.isIndeterminate]

/-- A Deny after the repair was a Deny, or an error that could be one. -/
theorem deny_origin (repairs : Repaired decisions repaired) (denied : Decision.deny ∈ repaired) :
    Decision.deny ∈ decisions ∨
      Decision.indeterminateD ∈ decisions ∨
      Decision.indeterminateDP ∈ decisions ∨
      Decision.indeterminate ∈ decisions := by
  obtain ⟨decision, isOriginal, isOutcome⟩ := exists_original repairs denied
  cases decision <;> simp_all [Decision.outcomes]

/-- A Permit after the repair was a Permit, or an error that could be one. -/
theorem permit_origin (repairs : Repaired decisions repaired)
    (permitted : Decision.permit ∈ repaired) :
    Decision.permit ∈ decisions ∨
      Decision.indeterminateP ∈ decisions ∨
      Decision.indeterminateDP ∈ decisions ∨
      Decision.indeterminate ∈ decisions := by
  obtain ⟨decision, isOriginal, isOutcome⟩ := exists_original repairs permitted
  cases decision <;> simp_all [Decision.outcomes]

end Repaired

/-!
## The overrides algorithms, order aside

`overridesOf` reads the decision off which decisions occur among the children.
The code reaches it by a walk that may stop early.
-/

/-- The decision of an overrides algorithm, by what occurs among the children. -/
def overridesOf (wins other couldWin couldOther : Decision)
    (decisions : List Decision) : Decision :=
  if wins ∈ decisions then
    wins
  else if .indeterminateDP ∈ decisions ∨ .indeterminate ∈ decisions then
    .indeterminateDP
  else if couldWin ∈ decisions then
    if couldOther ∈ decisions ∨ other ∈ decisions then
      .indeterminateDP
    else
      couldWin
  else if other ∈ decisions then
    other
  else if couldOther ∈ decisions then
    couldOther
  else
    .notApplicable

/-- Which decisions occur does not depend on the order. -/
theorem overridesOf_perm {wins other couldWin couldOther : Decision}
    {decisions reordered : List Decision} (permuted : decisions.Perm reordered) :
    overridesOf wins other couldWin couldOther decisions =
      overridesOf wins other couldWin couldOther reordered := by
  simp only [overridesOf, permuted.mem_iff]

variable {decisions repaired : List Decision}

/-- Repairing the children of deny-overrides gives a decision it had named. -/
theorem denyOverridesOf_repaired (repairs : Repaired decisions repaired) :
    overridesOf .deny .permit .indeterminateD .indeterminateP repaired ∈
      (overridesOf .deny .permit .indeterminateD .indeterminateP decisions).outcomes := by
  have keepsDeny := repairs.mem_of_definite .deny rfl
  have keepsPermit := repairs.mem_of_definite .permit rfl
  have denyFrom := repairs.deny_origin
  have permitFrom := repairs.permit_origin
  have noD : .indeterminateD ∉ repaired := fun isChild => by cases repairs.definite isChild
  have noP : .indeterminateP ∉ repaired := fun isChild => by cases repairs.definite isChild
  have noDP : .indeterminateDP ∉ repaired := fun isChild => by cases repairs.definite isChild
  have noPlain : .indeterminate ∉ repaired := fun isChild => by cases repairs.definite isChild
  unfold overridesOf
  split_ifs <;> simp_all [Decision.outcomes]

/-- Repairing the children of permit-overrides gives a decision it had named. -/
theorem permitOverridesOf_repaired (repairs : Repaired decisions repaired) :
    overridesOf .permit .deny .indeterminateP .indeterminateD repaired ∈
      (overridesOf .permit .deny .indeterminateP .indeterminateD decisions).outcomes := by
  have keepsDeny := repairs.mem_of_definite .deny rfl
  have keepsPermit := repairs.mem_of_definite .permit rfl
  have denyFrom := repairs.deny_origin
  have permitFrom := repairs.permit_origin
  have noD : .indeterminateD ∉ repaired := fun isChild => by cases repairs.definite isChild
  have noP : .indeterminateP ∉ repaired := fun isChild => by cases repairs.definite isChild
  have noDP : .indeterminateDP ∉ repaired := fun isChild => by cases repairs.definite isChild
  have noPlain : .indeterminate ∉ repaired := fun isChild => by cases repairs.definite isChild
  unfold overridesOf
  split_ifs <;> simp_all [Decision.outcomes]

namespace Combiner

/-- The flags of deny-overrides after noting some children. -/
def denyOverridesNoted (flags : Node.denyOverrides.Flags)
    (decisions : List Decision) : Node.denyOverrides.Flags :=
  let earlier : Node.DenyOverridesFlags := flags
  ({ errorD := earlier.errorD || decisions.contains .indeterminateD
     errorP := earlier.errorP || decisions.contains .indeterminateP
     errorDP :=
       earlier.errorDP || (decisions.contains .indeterminateDP || decisions.contains .indeterminate)
     permit := earlier.permit || decisions.contains .permit } :
    Node.DenyOverridesFlags)

/-- They record what occurs among the children. -/
theorem denyOverrides_foldl (flags : Node.denyOverrides.Flags) (decisions : List Decision) :
    decisions.foldl Node.denyOverrides.note flags = denyOverridesNoted flags decisions := by
  induction decisions generalizing flags with
  | nil =>
    simp only [foldl_nil, denyOverridesNoted, contains_nil, Bool.or_false]
    rfl
  | cons decision rest ih =>
    rw [foldl_cons, ih]
    cases decision <;> simp [denyOverridesNoted, Node.denyOverrides]

/-- The flags of permit-overrides after noting some children. -/
def permitOverridesNoted (flags : Node.permitOverrides.Flags)
    (decisions : List Decision) : Node.permitOverrides.Flags :=
  let earlier : Node.PermitOverridesFlags := flags
  ({ errorD := earlier.errorD || decisions.contains .indeterminateD
     errorP := earlier.errorP || decisions.contains .indeterminateP
     errorDP :=
       earlier.errorDP || (decisions.contains .indeterminateDP || decisions.contains .indeterminate)
     deny := earlier.deny || decisions.contains .deny } :
    Node.PermitOverridesFlags)

/-- They record what occurs among the children. -/
theorem permitOverrides_foldl (flags : Node.permitOverrides.Flags) (decisions : List Decision) :
    decisions.foldl Node.permitOverrides.note flags = permitOverridesNoted flags decisions := by
  induction decisions generalizing flags with
  | nil =>
    simp only [foldl_nil, permitOverridesNoted, contains_nil, Bool.or_false]
    rfl
  | cons decision rest ih =>
    rw [foldl_cons, ih]
    cases decision <;> simp [permitOverridesNoted, Node.permitOverrides]

/-- deny-overrides decides by what occurs among the children. -/
theorem denyOverrides_verdict (decisions : List Decision) :
    (Node.denyOverrides.combine decisions).verdict =
      overridesOf .deny .permit .indeterminateD .indeterminateP
        decisions := by
  rw [combine_eq, Walk.settleAll_verdict_of_stops_at _ .deny (fun _ => rfl), denyOverrides_foldl]
  simp only [denyOverridesNoted, Node.denyOverrides, overridesOf, contains_eq_mem]
  split_ifs <;> simp_all

/-- permit-overrides decides by what occurs among the children. -/
theorem permitOverrides_verdict (decisions : List Decision) :
    (Node.permitOverrides.combine decisions).verdict =
      overridesOf .permit .deny .indeterminateP .indeterminateD
        decisions := by
  rw [combine_eq, Walk.settleAll_verdict_of_stops_at _ .permit (fun _ => rfl),
    permitOverrides_foldl]
  simp only [permitOverridesNoted, Node.permitOverrides, overridesOf, contains_eq_mem]
  split_ifs <;> simp_all

end Combiner

/-- The identifiers of the 3.0 overrides algorithms, ordered or not. -/
def overridesIds : List String :=
  [RuleAlg.denyOverrides, RuleAlg.orderedDenyOverrides, PolicyAlg.denyOverrides,
    PolicyAlg.orderedDenyOverrides, RuleAlg.permitOverrides, RuleAlg.orderedPermitOverrides,
    PolicyAlg.permitOverrides, PolicyAlg.orderedPermitOverrides]

/-- Combining as one of the two overrides algorithms, order aside. -/
def OverridesCombiner (combiner : Combiner) : Prop :=
  (∀ decisions,
    (combiner.combine decisions).verdict =
      overridesOf .deny .permit .indeterminateD .indeterminateP decisions) ∨
  (∀ decisions,
    (combiner.combine decisions).verdict =
      overridesOf .permit .deny .indeterminateP .indeterminateD decisions)

/-- The JavaScript engine registers them under their identifiers. -/
theorem node_overrides_registered (uri : String) (isOverrides : uri ∈ overridesIds) :
    ∃ combiner, Engine.node.combinerFor uri = some combiner ∧ OverridesCombiner combiner := by
  simp only [overridesIds, mem_cons, not_mem_nil, or_false]
    at isOverrides
  rcases isOverrides with
    rfl | rfl | rfl | rfl | rfl | rfl | rfl | rfl
  iterate 4
    exact ⟨Node.denyOverrides, rfl, .inl Combiner.denyOverrides_verdict⟩
  iterate 4
    exact ⟨Node.permitOverrides, rfl, .inr Combiner.permitOverrides_verdict⟩

/-- So does the Rust engine. -/
theorem overrides_registered (engine : Engine) (uri : String) (isOverrides : uri ∈ overridesIds) :
    ∃ combiner, engine.combinerFor uri = some combiner ∧ OverridesCombiner combiner := by
  obtain ⟨first, found, overrides⟩ := node_overrides_registered uri isOverrides
  cases engine with
  | node => exact ⟨first, found, overrides⟩
  | rust =>
    have agree := combinerFor_agree uri
    rw [found] at agree
    cases registered : Engine.rust.combinerFor uri with
    | none => simpa [registered] using agree []
    | some second =>
      have sameCombination (decisions : List Decision) :
          first.combine decisions = second.combine decisions := by
        simpa [registered] using agree decisions
      exact ⟨second, rfl, by simpa only [OverridesCombiner, sameCombination] using overrides⟩

/--
Extended Indeterminates are sound: under every identifier of the 3.0 overrides
algorithms, repairing the children's errors in any way gives a decision the
original combined decision named, and the order of the children is immaterial.
-/
theorem overrides_indeterminate_sound (engine : Engine) (uri : String)
    (isOverrides : uri ∈ overridesIds) :
    ∃ combiner,
      engine.combinerFor uri = some combiner ∧
        (∀ decisions repaired,
          Repaired decisions repaired →
          (combiner.combine repaired).verdict ∈ (combiner.combine decisions).verdict.outcomes) ∧
        ∀ decisions reordered,
          decisions.Perm reordered →
          (combiner.combine decisions).verdict = (combiner.combine reordered).verdict := by
  obtain ⟨combiner, registered, overrides⟩ := overrides_registered engine uri isOverrides
  refine ⟨combiner, registered, ?_, ?_⟩
  · intro decisions repaired repairs
    rcases overrides with verdict | verdict
    · rw [verdict, verdict]
      exact denyOverridesOf_repaired repairs
    · rw [verdict, verdict]
      exact permitOverridesOf_repaired repairs
  · intro decisions reordered permuted
    rcases overrides with verdict | verdict
    · rw [verdict, verdict]
      exact overridesOf_perm permuted
    · rw [verdict, verdict]
      exact overridesOf_perm permuted

/-- Both engines have deny-overrides, and it keeps the promise. -/
theorem denyOverrides_indeterminate_sound :
    ∃ combiner,
      Engine.rust.combinerFor PolicyAlg.denyOverrides = some combiner ∧
        (combiner.combine [.deny, .permit]).verdict ∈
          (combiner.combine [.indeterminateD, .permit]).verdict.outcomes := by
  obtain ⟨combiner, registered, repairs, _⟩ :=
    overrides_indeterminate_sound .rust PolicyAlg.denyOverrides (by simp [overridesIds])
  exact ⟨combiner, registered, repairs [.indeterminateD, .permit]
    [.deny, .permit] (.cons (by decide) (.cons (by decide) .nil))⟩

end IyaSts.Xacml
