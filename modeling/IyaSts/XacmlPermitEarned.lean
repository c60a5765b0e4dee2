import IyaSts.XacmlCombinersAgree

namespace IyaSts.Xacml

open DemandWalk

/-!
# Where a combined Permit comes from

An algorithm earns its Permit when some child it evaluated returned Permit.
Every registered algorithm but permit-unless-deny does, with one exception: the
legacy policy version of permit-overrides turns any Indeterminate into Permit.
-/

open List

/-- A combined Permit that some evaluated child returned. -/
def PermitEarned (combination : Combination Decision) : Prop :=
  combination.verdict = .permit → .permit ∈ combination.results

instance (combination : Combination Decision) :
    Decidable (PermitEarned combination) :=
  inferInstanceAs (Decidable (_ → _))

/-- The identifiers of permit-unless-deny. -/
def permitUnlessDenyIds : List String := [RuleAlg.permitUnlessDeny, PolicyAlg.permitUnlessDeny]

/-- The identifiers of the legacy policy version of permit-overrides. -/
def legacyPolicyPermitIds : List String :=
  [PolicyAlg.legacyPermitOverrides, PolicyAlg.legacyOrderedPermitOverrides]

variable {combiner : Combiner}

/-- A walk that traces Permit earns it, whatever the children decide. -/
theorem PermitEarned.of_traces (traces : combiner.Traces .permit) (decisions : List Decision) :
    PermitEarned (combiner.combine decisions) := by
  rw [Combiner.combine_eq]
  exact traces.answered decisions

namespace Combiner

theorem stopAt_eq {wins decision stopped : Decision} (stops : stopAt wins decision = some stopped) :
    decision = stopped := by
  unfold stopAt at stops
  split at stops
  · next isWins => rw [isWins, Option.some.inj stops]
  · cases stops

/-! ## The walks that trace their Permit -/

def denyOverridesTraces : Node.denyOverrides.Traces .permit where
  Saw := fun (flags : Node.DenyOverridesFlags) => flags.permit = true
  unseen := by simp [Node.denyOverrides]
  noted flags answer saw := by cases answer <;> simp_all [Node.denyOverrides]
  stopped answer stops := stopAt_eq stops
  settled flags settles := by
    simp only [Node.denyOverrides] at settles
    split_ifs at settles
    assumption

def permitOverridesTraces : Node.permitOverrides.Traces .permit where
  Saw := fun _ => False
  unseen := id
  noted _ _ saw := saw.elim
  stopped answer stops := stopAt_eq stops
  settled flags settles := by
    simp only [Node.permitOverrides] at settles
    split_ifs at settles

def denyUnlessPermitTraces : Node.denyUnlessPermit.Traces .permit where
  Saw := fun _ => False
  unseen := id
  noted _ _ saw := saw.elim
  stopped answer stops := stopAt_eq stops
  settled flags settles := by cases settles

def firstApplicableTraces : Node.firstApplicable.Traces .permit where
  Saw := fun _ => False
  unseen := id
  noted _ _ saw := saw.elim
  stopped answer stops := by
    cases answer <;> simp_all [Node.firstApplicable, Decision.isIndeterminate]
  settled flags settles := by cases settles

def legacyRuleDenyTraces : Node.legacyRuleDenyOverrides.Traces .permit where
  Saw := fun (flags : Node.LegacyRuleFlags) => flags.other = true
  unseen := by simp [Node.legacyRuleDenyOverrides, Node.legacyRuleOverrides]
  noted flags answer saw := by
    cases answer <;>
      simp_all [Node.legacyRuleDenyOverrides, Node.legacyRuleOverrides, Decision.isIndeterminate]
  stopped answer stops := stopAt_eq stops
  settled flags settles := by
    simp only [Node.legacyRuleDenyOverrides, Node.legacyRuleOverrides]
      at settles
    split_ifs at settles
    assumption

def legacyRulePermitTraces : Node.legacyRulePermitOverrides.Traces .permit where
  Saw := fun _ => False
  unseen := id
  noted _ _ saw := saw.elim
  stopped answer stops := stopAt_eq stops
  settled flags settles := by
    simp only [Node.legacyRulePermitOverrides, Node.legacyRuleOverrides]
      at settles
    split_ifs at settles

def legacyPolicyDenyTraces : Node.legacyPolicyDenyOverrides.Traces .permit where
  Saw := fun (flags : Node.LegacyPolicyFlags) => flags.other = true
  unseen := by simp [Node.legacyPolicyDenyOverrides, Node.legacyPolicyOverrides]
  noted flags answer saw := by
    cases answer <;>
      simp_all [Node.legacyPolicyDenyOverrides, Node.legacyPolicyOverrides,
        Decision.isIndeterminate]
  stopped answer stops := stopAt_eq stops
  settled flags settles := by
    simp only [Node.legacyPolicyDenyOverrides, Node.legacyPolicyOverrides]
      at settles
    split_ifs at settles
    assumption

/-! ## The walk that does not -/

/-- Whether the flags of the legacy policy version hold an error. -/
def legacyPolicyPermitErred (flags : Node.legacyPolicyPermitOverrides.Flags) : Bool :=
  Node.LegacyPolicyFlags.error flags

variable (flags : Node.legacyPolicyPermitOverrides.Flags) (decisions : List Decision)

/-- An Indeterminate, once noted, stays noted. -/
theorem legacyPolicyPermit_erred :
    legacyPolicyPermitErred
        (decisions.foldl Node.legacyPolicyPermitOverrides.note flags) =
    (legacyPolicyPermitErred flags || decisions.any Decision.isIndeterminate) := by
  induction decisions generalizing flags with
  | nil => simp
  | cons decision rest ih =>
    simp only [foldl_cons, any_cons]
    rw [ih]
    cases decision <;>
      simp [legacyPolicyPermitErred, Node.legacyPolicyPermitOverrides,
        Node.legacyPolicyOverrides, Decision.isIndeterminate]

/-- It settles on Permit exactly when it noted an error. -/
theorem legacyPolicyPermit_settle_iff :
    Node.legacyPolicyPermitOverrides.settle flags = .permit ↔
      legacyPolicyPermitErred flags = true := by
  simp only [Node.legacyPolicyPermitOverrides, Node.legacyPolicyOverrides, legacyPolicyPermitErred]
  split_ifs <;> simp_all

/-- The legacy policy version answers Permit on a Permit or on any error. -/
theorem legacyPolicyPermit_verdict_iff :
    (Node.legacyPolicyPermitOverrides.combine decisions).verdict = .permit ↔
      .permit ∈ decisions ∨ decisions.any Decision.isIndeterminate = true := by
  rw [Combiner.combine_eq, Walk.settleAll_verdict_of_stops_at _ .permit (fun _ => rfl)]
  by_cases answered : Decision.permit ∈ decisions
  · simp [answered]
  · simp only [answered, if_false, false_or,
      legacyPolicyPermit_settle_iff, legacyPolicyPermit_erred]
    rfl

/-- Its Permit is earned unless errors stand alone. -/
theorem legacyPolicyPermit_earned_iff :
    PermitEarned (Node.legacyPolicyPermitOverrides.combine decisions) ↔
    (decisions.any Decision.isIndeterminate = true → Decision.permit ∈ decisions) := by
  constructor
  · intro earned error
    have asked := earned ((legacyPolicyPermit_verdict_iff decisions).mpr (.inr error))
    rw [Combiner.combine_eq] at asked
    exact Walk.settleAll_results_subset _ _ _ _ asked
  · intro excused permits
    rw [legacyPolicyPermit_verdict_iff] at permits
    rw [Combiner.combine_eq]
    exact Walk.mem_results_of_stops_at _ Decision.permit (fun _ => rfl) _ (permits.elim id excused)

end Combiner

variable (engine : Engine)

/-- only-one-applicable answers what the one child it evaluated returned. -/
theorem onlyOneApplicable_earned (children : List DecidedChild) (combination : Combination Decision)
    (combined : engine.combine PolicyAlg.onlyOneApplicable children = some combination) :
    PermitEarned combination := by
  cases engine with
  | node =>
    simp only [Engine.combine, if_true, Option.some.injEq,
      Node.evaluateOnlyOneApplicable, bind, pure] at combined
    subst combined
    intro permits
    split at permits <;> simp_all
  | rust =>
    simp only [Engine.combine, if_true, Rust.onlyOneApplicable, bind, pure] at combined
    intro permits
    split at combined
    · next ran =>
        split at ran <;> simp_all
        all_goals grind
    · simp only [Option.some.injEq] at combined
      subst combined
      cases permits

/-! ## Every registered identifier -/

/-- What an entry of the table promises about the Permits of its walk. -/
def EntryEarns (entry : String × Node.Registered) : Prop :=
  ∀ combiner,
    entry.2 = .combiner combiner →
    entry.1 ∉ permitUnlessDenyIds →
    if entry.1 ∈ legacyPolicyPermitIds then
      combiner = Node.legacyPolicyPermitOverrides
    else
      Nonempty (combiner.Traces .permit)

/-- Identifiers of a tracing walk promise that its Permits are earned. -/
theorem register_earns (uris : List String) (traces : combiner.Traces .permit)
    (ordinary : ∀ uri ∈ uris, uri ∉ legacyPolicyPermitIds) :
    ∀ entry ∈ Node.register uris combiner, EntryEarns entry := by
  intro entry registered
  simp only [Node.register, mem_map] at registered
  obtain ⟨uri, isUri, rfl⟩ := registered
  intro implementation isCombiner _
  rw [if_neg (ordinary uri isUri)]
  simp only [Node.Registered.combiner.injEq] at isCombiner
  subst isCombiner
  exact ⟨traces⟩

/-- Every entry of the table promises it. -/
theorem combiners_earn : ∀ entry ∈ Node.combiners, EntryEarns entry := by
  intro entry registered
  simp only [Node.combiners, mem_append, mem_singleton, or_assoc] at registered
  rcases registered with
    h | h | h | h | h | h | h | h | h | h
  · exact register_earns _ Combiner.denyOverridesTraces (by decide) entry h
  · exact register_earns _ Combiner.permitOverridesTraces (by decide) entry h
  · exact register_earns _ Combiner.denyUnlessPermitTraces (by decide) entry h
  · intro _ _ other
    simp only [Node.register, mem_map] at h
    obtain ⟨uri, isUri, rfl⟩ := h
    exact absurd isUri other
  · exact register_earns _ Combiner.firstApplicableTraces (by decide) entry h
  · exact register_earns _ Combiner.legacyRuleDenyTraces (by decide) entry h
  · exact register_earns _ Combiner.legacyRulePermitTraces (by decide) entry h
  · exact register_earns _ Combiner.legacyPolicyDenyTraces (by decide) entry h
  · intro combiner isCombiner _
    simp only [Node.register, mem_map] at h
    obtain ⟨uri, isUri, rfl⟩ := h
    have isLegacy : uri ∈ legacyPolicyPermitIds := isUri
    simpa [isLegacy] using isCombiner.symm
  · subst h
    intro _ isCombiner
    cases isCombiner

/-- A walk of either engine earns its Permits, or decides as the legacy one. -/
theorem combinerFor_earned_iff (uri : String) (combiner : Combiner) (decisions : List Decision)
    (registered : engine.combinerFor uri = some combiner) (other : uri ∉ permitUnlessDenyIds) :
    PermitEarned (combiner.combine decisions) ↔
    (uri ∈ legacyPolicyPermitIds →
        decisions.any Decision.isIndeterminate = true →
        Decision.permit ∈ decisions) := by
  -- The two engines combine alike, so the JavaScript table answers for both.
  have nodeRegistered :
      ∃ first,
        Engine.node.combinerFor uri = some first ∧
          first.combine decisions = combiner.combine decisions := by
    cases engine with
    | node => exact ⟨combiner, registered, rfl⟩
    | rust =>
      have agree := combinerFor_agree uri decisions
      rw [registered, Option.map_some, Option.map_eq_some_iff] at agree
      exact agree
  obtain ⟨first, found, sameCombination⟩ := nodeRegistered
  rw [← sameCombination]
  have earns : EntryEarns (uri, .combiner first) := by
    apply combiners_earn
    apply JsObject.mem_of_read_own
    simp only [Engine.combinerFor] at found
    split at found
    · next implementation looked =>
        cases found
        exact looked
    · cases found
  have promised := earns first rfl other
  by_cases isLegacy : uri ∈ legacyPolicyPermitIds
  · rw [if_pos isLegacy] at promised
    subst promised
    simp [isLegacy, Combiner.legacyPolicyPermit_earned_iff]
  · rw [if_neg isLegacy] at promised
    obtain ⟨traces⟩ := promised
    simp [isLegacy, PermitEarned.of_traces traces]

/--
Under every registered identifier but those of permit-unless-deny, a combined
Permit was returned by an evaluated child, unless the legacy policy version of
permit-overrides is handed an Indeterminate and no Permit.
-/
theorem combine_earned_iff (engine : Engine) (uri : String) (children : List DecidedChild)
    (combination : Combination Decision) (combined : engine.combine uri children = some combination)
    (other : uri ∉ permitUnlessDenyIds) :
    PermitEarned combination ↔
      (uri ∈ legacyPolicyPermitIds →
        (∃ child ∈ children, child.decision.isIndeterminate = true) →
        ∃ child ∈ children, child.decision = .permit) := by
  by_cases isOnlyOne : uri = PolicyAlg.onlyOneApplicable
  · subst isOnlyOne
    have notLegacy : PolicyAlg.onlyOneApplicable ∉ legacyPolicyPermitIds := by decide
    simp [notLegacy, onlyOneApplicable_earned engine children combination combined]
  · simp only [Engine.combine, isOnlyOne, if_false, Option.map_eq_some_iff] at combined
    obtain ⟨combiner, registered, rfl⟩ := combined
    rw [combinerFor_earned_iff engine uri combiner _ registered other]
    simp [any_map, any_eq_true]

/-- A denial next to an error, under the legacy policy permit-overrides. -/
def deniedBesideAnError : List DecidedChild := [⟨.isMatch, .deny⟩, ⟨.isMatch, .indeterminateD⟩]

theorem legacyPermit_combines_to_permit :
    Engine.node.combine PolicyAlg.legacyPermitOverrides
        deniedBesideAnError =
      some ⟨.permit, [.deny, .indeterminateD]⟩ := by
  rfl

theorem combine_not_always_earned :
    ¬ ∀ engine uri children combination,
        Engine.combine engine uri children = some combination →
        uri ∉ permitUnlessDenyIds →
        PermitEarned combination := by
  intro alwaysEarned
  have earned := alwaysEarned .node _ _ _ legacyPermit_combines_to_permit (by decide)
  exact absurd earned (by decide)

/-- With a Permit among them the same children earn it. -/
theorem combine_earned_with_permit : PermitEarned ⟨.permit, [.deny, .indeterminateD, .permit]⟩ :=
  (combine_earned_iff .node PolicyAlg.legacyPermitOverrides
    [⟨.isMatch, .deny⟩, ⟨.isMatch, .indeterminateD⟩, ⟨.isMatch, .permit⟩]
    _ rfl (by decide)).mpr
    (fun _ _ => ⟨⟨.isMatch, .permit⟩, by simp, rfl⟩)

end IyaSts.Xacml
