import IyaSts.XacmlVisitsRead

namespace IyaSts.Xacml.Node

/-!
# Whether a definite algorithm decides

deny-unless-permit and permit-unless-deny settle on a definite decision, if they
settle.  An error that a node below throws, or an expression of the node's own,
takes the decision away, and `Escapes` says when there is one.
-/

section

variable {Payload : Type}

/-! ## Steps that throw -/

/-- A step throws in a state. -/
def Throws {α : Type} (step : EvalM Payload α) (state : EvalState Payload) : Prop :=
  ∃ failure final, step state = .error failure final

theorem not_throws_pure {α : Type} (value : α) (state : EvalState Payload) :
    ¬ Throws (pure value : EvalM Payload α) state := by
  rintro ⟨failure, final, ⟨⟩⟩

theorem throws_throw {α : Type} (failure : Failure) (state : EvalState Payload) :
    Throws (throw failure : EvalM Payload α) state :=
  ⟨failure, state, rfl⟩

theorem Returns.not_throws {α : Type} {step : EvalM Payload α} {holds : α → Prop}
    (returns : Returns step holds) (state : EvalState Payload) :
    ¬ Throws step state := by
  rintro ⟨failure, final, failed⟩
  obtain ⟨value, later, answered, _⟩ := returns state
  rw [answered] at failed
  cases failed

theorem throws_bind_iff {α β : Type} {first : EvalM Payload α} {next : α → EvalM Payload β}
    {state : EvalState Payload} :
    Throws (first >>= next) state ↔
      Throws first state ∨
        ∃ value later, first state = .ok value later ∧ Throws (next value) later := by
  have run : (first >>= next) state = EStateM.bind first next state := rfl
  unfold Throws
  rw [run, EStateM.bind]
  cases isFirst : first state with
  | error failure later => simp
  | ok value later => simp

/-- A step that answers, or throws. -/
theorem answers_of_not_throws {α : Type} {step : EvalM Payload α} {state : EvalState Payload}
    (notThrows : ¬ Throws step state) :
    ∃ value later, step state = .ok value later := by
  cases isRun : step state with
  | ok value later => exact ⟨value, later, rfl⟩
  | error failure later => exact absurd ⟨failure, later, isRun⟩ notThrows

/-- What a target guards throws when the target matches and it does. -/
theorem throws_guarded_iff {Answer : Type} {withStatus : Decision → Option Failure → Answer}
    {context : Context Payload} {definitions : Option (List (String × Expression))}
    {target : Option Target} {undecided : Decision} {matched : EvalM Payload Answer}
    {state : EvalState Payload} :
    Throws (guarded withStatus context definitions target undecided matched)
        state ↔
      ∃ later,
        evaluateTarget context definitions target state =
            .ok .isMatch later ∧
          Throws matched later := by
  unfold guarded
  rw [throws_bind_iff]
  have tries := (Returns.tried (evaluateTarget context definitions target))
  rw [or_iff_right (tries.not_throws state)]
  unfold attempt
  cases isTarget : evaluateTarget context definitions target state with
  | error failure later =>
    constructor
    · rintro ⟨outcome, final, ⟨⟩, throws⟩
      exact absurd throws (not_throws_pure _ _)
    · rintro ⟨final, ⟨⟩, _⟩
  | ok found later =>
    constructor
    · rintro ⟨outcome, final, ⟨⟩, throws⟩
      cases found with
      | isMatch => exact ⟨later, rfl, throws⟩
      | noMatch => exact absurd throws (not_throws_pure _ _)
      | indeterminate =>
        have returns :
            Returns
              (do
                let error ← lastTargetError target
                pure (withStatus undecided error) : EvalM Payload Answer)
              (fun _ => True) :=
          Returns.bind (Returns.lastTargetError target) fun _ _ => Returns.pure trivial
        exact absurd throws (returns.not_throws _)
    · rintro ⟨final, ⟨⟩, throws⟩
      exact ⟨_, _, rfl, throws⟩

/-- What is attached is what the node's own expressions say. -/
theorem attachObligations_eq (context : Context Payload)
    (definitions : Option (List (String × Expression)))
    (obligations advice : List ExpressionHolder) (childResults : List (Result Payload))
    (combined : Result Payload) :
    ∃ attach,
      attachObligations context definitions obligations advice childResults
          combined =
        attach <$> ownExpressions context definitions obligations advice combined.decision := by
  unfold attachObligations ownExpressions
  cases definite combined.decision with
  | none => exact ⟨fun _ => combined, by simp⟩
  | some effect =>
    refine ⟨fun own => { combined with
        obligationsResolved :=
          (childResults.filter (·.decision = combined.decision)).flatMap
            Result.obligationsResolved ++ own.1
        adviceResolved :=
          (childResults.filter (·.decision = combined.decision)).flatMap
            Result.adviceResolved ++ own.2 }, ?_⟩
    simp only [collect_eq, map_bind, map_pure]

/-- Concluding throws when an expression of the node's own does. -/
theorem throws_conclude_iff {context : Context Payload}
    {definitions : Option (List (String × Expression))} {identifier : PolicyIdentifier}
    {obligations advice : List ExpressionHolder}
    {combination : Combination (Result Payload)} {state : EvalState Payload} :
    Throws
        (conclude context definitions identifier obligations advice combination) state ↔
      Throws (ownExpressions context definitions obligations advice combination.verdict) state := by
  have notices :
      ∀ decision later, ¬ Throws (notice decision identifier : EvalM Payload Unit) later := by
    intro decision later
    unfold notice
    split
    · exact not_throws_pure _ _
    · rintro ⟨failure, final, ⟨⟩⟩
  obtain ⟨attach, attached⟩ :=
    attachObligations_eq context definitions obligations advice
      combination.results
      (Result.plain combination.verdict (firstStatus combination.results))
  unfold conclude
  rw [attached, bind_map_left, throws_bind_iff]
  refine or_iff_left ?_
  rintro ⟨own, later, _, throws⟩
  rcases throws_bind_iff.mp throws with noticeThrows | ⟨_, _, _, pureThrows⟩
  · exact notices _ _ noticeThrows
  · exact not_throws_pure _ _ pureThrows

/-! ## Which children are asked -/

/-- A policy set's algorithm asks a child in a state. -/
inductive AsksChild (context : Context Payload)
    (evaluateNode : Child → EvalM Payload (Result Payload))
    (combiningAlgId : String) (children : List Child)
    (state : EvalState Payload) : Child → EvalState Payload → Prop where
  | selected
      {index : Nat}
      {before : EvalState Payload}
      (isOnlyOne : combiningAlgId = PolicyAlg.onlyOneApplicable)
      (isOne :
        selectApplicable id none 0 (children.map (applies context)) state =
          .ok (.one index) before) :
      AsksChild context evaluateNode combiningAlgId children state
        (children.getD index .unresolvedReference) before
  | walked
      {walk : Combiner}
      {child : Child}
      {before : EvalState Payload}
      (notOnlyOne : combiningAlgId ≠ PolicyAlg.onlyOneApplicable)
      (isRegistered : lookupCombiner combiningAlgId = .own (.combiner walk))
      (asks :
        DemandWalk.Walk.Asks walk Result.decision evaluateNode walk.start
          children state child before) :
      AsksChild context evaluateNode combiningAlgId children state child before

/-- Asking the targets never throws. -/
theorem selectApplicable_returns (context : Context Payload) (selected : Option Nat)
    (index : Nat) (children : List Child) :
    Returns
      (selectApplicable id selected index (children.map (applies context)))
      (fun _ => True) := by
  have appliesReturns : ∀ child, Returns (applies context child) (fun _ => True) := by
    intro child
    refine Returns.bind (Returns.tried _) fun outcome _ => ?_
    cases outcome with
    | error failure => exact Returns.pure trivial
    | ok result => exact Returns.pure trivial
  induction children generalizing selected index with
  | nil => cases selected <;> exact Returns.pure trivial
  | cons child rest ih =>
    rw [List.map_cons, selectApplicable]
    refine Returns.bind (appliesReturns child) fun answer _ => ?_
    cases answer with
    | indeterminate => exact Returns.pure trivial
    | noMatch => exact ih _ _
    | isMatch =>
      cases selected with
      | none => exact ih _ _
      | some _ => exact Returns.pure trivial

/-- Only one identifier is registered without a walk. -/
theorem eq_of_lookup_onlyOne {combiningAlgId : String}
    (isRegistered : lookupCombiner combiningAlgId = .own .onlyOneApplicable) :
    combiningAlgId = PolicyAlg.onlyOneApplicable := by
  have isEntry := JsObject.mem_of_read_own isRegistered
  simpa [combiners, register] using isEntry

/-- Combining children throws when a child that is asked does, or when there is
no algorithm to call. -/
theorem throws_combineChildren_iff {context : Context Payload}
    {evaluateNode : Child → EvalM Payload (Result Payload)}
    {combiningAlgId : String} {children : List Child} {state : EvalState Payload}
    (known : ¬ Unknown combiningAlgId) :
    Throws
        (combineChildren Result.decision context evaluateNode combiningAlgId children) state ↔
      lookupCombiner combiningAlgId = .inherited ∨
        ∃ child before,
          AsksChild context evaluateNode combiningAlgId children state child
              before ∧
            Throws (evaluateNode child) before := by
  unfold combineChildren
  by_cases isOnlyOne : combiningAlgId = PolicyAlg.onlyOneApplicable
  · have notInherited : ¬ lookupCombiner combiningAlgId = .inherited := by
      intro isInherited
      have nameInherited := (JsObject.of_read_inherited isInherited).2
      rw [isOnlyOne] at nameInherited
      exact absurd nameInherited (by decide)
    rw [if_pos isOnlyOne, or_iff_right notInherited]
    unfold evaluateOnlyOneApplicable
    rw [throws_bind_iff, or_iff_right
      ((selectApplicable_returns context none 0 children).not_throws state)]
    constructor
    · rintro ⟨selection, later, isSelected, throws⟩
      cases selection with
      | undecided answer => exact absurd throws (not_throws_pure _ _)
      | several => exact absurd throws (not_throws_pure _ _)
      | nobody => exact absurd throws (not_throws_pure _ _)
      | one index =>
        rcases throws_bind_iff.mp throws with childThrows | ⟨_, _, _, none⟩
        · exact ⟨_, later, .selected isOnlyOne isSelected, childThrows⟩
        · exact absurd none (not_throws_pure _ _)
    · rintro ⟨child, before, asks, childThrows⟩
      cases asks with
      | selected _ isOne => exact ⟨_, before, isOne, throws_bind_iff.mpr (.inl childThrows)⟩
      | walked notOnlyOne _ _ => exact absurd isOnlyOne notOnlyOne
  · rw [if_neg isOnlyOne]
    unfold combineWith
    cases isRegistered : lookupCombiner combiningAlgId with
    | inherited => simp [throws_throw]
    | absent =>
      have isUnknown : Unknown combiningAlgId := by
        change JsObject.read combiners combiningAlgId = .absent
          at isRegistered
        simp [Unknown, isRegistered]
      exact absurd isUnknown known
    | own registered =>
      cases registered with
      | onlyOneApplicable => exact absurd (eq_of_lookup_onlyOne isRegistered) isOnlyOne
      | combiner walk =>
        rw [or_iff_right (by simp)]
        constructor
        · rintro ⟨failure, final, failed⟩
          obtain ⟨child, before, asks, childFails⟩ :=
            (DemandWalk.Walk.run_error_iff walk Result.decision evaluateNode).mp failed
          exact ⟨child, before, .walked isOnlyOne isRegistered asks, failure, final, childFails⟩
        · rintro ⟨child, before, asks, failure, final, childFails⟩
          cases asks with
          | selected isOnlyOne' _ => exact absurd isOnlyOne' isOnlyOne
          | walked _ isRegistered' asks =>
            rw [isRegistered] at isRegistered'
            cases isRegistered'
            exact ⟨failure, final, (DemandWalk.Walk.run_error_iff walk Result.decision
                evaluateNode).mpr ⟨child, before, asks, childFails⟩⟩

/-- An identifier that is found, but not as an algorithm for rules. -/
def NoWalk (combiningAlgId : String) : Prop :=
  lookupCombiner combiningAlgId = .inherited ∨
    lookupCombiner combiningAlgId = .own .onlyOneApplicable

/-- Combining rules throws only where there is no algorithm to call. -/
theorem throws_combineRules_iff {context : Context Payload} {policy : Policy}
    {state : EvalState Payload} (known : lookupCombiner policy.combiningAlgId ≠ .absent) :
    Throws
        (combineWith Result.decision (lookupCombiner policy.combiningAlgId)
          (policy.rules.map (evaluateRule context (some policy.definitions)))) state ↔
      NoWalk policy.combiningAlgId := by
  unfold NoWalk
  cases isRegistered : lookupCombiner policy.combiningAlgId with
  | absent => exact absurd isRegistered known
  | inherited => exact iff_of_true (throws_throw _ _) (.inl rfl)
  | own registered =>
    cases registered with
    | onlyOneApplicable => exact iff_of_true (throws_throw _ _) (.inr rfl)
    | combiner walk =>
      refine iff_of_false ?_ (by simp)
      rintro ⟨failure, final, failed⟩
      obtain ⟨rule, before, _, ruleFails⟩ :=
        (DemandWalk.Walk.run_error_iff walk Result.decision
          (evaluateRule context (some policy.definitions))).mp failed
      exact (evaluateRule_returns context _ rule).not_throws before ⟨failure, final, ruleFails⟩

/-! ## When an error escapes a node -/

/-- The rules of a policy, combined. -/
def combineRules (context : Context Payload) (policy : Policy) :
    EvalM Payload (Combination (Result Payload)) :=
  combineWith Result.decision (lookupCombiner policy.combiningAlgId)
    (policy.rules.map (evaluateRule context (some policy.definitions)))

/-- A policy's target matches, with no variable remembered before it. -/
def PolicyMatches (context : Context Payload) (policy : Policy)
    (state matched : EvalState Payload) : Prop :=
  evaluateTarget context (some policy.definitions) policy.target
      { state with memo := [] } =
    .ok .isMatch matched

/--
An error escapes a node: the room is used up; its target matches and the
algorithm it names is none to call; an obligation or advice expression to be
fulfilled on its own decision fails; or an error escapes a child it asks.
-/
inductive Escapes (context : Context Payload) :
    Nat → Child → EvalState Payload → Prop where
  | exhausted {child : Child} {state : EvalState Payload} : Escapes context 0 child state
  | ruleCombining
      {stack : Nat}
      {policy : Policy}
      {state matched : EvalState Payload}
      (isMatch : PolicyMatches context policy state matched)
      (noWalk : NoWalk policy.combiningAlgId) :
      Escapes context (stack + 1) (.document (.policy policy)) state
  | policyExpressions
      {stack : Nat}
      {policy : Policy}
      {state matched after : EvalState Payload}
      {combination : Combination (Result Payload)}
      (known : lookupCombiner policy.combiningAlgId ≠ .absent)
      (isMatch : PolicyMatches context policy state matched)
      (combined : combineRules context policy matched = .ok combination after)
      (fails :
        Throws
          (ownExpressions context (some policy.definitions)
            policy.obligations policy.advice combination.verdict) after) :
      Escapes context (stack + 1) (.document (.policy policy)) state
  | policyCombining
      {stack : Nat}
      {id version combiningAlgId : String}
      {target : Option Target}
      {children : List PolicyNode}
      {obligations advice : List ExpressionHolder}
      {state matched : EvalState Payload}
      (isMatch : evaluateTarget context none target state = .ok .isMatch matched)
      (isInherited : lookupCombiner combiningAlgId = .inherited) :
      Escapes context (stack + 1)
        (.document (.policySet id version combiningAlgId target children obligations advice)) state
  | setExpressions
      {stack : Nat}
      {id version combiningAlgId : String}
      {target : Option Target}
      {children : List PolicyNode}
      {obligations advice : List ExpressionHolder}
      {state matched after : EvalState Payload}
      {combination : Combination (Result Payload)}
      (known : ¬ Unknown combiningAlgId)
      (isMatch : evaluateTarget context none target state = .ok .isMatch matched)
      (combined :
        combineChildren Result.decision context (evaluateNode context stack)
            combiningAlgId (children.map (resolveChild context.repository))
            matched =
          .ok combination after)
      (fails : Throws (ownExpressions context none obligations advice combination.verdict) after) :
      Escapes context (stack + 1)
        (.document (.policySet id version combiningAlgId target children obligations advice)) state
  | child
      {stack : Nat}
      {id version combiningAlgId : String}
      {target : Option Target}
      {children : List PolicyNode}
      {obligations advice : List ExpressionHolder}
      {state matched before : EvalState Payload}
      {asked : Child}
      (known : ¬ Unknown combiningAlgId)
      (isMatch : evaluateTarget context none target state = .ok .isMatch matched)
      (asks :
        AsksChild context (evaluateNode context stack) combiningAlgId
          (children.map (resolveChild context.repository)) matched asked
          before)
      (escapes : Escapes context stack asked before) :
      Escapes context (stack + 1)
        (.document (.policySet id version combiningAlgId target children obligations advice)) state

/-- A policy throws when one of the reasons applies to it. -/
theorem throws_evaluatePolicy_iff {context : Context Payload} {policy : Policy}
    {state : EvalState Payload} :
    Throws (evaluatePolicy context policy) state ↔
      lookupCombiner policy.combiningAlgId ≠ .absent ∧
        ∃ matched, PolicyMatches context policy state matched ∧
          (NoWalk policy.combiningAlgId ∨
            ∃ combination after,
              combineRules context policy matched = .ok combination after ∧
                Throws
                  (ownExpressions context (some policy.definitions)
                    policy.obligations policy.advice combination.verdict)
                  after) := by
  have begins :
      ∀ next : Unit → EvalM Payload (Result Payload),
        Throws (makeVariables >>= next) state ↔ Throws (next ()) { state with memo := [] } := by
    intro next
    rfl
  unfold evaluatePolicy
  rw [begins]
  by_cases isAbsent : lookupCombiner policy.combiningAlgId = .absent
  · rw [isAbsent]
    exact iff_of_false (not_throws_pure _ _) fun reasons => reasons.1 rfl
  · refine
      Iff.trans
        (Iff.of_eq
          (congrArg (Throws · _)
            (?isGuarded :
              _ =
                guarded withStatus context (some policy.definitions)
                  policy.target .indeterminateDP
                  (do
                    let combination ← combineRules context policy
                    conclude context (some policy.definitions)
                      { isPolicySet := false, id := policy.id,
                        version := policy.version }
                      policy.obligations policy.advice combination)))) ?_
    case isGuarded =>
      unfold combineRules
      cases isRegistered : lookupCombiner policy.combiningAlgId with
      | absent => exact absurd isRegistered isAbsent
      | inherited => rfl
      | own registered => rfl
    rw [throws_guarded_iff, and_iff_right isAbsent]
    refine exists_congr fun matched => and_congr_right fun _ => ?_
    rw [throws_bind_iff]
    refine or_congr (throws_combineRules_iff isAbsent) ?_
    refine exists_congr fun combination => exists_congr fun after => ?_
    exact and_congr_right fun _ => throws_conclude_iff

/-- So does a policy set. -/
theorem throws_evaluatePolicySet_iff {context : Context Payload}
    {evaluateNode : Child → EvalM Payload (Result Payload)}
    {id version combiningAlgId : String} {target : Option Target}
    {children : List PolicyNode} {obligations advice : List ExpressionHolder}
    {state : EvalState Payload} :
    Throws
        (evaluatePolicySet context evaluateNode id version combiningAlgId
          target children obligations advice) state ↔
      ¬ Unknown combiningAlgId ∧
        ∃ matched,
          evaluateTarget context none target state = .ok .isMatch matched ∧
            ((lookupCombiner combiningAlgId = .inherited ∨
                ∃ child before,
                  AsksChild context evaluateNode combiningAlgId
                      (children.map (resolveChild context.repository)) matched
                      child before ∧
                    Throws (evaluateNode child) before) ∨
              ∃ combination after,
                combineChildren Result.decision context evaluateNode
                    combiningAlgId
                    (children.map (resolveChild context.repository)) matched =
                    .ok combination after ∧
                  Throws
                    (ownExpressions context none obligations advice
                      combination.verdict) after) := by
  unfold evaluatePolicySet
  rw [throws_guarded_iff]
  by_cases isUnknown : Unknown combiningAlgId
  · rw [if_pos isUnknown]
    refine iff_of_false ?_ fun reasons => reasons.1 isUnknown
    rintro ⟨matched, _, throws⟩
    exact not_throws_pure _ _ throws
  · rw [if_neg isUnknown, and_iff_right isUnknown]
    refine exists_congr fun matched => and_congr_right fun _ => ?_
    rw [throws_bind_iff]
    refine or_congr (throws_combineChildren_iff isUnknown) ?_
    refine exists_congr fun combination => exists_congr fun after => ?_
    exact and_congr_right fun _ => throws_conclude_iff

/-- A node throws exactly when an error escapes it. -/
theorem throws_evaluateNode_iff (context : Context Payload) (stack : Nat) (child : Child)
    (state : EvalState Payload) :
    Throws (evaluateNode context stack child) state ↔ Escapes context stack child state := by
  induction stack generalizing child state with
  | zero => exact iff_of_true (throws_throw _ _) .exhausted
  | succ stack ih =>
    have endedEarly :
        ∀ error : Failure,
          ¬ Throws
            (pure (withStatus .indeterminateDP (some error)) :
              EvalM Payload (Result Payload)) state :=
      fun error => not_throws_pure _ _
    cases child with
    | document node =>
      cases node with
      | policy policy =>
        refine throws_evaluatePolicy_iff.trans ?_
        constructor
        · rintro ⟨known, matched, isMatch, noWalk | ⟨combination, after, combined, fails⟩⟩
          · exact .ruleCombining isMatch noWalk
          · exact .policyExpressions known isMatch combined fails
        · intro escapes
          cases escapes with
          | ruleCombining isMatch noWalk =>
            refine ⟨?_, _, isMatch, .inl noWalk⟩
            rcases noWalk with isInherited | isOnlyOne
            · rw [isInherited]
              simp
            · rw [isOnlyOne]
              simp
          | policyExpressions known isMatch combined fails =>
            exact ⟨known, _, isMatch, .inr ⟨_, _, combined, fails⟩⟩
      | policySet id version combiningAlgId target children obligations
          advice =>
        refine throws_evaluatePolicySet_iff.trans ?_
        constructor
        · rintro ⟨known, matched, isMatch, (isInherited | ⟨asked, before,
            asks, throws⟩) | ⟨combination, after, combined, fails⟩⟩
          · exact .policyCombining isMatch isInherited
          · exact .child known isMatch asks ((ih asked before).mp throws)
          · exact .setExpressions known isMatch combined fails
        · intro escapes
          cases escapes with
          | policyCombining isMatch isInherited =>
            refine ⟨?_, _, isMatch, .inl (.inl isInherited)⟩
            intro isUnknown
            change JsObject.read combiners combiningAlgId = .inherited
              at isInherited
            simp [Unknown, isInherited] at isUnknown
          | setExpressions known isMatch combined fails =>
            exact ⟨known, _, isMatch, .inr ⟨_, _, combined, fails⟩⟩
          | child known isMatch asks escapes =>
            exact ⟨known, _, isMatch, .inl (.inr ⟨_, _, asks,
              (ih _ _).mpr escapes⟩)⟩
      | policyIdReference ref => exact iff_of_false (endedEarly _) fun escapes => by cases escapes
      | policySetIdReference ref =>
        exact iff_of_false (endedEarly _) fun escapes => by cases escapes
    | unresolvedReference => exact iff_of_false (endedEarly _) fun escapes => by cases escapes
    | inherited => exact iff_of_false (endedEarly _) fun escapes => by cases escapes

/-! ## The two algorithms that settle on a definite decision -/

/-- The identifiers of deny-unless-permit and permit-unless-deny. -/
def DefiniteAlgorithm (combiningAlgId : String) : Prop :=
  combiningAlgId ∈
    [RuleAlg.denyUnlessPermit, PolicyAlg.denyUnlessPermit,
      RuleAlg.permitUnlessDeny, PolicyAlg.permitUnlessDeny]

instance (combiningAlgId : String) :
    Decidable (DefiniteAlgorithm combiningAlgId) :=
  inferInstanceAs (Decidable (_ ∈ _))

/-- A Permit or a Deny. -/
def IsDefinite (decision : Decision) : Prop := decision = .permit ∨ decision = .deny

/-- They are walks between two definite decisions. -/
theorem lookup_definiteAlgorithm {combiningAlgId : String}
    (isDefinite : DefiniteAlgorithm combiningAlgId) :
    ∃ wins otherwise, IsDefinite wins ∧ IsDefinite otherwise ∧
      lookupCombiner combiningAlgId = .own (.combiner (unlessOther wins otherwise)) := by
  simp only [DefiniteAlgorithm, List.mem_cons, List.not_mem_nil, or_false]
    at isDefinite
  rcases isDefinite with rfl | rfl | rfl | rfl
  · exact ⟨.permit, .deny, .inl rfl, .inr rfl, rfl⟩
  · exact ⟨.permit, .deny, .inl rfl, .inr rfl, rfl⟩
  · exact ⟨.deny, .permit, .inr rfl, .inl rfl, rfl⟩
  · exact ⟨.deny, .permit, .inr rfl, .inl rfl, rfl⟩

/-- Such a walk settles on one of its two decisions. -/
theorem verdict_unlessOther {wins otherwise : Decision} (winsDefinite : IsDefinite wins)
    (otherwiseDefinite : IsDefinite otherwise)
    {children : List (EvalM Payload (Result Payload))} {state final : EvalState Payload}
    {combination : Combination (Result Payload)}
    (combined :
      combineWith Result.decision
          (.own (.combiner (unlessOther wins otherwise))) children state =
        .ok combination final) :
    IsDefinite combination.verdict := by
  obtain ⟨evaluated, _, settled⟩ :=
    DemandWalk.Walk.run_ok (unlessOther wins otherwise) Result.decision combined
  have verdict :=
    DemandWalk.Walk.settleAll_verdict_of_stops_at
      (unlessOther wins otherwise) wins (fun _ => rfl)
      (unlessOther wins otherwise).start (evaluated.map Result.decision)
  rw [settled] at verdict
  dsimp only at verdict
  rw [verdict]
  split
  · exact winsDefinite
  · exact otherwiseDefinite

/-- Concluding keeps the combined decision. -/
theorem decision_of_conclude {context : Context Payload}
    {definitions : Option (List (String × Expression))} {identifier : PolicyIdentifier}
    {obligations advice : List ExpressionHolder}
    {combination : Combination (Result Payload)} {result : Result Payload}
    {state final : EvalState Payload}
    (concluded :
      conclude context definitions identifier obligations advice combination
          state =
        .ok result final) :
    result.decision = combination.verdict := by
  obtain ⟨combined, later, attached, concluded⟩ := bind_eq_ok concluded
  obtain ⟨_, last, _, concluded⟩ := bind_eq_ok concluded
  cases concluded
  cases isDefinite : definite combination.verdict with
  | none =>
    simp only [attachObligations, Result.plain, isDefinite] at attached
    cases attached
    rfl
  | some effect =>
    simp only [attachObligations, Result.plain, isDefinite] at attached
    obtain ⟨own, middle, _, attached⟩ := bind_eq_ok attached
    obtain ⟨ownAdvice, last, _, attached⟩ := bind_eq_ok attached
    cases attached
    rfl

/-- Where its target matches, what a target guards is what happens. -/
theorem guarded_of_match {Answer : Type} {withStatus : Decision → Option Failure → Answer}
    {context : Context Payload} {definitions : Option (List (String × Expression))}
    {target : Option Target} {undecided : Decision} {matched : EvalM Payload Answer}
    {state later : EvalState Payload}
    (isMatch : evaluateTarget context definitions target state = .ok .isMatch later) :
    guarded withStatus context definitions target undecided matched state = matched later := by
  change EStateM.bind (attempt _) _ state = _
  simp only [EStateM.bind, attempt, isMatch]

/-- The target of a policy or policy set matches. -/
def TargetMatches (context : Context Payload) :
    PolicyNode → EvalState Payload → Prop
  | .policy policy, state => ∃ matched, PolicyMatches context policy state matched
  | .policySet _ _ _ target _ _ _, state =>
    ∃ matched, evaluateTarget context none target state = .ok .isMatch matched
  | .policyIdReference _, _ => False
  | .policySetIdReference _, _ => False

/-- The combining algorithm a policy or policy set names. -/
def combiningAlgIdOf : PolicyNode → String
  | .policy policy => policy.combiningAlgId
  | .policySet _ _ combiningAlgId _ _ _ _ => combiningAlgId
  | .policyIdReference _ => ""
  | .policySetIdReference _ => ""

/-- A policy that answers answers with one of the two. -/
theorem evaluatePolicy_definite {context : Context Payload} {policy : Policy}
    {state final : EvalState Payload} {result : Result Payload}
    (isDefinite : DefiniteAlgorithm policy.combiningAlgId)
    (isMatch : TargetMatches context (.policy policy) state)
    (answered : evaluatePolicy context policy state = .ok result final) :
    IsDefinite result.decision := by
  obtain ⟨wins, otherwise, winsDefinite, otherwiseDefinite, isRegistered⟩ :=
    lookup_definiteAlgorithm isDefinite
  obtain ⟨matched, isMatch⟩ := isMatch
  unfold evaluatePolicy at answered
  obtain ⟨_, begun, begins, answered⟩ := bind_eq_ok answered
  cases begins
  rw [isRegistered] at answered
  dsimp only at answered
  rw [guarded_of_match isMatch] at answered
  obtain ⟨combination, after, combined, concluded⟩ := bind_eq_ok answered
  rw [decision_of_conclude concluded]
  exact verdict_unlessOther winsDefinite otherwiseDefinite combined

/-- So does a policy set. -/
theorem evaluatePolicySet_definite {context : Context Payload}
    {evaluateNode : Child → EvalM Payload (Result Payload)}
    {id version combiningAlgId : String} {target : Option Target}
    {children : List PolicyNode} {obligations advice : List ExpressionHolder}
    {state matched final : EvalState Payload} {result : Result Payload}
    (isDefinite : DefiniteAlgorithm combiningAlgId)
    (isMatch : evaluateTarget context none target state = .ok .isMatch matched)
    (answered :
      evaluatePolicySet context evaluateNode id version combiningAlgId target
          children obligations advice state =
        .ok result final) :
    IsDefinite result.decision := by
  obtain ⟨wins, otherwise, winsDefinite, otherwiseDefinite, isRegistered⟩ :=
    lookup_definiteAlgorithm isDefinite
  have known : ¬ Unknown combiningAlgId := by
    intro isUnknown
    change JsObject.read combiners combiningAlgId = _ at isRegistered
    simp [Unknown, isRegistered] at isUnknown
  have notOnlyOne : combiningAlgId ≠ PolicyAlg.onlyOneApplicable := by
    rintro rfl
    exact absurd isDefinite (by decide)
  unfold evaluatePolicySet at answered
  rw [guarded_of_match isMatch, if_neg known] at answered
  obtain ⟨combination, after, combined, concluded⟩ := bind_eq_ok answered
  rw [combineChildren, if_neg notOnlyOne, isRegistered] at combined
  rw [decision_of_conclude concluded]
  exact verdict_unlessOther winsDefinite otherwiseDefinite combined

/-- A policy that permits what is not denied, on one obligation. -/
def permitting (obligations : List ExpressionHolder) : Policy where
  id := "policy"
  version := "1.0"
  combiningAlgId := RuleAlg.permitUnlessDeny
  target := none
  definitions := []
  rules := []
  obligations := obligations
  advice := []

/-- An obligation that names an attribute the request must carry. -/
def unresolvable : ExpressionHolder where
  id := "obligation"
  on := "Permit"
  assignments :=
    [{ attributeId := "assigned"
       category := none
       issuer := none
       expression :=
        .designator
          { category := "category"
            attributeId := "missing"
            dataType := "type"
            issuer := none
            mustBePresent := true } }]

/-- A set that denies unless that policy permits. -/
def denyUnlessPermitting : PolicyNode :=
  .policySet "set" "1.0" PolicyAlg.denyUnlessPermit none [.policy (permitting [unresolvable])] [] []

end

end IyaSts.Xacml.Node
