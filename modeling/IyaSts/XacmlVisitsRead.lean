import IyaSts.XacmlVisits

namespace IyaSts.Xacml.Node

/-!
# Results are read off the visits

Recording preserves the evaluation: the evaluator answers what is read off the
record, throws what the recorded evaluation throws, and leaves the same state.
-/

open List

section

variable {Payload : Type}

/-- What two steps answered, one after the other. -/
theorem bind_eq_ok {ε σ α β : Type} {first : EStateM ε σ α} {next : α → EStateM ε σ β}
    {state final : σ} {answer : β} (answered : (first >>= next) state = .ok answer final) :
    ∃ value later, first state = .ok value later ∧ next value later = .ok answer final := by
  change EStateM.bind first next state = _ at answered
  rw [EStateM.bind] at answered
  cases isFirst : first state with
  | error failure later =>
    rw [isFirst] at answered
    cases answered
  | ok value later =>
    rw [isFirst] at answered
    exact ⟨value, later, rfl, answered⟩

/-! ## Steps that never throw -/

/-- A step that answers, and answers with a property. -/
def Returns {α : Type} (step : EvalM Payload α) (holds : α → Prop) : Prop :=
  ∀ state, ∃ value later, step state = .ok value later ∧ holds value

theorem Returns.pure {α : Type} {holds : α → Prop} {value : α} (isSo : holds value) :
    Returns (Pure.pure value : EvalM Payload α) holds :=
  fun state => ⟨value, state, rfl, isSo⟩

theorem Returns.bind {α β : Type} {first : EvalM Payload α} {next : α → EvalM Payload β}
    {between : α → Prop} {holds : β → Prop} (firstReturns : Returns first between)
    (nextReturns : ∀ value, between value → Returns (next value) holds) :
    Returns (first >>= next) holds := by
  intro state
  obtain ⟨value, later, isFirst, isBetween⟩ := firstReturns state
  obtain ⟨answer, final, isNext, isSo⟩ := nextReturns value isBetween later
  refine ⟨answer, final, ?_, isSo⟩
  change EStateM.bind first next state = _
  rw [EStateM.bind, isFirst]
  exact isNext

/-- Trying always answers; what it answers is what the step answered. -/
theorem Returns.attempt {α : Type} (step : EvalM Payload α) {holds : α → Prop}
    (answers : ∀ state value later, step state = .ok value later → holds value) :
    Returns (attempt step) (fun outcome => ∀ value, outcome = .ok value → holds value) := by
  intro state
  unfold Node.attempt
  cases isStep : step state with
  | ok value later =>
    refine ⟨.ok value, later, rfl, ?_⟩
    rintro other ⟨⟩
    exact answers state value later isStep
  | error failure later => exact ⟨.error failure, later, rfl, fun _ isOk => by cases isOk⟩

/-- Trying always answers. -/
theorem Returns.tried {α : Type} (step : EvalM Payload α) :
    Returns (Node.attempt step) (fun _ => True) := by
  intro state
  obtain ⟨outcome, later, isTried, _⟩ :=
    @Returns.attempt _ _ step (fun _ => True) (fun _ _ _ _ => trivial) state
  exact ⟨outcome, later, isTried, trivial⟩

theorem Returns.lastTargetError (target : Option Target) :
    Returns (lastTargetError target : EvalM Payload _) (fun _ => True) :=
  fun state => ⟨_, state, rfl, trivial⟩

/-- What is guarded by a target returns when what it guards does. -/
theorem Returns.guarded {Answer : Type} {withStatus : Decision → Option Failure → Answer}
    {context : Context Payload} {definitions : Option (List (String × Expression))}
    {target : Option Target} {undecided : Decision} {matched : EvalM Payload Answer}
    {holds : Answer → Prop} (notApplicable : holds (withStatus .notApplicable none))
    (isUndecided : ∀ error, holds (withStatus undecided error))
    (matchedReturns : Returns matched holds) :
    Returns
      (Node.guarded withStatus context definitions target undecided matched)
      holds := by
  refine Returns.bind (Returns.tried _) fun outcome _ => ?_
  cases outcome with
  | error failure => exact Returns.pure (isUndecided _)
  | ok found =>
    cases found with
    | isMatch => exact matchedReturns
    | noMatch => exact Returns.pure notApplicable
    | indeterminate =>
      exact Returns.bind (Returns.lastTargetError target) fun error _ =>
        Returns.pure (isUndecided error)

/-- A result without obligations where there is no definite decision. -/
def Result.Proper (result : Result Payload) : Prop :=
  definite result.decision = none → result.obligationsResolved = [] ∧ result.adviceResolved = []

theorem Result.Proper.withStatus (decision : Decision) (error : Option Failure) :
    (withStatus decision error : Result Payload).Proper :=
  fun _ => ⟨rfl, rfl⟩

/-- A rule that fires answers, if with its error. -/
theorem firedRule_returns (context : Context Payload)
    (definitions : Option (List (String × Expression))) (rule : Rule) :
    Returns (firedRule context definitions rule) Result.Proper := by
  have definiteEffect :
      ∀ state result later,
        fire context definitions rule state = .ok result later → result.Proper := by
    intro state result later isFired isIndefinite
    obtain ⟨obligations, middle, _, isFired⟩ := bind_eq_ok isFired
    obtain ⟨advice, last, _, isFired⟩ := bind_eq_ok isFired
    cases isFired
    change definite rule.effect.decision = none at isIndefinite
    cases effect : rule.effect with
    | permit => rw [effect] at isIndefinite; cases isIndefinite
    | deny => rw [effect] at isIndefinite; cases isIndefinite
  refine Returns.bind (Returns.attempt _ definiteEffect) fun outcome isProper => ?_
  cases outcome with
  | error failure => exact Returns.pure (.withStatus _ _)
  | ok result => exact Returns.pure (isProper result rfl)

/-- A rule never throws, and answers properly. -/
theorem evaluateRule_returns (context : Context Payload)
    (definitions : Option (List (String × Expression))) (rule : Rule) :
    Returns (evaluateRule context definitions rule) Result.Proper := by
  refine Returns.guarded (.withStatus _ _) (fun error => .withStatus _ _) ?_
  unfold evaluateCondition
  cases rule.condition with
  | none => exact firedRule_returns context definitions rule
  | some condition =>
    refine Returns.bind (Returns.tried _) fun outcome _ => ?_
    cases outcome with
    | error failure => exact Returns.pure (.withStatus _ _)
    | ok conditionResult =>
      show Returns (decideRule _ _ _ _) _
      unfold decideRule
      split
      · split
        · exact Returns.pure (.withStatus _ _)
        · split
          · exact firedRule_returns context definitions rule
          · exact Returns.pure (.withStatus .notApplicable none)
      · exact Returns.pure (.withStatus _ _)

/-! ## Collecting is resolving what fires -/

theorem collect_eq (context : Context Payload)
    (definitions : Option (List (String × Expression))) (effect : Effect)
    (holders : List ExpressionHolder) :
    collect context definitions effect holders =
      (holders.filter (·.on = effect.text)).mapM (resolveHolder context definitions) := by
  induction holders with
  | nil => rfl
  | cons holder rest ih =>
    rw [collect]
    by_cases fires : holder.on = effect.text
    · rw [if_neg (not_not.mpr fires), filter_cons_of_pos (by simpa using fires),
        mapM_cons, ih]
    · rw [if_pos fires, filter_cons_of_neg (by simpa using fires), ih]

/-! ## What is read off a visit -/

@[simp] theorem Visit.result_decision (visit : Visit Payload) :
    visit.result.decision = visit.decision :=
  rfl

/-- Nothing but its status is read off a visit that ended early. -/
theorem Visit.result_ended (decision : Decision) (error : Option Failure) :
    (Visit.ended decision error : Visit Payload).result = withStatus decision error := by
  have noneGathered :
      ∀ own : List (ResolvedObligation Payload) →
          List (ResolvedObligation Payload) → List (ResolvedObligation Payload),
        own [] [] = [] → (Visit.ended decision error).gather own decision = [] := by
    intro own isEmpty
    simp [Visit.ended, Visit.gather, Visit.gatherAll, isEmpty]
  have noObligations : (Visit.ended decision error : Visit Payload).obligationsOf = [] := by
    unfold Visit.obligationsOf
    split
    · rfl
    · exact noneGathered _ rfl
  have noAdvice : (Visit.ended decision error : Visit Payload).adviceOf = [] := by
    unfold Visit.adviceOf
    split
    · rfl
    · exact noneGathered _ rfl
  have sameStatus :
      (Visit.ended decision error : Visit Payload).firstStatus = error.map Failure.status := by
    simp [Visit.ended, Visit.firstStatus, Visit.firstStatusAmong]
  simp only [Visit.result, noObligations, noAdvice, sameStatus]
  rfl

/-- A rule's visit reads as the rule's result. -/
theorem Visit.result_ofRule {result : Result Payload} (isProper : result.Proper) :
    (Visit.ofRule result).result = result := by
  obtain ⟨decision, status, obligations, advice⟩ := result
  cases isDefinite : definite decision with
  | none =>
    obtain ⟨noObligations, noAdvice⟩ := isProper isDefinite
    dsimp only at noObligations noAdvice
    subst noObligations noAdvice
    simp [Visit.result, Visit.firstStatus, Visit.firstStatusAmong,
      Visit.obligationsOf, Visit.adviceOf, Visit.ofRule, isDefinite]
  | some effect =>
    simp [Visit.result, Visit.firstStatus, Visit.firstStatusAmong, Visit.obligationsOf,
      Visit.adviceOf, Visit.ofRule, isDefinite, Visit.gather, Visit.gatherAll]

/-- The first status of results that are read off visits. -/
theorem firstStatus_results (visits : List (Visit Payload)) :
    firstStatus (visits.map Visit.result) = Visit.firstStatusAmong visits := by
  induction visits with
  | nil => rfl
  | cons visit rest ih =>
    rw [Visit.firstStatusAmong, ← ih]
    simp only [firstStatus, map_cons, List.findSome?_cons, Visit.result]
    cases visit.firstStatus <;> rfl

/-- A child that decided otherwise holds nothing of a decision. -/
theorem Visit.gather_of_ne {visit : Visit Payload} {decision : Decision}
    (other : visit.decision ≠ decision)
    (own : List (ResolvedObligation Payload) →
      List (ResolvedObligation Payload) → List (ResolvedObligation Payload)) :
    visit.gather own decision = [] := by
  obtain ⟨decided, status, obligations, advice, children⟩ := visit
  rw [Visit.gather, if_neg other]

/-- The agreeing children's obligations, or advice, are what they gather. -/
theorem agreeing_gathered {decision : Decision}
    {read : Result Payload → List (ResolvedObligation Payload)}
    {own : List (ResolvedObligation Payload) →
      List (ResolvedObligation Payload) → List (ResolvedObligation Payload)}
    (gathers :
      ∀ visit : Visit Payload, visit.decision = decision →
        read visit.result = visit.gather own decision)
    (visits : List (Visit Payload)) :
    ((visits.map Visit.result).filter (·.decision = decision)).flatMap read =
      Visit.gatherAll own decision visits := by
  induction visits with
  | nil => rfl
  | cons visit rest ih =>
    rw [Visit.gatherAll, ← ih, map_cons]
    by_cases agrees : visit.decision = decision
    · have isKept : decide (visit.result.decision = decision) = true := decide_eq_true agrees
      rw [filter_cons, if_pos isKept, flatMap_cons, gathers visit agrees]
    · have isLeft : ¬ decide (visit.result.decision = decision) = true := by
        rw [decide_eq_true_eq]
        exact agrees
      rw [filter_cons, if_neg isLeft, Visit.gather_of_ne agrees, nil_append]

/-! ## The recorded evaluation is the evaluation -/

/-- Concluding on what is read off visits is reading off the concluded visit. -/
theorem conclude_results (context : Context Payload)
    (definitions : Option (List (String × Expression))) (identifier : PolicyIdentifier)
    (obligations advice : List ExpressionHolder) (combination : Combination (Visit Payload)) :
    conclude context definitions identifier obligations advice
        (combination.map Visit.result) =
      Visit.result <$>
        concludeVisit context definitions identifier obligations advice
          combination := by
  obtain ⟨verdict, visits⟩ := combination
  have sameStatus :
      firstStatus (visits.map Visit.result) = Visit.firstStatusAmong visits :=
    firstStatus_results visits
  cases isDefinite : definite verdict with
  | none =>
    simp only [conclude, concludeVisit, attachObligations, ownExpressions, DemandWalk.Outcome.map,
      Result.plain, isDefinite, pure_bind, map_bind, map_pure, sameStatus, Visit.result,
      Visit.firstStatus, Visit.obligationsOf, Visit.adviceOf, Option.none_or]
  | some effect =>
    have sameObligations :=
      @agreeing_gathered Payload verdict Result.obligationsResolved
        (fun obligations _ => obligations)
        (fun visit agrees => by simp only [Visit.result, Visit.obligationsOf, agrees, isDefinite])
        visits
    have sameAdvice :=
      @agreeing_gathered Payload verdict Result.adviceResolved
        (fun _ advice => advice)
        (fun visit agrees => by simp only [Visit.result, Visit.adviceOf, agrees, isDefinite])
        visits
    simp only [conclude, concludeVisit, attachObligations, ownExpressions, DemandWalk.Outcome.map,
      Result.plain, isDefinite, collect_eq, bind_assoc, pure_bind, map_bind, map_pure, sameStatus,
      Visit.result, Visit.firstStatus, Visit.obligationsOf, Visit.adviceOf, Option.none_or,
      Visit.gather, if_true, sameObligations, sameAdvice]

/-- What a target guards is read off what it guards of the record. -/
theorem guarded_results (context : Context Payload)
    (definitions : Option (List (String × Expression))) (target : Option Target)
    (undecided : Decision) (matched : EvalM Payload (Visit Payload)) :
    guarded withStatus context definitions target undecided
        (Visit.result <$> matched) =
      Visit.result <$> guarded Visit.ended context definitions target undecided matched := by
  unfold guarded
  rw [map_bind]
  congr 1
  funext outcome
  rcases outcome with failure | _ | _ | _
  · simp only [map_pure, Visit.result_ended]
  · rfl
  · simp only [map_pure, Visit.result_ended]
  · simp only [map_bind, map_pure, Visit.result_ended]

/-- So is what a combining algorithm makes of the children. -/
theorem combineWith_results (registered : JsObject.Property Registered)
    (children : List (EvalM Payload (Visit Payload))) :
    combineWith Result.decision registered
        (children.map fun child => Visit.result <$> child) =
      DemandWalk.Outcome.map Visit.result <$> combineWith Visit.decision registered children := by
  cases registered with
  | own registered =>
    cases registered with
    | combiner walk =>
      exact DemandWalk.Walk.run_map walk Visit.result_decision walk.start [] children
    | onlyOneApplicable => rfl
  | inherited => rfl
  | absent => rfl

/-- And what a policy set's algorithm makes of them. -/
theorem combineChildren_results (context : Context Payload)
    {evaluateNode : Child → EvalM Payload (Result Payload)}
    {visitNode : Child → EvalM Payload (Visit Payload)}
    (same : ∀ child, evaluateNode child = Visit.result <$> visitNode child)
    (combiningAlgId : String) (children : List Child) :
    combineChildren Result.decision context evaluateNode combiningAlgId
        children =
      DemandWalk.Outcome.map Visit.result <$>
        combineChildren Visit.decision context visitNode combiningAlgId
          children := by
  unfold combineChildren
  split
  · unfold evaluateOnlyOneApplicable
    rw [map_bind]
    congr 1
    funext selection
    cases selection with
    | undecided answer => rfl
    | several => rfl
    | nobody => rfl
    | one index =>
      simp only [same, bind_map_left, map_bind, map_pure, Visit.result_decision]
      rfl
  · have sameChildren :
        children.map evaluateNode =
          (children.map visitNode).map fun child => Visit.result <$> child := by
      rw [map_map]
      exact map_congr_left fun child _ => same child
    rw [sameChildren, combineWith_results]

theorem evaluatePolicy_results (context : Context Payload) (policy : Policy) :
    evaluatePolicy context policy = Visit.result <$> visitPolicy context policy := by
  have sameRules :
      policy.rules.map (evaluateRule context (some policy.definitions)) =
        (policy.rules.map
          (visitRule context (some policy.definitions))).map
            fun child => Visit.result <$> child := by
    rw [map_map]
    refine map_congr_left fun rule _ => ?_
    funext state
    obtain ⟨result, later, isResult, isProper⟩ :=
      evaluateRule_returns context (some policy.definitions) rule state
    change _ =
      EStateM.map Visit.result
        (EStateM.map Visit.ofRule (evaluateRule context (some policy.definitions) rule)) state
    simp only [EStateM.map, isResult, Visit.result_ofRule isProper]
  unfold evaluatePolicy visitPolicy
  rw [map_bind]
  congr 1
  funext _
  have concluded :
      ∀ registered,
        guarded withStatus context (some policy.definitions) policy.target
            .indeterminateDP
            (do
              let combination ←
                combineWith Result.decision registered
                  (policy.rules.map (evaluateRule context (some policy.definitions)))
              conclude context (some policy.definitions)
                { isPolicySet := false, id := policy.id,
                  version := policy.version }
                policy.obligations policy.advice combination) =
          Visit.result <$>
            guarded Visit.ended context (some policy.definitions)
              policy.target .indeterminateDP
              (do
                let combination ←
                  combineWith Visit.decision registered
                    (policy.rules.map (visitRule context (some policy.definitions)))
                concludeVisit context (some policy.definitions)
                  { isPolicySet := false, id := policy.id,
                    version := policy.version }
                  policy.obligations policy.advice combination) := by
    intro registered
    rw [← guarded_results, sameRules, combineWith_results]
    simp only [bind_map_left, conclude_results, map_bind]
  cases lookupCombiner policy.combiningAlgId with
  | absent => simp only [map_pure, Visit.result_ended]
  | own registered => exact concluded (.own registered)
  | inherited => exact concluded .inherited

theorem evaluatePolicySet_results (context : Context Payload)
    {evaluateNode : Child → EvalM Payload (Result Payload)}
    {visitNode : Child → EvalM Payload (Visit Payload)}
    (same : ∀ child, evaluateNode child = Visit.result <$> visitNode child)
    (id version combiningAlgId : String) (target : Option Target)
    (children : List PolicyNode) (obligations advice : List ExpressionHolder) :
    evaluatePolicySet context evaluateNode id version combiningAlgId target
        children obligations advice =
      Visit.result <$>
        visitPolicySet context visitNode id version combiningAlgId target
          children obligations advice := by
  unfold evaluatePolicySet visitPolicySet
  rw [← guarded_results]
  congr 1
  split
  · simp only [map_pure, Visit.result_ended]
  · rw [combineChildren_results context same]
    simp only [bind_map_left, conclude_results, map_bind]

/-- The evaluation answers what is read off its record. -/
theorem evaluateNode_results (context : Context Payload) (stack : Nat) (child : Child) :
    evaluateNode context stack child = Visit.result <$> visitNode context stack child := by
  induction stack generalizing child with
  | zero => rfl
  | succ stack ih =>
    cases child with
    | document node =>
      cases node with
      | policy policy => exact evaluatePolicy_results context policy
      | policySet id version combiningAlgId target children obligations
          advice =>
        exact evaluatePolicySet_results context ih id
          version combiningAlgId target children obligations advice
      | policyIdReference ref =>
        simp only [evaluateNode, visitNode, map_pure, Visit.result_ended, Child.kind]
      | policySetIdReference ref =>
        simp only [evaluateNode, visitNode, map_pure, Visit.result_ended, Child.kind]
    | unresolvedReference =>
      simp only [evaluateNode, visitNode, map_pure, Visit.result_ended, Child.kind]
    | inherited => simp only [evaluateNode, visitNode, map_pure, Visit.result_ended, Child.kind]

end

end IyaSts.Xacml.Node
