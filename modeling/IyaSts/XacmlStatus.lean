import IyaSts.XacmlVisitsRead

namespace IyaSts.Xacml.Node

/-!
# What the status of a response says

The status of an Indeterminate is that of the first error recorded on the nodes
that were visited, and an error that escapes the tree is given a status.  Where
the first error has none, or there is no error, the response has none to give.
-/

section

variable {Payload : Type}

/-! ## What every visit of a tree satisfies -/

/-- A property of a visit and of every visit below it. -/
inductive Visit.Everywhere (holds : Visit Payload → Prop) :
    Visit Payload → Prop where
  | node
      {visit : Visit Payload}
      (isSo : holds visit)
      (children : ∀ child ∈ visit.children, Visit.Everywhere holds child) :
      Visit.Everywhere holds visit

/-- What a step answers, when it answers. -/
def Yields {α : Type} (step : EvalM Payload α) (holds : α → Prop) : Prop :=
  ∀ state value later, step state = .ok value later → holds value

variable {α Answer : Type} {context : Context Payload} {holds : Answer → Prop}
    {decisionOf : Answer → Decision}

theorem Yields.pure {holds : α → Prop} {value : α} (isSo : holds value) :
    Yields (Pure.pure value : EvalM Payload α) holds := by
  rintro state _ _ ⟨⟩
  exact isSo

theorem Yields.bind {α β : Type} {first : EvalM Payload α} {next : α → EvalM Payload β}
    {between : α → Prop} {holds : β → Prop} (firstYields : Yields first between)
    (nextYields : ∀ value, between value → Yields (next value) holds) :
    Yields (first >>= next) holds := by
  intro state answer final answered
  obtain ⟨value, later, isFirst, isNext⟩ := bind_eq_ok answered
  exact nextYields value (firstYields state value later isFirst) later answer final isNext

/-- What is not asked about a step. -/
theorem Yields.any {α : Type} (step : EvalM Payload α) : Yields step (fun _ => True) :=
  fun _ _ _ _ => trivial

variable (failure : Failure) (decision : Decision)

theorem Yields.throw {holds : α → Prop} :
    Yields (MonadExcept.throw failure : EvalM Payload α) holds := by
  rintro state value later ⟨⟩

/-- What is guarded by a target yields what it guards, or an ending. -/
theorem Yields.guarded {withStatus : Decision → Option Failure → Answer}
    {definitions : Option (List (String × Expression))} {target : Option Target}
    {undecided : Decision} {matched : EvalM Payload Answer}
    (ends : ∀ decision error, holds (withStatus decision error))
    (matchedYields : Yields matched holds) :
    Yields
      (Node.guarded withStatus context definitions target undecided matched)
      holds := by
  refine Yields.bind (Yields.any _) fun outcome _ => ?_
  cases outcome with
  | error failure => exact Yields.pure (ends _ _)
  | ok found =>
    cases found with
    | isMatch => exact matchedYields
    | noMatch => exact Yields.pure (ends _ _)
    | indeterminate => exact Yields.bind (Yields.any _) fun error _ => Yields.pure (ends _ error)

/-- The results of a combination are what its children yield. -/
theorem Yields.combineWith {registered : JsObject.Property Registered}
    {children : List (EvalM Payload Answer)}
    (childrenYield : ∀ child ∈ children, Yields child holds) :
    Yields (Node.combineWith decisionOf registered children)
      (fun combination => ∀ result ∈ combination.results, holds result) := by
  cases registered with
  | own registered =>
    cases registered with
    | combiner walk =>
      intro state combination later completed result isResult
      rcases DemandWalk.Walk.run_answered walk decisionOf completed result
          isResult with isEarlier | ⟨child, isChild, before, after, answered⟩
      · cases isEarlier
      · exact childrenYield child isChild before result after answered
    | onlyOneApplicable => exact Yields.throw _
  | inherited => exact Yields.throw _
  | absent => exact Yields.throw _

theorem Yields.combineChildren {evaluateNode : Child → EvalM Payload Answer}
    {combiningAlgId : String} {children : List Child}
    (nodesYield : ∀ child, Yields (evaluateNode child) holds) :
    Yields
      (Node.combineChildren decisionOf context evaluateNode combiningAlgId children)
      (fun combination => ∀ result ∈ combination.results, holds result) := by
  unfold Node.combineChildren
  split
  · refine Yields.bind (Yields.any _) fun selection _ => ?_
    cases selection with
    | undecided answer => exact Yields.pure fun _ isResult => by cases isResult
    | several => exact Yields.pure fun _ isResult => by cases isResult
    | nobody => exact Yields.pure fun _ isResult => by cases isResult
    | one index =>
      refine Yields.bind (nodesYield _) fun answer isSo => ?_
      refine Yields.pure fun result isResult => ?_
      obtain rfl := List.mem_singleton.mp isResult
      exact isSo
  · refine Yields.combineWith fun child isChild => ?_
    obtain ⟨node, _, rfl⟩ := List.mem_map.mp isChild
    exact nodesYield node

/-! ## No error says that all is well -/

/-- A status that is not `ok`. -/
def NotOk (status : Option Status) : Prop := ∀ stated, status = some stated → stated.code ≠ some .ok

theorem Failure.status_notOk (error : Option Failure) : NotOk (error.map Failure.status) := by
  intro stated isStated
  obtain ⟨failure, _, rfl⟩ := Option.map_eq_some_iff.mp isStated
  rcases failure with ⟨_ | code, message⟩
  · simp [Failure.status]
  · cases code <;> simp [Failure.status, FailureCode.code]

/-- The status of a visit, if any, is an error's. -/
def Visit.Errs (visit : Visit Payload) : Prop := NotOk visit.status

theorem Visit.ended_errs (error : Option Failure) :
    (Visit.ended decision error : Visit Payload).Everywhere Visit.Errs :=
  .node (Failure.status_notOk error) fun _ isChild => by cases isChild

/-- A fired rule has no status, or its error's. -/
theorem firedRule_errs (context : Context Payload)
    (definitions : Option (List (String × Expression))) (rule : Rule) :
    Yields (firedRule context definitions rule) (fun result => NotOk result.status) := by
  have fires : Yields (fire context definitions rule) (fun result => NotOk result.status) := by
    unfold fire
    refine Yields.bind (Yields.any _) fun obligations _ => ?_
    refine Yields.bind (Yields.any _) fun advice _ => ?_
    exact Yields.pure fun stated isStated => by cases isStated
  intro state result later answered
  obtain ⟨outcome, middle, isTried, isResult⟩ := bind_eq_ok answered
  unfold attempt at isTried
  cases isFired : fire context definitions rule state with
  | ok fired final =>
    rw [isFired] at isTried
    cases isTried
    cases isResult
    exact fires state _ _ isFired
  | error failure final =>
    rw [isFired] at isTried
    cases isTried
    cases isResult
    exact Failure.status_notOk (some failure)

theorem evaluateRule_errs (context : Context Payload)
    (definitions : Option (List (String × Expression))) (rule : Rule) :
    Yields (evaluateRule context definitions rule) (fun result => NotOk result.status) := by
  have ends :
      ∀ decision error, NotOk (withStatus decision error : Result Payload).status :=
    fun _ error => Failure.status_notOk error
  refine Yields.guarded ends ?_
  unfold evaluateCondition
  cases rule.condition with
  | none => exact firedRule_errs context definitions rule
  | some condition =>
    refine Yields.bind (Yields.any _) fun outcome _ => ?_
    cases outcome with
    | error failure => exact Yields.pure (ends _ _)
    | ok conditionResult =>
      show Yields (decideRule _ _ _ _) _
      unfold decideRule
      split
      · split
        · exact Yields.pure (ends _ _)
        · split
          · exact firedRule_errs context definitions rule
          · exact Yields.pure (ends .notApplicable none)
      · exact Yields.pure (ends _ _)

/-- A concluded visit has no status of its own. -/
theorem concludeVisit_errs (context : Context Payload)
    (definitions : Option (List (String × Expression))) (identifier : PolicyIdentifier)
    (obligations advice : List ExpressionHolder) {combination : Combination (Visit Payload)}
    (childrenErr : ∀ visit ∈ combination.results, visit.Everywhere Visit.Errs) :
    Yields
      (concludeVisit context definitions identifier obligations advice combination)
      (Visit.Everywhere Visit.Errs) := by
  unfold concludeVisit
  refine Yields.bind (Yields.any _) fun own _ => ?_
  refine Yields.bind (Yields.any _) fun _ _ => ?_
  exact Yields.pure (.node (fun stated isStated => by cases isStated) childrenErr)

theorem visitPolicy_errs (context : Context Payload) (policy : Policy) :
    Yields (visitPolicy context policy) (Visit.Everywhere Visit.Errs) := by
  have rules :
      ∀ child ∈
          policy.rules.map (visitRule context (some policy.definitions)),
        Yields child (Visit.Everywhere Visit.Errs) := by
    intro child isChild
    obtain ⟨rule, _, rfl⟩ := List.mem_map.mp isChild
    unfold visitRule
    rw [map_eq_pure_bind]
    refine Yields.bind (evaluateRule_errs context _ rule) fun result errs => ?_
    exact Yields.pure (.node errs fun _ isChild => by cases isChild)
  have registeredErrs :
      ∀ registered,
        Yields
          (guarded Visit.ended context (some policy.definitions)
            policy.target .indeterminateDP
            (do
              let combination ←
                combineWith Visit.decision registered
                  (policy.rules.map (visitRule context (some policy.definitions)))
              concludeVisit context (some policy.definitions)
                { isPolicySet := false, id := policy.id,
                  version := policy.version }
                policy.obligations policy.advice combination))
          (Visit.Everywhere Visit.Errs) := by
    intro registered
    refine Yields.guarded Visit.ended_errs ?_
    refine Yields.bind (Yields.combineWith rules) fun combination errs => ?_
    exact concludeVisit_errs context _ _ _ _ errs
  unfold visitPolicy
  refine Yields.bind (Yields.any _) fun _ _ => ?_
  cases lookupCombiner policy.combiningAlgId with
  | absent => exact Yields.pure (Visit.ended_errs _ _)
  | own registered => exact registeredErrs (.own registered)
  | inherited => exact registeredErrs .inherited

/-- No status on a visited node says that all is well. -/
theorem visitNode_errs (context : Context Payload) (stack : Nat) (child : Child) :
    Yields (visitNode context stack child) (Visit.Everywhere Visit.Errs) := by
  induction stack generalizing child with
  | zero => exact Yields.throw _
  | succ stack ih =>
    cases child with
    | document node =>
      cases node with
      | policy policy => exact visitPolicy_errs context policy
      | policySet id version combiningAlgId target children obligations
          advice =>
        refine Yields.guarded Visit.ended_errs ?_
        split
        · exact Yields.pure (Visit.ended_errs _ _)
        · refine Yields.bind (Yields.combineChildren ih) fun combination errs => ?_
          exact concludeVisit_errs context _ _ _ _ errs
      | policyIdReference ref => exact Yields.pure (Visit.ended_errs _ _)
      | policySetIdReference ref => exact Yields.pure (Visit.ended_errs _ _)
    | unresolvedReference => exact Yields.pure (Visit.ended_errs _ _)
    | inherited => exact Yields.pure (Visit.ended_errs _ _)

theorem Visit.firstStatusAmong_eq (visits : List (Visit Payload)) :
    Visit.firstStatusAmong visits = visits.findSome? Visit.firstStatus := by
  induction visits with
  | nil => rfl
  | cons visit rest ih =>
    rw [Visit.firstStatusAmong, ih, List.findSome?_cons]
    cases visit.firstStatus <;> rfl

theorem Visit.firstStatus_eq (visit : Visit Payload) :
    visit.firstStatus = visit.status.or (visit.children.findSome? Visit.firstStatus) := by
  obtain ⟨decision, status, obligations, advice, children⟩ := visit
  rw [Visit.firstStatus, Visit.firstStatusAmong_eq]

/-- So the first of them does not either. -/
theorem Visit.Everywhere.firstStatus_notOk {visit : Visit Payload}
    (errs : visit.Everywhere Visit.Errs) :
    NotOk visit.firstStatus := by
  induction errs with
  | @node visit isSo _ ih =>
    intro stated isStated
    rw [Visit.firstStatus_eq] at isStated
    rcases Option.or_eq_some_iff.mp isStated with isOwn | ⟨_, isBelow⟩
    · exact isSo stated isOwn
    · obtain ⟨child, isChild, isChilds⟩ := List.exists_of_findSome?_eq_some isBelow
      exact ih child isChild stated isChilds

/-! ## The status of an Indeterminate -/

/-- A status code that says what went wrong. -/
def StatusCode.IsError (code : Option StatusCode) : Prop :=
  code = some .syntaxError ∨ code = some .missingAttribute ∨ code = some .processingError

/--
An error escapes the tree, or the visited root is not Indeterminate, or there is
a first error on the visited nodes, a node's own before its children's, and it
is one that carries a status.
-/
def FirstErrorCoded (context : Context Payload) (stack : Nat) (lastErrors : List (Nat × Failure))
    (root : PolicyNode) : Prop :=
  match
    visitNode context stack (.document root) (EvalState.start lastErrors) with
  | .error _ _ => True
  | .ok visit _ =>
    visit.decision.isIndeterminate = true →
      ∃ status, visit.firstStatus = some status ∧ status.code ≠ none

/-- The four Indeterminates are one to the caller. -/
theorem externalDecision_eq_indeterminate_iff :
    decision.externalDecision = .indeterminate ↔ decision.isIndeterminate = true := by
  cases decision <;> simp [Decision.externalDecision, Decision.isIndeterminate]

/-- Any status code but `ok` is an error's. -/
theorem isError_iff (code : Option StatusCode) :
    StatusCode.IsError code ↔ code ≠ none ∧ code ≠ some .ok := by
  rcases code with _ | code
  · simp [StatusCode.IsError]
  · cases code <;> simp [StatusCode.IsError]

/-- An error that escapes the tree is always reported as an error. -/
theorem escaped_isError :
    StatusCode.IsError
    (some ((failure.xacmlStatus.map FailureCode.code).getD .processingError)) := by
  rcases failure with ⟨_ | code, message⟩
  · simp [StatusCode.IsError]
  · cases code <;> simp [StatusCode.IsError, FailureCode.code]

/-- A policy without a target and without rules. -/
def emptyPolicy (id : String) : PolicyNode :=
  .policy
    { id := id
      version := "1.0"
      combiningAlgId := RuleAlg.firstApplicable
      target := none
      definitions := []
      rules := []
      obligations := []
      advice := [] }

/-- A set of which one policy is to apply, and of which two do. -/
def ambiguousSet : PolicyNode :=
  .policySet "set" "1.0" PolicyAlg.onlyOneApplicable none [emptyPolicy "a", emptyPolicy "b"] [] []

end

end IyaSts.Xacml.Node
