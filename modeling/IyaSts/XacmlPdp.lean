import IyaSts.XacmlCombining
import IyaSts.XacmlVariables

namespace IyaSts.Xacml.Node

/-!
# The policy decision point of the JavaScript engine

`xacml_pdp.js` from the designators to the response.  The resolver is a pure
function of the designator.  An error can be thrown anywhere; what had been
remembered, recorded on a target or found applicable by then stays.
-/

section

variable {Payload : Type}

/-! ## The evaluation context -/

/-- What one decision is made of, the clock as ISO text where it is a date. -/
structure Context (Payload : Type) where
  library : Library Payload
  request : Request
  resolver : Option (Designator → Except Failure (List (Value Payload)))
  now : Option String
  repository : Option Repository

/-- `canonicalType(value.type) === dataType`; an inherited name is no type. -/
def RequestValue.HasType (value : RequestValue) (dataType : String) : Prop :=
  ¬ JsObject.Inherited value.type ∧ canonicalType value.type = dataType

instance (value : RequestValue) (dataType : String) :
    Decidable (RequestValue.HasType value dataType) :=
  inferInstanceAs (Decidable (_ ∧ _))

/-- The values of the request a designator names. -/
def requested (request : Request) (designator : Designator) : List RequestValue :=
  let categories := request.categories.filter (·.category = designator.category)
  let attributes :=
    categories.flatMap fun category =>
      category.attributes.filter fun held =>
        held.attributeId = designator.attributeId ∧
          -- An absent and an empty issuer are no filter.
          (designator.issuer.getD "" = "" ∨ held.issuer = designator.issuer)
  attributes.flatMap fun held => held.values.filter (RequestValue.HasType · designator.dataType)

/-- `iso.replace(/\.\d+Z$/, 'Z')`. -/
def withoutFraction (iso : String) : String :=
  match iso.toList.reverse with
  | 'Z' :: backwards =>
    let digits := backwards.takeWhile Char.isDigit
    match backwards.dropWhile Char.isDigit with
    | '.' :: rest =>
      if digits.isEmpty then
        iso
      else
        String.ofList (rest.reverse ++ ['Z'])
    | _ => iso
  | _ => iso

/-- `environmentAttribute`. -/
def environmentAttribute (context : Context Payload) (designator : Designator) :
    Except Failure (Option (Value Payload)) :=
  if designator.category ≠ Category.environment then
    .ok none
  else
    match context.now with
    | none => .error (plainError "Invalid time value")
    | some iso =>
      if designator.attributeId = AttributeId.currentDateTime ∧
          designator.dataType = DataType.dateTime then
        some <$> context.library.parseValue DataType.dateTime (withoutFraction iso)
      else if designator.attributeId = AttributeId.currentDate ∧
          designator.dataType = DataType.date then
        some <$> context.library.parseValue DataType.date
          (String.ofList (iso.toList.take 10) ++ "Z")
      else if designator.attributeId = AttributeId.currentTime ∧
          designator.dataType = DataType.time then
        some <$> context.library.parseValue DataType.time
          (String.ofList ((iso.toList.drop 11).take 8) ++ "Z")
      else
        .ok none

/-- The resolver's answer, asked only when the request carried nothing. -/
def supplied (context : Context Payload) (designator : Designator) (values : List (Value Payload)) :
    Except Failure (List (Value Payload)) :=
  match values, context.resolver with
  | [], some resolver => resolver designator
  | values, _ => .ok values

/-- The clock's answer, asked only when there is no other. -/
def synthesized (context : Context Payload) (designator : Designator)
    (values : List (Value Payload)) :
    Except Failure (List (Value Payload)) :=
  match values with
  | [] => Option.toList <$> environmentAttribute context designator
  | values => .ok values

/-- `resolveDesignator`. -/
def resolveDesignator (context : Context Payload) (designator : Designator) :
    Except Failure (Bag Payload) := do
  let carried ←
    (requested context.request designator).mapM fun value =>
      context.library.parseValue designator.dataType value.lexical
  let known ← supplied context designator carried
  let values ← synthesized context designator known
  if values.isEmpty && designator.mustBePresent then
    .error (missingAttribute
      ("The attribute \"" ++ designator.attributeId ++ "\" in category \"" ++
        designator.category ++ "\" is not present, and the policy requires " ++
        "it (MustBePresent=\"true\")."))
  else
    .ok (Bag.ofValues designator.dataType values)

/-- What evaluating an expression reads of the context. -/
def Context.surroundings (context : Context Payload) : Surroundings Payload where
  library := context.library
  resolveDesignator := resolveDesignator context

/-! ## The state of an evaluation -/

/-- The errors recorded on the targets, by the object they are recorded on, the
variables of the policy at hand, and the policies found applicable. -/
structure EvalState (Payload : Type) where
  lastErrors : List (Nat × Failure)
  memo : Memo Payload
  applicable : List PolicyIdentifier

/-- Steps of an evaluation, which may throw. -/
abbrev EvalM (Payload : Type) := EStateM Failure (EvalState Payload)

/-- `try`: what a step answers or throws. -/
def attempt {α : Type} (step : EvalM Payload α) : EvalM Payload (Except Failure α) :=
  fun state =>
    match step state with
    | .ok value later => .ok (.ok value) later
    | .error failure later => .ok (.error failure) later

/-- `evaluateExpression` with a table of variables, or none. -/
def evaluateIn (context : Context Payload)
    (definitions : Option (List (String × Expression))) (expression : Expression) :
    EvalM Payload (Bag Payload) :=
  fun state =>
    match
      evaluateWith context.surroundings definitions expression state.memo with
    | .ok bag memo => .ok bag { state with memo := memo }
    | .error failure memo => .error failure { state with memo := memo }

/-! ## Targets -/

/-- Whether an application answered exactly `true`. -/
def isTrue (result : Bag Payload) : Bool :=
  match result.values with
  | [.boolean true] => true
  | _ => false

/-- The loop of `evaluateMatch`: one value that fails does not sink it. -/
def matchValues (callee : Callee Payload) (literal : Bag Payload) (type : String) :
    Option Failure → List (Value Payload) → Except Failure Bool
  | none, [] => .ok false
  | some firstError, [] => .error firstError
  | firstError, value :: rest =>
    match callee.invoke [.bag literal, .bag (Bag.singleton type value)] with
    | .ok result =>
      if isTrue result then
        .ok true
      else
        matchValues callee literal type firstError rest
    | .error failure => matchValues callee literal type (some (firstError.getD failure)) rest

/-- `evaluateMatch`. -/
def evaluateMatch (context : Context Payload)
    (definitions : Option (List (String × Expression))) (match_ : Match) :
    EvalM Payload Bool :=
  match context.library.lookup match_.matchId with
  | none => throw (syntaxError ("Unknown match function \"" ++ match_.matchId ++ "\"."))
  | some callee => do
    let attributeBag ←
      evaluateIn context definitions match_.reference.expression
    let literal ← evaluateIn context definitions (.value match_.value)
    orThrow (matchValues callee literal attributeBag.type none attributeBag.values)

/-- `allOf.lastError = error`. -/
def recordError (slot : Nat) (failure : Failure) : EvalM Payload Unit :=
  modify fun state =>
    { state with lastErrors := (slot, failure) :: state.lastErrors }

/-- The loop of `evaluateAllOf`. -/
def evaluateMatches (context : Context Payload)
    (definitions : Option (List (String × Expression))) (slot : Nat) :
    Bool → List Match → EvalM Payload MatchResult
  | indeterminate, [] => pure (if indeterminate then .indeterminate else .isMatch)
  | indeterminate, match_ :: rest => do
    match ← attempt (evaluateMatch context definitions match_) with
    | .error failure =>
      recordError slot failure
      evaluateMatches context definitions slot true rest
    | .ok false => pure .noMatch
    | .ok true => evaluateMatches context definitions slot indeterminate rest

/-- `evaluateAllOf`. -/
def evaluateAllOf (context : Context Payload)
    (definitions : Option (List (String × Expression))) (allOf : AllOf) :
    EvalM Payload MatchResult :=
  evaluateMatches context definitions allOf.slot false allOf.allMatches

/-- The loop of `evaluateAnyOf`. -/
def evaluateAllOfs (context : Context Payload) (definitions : Option (List (String × Expression))) :
    Bool → List AllOf → EvalM Payload MatchResult
  | indeterminate, [] => pure (if indeterminate then .indeterminate else .noMatch)
  | indeterminate, allOf :: rest => do
    match ← evaluateAllOf context definitions allOf with
    | .isMatch => pure .isMatch
    | .indeterminate => evaluateAllOfs context definitions true rest
    | .noMatch => evaluateAllOfs context definitions indeterminate rest

/-- `evaluateAnyOf`. -/
def evaluateAnyOf (context : Context Payload)
    (definitions : Option (List (String × Expression))) (anyOf : AnyOf) :
    EvalM Payload MatchResult :=
  evaluateAllOfs context definitions false anyOf.allOf

/-- The loop of `evaluateTarget`. -/
def evaluateAnyOfs (context : Context Payload) (definitions : Option (List (String × Expression))) :
    Bool → List AnyOf → EvalM Payload MatchResult
  | indeterminate, [] => pure (if indeterminate then .indeterminate else .isMatch)
  | indeterminate, anyOf :: rest => do
    match ← evaluateAnyOf context definitions anyOf with
    | .noMatch => pure .noMatch
    | .indeterminate => evaluateAnyOfs context definitions true rest
    | .isMatch => evaluateAnyOfs context definitions indeterminate rest

/-- `evaluateTarget`. -/
def evaluateTarget (context : Context Payload)
    (definitions : Option (List (String × Expression))) (target : Option Target) :
    EvalM Payload MatchResult :=
  match target with
  | none => pure .isMatch
  | some target => evaluateAnyOfs context definitions false target.anyOf

/-- `lastTargetError`: whatever is recorded on the target, of this evaluation
or of an earlier one. -/
def lastTargetError (target : Option Target) :
    EvalM Payload (Option Failure) := do
  let state ← get
  pure
    (((target.map Target.anyOf).getD []).flatMap AnyOf.allOf |>.findSome?
      fun allOf => state.lastErrors.lookup allOf.slot)

/-! ## Results -/

/-- What evaluating a rule or a node answers. -/
structure Result (Payload : Type) where
  decision : Decision
  status : Option Status
  obligationsResolved : List (ResolvedObligation Payload)
  adviceResolved : List (ResolvedObligation Payload)

/-- A result without obligations, and with no more than a status. -/
def Result.plain (decision : Decision) (status : Option Status) : Result Payload where
  decision := decision
  status := status
  obligationsResolved := []
  adviceResolved := []

/-- What an error says of itself. -/
def Failure.status (failure : Failure) : Status where
  code := failure.xacmlStatus.map FailureCode.code
  message := some failure.message

/-- `withStatus`. -/
def withStatus (decision : Decision) (error : Option Failure) : Result Payload :=
  Result.plain decision (error.map Failure.status)

/-! ## Obligations and advice -/

/-- One resolved value of an assignment. -/
def assign (context : Context Payload) (assignment : AssignmentExpression) (type : String)
    (value : Value Payload) :
    Except Failure (ResolvedAssignment Payload) := do
  let lexical ← context.library.writeValue type value
  pure
    { attributeId := assignment.attributeId
      category := assignment.category
      issuer := assignment.issuer
      type := type
      value := value
      lexical := lexical }

/-- The values of one assignment. -/
def resolveAssignment (context : Context Payload)
    (definitions : Option (List (String × Expression))) (assignment : AssignmentExpression) :
    EvalM Payload (List (ResolvedAssignment Payload)) := do
  let bag ← evaluateIn context definitions assignment.expression
  orThrow (bag.values.mapM (assign context assignment bag.type))

/-- One expression that fires. -/
def resolveHolder (context : Context Payload)
    (definitions : Option (List (String × Expression))) (holder : ExpressionHolder) :
    EvalM Payload (ResolvedObligation Payload) := do
  let assignments ←
    holder.assignments.mapM (resolveAssignment context definitions)
  pure { id := holder.id, assignments := assignments.flatten }

/-- `collect`. -/
def collect (context : Context Payload)
    (definitions : Option (List (String × Expression))) (decision : Effect) :
    List ExpressionHolder → EvalM Payload (List (ResolvedObligation Payload))
  | [] => pure []
  | holder :: rest =>
    if holder.on ≠ decision.text then
      collect context definitions decision rest
    else do
      let resolved ← resolveHolder context definitions holder
      let others ← collect context definitions decision rest
      pure (resolved :: others)

/-- The two decisions that obligations accompany. -/
def definite : Decision → Option Effect
  | .permit => some .permit
  | .deny => some .deny
  | _ => none

/-- `attachObligations`: the agreeing children's first, then the node's own. -/
def attachObligations (context : Context Payload)
    (definitions : Option (List (String × Expression)))
    (obligations advice : List ExpressionHolder) (childResults : List (Result Payload))
    (combined : Result Payload) :
    EvalM Payload (Result Payload) :=
  match definite combined.decision with
  | none => pure combined
  | some effect => do
    let agreeing := childResults.filter (·.decision = combined.decision)
    let own ← collect context definitions effect obligations
    let ownAdvice ← collect context definitions effect advice
    pure
      { combined with
        obligationsResolved := agreeing.flatMap Result.obligationsResolved ++ own
        adviceResolved := agreeing.flatMap Result.adviceResolved ++ ownAdvice }

/-- `firstStatus`. -/
def firstStatus (results : List (Result Payload)) : Option Status := results.findSome? Result.status

/-! ## Rules -/

/-- What a fired rule answers, unless an expression of its own fails. -/
def fire (context : Context Payload) (definitions : Option (List (String × Expression)))
    (rule : Rule) :
    EvalM Payload (Result Payload) := do
  let obligations ← collect context definitions rule.effect rule.obligations
  let advice ← collect context definitions rule.effect rule.advice
  pure
    { decision := rule.effect.decision
      status := none
      obligationsResolved := obligations
      adviceResolved := advice }

/-- `firedRule`. -/
def firedRule (context : Context Payload)
    (definitions : Option (List (String × Expression))) (rule : Rule) :
    EvalM Payload (Result Payload) := do
  match ← attempt (fire context definitions rule) with
  | .ok result => pure result
  | .error failure => pure (withStatus rule.effect.indeterminateOfEffect (some failure))

/-- The error of a condition that is not one boolean. -/
def conditionNotBoolean : Failure :=
  processingError "A <Condition> must evaluate to exactly one boolean."

/-- What a rule does with the value of its condition. -/
def decideRule (context : Context Payload)
    (definitions : Option (List (String × Expression))) (rule : Rule)
    (conditionResult : Bag Payload) :
    EvalM Payload (Result Payload) :=
  match conditionResult.values with
  | [value] =>
    if canonicalType conditionResult.type ≠ DataType.boolean then
      pure (withStatus rule.effect.indeterminateOfEffect (some conditionNotBoolean))
    else
      match value with
      | .boolean true => firedRule context definitions rule
      | _ => pure (Result.plain .notApplicable none)
  | _ => pure (withStatus rule.effect.indeterminateOfEffect (some conditionNotBoolean))

/-- What a rule does once its target has matched. -/
def evaluateCondition (context : Context Payload)
    (definitions : Option (List (String × Expression))) (rule : Rule) :
    EvalM Payload (Result Payload) :=
  match rule.condition with
  | none => firedRule context definitions rule
  | some condition => do
    match ← attempt (evaluateIn context definitions condition) with
    | .error failure => pure (withStatus rule.effect.indeterminateOfEffect (some failure))
    | .ok conditionResult => decideRule context definitions rule conditionResult

/-- What follows from a target: nothing, an Indeterminate, or what it guards. -/
def guarded {Answer : Type} (withStatus : Decision → Option Failure → Answer)
    (context : Context Payload) (definitions : Option (List (String × Expression)))
    (target : Option Target) (undecided : Decision) (matched : EvalM Payload Answer) :
    EvalM Payload Answer := do
  match ← attempt (evaluateTarget context definitions target) with
  | .error failure => pure (withStatus undecided (some failure))
  | .ok .noMatch => pure (withStatus .notApplicable none)
  | .ok .indeterminate => do
    let error ← lastTargetError target
    pure (withStatus undecided error)
  | .ok .isMatch => matched

/-- `evaluateRule`. -/
def evaluateRule (context : Context Payload)
    (definitions : Option (List (String × Expression))) (rule : Rule) :
    EvalM Payload (Result Payload) :=
  guarded withStatus context definitions rule.target
    rule.effect.indeterminateOfEffect
    (evaluateCondition context definitions rule)

/-! ## Policies and policy sets -/

/-- `context.applicablePolicies.push`, unless nothing applied. -/
def notice (decision : Decision) (identifier : PolicyIdentifier) : EvalM Payload Unit :=
  if decision = .notApplicable then
    pure ()
  else
    modify fun state =>
      { state with applicable := state.applicable ++ [identifier] }

/-- The end of a policy and of a policy set. -/
def conclude (context : Context Payload)
    (definitions : Option (List (String × Expression))) (identifier : PolicyIdentifier)
    (obligations advice : List ExpressionHolder) (combination : Combination (Result Payload)) :
    EvalM Payload (Result Payload) := do
  let combined ←
    attachObligations context definitions obligations advice
      combination.results
      (Result.plain combination.verdict (firstStatus combination.results))
  notice combination.verdict identifier
  pure combined

/-- What comes of calling what is no combining algorithm. -/
def notCombining : Failure := plainError "Cannot read properties of undefined (reading 'length')"

/-- The error of the entry that only says where the algorithm lives. -/
def onlyOneElsewhere : Failure :=
  processingError
    ("only-one-applicable is evaluated in evaluatePolicySet(), not through " ++
      "the ordinary combiner path. Reaching here is a bug in this file.")

/-- `combine(children, evaluateChild)` of what is registered under a name. -/
def combineWith {Answer : Type} (decisionOf : Answer → Decision)
    (registered : JsObject.Property Registered) (children : List (EvalM Payload Answer)) :
    EvalM Payload (Combination Answer) :=
  match registered with
  | .own (.combiner walk) => walk.run decisionOf walk.start [] children
  | .own .onlyOneApplicable => throw onlyOneElsewhere
  | .inherited => throw notCombining
  | .absent => throw notCombining

/-- The error of an unknown rule-combining algorithm. -/
def unknownRuleCombining (policy : Policy) : Failure :=
  syntaxError ("Unknown rule-combining algorithm \"" ++ policy.combiningAlgId ++ "\".")

/-- `makeVariables`, the values forgotten. -/
def makeVariables : EvalM Payload Unit := modify fun state => { state with memo := [] }

/-- `evaluatePolicy`. -/
def evaluatePolicy (context : Context Payload) (policy : Policy) :
    EvalM Payload (Result Payload) := do
  makeVariables
  let definitions := some policy.definitions
  match lookupCombiner policy.combiningAlgId with
  | .absent => pure (withStatus .indeterminateDP (some (unknownRuleCombining policy)))
  | registered =>
    guarded withStatus context definitions policy.target .indeterminateDP do
      let combination ←
        combineWith Result.decision registered (policy.rules.map (evaluateRule context definitions))
      conclude context definitions
        { isPolicySet := false, id := policy.id, version := policy.version }
        policy.obligations policy.advice combination

/-- What `resolveChild` answers: a document, nothing, or what every object
inherits under the reference's name. -/
inductive Child where
  | document (node : PolicyNode)
  | unresolvedReference
  | inherited

/-- `repository ? repository[child.ref] : null`. -/
def findDocument (repository : Option Repository) (ref : String) : Child :=
  match repository with
  | none => .unresolvedReference
  | some documents =>
    match JsObject.read documents ref with
    | .own found => .document found
    | .inherited => .inherited
    | .absent => .unresolvedReference

/-- `resolveChild`. -/
def resolveChild (repository : Option Repository) (child : PolicyNode) : Child :=
  match child with
  | .policyIdReference ref => findDocument repository ref
  | .policySetIdReference ref => findDocument repository ref
  | child => .document child

/-- `children[i].target`. -/
def Child.target : Child → Option Target
  | .document (.policy policy) => policy.target
  | .document (.policySet _ _ _ target _ _ _) => target
  | _ => none

/-- The error of an unknown policy-combining algorithm. -/
def unknownPolicyCombining (combiningAlgId : String) : Failure :=
  syntaxError ("Unknown policy-combining algorithm \"" ++ combiningAlgId ++ "\".")

/-- Whether a child's target applies, which no error can keep from answering. -/
def applies (context : Context Payload) (child : Child) :
    EvalM Payload MatchResult := do
  match ← attempt (evaluateTarget context none child.target) with
  | .ok result => pure result
  | .error _ => pure .indeterminate

/-- The combination of a policy set's children. -/
def combineChildren {Answer : Type} (decisionOf : Answer → Decision) (context : Context Payload)
    (evaluateNode : Child → EvalM Payload Answer)
    (combiningAlgId : String) (children : List Child) :
    EvalM Payload (Combination Answer) :=
  if combiningAlgId = PolicyAlg.onlyOneApplicable then
    evaluateOnlyOneApplicable decisionOf
      (children.map (applies context))
      (fun index => evaluateNode (children.getD index .unresolvedReference))
  else
    combineWith decisionOf (lookupCombiner combiningAlgId) (children.map evaluateNode)

/-- Whether a policy set's algorithm is not known. -/
def Unknown (combiningAlgId : String) : Prop :=
  JsObject.read combiners combiningAlgId matches .absent

instance (combiningAlgId : String) : Decidable (Unknown combiningAlgId) :=
  inferInstanceAs (Decidable (_ = true))

/-- `evaluatePolicySet`. -/
def evaluatePolicySet (context : Context Payload)
    (evaluateNode : Child → EvalM Payload (Result Payload))
    (id version combiningAlgId : String) (target : Option Target)
    (children : List PolicyNode) (obligations advice : List ExpressionHolder) :
    EvalM Payload (Result Payload) :=
  guarded withStatus context none target .indeterminateDP
    (if Unknown combiningAlgId then
      pure (withStatus .indeterminateDP (some (unknownPolicyCombining combiningAlgId)))
    else do
      let combination ←
        combineChildren Result.decision context evaluateNode combiningAlgId
          (children.map (resolveChild context.repository))
      conclude context none
        { isPolicySet := true, id := id, version := version }
        obligations advice combination)

/-- The error of a node that is no policy and no policy set. -/
def unknownKind (kind : String) : Failure :=
  syntaxError ("Cannot evaluate a node of kind \"" ++ kind ++ "\".")

/-- `evaluateNode`, with room for so many nodes inside each other. -/
def evaluateNode (context : Context Payload) :
    Nat → Child → EvalM Payload (Result Payload)
  | 0, _ => throw stackOverflow
  | stack + 1, child =>
    match child with
    | .document (.policy policy) => evaluatePolicy context policy
    | .document
        (.policySet id version combiningAlgId target children obligations
          advice) =>
        evaluatePolicySet context (evaluateNode context stack) id version
          combiningAlgId target children obligations advice
    | .document (.policyIdReference _) =>
      pure (withStatus .indeterminateDP (some (unknownKind "PolicyIdReference")))
    | .document (.policySetIdReference _) =>
      pure (withStatus .indeterminateDP (some (unknownKind "PolicySetIdReference")))
    | .unresolvedReference =>
      pure (withStatus .indeterminateDP (some (unknownKind "UnresolvedReference")))
    | .inherited => pure (withStatus .indeterminateDP (some (unknownKind "undefined")))

/-! ## The entry point -/

/-- The state a decision starts in: only the targets keep what was recorded. -/
def EvalState.start (lastErrors : List (Nat × Failure)) : EvalState Payload where
  lastErrors := lastErrors
  memo := []
  applicable := []

/-- The response to what an evaluation ended with. -/
def respond (context : Context Payload) :
    EStateM.Result Failure (EvalState Payload) (Result Payload) → Response Payload
  | .ok result state =>
    { decision := result.decision.externalDecision
      status := result.status.getD { code := some .ok, message := none }
      obligations := result.obligationsResolved
      advice := result.adviceResolved
      policyIdentifiers :=
        if context.request.returnPolicyIdList then
          state.applicable
        else
          [] }
  | .error failure state =>
    { decision := .indeterminate
      status :=
        { code :=
            some ((failure.xacmlStatus.map FailureCode.code).getD .processingError)
          message := some failure.message }
      obligations := []
      advice := []
      policyIdentifiers :=
        if context.request.returnPolicyIdList then
          state.applicable
        else
          [] }

/-- `evaluate`, of a document whose targets carry what earlier evaluations
recorded on them. -/
def evaluate (context : Context Payload) (stack : Nat) (lastErrors : List (Nat × Failure))
    (root : PolicyNode) :
    Response Payload :=
  respond context (evaluateNode context stack (.document root) (EvalState.start lastErrors))

/-- A request that says nothing, at an engine that knows nothing. -/
def bareContext : Context Unit where
  library :=
    { parseValue := fun _ _ => .error (plainError "")
      writeValue := fun _ _ => .error (plainError "")
      truthy := fun _ => false
      strict := [] }
  request := { returnPolicyIdList := false, categories := [] }
  resolver := none
  now := none
  repository := none

end

end IyaSts.Xacml.Node
