import IyaSts.XacmlPdp

namespace IyaSts.Xacml.Node

/-!
# What an evaluation visits

The same evaluation, recorded: each node that is evaluated leaves its decision,
the status of the error that ended it, the obligations and advice of its own and
the children that were evaluated for it, in order.  The results of the engine are
read off the record, and nothing of them is computed on the way.
-/

section

variable {Payload : Type}

/-- An evaluated rule, policy or policy set. -/
structure Visit (Payload : Type) where
  decision : Decision
  status : Option Status
  obligations : List (ResolvedObligation Payload)
  advice : List (ResolvedObligation Payload)
  children : List (Visit Payload)

mutual

/-- The first status among a visit and its descendants, the visit's first. -/
def Visit.firstStatus : Visit Payload → Option Status
  | ⟨_, status, _, _, children⟩ => status.or (firstStatusAmong children)

def Visit.firstStatusAmong : List (Visit Payload) → Option Status
  | [] => none
  | visit :: rest => visit.firstStatus.or (firstStatusAmong rest)

end

mutual

/--
What the nodes hold along which every node up to this one decided the same, the
children's before the parent's.
-/
def Visit.gather
    (own : List (ResolvedObligation Payload) →
      List (ResolvedObligation Payload) → List (ResolvedObligation Payload))
    (decision : Decision) :
    Visit Payload → List (ResolvedObligation Payload)
  | ⟨decided, _, obligations, advice, children⟩ =>
    if decided = decision then
      gatherAll own decision children ++ own obligations advice
    else
      []

def Visit.gatherAll
    (own : List (ResolvedObligation Payload) →
      List (ResolvedObligation Payload) → List (ResolvedObligation Payload))
    (decision : Decision) :
    List (Visit Payload) → List (ResolvedObligation Payload)
  | [] => []
  | visit :: rest => visit.gather own decision ++ gatherAll own decision rest

end

namespace Visit

/-- The obligations of a decision, and none of an indefinite one. -/
def obligationsOf (visit : Visit Payload) : List (ResolvedObligation Payload) :=
  match definite visit.decision with
  | none => []
  | some _ => visit.gather (fun obligations _ => obligations) visit.decision

/-- The advice of a decision. -/
def adviceOf (visit : Visit Payload) : List (ResolvedObligation Payload) :=
  match definite visit.decision with
  | none => []
  | some _ => visit.gather (fun _ advice => advice) visit.decision

/-- The result that is read off a visit. -/
def result (visit : Visit Payload) : Result Payload where
  decision := visit.decision
  status := visit.firstStatus
  obligationsResolved := visit.obligationsOf
  adviceResolved := visit.adviceOf

/-- A visit that an error ended, or a target. -/
def ended (decision : Decision) (error : Option Failure) : Visit Payload where
  decision := decision
  status := error.map Failure.status
  obligations := []
  advice := []
  children := []

/-- The visit of a rule. -/
def ofRule (result : Result Payload) : Visit Payload where
  decision := result.decision
  status := result.status
  obligations := result.obligationsResolved
  advice := result.adviceResolved
  children := []

end Visit

/-! ## The recorded evaluation -/

/-- What a node's own expressions say of a decision, those for which it is the
decision to be fulfilled on. -/
def ownExpressions (context : Context Payload) (definitions : Option (List (String × Expression)))
    (obligations advice : List ExpressionHolder) (decision : Decision) :
    EvalM Payload (List (ResolvedObligation Payload) × List (ResolvedObligation Payload)) :=
  match definite decision with
  | none => pure ([], [])
  | some effect => do
    let own ←
      (obligations.filter (·.on = effect.text)).mapM (resolveHolder context definitions)
    let ownAdvice ←
      (advice.filter (·.on = effect.text)).mapM (resolveHolder context definitions)
    pure (own, ownAdvice)

/-- The end of a policy's and of a policy set's visit. -/
def concludeVisit (context : Context Payload)
    (definitions : Option (List (String × Expression))) (identifier : PolicyIdentifier)
    (obligations advice : List ExpressionHolder) (combination : Combination (Visit Payload)) :
    EvalM Payload (Visit Payload) := do
  let own ←
    ownExpressions context definitions obligations advice combination.verdict
  notice combination.verdict identifier
  pure
    { decision := combination.verdict
      status := none
      obligations := own.1
      advice := own.2
      children := combination.results }

def visitRule (context : Context Payload)
    (definitions : Option (List (String × Expression))) (rule : Rule) :
    EvalM Payload (Visit Payload) :=
  Visit.ofRule <$> evaluateRule context definitions rule

def visitPolicy (context : Context Payload) (policy : Policy) :
    EvalM Payload (Visit Payload) := do
  makeVariables
  let definitions := some policy.definitions
  match lookupCombiner policy.combiningAlgId with
  | .absent => pure (Visit.ended .indeterminateDP (some (unknownRuleCombining policy)))
  | registered =>
    guarded Visit.ended context definitions policy.target
      .indeterminateDP do
      let combination ←
        combineWith Visit.decision registered (policy.rules.map (visitRule context definitions))
      concludeVisit context definitions
        { isPolicySet := false, id := policy.id, version := policy.version }
        policy.obligations policy.advice combination

def visitPolicySet (context : Context Payload) (visitNode : Child → EvalM Payload (Visit Payload))
    (id version combiningAlgId : String) (target : Option Target)
    (children : List PolicyNode) (obligations advice : List ExpressionHolder) :
    EvalM Payload (Visit Payload) :=
  guarded Visit.ended context none target .indeterminateDP
    (if Unknown combiningAlgId then
      pure (Visit.ended .indeterminateDP (some (unknownPolicyCombining combiningAlgId)))
    else do
      let combination ←
        combineChildren Visit.decision context visitNode combiningAlgId
          (children.map (resolveChild context.repository))
      concludeVisit context none
        { isPolicySet := true, id := id, version := version }
        obligations advice combination)

/-- The kind of a child that is no policy and no policy set. -/
def Child.kind : Child → String
  | .document (.policy _) => "Policy"
  | .document (.policySet ..) => "PolicySet"
  | .document (.policyIdReference _) => "PolicyIdReference"
  | .document (.policySetIdReference _) => "PolicySetIdReference"
  | .unresolvedReference => "UnresolvedReference"
  | .inherited => "undefined"

def visitNode (context : Context Payload) :
    Nat → Child → EvalM Payload (Visit Payload)
  | 0, _ => throw stackOverflow
  | stack + 1, child =>
    match child with
    | .document (.policy policy) => visitPolicy context policy
    | .document
        (.policySet id version combiningAlgId target children obligations
          advice) =>
        visitPolicySet context (visitNode context stack) id version
          combiningAlgId target children obligations advice
    | child => pure (Visit.ended .indeterminateDP (some (unknownKind child.kind)))

end

end IyaSts.Xacml.Node
