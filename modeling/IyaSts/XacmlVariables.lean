import IyaSts.XacmlExpressions

namespace IyaSts.Xacml.Node

/-!
# Variables of the JavaScript engine

A variable is evaluated once in a decision and remembered.  While its definition
is evaluated it is marked as in progress, and a reference to a marked variable is
reported as cyclic.  The marks are those of the definitions being evaluated, so
they are handed down; the values are a state, which a failure leaves as it was
when it was thrown.
-/

section

variable {Payload : Type}

/-- `variables.values`, the value remembered last first. -/
abbrev Memo (Payload : Type) := List (String × Bag Payload)

/-- Steps that remember variables and may throw. -/
abbrev VariableM (Payload : Type) := EStateM Failure (Memo Payload)

/-- The error of a reference to nothing. -/
def undefinedVariable (id : String) : Failure :=
  syntaxError
    ("VariableReference names \"" ++ id ++ "\", which no VariableDefinition " ++
      "in this policy defines.")

/-- The error of a reference to a variable in progress. -/
def cyclicVariable (id : String) : Failure :=
  syntaxError
    ("VariableDefinition \"" ++ id ++ "\" refers to itself, directly or " ++
      "through another variable.")

/-- What happens when the call stack has no room left. -/
def stackOverflow : Failure := plainError "Maximum call stack size exceeded"

/-- What evaluating an expression reads besides the variables. -/
structure Surroundings (Payload : Type) where
  library : Library Payload
  resolveDesignator : Designator → Except Failure (Bag Payload)

/-- The reader of an evaluation that resolves variables in a given way. -/
def Surroundings.reader {m : Type → Type} (surroundings : Surroundings Payload)
    (resolveVariable : String → m (Bag Payload)) :
    Reader m Payload where
  library := surroundings.library
  resolveDesignator := surroundings.resolveDesignator
  resolveVariable := resolveVariable

/--
`resolveVariable`, with room for so many definitions inside each other.  The
checks are in the source's order: whether there is a definition, whether the
value is remembered, whether the variable is marked.  The marks are an object's
properties, so a name every object inherits is always marked.
-/
def resolveVariable (surroundings : Surroundings Payload)
    (definitions : Option (List (String × Expression))) :
    Nat → List String → String → VariableM Payload (Bag Payload)
  | 0, _, _ => throw stackOverflow
  | room + 1, inProgress, id =>
    match definitions with
    | none => throw (undefinedVariable id)
    | some defined =>
      match JsObject.read defined id with
      | .absent => throw (undefinedVariable id)
      | .inherited => throw (cyclicVariable id)
      | .own definition => do
        let values ← get
        match values.lookup id with
        | some value => pure value
        | none =>
          if JsObject.Inherited id ∨ id ∈ inProgress then
            throw (cyclicVariable id)
          else
            let value ←
              evaluateExpression
                (surroundings.reader
                  (resolveVariable surroundings definitions room (id :: inProgress)))
                definition
            modify fun values => (id, value) :: values
            pure value

/-- How many definitions can be inside each other. -/
def room (definitions : Option (List (String × Expression))) : Nat :=
  (definitions.getD []).length + 1

/-- `evaluateExpression(expression, context, variables)`, with room for so many
definitions inside each other. -/
def evaluateWithin (surroundings : Surroundings Payload)
    (definitions : Option (List (String × Expression))) (stack : Nat) (expression : Expression) :
    VariableM Payload (Bag Payload) :=
  evaluateExpression
    (surroundings.reader (resolveVariable surroundings definitions stack []))
    expression

/-- The same with room enough. -/
def evaluateWith (surroundings : Surroundings Payload)
    (definitions : Option (List (String × Expression))) (expression : Expression) :
    VariableM Payload (Bag Payload) :=
  evaluateWithin surroundings definitions (room definitions) expression

/-- What a step answers. -/
def answerOf {α : Type} :
    EStateM.Result Failure (Memo Payload) α → Except Failure α
  | .ok value _ => .ok value
  | .error failure _ => .error failure

/-- What is remembered after a step, whether or not it failed. -/
def memoOf {α : Type} :
    EStateM.Result Failure (Memo Payload) α → Memo Payload
  | .ok _ memo => memo
  | .error _ memo => memo

/-- What is remembered after expressions were evaluated in one decision. -/
def memoAfter (surroundings : Surroundings Payload)
    (definitions : Option (List (String × Expression)))
    (earlier : List Expression) : Memo Payload :=
  earlier.foldl
    (fun memo expression => memoOf (evaluateWith surroundings definitions expression memo)) []

end

end IyaSts.Xacml.Node
