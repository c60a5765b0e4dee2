import IyaSts.JsObject
import IyaSts.XacmlModel
import Mathlib.Data.List.DropRight

namespace IyaSts.Xacml.Node

/-!
# Expressions of the JavaScript engine

`xacml_functions.js` and the expression half of `xacml_pdp.js`.  The strict
functions and the datatypes are a table that is given; the lazy functions are
spelt out, because what they leave unevaluated is theirs to say.  How a variable
reference is resolved is a parameter, in a monad that can fail.
-/

/-! ## Failures -/

/-- The status of an error the engine raises itself. -/
inductive FailureCode where
  | missingAttribute
  | syntaxError
  | processingError
  deriving DecidableEq

/-- The status code that is written for it. -/
def FailureCode.code : FailureCode → StatusCode
  | .missingAttribute => .missingAttribute
  | .syntaxError => .syntaxError
  | .processingError => .processingError

/-- An error: one of the engine's own, or one that JavaScript throws. -/
structure Failure where
  xacmlStatus : Option FailureCode
  message : String
  deriving DecidableEq

def missingAttribute (message : String) : Failure where
  xacmlStatus := some .missingAttribute
  message := message

def syntaxError (message : String) : Failure where
  xacmlStatus := some .syntaxError
  message := message

def processingError (message : String) : Failure where
  xacmlStatus := some .processingError
  message := message

/-- A `TypeError` or a `RangeError`, which carries no status. -/
def plainError (message : String) : Failure where
  xacmlStatus := none
  message := message

/-! ## The function library -/

/-- What a declared parameter takes. -/
inductive ParameterKind where
  | primitive
  | bag
  | function
  | any
  deriving DecidableEq

/-- What `invoke` is handed: a bag, or one that holds nothing but `undefined`,
which the first value of an empty bag is. -/
inductive Handed (Payload : Type) where
  | bag (bag : Bag Payload)
  | undefined (type : String)
  deriving DecidableEq

/-- What a function is applied to for a parameter. -/
inductive Argument (Payload : Type) where
  | value (value : Value Payload)
  | undefined
  | bag (bag : Handed Payload)
  deriving DecidableEq

/-- A function whose arguments are evaluated before it is applied. -/
structure StrictFunction (Payload : Type) where
  args : List ParameterKind
  variadic : Option ParameterKind
  apply : List (Argument Payload) → Except Failure (Bag Payload)

/-- The six higher-order functions that answer a Boolean. -/
inductive HigherOrder where
  | anyOf
  | allOf
  | anyOfAny
  | allOfAll
  | allOfAny
  | anyOfAll
  deriving DecidableEq

/-- The functions that get their arguments unevaluated. -/
inductive LazyFunction where
  | and
  | or
  | nOf
  | higherOrder (quantifier : HigherOrder)
  | map
  deriving DecidableEq

/-- An entry of `FUNCTIONS`. -/
inductive Definition (Payload : Type) where
  | strict (function : StrictFunction Payload)
  | lazy (function : LazyFunction)

/-- The tables an evaluation reads. -/
structure Library (Payload : Type) where
  parseValue : String → String → Except Failure (Value Payload)
  writeValue : String → Value Payload → Except Failure String
  truthy : Payload → Bool
  strict : List (String × StrictFunction Payload)

namespace HigherOrder

/-- The name a higher-order function is defined under. -/
def name : HigherOrder → String
  | .anyOf => "any-of"
  | .allOf => "all-of"
  | .anyOfAny => "any-of-any"
  | .allOfAll => "all-of-all"
  | .allOfAny => "all-of-any"
  | .anyOfAll => "any-of-all"

end HigherOrder

namespace LazyFunction

/-- The name a lazy function reports itself by. -/
def name : LazyFunction → String
  | .and => "and"
  | .or => "or"
  | .nOf => "n-of"
  | .higherOrder quantifier => quantifier.name
  | .map => "map"

/-- The declared parameters. -/
def args : LazyFunction → List ParameterKind
  | .and => []
  | .or => []
  | .nOf => [.primitive]
  | .higherOrder _ => [.function, .any, .any]
  | .map => [.function, .bag]

/-- What further arguments are declared as. -/
def variadic : LazyFunction → Option ParameterKind
  | .and => some .primitive
  | .or => some .primitive
  | .nOf => some .primitive
  | .higherOrder _ => none
  | .map => none

end LazyFunction

def F1 : String := "urn:oasis:names:tc:xacml:1.0:function:"
def F3 : String := "urn:oasis:names:tc:xacml:3.0:function:"

/-- The lazy functions by identifier. -/
def lazyFunctions : List (String × LazyFunction) :=
  [(F1 ++ "and", .and), (F1 ++ "or", .or), (F1 ++ "n-of", .nOf), (F3 ++ "any-of",
    .higherOrder .anyOf), (F3 ++ "all-of", .higherOrder .allOf), (F3 ++ "any-of-any",
    .higherOrder .anyOfAny), (F1 ++ "all-of-all", .higherOrder .allOfAll), (F1 ++ "all-of-any",
    .higherOrder .allOfAny), (F1 ++ "any-of-all", .higherOrder .anyOfAll), (F3 ++ "map", .map)]

/-- What looking a function up finds. -/
inductive Callee (Payload : Type) where
  | defined (uri : String) (definition : Definition Payload)
  -- A property every object inherits, which declares nothing.
  | inherited

section

variable {Payload : Type}

namespace Library

/-- `FUNCTIONS`. -/
def functions (library : Library Payload) : List (String × Definition Payload) :=
  lazyFunctions.map (fun entry => (entry.1, .lazy entry.2)) ++
    library.strict.map fun entry => (entry.1, .strict entry.2)

/-- `FUNCTIONS[uri] || null`. -/
def lookup (library : Library Payload) (uri : String) : Option (Callee Payload) :=
  match JsObject.read library.functions uri with
  | .own definition => some (.defined uri definition)
  | .inherited => some .inherited
  | .absent => none

/-- Whether a value is taken for true by JavaScript. -/
def isTruthy (library : Library Payload) : Value Payload → Bool
  | .boolean truth => truth
  | .integer number => number != 0
  | .temporal _ => true
  | .other payload => library.truthy payload

end Library

namespace Definition

def args : Definition Payload → List ParameterKind
  | .strict function => function.args
  | .lazy function => function.args

def variadic : Definition Payload → Option ParameterKind
  | .strict function => function.variadic
  | .lazy function => function.variadic

/-- `definition.apply` without an evaluator: a lazy function finds values where
it expects expressions. -/
def apply (definition : Definition Payload) (resolved : List (Argument Payload)) :
    Except Failure (Bag Payload) :=
  match definition with
  | .strict function => function.apply resolved
  | .lazy .and =>
    if resolved.isEmpty then
      .ok (Bag.ofBool true)
    else
      .error (plainError "evaluate is not a function")
  | .lazy .or =>
    if resolved.isEmpty then
      .ok (Bag.ofBool false)
    else
      .error (plainError "evaluate is not a function")
  | .lazy .nOf => .error (plainError "evaluate is not a function")
  | .lazy function =>
    .error (processingError (function.name ++ " requires a <Function> as its first argument."))

end Definition

/-- One resolved argument of `invoke`. -/
def resolveArgument (uri : String) (kind : ParameterKind) (index : Nat) (handed : Handed Payload) :
    Except Failure (Argument Payload) :=
  if kind = .bag then
    .ok (.bag handed)
  else
    match handed with
    | .undefined _ => .ok .undefined
    | .bag bag =>
      match bag.values with
      | [value] => .ok (.value value)
      | values =>
        .error (processingError
          (uri ++ s!" expects exactly one value for argument " ++
            s!"{index + 1} and was given a bag of {values.length}."))

/-- The number of arguments, checked as `invoke` does. -/
def checkArity (uri : String) (expected given : Nat) (variadic : Bool) : Except Failure Unit :=
  if !variadic && given != expected then
    .error (processingError (uri ++ s!" takes {expected} argument(s) and was given {given}."))
  else if variadic && given < expected then
    .error (processingError
      (uri ++ s!" takes at least {expected} argument(s) and was given " ++ s!"{given}."))
  else
    .ok ()

namespace Callee

/-- `definition.uri`. -/
def uri : Callee Payload → String
  | .defined uri _ => uri
  | .inherited => "undefined"

/-- The lazy function found, if it is one. -/
def lazy? : Callee Payload → Option LazyFunction
  | .defined _ (.lazy function) => some function
  | _ => none

/--
`invoke`.  What an inherited property answers when it is applied to nothing is
no bag, and reading it fails.
-/
def invoke (callee : Callee Payload) (argumentBags : List (Handed Payload)) :
    Except Failure (Bag Payload) :=
  match callee with
  | .inherited => do
    checkArity callee.uri 0 argumentBags.length false
    .error (plainError "Cannot read properties of undefined")
  | .defined uri definition => do
    let expected := definition.args
    checkArity uri expected.length argumentBags.length definition.variadic.isSome
    let kinds :=
      expected ++
        List.replicate (argumentBags.length - expected.length) (definition.variadic.getD .primitive)
    let resolved ←
      (kinds.zip argumentBags).zipIdx.mapM fun entry =>
        resolveArgument uri entry.1.1 entry.2 entry.1.2
    definition.apply resolved

end Callee

/-! ## The lazy functions -/

/-- `asBoolean`. -/
def asBoolean (where_ : String) (bag : Bag Payload) : Except Failure (Value Payload) :=
  match bag.values with
  | [value] =>
    if canonicalType bag.type = DataType.boolean then
      .ok value
    else
      .error (processingError
        (where_ ++ " requires boolean arguments; it was given " ++ bag.type ++ "."))
  | values =>
    .error (processingError
      (where_ ++ " requires each argument to be exactly one boolean; it " ++
        s!"was given a bag of {values.length}."))

/-- `functionReference`. -/
def functionReference (library : Library Payload) (where_ : String)
    (expression : Option Expression) :
    Except Failure (Callee Payload) :=
  match expression with
  | some (.function functionId) =>
    match library.lookup functionId with
    | some callee => .ok callee
    | none =>
      .error (processingError
        ("Unknown function \"" ++ functionId ++ "\" passed to " ++ where_ ++ "."))
  | _ => .error (processingError (where_ ++ " requires a <Function> as its first argument."))

/-- `applyPair`, the answer taken for true or false. -/
def applyPair (library : Library Payload) (callee : Callee Payload) (left right : Handed Payload) :
    Except Failure Bool := do
  let result ← callee.invoke [left, right]
  let value ← asBoolean callee.uri result
  pure (library.isTruthy value)

/-- `bags[index]`, whose members are then read. -/
def bagAt (bags : List (Bag Payload)) (index : Nat) : Except Failure (Bag Payload) :=
  match bags[index]? with
  | some bag => .ok bag
  | none => .error (plainError "Cannot read properties of undefined")

/-- `oneAgainstBag`. -/
def oneAgainstBag (library : Library Payload) (callee : Callee Payload) (bags : List (Bag Payload))
    (quantifier : List Bool → Bool) :
    Except Failure Bool := do
  let first ← bagAt bags 0
  let second ← bagAt bags 1
  let valueFirst := first.values.length == 1 && second.values.length != 1
  let single := if valueFirst then first else second
  let many := if valueFirst then second else first
  let value : Handed Payload :=
    match single.values with
    | value :: _ => .bag (Bag.singleton single.type value)
    | [] => .undefined single.type
  let test ← many.values.mapM fun candidate =>
    let one : Handed Payload := .bag (Bag.singleton many.type candidate)
    if valueFirst then
      applyPair library callee value one
    else
      applyPair library callee one value
  pure (quantifier test)

/-- The members of two bags, tested in pairs. -/
def pairs (library : Library Payload) (callee : Callee Payload) (bags : List (Bag Payload))
    (outer inner : (Value Payload → Except Failure Bool) →
      List (Value Payload) → Except Failure Bool)
    (swapped : Bool) :
    Except Failure Bool := do
  let first ← bagAt bags (if swapped then 1 else 0)
  outer (fun one => do
    let second ← bagAt bags (if swapped then 0 else 1)
    inner (fun other =>
      let one := .bag (Bag.singleton first.type one)
      let other := .bag (Bag.singleton second.type other)
      if swapped then
        applyPair library callee other one
      else
        applyPair library callee one other) second.values) first.values

/-- `some`, stopping at the first member that holds. -/
def some_ (holds : Value Payload → Except Failure Bool) (values : List (Value Payload)) :
    Except Failure Bool :=
  values.anyM holds

/-- `every`, stopping at the first member that does not hold. -/
def every (holds : Value Payload → Except Failure Bool) (values : List (Value Payload)) :
    Except Failure Bool :=
  values.allM holds

/-- The `combine` of each higher-order function. -/
def HigherOrder.combine (library : Library Payload) (quantifier : HigherOrder)
    (callee : Callee Payload) (bags : List (Bag Payload)) :
    Except Failure Bool :=
  match quantifier with
  | .anyOf => oneAgainstBag library callee bags (·.any id)
  | .allOf => oneAgainstBag library callee bags (·.all id)
  | .anyOfAny => pairs library callee bags some_ some_ false
  | .allOfAll => pairs library callee bags every every false
  | .allOfAny => pairs library callee bags every some_ false
  | .anyOfAll => pairs library callee bags every some_ true

/-- `declaredReturnType`, which answers the declaration itself, an object. -/
def declaredReturnType : Callee Payload → Option String
  | .defined _ _ => some "[object Object]"
  | .inherited => none

/-- One application of a mapped function. -/
def mapOne (callee : Callee Payload) (fixed : List (Bag Payload)) (targetType : String)
    (candidate : Value Payload) :
    Except Failure (String × Value Payload) := do
  let produced ←
    callee.invoke
      ((fixed ++ [Bag.singleton targetType candidate]).map .bag)
  match produced.values with
  | [value] => pure (produced.type, value)
  | values =>
    .error (processingError
      ("map expects its function to produce exactly one value per " ++
        "member; " ++ callee.uri ++ s!" produced {values.length}."))

/-- `map`, of the bags its arguments evaluate to. -/
def mapBags (callee : Callee Payload) (bags : List (Bag Payload)) : Except Failure (Bag Payload) :=
  match bags.getLast? with
  | none => .error (plainError "Cannot read properties of undefined")
  | some target => do
    let produced ←
      target.values.mapM (mapOne callee bags.dropLast target.type)
    let type :=
      match produced.getLast? with
      | some last => last.1
      | none => (declaredReturnType callee).getD target.type
    pure (Bag.ofValues type (produced.map Prod.snd))

/-- The count `n-of` asks for, where it is a number. -/
def neededOf (countBag : Bag Payload) : Except Failure (Option Int) :=
  match countBag.values with
  | [value] =>
    if canonicalType countBag.type = DataType.integer then
      match value with
      | .integer number => .ok (some number)
      | _ => .ok none
    else
      .error (processingError "n-of's first argument must be exactly one integer.")
  | _ => .error (processingError "n-of's first argument must be exactly one integer.")

/-! ## Evaluating -/

section

variable {m : Type → Type} [Monad m] [MonadExcept Failure m]

/-- A step that fails by throwing. -/
def orThrow {α : Type} : Except Failure α → m α
  | .ok value => pure value
  | .error failure => throw failure

/-- What an evaluation reads and asks: the tables, the designators and the
variables. -/
structure Reader (m : Type → Type) (Payload : Type) where
  library : Library Payload
  resolveDesignator : Designator → Except Failure (Bag Payload)
  resolveVariable : String → m (Bag Payload)

/-- Whether the loop of `n-of` has found enough. -/
def enough (found : Int) (needed : Option Int) : Bool :=
  match needed with
  | some needed => needed ≤ found
  | none => false

mutual

/-- `evaluateExpression`. -/
def evaluateExpression (reader : Reader m Payload) :
    Expression → m (Bag Payload)
  | .value literal => do
    let value ←
      orThrow (reader.library.parseValue literal.type literal.lexical)
    pure (Bag.singleton literal.type value)
  | .designator sought => orThrow (reader.resolveDesignator sought)
  | .selector _ =>
    throw (processingError
      ("AttributeSelector is not evaluable without XPath support over the " ++
        "request <Content>."))
  | .variableRef variableId => reader.resolveVariable variableId
  | .function functionId =>
    throw (syntaxError
      ("<Function FunctionId=\"" ++ functionId ++ "\"/> is only valid " ++
        "as the first argument of a higher-order function."))
  | .apply functionId args =>
    match reader.library.lookup functionId with
    | none => throw (syntaxError ("Unknown function \"" ++ functionId ++ "\"."))
    | some callee =>
      match callee.lazy? with
      | none => do
        let argumentBags ← evaluateAll reader args
        orThrow (callee.invoke (argumentBags.map .bag))
      | some .and => evaluateAnd reader args
      | some .or => evaluateOr reader args
      | some .nOf => evaluateNOf reader args
      | some (.higherOrder quantifier) => evaluateHigherOrder reader quantifier args
      | some .map => evaluateMap reader args

/-- Every argument, in order. -/
def evaluateAll (reader : Reader m Payload) :
    List Expression → m (List (Bag Payload))
  | [] => pure []
  | expression :: rest => do
    let bag ← evaluateExpression reader expression
    let bags ← evaluateAll reader rest
    pure (bag :: bags)

/-- `and`. -/
def evaluateAnd (reader : Reader m Payload) :
    List Expression → m (Bag Payload)
  | [] => pure (Bag.ofBool true)
  | expression :: rest => do
    let bag ← evaluateExpression reader expression
    let value ← orThrow (asBoolean "and" bag)
    match value with
    | .boolean false => pure (Bag.ofBool false)
    | _ => evaluateAnd reader rest

/-- `or`. -/
def evaluateOr (reader : Reader m Payload) :
    List Expression → m (Bag Payload)
  | [] => pure (Bag.ofBool false)
  | expression :: rest => do
    let bag ← evaluateExpression reader expression
    let value ← orThrow (asBoolean "or" bag)
    match value with
    | .boolean true => pure (Bag.ofBool true)
    | _ => evaluateOr reader rest

/-- The loop of `n-of`. -/
def evaluateCount (reader : Reader m Payload) (needed : Option Int) :
    Int → List Expression → m (Bag Payload)
  | _, [] => pure (Bag.ofBool false)
  | found, expression :: rest => do
    let bag ← evaluateExpression reader expression
    let value ← orThrow (asBoolean "n-of" bag)
    match value with
    | .boolean true =>
      if enough (found + 1) needed then
        pure (Bag.ofBool true)
      else
        evaluateCount reader needed (found + 1) rest
    | _ => evaluateCount reader needed found rest

/-- `n-of`. -/
def evaluateNOf (reader : Reader m Payload) :
    List Expression → m (Bag Payload)
  | [] => throw (processingError "n-of requires at least one argument: the count.")
  | count :: rest => do
    let countBag ← evaluateExpression reader count
    let needed ← orThrow (neededOf countBag)
    let available : Int := rest.length
    if needed.any (· < 0) then
      throw (processingError s!"n-of was asked for {needed.getD 0} true arguments.")
    else if needed.any (available < ·) then
      throw (processingError
        (s!"n-of was asked for {needed.getD 0} true arguments out of " ++
          s!"{available}, which cannot be satisfied."))
    else if needed = some 0 then
      pure (Bag.ofBool true)
    else
      evaluateCount reader needed 0 rest

/-- A higher-order function that answers a Boolean. -/
def evaluateHigherOrder (reader : Reader m Payload) (quantifier : HigherOrder) :
    List Expression → m (Bag Payload)
  | [] => do
    let _ ← orThrow (functionReference reader.library quantifier.name none)
    throw (plainError "Cannot read properties of undefined")
  | function :: rest => do
    let callee ←
      orThrow
        (functionReference reader.library quantifier.name (some function))
    let bags ← evaluateAll reader rest
    let answer ← orThrow (quantifier.combine reader.library callee bags)
    pure (Bag.ofBool answer)

/-- `map`. -/
def evaluateMap (reader : Reader m Payload) :
    List Expression → m (Bag Payload)
  | [] => do
    let _ ← orThrow (functionReference reader.library "map" none)
    throw (plainError "Cannot read properties of undefined")
  | function :: rest => do
    let callee ←
      orThrow (functionReference reader.library "map" (some function))
    let bags ← evaluateAll reader rest
    orThrow (mapBags callee bags)

end

end

end

end IyaSts.Xacml.Node
