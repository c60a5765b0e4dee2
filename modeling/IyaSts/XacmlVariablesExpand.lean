import IyaSts.XacmlVariables

namespace IyaSts.Xacml.Node

/-!
# Variables are what their definitions say

Remembering is compared with expanding: a reference replaced by its definition,
unless the definition is already being expanded.  The two agree because what is
remembered was evaluated with what had been remembered before it, and with
nothing that was in progress.
-/

open List

section

variable {Payload : Type}

/-! ## Evaluations in two monads -/

/-- A relation of steps in two monads that keeps to their structure. -/
structure Correspondence (m n : Type → Type) [Monad m] [Monad n]
    [MonadExcept Failure m] [MonadExcept Failure n] where
  Holds : {α : Type} → m α → n α → Prop
  pure : ∀ {α : Type} (value : α), Holds (Pure.pure value) (Pure.pure value)
  throw :
    ∀ {α : Type} (failure : Failure),
      Holds (MonadExcept.throw failure : m α) (MonadExcept.throw failure)
  bind :
    ∀ {α β : Type} {first : m α} {second : n α}
      {next : α → m β} {after : α → n β},
      Holds first second →
        (∀ value, Holds (next value) (after value)) → Holds (first >>= next) (second >>= after)

mutual

/-- The variables an expression refers to. -/
def references : Expression → List String
  | .variableRef variableId => [variableId]
  | .apply _ args => referencesAll args
  | .value _ => []
  | .designator _ => []
  | .selector _ => []
  | .function _ => []

/-- The variables expressions refer to. -/
def referencesAll : List Expression → List String
  | [] => []
  | expression :: rest => references expression ++ referencesAll rest

end

namespace Correspondence

variable {m n : Type → Type} [Monad m] [Monad n]
  [MonadExcept Failure m] [MonadExcept Failure n]
  (correspondence : Correspondence m n)

theorem orThrow {α : Type} (outcome : Except Failure α) :
    correspondence.Holds
      (IyaSts.Xacml.Node.orThrow outcome : m α)
      (IyaSts.Xacml.Node.orThrow outcome) := by
  cases outcome with
  | error failure => exact correspondence.throw failure
  | ok value => exact correspondence.pure value

variable
  (surroundings : Surroundings Payload)
  (first : String → m (Bag Payload))
  (second : String → n (Bag Payload))

mutual

/-- Evaluations correspond when the references they make do. -/
theorem evaluateExpression (expression : Expression)
    (resolve : ∀ id ∈ references expression, correspondence.Holds (first id) (second id)) :
    correspondence.Holds
      (Node.evaluateExpression (surroundings.reader first) expression)
      (Node.evaluateExpression (surroundings.reader second) expression) := by
  cases expression with
  | value literal =>
    exact correspondence.bind (correspondence.orThrow _) fun value => correspondence.pure _
  | designator sought => exact correspondence.orThrow _
  | selector dataType => exact correspondence.throw _
  | variableRef variableId => exact resolve variableId mem_cons_self
  | function functionId => exact correspondence.throw _
  | apply functionId args =>
    unfold Node.evaluateExpression
    show correspondence.Holds
      (match surroundings.library.lookup functionId with
        | none => _
        | some callee => _)
      (match surroundings.library.lookup functionId with
        | none => _
        | some callee => _)
    cases surroundings.library.lookup functionId with
    | none => exact correspondence.throw _
    | some callee =>
      show correspondence.Holds
        (match callee.lazy? with
          | none => _
          | some .and => _
          | some .or => _
          | some .nOf => _
          | some (.higherOrder quantifier) => _
          | some .map => _)
        (match callee.lazy? with
          | none => _
          | some .and => _
          | some .or => _
          | some .nOf => _
          | some (.higherOrder quantifier) => _
          | some .map => _)
      cases callee.lazy? with
      | none =>
        exact correspondence.bind (evaluateAll args resolve) fun bags => correspondence.orThrow _
      | some function =>
        cases function with
        | and => exact evaluateAnd args resolve
        | or => exact evaluateOr args resolve
        | nOf => exact evaluateNOf args resolve
        | higherOrder quantifier => exact evaluateHigherOrder quantifier args resolve
        | map => exact evaluateMap args resolve

theorem evaluateAll (args : List Expression)
    (resolve : ∀ id ∈ referencesAll args, correspondence.Holds (first id) (second id)) :
    correspondence.Holds
      (Node.evaluateAll (surroundings.reader first) args)
      (Node.evaluateAll (surroundings.reader second) args) := by
  cases args with
  | nil => exact correspondence.pure []
  | cons expression rest =>
    rw [referencesAll] at resolve
    exact correspondence.bind
      (evaluateExpression expression fun id isReference =>
        resolve id (mem_append_left _ isReference))
      fun bag =>
        correspondence.bind
          (evaluateAll rest fun id isReference => resolve id (mem_append_right _ isReference))
          fun bags => correspondence.pure (bag :: bags)

theorem evaluateAnd (args : List Expression)
    (resolve : ∀ id ∈ referencesAll args, correspondence.Holds (first id) (second id)) :
    correspondence.Holds
      (Node.evaluateAnd (surroundings.reader first) args)
      (Node.evaluateAnd (surroundings.reader second) args) := by
  cases args with
  | nil => exact correspondence.pure _
  | cons expression rest =>
    rw [referencesAll] at resolve
    unfold Node.evaluateAnd
    refine correspondence.bind
      (evaluateExpression expression fun id isReference =>
        resolve id (mem_append_left _ isReference))
      fun bag => correspondence.bind (correspondence.orThrow _) fun value => ?_
    split
    · exact correspondence.pure _
    · exact evaluateAnd rest fun id isReference => resolve id (mem_append_right _ isReference)

theorem evaluateOr (args : List Expression)
    (resolve : ∀ id ∈ referencesAll args, correspondence.Holds (first id) (second id)) :
    correspondence.Holds
      (Node.evaluateOr (surroundings.reader first) args)
      (Node.evaluateOr (surroundings.reader second) args) := by
  cases args with
  | nil => exact correspondence.pure _
  | cons expression rest =>
    rw [referencesAll] at resolve
    unfold Node.evaluateOr
    refine correspondence.bind
      (evaluateExpression expression fun id isReference =>
        resolve id (mem_append_left _ isReference))
      fun bag => correspondence.bind (correspondence.orThrow _) fun value => ?_
    split
    · exact correspondence.pure _
    · exact evaluateOr rest fun id isReference => resolve id (mem_append_right _ isReference)

theorem evaluateCount (needed : Option Int) (found : Int) (args : List Expression)
    (resolve : ∀ id ∈ referencesAll args, correspondence.Holds (first id) (second id)) :
    correspondence.Holds
      (Node.evaluateCount (surroundings.reader first) needed found args)
      (Node.evaluateCount (surroundings.reader second) needed found args) := by
  cases args with
  | nil => exact correspondence.pure _
  | cons expression rest =>
    rw [referencesAll] at resolve
    have others :
        ∀ id ∈ referencesAll rest, correspondence.Holds (first id) (second id) :=
      fun id isReference => resolve id (mem_append_right _ isReference)
    unfold Node.evaluateCount
    refine correspondence.bind
      (evaluateExpression expression fun id isReference =>
        resolve id (mem_append_left _ isReference))
      fun bag => correspondence.bind (correspondence.orThrow _) fun value => ?_
    split
    · split
      · exact correspondence.pure _
      · exact evaluateCount needed (found + 1) rest others
    · exact evaluateCount needed found rest others

theorem evaluateNOf (args : List Expression)
    (resolve : ∀ id ∈ referencesAll args, correspondence.Holds (first id) (second id)) :
    correspondence.Holds
      (Node.evaluateNOf (surroundings.reader first) args)
      (Node.evaluateNOf (surroundings.reader second) args) := by
  cases args with
  | nil => exact correspondence.throw _
  | cons count rest =>
    rw [referencesAll] at resolve
    unfold Node.evaluateNOf
    refine correspondence.bind
      (evaluateExpression count fun id isReference =>
        resolve id (mem_append_left _ isReference))
      fun bag => correspondence.bind (correspondence.orThrow _) fun needed => ?_
    dsimp only
    split_ifs
    · exact correspondence.throw _
    · exact correspondence.throw _
    · exact correspondence.pure _
    · exact evaluateCount needed 0 rest fun id isReference =>
        resolve id (mem_append_right _ isReference)

theorem evaluateHigherOrder (quantifier : HigherOrder) (args : List Expression)
    (resolve : ∀ id ∈ referencesAll args, correspondence.Holds (first id) (second id)) :
    correspondence.Holds
      (Node.evaluateHigherOrder (surroundings.reader first) quantifier args)
      (Node.evaluateHigherOrder (surroundings.reader second) quantifier args) := by
  cases args with
  | nil => exact correspondence.bind (correspondence.orThrow _) fun callee => correspondence.throw _
  | cons function rest =>
    rw [referencesAll] at resolve
    unfold Node.evaluateHigherOrder
    refine correspondence.bind (correspondence.orThrow _) fun callee =>
      correspondence.bind
        (evaluateAll rest fun id isReference => resolve id (mem_append_right _ isReference))
        fun bags => correspondence.bind (correspondence.orThrow _) fun answer => ?_
    exact correspondence.pure _

theorem evaluateMap (args : List Expression)
    (resolve : ∀ id ∈ referencesAll args, correspondence.Holds (first id) (second id)) :
    correspondence.Holds
      (Node.evaluateMap (surroundings.reader first) args)
      (Node.evaluateMap (surroundings.reader second) args) := by
  cases args with
  | nil => exact correspondence.bind (correspondence.orThrow _) fun callee => correspondence.throw _
  | cons function rest =>
    rw [referencesAll] at resolve
    unfold Node.evaluateMap
    exact correspondence.bind (correspondence.orThrow _) fun callee =>
      correspondence.bind
        (evaluateAll rest fun id isReference => resolve id (mem_append_right _ isReference))
        fun bags => correspondence.orThrow _

end

end Correspondence

end

end IyaSts.Xacml.Node
