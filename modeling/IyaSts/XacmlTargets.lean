import IyaSts.StrongKleene
import IyaSts.XacmlPdp

namespace IyaSts.Xacml

/-!
# Targets as strong three-valued logic

In both engines a target is a conjunction of disjunctions of conjunctions of
matches, with an error for the unknown value, and a match a disjunction over the
values of its bag.  The functions and the evaluation of expressions of the Rust
engine are given.
-/

open List

open StrongKleene (Truth)

/-! ## What a target says -/

/-- A target's result as a truth value. -/
def MatchResult.ofTruth : Truth → MatchResult
  | .isTrue => .isMatch
  | .isFalse => .noMatch
  | .unknown => .indeterminate

/-- What a match that was tried says. -/
def truthOf {ε : Type} : Except ε Bool → Truth
  | .ok true => .isTrue
  | .ok false => .isFalse
  | .error _ => .unknown

/-- What an `<AllOf>` says when its matches say so. -/
def AllOf.truth (outcome : Match → Truth) (allOf : AllOf) : Truth :=
  StrongKleene.all (allOf.allMatches.map outcome)

/-- What an `<AnyOf>` says. -/
def AnyOf.truth (outcome : Match → Truth) (anyOf : AnyOf) : Truth :=
  StrongKleene.any (anyOf.allOf.map (AllOf.truth outcome))

/-- What a target says; an absent one matches. -/
def targetTruth (outcome : Match → Truth) (target : Option Target) : Truth :=
  StrongKleene.all (((target.map Target.anyOf).getD []).map (AnyOf.truth outcome))

/-! ## Reordering and replacing -/

/-- Two lists whose members correspond, in another order. -/
def Reordered {α : Type} (same : α → α → Prop) (values others : List α) : Prop :=
  ∃ middle, values.Perm middle ∧ List.Forall₂ same middle others

/-- An `<AllOf>` with its matches in another order. -/
def AllOf.Permuted (allOf other : AllOf) : Prop :=
  Reordered (· = ·) allOf.allMatches other.allMatches

/-- An `<AnyOf>` with its parts in another order. -/
def AnyOf.Permuted (anyOf other : AnyOf) : Prop := Reordered AllOf.Permuted anyOf.allOf other.allOf

/-- A target with its parts in another order. -/
def TargetPermuted (target other : Option Target) : Prop :=
  Reordered AnyOf.Permuted ((target.map Target.anyOf).getD []) ((other.map Target.anyOf).getD [])

/-- Two targets of one shape, their matches in a relation. -/
def TargetRelated (related : Match → Match → Prop) (target other : Option Target) : Prop :=
  List.Forall₂
    (fun anyOf anyOf' : AnyOf =>
      List.Forall₂
        (fun allOf allOf' : AllOf => List.Forall₂ related allOf.allMatches allOf'.allMatches)
        anyOf.allOf anyOf'.allOf)
    ((target.map Target.anyOf).getD [])
    ((other.map Target.anyOf).getD [])

theorem Reordered.map_perm {α β : Type} {same : α → α → Prop} {values others : List α}
    {first second : α → β} (reordered : Reordered same values others)
    (agree : ∀ value other, same value other → first value = second other) :
    (values.map first).Perm (others.map second) := by
  obtain ⟨middle, permuted, related⟩ := reordered
  have sameMiddle : middle.map first = others.map second := by
    clear permuted
    induction related with
    | nil => rfl
    | cons head _ ih => rw [map_cons, map_cons, agree _ _ head, ih]
  rw [← sameMiddle]
  exact permuted.map first

variable {outcome other : Match → Truth} {target target' : Option Target}

/-- The order of the parts is nothing to what a target says. -/
theorem targetTruth_permuted (agree : ∀ match_, outcome match_ = other match_)
    (permuted : TargetPermuted target target') :
    targetTruth outcome target = targetTruth other target' := by
  refine StrongKleene.all_perm (permuted.map_perm ?_)
  intro anyOf anyOf' anyOfPermuted
  refine StrongKleene.any_perm (anyOfPermuted.map_perm ?_)
  intro allOf allOf' allOfPermuted
  refine StrongKleene.all_perm (allOfPermuted.map_perm ?_)
  rintro match_ _ rfl
  exact agree match_

/-- What is known of a target stays when errors are replaced. -/
theorem targetTruth_becomes
    (related :
      TargetRelated
        (fun match_ match' => (outcome match_).Becomes (other match'))
        target target') :
    (targetTruth outcome target).Becomes (targetTruth other target') := by
  unfold targetTruth AnyOf.truth AllOf.truth
  refine StrongKleene.all_becomes ?_
  rw [forall₂_map_left_iff, forall₂_map_right_iff]
  refine related.imp fun anyOf anyOf' anyOfRelated => ?_
  refine StrongKleene.any_becomes ?_
  rw [forall₂_map_left_iff, forall₂_map_right_iff]
  refine anyOfRelated.imp fun allOf allOf' allOfRelated => ?_
  refine StrongKleene.all_becomes ?_
  rw [forall₂_map_left_iff, forall₂_map_right_iff]
  exact allOfRelated

/-- Two answers for the values of a bag: the same ones, in some order. -/
def SameValues {Payload : Type} (first second : Except Node.Failure (Bag Payload)) : Prop :=
  match first, second with
  | .ok bag, .ok other => bag.type = other.type ∧ bag.values.Perm other.values
  | .error _, .error _ => True
  | _, _ => False

/--
An engine answers targets as strong three-valued logic does: exactly so, whatever
the order of the parts and of the values of a bag, and a definite answer stays
when errors are replaced.
-/
structure AnswersStrongly {Setting : Type} (matchTruth : Setting → Match → Truth)
    (SameBags : Setting → Setting → Prop)
    (answer : Setting → Option Target → Option MatchResult) : Prop where
  exactly :
    ∀ setting target,
      answer setting target = some (.ofTruth (targetTruth (matchTruth setting) target))
  inAnyOrder :
    ∀ setting other target target',
      SameBags setting other → TargetPermuted target target' →
        answer setting target = answer other target'
  definitely :
    ∀ setting other target target',
      TargetRelated
          (fun match_ match' => (matchTruth setting match_).Becomes (matchTruth other match'))
          target target' →
        answer setting target ≠ some .indeterminate → answer other target' = answer setting target

theorem AnswersStrongly.ofExactly {Setting : Type} {matchTruth : Setting → Match → Truth}
    {SameBags : Setting → Setting → Prop} {answer : Setting → Option Target → Option MatchResult}
    (exactly :
      ∀ setting target,
        answer setting target = some (.ofTruth (targetTruth (matchTruth setting) target)))
    (sameTruth :
      ∀ setting other, SameBags setting other →
        ∀ match_, matchTruth setting match_ = matchTruth other match_) :
    AnswersStrongly matchTruth SameBags answer where
  exactly := exactly
  inAnyOrder := by
    intro setting other target target' sameBags permuted
    rw [exactly, exactly, targetTruth_permuted (sameTruth setting other sameBags) permuted]
  definitely := by
    intro setting other target target' related definite
    have becomes := targetTruth_becomes related
    rw [exactly] at definite
    rw [exactly, exactly]
    have known : targetTruth (matchTruth setting) target ≠ Truth.unknown := by
      intro isUnknown
      rw [isUnknown] at definite
      exact definite rfl
    rw [becomes.eq_of_known known]

/-- What a loop that remembers an error starts from. -/
def soFar (indeterminate : Bool) (otherwise : Truth) : Truth :=
  if indeterminate then .unknown else otherwise

variable (indeterminate : Bool) (value : Truth)

theorem soFar_inf_unknown :
    soFar indeterminate .isTrue ⊓ (Truth.unknown ⊓ value) = soFar true .isTrue ⊓ value := by
  cases indeterminate <;> cases value <;> decide

theorem soFar_sup_unknown :
    soFar indeterminate .isFalse ⊔ (Truth.unknown ⊔ value) = soFar true .isFalse ⊔ value := by
  cases indeterminate <;> cases value <;> decide

/-! ## The JavaScript engine -/

namespace Node

variable {Payload : Type}

/-- What applying a match's function to one value of the bag says. -/
def valueTruth (callee : Callee Payload) (literal : Bag Payload) (type : String)
    (value : Value Payload) : Truth :=
  match callee.invoke [.bag literal, .bag (Bag.singleton type value)] with
  | .ok result => if isTrue result then .isTrue else .isFalse
  | .error _ => .unknown

/-- A match is a disjunction over the values of its bag. -/
theorem truthOf_matchValues (callee : Callee Payload) (literal : Bag Payload)
    (type : String) (firstError : Option Failure) (values : List (Value Payload)) :
    truthOf (matchValues callee literal type firstError values) =
      soFar firstError.isSome .isFalse ⊔
        StrongKleene.any (values.map (valueTruth callee literal type)) := by
  induction values generalizing firstError with
  | nil => cases firstError <;> rfl
  | cons value rest ih =>
    rw [map_cons, StrongKleene.any_cons, valueTruth]
    cases applied :
        callee.invoke
          [.bag literal, .bag (Bag.singleton type value)] with
    | ok result =>
      cases holds : isTrue result with
      | true =>
        have matched : matchValues callee literal type firstError (value :: rest) = .ok true := by
          cases firstError <;> simp [matchValues, applied, holds]
        rw [matched]
        simp only [holds, if_true, Truth.isTrue_sup]
        rw [sup_comm, Truth.isTrue_sup]
        rfl
      | false =>
        have passed :
            matchValues callee literal type firstError (value :: rest) =
              matchValues callee literal type firstError rest := by
          cases firstError <;> simp [matchValues, applied, holds]
        rw [passed, ih]
        simp [holds]
    | error failure =>
      have remembered :
          matchValues callee literal type firstError (value :: rest) =
            matchValues callee literal type (some (firstError.getD failure)) rest := by
        cases firstError <;> simp [matchValues, applied]
      rw [remembered, ih, soFar_sup_unknown]
      rfl

/-- What a match answers in a context, of whatever was evaluated before. -/
def matchOutcome (context : Context Payload)
    (match_ : Match) : Except Failure Bool := do
  match context.library.lookup match_.matchId with
  | none => .error (syntaxError ("Unknown match function \"" ++ match_.matchId ++ "\"."))
  | some callee =>
    let attributeBag ←
      match match_.reference with
      | .designator sought => resolveDesignator context sought
      | .selector _ =>
        .error (processingError
          ("AttributeSelector is not evaluable without XPath support over " ++
            "the request <Content>."))
    let literal ←
      context.library.parseValue match_.value.type match_.value.lexical
    matchValues callee (Bag.singleton match_.value.type literal)
      attributeBag.type none attributeBag.values

/-- A designator is evaluated without the variables. -/
theorem evaluateIn_designator (context : Context Payload)
    (definitions : Option (List (String × Expression))) (sought : Designator) :
    evaluateIn context definitions (.designator sought) =
      orThrow (resolveDesignator context sought) := by
  funext state
  simp only [evaluateIn, evaluateWith, evaluateWithin, evaluateExpression]
  have reads :
      ∀ step : String → VariableM Payload (Bag Payload),
        (context.surroundings.reader step).resolveDesignator sought =
          resolveDesignator context sought :=
    fun _ => rfl
  rw [reads]
  cases resolveDesignator context sought <;> rfl

/-- So is a literal. -/
theorem evaluateIn_value (context : Context Payload)
    (definitions : Option (List (String × Expression))) (literal : AttributeValue) :
    evaluateIn context definitions (.value literal) =
      orThrow
        (Bag.singleton literal.type <$>
          context.library.parseValue literal.type literal.lexical) := by
  funext state
  simp only [evaluateIn, evaluateWith, evaluateWithin, evaluateExpression]
  have reads :
      ∀ step : String → VariableM Payload (Bag Payload),
        (context.surroundings.reader step).library = context.library :=
    fun _ => rfl
  rw [reads]
  cases context.library.parseValue literal.type literal.lexical <;> rfl

/-- `evaluateMatch` answers that, and changes nothing. -/
theorem evaluateMatch_eq (context : Context Payload)
    (definitions : Option (List (String × Expression))) (match_ : Match) :
    evaluateMatch context definitions match_ = orThrow (matchOutcome context match_) := by
  unfold evaluateMatch matchOutcome
  cases context.library.lookup match_.matchId with
  | none => rfl
  | some callee =>
    cases match_.reference with
    | selector dataType => rfl
    | designator sought =>
      simp only [MatchReference.expression, evaluateIn_designator, evaluateIn_value]
      cases resolveDesignator context sought with
      | error failure => rfl
      | ok bag =>
        cases context.library.parseValue match_.value.type
            match_.value.lexical with
        | error failure => rfl
        | ok literal => rfl

/-- The matches of a context as truth values. -/
def matchTruth (context : Context Payload) (match_ : Match) : Truth :=
  truthOf (matchOutcome context match_)

section

variable
  (context : Context Payload)
  (definitions : Option (List (String × Expression)))

theorem evaluateMatches_eq (slot : Nat) (indeterminate : Bool) (allMatches : List Match)
    (state : EvalState Payload) :
    ∃ later,
      evaluateMatches context definitions slot indeterminate allMatches state =
        .ok
          (.ofTruth
            (soFar indeterminate .isTrue ⊓ StrongKleene.all (allMatches.map (matchTruth context))))
          later := by
  induction allMatches generalizing indeterminate state with
  | nil => exact ⟨state, by cases indeterminate <;> rfl⟩
  | cons match_ rest ih =>
    rw [map_cons, StrongKleene.all_cons, matchTruth, evaluateMatches, evaluateMatch_eq]
    cases matchOutcome context match_ with
    | error failure =>
      obtain ⟨later, ran⟩ :=
        ih true
          { state with
            lastErrors := (slot, failure) :: state.lastErrors }
      rw [truthOf, soFar_inf_unknown]
      exact ⟨later, ran⟩
    | ok matched =>
      cases matched with
      | false =>
        refine ⟨state, ?_⟩
        rw [truthOf, Truth.isFalse_inf, inf_comm, Truth.isFalse_inf]
        rfl
      | true =>
        obtain ⟨later, ran⟩ := ih indeterminate state
        rw [truthOf, Truth.isTrue_inf]
        exact ⟨later, ran⟩

variable (indeterminate : Bool)

theorem evaluateAllOfs_eq (allOfs : List AllOf) (state : EvalState Payload) :
    ∃ later,
      evaluateAllOfs context definitions indeterminate allOfs state =
        .ok
          (.ofTruth
            (soFar indeterminate .isFalse ⊔
              StrongKleene.any
                (allOfs.map (AllOf.truth (matchTruth context)))))
          later := by
  induction allOfs generalizing indeterminate state with
  | nil => exact ⟨state, by cases indeterminate <;> rfl⟩
  | cons allOf rest ih =>
    obtain ⟨between, first⟩ :=
      evaluateMatches_eq context definitions allOf.slot false allOf.allMatches state
    have settled :
        soFar false .isTrue ⊓
            StrongKleene.all (allOf.allMatches.map (matchTruth context)) =
          allOf.truth (matchTruth context) :=
      Truth.isTrue_inf _
    rw [settled] at first
    rw [map_cons, StrongKleene.any_cons, evaluateAllOfs, evaluateAllOf]
    change
      ∃ later,
        EStateM.bind
            (evaluateMatches context definitions allOf.slot false allOf.allMatches) _ state =
          _
    rw [EStateM.bind, first]
    cases allOf.truth (matchTruth context) with
    | isTrue =>
      refine ⟨between, ?_⟩
      rw [Truth.isTrue_sup, sup_comm, Truth.isTrue_sup]
      rfl
    | unknown =>
      obtain ⟨later, ran⟩ := ih true between
      rw [soFar_sup_unknown]
      exact ⟨later, ran⟩
    | isFalse =>
      obtain ⟨later, ran⟩ := ih indeterminate between
      rw [Truth.isFalse_sup]
      exact ⟨later, ran⟩

theorem evaluateAnyOfs_eq (anyOfs : List AnyOf) (state : EvalState Payload) :
    ∃ later,
      evaluateAnyOfs context definitions indeterminate anyOfs state =
        .ok
          (.ofTruth
            (soFar indeterminate .isTrue ⊓
              StrongKleene.all
                (anyOfs.map (AnyOf.truth (matchTruth context)))))
          later := by
  induction anyOfs generalizing indeterminate state with
  | nil => exact ⟨state, by cases indeterminate <;> rfl⟩
  | cons anyOf rest ih =>
    obtain ⟨between, first⟩ := evaluateAllOfs_eq context definitions false anyOf.allOf state
    have settled :
        soFar false .isFalse ⊔
            StrongKleene.any (anyOf.allOf.map (AllOf.truth (matchTruth context))) =
          anyOf.truth (matchTruth context) :=
      Truth.isFalse_sup _
    rw [settled] at first
    rw [map_cons, StrongKleene.all_cons, evaluateAnyOfs, evaluateAnyOf]
    change ∃ later, EStateM.bind (evaluateAllOfs context definitions false anyOf.allOf) _ state = _
    rw [EStateM.bind, first]
    cases anyOf.truth (matchTruth context) with
    | isFalse =>
      refine ⟨between, ?_⟩
      rw [Truth.isFalse_inf, inf_comm, Truth.isFalse_inf]
      rfl
    | unknown =>
      obtain ⟨later, ran⟩ := ih true between
      rw [soFar_inf_unknown]
      exact ⟨later, ran⟩
    | isTrue =>
      obtain ⟨later, ran⟩ := ih indeterminate between
      rw [Truth.isTrue_inf]
      exact ⟨later, ran⟩

/-- `evaluateTarget` answers what the target says. -/
theorem evaluateTarget_eq (target : Option Target) (state : EvalState Payload) :
    ∃ later,
      evaluateTarget context definitions target state =
        .ok (.ofTruth (targetTruth (matchTruth context) target)) later := by
  cases target with
  | none => exact ⟨state, rfl⟩
  | some target =>
    obtain ⟨later, ran⟩ := evaluateAnyOfs_eq context definitions false target.anyOf state
    have settled :
        soFar false .isTrue ⊓
            StrongKleene.all (target.anyOf.map (AnyOf.truth (matchTruth context))) =
          targetTruth (matchTruth context) (some target) :=
      Truth.isTrue_inf _
    rw [settled] at ran
    exact ⟨later, ran⟩

end

/-- Where a target is evaluated: the context, the variables and what was
evaluated before. -/
structure TargetSetting (Payload : Type) where
  context : Context Payload
  definitions : Option (List (String × Expression))
  state : EvalState Payload

/-- What `evaluateTarget` answers, where it does not throw. -/
def targetAnswer (setting : TargetSetting Payload) (target : Option Target) : Option MatchResult :=
  match
    evaluateTarget setting.context setting.definitions target
      setting.state with
  | .ok result _ => some result
  | .error _ _ => none

/-- Two settings with the same tables, in which every designator finds the same
values in some order. -/
def SameBags (setting other : TargetSetting Payload) : Prop :=
  setting.context.library = other.context.library ∧
    ∀ sought,
      SameValues (resolveDesignator setting.context sought) (resolveDesignator other.context sought)

/-- The order of the values is nothing to a match. -/
theorem matchTruth_sameBags {setting other : TargetSetting Payload}
    (sameBags : SameBags setting other) (match_ : Match) :
    matchTruth setting.context match_ = matchTruth other.context match_ := by
  obtain ⟨sameLibrary, sameValues⟩ := sameBags
  unfold matchTruth matchOutcome
  rw [← sameLibrary]
  cases setting.context.library.lookup match_.matchId with
  | none => rfl
  | some callee =>
    cases match_.reference with
    | selector dataType => rfl
    | designator sought =>
      have same := sameValues sought
      simp only
      cases first : resolveDesignator setting.context sought with
      | error failure =>
        cases second : resolveDesignator other.context sought with
        | error failure' => rfl
        | ok bag => simp [SameValues, first, second] at same
      | ok bag =>
        cases second : resolveDesignator other.context sought with
        | error failure' => simp [SameValues, first, second] at same
        | ok bag' =>
          simp only [SameValues, first, second] at same
          obtain ⟨sameType, permuted⟩ := same
          cases setting.context.library.parseValue match_.value.type
              match_.value.lexical with
          | error failure => rfl
          | ok literal =>
            change
              truthOf
                  (matchValues callee
                    (Bag.singleton match_.value.type literal)
                    bag.type none bag.values) =
                truthOf
                  (matchValues callee
                    (Bag.singleton match_.value.type literal)
                    bag'.type none bag'.values)
            rw [truthOf_matchValues, truthOf_matchValues, sameType,
              StrongKleene.any_perm (permuted.map _)]

/-- The JavaScript engine's targets. -/
theorem targetAnswer_strongly :
    AnswersStrongly
      (fun setting : TargetSetting Payload => matchTruth setting.context)
      SameBags targetAnswer := by
  refine AnswersStrongly.ofExactly ?_ ?_
  · intro setting target
    obtain ⟨later, ran⟩ :=
      evaluateTarget_eq setting.context setting.definitions target setting.state
    rw [targetAnswer, ran]
  · intro setting other sameBags match_
    exact matchTruth_sameBags sameBags match_

end Node

/-! ## The Rust engine -/

namespace Rust

open Node (Failure isTrue syntaxError processingError)

variable {Payload : Type}

/-- What the targets of the Rust engine are evaluated with: `functions.get` and
`invoke`, and `evaluate_expression`. -/
structure Evaluator (Payload : Type) where
  functions : String → Option (List (Bag Payload) → Except Failure (Bag Payload))
  evaluateExpression : Expression → Except Failure (Bag Payload)

/-- The loop of `evaluate_match`. -/
def matchValues (invoke : List (Bag Payload) → Except Failure (Bag Payload))
    (literal : Bag Payload) (type : String) :
    Option Failure → List (Value Payload) → Except Failure Bool
  | none, [] => .ok false
  | some error, [] => .error error
  | firstError, value :: rest =>
    match invoke [literal, Bag.singleton type value] with
    | .ok result =>
      if isTrue result then
        .ok true
      else
        matchValues invoke literal type firstError rest
    | .error failure => matchValues invoke literal type (some (firstError.getD failure)) rest

/-- `evaluate_match`. -/
def evaluateMatch (evaluator : Evaluator Payload) (matched : Match) : Except Failure Bool :=
  match evaluator.functions matched.matchId with
  | none => .error (syntaxError ("Unknown match function \"" ++ matched.matchId ++ "\"."))
  | some invoke => do
    let attributeBag ←
      evaluator.evaluateExpression matched.reference.expression
    let literal ← evaluator.evaluateExpression (.value matched.value)
    matchValues invoke literal attributeBag.type none attributeBag.values

/-- The loop of `evaluate_all_of`. -/
def evaluateMatches (evaluator : Evaluator Payload) :
    Option Failure → List Match → MatchResult × Option Failure
  | none, [] => (.isMatch, none)
  | some error, [] => (.indeterminate, some error)
  | error, matched :: rest =>
    match evaluateMatch evaluator matched with
    | .ok false => (.noMatch, none)
    | .ok true => evaluateMatches evaluator error rest
    | .error failure => evaluateMatches evaluator (some (error.getD failure)) rest

/-- `evaluate_all_of`. -/
def evaluateAllOf (evaluator : Evaluator Payload) (allOf : AllOf) : MatchResult × Option Failure :=
  evaluateMatches evaluator none allOf.allMatches

/-- The loop of `evaluate_any_of`. -/
def evaluateAllOfs (evaluator : Evaluator Payload) :
    Option Failure → Bool → List AllOf → MatchResult × Option Failure
  | error, indeterminate, [] => if indeterminate then (.indeterminate, error) else (.noMatch, none)
  | error, indeterminate, allOf :: rest =>
    match evaluateAllOf evaluator allOf with
    | (.isMatch, _) => (.isMatch, none)
    | (.indeterminate, failure) => evaluateAllOfs evaluator (error.or failure) true rest
    | (.noMatch, _) => evaluateAllOfs evaluator error indeterminate rest

/-- `evaluate_any_of`. -/
def evaluateAnyOf (evaluator : Evaluator Payload) (anyOf : AnyOf) : MatchResult × Option Failure :=
  evaluateAllOfs evaluator none false anyOf.allOf

/-- The error a target is left with that has none of its own. -/
def targetFailure : Failure := processingError "A <Target> could not be evaluated."

/-- The loop of `evaluate_target`. -/
def evaluateAnyOfs (evaluator : Evaluator Payload) :
    Option Failure → List AnyOf → MatchResult × Option Failure
  | none, [] => (.isMatch, none)
  | some error, [] => (.indeterminate, some error)
  | error, anyOf :: rest =>
    match evaluateAnyOf evaluator anyOf with
    | (.noMatch, _) => (.noMatch, none)
    | (.indeterminate, failure) =>
      evaluateAnyOfs evaluator ((error.or failure).or (some targetFailure)) rest
    | (.isMatch, _) => evaluateAnyOfs evaluator error rest

/-- `evaluate_target`. -/
def evaluateTarget (evaluator : Evaluator Payload)
    (target : Option Target) : MatchResult × Option Failure :=
  match target with
  | none => (.isMatch, none)
  | some target => evaluateAnyOfs evaluator none target.anyOf

/-- What applying a match's function to one value of the bag says. -/
def valueTruth (invoke : List (Bag Payload) → Except Failure (Bag Payload))
    (literal : Bag Payload) (type : String)
    (value : Value Payload) : Truth :=
  match invoke [literal, Bag.singleton type value] with
  | .ok result => if isTrue result then .isTrue else .isFalse
  | .error _ => .unknown

/-- A match is a disjunction over the values of its bag. -/
theorem truthOf_matchValues (invoke : List (Bag Payload) → Except Failure (Bag Payload))
    (literal : Bag Payload) (type : String) (firstError : Option Failure)
    (values : List (Value Payload)) :
    truthOf (matchValues invoke literal type firstError values) =
      soFar firstError.isSome .isFalse ⊔
        StrongKleene.any (values.map (valueTruth invoke literal type)) := by
  induction values generalizing firstError with
  | nil => cases firstError <;> rfl
  | cons value rest ih =>
    rw [map_cons, StrongKleene.any_cons, valueTruth]
    cases applied : invoke [literal, Bag.singleton type value] with
    | error failure =>
      have remembered :
          matchValues invoke literal type firstError (value :: rest) =
            matchValues invoke literal type (some (firstError.getD failure)) rest := by
        cases firstError <;> simp [matchValues, applied]
      rw [remembered, ih, soFar_sup_unknown]
      rfl
    | ok result =>
      cases holds : isTrue result with
      | true =>
        have matched : matchValues invoke literal type firstError (value :: rest) = .ok true := by
          cases firstError <;> simp [matchValues, applied, holds]
        rw [matched]
        simp only [holds, if_true, Truth.isTrue_sup]
        rw [sup_comm, Truth.isTrue_sup]
        rfl
      | false =>
        have passed :
            matchValues invoke literal type firstError (value :: rest) =
              matchValues invoke literal type firstError rest := by
          cases firstError <;> simp [matchValues, applied, holds]
        rw [passed, ih]
        simp [holds]

/-- The matches of an evaluator as truth values. -/
def matchTruth (evaluator : Evaluator Payload) (match_ : Match) : Truth :=
  truthOf (evaluateMatch evaluator match_)

section

variable (evaluator : Evaluator Payload)

variable (error : Option Failure)

theorem evaluateMatches_eq (allMatches : List Match) :
    (evaluateMatches evaluator error allMatches).1 =
      .ofTruth
        (soFar error.isSome .isTrue ⊓
          StrongKleene.all (allMatches.map (matchTruth evaluator))) := by
  induction allMatches generalizing error with
  | nil => cases error <;> rfl
  | cons match_ rest ih =>
    rw [map_cons, StrongKleene.all_cons, matchTruth]
    cases answered : evaluateMatch evaluator match_ with
    | error failure =>
      have remembered :
          evaluateMatches evaluator error (match_ :: rest) =
            evaluateMatches evaluator (some (error.getD failure)) rest := by
        cases error <;> simp [evaluateMatches, answered]
      rw [remembered, ih, truthOf, soFar_inf_unknown]
      rfl
    | ok matched =>
      cases matched with
      | false =>
        have settled : evaluateMatches evaluator error (match_ :: rest) = (.noMatch, none) := by
          cases error <;> simp [evaluateMatches, answered]
        rw [settled, truthOf, Truth.isFalse_inf, inf_comm, Truth.isFalse_inf]
        rfl
      | true =>
        have passed :
            evaluateMatches evaluator error (match_ :: rest) =
              evaluateMatches evaluator error rest := by
          cases error <;> simp [evaluateMatches, answered]
        rw [passed, ih, truthOf, Truth.isTrue_inf]

theorem evaluateAllOfs_eq (indeterminate : Bool) (allOfs : List AllOf) :
    (evaluateAllOfs evaluator error indeterminate allOfs).1 =
      .ofTruth
        (soFar indeterminate .isFalse ⊔
          StrongKleene.any (allOfs.map (AllOf.truth (matchTruth evaluator)))) := by
  induction allOfs generalizing error indeterminate with
  | nil => cases indeterminate <;> rfl
  | cons allOf rest ih =>
    have first :
        (evaluateAllOf evaluator allOf).1 = .ofTruth (allOf.truth (matchTruth evaluator)) := by
      rw [evaluateAllOf, evaluateMatches_eq]
      exact congrArg MatchResult.ofTruth (Truth.isTrue_inf _)
    rw [map_cons, StrongKleene.any_cons, evaluateAllOfs]
    cases answered : evaluateAllOf evaluator allOf with
    | mk result failure =>
      rw [answered] at first
      cases said : allOf.truth (matchTruth evaluator) with
      | isTrue =>
        rw [said] at first
        obtain rfl : result = .isMatch := first
        simp only
        rw [Truth.isTrue_sup, sup_comm, Truth.isTrue_sup]
        rfl
      | unknown =>
        rw [said] at first
        obtain rfl : result = .indeterminate := first
        simp only
        rw [ih, soFar_sup_unknown]
      | isFalse =>
        rw [said] at first
        obtain rfl : result = .noMatch := first
        simp only
        rw [ih, Truth.isFalse_sup]

theorem evaluateAnyOfs_eq (anyOfs : List AnyOf) :
    (evaluateAnyOfs evaluator error anyOfs).1 =
      .ofTruth
        (soFar error.isSome .isTrue ⊓
          StrongKleene.all (anyOfs.map (AnyOf.truth (matchTruth evaluator)))) := by
  induction anyOfs generalizing error with
  | nil => cases error <;> rfl
  | cons anyOf rest ih =>
    have first :
        (evaluateAnyOf evaluator anyOf).1 = .ofTruth (anyOf.truth (matchTruth evaluator)) := by
      rw [evaluateAnyOf, evaluateAllOfs_eq]
      exact congrArg MatchResult.ofTruth (Truth.isFalse_sup _)
    rw [map_cons, StrongKleene.all_cons]
    cases answered : evaluateAnyOf evaluator anyOf with
    | mk result failure =>
      rw [answered] at first
      cases said : anyOf.truth (matchTruth evaluator) with
      | isFalse =>
        rw [said] at first
        obtain rfl : result = .noMatch := first
        have settled : evaluateAnyOfs evaluator error (anyOf :: rest) = (.noMatch, none) := by
          cases error <;> simp [evaluateAnyOfs, answered]
        rw [settled, Truth.isFalse_inf, inf_comm, Truth.isFalse_inf]
        rfl
      | unknown =>
        rw [said] at first
        obtain rfl : result = .indeterminate := first
        have remembered :
            evaluateAnyOfs evaluator error (anyOf :: rest) =
              evaluateAnyOfs evaluator ((error.or failure).or (some targetFailure)) rest := by
          cases error <;> simp [evaluateAnyOfs, answered]
        have isSome :
            ((error.or failure).or (some targetFailure)).isSome =
              true := by
          cases error.or failure <;> rfl
        rw [remembered, ih, isSome, soFar_inf_unknown]
      | isTrue =>
        rw [said] at first
        obtain rfl : result = .isMatch := first
        have passed :
            evaluateAnyOfs evaluator error (anyOf :: rest) =
              evaluateAnyOfs evaluator error rest := by
          cases error <;> simp [evaluateAnyOfs, answered]
        rw [passed, ih, Truth.isTrue_inf]

/-- `evaluate_target` answers what the target says. -/
theorem evaluateTarget_eq (target : Option Target) :
    (evaluateTarget evaluator target).1 = .ofTruth (targetTruth (matchTruth evaluator) target) := by
  cases target with
  | none => rfl
  | some target =>
    rw [evaluateTarget, evaluateAnyOfs_eq]
    exact congrArg MatchResult.ofTruth (Truth.isTrue_inf _)

end

/-- What `evaluate_target` answers. -/
def targetAnswer (evaluator : Evaluator Payload) (target : Option Target) : Option MatchResult :=
  some (evaluateTarget evaluator target).1

/-- Two evaluators with the same tables, in which every reference finds the same
values in some order. -/
def SameBags (evaluator other : Evaluator Payload) : Prop :=
  evaluator.functions = other.functions ∧
    (∀ literal,
      evaluator.evaluateExpression (.value literal) = other.evaluateExpression (.value literal)) ∧
    ∀ reference : MatchReference,
      SameValues (evaluator.evaluateExpression reference.expression)
        (other.evaluateExpression reference.expression)

/-- The order of the values is nothing to a match. -/
theorem matchTruth_sameBags {evaluator other : Evaluator Payload}
    (sameBags : SameBags evaluator other) (match_ : Match) :
    matchTruth evaluator match_ = matchTruth other match_ := by
  obtain ⟨sameFunctions, sameLiterals, sameValues⟩ := sameBags
  unfold matchTruth evaluateMatch
  rw [← sameFunctions, ← sameLiterals]
  cases evaluator.functions match_.matchId with
  | none => rfl
  | some invoke =>
    have same := sameValues match_.reference
    simp only
    cases first :
        evaluator.evaluateExpression match_.reference.expression with
    | error failure =>
      cases second :
          other.evaluateExpression match_.reference.expression with
      | error failure' => rfl
      | ok bag => simp [SameValues, first, second] at same
    | ok bag =>
      cases second :
          other.evaluateExpression match_.reference.expression with
      | error failure' => simp [SameValues, first, second] at same
      | ok bag' =>
        simp only [SameValues, first, second] at same
        obtain ⟨sameType, permuted⟩ := same
        cases evaluator.evaluateExpression (.value match_.value) with
        | error failure => rfl
        | ok literal =>
          change
            truthOf
                (matchValues invoke literal bag.type none bag.values) =
              truthOf (matchValues invoke literal bag'.type none bag'.values)
          rw [truthOf_matchValues, truthOf_matchValues, sameType,
            StrongKleene.any_perm (permuted.map _)]

/-- The Rust engine's targets. -/
theorem targetAnswer_strongly : AnswersStrongly (@matchTruth Payload) SameBags targetAnswer := by
  refine AnswersStrongly.ofExactly ?_ ?_
  · intro evaluator target
    rw [targetAnswer, evaluateTarget_eq]
  · intro evaluator other sameBags match_
    exact matchTruth_sameBags sameBags match_

end Rust

/-- Both engines answer targets as strong three-valued logic does. -/
theorem targets_answer_strongly (Payload : Type) :
    AnswersStrongly
        (fun setting : Node.TargetSetting Payload => Node.matchTruth setting.context)
        Node.SameBags Node.targetAnswer ∧
      AnswersStrongly (@Rust.matchTruth Payload) Rust.SameBags Rust.targetAnswer :=
  ⟨Node.targetAnswer_strongly, Rust.targetAnswer_strongly⟩

end IyaSts.Xacml
