import IyaSts.XacmlExpressions

namespace IyaSts.Xacml.Node

/-!
# What any-of and all-of quantify over

Which argument is the bag is read off the two sizes when the arguments are there.
Where neither holds exactly one value the first of the second bag is taken for all
of it, and every member is tried where any-of-any stops.
-/

open List

/-! ## Steps that may fail -/

variable {α β ε : Type} {step : α → Except ε β}

variable {values : List α}

/-- Steps that all answer answer together. -/
theorem mapM_eq_ok {answer : α → β} (answers : ∀ value ∈ values, step value = .ok (answer value)) :
    values.mapM step = .ok (values.map answer) := by
  induction values with
  | nil => rfl
  | cons value rest ih =>
    rw [mapM_cons, answers value mem_cons_self,
      ih fun other member => answers other (mem_cons_of_mem _ member)]
    rfl

/-- Steps fail together when one of them does. -/
theorem mapM_error_iff :
    (∃ failure, values.mapM step = .error failure) ↔
      ∃ value ∈ values, ∃ failure, step value = .error failure := by
  induction values with
  | nil =>
    constructor
    · rintro ⟨failure, ⟨⟩⟩
    · rintro ⟨value, member, _⟩
      cases member
  | cons value rest ih =>
    rw [mapM_cons]
    cases first : step value with
    | error failure =>
      constructor
      · intro _
        exact ⟨value, mem_cons_self, failure, first⟩
      · intro _
        exact ⟨failure, rfl⟩
    | ok answer =>
      constructor
      · rintro ⟨failure, failed⟩
        have restFails : ∃ failure, rest.mapM step = .error failure := by
          cases later : rest.mapM step with
          | error other => exact ⟨other, rfl⟩
          | ok answers =>
            rw [later] at failed
            cases failed
        obtain ⟨other, member, fails⟩ := ih.mp restFails
        exact ⟨other, mem_cons_of_mem _ member, fails⟩
      · rintro ⟨other, member, otherFailure, fails⟩
        have inRest : other ∈ rest := by
          rcases mem_cons.mp member with same | inRest
          · rw [same, first] at fails
            cases fails
          · exact inRest
        obtain ⟨failure, restFails⟩ := ih.mpr ⟨other, inRest, otherFailure, fails⟩
        exact ⟨failure, by rw [restFails]; rfl⟩

/-- A step that holds, after ones that do not, is followed by one that fails. -/
def HoldsThenFails {α ε : Type} (step : α → Except ε Bool) (values : List α) : Prop :=
  ∃ before value after,
    values = before ++ value :: after ∧
      (∀ earlier ∈ before, step earlier = .ok false) ∧
      step value = .ok true ∧
      ∃ later ∈ after, ∃ failure, step later = .error failure

theorem holdsThenFails_cons_iff {step : α → Except ε Bool} {value : α} {rest : List α} :
    HoldsThenFails step (value :: rest) ↔
      (step value = .ok true ∧
          ∃ later ∈ rest, ∃ failure, step later = .error failure) ∨
        (step value = .ok false ∧ HoldsThenFails step rest) := by
  constructor
  · rintro ⟨before, holding, after, same, notBefore, holds, fails⟩
    cases before with
    | nil =>
      obtain ⟨rfl, rfl⟩ := List.cons.inj same
      exact Or.inl ⟨holds, fails⟩
    | cons first others =>
      obtain ⟨rfl, rfl⟩ := List.cons.inj same
      exact Or.inr
        ⟨notBefore value mem_cons_self, others, holding, after, rfl,
          fun earlier member =>
            notBefore earlier (mem_cons_of_mem _ member),
          holds, fails⟩
  · rintro (⟨holds, fails⟩ | ⟨holdsNot, before, holding, after, rfl, notBefore, later⟩)
    · exact ⟨[], value, rest, rfl, fun _ member => absurd member not_mem_nil, holds, fails⟩
    · refine ⟨value :: before, holding, after, rfl, ?_, later⟩
      intro earlier member
      rcases mem_cons.mp member with rfl | member
      · exact holdsNot
      · exact notBefore earlier member

/-- Every member tried, and any of them true. -/
def triedAny {α ε : Type} (step : α → Except ε Bool)
    (values : List α) : Except ε Bool := do
  let test ← values.mapM step
  pure (test.any id)

section

variable
  {α ε : Type}
  {step : α → Except ε Bool}
  {value : α}
  {rest : List α}

theorem triedAny_cons_error {failure : ε} (first : step value = .error failure) :
    triedAny step (value :: rest) = .error failure := by
  rw [triedAny, mapM_cons, first]
  rfl

theorem triedAny_cons_false (first : step value = .ok false) :
    triedAny step (value :: rest) = triedAny step rest := by
  rw [triedAny, triedAny, mapM_cons, first]
  cases rest.mapM step <;> rfl

theorem triedAny_cons_true (first : step value = .ok true) :
    triedAny step (value :: rest) = (fun _ => true) <$> rest.mapM step := by
  rw [triedAny, mapM_cons, first]
  cases rest.mapM step <;> rfl

end

/-- Trying every member and stopping at the first that holds answer alike unless
one holds and a later one fails. -/
theorem triedAny_eq_anyM_iff {step : α → Except ε Bool} :
    triedAny step values = values.anyM step ↔ ¬ HoldsThenFails step values := by
  induction values with
  | nil =>
    constructor
    · rintro _ ⟨before, value, after, same, _⟩
      simp at same
    · intro _
      rfl
  | cons value rest ih =>
    rw [holdsThenFails_cons_iff, List.anyM]
    cases first : step value with
    | error failure =>
      rw [triedAny_cons_error first]
      constructor
      · rintro _ (⟨⟨⟩, _⟩ | ⟨⟨⟩, _⟩)
      · intro _
        rfl
    | ok holds =>
      cases holds with
      | false =>
        rw [triedAny_cons_false first]
        have passed :
            triedAny step rest = rest.anyM step ↔
              ¬ ((Except.ok false : Except ε Bool) = .ok true ∧
                    (∃ later ∈ rest, ∃ failure, step later = .error failure) ∨
                  (Except.ok false : Except ε Bool) = .ok false ∧ HoldsThenFails step rest) := by
          rw [ih]
          simp
        exact passed
      | true =>
        rw [triedAny_cons_true first, ← mapM_error_iff]
        cases later : rest.mapM step with
        | error failure =>
          constructor
          · rintro ⟨⟩
          · intro never
            exact absurd (Or.inl ⟨rfl, failure, rfl⟩) never
        | ok answers =>
          constructor
          · rintro _ (⟨_, failure, ⟨⟩⟩ | ⟨⟨⟩, _⟩)
          · intro _
            rfl

/-! ## One against a bag -/

section

variable
  {Payload : Type}
  (library : Library Payload)
  (callee : Callee Payload)

/-- A function applied to a value of each bag. -/
def applied (first second : Bag Payload) (left right : Value Payload) : Except Failure Bool :=
  applyPair library callee (.bag (Bag.singleton first.type left))
    (.bag (Bag.singleton second.type right))

/-- What is taken for all of a bag: its first value. -/
def takenForAll (bag : Bag Payload) : Handed Payload :=
  match bag.values with
  | value :: _ => .bag (Bag.singleton bag.type value)
  | [] => .undefined bag.type

variable {first second : Bag Payload} {value : Value Payload}

/-- The answers of any-of and all-of when the first argument is the value. -/
theorem oneAgainstBag_valueFirst (isValue : first.values = [value])
    (isBag : second.values.length ≠ 1) (quantifier : List Bool → Bool) :
    oneAgainstBag library callee [first, second] quantifier =
      quantifier <$> second.values.mapM (applied library callee first second value) := by
  have chosen : (first.values.length == 1 && second.values.length != 1) = true := by
    simp [isValue, isBag]
  change
    (do
        let test ← (if _ then second else first).values.mapM _
        pure (quantifier test) : Except Failure Bool) = _
  simp only [chosen, if_true]
  simp only [isValue]
  rfl

/-- The answers of any-of and all-of otherwise. -/
theorem oneAgainstBag_bagFirst
    (notValueFirst : ¬ (first.values.length = 1 ∧ second.values.length ≠ 1))
    (quantifier : List Bool → Bool) :
    oneAgainstBag library callee [first, second] quantifier =
      quantifier <$>
        first.values.mapM fun candidate =>
          applyPair library callee
            (.bag (Bag.singleton first.type candidate)) (takenForAll second) := by
  have chosen : (first.values.length == 1 && second.values.length != 1) = false := by
    simpa using notValueFirst
  change
    (do
        let test ← (if _ then second else first).values.mapM _
        pure (quantifier test) : Except Failure Bool) = _
  simp only [chosen, Bool.false_eq_true, if_false]
  rfl

theorem takenForAll_singleton {bag : Bag Payload} (isValue : bag.values = [value]) :
    takenForAll bag = .bag (Bag.singleton bag.type value) := by
  rw [takenForAll, isValue]

/-- A first argument of one value is applied to every member of the second. -/
theorem oneAgainstBag_first (isValue : first.values = [value]) (quantifier : List Bool → Bool) :
    oneAgainstBag library callee [first, second] quantifier =
      quantifier <$> second.values.mapM (applied library callee first second value) := by
  by_cases isBag : second.values.length = 1
  · obtain ⟨other, isOther⟩ := length_eq_one_iff.mp isBag
    rw [oneAgainstBag_bagFirst library callee (fun both => both.2 isBag),
      takenForAll_singleton isOther, isValue, isOther, mapM_cons, mapM_cons]
    rfl
  · exact oneAgainstBag_valueFirst library callee isValue isBag quantifier

/-- Every member of the first argument is applied to a second of one value. -/
theorem oneAgainstBag_second (isValue : second.values = [value]) (quantifier : List Bool → Bool) :
    oneAgainstBag library callee [first, second] quantifier =
      quantifier <$>
        first.values.mapM fun candidate => applied library callee first second candidate value := by
  have isOne : second.values.length = 1 := by
    rw [isValue]
    rfl
  rw [oneAgainstBag_bagFirst library callee (fun both => both.2 isOne),
    takenForAll_singleton isValue]
  rfl

/-- any-of-any with one value on the left tries the other bag in turn. -/
theorem anyOfAny_first (isValue : first.values = [value]) :
    HigherOrder.combine library .anyOfAny callee [first, second] =
      second.values.anyM (applied library callee first second value) := by
  change
    some_ (fun one => some_ (applied library callee first second one)
      second.values) first.values = _
  rw [isValue, some_, List.anyM, some_]
  cases second.values.anyM (applied library callee first second value) with
  | error failure => rfl
  | ok holds => cases holds <;> rfl

/-! ## What they should answer -/

/--
any-of and all-of quantify a function over the bag that is one argument, with the
single value of the other in its own place; they throw where neither holds
exactly one value; any-of with the value first answers what any-of-any does.
-/
structure Quantifies (first second : Bag Payload) : Prop where
  overSecond :
    ∀ value, first.values = [value] →
      ∀ holds : Value Payload → Bool,
        (∀ candidate ∈ second.values,
          applied library callee first second value candidate = .ok (holds candidate)) →
        HigherOrder.combine library .anyOf callee [first, second] =
            .ok (second.values.any holds) ∧
          HigherOrder.combine library .allOf callee [first, second] = .ok (second.values.all holds)
  overFirst :
    ∀ value, second.values = [value] →
      ∀ holds : Value Payload → Bool,
        (∀ candidate ∈ first.values,
          applied library callee first second candidate value = .ok (holds candidate)) →
        HigherOrder.combine library .anyOf callee [first, second] =
            .ok (first.values.any holds) ∧
          HigherOrder.combine library .allOf callee [first, second] = .ok (first.values.all holds)
  neither :
    first.values.length ≠ 1 → second.values.length ≠ 1 →
      (∃ failure,
          HigherOrder.combine library .anyOf callee [first, second] = .error failure) ∧
        ∃ failure, HigherOrder.combine library .allOf callee [first, second] = .error failure
  agree :
    ∀ value, first.values = [value] →
      HigherOrder.combine library .anyOf callee [first, second] =
        HigherOrder.combine library .anyOfAny callee [first, second]

/--
One of the bags holds exactly one value, or the function fails on a member of the
first and what is taken for all of the second; and where the first holds one
value, the function does not fail after it has held.
-/
def QuantifiesWhen (first second : Bag Payload) : Prop :=
  (first.values.length = 1 ∨ second.values.length = 1 ∨
      ∃ candidate ∈ first.values, ∃ failure,
        applyPair library callee (.bag (Bag.singleton first.type candidate))
            (takenForAll second) =
          .error failure) ∧
    ∀ value, first.values = [value] →
      ¬ HoldsThenFails (applied library callee first second value) second.values

variable {library callee}

theorem map_error_iff {α β ε : Type} {answer : α → β} {outcome : Except ε α} :
    (∃ failure, answer <$> outcome = .error failure) ↔ ∃ failure, outcome = .error failure := by
  cases outcome with
  | error failure => exact ⟨fun _ => ⟨failure, rfl⟩, fun _ => ⟨failure, rfl⟩⟩
  | ok value =>
    constructor
    · rintro ⟨failure, ⟨⟩⟩
    · rintro ⟨failure, ⟨⟩⟩

/-- A quantifier over answers that are all there. -/
theorem quantified {step : Value Payload → Except Failure Bool} {holds : Value Payload → Bool}
    {values : List (Value Payload)}
    (answers : ∀ candidate ∈ values, step candidate = .ok (holds candidate)) :
    (·.any id) <$> values.mapM step = .ok (values.any holds) ∧
      (·.all id) <$> values.mapM step = .ok (values.all holds) := by
  rw [mapM_eq_ok answers]
  constructor
  · change Except.ok ((values.map holds).any id) = _
    rw [any_map]
    rfl
  · change Except.ok ((values.map holds).all id) = _
    rw [all_map]
    rfl

/-- any-of and all-of quantify over the bag exactly when that condition holds. -/
theorem anyOf_allOf_quantify_iff {first second : Bag Payload} :
    Quantifies library callee first second ↔ QuantifiesWhen library callee first second := by
  constructor
  · intro quantifies
    refine ⟨?_, ?_⟩
    · by_contra notOne
      rw [not_or, not_or] at notOne
      obtain ⟨notFirst, notSecond, notFails⟩ := notOne
      have throws := (quantifies.neither notFirst notSecond).1
      rw [HigherOrder.combine, oneAgainstBag_bagFirst library callee (fun both => notFirst both.1),
        map_error_iff, mapM_error_iff] at throws
      exact notFails throws
    · intro value isValue
      have agree := quantifies.agree value isValue
      rw [anyOfAny_first library callee isValue, HigherOrder.combine,
        oneAgainstBag_first library callee isValue] at agree
      exact triedAny_eq_anyM_iff.mp agree
  · rintro ⟨oneOrFails, notAfter⟩
    refine
      { overSecond := ?_
        overFirst := ?_
        neither := ?_
        agree := ?_ }
    · intro value isValue holds answers
      rw [HigherOrder.combine, HigherOrder.combine, oneAgainstBag_first library callee isValue,
        oneAgainstBag_first library callee isValue]
      exact quantified answers
    · intro value isValue holds answers
      rw [HigherOrder.combine, HigherOrder.combine, oneAgainstBag_second library callee isValue,
        oneAgainstBag_second library callee isValue]
      exact quantified answers
    · intro notFirst notSecond
      have fails := oneOrFails.resolve_left notFirst |>.resolve_left notSecond
      rw [HigherOrder.combine, HigherOrder.combine,
        oneAgainstBag_bagFirst library callee (fun both => notFirst both.1),
        oneAgainstBag_bagFirst library callee (fun both => notFirst both.1),
        map_error_iff, map_error_iff, mapM_error_iff]
      exact ⟨fails, fails⟩
    · intro value isValue
      rw [anyOfAny_first library callee isValue, HigherOrder.combine,
        oneAgainstBag_first library callee isValue]
      exact triedAny_eq_anyM_iff.mpr (notAfter value isValue)

end

/-- The integers' equality, alone in a library. -/
def integerEqual : StrictFunction Unit where
  args := [.primitive, .primitive]
  variadic := none
  apply arguments :=
    match arguments with
    | [.value (.integer left), .value (.integer right)] => .ok (Bag.ofBool (left == right))
    | _ => .error (processingError "not integers")

/-- A library of that function. -/
def integerLibrary : Library Unit where
  parseValue := fun _ _ => .error (syntaxError "not read here")
  writeValue := fun _ _ => .error (syntaxError "not written here")
  truthy := fun _ => true
  strict := [("integer-equal", integerEqual)]

/-- Of two bags of two the first value of the second is taken for all of it. -/
theorem anyOf_takes_the_first_value :
    ¬ Quantifies integerLibrary
        (.defined "integer-equal" (.strict integerEqual))
        (Bag.ofValues DataType.integer [.integer 1, .integer 2])
        (Bag.ofValues DataType.integer [.integer 1, .integer 3]) := by
  intro quantifies
  obtain ⟨⟨failure, throws⟩, _⟩ := quantifies.neither (by decide) (by decide)
  have answers :
      HigherOrder.combine integerLibrary .anyOf
          (.defined "integer-equal" (.strict integerEqual))
          [Bag.ofValues DataType.integer [.integer 1, .integer 2],
            Bag.ofValues DataType.integer [.integer 1, .integer 3]] =
        .ok true := by
    rfl
  rw [answers] at throws
  cases throws

end IyaSts.Xacml.Node
