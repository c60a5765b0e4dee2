import IyaSts.XacmlVariablesExpand

namespace IyaSts.Xacml.Node

/-!
# A variable is its definition, expanded

What a reference answers is compared with the expansion of the reference: its
definition, evaluated with its own references expanded, and an error where the
variable's definition is already being expanded.
-/

open List

section

variable {Payload : Type}

/-! ## Expansion -/

/-- The definitions that are not being expanded. -/
def unmarked (defined : List (String × Expression)) (path : List String) : List String :=
  (defined.map Prod.fst).filter (· ∉ path)

variable {defined : List (String × Expression)} {path : List String} {id : String}
    {definition : Expression} {surroundings : Surroundings Payload} {memo : Memo Payload}
    {α β : Type} {resolve : String → Except Failure (Bag Payload)}
    {result : EStateM.Result Failure (Memo Payload) α}

/-- A definition that is expanded is one less to expand. -/
theorem unmarked_cons_lt (isDefined : defined.lookup id = some definition) (notOnPath : id ∉ path) :
    (unmarked defined (id :: path)).length < (unmarked defined path).length := by
  obtain ⟨before, after, shape, _⟩ := lookup_eq_some_iff.mp isDefined
  have isName : id ∈ unmarked defined path := by simp [unmarked, shape, notOnPath]
  have fewer : unmarked defined (id :: path) = (unmarked defined path).filter (· ≠ id) := by
    simp only [unmarked, filter_filter, mem_cons, not_or, Bool.decide_and]
  rw [fewer]
  exact length_filter_lt_length_iff_exists.mpr ⟨id, isName, by simp⟩

/--
A reference with its definition in its place.  The path is the variables whose
definitions are being expanded, each of which the one after it refers to by a
reference that is evaluated; a variable on the path has so reached itself.
-/
def expanded (surroundings : Surroundings Payload) (defined : List (String × Expression))
    (path : List String) (id : String) :
    Except Failure (Bag Payload) :=
  match _isDefined : defined.lookup id with
  | none => .error (undefinedVariable id)
  | some definition =>
    if _onPath : id ∈ path then
      .error (cyclicVariable id)
    else
      evaluateExpression
        (surroundings.reader (expanded surroundings defined (id :: path)))
        definition
termination_by (unmarked defined path).length
decreasing_by exact unmarked_cons_lt _isDefined _onPath

/-- An expression with its references expanded. -/
def expansion (surroundings : Surroundings Payload) (defined : List (String × Expression))
    (expression : Expression) :
    Except Failure (Bag Payload) :=
  evaluateExpression (surroundings.reader (expanded surroundings defined [])) expression

/-- What remembered values answer of a reference. -/
def remembered (memo : Memo Payload) (id : String) : Except Failure (Bag Payload) :=
  match memo.lookup id with
  | some value => .ok value
  | none => .error (undefinedVariable id)

/-! ## Evaluations that ask for their variables -/

/-- Evaluations that are told later what a variable is. -/
abbrev Asking (Payload : Type) := ReaderT (String → Except Failure (Bag Payload)) (Except Failure)

/-- Asking for a variable. -/
def asked (id : String) : Asking Payload (Bag Payload) := fun resolve => resolve id

/-- Being told is evaluating with what is told. -/
def told (resolve : String → Except Failure (Bag Payload)) :
    Correspondence (Asking Payload) (Except Failure) where
  Holds := fun asking evaluated => asking resolve = evaluated
  pure := fun _ => rfl
  throw := fun _ => rfl
  bind := by
    intro α β first second next after same sameAfter
    change (first resolve >>= fun value => next value resolve) = second >>= after
    rw [same]
    cases second with
    | error failure => rfl
    | ok value => exact sameAfter value

theorem evaluateExpression_asked (surroundings : Surroundings Payload)
    (resolve : String → Except Failure (Bag Payload)) (expression : Expression) :
    evaluateExpression (surroundings.reader asked) expression resolve =
      evaluateExpression (surroundings.reader resolve) expression :=
  (told resolve).evaluateExpression surroundings asked resolve expression fun _ _ => rfl

/-- An evaluation that answers answers the same with more to go by. -/
def refined : Correspondence (Except Failure) (Except Failure) where
  Holds := fun first second => ∀ value, first = .ok value → second = .ok value
  pure := fun _ _ answers => answers
  throw := fun _ _ answers => by cases answers
  bind := by
    intro α β first second next after refines refinesAfter value answers
    cases isFirst : first with
    | error failure =>
      rw [isFirst] at answers
      cases answers
    | ok found =>
      rw [isFirst] at answers
      rw [refines found isFirst]
      exact refinesAfter found value answers

/-! ## What is remembered -/

/--
Remembered values are the newest first, and each was evaluated with those that
were remembered before it.
-/
inductive Founded (surroundings : Surroundings Payload)
    (defined : List (String × Expression)) : Memo Payload → Prop where
  | empty : Founded surroundings defined []
  | remember
      {memo : Memo Payload}
      {id : String}
      {definition : Expression}
      {value : Bag Payload}
      (isNew : memo.lookup id = none)
      (isDefined : defined.lookup id = some definition)
      (answers : evaluateExpression (surroundings.reader (remembered memo)) definition = .ok value)
      (founded : Founded surroundings defined memo) :
      Founded surroundings defined ((id, value) :: memo)

/-- What holds of the memory while the variables of a path are in progress. -/
structure Sound (surroundings : Surroundings Payload)
    (defined : List (String × Expression)) (path : List String)
    (memo : Memo Payload) : Prop where
  founded : Founded surroundings defined memo
  unfinished : ∀ id ∈ path, memo.lookup id = none

/-- Nothing that was remembered is forgotten. -/
def Keeps (memo later : Memo Payload) : Prop :=
  ∀ id value, memo.lookup id = some value → later.lookup id = some value

theorem Keeps.refl (memo : Memo Payload) : Keeps memo memo := fun _ _ found => found

theorem Keeps.trans {memo later latest : Memo Payload} (first : Keeps memo later)
    (second : Keeps later latest) :
    Keeps memo latest :=
  fun id value found => second id value (first id value found)

/-- Remembering another variable keeps the rest. -/
theorem Keeps.remember {memo : Memo Payload} {id : String} (isNew : memo.lookup id = none)
    (value : Bag Payload) :
    Keeps memo ((id, value) :: memo) := by
  intro other held found
  have isOther : (other == id) = false := by
    rw [beq_eq_false_iff_ne]
    rintro rfl
    rw [isNew] at found
    cases found
  simpa [lookup_cons, isOther] using found

/-- The references of a definition that is expanded. -/
theorem expanded_eq (surroundings : Surroundings Payload)
    (isDefined : defined.lookup id = some definition) (notOnPath : id ∉ path) :
    expanded surroundings defined path id =
      evaluateExpression
        (surroundings.reader (expanded surroundings defined (id :: path)))
        definition := by
  rw [expanded]
  split
  · rename_i notDefined
    rw [isDefined] at notDefined
    cases notDefined
  · rename_i found isFound
    rw [isDefined] at isFound
    cases isFound
    rw [dif_neg notOnPath]

theorem expanded_cyclic (surroundings : Surroundings Payload)
    (isDefined : defined.lookup id = some definition) (onPath : id ∈ path) :
    expanded surroundings defined path id = .error (cyclicVariable id) := by
  rw [expanded]
  split
  · rename_i notDefined
    rw [isDefined] at notDefined
    cases notDefined
  · rw [dif_pos onPath]

theorem expanded_undefined (surroundings : Surroundings Payload) (path : List String)
    (notDefined : defined.lookup id = none) :
    expanded surroundings defined path id = .error (undefinedVariable id) := by
  rw [expanded]
  split
  · rfl
  · rename_i found isFound
    rw [notDefined] at isFound
    cases isFound

/-- A remembered value is what expanding its variable answers. -/
theorem Founded.expanded (founded : Founded surroundings defined memo) :
    ∀ path : List String,
      (∀ id ∈ path, memo.lookup id = none) →
        ∀ id value, memo.lookup id = some value →
          Node.expanded surroundings defined path id = .ok value := by
  induction founded with
  | empty =>
    intro path unfinished id value found
    cases found
  | @remember memo newest definition newValue isNew isDefined answers founded
      ih =>
    intro path unfinished id value found
    have olderUnfinished : ∀ other ∈ path, memo.lookup other = none := by
      intro other onPath
      have notHeld := unfinished other onPath
      rw [lookup_cons] at notHeld
      split at notHeld
      · cases notHeld
      · exact notHeld
    by_cases isNewest : id = newest
    · subst isNewest
      have isValue : newValue = value := by simpa using found
      subst isValue
      have notOnPath : id ∉ path := by
        intro onPath
        have notHeld := unfinished id onPath
        simp at notHeld
      rw [expanded_eq surroundings isDefined notOnPath]
      -- The tail was remembered with nothing of the longer path in it.
      have longerUnfinished : ∀ other ∈ id :: path, memo.lookup other = none := by
        intro other onPath
        rcases mem_cons.mp onPath with rfl | onPath
        · exact isNew
        · exact olderUnfinished other onPath
      refine refined.evaluateExpression surroundings (remembered memo)
        (Node.expanded surroundings defined (id :: path)) definition ?_
        newValue answers
      intro other _ held answered
      unfold remembered at answered
      cases looked : memo.lookup other with
      | none =>
        rw [looked] at answered
        cases answered
      | some known =>
        rw [looked] at answered
        cases answered
        exact ih (id :: path) longerUnfinished other held looked
    · have isOther : (id == newest) = false := by simpa using isNewest
      rw [lookup_cons, isOther] at found
      exact ih path olderUnfinished id value found

/-! ## Remembering agrees with expanding -/

/-- What a step must have done with the memory, beside an evaluation that is
told what the variables of a path expand to. -/
def Outcome (surroundings : Surroundings Payload) (defined : List (String × Expression))
    (path : List String) (memo : Memo Payload) {α : Type} (asking : Asking Payload α) :
    EStateM.Result Failure (Memo Payload) α → Prop
  | .ok value later =>
    asking (expanded surroundings defined path) = .ok value ∧
      Sound surroundings defined path later ∧
      Keeps memo later ∧
      ∀ latest, Keeps later latest → asking (remembered latest) = .ok value
  | .error failure later =>
    asking (expanded surroundings defined path) = .error failure ∧
      Sound surroundings defined path later ∧
      Keeps memo later

/-- A step that does so from every sound memory. -/
def Agrees (surroundings : Surroundings Payload) (defined : List (String × Expression))
    (path : List String) {α : Type} (step : VariableM Payload α)
    (asking : Asking Payload α) : Prop :=
  ∀ memo, Sound surroundings defined path memo →
    Outcome surroundings defined path memo asking (step memo)

theorem Agrees.pure (value : α) :
    Agrees surroundings defined path (Pure.pure value) (Pure.pure value) :=
  fun memo sound => ⟨rfl, sound, Keeps.refl memo, fun _ _ => rfl⟩

theorem Agrees.throw (failure : Failure) :
    Agrees surroundings defined path
      (MonadExcept.throw failure : VariableM Payload α)
      (MonadExcept.throw failure) :=
  fun memo sound => ⟨rfl, sound, Keeps.refl memo⟩

variable {asking : Asking Payload α}

variable (after : α → Asking Payload β)

/-- What is asked for after what was answered. -/
theorem asking_bind {value : α} (answers : asking resolve = .ok value) :
    (asking >>= after) resolve = after value resolve := by
  change (asking resolve >>= fun value => after value resolve) = _
  rw [answers]
  rfl

theorem asking_bind_error {failure : Failure} (fails : asking resolve = .error failure) :
    (asking >>= after) resolve = .error failure := by
  change (asking resolve >>= fun value => after value resolve) = _
  rw [fails]
  rfl

theorem Agrees.bind {first : VariableM Payload α} {second : Asking Payload α}
    {next : α → VariableM Payload β} {after : α → Asking Payload β}
    (agrees : Agrees surroundings defined path first second)
    (agreesAfter : ∀ value, Agrees surroundings defined path (next value) (after value)) :
    Agrees surroundings defined path (first >>= next) (second >>= after) := by
  intro memo sound
  have firstAgrees := agrees memo sound
  cases isFirst : first memo with
  | error failure later =>
    have run : (first >>= next) memo = .error failure later := by
      change EStateM.bind first next memo = _
      rw [EStateM.bind, isFirst]
    rw [isFirst] at firstAgrees
    obtain ⟨fails, laterSound, keeps⟩ := firstAgrees
    rw [run]
    exact ⟨asking_bind_error after fails, laterSound, keeps⟩
  | ok value later =>
    have run : (first >>= next) memo = next value later := by
      change EStateM.bind first next memo = _
      rw [EStateM.bind, isFirst]
    rw [isFirst] at firstAgrees
    obtain ⟨answers, laterSound, keeps, kept⟩ := firstAgrees
    have afterAgrees := agreesAfter value later laterSound
    rw [run]
    cases isNext : next value later with
    | error failure latest =>
      rw [isNext] at afterAgrees
      obtain ⟨fails, latestSound, keepsAfter⟩ := afterAgrees
      exact ⟨(asking_bind after answers).trans fails, latestSound, keeps.trans keepsAfter⟩
    | ok answer latest =>
      rw [isNext] at afterAgrees
      obtain ⟨answersAfter, latestSound, keepsAfter, keptAfter⟩ := afterAgrees
      refine ⟨(asking_bind after answers).trans answersAfter, latestSound,
        keeps.trans keepsAfter, ?_⟩
      intro final keepsFinal
      have keptFirst := kept final (keepsAfter.trans keepsFinal)
      exact (asking_bind after keptFirst).trans (keptAfter final keepsFinal)

/-- Agreement, as a relation of evaluations. -/
def agreement (surroundings : Surroundings Payload) (defined : List (String × Expression))
    (path : List String) :
    Correspondence (VariableM Payload) (Asking Payload) where
  Holds := Agrees surroundings defined path
  pure := Agrees.pure
  throw := Agrees.throw
  bind := Agrees.bind

/-- Definitions that neither are nor use a name every object inherits. -/
structure Plain (defined : List (String × Expression)) : Prop where
  names : ∀ entry ∈ defined, ¬ JsObject.Inherited entry.1
  references : ∀ entry ∈ defined, ∀ id ∈ references entry.2, ¬ JsObject.Inherited id

/-- Nothing is remembered of a variable that is in progress. -/
theorem Sound.descend (sound : Sound surroundings defined path memo)
    (isNew : memo.lookup id = none) :
    Sound surroundings defined (id :: path) memo where
  founded := sound.founded
  unfinished := by
    intro other onPath
    rcases mem_cons.mp onPath with rfl | onPath
    · exact isNew
    · exact sound.unfinished other onPath

/-- A variable that failed is no longer in progress. -/
theorem Sound.ascend (sound : Sound surroundings defined (id :: path) memo) :
    Sound surroundings defined path memo where
  founded := sound.founded
  unfinished := fun other onPath => sound.unfinished other (mem_cons_of_mem _ onPath)

/-- When a variable is finished, what it was is remembered. -/
theorem Sound.finish {value : Bag Payload} (sound : Sound surroundings defined (id :: path) memo)
    (notOnPath : id ∉ path) (isDefined : defined.lookup id = some definition)
    (answers : evaluateExpression (surroundings.reader (remembered memo)) definition = .ok value) :
    Sound surroundings defined path ((id, value) :: memo) where
  founded := .remember (sound.unfinished id mem_cons_self) isDefined answers sound.founded
  unfinished := by
    intro other onPath
    have isOther : (other == id) = false := by
      rw [beq_eq_false_iff_ne]
      rintro rfl
      exact notOnPath onPath
    rw [lookup_cons, isOther]
    exact sound.unfinished other (mem_cons_of_mem _ onPath)

/-! ## What resolving a defined variable does -/

section

variable
  {surroundings : Surroundings Payload}
  {defined : List (String × Expression)}
  {stack : Nat}
  {path : List String}
  {id : String}
  {definition : Expression}
  {memo : Memo Payload}

theorem get_eq {ε σ : Type} (state : σ) : (get : EStateM ε σ σ) state = .ok state state := rfl

variable {value : Bag Payload} {later : Memo Payload}

theorem resolveVariable_held (isDefined : JsObject.read defined id = .own definition)
    (isHeld : memo.lookup id = some value) :
    resolveVariable surroundings (some defined) (stack + 1) path id memo = .ok value memo := by
  simp only [resolveVariable, isDefined, bind, EStateM.bind, get_eq, isHeld]
  rfl

theorem resolveVariable_marked (isDefined : JsObject.read defined id = .own definition)
    (isNew : memo.lookup id = none) (isMarked : JsObject.Inherited id ∨ id ∈ path) :
    resolveVariable surroundings (some defined) (stack + 1) path id memo =
      .error (cyclicVariable id) memo := by
  simp only [resolveVariable, isDefined, bind, EStateM.bind, get_eq, isNew, if_pos isMarked]
  rfl

theorem resolveVariable_failed {failure : Failure}
    (isDefined : JsObject.read defined id = .own definition) (isNew : memo.lookup id = none)
    (notMarked : ¬ (JsObject.Inherited id ∨ id ∈ path))
    (fails :
      evaluateExpression
        (surroundings.reader
          (resolveVariable surroundings (some defined) stack (id :: path)))
        definition memo = .error failure later) :
    resolveVariable surroundings (some defined) (stack + 1) path id memo =
      .error failure later := by
  simp only [resolveVariable, isDefined, bind, EStateM.bind, get_eq, isNew, if_neg notMarked, fails]

theorem resolveVariable_remembers (isDefined : JsObject.read defined id = .own definition)
    (isNew : memo.lookup id = none) (notMarked : ¬ (JsObject.Inherited id ∨ id ∈ path))
    (answers :
      evaluateExpression
        (surroundings.reader
          (resolveVariable surroundings (some defined) stack (id :: path)))
        definition memo = .ok value later) :
    resolveVariable surroundings (some defined) (stack + 1) path id memo =
      .ok value ((id, value) :: later) := by
  simp only [resolveVariable, isDefined, bind, EStateM.bind, get_eq,
    isNew, if_neg notMarked, answers]
  rfl

end

/--
With room for the definitions that are not in progress, a reference agrees with
its expansion.  The induction is on the room; what is remembered while the
definition is evaluated is remembered with the variable in progress.
-/
theorem resolveVariable_agrees (surroundings : Surroundings Payload)
    (plain : Plain defined) (stack : Nat) (path : List String)
    (enoughRoom : (unmarked defined path).length < stack) (id : String)
    (isPlain : ¬ JsObject.Inherited id) :
    Agrees surroundings defined path
      (resolveVariable surroundings (some defined) stack path id)
      (asked id) := by
  induction stack generalizing path id with
  | zero => cases enoughRoom
  | succ stack ih =>
    intro memo sound
    have reading := @JsObject.read_of_not_inherited _ defined id isPlain
    cases isDefined : defined.lookup id with
    | none =>
      rw [isDefined] at reading
      have run :
          resolveVariable surroundings (some defined) (stack + 1) path id
              memo = .error (undefinedVariable id) memo := by
        simp only [resolveVariable, reading]
        rfl
      rw [run]
      exact ⟨expanded_undefined surroundings path isDefined, sound, Keeps.refl memo⟩
    | some definition =>
      rw [isDefined] at reading
      cases isHeld : memo.lookup id with
      | some value =>
        rw [resolveVariable_held reading isHeld]
        refine ⟨sound.founded.expanded path sound.unfinished id value
          isHeld, sound, Keeps.refl memo, ?_⟩
        intro latest keeps
        change remembered latest id = .ok value
        rw [remembered, keeps id value isHeld]
      | none =>
        by_cases onPath : id ∈ path
        · rw [resolveVariable_marked reading isHeld (.inr onPath)]
          exact ⟨expanded_cyclic surroundings isDefined onPath, sound, Keeps.refl memo⟩
        · have notMarked := not_or.mpr ⟨isPlain, onPath⟩
          have isEntry := JsObject.mem_of_read_own reading
          have less := unmarked_cons_lt isDefined onPath
          have definitionAgrees :=
            (agreement surroundings defined (id :: path)).evaluateExpression
              surroundings
              (resolveVariable surroundings (some defined) stack (id :: path))
              asked definition
              (fun other isReference =>
                ih (id :: path) (by omega) other
                  (plain.references _ isEntry other isReference))
              memo (sound.descend isHeld)
          cases isEvaluated :
              evaluateExpression
                (surroundings.reader
                  (resolveVariable surroundings (some defined) stack
                    (id :: path))) definition memo with
          | error failure later =>
            rw [isEvaluated] at definitionAgrees
            obtain ⟨fails, laterSound, keeps⟩ := definitionAgrees
            rw [evaluateExpression_asked] at fails
            rw [resolveVariable_failed reading isHeld notMarked isEvaluated]
            exact ⟨(expanded_eq surroundings isDefined onPath).trans
              fails, laterSound.ascend, keeps⟩
          | ok value later =>
            rw [isEvaluated] at definitionAgrees
            obtain ⟨answers, laterSound, keeps, kept⟩ := definitionAgrees
            have isNew := laterSound.unfinished id mem_cons_self
            have fromMemory := kept later (Keeps.refl later)
            rw [evaluateExpression_asked] at answers fromMemory
            rw [resolveVariable_remembers reading isHeld notMarked isEvaluated]
            refine ⟨(expanded_eq surroundings isDefined onPath).trans
                answers,
              laterSound.finish onPath isDefined fromMemory,
              keeps.trans (Keeps.remember isNew value), ?_⟩
            intro latest keepsLatest
            have isRemembered := keepsLatest id value (by simp)
            change remembered latest id = .ok value
            rw [remembered, isRemembered]

/-! ## Whatever was evaluated before -/

theorem unmarked_nil_lt_room (defined : List (String × Expression)) :
    (unmarked defined []).length < room (some defined) := by
  have atMost := length_filter_le (· ∉ ([] : List String)) (defined.map Prod.fst)
  rw [length_map] at atMost
  exact Nat.lt_succ_of_le atMost

/-- With nothing in progress, an expression agrees with its expansion. -/
theorem evaluateWithin_agrees (surroundings : Surroundings Payload)
    (plain : Plain defined) {stack : Nat} (enoughRoom : room (some defined) ≤ stack)
    {expression : Expression}
    (plainExpression : ∀ id ∈ references expression, ¬ JsObject.Inherited id) :
    Agrees surroundings defined []
      (evaluateWithin surroundings (some defined) stack expression)
      (evaluateExpression (surroundings.reader asked) expression) :=
  (agreement surroundings defined []).evaluateExpression surroundings _ asked
    expression fun id isReference =>
      resolveVariable_agrees surroundings plain stack []
        (Nat.lt_of_lt_of_le (unmarked_nil_lt_room defined) enoughRoom) id
        (plainExpression id isReference)

/-- What a step that agrees leaves is sound. -/
theorem Outcome.sound (outcome : Outcome surroundings defined path memo asking result) :
    Sound surroundings defined path (memoOf result) := by
  cases result with
  | ok value later => exact outcome.2.1
  | error failure later => exact outcome.2.1

/-- What it answers is the expansion. -/
theorem Outcome.answer (outcome : Outcome surroundings defined path memo asking result) :
    answerOf result = asking (expanded surroundings defined path) := by
  cases result with
  | ok value later => exact outcome.1.symm
  | error failure later => exact outcome.1.symm

/-- The memory stays sound over a whole decision. -/
theorem memoAfter_sound (surroundings : Surroundings Payload) (plain : Plain defined)
    {earlier : List Expression}
    (plainEarlier : ∀ expression ∈ earlier, ∀ id ∈ references expression, ¬ JsObject.Inherited id) :
    Sound surroundings defined [] (memoAfter surroundings (some defined) earlier) := by
  have run :
      ∀ memo, Sound surroundings defined [] memo →
        Sound surroundings defined []
          (earlier.foldl
            (fun memo expression =>
              memoOf (evaluateWith surroundings (some defined) expression memo))
            memo) := by
    induction earlier with
    | nil => exact fun memo sound => sound
    | cons expression rest ih =>
      intro memo sound
      have step :=
        evaluateWithin_agrees surroundings plain (Nat.le_refl _)
          (plainEarlier expression mem_cons_self) memo sound
      exact ih
        (fun other isLater => plainEarlier other (mem_cons_of_mem _ isLater))
        _ step.sound
  exact run [] ⟨.empty, fun id onPath => by cases onPath⟩

/-- Definitions over given identifiers. -/
def Over (ids : List String) (defined : List (String × Expression)) : Prop :=
  ∀ entry ∈ defined, entry.1 ∈ ids ∧ references entry.2 ⊆ ids

/-- Surroundings without datatypes, attributes or functions of their own. -/
def bareSurroundings : Surroundings Payload where
  library :=
    { parseValue := fun _ _ => .error (plainError "")
      writeValue := fun _ _ => .error (plainError "")
      truthy := fun _ => false
      strict := [] }
  resolveDesignator := fun _ => .error (plainError "")

/-- An expression that is true: `and` of nothing. -/
def always : Expression := .apply (F1 ++ "and") []

/-- It is true wherever its variables are resolved. -/
theorem evaluateExpression_always {m : Type → Type} [Monad m] [MonadExcept Failure m]
    (resolve : String → m (Bag Payload)) :
    evaluateExpression (bareSurroundings.reader resolve) always = pure (Bag.ofBool true) := by
  have found :
      (bareSurroundings : Surroundings Payload).library.lookup (F1 ++ "and") =
        some (.defined (F1 ++ "and") (.lazy .and)) := rfl
  unfold always evaluateExpression Surroundings.reader
  simp only [found]
  rfl

/-- Of a variable by an inherited name, its expansion is what it is defined as. -/
theorem expansion_always (id : String) :
    expansion (bareSurroundings : Surroundings Payload) [(id, always)]
        (.variableRef id) =
      .ok (Bag.ofBool true) := by
  have isDefined : [(id, always)].lookup id = some always := by simp
  change expanded bareSurroundings [(id, always)] [] id = _
  rw [expanded_eq bareSurroundings isDefined (by simp), evaluateExpression_always]
  rfl

/-- But a reference to it is cyclic. -/
theorem evaluateWithin_inherited (isInherited : JsObject.Inherited id) :
    answerOf
        (evaluateWithin (bareSurroundings : Surroundings Payload)
          (some [(id, always)]) (room (some [(id, always)]))
          (.variableRef id) []) =
      .error (cyclicVariable id) := by
  have isDefined : JsObject.read [(id, always)] id = .own always := by simp [JsObject.read]
  have run :
      evaluateWithin (bareSurroundings : Surroundings Payload)
          (some [(id, always)]) (room (some [(id, always)]))
          (.variableRef id) [] =
        .error (cyclicVariable id) [] :=
    resolveVariable_marked isDefined rfl (.inl isInherited)
  rw [run]
  rfl

end

end IyaSts.Xacml.Node
