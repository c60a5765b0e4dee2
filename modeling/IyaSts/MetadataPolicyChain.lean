import IyaSts.MetadataPolicyMerge

namespace IyaSts.MetadataPolicy

open Json JsObject Fallible

/-!
# Every statement's policy is kept down a chain

What `resolvedMetadata` answers satisfies each Subordinate Statement's own
operators.  It does so unless a policy names an entity type or a parameter
after a property that every object inherits, or gives `scope` values that are
not one word each.
-/

/-! ## What validation keeps of a policy -/

/-- An object that is made of another holds what is made of each value. -/
theorem foldlM_assign {Value Made : Type} (make : String → Value → Result Made)
    {members : List (String × Value)} {out : List (String × Made)}
    (folds :
      (entries members).foldlM
          (fun out entry => do
            let made ← make entry.1 entry.2
            pure (assign out entry.1 made)) [] = .ok out) :
    out.lookup "__proto__" = none ∧
      ∀ name, name ≠ "__proto__" →
        (∀ v, members.lookup name = some v →
          ∃ made, make name v = .ok made ∧ out.lookup name = some made) ∧
          (members.lookup name = none → out.lookup name = none) := by
  have each :=
    foldlM_each lookups
      (fun name v before after =>
        if name = "__proto__" then
          before = none → after = none
        else
          ∃ made, make name v = .ok made ∧ after = some made)
      (nodup_entries members) ?_ folds
  · simp only [lookup_entries, lookups, List.lookup_nil] at each
    constructor
    · cases found : members.lookup "__proto__" with
      | none => exact (each "__proto__").2 found
      | some v => simpa using (each "__proto__").1 v found
    · intro name notProto
      simpa only [notProto, if_false] using each name
  · intro held held' name v _ stepped
    rw [bind_eq_ok_iff] at stepped
    obtain ⟨made, makes, assigned⟩ := stepped
    rw [pure_eq_ok_iff] at assigned
    subst assigned
    refine ⟨fun other isOther => lookup_assign_other held isOther made, ?_⟩
    split
    · rename_i isProto
      subst isProto
      intro notOwn
      simp only [lookups] at notOwn ⊢
      rw [assign_prototype notOwn]
      exact notOwn
    · rename_i notProto
      exact ⟨made, makes, (lookups_assign (.inl notProto) made).2⟩

variable {critical : List String} {place : String}

/-- Validation keeps the operators it understands, and checks their values. -/
theorem validateOperators_spec {ops kept : Members}
    (valid : validateOperators critical place ops = .ok kept) :
    (∀ op, op ∉ operators → kept.lookup op = none) ∧
      ∀ op ∈ operators,
        kept.lookup op = ops.lookup op ∧
          ∀ v, ops.lookup op = some v → operatorValueProblem op v = "" := by
  have each :=
    foldlM_each lookups
      (fun op v before after =>
        if op ∈ operators then
          after = some v ∧ operatorValueProblem op v = ""
        else
          after = before)
      (nodup_entries ops) ?_ valid
  · simp only [lookup_entries, lookups, List.lookup_nil] at each
    constructor
    · intro op notOperator
      cases found : ops.lookup op with
      | none => exact (each op).2 found
      | some v =>
        have changed := (each op).1 v found
        rwa [if_neg notOperator] at changed
    · intro op isOperator
      cases found : ops.lookup op with
      | none => exact ⟨(each op).2 found, fun _ isSome => by cases isSome⟩
      | some v =>
        have changed := (each op).1 v found
        rw [if_pos isOperator] at changed
        refine ⟨changed.1, ?_⟩
        rintro _ ⟨rfl⟩
        exact changed.2
  · intro held held' op v _ stepped
    simp only at stepped
    split at stepped
    · rename_i notOperator
      split at stepped
      · exact absurd stepped (throw_ne_ok _ _)
      · rw [pure_eq_ok_iff] at stepped
        subst stepped
        exact ⟨fun _ _ => rfl, by rw [if_neg notOperator]⟩
    · rename_i isOperator
      rw [not_not] at isOperator
      have notProto : op ≠ "__proto__" := by
        rintro rfl
        exact absurd isOperator (by decide)
      split at stepped
      · exact absurd stepped (throw_ne_ok _ _)
      · rename_i fine
        rw [not_not] at fine
        rw [pure_eq_ok_iff] at stepped
        subst stepped
        obtain ⟨others, isAfter⟩ := lookups_assign (.inl notProto) v
        refine ⟨others, ?_⟩
        rw [if_pos isOperator]
        exact ⟨isAfter, fine⟩

/-- A validated parameter is sound where its words are. -/
theorem validateParameter_spec {ops : Json} {kept : Members}
    (valid : validateParameter critical place ops = .ok kept) :
    ∃ raw,
      membersOf ops = some raw ∧
        Tightens kept raw ∧
          ∀ {name : String} {before : Option Json},
            Worded name raw before → Sound name before kept := by
  cases ops with
  | object identity raw =>
    rw [validateParameter, bind_eq_ok_iff] at valid
    obtain ⟨kept', validOperators, checked⟩ := valid
    simp only at checked
    split at checked
    · exact absurd checked (throw_ne_ok _ _)
    rename_i fine
    rw [not_not] at fine
    rw [pure_eq_ok_iff] at checked
    subst checked
    obtain ⟨unknown, known⟩ := validateOperators_spec validOperators
    refine ⟨raw, rfl, Tightens.of_lookup_eq fun op isOperator => (known op isOperator).1, ?_⟩
    intro name before worded
    refine ⟨unknown _ (by decide), combined_of_fine fine, ?_, ?_⟩
    · intro a isAdd
      rw [(known "add" (by decide)).1] at isAdd
      have typed := (known "add" (by decide)).2 a isAdd
      by_contra notArray
      rw [Bool.not_eq_true] at notArray
      simp [operatorValueProblem, notArray] at typed
    · refine ⟨?_, ?_, ?_⟩
      · intro isScope v found
        rw [(known "value" (by decide)).1] at found
        exact worded.value isScope v found
      · intro isScope v found
        rw [(known "add" (by decide)).1] at found
        exact worded.add isScope v found
      · intro isScope v held found
        rw [(known "subset_of" (by decide)).1] at found
        exact worded.subsetOf isScope v held found
  | _ => exact absurd valid (throw_ne_ok _ _)

/-- A statement's policy for an entity type. -/
def typePolicy (statement : ClaimSet) (type : String) : Option Members := do
  let policy ← statement.metadataPolicy
  let types ← membersOf policy
  let params ← types.lookup type
  membersOf params

/-- A statement's operators for a parameter. -/
def policyAt (statement : ClaimSet) (type name : String) :
    Option Members := do
  let params ← typePolicy statement type
  let ops ← params.lookup name
  membersOf ops

/-- A policy's operators for a parameter. -/
def operatorsAt (policy : Policy) (type name : String) : Option Members :=
  (policy.lookup type).bind fun params => params.lookup name

/-- Validated parameters, against what the statement gives them. -/
structure ValidType (statement : ClaimSet) (type : String)
    (kept : Parameters) : Prop where
  prototype : kept.lookup "__proto__" = none
  named : (typePolicy statement type).isSome = true
  absent : ∀ name, policyAt statement type name = none → kept.lookup name = none
  given :
    ∀ name raw, name ≠ "__proto__" →
      policyAt statement type name = some raw →
      ∃ ops,
        kept.lookup name = some ops ∧
          Tightens ops raw ∧
            ∀ {name : String} {before : Option Json}, Worded name raw before → Sound name before ops

/-- What validation makes of a statement's policy. -/
theorem validate_spec {statement : ClaimSet} {raw : Json} {valid : Policy}
    (isPolicy : statement.metadataPolicy = some raw)
    (validates : validate raw critical = .ok valid) :
    valid.lookup "__proto__" = none ∧
      (∀ type kept, valid.lookup type = some kept →
        ValidType statement type kept) ∧
        ∀ type, type ≠ "__proto__" →
          (typePolicy statement type).isSome = true →
          (valid.lookup type).isSome = true := by
  cases raw with
  | object identity types =>
    obtain ⟨noPrototype, each⟩ :=
      foldlM_assign
        (fun type params => validateType critical ("metadata_policy." ++ type) params)
        validates
    have isType (type : String) :
        typePolicy statement type = (types.lookup type).bind membersOf := by
      rw [typePolicy, isPolicy]
      rfl
    refine ⟨noPrototype, ?_, ?_⟩
    · intro type kept isKept
      have notProto : type ≠ "__proto__" := by
        rintro rfl
        rw [noPrototype] at isKept
        cases isKept
      cases found : types.lookup type with
      | none =>
        rw [(each type notProto).2 found] at isKept
        cases isKept
      | some params =>
        obtain ⟨made, makes, isMade⟩ := (each type notProto).1 params found
        rw [isKept] at isMade
        cases isMade
        cases params with
        | object identity params =>
          obtain ⟨noPrototype, eachName⟩ :=
            foldlM_assign
              (fun name ops =>
                validateParameter critical ("metadata_policy." ++ type ++ "." ++ name) ops)
              makes
          have isParams : typePolicy statement type = some params := by
            rw [isType, found]
            rfl
          have isName (name : String) :
              policyAt statement type name = (params.lookup name).bind membersOf := by
            rw [policyAt, isParams]
            rfl
          refine ⟨noPrototype, by rw [isParams]; rfl, ?_, ?_⟩
          · intro name isNone
            by_cases isProto : name = "__proto__"
            · rw [isProto]
              exact noPrototype
            cases looked : params.lookup name with
            | none => exact (eachName name isProto).2 looked
            | some ops =>
              obtain ⟨made, makes, _⟩ := (eachName name isProto).1 ops looked
              obtain ⟨raw, isRaw, _⟩ := validateParameter_spec makes
              rw [isName, looked, Option.bind_some, isRaw] at isNone
              cases isNone
          · intro name raw isProto isRaw
            rw [isName] at isRaw
            cases looked : params.lookup name with
            | none =>
              rw [looked] at isRaw
              cases isRaw
            | some ops =>
              rw [looked, Option.bind_some] at isRaw
              obtain ⟨made, makes, isMade⟩ := (eachName name isProto).1 ops looked
              obtain ⟨raw', isRaw', tightens, sound⟩ := validateParameter_spec makes
              rw [isRaw] at isRaw'
              cases isRaw'
              exact ⟨made, isMade, tightens, sound⟩
        | _ => exact absurd makes (throw_ne_ok _ _)
    · intro type notProto isNamed
      rw [isType] at isNamed
      cases found : types.lookup type with
      | none =>
        rw [found] at isNamed
        cases isNamed
      | some params =>
        obtain ⟨made, _, isMade⟩ := (each type notProto).1 params found
        rw [isMade]
        rfl
  | _ => exact absurd validates (throw_ne_ok _ _)

/-! ## What merging makes of two policies -/

/-- What merging a parameter leaves of it. -/
def ParameterMerges (sub : Members) (before after : Option Members) : Prop :=
  match before with
  | none => after = some sub
  | some held => ∃ place merged, mergeParameter place held sub = .ok merged ∧ after = some merged

/-- Parameters that hold every inherited name that others hold. -/
def HoldsInherited (next params : Parameters) : Prop :=
  ∀ name, Inherited name → (next.lookup name).isSome = true → (params.lookup name).isSome = true

/-- Merging the parameters of a type merges each once. -/
theorem mergeNames_spec {next params merged : Parameters} {builtins builtins' : Builtins}
    (noPrototype : next.lookup "__proto__" = none) (holds : HoldsInherited next params)
    (merges :
      (entries next).foldlM (mergeName place) (params, builtins) = .ok (merged, builtins')) :
    (builtins' = builtins ∧
      ∀ name, (params.lookup name).isSome = true → (merged.lookup name).isSome = true) ∧
      ∀ name,
        (∀ sub, next.lookup name = some sub →
          ParameterMerges sub (params.lookup name) (merged.lookup name)) ∧
          (next.lookup name = none → merged.lookup name = params.lookup name) := by
  have each :=
    foldlM_each_keeping
      (fun merging : Parameters × Builtins =>
        merging.2 = builtins ∧
          ∀ name, (params.lookup name).isSome = true → (merging.1.lookup name).isSome = true)
      (fun merging name => merging.1.lookup name)
      (fun _ sub before after => ParameterMerges sub before after)
      (nodup_entries next) ?_ ⟨rfl, fun _ isHeld => isHeld⟩ merges
  · simpa only [lookup_entries] using each
  · intro merging merging' name sub isEntry kept stepped
    obtain ⟨params', builtins''⟩ := merging
    obtain ⟨rfl, larger⟩ := kept
    rw [mem_entries_iff] at isEntry
    have notProto : name ≠ "__proto__" := by
      rintro rfl
      rw [noPrototype] at isEntry
      cases isEntry
    have grows (ops : Members) :
        ∀ other, (params.lookup other).isSome = true →
          ((assign params' name ops).lookup other).isSome = true := by
      intro other isHeld
      rw [lookup_assign params' (.inl notProto)]
      split
      · rfl
      · exact larger other isHeld
    simp only [mergeName] at stepped
    cases found : read params' name with
    | absent =>
      rw [found] at stepped
      simp only [pure_eq_ok_iff] at stepped
      subst stepped
      have absent := (of_read_absent found).1
      refine ⟨⟨rfl, grows sub⟩, (lookups_assign (.inl notProto) sub).1, ?_⟩
      unfold ParameterMerges
      rw [absent]
      exact (lookups_assign (.inl notProto) sub).2
    | own held =>
      rw [found] at stepped
      simp only [bind_eq_ok_iff, pure_eq_ok_iff] at stepped
      obtain ⟨merged, merges, rfl⟩ := stepped
      refine ⟨⟨rfl, grows merged⟩, (lookups_assign (.inl notProto) merged).1, ?_⟩
      unfold ParameterMerges
      rw [lookup_of_read_own found]
      exact ⟨_, merged, merges, (lookups_assign (.inl notProto) merged).2⟩
    | inherited =>
      -- A name that is inherited is held, so it is not read off a function.
      obtain ⟨absent, isInherited⟩ := of_read_inherited found
      have isHeld := larger name (holds name isInherited (by rw [isEntry]; rfl))
      rw [absent] at isHeld
      cases isHeld

/-- What merging an entity type leaves of it. -/
def TypeMerges (type : String) (next : Parameters) (before after : Option Parameters) : Prop :=
  match before with
  | none => if Inherited type then after = none else after = some next
  | some params =>
    ∃ merged,
      after = some merged ∧
        (∀ name, (params.lookup name).isSome = true →
          (merged.lookup name).isSome = true) ∧
          ∀ name,
            (∀ sub, next.lookup name = some sub →
              ParameterMerges sub (params.lookup name) (merged.lookup name)) ∧
              (next.lookup name = none → merged.lookup name = params.lookup name)

/-- Merging two policies merges each of the entity types once. -/
theorem merge_spec {current merged : Merging} {next : Policy} (noBuiltins : current.builtins = [])
    (noPrototype : ∀ type params, next.lookup type = some params → params.lookup "__proto__" = none)
    (noInheritedType :
      ∀ type params, next.lookup type = some params → Inherited type → entries params = [])
    (holds :
      ∀ type params held, next.lookup type = some params →
        current.out.lookup type = some held → HoldsInherited params held)
    (merges : merge current next = .ok merged) :
    merged.builtins = [] ∧
      ∀ type,
        (∀ params, next.lookup type = some params →
          TypeMerges type params (current.out.lookup type) (merged.out.lookup type)) ∧
          (next.lookup type = none → merged.out.lookup type = current.out.lookup type) := by
  have each :=
    foldlM_each_keeping
      (fun merging : Merging =>
        merging.builtins = [] ∧
          ∀ type params held, next.lookup type = some params →
            merging.out.lookup type = some held → HoldsInherited params held)
      (fun merging type => merging.out.lookup type)
      TypeMerges (nodup_entries next) ?_ ⟨noBuiltins, holds⟩ merges
  · simp only [lookup_entries] at each
    exact ⟨each.1.1, each.2⟩
  · intro merging merging' type params isEntry kept stepped
    obtain ⟨out, builtins⟩ := merging
    obtain ⟨rfl, holds⟩ := kept
    rw [mem_entries_iff] at isEntry
    -- Writing a type keeps the inherited names of every type.
    have keeps
        {held : Parameters}
        (writable : type ≠ "__proto__" ∨ (out.lookup type).isSome = true)
        (holdsHeld : HoldsInherited params held) :
        ∀ type' params' held', next.lookup type' = some params' →
          (assign out type held).lookup type' = some held' → HoldsInherited params' held' := by
      intro type' params' held' isNext isHeld
      rw [lookup_assign out writable] at isHeld
      split at isHeld
      · rename_i isType
        subst isType
        rw [isEntry] at isNext
        cases isNext
        cases isHeld
        exact holdsHeld
      · exact holds type' params' held' isNext isHeld
    simp only [mergeType] at stepped
    cases found : read out type with
    | absent =>
      rw [found] at stepped
      simp only [pure_eq_ok_iff] at stepped
      subst stepped
      obtain ⟨absent, notInherited⟩ := of_read_absent found
      have notProto : type ≠ "__proto__" := by
        rintro rfl
        exact notInherited (by decide)
      refine ⟨⟨rfl, keeps (.inl notProto) fun _ _ isHeld => isHeld⟩,
        (lookups_assign (.inl notProto) params).1, ?_⟩
      unfold TypeMerges
      rw [absent]
      simp only [notInherited, if_false]
      exact (lookups_assign (.inl notProto) params).2
    | own held =>
      rw [found] at stepped
      simp only [bind_eq_ok_iff, pure_eq_ok_iff] at stepped
      obtain ⟨⟨merged, builtins⟩, merges, rfl⟩ := stepped
      have looked := lookup_of_read_own found
      have isOwn : (out.lookup type).isSome = true := by
        rw [looked]
        rfl
      have heldHolds := holds type params held isEntry looked
      obtain ⟨⟨rfl, larger⟩, eachName⟩ :=
        mergeNames_spec (noPrototype type params isEntry) heldHolds merges
      refine ⟨⟨rfl, keeps (.inr isOwn) fun name isInherited isNext =>
        larger name (heldHolds name isInherited isNext)⟩,
        (lookups_assign (.inr isOwn) merged).1, ?_⟩
      unfold TypeMerges
      rw [looked]
      exact ⟨merged, (lookups_assign (.inr isOwn) merged).2, larger, eachName⟩
    | inherited =>
      obtain ⟨absent, isInherited⟩ := of_read_inherited found
      have noEntries := noInheritedType type params isEntry isInherited
      rw [found] at stepped
      simp only [noEntries, if_true, pure_eq_ok_iff] at stepped
      subst stepped
      refine ⟨⟨rfl, holds⟩, fun _ _ => rfl, ?_⟩
      unfold TypeMerges
      rw [absent]
      simp only [isInherited, if_true]

end IyaSts.MetadataPolicy
