import IyaSts.MergeOrder
import IyaSts.MetadataPolicyChain

namespace IyaSts.MetadataPolicy

open Json JsObject Fallible MergeOrder

/-!
# Which names merging treats alike

What merging two policies is meant to make of every name is said beside the code.
The code does so unless the next policy states an entity type, or a parameter, that
the current one does not and that every object inherits.
-/

open List

/-! ## What is meant -/

/-- An operator both state is merged by its rule. -/
def OperatorMerge (op : String) : Option Json → Option Json → Option Json → Prop :=
  OrTaken fun mine v merged => mergeOperator op mine v = .ok merged

/-- A parameter both state is merged by operators, which may be combined. -/
def ParameterMerge (held sub merged : Members) : Prop :=
  (∀ op,
      OperatorMerge op (held.lookup op) (sub.lookup op) (merged.lookup op)) ∧
    combinationProblem merged = ""

/-- An entity type both state is merged by parameters. -/
def TypeMerge (held next merged : Parameters) : Prop :=
  ∀ name, OrTaken ParameterMerge (held.lookup name) (next.lookup name) (merged.lookup name)

/-- Two policies are merged by entity types. -/
def PolicyMerge (current next merged : Policy) : Prop :=
  ∀ type, OrTaken TypeMerge (current.lookup type) (next.lookup type) (merged.lookup type)

/-- The parameters both policies state can be merged. -/
def Mergeable (current next : Policy) : Prop :=
  ∀ type held params,
    current.lookup type = some held → next.lookup type = some params →
      ∀ name ops sub,
        held.lookup name = some ops → params.lookup name = some sub →
          ∃ merged, ParameterMerge ops sub merged

/-- The next policy states nothing that every object inherits and that the current
one does not state. -/
def NamesFine (current next : Policy) : Prop :=
  ∀ type params, next.lookup type = some params →
    (current.lookup type = none → ¬ Inherited type) ∧
      ∀ held, current.lookup type = some held →
        ∀ name, (params.lookup name).isSome = true → held.lookup name = none → ¬ Inherited name

/-- Merging treats every name as meant, and leaves what other calls see alone. -/
structure TreatsAlike (builtins : Builtins)
    (current next : Policy) : Prop where
  accepts : (∃ merged, merge ⟨current, builtins⟩ next = .ok merged) ↔ Mergeable current next
  result :
    ∀ merged, merge ⟨current, builtins⟩ next = .ok merged →
      PolicyMerge current next merged.out ∧ merged.builtins = builtins

/-! ## Loops over the names of an object -/

/-- A loop succeeds where each round does on what it finds of its own name. -/
theorem foldlM_ok_of_each {Value View Held Error : Type}
    {step : Held → String × Value → Except Error Held} (Kept : Held → Prop)
    (look : Held → String → View)
    {members : List (String × Value)} (distinct : (members.map Prod.fst).Nodup) {start : Held}
    (each :
      ∀ {held : Held} {name : String} {value : Value},
        (name, value) ∈ members →
        Kept held →
        look held name = look start name →
        ∃ held', step held (name, value) = .ok held' ∧ Kept held' ∧
          ∀ other, other ≠ name → look held' other = look held other)
    (kept : Kept start) :
    ∃ final, members.foldlM step start = .ok final := by
  suffices fromHeld :
      ∀ held, Kept held →
        (∀ name ∈ members.map Prod.fst, look held name = look start name) →
          ∃ final, members.foldlM step held = .ok final from
    fromHeld start kept fun _ _ => rfl
  induction members with
  | nil => exact fun held _ _ => ⟨held, rfl⟩
  | cons member rest ih =>
    obtain ⟨name, value⟩ := member
    intro held kept unchanged
    rw [map_cons, nodup_cons] at distinct
    obtain ⟨held', stepped, kept', others⟩ :=
      each mem_cons_self kept (unchanged name mem_cons_self)
    obtain ⟨final, folds⟩ :=
      ih distinct.2
        (fun isLater => each (mem_cons_of_mem _ isLater)) held' kept'
        (by
          intro other isLater
          have isOther : other ≠ name := by
            rintro rfl
            exact distinct.1 isLater
          rw [others other isOther]
          exact unchanged other (mem_cons_of_mem _ isLater))
    refine ⟨final, ?_⟩
    rw [foldlM_cons, stepped]
    exact folds

/-! ## One parameter -/

/-- Operators that read the same have the same problem. -/
theorem combinationProblem_congr {ops ops' : Members}
    (same : ∀ op, ops.lookup op = ops'.lookup op) :
    combinationProblem ops = combinationProblem ops' := by
  have sameHas : has ops = has ops' := by
    funext op
    rw [has, has, same]
  have sameListed : listed ops = listed ops' := by
    funext op
    rw [listed, listed, same]
  have sameEssential : isEssential ops = isEssential ops' := by rw [isEssential, isEssential, same]
  have sameValue : valueProblem ops = valueProblem ops' := by
    funext v
    unfold valueProblem
    rw [sameHas, sameListed, sameEssential]
  have sameBeside : besideValue ops = besideValue ops' := by
    unfold besideValue
    rw [same, sameValue]
  unfold combinationProblem
  rw [sameHas, sameListed, sameBeside]

theorem operatorMerge_of_lookup {held sub merged : Members} {op : String}
    (each :
      (∀ v, sub.lookup op = some v →
        MergesTo op v (held.lookup op) (merged.lookup op)) ∧
        (sub.lookup op = none → merged.lookup op = held.lookup op)) :
    OperatorMerge op (held.lookup op) (sub.lookup op) (merged.lookup op) := by
  unfold OperatorMerge
  cases isSub : sub.lookup op with
  | none =>
    rw [each.2 isSub]
    cases held.lookup op <;> rfl
  | some v =>
    have changed := each.1 v isSub
    cases isHeld : held.lookup op with
    | none =>
      rw [isHeld] at changed
      exact changed
    | some mine =>
      rw [isHeld] at changed
      exact changed

/-- Operators are merged when those of both sides are. -/
theorem mergeOperators_ok {held sub : Members} (writable : sub.lookup "__proto__" = none)
    (each :
      ∀ op mine v, held.lookup op = some mine → sub.lookup op = some v →
        ∃ merged, mergeOperator op mine v = .ok merged)
    (place : String) :
    ∃ merged, mergeOperators place held sub = .ok merged := by
  refine foldlM_ok_of_each (fun _ => True) lookups (nodup_entries sub) ?_ trivial
  intro held' op v isOperator _ unchanged
  rw [mem_entries_iff] at isOperator
  have notProto : op ≠ "__proto__" := by
    rintro rfl
    rw [writable] at isOperator
    cases isOperator
  simp only [lookups] at unchanged
  simp only
  cases found : held'.lookup op with
  | none => exact ⟨_, rfl, trivial, (lookups_assign (.inl notProto) v).1⟩
  | some mine =>
    rw [found] at unchanged
    obtain ⟨merged, merges⟩ := each op mine v unchanged.symm isOperator
    simp only [merges]
    exact ⟨_, rfl, trivial, (lookups_assign (.inl notProto) merged).1⟩

variable {place name : String} {current next valid : Policy} {builtins : Builtins}
    {merged : Merging} {raw : Json} {critical : List String} {params : Parameters}
    {ops : Members}

theorem mergeParameter_eq_ok {held sub merged : Members} (writable : sub.lookup "__proto__" = none)
    (merges : mergeParameter place held sub = .ok merged) :
    ParameterMerge held sub merged := by
  rw [mergeParameter, bind_eq_ok_iff] at merges
  obtain ⟨merged', mergesOperators, checked⟩ := merges
  simp only at checked
  split at checked
  · exact absurd checked (throw_ne_ok _ _)
  · rename_i fine
    rw [not_not] at fine
    rw [pure_eq_ok_iff] at checked
    subst checked
    exact
      ⟨fun op =>
        operatorMerge_of_lookup (mergeOperators_lookup writable mergesOperators op),
        fine⟩

theorem operatorMerge_determined (op : String) : Determined (OperatorMerge op) :=
  Determined.orTaken fun _ _ _ _ merged merged' => Except.ok.inj (merged.symm.trans merged')

/-- A parameter that can be merged is. -/
theorem mergeParameter_ok {held sub merged : Members} (writable : sub.lookup "__proto__" = none)
    (isMerge : ParameterMerge held sub merged) (place : String) :
    ∃ merged', mergeParameter place held sub = .ok merged' := by
  obtain ⟨merged', merges⟩ := mergeOperators_ok writable (by
        intro op mine v isHeld isSub
        have merge := isMerge.1 op
        rw [isHeld, isSub] at merge
        obtain ⟨value, merges, -⟩ := merge
        exact ⟨value, merges⟩)
      place
  have same (op : String) : merged'.lookup op = merged.lookup op :=
    operatorMerge_determined op
      (operatorMerge_of_lookup (mergeOperators_lookup writable merges op))
      (isMerge.1 op)
  refine ⟨merged', ?_⟩
  rw [mergeParameter, merges]
  simp only [ok_bind]
  rw [if_neg]
  · rfl
  · rw [not_not, combinationProblem_congr same]
    exact isMerge.2

/-! ## The parameters of a type -/

/-- A policy without a name that sets a prototype. -/
structure Plain (policy : Policy) : Prop where
  types : policy.lookup "__proto__" = none
  names : ∀ type params, policy.lookup type = some params → params.lookup "__proto__" = none
  operators :
    ∀ type params name ops, policy.lookup type = some params →
      params.lookup name = some ops → ops.lookup "__proto__" = none

/-- What merging leaves of a parameter that the next policy states. -/
def NameEffect (name : String) (sub : Members) (before after : Option Members) : Prop :=
  match before with
  | none => if Inherited name then after = none else after = some sub
  | some held => ∃ merged, ParameterMerge held sub merged ∧ after = some merged

/-- Parameters of which no inherited one is added. -/
def AddsNone (next params : Parameters) : Prop :=
  ∀ name, (next.lookup name).isSome = true → params.lookup name = none → ¬ Inherited name

/-- Merging the parameters of a type, whatever their names. -/
theorem mergeNames_effect {next params merged : Parameters} {builtins builtins' : Builtins}
    (noPrototype : next.lookup "__proto__" = none)
    (operators : ∀ name ops, next.lookup name = some ops → ops.lookup "__proto__" = none)
    (merges :
      (entries next).foldlM (mergeName place) (params, builtins) = .ok (merged, builtins')) :
    (AddsNone next params → builtins' = builtins) ∧
      ∀ name,
        (∀ sub, next.lookup name = some sub →
          NameEffect name sub (params.lookup name) (merged.lookup name)) ∧
          (next.lookup name = none → merged.lookup name = params.lookup name) := by
  have each :=
    foldlM_each_keeping
      (fun merging : Parameters × Builtins =>
        (AddsNone next params → merging.2 = builtins) ∧
          ∀ name, (params.lookup name).isSome = true → (merging.1.lookup name).isSome = true)
      (fun merging name => merging.1.lookup name)
      NameEffect (nodup_entries next) ?_
      ⟨fun _ => rfl, fun _ isHeld => isHeld⟩ merges
  · simp only [lookup_entries] at each
    exact ⟨each.1.1, each.2⟩
  · intro merging merging' name sub isEntry kept stepped
    obtain ⟨params', builtins''⟩ := merging
    obtain ⟨sameBuiltins, larger⟩ := kept
    rw [mem_entries_iff] at isEntry
    have notProto : name ≠ "__proto__" := by
      rintro rfl
      rw [noPrototype] at isEntry
      cases isEntry
    have grows (ops : Members) :
        ∀ other, (params.lookup other).isSome = true →
          ((assign params' name ops).lookup other).isSome = true := by
      intro other isHeld
      rw [lookup_assign params' (.inl notProto)]
      split
      · rfl
      · exact larger other isHeld
    simp only [mergeName] at stepped
    unfold NameEffect
    cases found : read params' name with
    | absent =>
      rw [found] at stepped
      simp only [pure_eq_ok_iff] at stepped
      subst stepped
      obtain ⟨absent, notInherited⟩ := of_read_absent found
      refine ⟨⟨sameBuiltins, grows sub⟩, (lookups_assign (.inl notProto) sub).1, ?_⟩
      rw [absent]
      simp only [notInherited, if_false]
      exact (lookups_assign (.inl notProto) sub).2
    | own held =>
      rw [found] at stepped
      simp only [bind_eq_ok_iff, pure_eq_ok_iff] at stepped
      obtain ⟨merged, merges, rfl⟩ := stepped
      refine ⟨⟨sameBuiltins, grows merged⟩, (lookups_assign (.inl notProto) merged).1, ?_⟩
      rw [lookup_of_read_own found]
      exact
        ⟨merged, mergeParameter_eq_ok (operators name sub isEntry) merges,
          (lookups_assign (.inl notProto) merged).2⟩
    | inherited =>
      rw [found] at stepped
      simp only [bind_eq_ok_iff, pure_eq_ok_iff] at stepped
      obtain ⟨merged, merges, rfl⟩ := stepped
      obtain ⟨absent, isInherited⟩ := of_read_inherited found
      refine ⟨⟨?_, larger⟩, fun _ _ => rfl, ?_⟩
      · -- Then the next policy does add an inherited name.
        intro addsNone
        have notHeld : params.lookup name = none := by
          rw [← Option.not_isSome_iff_eq_none]
          intro isHeld
          have isHeld := larger name isHeld
          rw [absent] at isHeld
          cases isHeld
        exact absurd isInherited (addsNone name (by rw [isEntry]; rfl) notHeld)
      · rw [absent]
        simp only [isInherited, if_true]

/-- The parameters of a type are merged when those of both sides can be and no
inherited one is added. -/
theorem mergeNames_ok {next params : Parameters} (noPrototype : next.lookup "__proto__" = none)
    (operators : ∀ name ops, next.lookup name = some ops → ops.lookup "__proto__" = none)
    (mergeable :
      ∀ name ops sub, params.lookup name = some ops →
        next.lookup name = some sub → ∃ merged, ParameterMerge ops sub merged)
    (addsNone : AddsNone next params)
    (place : String)
    (builtins : Builtins) :
    ∃ merged, (entries next).foldlM (mergeName place) (params, builtins) = .ok merged := by
  refine
    foldlM_ok_of_each (fun _ => True)
      (fun (merging : Parameters × Builtins) name => merging.1.lookup name)
      (nodup_entries next) ?_ trivial
  rintro ⟨params', builtins'⟩ name sub isEntry - unchanged
  rw [mem_entries_iff] at isEntry
  simp only at unchanged
  have notProto : name ≠ "__proto__" := by
    rintro rfl
    rw [noPrototype] at isEntry
    cases isEntry
  simp only [mergeName]
  cases found : read params' name with
  | absent => exact ⟨_, rfl, trivial, (lookups_assign (.inl notProto) sub).1⟩
  | own held =>
    rw [lookup_of_read_own found] at unchanged
    obtain ⟨merged, isMerge⟩ := mergeable name held sub unchanged.symm isEntry
    obtain ⟨merged', merges⟩ :=
      mergeParameter_ok (operators name sub isEntry) isMerge (place ++ "." ++ name)
    simp only [merges, ok_bind]
    exact ⟨_, rfl, trivial, (lookups_assign (.inl notProto) merged').1⟩
  | inherited =>
    obtain ⟨absent, isInherited⟩ := of_read_inherited found
    rw [absent] at unchanged
    exact absurd isInherited (addsNone name (by rw [isEntry]; rfl) unchanged.symm)

/-! ## The entity types -/

/-- What merging leaves of an entity type that the next policy states. -/
def TypeEffect (type : String) (next : Parameters) (before after : Option Parameters) : Prop :=
  match before with
  | none => if Inherited type then after = none else after = some next
  | some params =>
    ∃ merged,
      after = some merged ∧
        ∀ name,
          (∀ sub, next.lookup name = some sub →
            NameEffect name sub (params.lookup name) (merged.lookup name)) ∧
            (next.lookup name = none → merged.lookup name = params.lookup name)

/-- Merging two policies, whatever their names. -/
theorem merge_effect (plain : Plain next) (merges : merge ⟨current, builtins⟩ next = .ok merged) :
    (NamesFine current next → merged.builtins = builtins) ∧
      ∀ type,
        (∀ params, next.lookup type = some params →
          TypeEffect type params (current.lookup type) (merged.out.lookup type)) ∧
          (next.lookup type = none → merged.out.lookup type = current.lookup type) := by
  have each :=
    foldlM_each_keeping
      (fun merging : Merging =>
        NamesFine current next → merging.builtins = builtins ∧ NamesFine merging.out next)
      (fun merging type => merging.out.lookup type)
      TypeEffect (nodup_entries next) ?_ (fun fine => ⟨rfl, fine⟩) merges
  · simp only [lookup_entries] at each
    exact ⟨fun fine => (each.1 fine).1, each.2⟩
  · intro merging merging' type params isEntry kept stepped
    obtain ⟨out, builtins'⟩ := merging
    rw [mem_entries_iff] at isEntry
    have notProto : type ≠ "__proto__" := by
      rintro rfl
      rw [plain.types] at isEntry
      cases isEntry
    -- Writing a type adds no inherited name to what is still to be merged.
    have keeps
        {held : Parameters}
        (fine : NamesFine out next)
        (addsNone : AddsNone params held) :
        NamesFine (assign out type held) next := by
      intro type' params' isNext
      rw [lookup_assign out (.inl notProto)]
      split
      · rename_i isType
        subst isType
        rw [isEntry] at isNext
        cases isNext
        refine ⟨fun isNone => (nomatch isNone), ?_⟩
        rintro _ ⟨rfl⟩
        exact addsNone
      · exact fine type' params' isNext
    simp only [mergeType] at stepped
    unfold TypeEffect
    cases found : read out type with
    | absent =>
      rw [found] at stepped
      simp only [pure_eq_ok_iff] at stepped
      subst stepped
      obtain ⟨absent, notInherited⟩ := of_read_absent found
      refine ⟨fun fine => ?_, (lookups_assign (.inl notProto) params).1, ?_⟩
      · obtain ⟨sameBuiltins, fine⟩ := kept fine
        refine ⟨sameBuiltins, keeps fine ?_⟩
        intro name isNext isNone
        rw [isNone] at isNext
        cases isNext
      · rw [absent]
        simp only [notInherited, if_false]
        exact (lookups_assign (.inl notProto) params).2
    | own held =>
      rw [found] at stepped
      simp only [bind_eq_ok_iff, pure_eq_ok_iff] at stepped
      obtain ⟨⟨merged, builtins''⟩, merges, rfl⟩ := stepped
      have looked := lookup_of_read_own found
      obtain ⟨sameBuiltins, eachName⟩ :=
        mergeNames_effect (plain.names type params isEntry)
          (fun name ops => plain.operators type params name ops isEntry)
          merges
      refine ⟨fun fine => ?_, (lookups_assign (.inl notProto) merged).1, ?_⟩
      · obtain ⟨same, fine⟩ := kept fine
        have addsNone : AddsNone params held := (fine type params isEntry).2 held looked
        refine ⟨(sameBuiltins addsNone).trans same, keeps fine ?_⟩
        intro name isNext isNone isInherited
        obtain ⟨sub, isSub⟩ := Option.isSome_iff_exists.mp isNext
        have changed := (eachName name).1 sub isSub
        unfold NameEffect at changed
        cases isHeld : held.lookup name with
        | none => exact addsNone name isNext isHeld isInherited
        | some ops =>
          rw [isHeld] at changed
          obtain ⟨_, _, isMerged⟩ := changed
          rw [isNone] at isMerged
          cases isMerged
      · rw [looked]
        exact ⟨merged, (lookups_assign (.inl notProto) merged).2, eachName⟩
    | inherited =>
      rw [found] at stepped
      simp only at stepped
      split at stepped
      · rw [pure_eq_ok_iff] at stepped
        subst stepped
        obtain ⟨absent, isInherited⟩ := of_read_inherited found
        refine ⟨kept, fun _ _ => rfl, ?_⟩
        rw [absent]
        simp only [isInherited, if_true]
      · exact absurd stepped (throw_ne_ok _ _)

/-- Two policies are merged when what both state can be and the names are fine. -/
theorem merge_ok (plain : Plain next) (mergeable : Mergeable current next)
    (fine : NamesFine current next) (builtins : Builtins) :
    ∃ merged, merge ⟨current, builtins⟩ next = .ok merged := by
  refine
    foldlM_ok_of_each (fun _ => True)
      (fun (merging : Merging) type => merging.out.lookup type)
      (nodup_entries next) ?_ trivial
  rintro ⟨out, builtins'⟩ type params isEntry - unchanged
  rw [mem_entries_iff] at isEntry
  simp only at unchanged
  have notProto : type ≠ "__proto__" := by
    rintro rfl
    rw [plain.types] at isEntry
    cases isEntry
  obtain ⟨typeFine, namesFine⟩ := fine type params isEntry
  simp only [mergeType]
  cases found : read out type with
  | absent => exact ⟨_, rfl, trivial, (lookups_assign (.inl notProto) params).1⟩
  | own held =>
    rw [lookup_of_read_own found] at unchanged
    obtain ⟨⟨merged, builtins''⟩, merges⟩ :=
      mergeNames_ok (plain.names type params isEntry)
        (fun name ops => plain.operators type params name ops isEntry)
        (mergeable type held params unchanged.symm isEntry)
        (namesFine held unchanged.symm) ("metadata_policy." ++ type)
        builtins'
    simp only [merges, ok_bind]
    exact ⟨_, rfl, trivial, (lookups_assign (.inl notProto) merged).1⟩
  | inherited =>
    obtain ⟨absent, isInherited⟩ := of_read_inherited found
    rw [absent] at unchanged
    exact absurd isInherited (typeFine unchanged.symm)

/-- What is merged without a refusal could be merged. -/
theorem mergeable_of_merge (plain : Plain next)
    (merges : merge ⟨current, builtins⟩ next = .ok merged) :
    Mergeable current next := by
  intro type held params isCurrent isNext name ops sub isHeld isSub
  have changed := ((merge_effect plain merges).2 type).1 params isNext
  rw [isCurrent] at changed
  obtain ⟨_, _, each⟩ := changed
  have changed := (each name).1 sub isSub
  rw [isHeld] at changed
  obtain ⟨merged, isMerge, -⟩ := changed
  exact ⟨merged, isMerge⟩

/-- Where the names are fine, every name is merged as meant. -/
theorem policyMerge_of_merge (plain : Plain next) (fine : NamesFine current next)
    (merges : merge ⟨current, builtins⟩ next = .ok merged) :
    PolicyMerge current next merged.out := by
  intro type
  obtain ⟨ofNext, ofNone⟩ := (merge_effect plain merges).2 type
  cases isNext : next.lookup type with
  | none =>
    rw [ofNone isNext]
    cases current.lookup type <;> rfl
  | some params =>
    obtain ⟨typeFine, namesFine⟩ := fine type params isNext
    have changed := ofNext params isNext
    cases isCurrent : current.lookup type with
    | none =>
      rw [isCurrent] at changed
      simp only [TypeEffect, typeFine isCurrent, if_false] at changed
      exact changed
    | some held =>
      rw [isCurrent] at changed
      obtain ⟨merged', isMerged, each⟩ := changed
      refine ⟨merged', fun name => ?_, isMerged⟩
      obtain ⟨ofSub, ofNone⟩ := each name
      cases isSub : params.lookup name with
      | none =>
        rw [ofNone isSub]
        cases held.lookup name <;> rfl
      | some sub =>
        have changed := ofSub sub isSub
        cases isHeld : held.lookup name with
        | none =>
          have notInherited := namesFine held isCurrent name (by rw [isSub]; rfl) isHeld
          rw [isHeld] at changed
          simp only [NameEffect, notInherited, if_false] at changed
          exact changed
        | some ops =>
          rw [isHeld] at changed
          exact changed

/-- Where every name is merged as meant, the names are fine. -/
theorem namesFine_of_policyMerge (plain : Plain next)
    (merges : merge ⟨current, builtins⟩ next = .ok merged)
    (isMerge : PolicyMerge current next merged.out) :
    NamesFine current next := by
  intro type params isNext
  have changed := ((merge_effect plain merges).2 type).1 params isNext
  have meant := isMerge type
  rw [isNext] at meant
  constructor
  · intro isNone isInherited
    rw [isNone] at changed meant
    simp only [TypeEffect, isInherited, if_true] at changed
    rw [changed] at meant
    cases meant
  · intro held isCurrent name isSome isNone isInherited
    obtain ⟨sub, isSub⟩ := Option.isSome_iff_exists.mp isSome
    rw [isCurrent] at changed meant
    obtain ⟨merged', isMerged, each⟩ := changed
    obtain ⟨merged'', names, isMerged'⟩ := meant
    rw [isMerged] at isMerged'
    cases isMerged'
    have changed := (each name).1 sub isSub
    have meant := names name
    rw [isNone] at changed meant
    rw [isSub] at meant
    simp only [NameEffect, isInherited, if_true] at changed
    rw [changed] at meant
    cases meant

theorem treatsAlike_iff (plain : Plain next) (builtins : Builtins) (current : Policy) :
    TreatsAlike builtins current next ↔ (Mergeable current next → NamesFine current next) := by
  constructor
  · intro alike mergeable
    obtain ⟨merged, merges⟩ := alike.accepts.mpr mergeable
    exact namesFine_of_policyMerge plain merges (alike.result merged merges).1
  · intro fine
    refine ⟨⟨?_, ?_⟩, ?_⟩
    · rintro ⟨merged, merges⟩
      exact mergeable_of_merge plain merges
    · intro mergeable
      exact merge_ok plain mergeable (fine mergeable) builtins
    · intro merged merges
      have namesFine := fine (mergeable_of_merge plain merges)
      exact ⟨policyMerge_of_merge plain namesFine merges, (merge_effect plain merges).1 namesFine⟩

/-! ## Validated policies -/

/-- What an object is made of another from is what each value is made into. -/
theorem made_of_lookup {Value Made : Type} (make : String → Value → Result Made)
    {members : List (String × Value)} {out : List (String × Made)} {made : Made}
    (folds :
      (entries members).foldlM
          (fun out entry => do
            let made ← make entry.1 entry.2
            pure (assign out entry.1 made)) [] = .ok out)
    (isMade : out.lookup name = some made) :
    ∃ v, members.lookup name = some v ∧ make name v = .ok made := by
  obtain ⟨noPrototype, each⟩ := foldlM_assign make folds
  have notProto : name ≠ "__proto__" := by
    rintro rfl
    rw [noPrototype] at isMade
    cases isMade
  cases found : members.lookup name with
  | none =>
    rw [(each name notProto).2 found] at isMade
    cases isMade
  | some v =>
    obtain ⟨made', makes, isMade'⟩ := (each name notProto).1 v found
    rw [isMade] at isMade'
    cases isMade'
    exact ⟨v, rfl, makes⟩

/-- The parameters of a validated policy are validated. -/
theorem validateType_of_lookup {type : String} (validates : validate raw critical = .ok valid)
    (isValid : valid.lookup type = some params) :
    ∃ identity types raw',
      raw = .object identity types ∧ types.lookup type = some raw' ∧
        validateType critical ("metadata_policy." ++ type) raw' = .ok params := by
  cases raw with
  | object identity types =>
    obtain ⟨raw', isRaw, makes⟩ :=
      made_of_lookup
        (fun type params => validateType critical ("metadata_policy." ++ type) params)
        validates isValid
    exact ⟨identity, types, raw', rfl, isRaw, makes⟩
  | _ => exact absurd validates (throw_ne_ok _ _)

/-- The operators of a validated parameter are validated. -/
theorem validateParameter_of_lookup (validates : validateType critical place raw = .ok params)
    (isOps : params.lookup name = some ops) :
    ∃ identity names raw',
      raw = .object identity names ∧ names.lookup name = some raw' ∧
        validateParameter critical (place ++ "." ++ name) raw' = .ok ops := by
  cases raw with
  | object identity names =>
    obtain ⟨raw', isRaw, makes⟩ :=
      made_of_lookup
        (fun name ops => validateParameter critical (place ++ "." ++ name) ops)
        validates isOps
    exact ⟨identity, names, raw', rfl, isRaw, makes⟩
  | _ => exact absurd validates (throw_ne_ok _ _)

theorem validateOperators_of_validateParameter
    (validates : validateParameter critical place raw = .ok ops) :
    ∃ identity members,
      raw = .object identity members ∧ validateOperators critical place members = .ok ops := by
  cases raw with
  | object identity members =>
    rw [validateParameter, bind_eq_ok_iff] at validates
    obtain ⟨kept, validOperators, checked⟩ := validates
    simp only at checked
    split at checked
    · exact absurd checked (throw_ne_ok _ _)
    · rw [pure_eq_ok_iff] at checked
      subst checked
      exact ⟨identity, members, rfl, validOperators⟩
  | _ => exact absurd validates (throw_ne_ok _ _)

/-- Validation leaves no name that sets a prototype. -/
theorem validate_plain (validates : validate raw critical = .ok valid) : Plain valid := by
  refine ⟨?_, ?_, ?_⟩
  · cases raw with
    | object identity types =>
      exact
        (foldlM_assign
          (fun type params => validateType critical ("metadata_policy." ++ type) params)
          validates).1
    | _ => exact absurd validates (throw_ne_ok _ _)
  · intro type params isValid
    obtain ⟨_, _, raw', -, -, makes⟩ := validateType_of_lookup validates isValid
    cases raw' with
    | object identity names =>
      exact
        (foldlM_assign
          (fun name ops =>
            validateParameter critical ("metadata_policy." ++ type ++ "." ++ name) ops)
          makes).1
    | _ => exact absurd makes (throw_ne_ok _ _)
  · intro type params name ops isValid isOps
    obtain ⟨_, _, _, -, -, makes⟩ := validateType_of_lookup validates isValid
    obtain ⟨_, _, _, -, -, makes⟩ := validateParameter_of_lookup makes isOps
    obtain ⟨_, _, -, validOperators⟩ := validateOperators_of_validateParameter makes
    exact (validateOperators_spec validOperators).1 _ (by decide)

/-- A policy that `validate` has accepted. -/
structure AcceptedPolicy where
  policy : Policy
  raw : Json
  critical : List String
  accepted : validate raw critical = .ok policy

/-- A policy of one parameter of `openid_relying_party`, fixed to a text. -/
def fixedParameter (name : String) : Json :=
  .object 0 [("openid_relying_party", .object 1 [(name, .object 2 [("value", .string "fixed")])])]

/-- The same, validated. -/
def fixedPolicy (name : String) : Policy :=
  [("openid_relying_party", [(name, [("value", .string "fixed")])])]

end IyaSts.MetadataPolicy
