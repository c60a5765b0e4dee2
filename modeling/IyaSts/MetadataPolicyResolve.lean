import IyaSts.MetadataPolicyChain

namespace IyaSts.MetadataPolicy

open Json JsObject Fallible SpacedText

/-!
# Resolving a chain's policy

The invariant of the resolution is that the merged policy is as tight as every
statement merged so far.  It holds where no policy names what every object
inherits, and where the values of `scope` are words.
-/

open List

/-! ## The condition -/

/-- A value of a parameter in the subject's metadata before any policy. -/
def Given (chain : List ClaimSet) (type name : String) (value : Json) : Prop :=
  ∃ statement metadata params,
    (chain.head? = some statement ∨
      (subordinates chain).head? = some statement) ∧
      statement.metadata = some metadata ∧
        metadata.lookup type = some params ∧ params.lookup name = some value

/--
A chain whose policies name nothing that every object inherits, except a
parameter that the most superior statement of its type names as well, and
whose values of `scope` are one word each.
-/
structure Untangled (chain : List ClaimSet) : Prop where
  types :
    ∀ statement ∈ subordinates chain, ∀ type name,
      Inherited type → policyAt statement type name = none
  prototype : ∀ statement ∈ subordinates chain, ∀ type, policyAt statement type "__proto__" = none
  parameters :
    ∀ statement ∈ subordinates chain, ∀ type name,
      Inherited name →
      (policyAt statement type name).isSome = true →
      ∃ first,
        ((subordinates chain).reverse.find? fun statement =>
            (typePolicy statement type).isSome) = some first ∧
          (policyAt first type name).isSome = true
  overlaid :
    ∀ statement metadata,
      (subordinates chain).head? = some statement →
      statement.metadata = some metadata →
      metadata.lookup "__proto__" = none
  value :
    ∀ statement ∈ subordinates chain, ∀ type ops v,
      policyAt statement type "scope" = some ops →
      ops.lookup "value" = some v →
      ∀ one ∈ elements v, OneWordText one
  add :
    ∀ statement ∈ subordinates chain, ∀ type ops v,
      policyAt statement type "scope" = some ops →
      ops.lookup "add" = some v →
      ∀ one ∈ elements v, OneWordText one
  subsetOf :
    ∀ statement ∈ subordinates chain, ∀ type ops v held,
      policyAt statement type "scope" = some ops →
      ops.lookup "subset_of" = some v →
      Given chain type "scope" held →
      ∀ one ∈ elements held, one.content ∈ valuesOf v → OneWordText one

/-- An object without any property of its own has no entries. -/
theorem entries_eq_nil {Value : Type} {members : List (String × Value)}
    (none : ∀ name, members.lookup name = none) :
    entries members = [] := by
  rw [eq_nil_iff_forall_not_mem]
  rintro ⟨name, value⟩ isEntry
  rw [mem_entries_iff, none name] at isEntry
  cases isEntry

/-! ## The resolution -/

/-- What holds of the merged policy after some of the statements. -/
structure Resolving (chain : List ClaimSet) (before : String → String → Option Json)
    (done : List ClaimSet)
    (merging : Merging) : Prop where
  builtins : merging.builtins = []
  prototype :
    ∀ type params, merging.out.lookup type = some params → params.lookup "__proto__" = none
  plain : ∀ type, Inherited type → merging.out.lookup type = none
  named :
    ∀ type, ¬ Inherited type →
      ((merging.out.lookup type).isSome = true ↔
        ∃ statement ∈ done, (typePolicy statement type).isSome = true)
  sound :
    ∀ type name ops, operatorsAt merging.out type name = some ops →
      Sound name (before type name) ops
  tight :
    ∀ statement ∈ done, ∀ type name raw,
      policyAt statement type name = some raw →
      ∃ ops, operatorsAt merging.out type name = some ops ∧ Tightens ops raw
  inherited :
    ∀ statement ∈ subordinates chain, ∀ type name, Inherited name →
      (policyAt statement type name).isSome = true →
      ∀ params, merging.out.lookup type = some params → (params.lookup name).isSome = true

section

variable {chain : List ClaimSet} {before : String → String → Option Json}

/-- Before any statement is merged, nothing is there. -/
theorem Resolving.start : Resolving chain before [] ⟨[], []⟩ where
  builtins := rfl
  prototype := by
    intro type params found
    cases found
  plain := by
    intro type _
    rfl
  named := by
    intro type _
    simp
  sound := by
    intro type name ops found
    cases found
  tight := by
    intro statement isDone
    cases isDone
  inherited := by
    intro statement _ type name _ _ params found
    cases found

/-- Operators that a merge finds at a parameter. -/
theorem operatorsAt_eq_some_iff (policy : Policy) (type name : String) (ops : Members) :
    operatorsAt policy type name = some ops ↔
      ∃ params, policy.lookup type = some params ∧ params.lookup name = some ops := by
  rw [operatorsAt, Option.bind_eq_some_iff]

variable {type : String} {done rest : List ClaimSet} {merging final : Merging}
    {statement : ClaimSet} {critical : List String}

/-- What merging a statement's policy does at one parameter. -/
theorem operatorsAt_merge {current merged : Merging} {next : Policy}
    (changed :
      (∀ params, next.lookup type = some params →
        TypeMerges type params (current.out.lookup type) (merged.out.lookup type)) ∧
        (next.lookup type = none → merged.out.lookup type = current.out.lookup type))
    (noInheritedType :
      ∀ params, next.lookup type = some params → Inherited type → entries params = [])
    (name : String) :
    (∀ sub, operatorsAt next type name = some sub →
      ParameterMerges sub (operatorsAt current.out type name) (operatorsAt merged.out type name)) ∧
      (operatorsAt next type name = none →
        operatorsAt merged.out type name = operatorsAt current.out type name) := by
  unfold operatorsAt
  cases isNext : next.lookup type with
  | none =>
    rw [changed.2 isNext]
    exact ⟨fun _ found => (nomatch found), fun _ => rfl⟩
  | some params =>
    have merges := changed.1 params isNext
    unfold TypeMerges at merges
    cases isCurrent : current.out.lookup type with
    | none =>
      rw [isCurrent] at merges
      simp only at merges
      split at merges
      · rename_i isInherited
        have noEntries := noInheritedType params isNext isInherited
        have noName : params.lookup name = none := by
          rw [← lookup_entries, noEntries]
          rfl
        rw [merges]
        simp [noName]
      · rw [merges]
        constructor
        · intro sub isSub
          exact isSub
        · intro isNone
          exact isNone
    | some held =>
      rw [isCurrent] at merges
      obtain ⟨merged', isMerged, _, each⟩ := merges
      rw [isMerged]
      exact each name

/-- A statement without a policy changes nothing. -/
theorem Resolving.of_none (resolving : Resolving chain before done merging)
    (noPolicy : statement.metadataPolicy = none) :
    Resolving chain before (done ++ [statement]) merging := by
  have noType (type : String) : typePolicy statement type = none := by
    rw [typePolicy, noPolicy]
    rfl
  have noName (type name : String) : policyAt statement type name = none := by
    rw [policyAt, noType]
    rfl
  refine ⟨resolving.builtins, resolving.prototype, resolving.plain, ?_,
    resolving.sound, ?_, resolving.inherited⟩
  · intro type notInherited
    rw [resolving.named type notInherited]
    constructor
    · rintro ⟨other, isDone, isNamed⟩
      exact ⟨other, mem_append_left _ isDone, isNamed⟩
    · rintro ⟨other, isDone, isNamed⟩
      rcases mem_append.mp isDone with isEarlier | isLast
      · exact ⟨other, isEarlier, isNamed⟩
      · rw [mem_singleton.mp isLast, noType] at isNamed
        cases isNamed
  · intro other isDone type name raw found
    rcases mem_append.mp isDone with isEarlier | isLast
    · exact resolving.tight other isEarlier type name raw found
    · rw [mem_singleton.mp isLast, noName] at found
      cases found

/-- What a statement's validated policy holds, beside the statement. -/
structure Validated (before : String → String → Option Json) (statement : ClaimSet)
    (valid : Policy) : Prop where
  prototype : ∀ type params, valid.lookup type = some params → params.lookup "__proto__" = none
  inheritedType :
    ∀ type params, valid.lookup type = some params → Inherited type → entries params = []
  named :
    ∀ type, ¬ Inherited type →
      ((valid.lookup type).isSome = true ↔ (typePolicy statement type).isSome = true)
  asked :
    ∀ type params name, valid.lookup type = some params →
      (params.lookup name).isSome = true →
      (policyAt statement type name).isSome = true
  given :
    ∀ type name raw, policyAt statement type name = some raw →
      ∃ ops,
        operatorsAt valid type name = some ops ∧ Tightens ops raw ∧
          Sound name (before type name) ops
  sound :
    ∀ type name ops, operatorsAt valid type name = some ops → Sound name (before type name) ops

/-- Validation holds what the statement gives, and nothing else. -/
theorem Untangled.validated (untangled : Untangled chain)
    (isStatement : statement ∈ subordinates chain)
    (worded :
      ∀ type name raw, policyAt statement type name = some raw → Worded name raw (before type name))
    {raw : Json}
    {valid : Policy}
    (isPolicy : statement.metadataPolicy = some raw)
    (validates : validate raw critical = .ok valid) :
    Validated before statement valid := by
  obtain ⟨_, validType, validNamed⟩ := validate_spec isPolicy validates
  have asked (type : String) (params : Parameters) (name : String)
      (isNext : valid.lookup type = some params)
      (isHeld : (params.lookup name).isSome = true) :
      (policyAt statement type name).isSome = true := by
    cases isAbsent : policyAt statement type name with
    | some raw => rfl
    | none =>
      rw [(validType type params isNext).absent name isAbsent] at isHeld
      cases isHeld
  have given (type name : String) (raw : Members)
      (isRaw : policyAt statement type name = some raw) :
      ∃ ops,
        operatorsAt valid type name = some ops ∧ Tightens ops raw ∧
          Sound name (before type name) ops := by
    have notProtoType : type ≠ "__proto__" := by
      rintro rfl
      rw [untangled.types statement isStatement _ name (by decide)] at isRaw
      cases isRaw
    have notProto : name ≠ "__proto__" := by
      rintro rfl
      rw [untangled.prototype statement isStatement type] at isRaw
      cases isRaw
    have isNamed : (typePolicy statement type).isSome = true := by
      cases isType : typePolicy statement type with
      | some params => rfl
      | none =>
        rw [policyAt, isType] at isRaw
        cases isRaw
    obtain ⟨params, isNext⟩ := Option.isSome_iff_exists.mp (validNamed type notProtoType isNamed)
    obtain ⟨ops, isOps, tightens, sound⟩ :=
      (validType type params isNext).given name raw notProto isRaw
    exact ⟨ops, (operatorsAt_eq_some_iff _ _ _ _).mpr
      ⟨params, isNext, isOps⟩, tightens, sound (worded type name raw isRaw)⟩
  refine ⟨fun type params isNext => (validType type params isNext).prototype,
    ?_, ?_, asked, given, ?_⟩
  · intro type params isNext isInherited
    exact entries_eq_nil fun name =>
      (validType type params isNext).absent name
        (untangled.types statement isStatement type name isInherited)
  · intro type notInherited
    constructor
    · intro isHeld
      obtain ⟨params, isNext⟩ := Option.isSome_iff_exists.mp isHeld
      exact (validType type params isNext).named
    · intro isNamed
      refine validNamed type ?_ isNamed
      rintro rfl
      exact notInherited (by decide)
  · intro type name ops isOps
    obtain ⟨params, isNext, isHeld⟩ := (operatorsAt_eq_some_iff _ _ _ _).mp isOps
    obtain ⟨raw, isRaw⟩ := Option.isSome_iff_exists.mp
      (asked type params name isNext (by rw [isHeld]; rfl))
    obtain ⟨ops', isOps', _, sound⟩ := given type name raw isRaw
    rw [isOps] at isOps'
    cases isOps'
    exact sound

/-- What a merge leaves of each entity type. -/
def MergesTypes (next current merged : Policy) : Prop :=
  ∀ type,
    (∀ params, next.lookup type = some params →
      TypeMerges type params (current.lookup type) (merged.lookup type)) ∧
      (next.lookup type = none → merged.lookup type = current.lookup type)

namespace MergesTypes

variable {next current merged : Policy}

variable {type : String}

/-- A type is there after a merge when either policy has it. -/
theorem isSome_iff (merges : MergesTypes next current merged) (notInherited : ¬ Inherited type) :
    (merged.lookup type).isSome = true ↔
      (current.lookup type).isSome = true ∨ (next.lookup type).isSome = true := by
  cases isNext : next.lookup type with
  | none =>
    rw [(merges type).2 isNext]
    simp
  | some params =>
    have changed := (merges type).1 params isNext
    unfold TypeMerges at changed
    cases isCurrent : current.lookup type with
    | none =>
      rw [isCurrent] at changed
      simp only [notInherited, if_false] at changed
      simp [changed]
    | some held =>
      rw [isCurrent] at changed
      obtain ⟨merged', isMerged, _⟩ := changed
      simp [isMerged]

/-- A type after a merge is larger than before, or new. -/
theorem cases_of_some (merges : MergesTypes next current merged) {params : Parameters}
    (isAfter : merged.lookup type = some params) :
    (∃ held, current.lookup type = some held ∧
      (∀ name, (held.lookup name).isSome = true →
        (params.lookup name).isSome = true) ∧
        ∀ name,
          (∀ more, next.lookup type = some more → more.lookup name = none) →
          params.lookup name = held.lookup name) ∨
      (current.lookup type = none ∧ ¬ Inherited type ∧ next.lookup type = some params) := by
  cases isNext : next.lookup type with
  | none =>
    rw [(merges type).2 isNext] at isAfter
    exact .inl ⟨params, isAfter, fun _ isHeld => isHeld, fun _ _ => rfl⟩
  | some more =>
    have changed := (merges type).1 more isNext
    unfold TypeMerges at changed
    cases isCurrent : current.lookup type with
    | none =>
      rw [isCurrent] at changed
      simp only at changed
      split at changed
      · rw [isAfter] at changed
        cases changed
      · rename_i notInherited
        rw [isAfter] at changed
        exact .inr ⟨rfl, notInherited, changed.symm⟩
    | some held =>
      rw [isCurrent] at changed
      obtain ⟨merged', isMerged, larger, eachName⟩ := changed
      rw [isAfter] at isMerged
      cases isMerged
      refine .inl ⟨held, rfl, larger, ?_⟩
      intro name notNext
      exact (eachName name).2 (notNext more rfl)

end MergesTypes

/-- The first statement that names a type is the one that adds it. -/
theorem find_of_new (noneBefore : ¬ ∃ earlier ∈ done, (typePolicy earlier type).isSome = true)
    (isNamed : (typePolicy statement type).isSome = true) :
    ((done ++ statement :: rest).find? fun statement =>
      (typePolicy statement type).isSome) = some statement := by
  have notDone :
      (done.find? fun statement => (typePolicy statement type).isSome) =
        none := by
    rw [List.find?_eq_none]
    intro earlier isEarlier isSome
    exact noneBefore ⟨earlier, isEarlier, isSome⟩
  rw [List.find?_append, notDone]
  simp [isNamed]

/-- Merging a statement's policy keeps what is tight and adds its own. -/
theorem Resolving.step (untangled : Untangled chain)
    (worded :
      ∀ statement ∈ subordinates chain, ∀ type name raw,
        policyAt statement type name = some raw →
        Worded name raw (before type name))
    {critical : List String}
    {done rest : List ClaimSet}
    {merging merging' : Merging}
    {statement : ClaimSet}
    (order : (subordinates chain).reverse = done ++ statement :: rest)
    (resolving : Resolving chain before done merging)
    (resolves : resolveStatement critical merging statement = .ok merging') :
    Resolving chain before (done ++ [statement]) merging' := by
  have isStatement : statement ∈ subordinates chain := by
    rw [← mem_reverse, order]
    simp
  unfold resolveStatement at resolves
  cases isPolicy : statement.metadataPolicy with
  | none =>
    rw [isPolicy, pure_eq_ok_iff] at resolves
    rw [← resolves]
    exact resolving.of_none isPolicy
  | some raw =>
    rw [isPolicy] at resolves
    simp only [bind_eq_ok_iff] at resolves
    obtain ⟨valid, validates, merges⟩ := resolves
    have validated :=
      untangled.validated isStatement (worded statement isStatement) isPolicy validates
    obtain ⟨noBuiltins, each⟩ :=
      merge_spec resolving.builtins validated.prototype
        validated.inheritedType
        (fun type params held isNext isHeld name isInherited isNamed =>
          resolving.inherited statement isStatement type name isInherited
            (validated.asked type params name isNext isNamed) held isHeld)
        merges
    have mergesTypes : MergesTypes valid merging.out merging'.out := each
    have eachAt (type name : String) :=
      operatorsAt_merge (each type) (validated.inheritedType type) name
    refine ⟨noBuiltins, ?_, ?_, ?_, ?_, ?_, ?_⟩
    · intro type params isAfter
      rcases mergesTypes.cases_of_some isAfter with
        ⟨held, isHeld, _, same⟩ | ⟨_, _, isNext⟩
      · rw [same "__proto__" fun more isMore => validated.prototype type more isMore]
        exact resolving.prototype type held isHeld
      · exact validated.prototype type params isNext
    · intro type isInherited
      by_contra isThere
      obtain ⟨params, isAfter⟩ := Option.ne_none_iff_exists'.mp isThere
      rcases mergesTypes.cases_of_some isAfter with
        ⟨held, isHeld, _⟩ | ⟨_, notInherited, _⟩
      · rw [resolving.plain type isInherited] at isHeld
        cases isHeld
      · exact notInherited isInherited
    · intro type notInherited
      rw [mergesTypes.isSome_iff notInherited, resolving.named type notInherited,
        validated.named type notInherited]
      simp only [mem_append, mem_singleton, or_and_right, exists_or, exists_eq_left]
    · intro type name ops isAfter
      cases isSub : operatorsAt valid type name with
      | none =>
        rw [(eachAt type name).2 isSub] at isAfter
        exact resolving.sound type name ops isAfter
      | some sub =>
        have soundSub := validated.sound type name sub isSub
        have changed := (eachAt type name).1 sub isSub
        unfold ParameterMerges at changed
        cases isHeld : operatorsAt merging.out type name with
        | none =>
          rw [isHeld, isAfter] at changed
          cases changed
          exact soundSub
        | some held =>
          rw [isHeld] at changed
          obtain ⟨place, merged, merges, isMerged⟩ := changed
          rw [isAfter] at isMerged
          cases isMerged
          exact (mergeParameter_spec (resolving.sound type name held isHeld) soundSub merges).1
    · intro other isDone type name raw isRaw
      rcases mem_append.mp isDone with isEarlier | isLast
      · obtain ⟨held, isHeld, tightens⟩ := resolving.tight other isEarlier type name raw isRaw
        cases isSub : operatorsAt valid type name with
        | none =>
          rw [(eachAt type name).2 isSub]
          exact ⟨held, isHeld, tightens⟩
        | some sub =>
          have changed := (eachAt type name).1 sub isSub
          rw [isHeld] at changed
          obtain ⟨place, merged, merges, isMerged⟩ := changed
          exact ⟨merged, isMerged, (mergeParameter_spec (resolving.sound type name held isHeld)
              (validated.sound type name sub isSub) merges).2.1.trans tightens⟩
      · rw [mem_singleton] at isLast
        subst isLast
        obtain ⟨sub, isSub, tightens, soundSub⟩ := validated.given type name raw isRaw
        have changed := (eachAt type name).1 sub isSub
        unfold ParameterMerges at changed
        cases isHeld : operatorsAt merging.out type name with
        | none =>
          rw [isHeld] at changed
          exact ⟨sub, changed, tightens⟩
        | some held =>
          rw [isHeld] at changed
          obtain ⟨place, merged, merges, isMerged⟩ := changed
          exact ⟨merged, isMerged, (mergeParameter_spec (resolving.sound type name held isHeld)
              soundSub merges).2.2.trans tightens⟩
    · intro other isOther type name isInherited isAsked params isAfter
      rcases mergesTypes.cases_of_some isAfter with
        ⟨held, isHeld, larger, _⟩ | ⟨isNew, notInherited, isNext⟩
      · exact larger name (resolving.inherited other isOther type name
          isInherited isAsked held isHeld)
      · -- The type is new, so this statement is the first to name it.
        have isNamed : (typePolicy statement type).isSome = true :=
          (validated.named type notInherited).mp (by rw [isNext]; rfl)
        have noneBefore : ¬ ∃ earlier ∈ done, (typePolicy earlier type).isSome = true := by
          rw [← resolving.named type notInherited, isNew]
          exact Bool.false_ne_true
        obtain ⟨first, isFirst, asksFirst⟩ :=
          untangled.parameters other isOther type name isInherited isAsked
        rw [order, find_of_new noneBefore isNamed] at isFirst
        cases isFirst
        obtain ⟨raw, isRaw⟩ := Option.isSome_iff_exists.mp asksFirst
        obtain ⟨ops, isOps, _⟩ := validated.given type name raw isRaw
        obtain ⟨params', isNext', isOps⟩ := (operatorsAt_eq_some_iff _ _ _ _).mp isOps
        rw [isNext] at isNext'
        cases isNext'
        rw [isOps]
        rfl

/-- The statements that are left keep what is tight and add their own. -/
theorem Resolving.run (untangled : Untangled chain)
    (worded :
      ∀ statement ∈ subordinates chain, ∀ type name raw,
        policyAt statement type name = some raw →
        Worded name raw (before type name))
    (order : (subordinates chain).reverse = done ++ rest)
    (resolving : Resolving chain before done merging)
    (resolves : rest.foldlM (resolveStatement critical) merging = .ok final) :
    Resolving chain before (subordinates chain).reverse final := by
  induction rest generalizing done merging with
  | nil =>
    cases resolves
    rw [order, append_nil]
    exact resolving
  | cons statement rest ih =>
    rw [foldlM_cons, bind_eq_ok_iff] at resolves
    obtain ⟨next, stepped, resolves⟩ := resolves
    have stepOrder : (subordinates chain).reverse = (done ++ [statement]) ++ rest := by
      rw [order, append_assoc]
      rfl
    exact ih stepOrder (resolving.step untangled worded order stepped) resolves

/-- What a resolution answers is as tight as every statement. -/
theorem Resolving.of_resolve (untangled : Untangled chain)
    (worded :
      ∀ statement ∈ subordinates chain, ∀ type name raw,
        policyAt statement type name = some raw →
        Worded name raw (before type name))
    (resolves : resolve [] (subordinates chain).reverse = .ok final) :
    Resolving chain before (subordinates chain).reverse final := by
  rw [resolve, bind_eq_ok_iff] at resolves
  obtain ⟨critical, _, resolves⟩ := resolves
  exact Resolving.start.run untangled worded (nil_append _).symm resolves

end

end IyaSts.MetadataPolicy
