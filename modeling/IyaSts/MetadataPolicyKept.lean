import IyaSts.MetadataPolicyResolve

namespace IyaSts.MetadataPolicy

open Json JsObject Fallible

/-!
# No statement's constraint is lost

The merged policy is as tight as every statement, so applying it to what the
chain declares leaves each parameter as each statement, taken alone, asks for
it.
-/

open List

/-! ## What a chain declares -/

section

variable {chain : List ClaimSet} {metadata : Metadata}

/-- Metadata that holds only values the subject or its superior gave. -/
def AllGiven (chain : List ClaimSet) (metadata : Metadata) : Prop :=
  ∀ type params name value,
    metadata.lookup type = some params →
    params.lookup name = some value →
    Given chain type name value

variable {statement : ClaimSet}

/-- Overlaying what the superior gives keeps it so. -/
theorem AllGiven.overlay {superior out : Metadata}
    (isSuperior : (subordinates chain).head? = some statement)
    (gives : statement.metadata = some superior) (allGiven : AllGiven chain metadata)
    (overlays : overlay metadata superior = .ok out) :
    AllGiven chain out := by
  refine @foldlM_keeps _ _ _ (AllGiven chain) _ _ ?_ _ _ overlays allGiven
  intro held held' entry isEntry stepped kept
  obtain ⟨type, params⟩ := entry
  rw [mem_entries_iff] at isEntry
  simp only at stepped
  cases found : read held type with
  | absent =>
    rw [found, pure_eq_ok_iff] at stepped
    rw [← stepped]
    exact kept
  | inherited =>
    rw [found] at stepped
    simp only at stepped
    split at stepped
    · exact absurd stepped (throw_ne_ok _ _)
    · rw [pure_eq_ok_iff] at stepped
      rw [← stepped]
      exact kept
  | own own =>
    rw [found, pure_eq_ok_iff] at stepped
    rw [← stepped]
    intro type' params' name value isType isValue
    rcases lookup_assign_cases isType with wasThere | ⟨rfl, rfl⟩
    · exact kept type' params' name value wasThere isValue
    · rcases lookup_foldl_assign_cases isValue with wasHeld | isGiven
      · exact kept type' own name value (lookup_of_read_own found) wasHeld
      · rw [mem_entries_iff] at isGiven
        exact ⟨statement, superior, params, .inr isSuperior, gives, isEntry, isGiven⟩

/-- Leaving entity types out keeps it so. -/
theorem AllGiven.stripEntityTypes {statements : List ClaimSet}
    (allGiven : AllGiven chain metadata) :
    AllGiven chain (stripEntityTypes metadata statements) := by
  induction statements generalizing metadata with
  | nil => exact allGiven
  | cons statement rest ih =>
    refine ih ?_
    simp only
    split
    · rename_i allowed _
      intro type params name value isType isValue
      rw [lookup_filter_names metadata fun type =>
        decide (type = "federation_entity") || includes allowed (.string type)] at isType
      split at isType
      · exact allGiven type params name value isType isValue
      · cases isType
    · exact allGiven

/-- What a chain declares was given by the subject or by its superior. -/
theorem AllGiven.of_declared (declares : declared chain = .ok metadata) :
    AllGiven chain metadata := by
  have ofSubject : AllGiven chain ((chain.head?.bind ClaimSet.metadata).getD []) := by
    intro type params name value isType isValue
    cases isGiven : chain.head?.bind ClaimSet.metadata with
    | none =>
      rw [isGiven] at isType
      cases isType
    | some metadata =>
      rw [isGiven] at isType
      obtain ⟨statement, isHead, gives⟩ := Option.bind_eq_some_iff.mp isGiven
      exact ⟨statement, metadata, params, .inl isHead, gives, isType, isValue⟩
  unfold declared at declares
  cases isGiven : (subordinates chain).head?.bind ClaimSet.metadata with
  | none =>
    simp only [isGiven, pure_bind, pure_eq_ok_iff] at declares
    rw [← declares]
    exact ofSubject.stripEntityTypes
  | some superior =>
    simp only [isGiven, bind_eq_ok_iff, pure_eq_ok_iff] at declares
    obtain ⟨out, overlays, stripped⟩ := declares
    obtain ⟨statement, isHead, gives⟩ := Option.bind_eq_some_iff.mp isGiven
    rw [← stripped]
    exact (ofSubject.overlay isHead gives overlays).stripEntityTypes

/-- A parameter of some metadata. -/
def valueAt (metadata : Metadata) (type name : String) : Option Json :=
  (metadata.lookup type).bind fun params => params.lookup name

/-- Where `scope` is given as words, every statement's operators are worded. -/
theorem Untangled.worded (untangled : Untangled chain) (allGiven : AllGiven chain metadata)
    (isStatement : statement ∈ subordinates chain) {type name : String} {raw : Members}
    (isRaw : policyAt statement type name = some raw) :
    Worded name raw (valueAt metadata type name) := by
  refine ⟨?_, ?_, ?_⟩
  · rintro rfl v found
    exact untangled.value statement isStatement type raw v isRaw found
  · rintro rfl v found
    exact untangled.add statement isStatement type raw v isRaw found
  · rintro rfl v held found isHeld one isOne isNamed
    obtain ⟨params, isType, isValue⟩ := Option.bind_eq_some_iff.mp isHeld
    exact untangled.subsetOf statement isStatement type raw v held isRaw found
      (allGiven type params _ held isType isValue) one isOne
      ((canonical_mem_iff one _).mp isNamed)

end

/-! ## Applying a policy -/

/-- Applying the operators of a parameter changes no other. -/
theorem applyParameter_others {type name other : String} {ops out out' : Members}
    (writable : name ≠ "__proto__") (isOther : other ≠ name)
    (applied : applyParameter type out (name, ops) = .ok out') :
    out'.lookup other = out.lookup other := by
  obtain ⟨out₁, out₂, out₃, out₄, stages⟩ := applyParameter_stages applied
  have keeps {op : String} {before after : Members}
      (asked : applyAsked type name ops before op = .ok after) :
      after.lookup other = before.lookup other := by
    rcases asked_cases asked with ⟨_, rfl⟩ | ⟨v, _, applied⟩
    · rfl
    · exact applyOperator_others writable applied isOther
  calc out'.lookup other
      = out₄.lookup other := by rw [stages.final]
    _ = out₃.lookup other := keeps stages.subsetOf
    _ = out₂.lookup other := keeps stages.absentDefault
    _ = out₁.lookup other := keeps stages.add
    _ = out.lookup other := keeps stages.value

variable {type : String} {policy : Parameters} {resolved : Merging}

/-- Applying a type's policy satisfies it, parameter by parameter. -/
theorem applyToType_satisfies {metadata out : Members}
    (prototype : policy.lookup "__proto__" = none)
    (applied : applyToType type metadata policy = .ok out) {name : String} {ops : Members}
    (isOps : policy.lookup name = some ops) (sound : Sound name (metadata.lookup name) ops) :
    Satisfies name ops (out.lookup name) := by
  have each :=
    foldlM_each lookups
      (fun name ops before after => Sound name before ops → Satisfies name ops after)
      (nodup_entries policy) ?_ applied name
  · exact each.1 ops (by rw [lookup_entries]; exact isOps) sound
  · intro held held' name ops isEntry stepped
    rw [mem_entries_iff] at isEntry
    have writable : name ≠ "__proto__" := by
      rintro rfl
      rw [prototype] at isEntry
      cases isEntry
    exact ⟨fun other isOther => applyParameter_others writable isOther stepped,
      fun sound => applyParameter_satisfies writable sound.combined
        sound.arrays sound.worded stepped⟩

/-- Applying a policy applies it to each entity type that is declared. -/
theorem apply_spec {metadata out : Metadata}
    (plain : ∀ type, Inherited type → resolved.out.lookup type = none)
    (applies : apply metadata resolved = .ok out) {params : Members}
    (isType : out.lookup type = some params) (isPolicy : resolved.out.lookup type = some policy) :
    ∃ before, metadata.lookup type = some before ∧ applyToType type before policy = .ok params := by
  have each :=
    foldlM_each lookups
      (fun type params _ after =>
        ∀ policy, resolved.out.lookup type = some policy →
          ∃ applied, applyToType type params policy = .ok applied ∧ after = some applied)
      (nodup_entries metadata) ?_ applies type
  · simp only [lookup_entries, lookups] at each
    cases isDeclared : metadata.lookup type with
    | none =>
      rw [each.2 isDeclared, isDeclared] at isType
      cases isType
    | some before =>
      obtain ⟨applied, isApplied, isAfter⟩ := each.1 before isDeclared policy isPolicy
      rw [isType] at isAfter
      cases isAfter
      exact ⟨before, rfl, isApplied⟩
  · intro held held' type params _ stepped
    simp only at stepped
    cases found : read resolved.out type with
    | absent =>
      rw [found, pure_eq_ok_iff] at stepped
      subst stepped
      refine ⟨fun _ _ => rfl, fun policy isPolicy => ?_⟩
      rw [(of_read_absent found).1] at isPolicy
      cases isPolicy
    | inherited =>
      rw [found] at stepped
      simp only at stepped
      split at stepped
      · rw [pure_eq_ok_iff] at stepped
        subst stepped
        refine ⟨fun _ _ => rfl, fun policy isPolicy => ?_⟩
        rw [(of_read_inherited found).1] at isPolicy
        cases isPolicy
      · exact absurd stepped (throw_ne_ok _ _)
    | own policy =>
      rw [found] at stepped
      simp only [bind_eq_ok_iff, pure_eq_ok_iff] at stepped
      obtain ⟨applied, isApplied, rfl⟩ := stepped
      have isPolicy := lookup_of_read_own found
      have writable : type ≠ "__proto__" := by
        rintro rfl
        rw [plain _ (by decide)] at isPolicy
        cases isPolicy
      obtain ⟨others, isAfter⟩ := @lookups_assign _ held type (.inl writable) applied
      refine ⟨others, fun policy' isPolicy' => ?_⟩
      rw [isPolicy] at isPolicy'
      cases isPolicy'
      exact ⟨applied, isApplied, isAfter⟩

/-! ## Nothing outside the model is reached -/

variable {α : Type}

theorem refuse_ne_outside (code why : String) :
    (refuse code why : Result α) ≠ .error .outside := by
  intro fails
  cases fails

theorem pure_ne_outside (value : α) : (pure value : Result α) ≠ .error .outside := by
  intro fails
  cases fails

/-- Validating never leaves the model. -/
theorem validate_ne_outside (policy : Json) (critical : List String) :
    validate policy critical ≠ .error .outside := by
  have parameter (place : String) (ops : Json) :
      validateParameter critical place ops ≠ .error .outside := by
    cases ops with
    | object identity ops =>
      refine bind_ne_error ?_ fun _ => ?_
      · refine foldlM_ne_error ?_ _
        intro held one _
        simp only
        split
        · split
          · exact refuse_ne_outside _ _
          · exact pure_ne_outside _
        · split
          · exact refuse_ne_outside _ _
          · exact pure_ne_outside _
      · simp only
        split
        · exact refuse_ne_outside _ _
        · exact pure_ne_outside _
    | _ => exact refuse_ne_outside _ _
  have ofType (place : String) (params : Json) :
      validateType critical place params ≠ .error .outside := by
    cases params with
    | object identity params =>
      refine foldlM_ne_error ?_ _
      intro held one _
      exact bind_ne_error (parameter _ _) fun _ => pure_ne_outside _
    | _ => exact refuse_ne_outside _ _
  cases policy with
  | object identity policy =>
    refine foldlM_ne_error ?_ _
    intro held one _
    exact bind_ne_error (ofType _ _) fun _ => pure_ne_outside _
  | _ => exact refuse_ne_outside _ _

/-- Merging two parameters never leaves the model. -/
theorem mergeParameter_ne_outside (place : String) (held sub : Members) :
    mergeParameter place held sub ≠ .error .outside := by
  refine bind_ne_error ?_ fun _ => ?_
  · refine foldlM_ne_error ?_ _
    intro held one _
    simp only
    split
    · exact pure_ne_outside _
    · split
      · exact pure_ne_outside _
      · exact refuse_ne_outside _ _
  · simp only
    split
    · exact refuse_ne_outside _ _
    · exact pure_ne_outside _

/-- Merging leaves the model only at an inherited type that is not empty. -/
theorem merge_ne_outside {next : Policy}
    (empty : ∀ type params, next.lookup type = some params → Inherited type → entries params = [])
    (current : Merging) :
    merge current next ≠ .error .outside := by
  refine foldlM_ne_error ?_ _
  rintro merging ⟨type, params⟩ isEntry
  rw [mem_entries_iff] at isEntry
  simp only [mergeType]
  cases found : read merging.out type with
  | absent => exact pure_ne_outside _
  | own held =>
    refine bind_ne_error ?_ fun _ => pure_ne_outside _
    refine foldlM_ne_error ?_ _
    rintro ⟨held, builtins⟩ ⟨name, sub⟩ _
    simp only [mergeName]
    split
    · exact pure_ne_outside _
    · exact bind_ne_error (mergeParameter_ne_outside _ _ _) fun _ => pure_ne_outside _
    · exact bind_ne_error (mergeParameter_ne_outside _ _ _) fun _ => pure_ne_outside _
  | inherited =>
    simp only [empty type params isEntry (of_read_inherited found).2, if_true]
    exact pure_ne_outside _

theorem write_ne_outside (out : Members) (name : String) (value : Json) :
    write out name value ≠ .error .outside := by
  refine bind_ne_error ?_ fun _ => pure_ne_outside _
  unfold stored
  split
  · split
    · split
      · exact pure_ne_outside _
      · intro fails
        cases fails
    · exact pure_ne_outside _
  · exact pure_ne_outside _

/-- Applying an operator never leaves the model. -/
theorem applyOperator_ne_outside (type name op : String) (v : Json) (out : Members) :
    applyOperator type name op v out ≠ .error .outside := by
  unfold applyOperator
  simp only
  repeat' split
  all_goals
    first
    | exact pure_ne_outside _
    | exact refuse_ne_outside _ _
    | exact write_ne_outside _ _ _

/-- Applying a type's policy never leaves the model. -/
theorem applyToType_ne_outside (type : String) (metadata : Members) (policy : Parameters) :
    applyToType type metadata policy ≠ .error .outside := by
  refine foldlM_ne_error ?_ _
  rintro held ⟨name, ops⟩ _
  refine bind_ne_error ?_ fun _ => ?_
  · refine foldlM_ne_error ?_ _
    intro held op _
    unfold applyAsked
    split
    · exact pure_ne_outside _
    · exact applyOperator_ne_outside _ _ _ _ _
  · split
    · exact refuse_ne_outside _ _
    · exact pure_ne_outside _

/-- Applying a policy leaves the model only where built-ins were written. -/
theorem apply_ne_outside (noBuiltins : resolved.builtins = []) (metadata : Metadata) :
    apply metadata resolved ≠ .error .outside := by
  refine foldlM_ne_error ?_ _
  rintro held ⟨type, params⟩ _
  simp only
  cases found : read resolved.out type with
  | absent => exact pure_ne_outside _
  | own policy => exact bind_ne_error (applyToType_ne_outside _ _ _) fun _ => pure_ne_outside _
  | inherited =>
    simp only [noBuiltins, lookup_nil, Option.getD_none]
    exact pure_ne_outside _

section

variable {chain : List ClaimSet}

/-- Declaring leaves the model only at a `__proto__` of the superior. -/
theorem Untangled.declared_ne_outside (untangled : Untangled chain) :
    declared chain ≠ .error .outside := by
  unfold declared
  cases isGiven : (subordinates chain).head?.bind ClaimSet.metadata with
  | none =>
    simp only [pure_bind]
    exact pure_ne_outside _
  | some superior =>
    obtain ⟨statement, isHead, gives⟩ := Option.bind_eq_some_iff.mp isGiven
    refine bind_ne_error ?_ fun _ => pure_ne_outside _
    refine foldlM_ne_error ?_ _
    rintro held ⟨type, params⟩ isEntry
    rw [mem_entries_iff] at isEntry
    simp only
    cases found : read held type with
    | absent => exact pure_ne_outside _
    | own own => exact pure_ne_outside _
    | inherited =>
      simp only
      split
      · rename_i isProto
        rw [isProto.1, untangled.overlaid statement superior isHead gives]
          at isEntry
        cases isEntry
      · exact pure_ne_outside _

/-- Resolving leaves the model nowhere, where nothing inherited is named. -/
theorem Untangled.resolve_ne_outside (untangled : Untangled chain) :
    resolve [] (subordinates chain).reverse ≠ .error .outside := by
  refine bind_ne_error ?_ fun _ => ?_
  · refine foldlM_ne_error ?_ _
    intro critical one _
    refine foldlM_ne_error ?_ _
    intro critical name _
    split
    · exact pure_ne_outside _
    · intro fails
      cases fails
  · refine foldlM_ne_error ?_ _
    intro merging statement isStatement
    rw [mem_reverse] at isStatement
    unfold resolveStatement
    cases isPolicy : statement.metadataPolicy with
    | none => exact pure_ne_outside _
    | some raw =>
      refine bind_ne_error (validate_ne_outside _ _) fun validates => ?_
      obtain ⟨_, validType, _⟩ := validate_spec isPolicy validates
      refine merge_ne_outside ?_ _
      intro type params isNext isInherited
      exact entries_eq_nil fun name =>
        (validType type params isNext).absent name
          (untangled.types statement isStatement type name isInherited)

end

/-! ## A chain -/

/-- A subject's own configuration. -/
def relyingParty : ClaimSet where
  iss := some (.string "rp")
  sub := some (.string "rp")
  metadata := some [("openid_relying_party", [("client_name", .string "RP")])]
  metadataPolicy := none
  metadataPolicyCrit := none
  constraints := none

/-- A superior's statement about a subject, with a policy for one type. -/
def statementAbout (iss sub : String) (params : Members) : ClaimSet where
  iss := some (.string iss)
  sub := some (.string sub)
  metadata := none
  metadataPolicy := some (.object 0 [("openid_relying_party", .object 1 params)])
  metadataPolicyCrit := none
  constraints := none

/-- A policy that adds a contact. -/
def addsContact : Members := [("add", .array 3 [.string "ops"])]

/-- A subject below one superior that adds a contact. -/
def addedChain : List ClaimSet :=
  [relyingParty, statementAbout "ta" "rp" [("contacts", .object 2 addsContact)]]

theorem policyAt_statementAbout {iss sub type name only : String} {ops raw : Members}
    (found : policyAt (statementAbout iss sub [(only, .object 2 ops)]) type name = some raw) :
    type = "openid_relying_party" ∧ name = only ∧ raw = ops := by
  unfold policyAt typePolicy statementAbout at found
  by_cases isType : type = "openid_relying_party"
  · subst isType
    by_cases isName : name = only
    · subst isName
      simp [membersOf] at found
      exact ⟨rfl, rfl, found.symm⟩
    · have notOnly : (name == only) = false := by
        simpa using isName
      simp [membersOf, lookup_cons, notOnly] at found
  · have notType : (type == "openid_relying_party") = false := by
      simpa using isType
    simp [membersOf, lookup_cons, notType] at found

/-- Nothing of the chain is inherited, and nothing is `scope`. -/
theorem addedChain_untangled : Untangled addedChain := by
  have only {statement : ClaimSet} {type name : String} {raw : Members}
      (isStatement : statement ∈ subordinates addedChain)
      (isRaw : policyAt statement type name = some raw) :
      type = "openid_relying_party" ∧ name = "contacts" := by
    have isOnly :
        statement = statementAbout "ta" "rp" [("contacts", .object 2 addsContact)] :=
      mem_singleton.mp isStatement
    subst isOnly
    obtain ⟨isType, isName, _⟩ := policyAt_statementAbout isRaw
    exact ⟨isType, isName⟩
  refine ⟨?_, ?_, ?_, ?_, ?_, ?_, ?_⟩
  · intro statement isStatement type name isInherited
    cases isRaw : policyAt statement type name with
    | none => rfl
    | some raw =>
      rw [(only isStatement isRaw).1] at isInherited
      exact absurd isInherited (by decide)
  · intro statement isStatement type
    cases isRaw : policyAt statement type "__proto__" with
    | none => rfl
    | some raw => exact absurd (only isStatement isRaw).2 (by decide)
  · intro statement isStatement type name isInherited isAsked
    obtain ⟨raw, isRaw⟩ := Option.isSome_iff_exists.mp isAsked
    rw [(only isStatement isRaw).2] at isInherited
    exact absurd isInherited (by decide)
  · rintro statement metadata ⟨rfl⟩ gives
    cases gives
  · intro statement isStatement type ops v isRaw
    exact absurd (only isStatement isRaw).2 (by decide)
  · intro statement isStatement type ops v isRaw
    exact absurd (only isStatement isRaw).2 (by decide)
  · intro statement isStatement type ops v held isRaw
    exact absurd (only isStatement isRaw).2 (by decide)

/-- A subject with a parameter that every object inherits. -/
def constructedParty : ClaimSet :=
  { relyingParty with
    metadata := some [("openid_relying_party", [("constructor", .string "RP")])] }

/-- A policy that forbids a parameter. -/
def forbids : Members := [("value", .null)]

end IyaSts.MetadataPolicy
