import IyaSts.MetadataPolicyRefines
import Mathlib.Data.List.Perm.Basic

namespace IyaSts.MetadataPolicy

open Json JsObject Fallible MergeOrder

/-!
# The order of a chain's statements does not matter

Every statement's policy is validated by itself, against the operators that any of
them declares critical, and the meanings of validated policies can be merged in any
order.  So whether a chain is accepted, and what its policy asks, is the same in
every order of its statements.
-/

open List

/-! ## What is claimed of two policies -/

/-- Operators of equal values, arrays up to their order. -/
def SameOperators (ops ops' : Members) : Prop :=
  ∀ op, Option.Rel SameValues (ops.lookup op) (ops'.lookup op)

def SameParameters (params params' : Parameters) : Prop :=
  ∀ name, Option.Rel SameOperators (params.lookup name) (params'.lookup name)

/-- The same entity types, parameters and operators. -/
def SamePolicy (policy policy' : Policy) : Prop :=
  ∀ type, Option.Rel SameParameters (policy.lookup type) (policy'.lookup type)

/-- A statement whose policy states no entity type and no parameter of a name that
every object inherits. -/
def OwnNames (statement : ClaimSet) : Prop :=
  ∀ type, (typePolicy statement type).isSome = true →
    ¬ Inherited type ∧ ∀ name, (policyAt statement type name).isSome = true → ¬ Inherited name

/-! ## The operators declared critical -/

/-- What a statement declares critical. -/
def declaredCritical (statement : ClaimSet) : List Json :=
  (statement.metadataPolicyCrit.map elements).getD []

/-- A name's text, collected once. -/
def collect (critical : List String) (name : Json) : Result (List String) :=
  match toText name with
  | some name => pure (if name ∈ critical then critical else critical ++ [name])
  | none => throw .thrown

theorem criticalOf_eq (statements : List ClaimSet) :
    criticalOf statements = (statements.flatMap declaredCritical).foldlM collect [] := by
  suffices fromHeld :
      ∀ critical : List String,
        statements.foldlM (fun critical one =>
            (declaredCritical one).foldlM collect critical) critical =
          (statements.flatMap declaredCritical).foldlM collect critical from
    fromHeld []
  intro critical
  induction statements generalizing critical with
  | nil => rfl
  | cons statement rest ih =>
    rw [foldlM_cons, flatMap_cons, foldlM_append]
    exact bind_congr ih

variable {critical critical' : List String} {statements statements' : List ClaimSet}
    {statement : ClaimSet} {valid : Policy} {builtins : Builtins} {merged : Merging}

theorem mem_collect_iff {name : Json} (collects : collect critical name = .ok critical')
    (op : String) :
    op ∈ critical' ↔ op ∈ critical ∨ toText name = some op := by
  unfold collect at collects
  cases isText : toText name with
  | none =>
    rw [isText] at collects
    exact absurd collects (throw_ne_ok _ _)
  | some text =>
    rw [isText] at collects
    simp only [pure_eq_ok_iff] at collects
    subst collects
    rw [Option.some.injEq]
    split
    · rename_i isCollected
      constructor
      · exact .inl
      · rintro (isCritical | rfl)
        · exact isCritical
        · exact isCollected
    · rw [mem_append, mem_singleton, eq_comm (a := op)]

/-- Exactly the texts of the names are collected. -/
theorem mem_collected_iff {names : List Json}
    (collects : names.foldlM collect critical = .ok critical') (op : String) :
    op ∈ critical' ↔ op ∈ critical ∨ ∃ name ∈ names, toText name = some op := by
  induction names generalizing critical with
  | nil =>
    cases collects
    simp
  | cons name rest ih =>
    rw [foldlM_cons, bind_eq_ok_iff] at collects
    obtain ⟨next, collects, later⟩ := collects
    rw [ih later, mem_collect_iff collects, or_assoc, exists_mem_cons_iff]

/-- Names are collected when each has a text. -/
theorem collects_iff (names : List Json) (critical : List String) :
    (∃ critical', names.foldlM collect critical = .ok critical') ↔
      ∀ name ∈ names, (toText name).isSome = true := by
  induction names generalizing critical with
  | nil => exact iff_of_true ⟨critical, rfl⟩ (fun _ isName => (nomatch isName))
  | cons name rest ih =>
    rw [forall_mem_cons]
    constructor
    · rintro ⟨critical', collects⟩
      rw [foldlM_cons, bind_eq_ok_iff] at collects
      obtain ⟨next, collects, later⟩ := collects
      refine ⟨?_, (ih next).mp ⟨critical', later⟩⟩
      unfold collect at collects
      cases isText : toText name with
      | none =>
        rw [isText] at collects
        exact absurd collects (throw_ne_ok _ _)
      | some text => rfl
    · rintro ⟨isSome, later⟩
      obtain ⟨text, isText⟩ := Option.isSome_iff_exists.mp isSome
      obtain ⟨critical', collects⟩ :=
        (ih (if text ∈ critical then critical else critical ++ [text])).mpr later
      refine ⟨critical', ?_⟩
      rw [foldlM_cons, collect, isText]
      exact collects

/-- The same operators are declared critical in every order. -/
theorem criticalOf_perm (perm : statements.Perm statements')
    (isCritical : criticalOf statements = .ok critical) :
    ∃ critical', criticalOf statements' = .ok critical' ∧ ∀ op, op ∈ critical ↔ op ∈ critical' := by
  rw [criticalOf_eq] at isCritical
  have permNames := perm.flatMap_right declaredCritical
  obtain ⟨critical', collects⟩ :=
    (collects_iff (statements'.flatMap declaredCritical) []).mpr fun name isName =>
      (collects_iff _ _).mp ⟨critical, isCritical⟩ name (permNames.mem_iff.mpr isName)
  refine ⟨critical', (criticalOf_eq statements').trans collects, fun op => ?_⟩
  rw [mem_collected_iff isCritical, mem_collected_iff collects]
  simp only [permNames.mem_iff]

/-! ## Validating a statement's policy -/

/-- Validation asks of the critical operators only which they are. -/
theorem validate_congr (same : ∀ op, op ∈ critical ↔ op ∈ critical') (raw : Json) :
    validate raw critical = validate raw critical' := by
  have sameOperators (place : String) (ops : Members) :
      validateOperators critical place ops = validateOperators critical' place ops := by
    unfold validateOperators
    simp only [same]
  have sameParameter (place : String) (ops : Json) :
      validateParameter critical place ops = validateParameter critical' place ops := by
    unfold validateParameter
    simp only [sameOperators]
  have sameType (place : String) (params : Json) :
      validateType critical place params = validateType critical' place params := by
    unfold validateType
    simp only [sameParameter]
  unfold validate
  simp only [sameType]

/-- What a statement contributes: its validated policy, or an empty one. -/
def contribution (critical : List String) (statement : ClaimSet) : Result Policy :=
  match statement.metadataPolicy with
  | none => pure []
  | some raw => validate raw critical

theorem resolveStatement_eq (critical : List String) (merging : Merging) (statement : ClaimSet) :
    resolveStatement critical merging statement =
      contribution critical statement >>= merge merging := by
  unfold resolveStatement contribution
  cases statement.metadataPolicy <;> rfl

/-- A policy that can be merged by meanings: of operators that were validated, none
under a name that every object inherits. -/
structure Contributed (policy : Policy) : Prop where
  plain : Plain policy
  typed : TypedPolicy policy
  namesFine : ∀ current, NamesFine current policy

theorem typed_of_validateOperators {place : String} {ops kept : Members}
    (valid : validateOperators critical place ops = .ok kept) :
    Typed kept := by
  obtain ⟨unknown, known⟩ := validateOperators_spec valid
  have isKnown (op : String) (v : Json) (isKept : kept.lookup op = some v) : op ∈ operators := by
    by_contra notOperator
    rw [unknown op notOperator] at isKept
    cases isKept
  have noProblem (op : String) (v : Json) (isKept : kept.lookup op = some v) :
      operatorValueProblem op v = "" := by
    obtain ⟨same, fine⟩ := known op (isKnown op v isKept)
    exact fine v (same ▸ isKept)
  refine ⟨isKnown, ?_, ?_⟩
  · intro op v notValue notDefault notEssential isKept
    have isOperator := isKnown op v isKept
    have fine := noProblem op v isKept
    by_contra notArray
    rw [Bool.not_eq_true] at notArray
    simp only [operators, mem_cons, not_mem_nil, or_false,
      notValue, notDefault, notEssential, false_or] at isOperator
    rcases isOperator with rfl | rfl | rfl | rfl <;> simp [operatorValueProblem, notArray] at fine
  · intro v isKept
    have fine := noProblem "essential" v isKept
    cases v with
    | boolean isTrue => exact ⟨isTrue, rfl⟩
    | _ => simp [operatorValueProblem] at fine

theorem contributed_of_validate {raw : Json} (ownNames : OwnNames statement)
    (isPolicy : statement.metadataPolicy = some raw)
    (validates : validate raw critical = .ok valid) :
    Contributed valid := by
  refine ⟨validate_plain validates, ?_, ?_⟩
  · intro type params name ops isValid isOps
    obtain ⟨_, _, _, -, -, makes⟩ := validateType_of_lookup validates isValid
    obtain ⟨_, _, _, -, -, makes⟩ := validateParameter_of_lookup makes isOps
    obtain ⟨_, _, -, validOperators⟩ := validateOperators_of_validateParameter makes
    exact typed_of_validateOperators validOperators
  · intro current type params isValid
    have ofType := (validate_spec isPolicy validates).2.1 type params isValid
    obtain ⟨notInherited, names⟩ := ownNames type ofType.named
    refine ⟨fun _ => notInherited, ?_⟩
    intro held isCurrent name isSome _
    refine names name ?_
    rw [← Option.ne_none_iff_isSome]
    intro isNone
    rw [ofType.absent name isNone] at isSome
    cases isSome

theorem contributed_nil : Contributed [] := by
  refine ⟨⟨rfl, ?_, ?_⟩, ?_, ?_⟩
  · intro type params isEmpty
    cases isEmpty
  · intro type params name ops isEmpty
    cases isEmpty
  · intro type params name ops isEmpty
    cases isEmpty
  · intro current type params isEmpty
    cases isEmpty

theorem contributed_of_contribution (ownNames : OwnNames statement)
    (isContribution : contribution critical statement = .ok valid) :
    Contributed valid := by
  unfold contribution at isContribution
  cases isPolicy : statement.metadataPolicy with
  | none =>
    rw [isPolicy] at isContribution
    cases isContribution
    exact contributed_nil
  | some raw =>
    rw [isPolicy] at isContribution
    exact contributed_of_validate ownNames isPolicy isContribution

/-! ## Merging contributions one by one -/

section Contributions

variable {current next : Policy}

/-- Merging what a statement contributes merges the meanings. -/
theorem meanings_of_merge {builtins : Builtins} {merged : Merging}
    (typed : TypedPolicy current) (contributed : Contributed next)
    (merges : merge ⟨current, builtins⟩ next = .ok merged) :
    PolicyMeaningMerge (policyMeaning current) (policyMeaning next)
        (policyMeaning merged.out) ∧
      TypedPolicy merged.out := by
  have isMerge := policyMerge_of_merge contributed.plain (contributed.namesFine current) merges
  exact
    ⟨policyMeaningMerge_of_policyMerge typed isMerge,
      typedPolicy_of_policyMerge typed contributed.typed isMerge⟩

/-- It is merged whenever its meanings can be. -/
theorem merge_of_meanings {all : PolicyMeaning} (builtins : Builtins)
    (typed : TypedPolicy current) (contributed : Contributed next)
    (merges : PolicyMeaningMerge (policyMeaning current) (policyMeaning next) all) :
    ∃ merged, merge ⟨current, builtins⟩ next = .ok merged ∧ policyMeaning merged.out = all := by
  obtain ⟨merged, isMerged⟩ :=
    merge_ok contributed.plain
      (mergeable_of_meanings contributed.plain typed merges)
      (contributed.namesFine current) builtins
  refine ⟨merged, isMerged, ?_⟩
  exact policyMeaningMerge_determined (meanings_of_merge typed contributed isMerged).1 merges

end Contributions

/-- A chain that resolves merges what its statements contribute. -/
theorem runs_of_resolve {current merged : Merging}
    (ownNames : ∀ statement ∈ statements, OwnNames statement) (typed : TypedPolicy current.out)
    (resolves : statements.foldlM (resolveStatement critical) current = .ok merged) :
    TypedPolicy merged.out ∧
      ∃ valid,
        List.Forall₂
            (fun statement policy => contribution critical statement = .ok policy)
            statements valid ∧
          Runs PolicyMeaningMerge (policyMeaning current.out)
            (valid.map policyMeaning) (policyMeaning merged.out) := by
  induction statements generalizing current with
  | nil =>
    cases resolves
    exact ⟨typed, [], .nil, .nil _⟩
  | cons statement rest ih =>
    rw [foldlM_cons, bind_eq_ok_iff] at resolves
    obtain ⟨next, resolves, later⟩ := resolves
    rw [resolveStatement_eq, bind_eq_ok_iff] at resolves
    obtain ⟨policy, isContribution, merges⟩ := resolves
    have contributed :=
      contributed_of_contribution (ownNames statement mem_cons_self) isContribution
    obtain ⟨isMerge, typedNext⟩ := meanings_of_merge typed contributed merges
    obtain ⟨typedMerged, valid, each, runs⟩ :=
      ih
        (fun one isOne => ownNames one (mem_cons_of_mem _ isOne))
        typedNext later
    exact ⟨typedMerged, policy :: valid, .cons isContribution each, .cons isMerge runs⟩

/-- A chain resolves when the meanings its statements contribute can be merged. -/
theorem resolve_of_runs {valid : List Policy} {all : PolicyMeaning} (current : Merging)
    (ownNames : ∀ statement ∈ statements, OwnNames statement) (typed : TypedPolicy current.out)
    (each :
      List.Forall₂
        (fun statement policy => contribution critical statement = .ok policy)
        statements valid)
    (runs :
      Runs PolicyMeaningMerge (policyMeaning current.out)
        (valid.map policyMeaning) all) :
    ∃ merged,
      statements.foldlM (resolveStatement critical) current = .ok merged ∧
        policyMeaning merged.out = all := by
  induction each generalizing current with
  | nil =>
    cases runs
    exact ⟨current, rfl, rfl⟩
  | cons isContribution _ ih =>
    cases runs with
    | cons first later =>
      have contributed := contributed_of_contribution (ownNames _ mem_cons_self) isContribution
      obtain ⟨next, merges, means⟩ := merge_of_meanings current.builtins typed contributed first
      subst means
      obtain ⟨merged, resolves, means⟩ :=
        ih next
          (fun one isOne => ownNames one (mem_cons_of_mem _ isOne))
          (meanings_of_merge typed contributed merges).2 later
      refine ⟨merged, ?_, means⟩
      rw [foldlM_cons, resolveStatement_eq, isContribution, ok_bind,
        show merge current _ = .ok next from merges]
      exact resolves

/-! ## Every order -/

theorem typedPolicy_nil : TypedPolicy [] := contributed_nil.typed

/-- A chain in another order resolves to a policy of the same meaning. -/
theorem resolve_of_perm (ownNames : ∀ statement ∈ statements, OwnNames statement)
    (perm : statements.Perm statements') (resolves : resolve builtins statements = .ok merged)
    (builtins' : Builtins) :
    ∃ merged',
      resolve builtins' statements' = .ok merged' ∧
        policyMeaning merged'.out = policyMeaning merged.out := by
  rw [resolve, bind_eq_ok_iff] at resolves
  obtain ⟨critical, isCritical, resolves⟩ := resolves
  obtain ⟨critical', isCritical', same⟩ := criticalOf_perm perm isCritical
  obtain ⟨-, valid, each, runs⟩ := runs_of_resolve ownNames typedPolicy_nil resolves
  obtain ⟨valid', each', permValid⟩ := perm_comp_forall₂ perm.symm each
  have each' :
      List.Forall₂
        (fun statement policy => contribution critical' statement = .ok policy)
        statements' valid' := by
    refine each'.imp fun statement policy isContribution => ?_
    unfold contribution at isContribution ⊢
    cases isPolicy : statement.metadataPolicy with
    | none =>
      rw [isPolicy] at isContribution
      exact isContribution
    | some raw =>
      rw [isPolicy] at isContribution
      simp only at isContribution ⊢
      rw [← validate_congr same]
      exact isContribution
  have runs' := runs.perm policyMeaningMerge_exchanges (permValid.symm.map policyMeaning)
  obtain ⟨merged', resolves', means⟩ :=
    resolve_of_runs ⟨[], builtins'⟩
      (fun statement isStatement => ownNames statement (perm.mem_iff.mpr isStatement))
      typedPolicy_nil each' runs'
  refine ⟨merged', ?_, means⟩
  rw [resolve, isCritical']
  exact resolves'

/-! ## Policies of one meaning -/

theorem rel_of_map_eq {Value Value' Meant : Type} {means : Value → Meant} {means' : Value' → Meant}
    {Related : Value → Value' → Prop} {value : Option Value} {value' : Option Value'}
    (each :
      ∀ one other, value = some one → value' = some other →
        means one = means' other → Related one other)
    (same : value.map means = value'.map means') :
    Option.Rel Related value value' := by
  cases value with
  | none =>
    cases value' with
    | none => exact .none
    | some other => cases same
  | some one =>
    cases value' with
    | none => cases same
    | some other => exact .some (each one other rfl rfl (Option.some.inj same))

/-- Values of one meaning are equal, arrays up to their order. -/
theorem sameOperators_of_meanings {ops ops' : Members} (typed : Typed ops) (typed' : Typed ops')
    (same : meanings ops = meanings ops') :
    SameOperators ops ops' := by
  intro op
  refine rel_of_map_eq ?_ (congrFun same op)
  intro v v' isV isV' means
  by_cases isSaid : op = "value" ∨ op = "default"
  · simp only [meaningOf, if_pos isSaid, Meaning.said.injEq] at means
    exact .inl means
  by_cases isEssential : op = "essential"
  · subst isEssential
    obtain ⟨isTrue, rfl⟩ := typed.booleans v isV
    obtain ⟨isTrue', rfl⟩ := typed'.booleans v' isV'
    simp only [meaningOf, if_neg isSaid, if_true, strictEqual_boolean, Meaning.flag.injEq] at means
    rw [means]
    exact .inl rfl
  · obtain ⟨notValue, notDefault⟩ := not_or.mp isSaid
    simp only [meaningOf, if_neg isSaid, if_neg isEssential, Meaning.values.injEq] at means
    refine .inr ⟨?_, ?_, ?_, ?_⟩
    · exact typed.arrays op v notValue notDefault isEssential isV
    · exact typed'.arrays op v' notValue notDefault isEssential isV'
    · exact fun said isSaid => (Set.ext_iff.mp means said).mp isSaid
    · exact fun said isSaid => (Set.ext_iff.mp means said).mpr isSaid

theorem samePolicy_of_meaning {policy policy' : Policy} (typed : TypedPolicy policy)
    (typed' : TypedPolicy policy') (same : policyMeaning policy = policyMeaning policy') :
    SamePolicy policy policy' := by
  intro type
  refine rel_of_map_eq ?_ (congrFun same type)
  intro params params' isParams isParams' same name
  refine rel_of_map_eq ?_ (congrFun same name)
  intro ops ops' isOps isOps' same
  exact
    sameOperators_of_meanings (typed type params name ops isParams isOps)
      (typed' type params' name ops' isParams' isOps') same

theorem typed_of_resolve (ownNames : ∀ statement ∈ statements, OwnNames statement)
    (resolves : resolve builtins statements = .ok merged) :
    TypedPolicy merged.out := by
  rw [resolve, bind_eq_ok_iff] at resolves
  obtain ⟨critical, -, resolves⟩ := resolves
  exact (runs_of_resolve ownNames typedPolicy_nil resolves).1

/--
A list of statements is accepted exactly when every other order of it is, and then
both resolve to the same policy.
-/
theorem resolve_order_independent {statements statements' : List ClaimSet}
    (builtins builtins' : Builtins) (perm : statements.Perm statements')
    (ownNames : ∀ statement ∈ statements, OwnNames statement) :
    ((∃ merged, resolve builtins statements = .ok merged) ↔
      ∃ merged, resolve builtins' statements' = .ok merged) ∧
      ∀ merged merged',
        resolve builtins statements = .ok merged →
          resolve builtins' statements' = .ok merged' → SamePolicy merged.out merged'.out := by
  have ownNames' (statement : ClaimSet) (isStatement : statement ∈ statements') :
      OwnNames statement :=
    ownNames statement (perm.mem_iff.mpr isStatement)
  refine ⟨⟨?_, ?_⟩, ?_⟩
  · rintro ⟨merged, resolves⟩
    obtain ⟨merged', resolves', -⟩ := resolve_of_perm ownNames perm resolves builtins'
    exact ⟨merged', resolves'⟩
  · rintro ⟨merged, resolves⟩
    obtain ⟨merged', resolves', -⟩ := resolve_of_perm ownNames' perm.symm resolves builtins
    exact ⟨merged', resolves'⟩
  · intro merged merged' resolves resolves'
    obtain ⟨other, resolvesOther, means⟩ := resolve_of_perm ownNames perm resolves builtins'
    obtain rfl : other = merged' := Except.ok.inj (resolvesOther.symm.trans resolves')
    exact
      samePolicy_of_meaning (typed_of_resolve ownNames resolves)
        (typed_of_resolve ownNames' resolves') means.symm

/-- A bound on a client's contacts, by parameter. -/
def contactsBound (contacts : List String) : Members :=
  [("contacts", .object 2 [("subset_of", .array 3 (contacts.map Json.string))])]

/-- A statement that bounds a client's contacts. -/
def boundedContacts (contacts : List String) : ClaimSet where
  iss := none
  sub := none
  metadata := none
  metadataPolicy := some (.object 0 [("openid_relying_party", .object 1 (contactsBound contacts))])
  metadataPolicyCrit := none
  constraints := none

theorem eq_of_lookup_isSome {Value : Type} {name other : String} {value : Value}
    (isSome : ([(name, value)].lookup other).isSome = true) :
    other = name := by
  by_contra isOther
  rw [lookup_cons, beq_false_of_ne isOther] at isSome
  cases isSome

theorem ownNames_boundedContacts (contacts : List String) :
    OwnNames (boundedContacts contacts) := by
  intro type isNamed
  have isType :
      ([("openid_relying_party", Json.object 1 (contactsBound contacts))].lookup type).isSome =
        true :=
    Option.isSome_of_isSome_bind isNamed
  obtain rfl := eq_of_lookup_isSome isType
  refine ⟨by decide, fun name isNamed => ?_⟩
  have isName : ((contactsBound contacts).lookup name).isSome = true :=
    Option.isSome_of_isSome_bind isNamed
  obtain rfl := eq_of_lookup_isSome isName
  decide

/-- Two bounds, in both orders. -/
theorem bounds_in_both_orders :
    ((∃ merged,
        resolve [] [boundedContacts ["a", "b"], boundedContacts ["c", "b"]] = .ok merged) ↔
      ∃ merged, resolve [] [boundedContacts ["c", "b"], boundedContacts ["a", "b"]] = .ok merged) ∧
      ∀ merged merged',
        resolve [] [boundedContacts ["a", "b"], boundedContacts ["c", "b"]] =
            .ok merged →
          resolve [] [boundedContacts ["c", "b"], boundedContacts ["a", "b"]] =
              .ok merged' →
            SamePolicy merged.out merged'.out :=
  resolve_order_independent [] [] (.swap _ _ _) fun statement isStatement => by
    rw [mem_pair] at isStatement
    rcases isStatement with rfl | rfl
    · exact ownNames_boundedContacts ["a", "b"]
    · exact ownNames_boundedContacts ["c", "b"]

end IyaSts.MetadataPolicy
