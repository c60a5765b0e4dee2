import IyaSts.MetadataPolicyMeanings

namespace IyaSts.MetadataPolicy

open Json JsObject Fallible MergeOrder

/-!
# Merging policies merges their meanings

What the code does with two values is the rule of their operator, and what it lets
stand beside each other are the meanings that may.  So two policies are merged
exactly when their meanings are, and the merged policy means what comes of these.
-/

open List

/-! ## Operators that were validated -/

/-- Operators this service understands, of values it reads. -/
structure Typed (ops : Members) : Prop where
  known : ∀ op v, ops.lookup op = some v → op ∈ operators
  arrays :
    ∀ op v, op ≠ "value" → op ≠ "default" → op ≠ "essential" →
      ops.lookup op = some v → isArray v = true
  booleans : ∀ v, ops.lookup "essential" = some v → ∃ isTrue, v = .boolean isTrue

/-- A policy of such operators. -/
def TypedPolicy (policy : Policy) : Prop :=
  ∀ type params name ops, policy.lookup type = some params →
    params.lookup name = some ops → Typed ops

/-! ## One operator -/

variable {op : String}

theorem meaningOf_values (isValues : op ≠ "value" ∧ op ≠ "default" ∧ op ≠ "essential") (v : Json) :
    meaningOf op v = .values {said | said ∈ valuesOf v} := by
  unfold meaningOf
  rw [if_neg (by simp [isValues]), if_neg isValues.2.2]

theorem strictEqual_boolean (isTrue : Bool) :
    strictEqual (.boolean isTrue) (.boolean true) = isTrue := by
  cases isTrue <;> rfl

variable (first second : List Json) (ops : Members) (v : Json)

/-- The values of a union and of an intersection, as sets. -/
theorem values_arrayFrom_union :
    {said | said ∈ valuesOf (arrayFrom (union first second))} =
    {said | said ∈ first.map content} ∪
        {said | said ∈ second.map content} := by
  ext said
  exact mem_values_union first second said

theorem values_arrayFrom_intersection :
    {said | said ∈ valuesOf (arrayFrom (intersection first second))} =
    {said | said ∈ first.map content} ∩
        {said | said ∈ second.map content} := by
  ext said
  constructor
  · exact mem_values_intersection
  · rintro ⟨isFirst, isSecond⟩
    obtain ⟨one, isOne, rfl⟩ := mem_map.mp isFirst
    have isKey :
        canonical one ∈ (intersection first second).map canonical :=
      (KeyedList.mem_keys_intersection_iff canonical first second _).mpr
        ⟨mem_map_of_mem isOne, (canonical_mem_iff one second).mpr isSecond⟩
    exact (canonical_mem_iff one _).mp isKey

theorem ruleMerge_said_iff (isSaid : op = "value" ∨ op = "default")
    (mine v : Json) (after : Meaning) :
    RuleMerge op (meaningOf op mine) (meaningOf op v) after ↔
      ∃ merged, mergeOperator op mine v = .ok merged ∧ meaningOf op merged = after := by
  have means (v : Json) : meaningOf op v = .said v.content := by rw [meaningOf, if_pos isSaid]
  rw [means, means, mergeOperator, if_pos isSaid]
  constructor
  · intro merged
    cases after with
    | said content =>
      obtain ⟨equal, rfl⟩ := merged
      rw [if_pos ((same_iff mine v).mpr equal)]
      exact ⟨mine, rfl, means mine⟩
    | _ => exact merged.elim
  · rintro ⟨merged, merges, rfl⟩
    split at merges
    · rename_i equal
      cases merges
      rw [means]
      exact ⟨(same_iff mine v).mp equal, rfl⟩
    · cases merges

theorem ruleMerge_union_iff (isUnion : op = "add" ∨ op = "superset_of")
    (mine v : Json) (after : Meaning) :
    RuleMerge op (meaningOf op mine) (meaningOf op v) after ↔
      ∃ merged, mergeOperator op mine v = .ok merged ∧ meaningOf op merged = after := by
  have isValues : op ≠ "value" ∧ op ≠ "default" ∧ op ≠ "essential" := by
    rcases isUnion with rfl | rfl <;> decide
  have merges : mergeOperator op mine v = .ok (arrayFrom (union (elements mine) (elements v))) := by
    unfold mergeOperator
    rw [if_neg (by simp [isValues]), if_pos isUnion]
  rw [merges, meaningOf_values isValues, meaningOf_values isValues]
  simp only [Except.ok.injEq, exists_eq_left', meaningOf_values isValues, values_arrayFrom_union]
  constructor
  · intro merged
    cases after with
    | values all =>
      simp only [RuleMerge, ValuesMerge, if_pos isUnion] at merged
      rw [merged]
      rfl
    | _ => exact merged.elim
  · rintro rfl
    simp only [RuleMerge, ValuesMerge, if_pos isUnion]
    rfl

theorem intersection_ne_nil_iff :
    intersection first second ≠ [] ↔
    ({said | said ∈ first.map content} ∩
        {said | said ∈ second.map content}).Nonempty := by
  rw [← values_arrayFrom_intersection, valuesOf_arrayFrom]
  constructor
  · intro notEmpty
    obtain ⟨one, isOne⟩ := exists_mem_of_ne_nil _ notEmpty
    exact ⟨one.content, mem_map_of_mem isOne⟩
  · rintro ⟨said, isSaid⟩ isEmpty
    rw [isEmpty] at isSaid
    cases isSaid

theorem ruleMerge_intersection_iff (isIntersection : op = "subset_of" ∨ op = "one_of")
    (mine v : Json) (after : Meaning) :
    RuleMerge op (meaningOf op mine) (meaningOf op v) after ↔
      ∃ merged, mergeOperator op mine v = .ok merged ∧ meaningOf op merged = after := by
  have isValues : op ≠ "value" ∧ op ≠ "default" ∧ op ≠ "essential" := by
    rcases isIntersection with rfl | rfl <;> decide
  have notUnion : ¬ (op = "add" ∨ op = "superset_of") := by
    rcases isIntersection with rfl | rfl <;> decide
  have merges (merged : Json) :
      mergeOperator op mine v = .ok merged ↔
        merged = arrayFrom (intersection (elements mine) (elements v)) ∧
          (op = "one_of" → intersection (elements mine) (elements v) ≠ []) := by
    rcases isIntersection with rfl | rfl
    · simp [mergeOperator]
      exact eq_comm
    · by_cases isEmpty : intersection (elements mine) (elements v) = []
      · simp [mergeOperator, isEmpty]
      · simp [mergeOperator, isEmpty]
        exact eq_comm
  simp only [merges, and_assoc, exists_eq_left, meaningOf_values isValues,
    values_arrayFrom_intersection, intersection_ne_nil_iff]
  constructor
  · intro merged
    cases after with
    | values all =>
      simp only [RuleMerge, ValuesMerge, if_neg notUnion] at merged
      obtain ⟨rfl, nonempty⟩ := merged
      exact ⟨nonempty, rfl⟩
    | _ => exact merged.elim
  · rintro ⟨nonempty, rfl⟩
    simp only [RuleMerge, ValuesMerge, if_neg notUnion]
    exact ⟨rfl, nonempty⟩

theorem ruleMerge_essential_iff (mine v : Json) (after : Meaning) :
    RuleMerge "essential" (meaningOf "essential" mine)
        (meaningOf "essential" v) after ↔
      ∃ merged, mergeOperator "essential" mine v = .ok merged ∧
        meaningOf "essential" merged = after := by
  have means (v : Json) : meaningOf "essential" v = .flag (strictEqual v (.boolean true)) := by
    simp [meaningOf]
  have merges :
      mergeOperator "essential" mine v =
        .ok (.boolean (strictEqual mine (.boolean true) || strictEqual v (.boolean true))) := by
    simp [mergeOperator]
  rw [merges, means, means]
  simp only [Except.ok.injEq, exists_eq_left', means, strictEqual_boolean]
  constructor
  · intro merged
    cases after with
    | flag isTrue => exact congrArg Meaning.flag (Eq.symm merged)
    | _ => exact merged.elim
  · rintro rfl
    exact rfl

/-- The rule of an operator is what the code does with its values. -/
theorem ruleMerge_iff (isOperator : op ∈ operators) (mine v : Json) (after : Meaning) :
    RuleMerge op (meaningOf op mine) (meaningOf op v) after ↔
      ∃ merged, mergeOperator op mine v = .ok merged ∧ meaningOf op merged = after := by
  simp only [operators, mem_cons, not_mem_nil, or_false] at isOperator
  rcases isOperator with
    rfl | rfl | rfl | rfl | rfl | rfl | rfl
  · exact ruleMerge_said_iff (.inl rfl) mine v after
  · exact ruleMerge_union_iff (.inl rfl) mine v after
  · exact ruleMerge_said_iff (.inr rfl) mine v after
  · exact ruleMerge_intersection_iff (.inr rfl) mine v after
  · exact ruleMerge_intersection_iff (.inl rfl) mine v after
  · exact ruleMerge_union_iff (.inr rfl) mine v after
  · exact ruleMerge_essential_iff mine v after

/-! ## What may be combined -/

theorem problem_eq_empty_iff {p : Prop} [Decidable p] {problem rest : String}
    (isProblem : problem ≠ "") :
    (if p then problem else rest) = "" ↔ ¬ p ∧ rest = "" := by
  split
  · rename_i holds
    simp [isProblem, holds]
  · rename_i fails
    simp [fails]

theorem valueProblem_null_iff :
    valueProblem ops .null = "" ↔
      has ops "add" = false ∧ has ops "default" = false ∧ isEssential ops = false := by
  simp only [valueProblem]
  rw [problem_eq_empty_iff (by decide), problem_eq_empty_iff (by decide),
    problem_eq_empty_iff (by decide)]
  simp

theorem valueProblem_iff {v : Json} (notNull : v ≠ .null) (ops : Members) :
    valueProblem ops v = "" ↔
      (has ops "add" = true →
        isArray v = true ∧ (listed ops "add").map canonical ⊆ (elements v).map canonical) ∧
      (has ops "one_of" = true → ∃ one ∈ listed ops "one_of", one.content = v.content) ∧
      (has ops "subset_of" = true →
        isArray v = true ∧ (elements v).map canonical ⊆ (listed ops "subset_of").map canonical) ∧
      (has ops "superset_of" = true →
        isArray v = true ∧
          (listed ops "superset_of").map canonical ⊆ (elements v).map canonical) := by
  have unfolded :
      valueProblem ops v =
        if has ops "add" ∧
            ¬ (isArray v ∧ subsetOf (listed ops "add") (elements v)) then
          "the values of add must be a subset of value"
        else if has ops "one_of" ∧
            ¬ (listed ops "one_of").any (fun one => same one v) then
          "value must be among the one_of values"
        else if has ops "subset_of" ∧
            ¬ (isArray v ∧
              subsetOf (elements v) (listed ops "subset_of")) then
          "the values of value must be a subset of subset_of"
        else if has ops "superset_of" ∧
            ¬ (isArray v ∧
              subsetOf (listed ops "superset_of") (elements v)) then
          "the values of value must be a superset of superset_of"
        else
          "" := by
    cases v with
    | null => exact absurd rfl notNull
    | _ => rfl
  rw [unfolded, problem_eq_empty_iff (by decide), problem_eq_empty_iff (by decide),
    problem_eq_empty_iff (by decide), problem_eq_empty_iff (by decide)]
  simp only [not_and_not_right, subsetOf_iff, any_eq_true, same_iff, and_true]

/-- Operators without a combination problem, rule by rule. -/
theorem combinationProblem_iff :
    combinationProblem ops = "" ↔
    (has ops "one_of" = true →
        has ops "add" = false ∧ has ops "subset_of" = false ∧ has ops "superset_of" = false) ∧
    (∀ v, ops.lookup "value" = some v → valueProblem ops v = "") ∧
    (has ops "add" = true → has ops "subset_of" = true →
        (listed ops "add").map canonical ⊆ (listed ops "subset_of").map canonical) ∧
    (has ops "subset_of" = true → has ops "superset_of" = true →
        (listed ops "superset_of").map canonical ⊆ (listed ops "subset_of").map canonical) := by
  have forbidden :
      (∀ pair ∈ forbiddenPairs, ¬ (has ops pair.1 && has ops pair.2) = true) ↔
        (has ops "one_of" = true →
          has ops "add" = false ∧ has ops "subset_of" = false ∧ has ops "superset_of" = false) := by
    simp only [forbiddenPairs, mem_cons, not_mem_nil, or_false, forall_eq_or_imp,
      forall_eq, Bool.and_eq_true, not_and, Bool.not_eq_true]
    constructor
    · rintro ⟨add, subset, superset⟩ isOneOf
      exact ⟨add isOneOf, subset isOneOf, superset isOneOf⟩
    · intro alone
      exact
        ⟨fun isOneOf => (alone isOneOf).1, fun isOneOf => (alone isOneOf).2.1,
          fun isOneOf => (alone isOneOf).2.2⟩
  have beside :
      besideValue ops = "" ↔ ∀ v, ops.lookup "value" = some v → valueProblem ops v = "" := by
    unfold besideValue
    cases ops.lookup "value" with
    | none => simp
    | some v => simp
  rw [← forbidden]
  unfold combinationProblem
  cases found :
      forbiddenPairs.find? fun pair => has ops pair.1 && has ops pair.2 with
  | some pair =>
    have isPair := List.find?_some found
    have isForbidden := mem_of_find?_eq_some found
    refine iff_of_false ?_ fun fine => fine.1 pair isForbidden isPair
    intro isEmpty
    have text := congrArg String.toList isEmpty
    simp at text
  | none =>
    rw [List.find?_eq_none] at found
    simp only
    rw [and_iff_right found]
    by_cases noValueProblem : besideValue ops = ""
    · rw [if_neg (not_not.mpr noValueProblem), and_iff_right (beside.mp noValueProblem),
        problem_eq_empty_iff (by decide), problem_eq_empty_iff (by decide)]
      simp only [not_and, not_not, subsetOf_iff, and_true]
    · rw [if_pos noValueProblem]
      refine iff_of_false noValueProblem fun fine => ?_
      exact noValueProblem (beside.mpr fine.1)

/-! ## The meanings that may be combined -/

theorem has_eq_true_iff (op : String) :
    has ops op = true ↔ meanings ops op ≠ none := by
  unfold has meanings
  cases ops.lookup op <;> simp

theorem has_eq_false_iff (op : String) :
    has ops op = false ↔ meanings ops op = none := by
  unfold has meanings
  cases ops.lookup op <;> simp

theorem isEssential_iff :
    isEssential ops = true ↔ meanings ops "essential" = some (.flag true) := by
  unfold isEssential meanings
  cases ops.lookup "essential" with
  | none => simp
  | some v => simp [meaningOf]

/-- What holds of the content of `value`. -/
theorem forall_said_iff (Holds : Content → Prop) :
    (∀ said, meanings ops "value" = some (.said said) → Holds said) ↔
      ∀ v, ops.lookup "value" = some v → Holds v.content := by
  unfold meanings
  cases ops.lookup "value" with
  | none => simp
  | some v => simp [meaningOf]

/-- What holds of the set of an operator's values. -/
theorem forall_values_iff (isValues : op ≠ "value" ∧ op ≠ "default" ∧ op ≠ "essential")
    (ops : Members) (Holds : Set Content → Prop) :
    (∀ all, meanings ops op = some (.values all) → Holds all) ↔
      (has ops op = true → Holds {said | said ∈ (listed ops op).map content}) := by
  unfold meanings has listed
  cases ops.lookup op with
  | none => simp
  | some v =>
    simp only [Option.map_some, meaningOf_values isValues, Option.some.injEq, Meaning.values.injEq,
      forall_eq', Option.isSome_some, forall_const, Option.getD_some]
    rfl

theorem values_subset_iff :
    {said | said ∈ first.map content} ⊆ {said | said ∈ second.map content} ↔
      first.map canonical ⊆ second.map canonical :=
  Iff.symm (keysOf_subset_iff (arrayFrom first) (arrayFrom second))

theorem exists_array_iff (Holds : List Content → Prop) :
    (∃ values, v.content = .array values ∧ Holds values) ↔
      isArray v = true ∧ Holds ((elements v).map content) := by
  cases v with
  | array identity values => simp [content, contents_eq, isArray, elements]
  | _ => simp [content, isArray]

theorem content_ne_null_iff : v.content ≠ .null ↔ v ≠ .null := by cases v <;> simp [content]

/-- What may stand beside a `value` that is not null, an operator at a time. -/
theorem beside_iff (isValues : op ≠ "value" ∧ op ≠ "default" ∧ op ≠ "essential") (ops : Members)
    (Stands : Json → List Json → Prop) (Means : Content → Set Content → Prop)
    (same : ∀ v all, Stands v all ↔ Means v.content {said | said ∈ all.map content}) :
    (∀ said all, meanings ops "value" = some (.said said) → said ≠ .null →
        meanings ops op = some (.values all) → Means said all) ↔
      ∀ v, ops.lookup "value" = some v → v ≠ .null → has ops op = true →
        Stands v (listed ops op) := by
  constructor
  · intro means v isValue notNull isHeld
    rw [same]
    refine (forall_values_iff isValues ops _).mp ?_ isHeld
    intro all isAll
    refine means v.content all ?_ ((content_ne_null_iff v).mpr notNull) isAll
    simp [meanings, isValue, meaningOf]
  · intro stands said all isSaid
    refine (forall_said_iff ops fun said => said ≠ .null →
      meanings ops op = some (.values all) → Means said all).mpr ?_ said isSaid
    intro v isValue notNull isAll
    refine (forall_values_iff isValues ops (Means v.content)).mpr ?_ all isAll
    intro isHeld
    rw [← same]
    exact stands v isValue ((content_ne_null_iff v).mp notNull) isHeld

/-- The values of two operators within each other. -/
theorem within_iff {op among : String} (isValues : op ≠ "value" ∧ op ≠ "default" ∧ op ≠ "essential")
    (isValues' : among ≠ "value" ∧ among ≠ "default" ∧ among ≠ "essential") (ops : Members) :
    (∀ small big, meanings ops op = some (.values small) →
        meanings ops among = some (.values big) → small ⊆ big) ↔
      (has ops op = true → has ops among = true →
        (listed ops op).map canonical ⊆ (listed ops among).map canonical) := by
  constructor
  · intro within isHeld isHeld'
    rw [← values_subset_iff]
    refine (forall_values_iff isValues ops fun small => small ⊆ _).mp ?_ isHeld
    intro small isSmall
    exact
      (forall_values_iff isValues' ops fun big => small ⊆ big).mp
        (fun big => within small big isSmall) isHeld'
  · intro within small big isSmall isBig
    refine (forall_values_iff isValues ops fun small => small ⊆ big).mpr ?_ small isSmall
    intro isHeld
    refine (forall_values_iff isValues' ops fun big => _ ⊆ big).mpr ?_ big isBig
    intro isHeld'
    exact (values_subset_iff _ _).mpr (within isHeld isHeld')

/-- Operators have no combination problem exactly when their meanings may stand
beside each other. -/
theorem combinationProblem_eq_empty_iff :
    combinationProblem ops = "" ↔ Fine (meanings ops) := by
  have isAdd : "add" ≠ "value" ∧ "add" ≠ "default" ∧ "add" ≠ "essential" := by decide
  have isOneOf : "one_of" ≠ "value" ∧ "one_of" ≠ "default" ∧ "one_of" ≠ "essential" := by decide
  have isSubset : "subset_of" ≠ "value" ∧ "subset_of" ≠ "default" ∧ "subset_of" ≠ "essential" := by
    decide
  have isSuperset :
      "superset_of" ≠ "value" ∧ "superset_of" ≠ "default" ∧ "superset_of" ≠ "essential" := by
    decide
  have besideAdd :=
    beside_iff isAdd ops
      (fun v all => isArray v = true ∧ all.map canonical ⊆ (elements v).map canonical)
      (fun said all => ∃ values, said = .array values ∧ all ⊆ {one | one ∈ values})
      (by
        intro v all
        rw [exists_array_iff, ← values_subset_iff])
  have besideOneOf :=
    beside_iff isOneOf ops
      (fun v all => ∃ one ∈ all, one.content = v.content)
      (fun said all => said ∈ all)
      (by
        intro v all
        simp only [Set.mem_ofPred_eq, mem_map])
  have besideSubset :=
    beside_iff isSubset ops
      (fun v all => isArray v = true ∧ (elements v).map canonical ⊆ all.map canonical)
      (fun said all => ∃ values, said = .array values ∧ {one | one ∈ values} ⊆ all)
      (by
        intro v all
        rw [exists_array_iff, ← values_subset_iff])
  have besideSuperset :=
    beside_iff isSuperset ops
      (fun v all => isArray v = true ∧ all.map canonical ⊆ (elements v).map canonical)
      (fun said all => ∃ values, said = .array values ∧ all ⊆ {one | one ∈ values})
      (by
        intro v all
        rw [exists_array_iff, ← values_subset_iff])
  have nullValue : meanings ops "value" = some (.said .null) ↔ ops.lookup "value" = some .null := by
    unfold meanings
    cases ops.lookup "value" with
    | none => simp
    | some v => cases v <;> simp [meaningOf, content]
  rw [combinationProblem_iff]
  constructor
  · rintro ⟨oneOfAlone, value, addSubset, supersetSubset⟩
    have notNull (v : Json) (isValue : ops.lookup "value" = some v)
        (notNull : v ≠ .null) :=
      (valueProblem_iff notNull ops).mp (value v isValue)
    refine ⟨?_, ?_, ?_, ?_, ?_, ?_, ?_, ?_⟩
    · intro isHeld
      rw [← has_eq_true_iff] at isHeld
      obtain ⟨add, subset, superset⟩ := oneOfAlone isHeld
      exact
        ⟨(has_eq_false_iff ops _).mp add, (has_eq_false_iff ops _).mp subset,
          (has_eq_false_iff ops _).mp superset⟩
    · intro isNull
      obtain ⟨add, default, essential⟩ :=
        (valueProblem_null_iff ops).mp (value _ (nullValue.mp isNull))
      refine ⟨(has_eq_false_iff ops _).mp add, (has_eq_false_iff ops _).mp default, ?_⟩
      rw [Ne, ← isEssential_iff, Bool.not_eq_true]
      exact essential
    · exact besideAdd.mpr fun v isValue isNull => (notNull v isValue isNull).1
    · exact besideOneOf.mpr fun v isValue isNull => (notNull v isValue isNull).2.1
    · exact besideSubset.mpr fun v isValue isNull => (notNull v isValue isNull).2.2.1
    · exact besideSuperset.mpr fun v isValue isNull => (notNull v isValue isNull).2.2.2
    · exact (within_iff isAdd isSubset ops).mpr addSubset
    · exact (within_iff isSuperset isSubset ops).mpr fun isHeld isHeld' =>
        supersetSubset isHeld' isHeld
  · intro fine
    refine ⟨?_, ?_, ?_, ?_⟩
    · intro isHeld
      obtain ⟨add, subset, superset⟩ := fine.oneOfAlone ((has_eq_true_iff ops _).mp isHeld)
      exact
        ⟨(has_eq_false_iff ops _).mpr add, (has_eq_false_iff ops _).mpr subset,
          (has_eq_false_iff ops _).mpr superset⟩
    · intro v isValue
      by_cases isNull : v = .null
      · subst isNull
        obtain ⟨add, default, essential⟩ := fine.nullAlone (nullValue.mpr isValue)
        refine
          (valueProblem_null_iff ops).mpr
            ⟨(has_eq_false_iff ops _).mpr add, (has_eq_false_iff ops _).mpr default, ?_⟩
        rw [← Bool.not_eq_true, isEssential_iff]
        exact essential
      · exact
          (valueProblem_iff isNull ops).mpr
            ⟨besideAdd.mp fine.valueAdd v isValue isNull,
              besideOneOf.mp fine.valueOneOf v isValue isNull,
              besideSubset.mp fine.valueSubset v isValue isNull,
              besideSuperset.mp fine.valueSuperset v isValue isNull⟩
    · exact (within_iff isAdd isSubset ops).mp fine.addSubset
    · intro isHeld isHeld'
      exact (within_iff isSuperset isSubset ops).mp fine.supersetSubset isHeld' isHeld

/-! ## One parameter -/

section Parameter

variable {held sub merged : Members}

/-- Merging operators merges what they mean. -/
theorem meaningsMerge_of_operators (typed : Typed held)
    (merges :
      ∀ op,
        OperatorMerge op (held.lookup op) (sub.lookup op)
          (merged.lookup op)) :
    MeaningsMerge (meanings held) (meanings sub) (meanings merged) := by
  intro op
  refine OrTaken.map ?_ (merges op)
  intro mine v value isHeld _ _ merges
  exact (ruleMerge_iff (typed.known op mine isHeld) mine v _).mpr ⟨value, merges, rfl⟩

/-- What comes of operators that were validated is of values the service reads. -/
theorem typed_of_operators (ofHeld : Typed held) (ofSub : Typed sub)
    (merges :
      ∀ op,
        OperatorMerge op (held.lookup op) (sub.lookup op)
          (merged.lookup op)) :
    Typed merged := by
  have origin (op : String) (v : Json) (isMerged : merged.lookup op = some v) :
      held.lookup op = some v ∨ sub.lookup op = some v ∨
        ∃ mine theirs,
          held.lookup op = some mine ∧ sub.lookup op = some theirs ∧
            mergeOperator op mine theirs = .ok v := by
    have merge := merges op
    rw [isMerged] at merge
    exact OrTaken.of_some merge
  refine ⟨?_, ?_, ?_⟩
  · intro op v isMerged
    rcases origin op v isMerged with isHeld | isSub | ⟨mine, _, isHeld, _, _⟩
    · exact ofHeld.known op v isHeld
    · exact ofSub.known op v isSub
    · exact ofHeld.known op mine isHeld
  · intro op v notValue notDefault notEssential isMerged
    rcases origin op v isMerged with
      isHeld | isSub | ⟨mine, theirs, isHeld, _, merges⟩
    · exact ofHeld.arrays op v notValue notDefault notEssential isHeld
    · exact ofSub.arrays op v notValue notDefault notEssential isSub
    · have isOperator := ofHeld.known op mine isHeld
      simp only [operators, mem_cons, not_mem_nil, or_false,
        notValue, notDefault, notEssential, false_or] at isOperator
      rcases isOperator with rfl | rfl | rfl | rfl
      · rw [mergeOperator_union (.inl rfl) merges]
        rfl
      · rw [mergeOperator_intersection (.inr rfl) merges]
        rfl
      · rw [mergeOperator_intersection (.inl rfl) merges]
        rfl
      · rw [mergeOperator_union (.inr rfl) merges]
        rfl
  · intro v isMerged
    rcases origin _ v isMerged with isHeld | isSub | ⟨_, _, _, _, merges⟩
    · exact ofHeld.booleans v isHeld
    · exact ofSub.booleans v isSub
    · exact ⟨_, mergeOperator_essential merges⟩

/-- Merging a parameter merges what it means. -/
theorem meaningMerge_of_parameter (typed : Typed held) (merges : ParameterMerge held sub merged) :
    ParameterMeaningMerge (meanings held) (meanings sub) (meanings merged) :=
  ⟨meaningsMerge_of_operators typed merges.1, (combinationProblem_eq_empty_iff merged).mp merges.2⟩

/-- A parameter is merged when its meanings can be. -/
theorem parameterMerge_of_meanings {all : Meanings} (writable : sub.lookup "__proto__" = none)
    (typed : Typed held) (merges : ParameterMeaningMerge (meanings held) (meanings sub) all) :
    ∃ merged, ParameterMerge held sub merged := by
  have each (op : String) (mine v : Json)
      (isHeld : held.lookup op = some mine) (isSub : sub.lookup op = some v) :
      ∃ merged, mergeOperator op mine v = .ok merged := by
    have merge := merges.1 op
    unfold meanings at merge
    rw [isHeld, isSub] at merge
    obtain ⟨after, merge, -⟩ := merge
    obtain ⟨merged, merges, -⟩ := (ruleMerge_iff (typed.known op mine isHeld) mine v after).mp merge
    exact ⟨merged, merges⟩
  obtain ⟨merged, mergesOperators⟩ := mergeOperators_ok writable each ""
  have eachMerged (op : String) :=
    operatorMerge_of_lookup (mergeOperators_lookup writable mergesOperators op)
  have same : meanings merged = all :=
    meaningsMerge_determined (meaningsMerge_of_operators typed eachMerged) merges.1
  refine ⟨merged, eachMerged, ?_⟩
  rw [combinationProblem_eq_empty_iff, same]
  exact merges.2

end Parameter

/-! ## Policies -/

/-- Two merged policies mean what comes of merging their meanings. -/
theorem policyMeaningMerge_of_policyMerge {current next merged : Policy}
    (typed : TypedPolicy current) (merges : PolicyMerge current next merged) :
    PolicyMeaningMerge (policyMeaning current) (policyMeaning next) (policyMeaning merged) := by
  intro type
  refine OrTaken.map ?_ (merges type)
  intro held params value isHeld _ _ merges name
  refine OrTaken.map ?_ (merges name)
  intro ops sub merged isOps _ _ merges
  exact meaningMerge_of_parameter (typed type held name ops isHeld isOps) merges

theorem typedPolicy_of_policyMerge {current next merged : Policy}
    (ofCurrent : TypedPolicy current) (ofNext : TypedPolicy next)
    (merges : PolicyMerge current next merged) :
    TypedPolicy merged := by
  intro type params name ops isMerged isOps
  have merge := merges type
  rw [isMerged] at merge
  rcases OrTaken.of_some merge with
    isCurrent | isNext | ⟨held, next', isCurrent, isNext, merges⟩
  · exact ofCurrent type params name ops isCurrent isOps
  · exact ofNext type params name ops isNext isOps
  · have merge := merges name
    rw [isOps] at merge
    rcases OrTaken.of_some merge with
      isHeld | isSub | ⟨mine, sub, isHeld, isSub, merges⟩
    · exact ofCurrent type held name ops isCurrent isHeld
    · exact ofNext type next' name ops isNext isSub
    · exact
        typed_of_operators (ofCurrent type held name mine isCurrent isHeld)
          (ofNext type next' name sub isNext isSub) merges.1

/-- Policies whose meanings can be merged can be. -/
theorem mergeable_of_meanings {current next : Policy} {all : PolicyMeaning}
    (plain : Plain next) (typed : TypedPolicy current)
    (merges : PolicyMeaningMerge (policyMeaning current) (policyMeaning next) all) :
    Mergeable current next := by
  intro type held params isCurrent isNext name ops sub isHeld isSub
  have merge := merges type
  unfold policyMeaning at merge
  rw [isCurrent, isNext] at merge
  obtain ⟨names, merge, -⟩ := merge
  have merge := merge name
  simp only [isHeld, isSub, Option.map_some] at merge
  obtain ⟨all, merge, -⟩ := merge
  exact
    parameterMerge_of_meanings
      (plain.operators type params name sub isNext isSub)
      (typed type held name ops isCurrent isHeld) merge

end IyaSts.MetadataPolicy
