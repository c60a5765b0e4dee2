import IyaSts.ReportFilter
import Mathlib.Data.Rat.Encodable

namespace IyaSts.Report

/-!
# When a filter is evaluated as it was posted

Checking, copying and matching are three recursions over one tree.  A filter
that is accepted spells a condition exactly where no operand in it is null, and
its rows are then those of which the condition holds.
-/

open List

open Binary64 (Number)

/-! ## Matching -/

def Leaf.node : Leaf → Node
  | .isNull field => .isNull field
  | .compare comparison field operand => .leaf comparison.op field (.scalar operand)
  | .within field operands => .leaf "in" field (.array (operands.map .scalar))

mutual

/-- A condition as a plan holds it. -/
def Condition.node : Condition → Node
  | .and args => .and (argNodes args)
  | .or args => .or (argNodes args)
  | .not arg => .not arg.node
  | .leaf leaf => leaf.node

def argNodes : List Condition → List Node
  | [] => []
  | arg :: rest => arg.node :: argNodes rest

end

section

variable {platform : Platform}
variable {type : FieldType}

/-- A value stands for a time where it has a stamp, which is that time. -/
theorem stamp_cases (value : Scalar) :
    (stamp platform (.scalar value) = none ∧ value.instant platform = none) ∨
      ∃ negative magnitude,
        stamp platform (.scalar value) = some (.finite negative magnitude) ∧
          value.instant platform = some (Number.exactly negative magnitude) := by
  cases value with
  | number value =>
    cases value with
    | finite negative magnitude => exact .inr ⟨negative, magnitude, rfl, rfl⟩
    | nan => exact .inl ⟨rfl, rfl⟩
    | infinite negative => exact .inl ⟨rfl, rfl⟩
  | string text =>
    rw [stamp, Scalar.instant]
    cases platform.dateParse text with
    | finite negative magnitude => exact .inr ⟨negative, magnitude, rfl, rfl⟩
    | nan => exact .inl ⟨rfl, rfl⟩
    | infinite negative => exact .inl ⟨rfl, rfl⟩
  | undefined => exact .inl ⟨rfl, rfl⟩
  | null => exact .inl ⟨rfl, rfl⟩
  | boolean value => exact .inl ⟨rfl, rfl⟩

variable (negative negative' : Bool) (left right : Scalar)

theorem strictEqual_finite_iff (magnitude magnitude' : ℚ≥0) :
    Number.strictEqual (.finite negative magnitude) (.finite negative' magnitude') = true ↔
      Number.exactly negative magnitude = Number.exactly negative' magnitude' := by
  rw [Number.strictEqual_iff]
  refine (and_iff_right rfl).trans ((and_iff_right rfl).trans ?_)
  rw [Number.place, Number.place, WithTop.coe_inj, WithBot.coe_inj]

theorem less_finite_iff (magnitude magnitude' : ℚ≥0) :
    Number.less (.finite negative magnitude) (.finite negative' magnitude') = true ↔
      Number.exactly negative magnitude < Number.exactly negative' magnitude' := by
  rw [Number.less_iff]
  refine (and_iff_right rfl).trans ((and_iff_right rfl).trans ?_)
  rw [Number.place, Number.place, WithTop.coe_lt_coe, WithBot.coe_lt_coe]

theorem strictEqual_scalar_iff :
    strictEqual (.scalar left) (.scalar right) = true ↔ left.Is right := by
  cases left <;> cases right <;> simp [strictEqual, Scalar.Is, Number.strictEqual_iff]

theorem same_iff :
    same platform type (.scalar left) (.scalar right) = true ↔ Equal platform type left right := by
  rw [same, Equal]
  split
  · rcases @stamp_cases platform left with ⟨noStamp, noTime⟩ | ⟨negative, magnitude, isStamp, isTime⟩
    · rw [noStamp, noTime]
      simp
    · rcases @stamp_cases platform right with ⟨noStamp, noTime⟩ |
        ⟨negative', magnitude', isStamp', isTime'⟩
      · rw [noStamp, noTime]
        simp
      · rw [isStamp, isStamp', isTime, isTime']
        dsimp only
        rw [strictEqual_finite_iff]
        simp [eq_comm]
  · exact strictEqual_scalar_iff left right

theorem before_iff :
    before platform type (.scalar left) (.scalar right) = true ↔ Less platform type left right := by
  rw [before.eq_def, Less]
  split
  · rcases @stamp_cases platform left with ⟨noStamp, noTime⟩ | ⟨negative, magnitude, isStamp, isTime⟩
    · rw [noStamp, noTime]
      simp
    · rcases @stamp_cases platform right with ⟨noStamp, noTime⟩ |
        ⟨negative', magnitude', isStamp', isTime'⟩
      · rw [noStamp, noTime]
        simp
      · rw [isStamp, isStamp', isTime, isTime']
        dsimp only
        rw [less_finite_iff]
        simp
  · cases left with
    | number value =>
      cases right with
      | number wanted =>
        dsimp only
        rw [Number.less_iff]
        constructor
        · intro isLess
          exact ⟨value, wanted, rfl, rfl, isLess⟩
        · rintro ⟨_, _, ⟨rfl⟩, ⟨rfl⟩, isLess⟩
          exact isLess
      | _ => simp
    | _ => simp

theorem anyPartSame_iff (field : String) (value wanted : Scalar) :
    anyPartSame platform type field value (.scalar wanted) = true ↔
      HasPart platform type field value wanted := by
  rw [anyPartSame, any_eq_true, HasPart]
  exact exists_congr fun part => and_congr_right fun _ => same_iff part wanted

theorem contains_iff (value operand : Scalar) :
    onTexts (fun wanted value => wanted <:+: value) value (.scalar operand) = true ↔
      ∃ before after wanted,
        operand = .string wanted ∧
          value = .string (String.ofList (before ++ wanted.toList ++ after)) := by
  cases operand with
  | string wanted =>
    cases value with
    | string text =>
      rw [onTexts, decide_eq_true_iff, List.IsInfix]
      constructor
      · rintro ⟨before, after, isText⟩
        exact ⟨before, after, wanted, rfl, by rw [isText, String.ofList_toList]⟩
      · rintro ⟨before, after, _, ⟨rfl⟩, isText⟩
        exact ⟨before, after, by rw [Scalar.string.inj isText, String.toList_ofList]⟩
    | _ => simp [onTexts]
  | _ => cases value <;> simp [onTexts]

theorem startsWith_iff (value operand : Scalar) :
    onTexts (fun wanted value => wanted <+: value) value (.scalar operand) = true ↔
      ∃ after wanted,
        operand = .string wanted ∧ value = .string (String.ofList (wanted.toList ++ after)) := by
  cases operand with
  | string wanted =>
    cases value with
    | string text =>
      rw [onTexts, decide_eq_true_iff, List.IsPrefix]
      constructor
      · rintro ⟨after, isText⟩
        exact ⟨after, wanted, rfl, by rw [isText, String.ofList_toList]⟩
      · rintro ⟨after, _, ⟨rfl⟩, isText⟩
        exact ⟨after, by rw [Scalar.string.inj isText, String.toList_ofList]⟩
    | _ => simp [onTexts]
  | _ => cases value <;> simp [onTexts]

variable {types : String → Option FieldType}
variable {row : Row}

/-- A comparison is made as it means. -/
theorem compareLeaf_iff (comparison : Comparison) (field : String) (operand : Scalar) :
    compareLeaf platform types comparison.op field (.scalar operand) row = true ↔
      comparison.Holds platform ((types field).getD .string) field (row.value field) operand := by
  rw [compareLeaf.eq_def]
  cases comparison with
  | eq => exact anyPartSame_iff field _ operand
  | ne =>
    refine Iff.trans ?_ (not_congr (anyPartSame_iff field _ operand))
    rw [Bool.not_eq_true, ← Bool.not_eq_true']
    rfl
  | contains => exact contains_iff _ operand
  | startsWith => exact startsWith_iff _ operand
  | lt => exact before_iff _ operand
  | le => exact (Bool.or_eq_true _ _).to_iff.trans (or_congr (before_iff _ _) (same_iff _ _))
  | gt => exact before_iff operand _
  | ge => exact (Bool.or_eq_true _ _).to_iff.trans (or_congr (before_iff _ _) (same_iff _ _))

theorem leaf_matches_iff (leaf : Leaf) :
    matchesNode platform types row leaf.node = true ↔ leaf.Holds platform types row := by
  cases leaf with
  | isNull field =>
    rw [Leaf.node, matchesNode, Leaf.Holds]
    simp [isEmpty, or_assoc]
  | compare comparison field operand => exact compareLeaf_iff comparison field operand
  | within field operands =>
    rw [Leaf.node, matchesNode, Leaf.Holds, compareLeaf.eq_def]
    dsimp only
    rw [if_pos rfl, any_map, any_eq_true]
    exact exists_congr fun operand => and_congr_right fun _ => anyPartSame_iff field _ operand

/-- The rows of a plan's filter are those of which its condition holds. -/
theorem matchesNode_iff (condition : Condition) :
    matchesNode platform types row condition.node = true ↔
      condition.Evaluates (Leaf.Holds platform types row) := by
  induction condition using Condition.induction with
  | and args ih =>
    rw [Condition.node, matchesNode, Condition.Evaluates]
    induction args with
    | nil => exact iff_of_true rfl trivial
    | cons arg rest restHypothesis =>
      obtain ⟨first, others⟩ := forall_mem_cons.mp ih
      rw [argNodes, matchesEvery, Bool.and_eq_true, EvaluatesEvery, first, restHypothesis others]
  | or args ih =>
    rw [Condition.node, matchesNode, Condition.Evaluates]
    induction args with
    | nil => exact iff_of_false Bool.false_ne_true id
    | cons arg rest restHypothesis =>
      obtain ⟨first, others⟩ := forall_mem_cons.mp ih
      rw [argNodes, matchesSome, Bool.or_eq_true, EvaluatesSome, first, restHypothesis others]
  | not arg ih =>
    rw [Condition.node, matchesNode, Condition.Evaluates, ← ih, Bool.not_eq_true']
    exact (Bool.not_eq_true _).symm.to_iff
  | leaf leaf => exact leaf_matches_iff leaf

end

/-! ## Checking -/

theorem mem_ownKeys_iff {node : Members} {name : String} :
    name ∈ ownKeys node ↔ (node.lookup name).isSome = true := by
  rw [ownKeys, mem_map]
  constructor
  · rintro ⟨⟨key, value⟩, isEntry, rfl⟩
    rw [(Json.mem_entries_iff node key value).mp isEntry]
    rfl
  · intro isSome
    obtain ⟨value, isValue⟩ := Option.isSome_iff_exists.mp isSome
    exact ⟨(name, value), (Json.mem_entries_iff node name value).mpr isValue, rfl⟩

/-- Of two keys, two that differ are all. -/
theorem hasKeys_of_two {node : Members} {first second : String} (two : (ownKeys node).length = 2)
    (isFirst : first ∈ ownKeys node) (isSecond : second ∈ ownKeys node) (differ : first ≠ second) :
    HasKeys node [first, second] := by
  intro name
  rw [← mem_ownKeys_iff]
  obtain ⟨one, other, isKeys⟩ := length_eq_two.mp two
  rw [isKeys] at isFirst isSecond ⊢
  simp only [mem_cons, not_mem_nil, or_false] at isFirst isSecond ⊢
  grind

theorem spells_of_member {node : Members} {name text : String}
    (isText : member node name = .scalar (.string text)) :
    Spells node name text := by
  rw [member] at isText
  rw [Spells]
  cases isFound : node.lookup name with
  | none =>
    rw [isFound] at isText
    cases isText
  | some value =>
    rw [isFound] at isText
    exact congrArg some isText

theorem Spells.text {node : Members} {name text : String} (spells : Spells node name text) :
    (member node name).text = text := by
  have isText : node.lookup name = some (.scalar (.string text)) := spells
  rw [member, isText]
  rfl

theorem Spells.mem_ownKeys {node : Members} {name text : String} (spells : Spells node name text) :
    name ∈ ownKeys node := by
  have isText : node.lookup name = some (.scalar (.string text)) := spells
  rw [mem_ownKeys_iff, isText]
  rfl

section

variable {platform : Platform}
variable {catalog : Catalog}
variable {parameters : Option Members}
variable {source : String}

/-- A text is a time where `Date.parse` reads one. -/
theorem instant_string_isSome_iff (text : String) :
    ((Scalar.string text).instant platform).isSome = true ↔
      ((platform.dateParse text).isNaN || (platform.dateParse text).isInfinite) = false := by
  rw [Scalar.instant]
  cases platform.dateParse text with
  | nan => exact iff_of_false Bool.false_ne_true (by decide)
  | infinite negative => exact iff_of_false Bool.false_ne_true (by rintro ⟨⟩)
  | finite negative magnitude => exact iff_of_true rfl rfl

/-- An operand is accepted where it is of the field's type. -/
theorem oneValue_eq_ok_iff {type : FieldType} {value : Value} :
    oneValue platform type value = .ok () ↔
      ∃ operand, value = .scalar operand ∧ Fits platform type operand := by
  cases value with
  | array elements =>
    refine iff_of_false ?_ (by rintro ⟨_, ⟨⟩, _⟩)
    cases type <;> rintro ⟨⟩
  | object members =>
    refine iff_of_false ?_ (by rintro ⟨_, ⟨⟩, _⟩)
    cases type <;> rintro ⟨⟩
  | scalar operand =>
    have onlyOne :
        (∃ other, Value.scalar operand = .scalar other ∧ Fits platform type other) ↔
          Fits platform type operand := by
      constructor
      · rintro ⟨_, ⟨rfl⟩, fits⟩
        exact fits
      · exact fun fits => ⟨operand, rfl, fits⟩
    rw [onlyOne, oneValue.eq_def, Fits.eq_def]
    cases type with
    | string => cases operand <;> simp [invalidQuery]
    | number =>
      cases operand with
      | number number => cases number <;> simp [invalidQuery]
      | _ => simp [invalidQuery]
    | boolean => cases operand <;> simp [invalidQuery]
    | timestamp =>
      cases operand with
      | number number => cases number <;> simp [invalidQuery]
      | string text =>
        dsimp only
        rw [invalidQuery, Fallible.ite_eq_ok_iff, and_iff_left rfl, ← instant_string_isSome_iff]
        constructor
        · rintro ⟨short, nonempty, isTime⟩
          exact .inr ⟨text, rfl, nonempty, short, isTime⟩
        · rintro (⟨_, _, ⟨⟩⟩ | ⟨_, ⟨rfl⟩, nonempty, short, isTime⟩)
          exact ⟨short, nonempty, isTime⟩
      | _ => simp [invalidQuery]

variable {op : String} {value : Value} {levels : Nat} {elements : List Value}

/-- The operands that `typed` accepts of an operator. -/
theorem typed_eq_ok_iff {type : FieldType} {value : Value} :
    typed platform type op value = .ok () ↔
      if op = "in" then
        ∃ operands : List Scalar,
          value = .array (operands.map .scalar) ∧ 0 < operands.length ∧
            operands.length ≤ inCap ∧ ∀ operand ∈ operands, Fits platform type operand
      else
        ∃ operand, value = .scalar operand ∧ Fits platform type operand := by
  rw [typed.eq_def]
  split
  · cases value with
    | array elements =>
      dsimp only
      constructor
      · intro accepted
        split at accepted
        · cases accepted
        · rename_i counted
          rw [not_or, Nat.not_lt, Nat.not_lt] at counted
          rw [Fallible.forM_eq_ok_iff] at accepted
          have : Nonempty Scalar := ⟨.null⟩
          choose! operand isScalar fits using fun one isOne =>
            oneValue_eq_ok_iff.mp (accepted one isOne)
          refine ⟨elements.map operand, ?_, ?_, ?_, ?_⟩
          · rw [map_map, Value.array.injEq]
            exact (map_congr_left isScalar).symm.trans (map_id _) |>.symm
          · rw [length_map]
            exact counted.1
          · rw [length_map]
            exact counted.2
          · exact forall_mem_map.mpr fits
      · rintro ⟨operands, ⟨rfl⟩, some, few, fits⟩
        rw [length_map, if_neg (by omega), Fallible.forM_eq_ok_iff, forall_mem_map]
        exact fun operand isOperand => oneValue_eq_ok_iff.mpr ⟨operand, rfl, fits _ isOperand⟩
    | scalar operand => exact iff_of_false (by rintro ⟨⟩) (by rintro ⟨_, ⟨⟩, _⟩)
    | object members => exact iff_of_false (by rintro ⟨⟩) (by rintro ⟨_, ⟨⟩, _⟩)
  · exact oneValue_eq_ok_iff

/-- A field is answered where it is the catalog's, filtered, and has the operator. -/
theorem of_leafField {node : Members} {spec : FieldSpec}
    (accepted : leafField catalog source node op = .ok spec) :
    ∃ field,
      Spells node "field" field ∧ catalog.field source field = some spec ∧
        spec.filter = true ∧ (op = "isNull" ∨ op ∈ operatorsFor spec.type) := by
  rw [leafField.eq_def] at accepted
  cases isField : member node "field" with
  | scalar scalar =>
    cases scalar with
    | string field =>
      rw [isField] at accepted
      dsimp only at accepted
      refine ⟨field, spells_of_member isField, ?_⟩
      split at accepted
      · cases accepted
      · cases isSpec : (if source = "" then none else catalog.field source field) with
        | none =>
          rw [isSpec] at accepted
          cases accepted
        | some found =>
          rw [isSpec] at accepted
          dsimp only at accepted
          split at accepted
          · cases accepted
          · split at accepted
            · cases accepted
            · rename_i isFilter isOperator
              cases accepted
              split at isSpec
              · cases isSpec
              · exact ⟨isSpec, by simpa using isFilter, by grind⟩
    | _ =>
      rw [isField] at accepted
      cases accepted
  | array elements =>
    rw [isField] at accepted
    cases accepted
  | object members =>
    rw [isField] at accepted
    cases accepted

/-- What is not refused passes the check. -/
theorem of_passed {α : Type} {bad : Prop} [Decidable bad] {description : String}
    {rest : Except Failure α} {result : α}
    (accepted : (if bad then invalidQuery description else rest) = .ok result) :
    ¬bad ∧ rest = .ok result := by
  split at accepted
  · cases accepted
  · rename_i notBad
    exact ⟨notBad, accepted⟩

theorem of_leafOperand {node : Members} (isOperand : leafOperand parameters node = .ok value) :
    (node.lookup "param" = none ∧ value = member node "value") ∨
      ∃ param, Spells node "param" param ∧ (parameters.getD []).lookup param = some value := by
  rw [leafOperand.eq_def] at isOperand
  cases isParam : node.lookup "param" with
  | none =>
    rw [isParam] at isOperand
    exact .inl ⟨rfl, (Except.ok.inj isOperand).symm⟩
  | some given =>
    rw [isParam] at isOperand
    rcases given with (_ | _ | _ | _ | param) | elements | members
    · cases isOperand
    · cases isOperand
    · cases isOperand
    · cases isOperand
    · dsimp only at isOperand
      refine .inr ⟨param, isParam, ?_⟩
      split at isOperand
      · cases isOperand
      · cases isBound : (parameters.getD []).lookup param with
        | none =>
          rw [isBound] at isOperand
          cases isOperand
        | some bound =>
          rw [isBound] at isOperand
          rw [Except.ok.inj isOperand]
    · cases isOperand
    · cases isOperand

theorem comparison_of_operator {type : FieldType} (isOperator : op ∈ operatorsFor type)
    (notNull : op ≠ "isNull") (notIn : op ≠ "in") :
    ∃ comparison : Comparison, comparison.op = op := by
  have isOne :
      op = "eq" ∨ op = "ne" ∨ op = "contains" ∨ op = "startsWith" ∨ op = "lt" ∨ op = "le" ∨
        op = "gt" ∨ op = "ge" := by
    cases type <;> simp only [operatorsFor, mem_cons, not_mem_nil, or_false]
      at isOperator <;> grind
  rcases isOne with rfl | rfl | rfl | rfl | rfl | rfl | rfl | rfl
  · exact ⟨.eq, rfl⟩
  · exact ⟨.ne, rfl⟩
  · exact ⟨.contains, rfl⟩
  · exact ⟨.startsWith, rfl⟩
  · exact ⟨.lt, rfl⟩
  · exact ⟨.le, rfl⟩
  · exact ⟨.gt, rfl⟩
  · exact ⟨.ge, rfl⟩

/-- The operand that a copied comparison has. -/
def copiedOperand (parameters : Option Members) (node : Members) : Value :=
  match node.lookup "param" with
  | some param => ((parameters.getD []).lookup param.text).getD (.scalar .undefined)
  | none => member node "value"

theorem copyWhere_leaf {node : Members} {op field : String} (isOp : Spells node "op" op)
    (isField : Spells node "field" field) (isLeaf : op ≠ "and" ∧ op ≠ "or" ∧ op ≠ "not") :
    copyWhere parameters (.object node) =
      if op = "isNull" then .isNull field
      else .leaf op field (copiedOperand parameters node) := by
  rw [copyWhere, isOp.text, isField.text,
    if_neg (not_or.mpr ⟨isLeaf.1, isLeaf.2.1⟩), if_neg isLeaf.2.2]
  rfl

theorem copiedOperand_of_leafOperand {node : Members}
    (isOperand : leafOperand parameters node = .ok value) :
    copiedOperand parameters node = value := by
  rw [copiedOperand]
  rcases of_leafOperand isOperand with ⟨noParam, isValue⟩ | ⟨param, isParam, isBound⟩
  · rw [noParam, isValue]
  · have isText : node.lookup "param" = some (.scalar (.string param)) := isParam
    rw [isText]
    dsimp only [Value.text]
    rw [isBound]
    rfl

/-- The keys that a comparison has, and the operand that they name. -/
theorem namesOperand_of_leaf {node : Members} {op field : String}
    (isOp : Spells node "op" op) (isField : Spells node "field" field)
    (notNeither : ¬("value" ∉ ownKeys node ∧ "param" ∉ ownKeys node))
    (bound : ¬("param" ∈ ownKeys node ∧ parameters = none))
    (noOther :
      ∀ key ∈ ownKeys node,
        key ∈ ["op", "field", if "param" ∈ ownKeys node then "param" else "value"])
    (isOperand : leafOperand parameters node = .ok value) :
    NamesOperand parameters node value := by
  have hasKeys :
      HasKeys node ["op", "field", if "param" ∈ ownKeys node then "param" else "value"] := by
    intro name
    rw [← mem_ownKeys_iff]
    refine ⟨noOther name, ?_⟩
    intro isName
    simp only [mem_cons, not_mem_nil, or_false] at isName
    rcases isName with rfl | rfl | rfl
    · exact isOp.mem_ownKeys
    · exact isField.mem_ownKeys
    · split
      · assumption
      · rename_i noParam
        by_contra noValue
        exact notNeither ⟨noValue, noParam⟩
  by_cases hasParam : "param" ∈ ownKeys node
  · rw [if_pos hasParam] at hasKeys
    rcases of_leafOperand isOperand with ⟨noParam, _⟩ | ⟨param, isParam, isBound⟩
    · rw [mem_ownKeys_iff, noParam] at hasParam
      cases hasParam
    · cases parameters with
      | none => exact absurd ⟨hasParam, rfl⟩ bound
      | some bag => exact .inr ⟨param, bag, hasKeys, isParam, rfl, isBound⟩
  · rw [if_neg hasParam] at hasKeys
    refine .inl ⟨hasKeys, ?_⟩
    have isValue : (node.lookup "value").isSome = true := (hasKeys "value").mpr (by simp)
    obtain ⟨held, isHeld⟩ := Option.isSome_iff_exists.mp isValue
    rcases of_leafOperand isOperand with ⟨_, isMember⟩ | ⟨param, isParam, _⟩
    · rw [isMember, member, isHeld]
      rfl
    · exact absurd isParam.mem_ownKeys hasParam

/-- An accepted leaf spells one that its field allows, and is copied as that. -/
theorem of_leaf {node : Members} (isOp : Spells node "op" op)
    (isLeaf : op ≠ "and" ∧ op ≠ "or" ∧ op ≠ "not")
    (accepted : leaf platform catalog parameters source node op = .ok ()) :
    ∃ one : Leaf,
      one.Posted parameters node ∧ one.Allowed platform catalog source ∧
        copyWhere parameters (.object node) = one.node := by
  rw [leaf] at accepted
  by_cases isNull : op = "isNull"
  · subst isNull
    rw [if_pos rfl] at accepted
    obtain ⟨shape, isNamed⟩ := of_passed accepted
    rw [not_or, not_not, not_not] at shape
    obtain ⟨spec, isSpec, _⟩ := (Fallible.bind_eq_ok_iff _ _ _).mp isNamed
    obtain ⟨field, isField, isFound, isFilter, _⟩ := of_leafField isSpec
    refine ⟨.isNull field, ⟨?_, isOp, isField⟩, ⟨spec, isFound, isFilter⟩, ?_⟩
    · exact hasKeys_of_two shape.1 isOp.mem_ownKeys shape.2 (by decide)
    · rw [copyWhere_leaf isOp isField isLeaf]
      rfl
  · rw [if_neg isNull] at accepted
    obtain ⟨_, accepted⟩ := of_passed accepted
    obtain ⟨notNeither, accepted⟩ := of_passed accepted
    obtain ⟨bound, accepted⟩ := of_passed accepted
    obtain ⟨shape, accepted⟩ := of_passed accepted
    rw [not_or, not_not, not_not] at shape
    obtain ⟨spec, isSpec, typed⟩ := (Fallible.bind_eq_ok_iff _ _ _).mp accepted
    obtain ⟨field, isField, isFound, isFilter, isOperator⟩ := of_leafField isSpec
    replace isOperator := isOperator.resolve_left isNull
    rw [leafValue] at typed
    obtain ⟨value, isOperand, isTyped⟩ := (Fallible.bind_eq_ok_iff _ _ _).mp typed
    have noOther :
        ∀ key ∈ ownKeys node,
          key ∈ ["op", "field", if "param" ∈ ownKeys node then "param" else "value"] := by
      simpa using shape.2
    have names := namesOperand_of_leaf isOp isField notNeither bound noOther isOperand
    have isCopy := @copyWhere_leaf parameters node op field isOp isField isLeaf
    rw [if_neg isNull, copiedOperand_of_leafOperand isOperand] at isCopy
    rw [typed_eq_ok_iff] at isTyped
    by_cases isIn : op = "in"
    · subst isIn
      rw [if_pos rfl] at isTyped
      obtain ⟨operands, rfl, some, few, fits⟩ := isTyped
      exact
        ⟨.within field operands, ⟨isOp, isField, names⟩,
          ⟨spec, isFound, isFilter, isOperator, some, few, fits⟩, isCopy⟩
    · rw [if_neg isIn] at isTyped
      obtain ⟨operand, rfl, fits⟩ := isTyped
      obtain ⟨comparison, rfl⟩ := comparison_of_operator isOperator isNull isIn
      exact
        ⟨.compare comparison field operand, ⟨isOp, isField, names⟩,
          ⟨spec, isFound, isFilter, isOperator, fits⟩, isCopy⟩

/-! ## The tree -/

variable {child : Value → Except Failure Unit}

theorem of_logical {node : Members} (accepted : logical child node = .ok ()) :
    HasKeys node ["op", "args"] ∧
      ∃ args, node.lookup "args" = some (.array args) ∧ ∀ arg ∈ args, child arg = .ok () := by
  rw [logical] at accepted
  split at accepted
  · cases accepted
  · rename_i shape
    simp only [not_or, not_not] at shape
    obtain ⟨two, isOp, isArgs⟩ := shape
    refine ⟨hasKeys_of_two two isOp isArgs (by decide), ?_⟩
    obtain ⟨value, isValue⟩ := Option.isSome_iff_exists.mp (mem_ownKeys_iff.mp isArgs)
    rw [member, isValue, Option.getD_some] at accepted
    cases value with
    | array args =>
      dsimp only at accepted
      split at accepted
      · cases accepted
      · exact ⟨args, isValue, Fallible.forM_eq_ok_iff.mp accepted⟩
    | scalar scalar => cases accepted
    | object members => cases accepted

theorem of_negation {node : Members} (accepted : negation child node = .ok ()) :
    HasKeys node ["op", "arg"] ∧ ∃ arg, node.lookup "arg" = some arg ∧ child arg = .ok () := by
  rw [negation] at accepted
  split at accepted
  · cases accepted
  · rename_i shape
    simp only [not_or, not_not] at shape
    obtain ⟨two, isOp, isArg⟩ := shape
    refine ⟨hasKeys_of_two two isOp isArg (by decide), ?_⟩
    obtain ⟨arg, isValue⟩ := Option.isSome_iff_exists.mp (mem_ownKeys_iff.mp isArg)
    rw [member, isValue] at accepted
    exact ⟨arg, isValue, accepted⟩

/-- What is accepted and present is an and, an or, a not or a leaf. -/
theorem of_whereOf {node : Value}
    (accepted : whereOf platform catalog parameters source levels node = .ok ())
    (isPresent : node.isAbsent = false) :
    ∃ deeper members op,
      levels = deeper + 1 ∧ node = .object members ∧ Spells members "op" op ∧
        ((op = "and" ∨ op = "or") ∧
            logical (whereOf platform catalog parameters source deeper) members = .ok () ∨
          op = "not" ∧
            negation (whereOf platform catalog parameters source deeper) members = .ok () ∨
          (op ≠ "and" ∧ op ≠ "or" ∧ op ≠ "not") ∧
            leaf platform catalog parameters source members op = .ok ()) := by
  rw [whereOf.eq_def] at accepted
  dsimp only at accepted
  rw [isPresent, if_neg Bool.false_ne_true] at accepted
  cases levels with
  | zero => cases accepted
  | succ deeper =>
    dsimp only at accepted
    cases node with
    | scalar scalar => cases accepted
    | array elements => cases accepted
    | object members =>
      dsimp only at accepted
      rcases isOp : member members "op" with (_ | _ | _ | _ | op) | elements | inner
      · rw [isOp] at accepted
        cases accepted
      · rw [isOp] at accepted
        cases accepted
      · rw [isOp] at accepted
        cases accepted
      · rw [isOp] at accepted
        cases accepted
      · rw [isOp] at accepted
        dsimp only at accepted
        refine ⟨deeper, members, op, rfl, rfl, spells_of_member isOp, ?_⟩
        split at accepted
        · rename_i isLogical
          exact .inl ⟨isLogical, accepted⟩
        · rename_i notLogical
          rw [not_or] at notLogical
          split at accepted
          · rename_i isNot
            exact .inr (.inl ⟨isNot, accepted⟩)
          · rename_i notNot
            exact .inr (.inr ⟨⟨notLogical.1, notLogical.2, notNot⟩, accepted⟩)
      · rw [isOp] at accepted
        cases accepted
      · rw [isOp] at accepted
        cases accepted

theorem argNodes_eq (args : List Condition) : argNodes args = args.map Condition.node := by
  induction args with
  | nil => rfl
  | cons arg rest ih => rw [argNodes, ih, map_cons]

theorem postedArgs_map {condition : Value → Condition}
    (posted : ∀ element ∈ elements, (condition element).Posted parameters element) :
    PostedArgs parameters (elements.map condition) elements := by
  induction elements with
  | nil =>
    rw [map_nil, PostedArgs]
    trivial
  | cons element rest ih =>
    obtain ⟨first, others⟩ := forall_mem_cons.mp posted
    rw [map_cons, PostedArgs]
    exact ⟨first, ih others⟩

theorem copyWhere_logical {node : Members} {args : List Value} (isOp : Spells node "op" op)
    (isLogical : op = "and" ∨ op = "or") (isArgs : node.lookup "args" = some (.array args)) :
    copyWhere parameters (.object node) =
      if op = "and" then .and (args.map (copyWhere parameters))
      else .or (args.map (copyWhere parameters)) := by
  rw [copyWhere, isOp.text, if_pos isLogical]
  split
  · rename_i elements isElements
    rw [isArgs, Option.some.injEq, Value.array.injEq] at isElements
    subst isElements
    rw [attach_map_val]
  · rename_i notArray
    exact absurd isArgs (notArray args)

theorem copyWhere_not {node : Members} {arg : Value} (isOp : Spells node "op" "not")
    (isArg : node.lookup "arg" = some arg) :
    copyWhere parameters (.object node) = .not (copyWhere parameters arg) := by
  rw [copyWhere, isOp.text, if_neg (by decide), if_pos rfl]
  split
  · rename_i element isElement
    rw [isArg, Option.some.injEq] at isElement
    rw [isElement]
  · rename_i noArg
    rw [isArg] at noArg
    cases noArg

/-- What is accepted spells a condition, if no operand in it is absent. -/
theorem posted_of_whereOf {node : Value}
    (accepted : whereOf platform catalog parameters source levels node = .ok ())
    (isPresent : node.isAbsent = false) (noneAbsent : ¬AbsentBelow node) :
    ∃ condition : Condition,
      condition.Posted parameters node ∧ condition.Every (Leaf.Allowed platform catalog source) ∧
        copyWhere parameters node = condition.node := by
  induction levels generalizing node with
  | zero =>
    obtain ⟨_, _, _, impossible, _⟩ := of_whereOf accepted isPresent
    cases impossible
  | succ levels ih =>
    obtain ⟨deeper, members, op, isLevels, rfl, isOp, isShape⟩ := of_whereOf accepted isPresent
    obtain rfl : levels = deeper := Nat.succ.inj isLevels
    have ofOperand
        {operand : Value}
        (isOperand : operand ∈ operandsOf members)
        (isAccepted : whereOf platform catalog parameters source levels operand = .ok ()) :
        ∃ condition : Condition,
          condition.Posted parameters operand ∧
            condition.Every (Leaf.Allowed platform catalog source) ∧
            copyWhere parameters operand = condition.node := by
      refine ih isAccepted ?_ fun absent => noneAbsent (.deeper isOperand absent)
      rw [← Bool.not_eq_true]
      exact fun absent => noneAbsent (.here isOperand absent)
    rcases isShape with ⟨isLogical, isAccepted⟩ | ⟨rfl, isAccepted⟩ | ⟨isLeaf, isAccepted⟩
    · obtain ⟨hasKeys, args, isArgs, each⟩ := of_logical isAccepted
      have inOperands {arg : Value} (isArg : arg ∈ args) : arg ∈ operandsOf members := by
        rw [operandsOf, isArgs]
        exact mem_append_left _ isArg
      have : Nonempty Condition := ⟨.and []⟩
      choose! condition posted allowed isCopy using fun arg (isArg : arg ∈ args) =>
        ofOperand (inOperands isArg) (each arg isArg)
      have isCopies : args.map (copyWhere parameters) = argNodes (args.map condition) := by
        rw [argNodes_eq, map_map]
        exact map_congr_left isCopy
      have areAllowed :
          EveryArg (Leaf.Allowed platform catalog source) (args.map condition) :=
        everyArg_iff.mpr (forall_mem_map.mpr allowed)
      rw [copyWhere_logical isOp isLogical isArgs, isCopies]
      rcases isLogical with rfl | rfl
      · refine ⟨.and (args.map condition), ?_, areAllowed, rfl⟩
        rw [Condition.Posted]
        exact ⟨members, args, rfl, hasKeys, isOp, isArgs, postedArgs_map posted⟩
      · refine ⟨.or (args.map condition), ?_, areAllowed, rfl⟩
        rw [Condition.Posted]
        exact ⟨members, args, rfl, hasKeys, isOp, isArgs, postedArgs_map posted⟩
    · obtain ⟨hasKeys, arg, isArg, isChild⟩ := of_negation isAccepted
      have inOperands : arg ∈ operandsOf members := by
        rw [operandsOf, isArg]
        exact mem_append_right _ (mem_singleton.mpr rfl)
      obtain ⟨condition, posted, allowed, isCopy⟩ := ofOperand inOperands isChild
      refine ⟨.not condition, ?_, allowed, ?_⟩
      · rw [Condition.Posted]
        exact ⟨members, arg, rfl, hasKeys, isOp, isArg, posted⟩
      · rw [copyWhere_not isOp isArg, isCopy, Condition.node]
    · obtain ⟨one, posted, allowed, isCopy⟩ := of_leaf isOp isLeaf isAccepted
      refine ⟨.leaf one, ?_, allowed, isCopy⟩
      rw [Condition.Posted]
      exact ⟨members, rfl, posted⟩

/-! ## What spells a condition -/

theorem HasKeys.lookup_eq_none {node : Members} {names : List String} {name : String}
    (hasKeys : HasKeys node names) (notName : name ∉ names) :
    node.lookup name = none := by
  rw [← Option.not_isSome_iff_eq_none]
  exact mt (hasKeys name).mp notName

/-- A leaf has no operand to recur on. -/
theorem Leaf.Posted.operandsOf_eq {node : Members} {one : Leaf}
    (posted : one.Posted parameters node) :
    operandsOf node = [] := by
  have hasKeys : ∃ names, HasKeys node names ∧ "args" ∉ names ∧ "arg" ∉ names := by
    have ofOperand {operand : Value} (isNamed : NamesOperand parameters node operand) :
        ∃ names, HasKeys node names ∧ "args" ∉ names ∧ "arg" ∉ names := by
      rcases isNamed with ⟨hasKeys, _⟩ | ⟨_, _, hasKeys, _⟩
      · exact ⟨_, hasKeys, by decide, by decide⟩
      · exact ⟨_, hasKeys, by decide, by decide⟩
    cases one with
    | isNull field => exact ⟨_, posted.1, by decide, by decide⟩
    | compare comparison field operand => exact ofOperand posted.2.2
    | within field operands => exact ofOperand posted.2.2
  obtain ⟨names, hasKeys, noArgs, noArg⟩ := hasKeys
  rw [operandsOf, hasKeys.lookup_eq_none noArgs, hasKeys.lookup_eq_none noArg]
  rfl

theorem exists_posted_of_mem {args : List Condition} {element : Value}
    (posted : PostedArgs parameters args elements) (isElement : element ∈ elements) :
    ∃ arg ∈ args, arg.Posted parameters element := by
  induction args generalizing elements with
  | nil =>
    cases elements with
    | nil => cases isElement
    | cons first rest =>
      rw [PostedArgs] at posted
      · exact posted.elim
      all_goals simp
  | cons arg args ih =>
    cases elements with
    | nil => cases isElement
    | cons first rest =>
      rw [PostedArgs] at posted
      rcases mem_cons.mp isElement with rfl | inRest
      · exact ⟨arg, mem_cons_self, posted.1⟩
      · obtain ⟨one, isOne, isPosted⟩ := ih posted.2 inRest
        exact ⟨one, mem_cons_of_mem _ isOne, isPosted⟩

/-- What spells a condition is present, and so is every operand in it. -/
theorem present_of_posted {condition : Condition} {node : Value}
    (posted : condition.Posted parameters node) :
    node.isAbsent = false ∧ ¬AbsentBelow node := by
  have ofOperands
      {members : Members}
      (none : ∀ operand ∈ operandsOf members, operand.isAbsent = false ∧ ¬AbsentBelow operand) :
      ¬AbsentBelow (.object members) := by
    intro absent
    cases absent with
    | here isOperand isAbsent =>
      rw [(none _ isOperand).1] at isAbsent
      cases isAbsent
    | deeper isOperand absent => exact (none _ isOperand).2 absent
  have ofArgs
      {members : Members}
      {elements : List Value}
      {args : List Condition}
      (ih :
        ∀ arg ∈ args, ∀ {node : Value}, arg.Posted parameters node →
          node.isAbsent = false ∧ ¬AbsentBelow node)
      (hasKeys : HasKeys members ["op", "args"])
      (isArgs : members.lookup "args" = some (.array elements))
      (posted : PostedArgs parameters args elements) :
      ¬AbsentBelow (.object members) := by
    refine ofOperands fun operand isOperand => ?_
    rw [operandsOf, isArgs, hasKeys.lookup_eq_none (by decide)] at isOperand
    rcases mem_append.mp isOperand with isElement | isNone
    · obtain ⟨arg, isArg, isPosted⟩ := exists_posted_of_mem posted isElement
      exact ih arg isArg isPosted
    · cases isNone
  induction condition using Condition.induction generalizing node with
  | and args ih =>
    rw [Condition.Posted] at posted
    obtain ⟨members, elements, rfl, hasKeys, _, isArgs, posted⟩ := posted
    exact ⟨rfl, ofArgs ih hasKeys isArgs posted⟩
  | or args ih =>
    rw [Condition.Posted] at posted
    obtain ⟨members, elements, rfl, hasKeys, _, isArgs, posted⟩ := posted
    exact ⟨rfl, ofArgs ih hasKeys isArgs posted⟩
  | not arg ih =>
    rw [Condition.Posted] at posted
    obtain ⟨members, element, rfl, hasKeys, _, isArg, posted⟩ := posted
    refine ⟨rfl, ofOperands fun operand isOperand => ?_⟩
    rw [operandsOf, isArg, hasKeys.lookup_eq_none (by decide)] at isOperand
    obtain rfl : operand = element := mem_singleton.mp isOperand
    exact ih posted
  | leaf one =>
    rw [Condition.Posted] at posted
    obtain ⟨members, rfl, posted⟩ := posted
    refine ⟨rfl, ofOperands fun operand isOperand => ?_⟩
    rw [posted.operandsOf_eq] at isOperand
    cases isOperand

/-! ## Whole documents -/

/-- The filter of what was posted. -/
def postedFilter : Value → Value
  | .object members => member members "where"
  | _ => .scalar .undefined

theorem of_validate {limits : Limits} {document : Value} {plan : Plan}
    (accepted : validate platform catalog limits document parameters = .ok plan) :
    whereOf platform catalog parameters plan.source whereDepth (postedFilter document) = .ok () ∧
      plan.filter = copyWhere parameters (postedFilter document) := by
  have isDocument {members : Members} (isMembers : documentOf document = .ok members) :
      document = .object members := by
    cases document with
    | object held =>
      obtain ⟨_, isMembers⟩ := of_passed isMembers
      obtain ⟨_, isMembers⟩ := of_passed isMembers
      rw [Except.ok.inj isMembers]
    | scalar scalar => cases isMembers
    | array elements => cases isMembers
  simp only [validate, Fallible.bind_eq_ok_iff, Fallible.pure_eq_ok_iff] at accepted
  obtain ⟨members, isMembers, spec, _, _, _, _, _, _, _, _, _, _, _, _, filter, _, _, _, _, rfl⟩ :=
    accepted
  rw [isDocument isMembers]
  exact ⟨filter, rfl⟩

/--
A plan's filter is the condition that was posted, each comparison one that its
field's type allows, and its rows are those of which the condition holds.
-/
def EvaluatedAsPosted (platform : Platform) (catalog : Catalog)
    (parameters : Option Members) (posted : Value) (plan : Plan) :
    Prop :=
  ∃ condition : Condition,
    condition.Posted parameters posted ∧
      condition.Every (Leaf.Allowed platform catalog plan.source) ∧
      plan.filter = condition.node ∧
      ∀ row,
        matchesNode platform (reportTypes catalog plan.source) row plan.filter = true ↔
          condition.Evaluates (Leaf.Holds platform (reportTypes catalog plan.source) row)

/--
An accepted filter is evaluated as it was posted exactly where no operand in it
is null, and one that is null itself is none.  In every row, `ne` is not `eq`,
and `gt` is `lt` with its sides exchanged.
-/
theorem evaluated_as_posted_iff {limits : Limits} {document : Value} {plan : Plan}
    (accepted : validate platform catalog limits document parameters = .ok plan) :
    ((postedFilter document).isAbsent = true → plan.filter = .absent) ∧
      ((postedFilter document).isAbsent = false →
        (EvaluatedAsPosted platform catalog parameters (postedFilter document) plan ↔
          ¬AbsentBelow (postedFilter document))) ∧
      (∀ types row field wanted,
        matchesNode platform types row (.leaf "ne" field wanted) =
          matchesNode platform types row (.not (.leaf "eq" field wanted))) ∧
      ∀ types row row' field value wanted,
        matchesNode platform types ((field, value) :: row) (.leaf "gt" field (.scalar wanted)) =
          matchesNode platform types ((field, wanted) :: row')
            (.leaf "lt" field (.scalar value)) := by
  obtain ⟨isFilter, isCopy⟩ := of_validate accepted
  refine ⟨?_, ?_, ?_, ?_⟩
  · intro isAbsent
    rw [isCopy]
    cases isPosted : postedFilter document with
    | scalar scalar => rw [copyWhere]
    | array elements => rw [copyWhere]
    | object members =>
      rw [isPosted] at isAbsent
      cases isAbsent
  · intro isPresent
    constructor
    · rintro ⟨condition, posted, _⟩
      exact (present_of_posted posted).2
    · intro noneAbsent
      obtain ⟨condition, posted, allowed, isNode⟩ := posted_of_whereOf isFilter isPresent noneAbsent
      refine ⟨condition, posted, allowed, isCopy.trans isNode, fun row => ?_⟩
      rw [isCopy, isNode]
      exact matchesNode_iff condition
  · intro types row field wanted
    simp [matchesNode, compareLeaf.eq_def]
  · intro types row row' field value wanted
    have isValue : Row.value ((field, value) :: row) field = value := by simp [Row.value]
    have isWanted : Row.value ((field, wanted) :: row') field = wanted := by simp [Row.value]
    simp [matchesNode, compareLeaf.eq_def, isValue, isWanted]

end

/-! ## A document with a null operand -/

/-- A library where a number is written in strokes, and no text is a number or a time. -/
def timeless : Platform where
  numberText
    | .finite negative magnitude =>
      String.ofList (List.replicate (Encodable.encode (Number.exactly negative magnitude) + 1) '0')
    | _ => "NaN"
  isNumeral negative magnitude := by
    rw [String.toList_ofList]
    refine ⟨cons_ne_nil _ _, fun char isChar => ?_⟩
    rw [eq_of_mem_replicate isChar]
    decide
  numberText_inj {number other} isFinite isFinite' := by
    obtain ⟨negative, magnitude, rfl⟩ := isFinite.eq_finite
    obtain ⟨negative', magnitude', rfl⟩ := isFinite'.eq_finite
    rw [String.ofList_inj, replicate_inj, Number.place, Number.place, WithTop.coe_inj,
      WithBot.coe_inj]
    simp
  parseNumber _ := .nan
  dateParse _ := .nan
  dateParse_isDouble _ := trivial

def usersCatalog : Catalog where
  sources := [⟨"users", true, [⟨"username", .string, true, true, false, by decide⟩]⟩]

def smallLimits : Limits where
  syncMaxRows := 500
  asyncMaxRows := 100000
  pdfMaxRows := 2000
  positive := by decide

/-- A query of user names, of which a filter is given. -/
def usersDocument (filter : Value) : Value :=
  .object
    [("source", .scalar (.string "users")), ("select", .array [.scalar (.string "username")]),
      ("where", filter)]

/-- `{ "op": "eq", "field": "username", "value": "ada" }`. -/
def isAda : Value :=
  .object
    [("op", .scalar (.string "eq")), ("field", .scalar (.string "username")),
      ("value", .scalar (.string "ada"))]

theorem evaluated_as_posted_of_isAda :
    ∃ plan,
      validate timeless usersCatalog smallLimits (usersDocument isAda) none = .ok plan ∧
        EvaluatedAsPosted timeless usersCatalog none isAda plan := by
  refine ⟨_, rfl, ?_⟩
  have noneAbsent : ¬AbsentBelow isAda := by
    intro absent
    cases absent with
    | here isOperand _ => cases isOperand
    | deeper isOperand _ => cases isOperand
  exact
    ((@evaluated_as_posted_iff timeless usersCatalog none smallLimits (usersDocument isAda) _
      rfl).2.1 rfl).mpr noneAbsent

/-- `{ "op": "or", "args": [null] }`. -/
def orNull : Value := .object [("op", .scalar (.string "or")), ("args", .array [.scalar .null])]

/-- A null operand is accepted, and spells no condition. -/
theorem null_operand_accepted :
    ∃ plan,
      validate timeless usersCatalog smallLimits (usersDocument orNull) none = .ok plan ∧
        ¬EvaluatedAsPosted timeless usersCatalog none orNull plan := by
  refine ⟨_, rfl, ?_⟩
  rintro ⟨condition, posted, _⟩
  have isOperand : Value.scalar .null ∈ [Value.scalar .null] := mem_singleton.mpr rfl
  exact (present_of_posted posted).2 (.here isOperand rfl)

end IyaSts.Report
