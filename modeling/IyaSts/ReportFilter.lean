import IyaSts.ReportRows

namespace IyaSts.Report

/-!
# What a filter asks of a row

A condition is a tree of and, or, not and leaves, each leaf a question about
one field.  A posted filter spells one or none, and what is accepted spells one
but for the operands that are null.
-/

open Binary64 (Number)

/-! ## Conditions -/

inductive Comparison where
  | eq
  | ne
  | contains
  | startsWith
  | lt
  | le
  | gt
  | ge
  deriving DecidableEq

def Comparison.op : Comparison → String
  | .eq => "eq"
  | .ne => "ne"
  | .contains => "contains"
  | .startsWith => "startsWith"
  | .lt => "lt"
  | .le => "le"
  | .gt => "gt"
  | .ge => "ge"

/-- A question about one field. -/
inductive Leaf where
  | isNull (field : String)
  | compare (comparison : Comparison) (field : String) (operand : Scalar)
  | within (field : String) (operands : List Scalar)

/-- A filter as the boolean expression that it is. -/
inductive Condition where
  | and (args : List Condition)
  | or (args : List Condition)
  | not (arg : Condition)
  | leaf (leaf : Leaf)

/-- What holds of every condition whose parts it holds of. -/
theorem Condition.induction {motive : Condition → Prop}
    (and : ∀ args, (∀ arg ∈ args, motive arg) → motive (.and args))
    (or : ∀ args, (∀ arg ∈ args, motive arg) → motive (.or args))
    (not : ∀ arg, motive arg → motive (.not arg)) (leaf : ∀ leaf, motive (.leaf leaf))
    (condition : Condition) :
    motive condition :=
  @Condition.rec motive (fun args => ∀ arg ∈ args, motive arg) and or not leaf
    (List.forall_mem_nil _) (fun _ _ first rest => List.forall_mem_cons.mpr ⟨first, rest⟩) condition

mutual

/-- Something holds of every leaf. -/
def Condition.Every (holds : Leaf → Prop) : Condition → Prop
  | .and args => EveryArg holds args
  | .or args => EveryArg holds args
  | .not arg => arg.Every holds
  | .leaf leaf => holds leaf

def EveryArg (holds : Leaf → Prop) : List Condition → Prop
  | [] => True
  | arg :: rest => arg.Every holds ∧ EveryArg holds rest

end

mutual

/-- What a condition evaluates to, where its leaves hold as `holds` has it. -/
def Condition.Evaluates (holds : Leaf → Prop) : Condition → Prop
  | .and args => EvaluatesEvery holds args
  | .or args => EvaluatesSome holds args
  | .not arg => ¬arg.Evaluates holds
  | .leaf leaf => holds leaf

def EvaluatesEvery (holds : Leaf → Prop) : List Condition → Prop
  | [] => True
  | arg :: rest => arg.Evaluates holds ∧ EvaluatesEvery holds rest

def EvaluatesSome (holds : Leaf → Prop) : List Condition → Prop
  | [] => False
  | arg :: rest => arg.Evaluates holds ∨ EvaluatesSome holds rest

end

theorem everyArg_iff {holds : Leaf → Prop} {args : List Condition} :
    EveryArg holds args ↔ ∀ arg ∈ args, arg.Every holds := by
  induction args with
  | nil => simp [EveryArg]
  | cons arg rest ih => rw [EveryArg, List.forall_mem_cons, ih]

/-! ## Leaves -/

/-- Two values are one: numbers by what they are, and others as they stand. -/
def Scalar.Is : Scalar → Scalar → Prop
  | .number value, .number wanted =>
    value.isNaN = false ∧ wanted.isNaN = false ∧ value.place = wanted.place
  | value, wanted => value = wanted

section

variable (platform : Platform)

/-- The time that a number or a text stands for, in milliseconds. -/
def Scalar.instant : Scalar → Option ℚ
  | .number (.finite negative magnitude) => some (Number.exactly negative magnitude)
  | .string text =>
    match platform.dateParse text with
    | .finite negative magnitude => some (Number.exactly negative magnitude)
    | _ => none
  | _ => none

/-- Two values of a type are equal; timestamps are, of one instant. -/
def Equal (type : FieldType) (value wanted : Scalar) : Prop :=
  if type = .timestamp then
    ∃ instant, value.instant platform = some instant ∧ wanted.instant platform = some instant
  else
    value.Is wanted

/-- A value of a type is less than another. -/
def Less (type : FieldType) (value wanted : Scalar) : Prop :=
  if type = .timestamp then
    ∃ first second,
      value.instant platform = some first ∧ wanted.instant platform = some second ∧ first < second
  else
    ∃ first second : Number,
      value = .number first ∧ wanted = .number second ∧
        first.isNaN = false ∧ second.isNaN = false ∧ first.place < second.place

/-- A field's value is one, or a list has it among its parts. -/
def HasPart (type : FieldType) (field : String) (value wanted : Scalar) : Prop :=
  ∃ part ∈ partsOf field value, Equal platform type part wanted

/-- What a comparison says of the value of a field. -/
def Comparison.Holds (comparison : Comparison) (type : FieldType) (field : String)
    (value operand : Scalar) :
    Prop :=
  match comparison with
  | .eq => HasPart platform type field value operand
  | .ne => ¬HasPart platform type field value operand
  | .contains =>
    ∃ before after wanted,
      operand = .string wanted ∧ value = .string (String.ofList (before ++ wanted.toList ++ after))
  | .startsWith =>
    ∃ after wanted,
      operand = .string wanted ∧ value = .string (String.ofList (wanted.toList ++ after))
  | .lt => Less platform type value operand
  | .le => Less platform type value operand ∨ Equal platform type value operand
  | .gt => Less platform type operand value
  | .ge => Less platform type operand value ∨ Equal platform type value operand

variable (types : String → Option FieldType)

/-- What a leaf says of a row. -/
def Leaf.Holds (row : Row) : Leaf → Prop
  | .isNull field =>
    row.value field = .undefined ∨ row.value field = .null ∨ row.value field = .string ""
  | .compare comparison field operand =>
    comparison.Holds platform ((types field).getD .string) field (row.value field) operand
  | .within field operands =>
    ∃ operand ∈ operands,
      HasPart platform ((types field).getD .string) field (row.value field) operand

/-- An operand is of a field's type. -/
def Fits (type : FieldType) (operand : Scalar) : Prop :=
  match type with
  | .string => ∃ text, operand = .string text
  | .number => ∃ negative magnitude, operand = .number (.finite negative magnitude)
  | .boolean => ∃ value, operand = .boolean value
  | .timestamp =>
    (∃ negative magnitude, operand = .number (.finite negative magnitude)) ∨
      ∃ text,
        operand = .string text ∧ 0 < (Json.codeUnits text).length ∧
          (Json.codeUnits text).length ≤ stampCap ∧
          (operand.instant platform).isSome = true

/-- A leaf asks what its field's type allows, with operands of that type. -/
def Leaf.Allowed (catalog : Catalog) (source : String) (leaf : Leaf) : Prop :=
  match leaf with
  | .isNull field => ∃ spec, catalog.field source field = some spec ∧ spec.filter = true
  | .compare comparison field operand =>
    ∃ spec,
      catalog.field source field = some spec ∧ spec.filter = true ∧
        comparison.op ∈ operatorsFor spec.type ∧ Fits platform spec.type operand
  | .within field operands =>
    ∃ spec,
      catalog.field source field = some spec ∧ spec.filter = true ∧
        "in" ∈ operatorsFor spec.type ∧ 0 < operands.length ∧ operands.length ≤ inCap ∧
        ∀ operand ∈ operands, Fits platform spec.type operand

end

/-! ## What is posted -/

/-- An object has some keys and no others. -/
def HasKeys (node : Members) (names : List String) : Prop :=
  ∀ name, (node.lookup name).isSome = true ↔ name ∈ names

/-- A comparison names a value, or a parameter that stands for one. -/
def NamesOperand (parameters : Option Members) (node : Members) (operand : Value) : Prop :=
  (HasKeys node ["op", "field", "value"] ∧ node.lookup "value" = some operand) ∨
    ∃ param bag,
      HasKeys node ["op", "field", "param"] ∧
        node.lookup "param" = some (.scalar (.string param)) ∧
        parameters = some bag ∧ bag.lookup param = some operand

/-- An object has a text for a member. -/
def Spells (node : Members) (name text : String) : Prop :=
  node.lookup name = some (.scalar (.string text))

/-- A posted object spells a leaf. -/
def Leaf.Posted (parameters : Option Members) (node : Members) : Leaf → Prop
  | .isNull field =>
    HasKeys node ["op", "field"] ∧ Spells node "op" "isNull" ∧ Spells node "field" field
  | .compare comparison field operand =>
    Spells node "op" comparison.op ∧ Spells node "field" field ∧
      NamesOperand parameters node (.scalar operand)
  | .within field operands =>
    Spells node "op" "in" ∧ Spells node "field" field ∧
      NamesOperand parameters node (.array (operands.map .scalar))

section

variable (parameters : Option Members)

mutual

/-- A posted filter spells a condition, with each parameter replaced. -/
def Condition.Posted (condition : Condition) (node : Value) : Prop :=
  match condition with
  | .and args =>
    ∃ members elements,
      node = .object members ∧ HasKeys members ["op", "args"] ∧ Spells members "op" "and" ∧
        members.lookup "args" = some (.array elements) ∧ PostedArgs args elements
  | .or args =>
    ∃ members elements,
      node = .object members ∧ HasKeys members ["op", "args"] ∧ Spells members "op" "or" ∧
        members.lookup "args" = some (.array elements) ∧ PostedArgs args elements
  | .not arg =>
    ∃ members element,
      node = .object members ∧ HasKeys members ["op", "arg"] ∧ Spells members "op" "not" ∧
        members.lookup "arg" = some element ∧ arg.Posted element
  | .leaf leaf => ∃ members, node = .object members ∧ leaf.Posted parameters members

def PostedArgs (args : List Condition) (elements : List Value) : Prop :=
  match args, elements with
  | [], [] => True
  | arg :: args, element :: elements => arg.Posted element ∧ PostedArgs args elements
  | _, _ => False

end

end

/-- The operands of an and, an or or a not. -/
def operandsOf (node : Members) : List Value :=
  (match node.lookup "args" with
    | some (.array elements) => elements
    | _ => []) ++
    (node.lookup "arg").toList

/-- Some operand at some depth is null, or undefined. -/
inductive AbsentBelow : Value → Prop where
  | here
      {node : Members}
      {operand : Value}
      (isOperand : operand ∈ operandsOf node)
      (isAbsent : operand.isAbsent = true) :
      AbsentBelow (.object node)
  | deeper
      {node : Members}
      {operand : Value}
      (isOperand : operand ∈ operandsOf node)
      (absentBelow : AbsentBelow operand) :
      AbsentBelow (.object node)

end IyaSts.Report
