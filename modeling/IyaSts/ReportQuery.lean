import IyaSts.Binary64Arithmetic
import IyaSts.Fallible
import IyaSts.Json

namespace IyaSts.Report

/-!
# The query document, `report/query.ts`

A document names one catalog source, the fields to project, a filter tree, an
order and a limit.  It is checked whole, and then copied into a plan with the
parameters replaced by the values they name.
-/

open Binary64 (Number)

/-! ## Values -/

/-- A value that is no array or object. -/
inductive Scalar where
  | undefined
  | null
  | boolean (value : Bool)
  | number (value : Number)
  | string (text : String)
  deriving DecidableEq

/-- What was posted, as `JSON.parse` gives it, or what a parameter is bound to. -/
inductive Value where
  | scalar (scalar : Scalar)
  | array (elements : List Value)
  | object (members : List (String × Value))

/-- The own members of an object; of two of one name the first counts. -/
abbrev Members := List (String × Value)

/-- `value == null`. -/
def Value.isAbsent : Value → Bool
  | .scalar .undefined => true
  | .scalar .null => true
  | _ => false

/-- `ownKeys`. -/
def ownKeys (members : Members) : List String := (Json.entries members).map Prod.fst

/-- A member of a document; its names are none that objects inherit. -/
def member (members : Members) (name : String) : Value :=
  (members.lookup name).getD (.scalar .undefined)

/-- A number that is finite and a double. -/
def IsFiniteDouble (number : Number) : Prop :=
  number.isNaN = false ∧ number.isInfinite = false ∧ number.IsDouble

theorem IsFiniteDouble.eq_finite {number : Number} (isFiniteDouble : IsFiniteDouble number) :
    ∃ negative magnitude, number = .finite negative magnitude := by
  obtain ⟨isNumber, isBounded, _⟩ := isFiniteDouble
  cases number with
  | nan => cases isNumber
  | infinite negative => cases isBounded
  | finite negative magnitude => exact ⟨negative, magnitude, rfl⟩

/-- What the service asks of the language's own library. -/
structure Platform where
  /-- `String(number)`. -/
  numberText : Number → String
  /-- A finite number is written with digits, signs, a point and an exponent. -/
  isNumeral :
    ∀ negative magnitude,
      (numberText (.finite negative magnitude)).toList ≠ [] ∧
        ∀ char ∈ (numberText (.finite negative magnitude)).toList, char ∈ numeralChars
  /-- Two doubles have one text where they are equal. -/
  numberText_inj :
    ∀ {number other},
      IsFiniteDouble number →
      IsFiniteDouble other →
      (numberText number = numberText other ↔ number.place = other.place)
  /-- `Number(text)`. -/
  parseNumber : String → Number
  /-- `Date.parse`; not a number for a text that is no time. -/
  dateParse : String → Number
  dateParse_isDouble : ∀ text, (dateParse text).IsDouble

/-! ## The catalog -/

inductive FieldType where
  | string
  | number
  | boolean
  | timestamp
  deriving DecidableEq

/-- `GROUPABLE`. -/
def groupableIds : List String :=
  ["status", "enabled", "type", "protocol", "category", "action", "outcome", "format", "family",
    "application", "day", "mechanism", "dialect", "mode", "onFailure", "role", "algorithm",
    "lane", "factors", "hasPassword", "channel", "format", "activity", "profile", "done",
    "graceEnded", "mailedBy", "progress", "askedBy"]

/-- A field of a source, of which few may be grouped. -/
structure FieldSpec where
  id : String
  type : FieldType
  filter : Bool
  sort : Bool
  group : Bool
  groupable : group = true → id ∈ groupableIds

structure SourceSpec where
  id : String
  bounded : Bool
  fields : List FieldSpec

structure Catalog where
  sources : List SourceSpec

/-- `Catalog.source`: the last one found. -/
def Catalog.source (catalog : Catalog) (id : String) : Option SourceSpec :=
  (catalog.sources.filter fun source => source.id = id).getLast?

/-- `Catalog.field`. -/
def Catalog.field (catalog : Catalog) (sourceId fieldId : String) : Option FieldSpec :=
  let fields :=
    match catalog.source sourceId with
    | some source => source.fields
    | none => []
  (fields.filter fun field => field.id = fieldId).getLast?

/-- `Catalog.operatorsFor`. -/
def operatorsFor : FieldType → List String
  | .string => ["eq", "ne", "contains", "startsWith", "in", "isNull"]
  | .number => ["eq", "ne", "lt", "le", "gt", "ge", "in", "isNull"]
  | .timestamp => ["eq", "ne", "lt", "le", "gt", "ge", "isNull"]
  | .boolean => ["eq", "ne", "isNull"]

/-- The row caps, settings that are at least one. -/
structure Limits where
  syncMaxRows : Nat
  asyncMaxRows : Nat
  pdfMaxRows : Nat
  positive : 0 < syncMaxRows

/-! ## Refusals -/

inductive Failure where
  | refused (code error description : String)
  /-- A `TypeError` of the language. -/
  | thrown
  deriving DecidableEq

def invalidQuery {α : Type} (description : String) : Except Failure α :=
  .error (.refused "STS-REPORT-0004" "invalid_query" description)

def unknownField {α : Type} : Except Failure α :=
  .error (.refused "STS-REPORT-0002" "unknown_field" "The source has no such field.")

def unsupported {α : Type} (error description : String) : Except Failure α :=
  .error (.refused "STS-REPORT-0003" error description)

def tooLarge {α : Type} (description : String) : Except Failure α :=
  .error (.refused "STS-REPORT-0005" "result_too_large" description)

def documentKeys : List String :=
  ["source", "select", "where", "orderBy", "limit", "format", "mode", "locale", "aggregate",
    "groupBy"]

def formats : List String := ["json", "csv", "pdf"]

def modes : List String := ["sync", "async", "auto"]

def dirs : List String := ["asc", "desc"]

def whereDepth : Nat := 8
def selectCap : Nat := 64
def argsCap : Nat := 16
def inCap : Nat := 50
def orderCap : Nat := 8
def groupCap : Nat := 8
def stampCap : Nat := 40

/-! ## The filter -/

section

variable (platform : Platform)
variable (catalog : Catalog)
variable (parameters : Option Members)
variable (boundSource : String)

/-- `Query.oneValue`. -/
def oneValue (type : FieldType) (value : Value) : Except Failure Unit :=
  match type with
  | .string =>
    match value with
    | .scalar (.string _) => .ok ()
    | _ => invalidQuery "The value is not a string."
  | .number =>
    match value with
    | .scalar (.number (.finite _ _)) => .ok ()
    | _ => invalidQuery "The value is not a finite number."
  | .boolean =>
    match value with
    | .scalar (.boolean _) => .ok ()
    | _ => invalidQuery "The value is not a boolean."
  | .timestamp =>
    match value with
    | .scalar (.number (.finite _ _)) => .ok ()
    | .scalar (.string text) =>
      if (Json.codeUnits text).length ≤ stampCap ∧ 0 < (Json.codeUnits text).length ∧
          ((platform.dateParse text).isNaN || (platform.dateParse text).isInfinite) = false then
        .ok ()
      else
        invalidQuery "The value is not a timestamp."
    | _ => invalidQuery "The value is not a timestamp."

/-- `Query.typed`. -/
def typed (type : FieldType) (op : String) (value : Value) : Except Failure Unit :=
  if op = "in" then
    match value with
    | .array elements =>
      if elements.length < 1 ∨ inCap < elements.length then
        invalidQuery "in takes between 1 and 50 values."
      else
        elements.forM (oneValue platform type)
    | _ => invalidQuery "in takes between 1 and 50 values."
  else
    oneValue platform type value

/-- `Query.leafField`; it answers the field. -/
def leafField (node : Members) (op : String) : Except Failure FieldSpec :=
  match member node "field" with
  | .scalar (.string field) =>
    if field = "" then
      invalidQuery "A filter names no field."
    else
      let spec := if boundSource = "" then none else catalog.field boundSource field
      match spec with
      | none => unknownField
      | some spec =>
        if spec.filter = false then
          unsupported "unsupported_operation" "That field cannot be filtered."
        else if op ≠ "isNull" ∧ op ∉ operatorsFor spec.type then
          unsupported "unsupported_operation" "That operator does not apply to the field."
        else
          .ok spec
  | _ => invalidQuery "A filter names no field."

/-- The value that a comparison names, its own or a parameter's. -/
def leafOperand (node : Members) : Except Failure Value :=
  match node.lookup "param" with
  | none => .ok (member node "value")
  | some (.scalar (.string param)) =>
    if param = "" then
      invalidQuery "A parameter name is a string."
    else
      match (parameters.getD []).lookup param with
      | none => invalidQuery "A parameter is missing."
      | some value => .ok value
  | some _ => invalidQuery "A parameter name is a string."

/-- `Query.leafValue`. -/
def leafValue (node : Members) (spec : FieldSpec) (op : String) : Except Failure Unit := do
  let value ← leafOperand parameters node
  typed platform spec.type op value

/-- `Query.leaf`. -/
def leaf (node : Members) (op : String) : Except Failure Unit :=
  let keys := ownKeys node
  let hasValue : Prop := "value" ∈ keys
  let hasParam : Prop := "param" ∈ keys
  if op = "isNull" then
    if keys.length ≠ 2 ∨ "field" ∉ keys then
      invalidQuery "isNull names a field and nothing else."
    else do
      let _ ← leafField catalog boundSource node op
  else if hasValue ∧ hasParam then
    invalidQuery "A filter names a value or a parameter, not both."
  else if ¬hasValue ∧ ¬hasParam then
    invalidQuery "A filter names a value or a parameter."
  else if hasParam ∧ parameters = none then
    invalidQuery "A saved parameter was not given."
  else if keys.length ≠ 3 ∨
      ¬keys.all (["op", "field", if hasParam then "param" else "value"].contains ·) then
    invalidQuery "The filter has a key this service does not read."
  else do
    let spec ← leafField catalog boundSource node op
    leafValue platform parameters node spec op

-- `Query.whereOf` of what stands one level deeper.
variable (child : Value → Except Failure Unit)

/-- `Query.logical`. -/
def logical (node : Members) : Except Failure Unit :=
  let keys := ownKeys node
  if keys.length ≠ 2 ∨ "op" ∉ keys ∨ "args" ∉ keys then
    invalidQuery "An and or an or takes a list of filters."
  else
    match member node "args" with
    | .array args =>
      if args.length < 1 ∨ argsCap < args.length then
        invalidQuery "An and or an or takes between 1 and 16 filters."
      else
        args.forM child
    | _ => invalidQuery "An and or an or takes a list of filters."

/-- `Query.negation`. -/
def negation (node : Members) : Except Failure Unit :=
  let keys := ownKeys node
  if keys.length ≠ 2 ∨ "op" ∉ keys ∨ "arg" ∉ keys then
    invalidQuery "A not takes one filter."
  else
    child (member node "arg")

/-- `Query.whereOf`, at a depth of which `levels` are left. -/
def whereOf : Nat → Value → Except Failure Unit
  | levels, node =>
    if node.isAbsent then
      .ok ()
    else
      match levels with
      | 0 => invalidQuery "The filter is nested too deep."
      | levels + 1 =>
        match node with
        | .object members =>
          match member members "op" with
          | .scalar (.string op) =>
            if op = "and" ∨ op = "or" then
              logical (whereOf levels) members
            else if op = "not" then
              negation (whereOf levels) members
            else
              leaf platform catalog parameters boundSource members op
          | _ => invalidQuery "The filter is not a tree of operators."
        | _ => invalidQuery "The filter is not a tree of operators."

end

/-! ## The fields -/

/-- The field ids of a list, each a text that is not empty and named once. -/
def namesFrom (key : String) (held : List String) : List Value → Except Failure (List String)
  | [] => .ok held
  | .scalar (.string name) :: rest =>
    if name = "" then
      invalidQuery ("A " ++ key ++ " entry is not a field id.")
    else if name ∈ held then
      invalidQuery "A field is named twice."
    else
      namesFrom key (held ++ [name]) rest
  | _ :: _ => invalidQuery ("A " ++ key ++ " entry is not a field id.")

/-- `Query.names`. -/
def names (value : Value) (key : String) : Except Failure (List String) :=
  match value with
  | .scalar .undefined => .ok []
  | .scalar .null => .ok []
  | .array elements => namesFrom key [] elements
  | _ => invalidQuery ("The " ++ key ++ " list is not a list.")

section

variable (platform : Platform)

def scalarText : Scalar → String
  | .undefined => "undefined"
  | .null => "null"
  | .boolean true => "true"
  | .boolean false => "false"
  | .number value => platform.numberText value
  | .string text => text

mutual

/-- `String(value)`; an object's own `toString` is nothing to call. -/
def valueText : Value → Except Failure String
  | .scalar scalar => .ok (scalarText platform scalar)
  | .array elements => do
    let texts ← elementTexts elements
    return ",".intercalate texts
  | .object members =>
    if (members.lookup "toString").isSome then .error .thrown else .ok "[object Object]"

/-- The texts of the elements of an array that is joined. -/
def elementTexts : List Value → Except Failure (List String)
  | [] => .ok []
  | element :: rest => do
    let text ← if element.isAbsent then .ok "" else valueText element
    let texts ← elementTexts rest
    return text :: texts

end

/-- The entries of an order, each of one field and a direction. -/
def orderFrom (held : List String) : List Value → Except Failure (List String)
  | [] => .ok held
  | .object item :: rest =>
    let keys := ownKeys item
    if keys.length ≠ 2 ∨ "field" ∉ keys ∨ "dir" ∉ keys then
      invalidQuery "An order entry is a field and a direction."
    else
      match member item "field" with
      | .scalar (.string field) =>
        if field = "" then
          invalidQuery "An order entry names no field."
        else do
          let dir ← valueText platform (member item "dir")
          if dir ∉ dirs then
            invalidQuery "An order direction is asc or desc."
          else if field ∈ held then
            invalidQuery "A field is named twice."
          else
            orderFrom (held ++ [field]) rest
      | _ => invalidQuery "An order entry names no field."
  | _ :: _ => invalidQuery "An order entry is not a field and a direction."

/-- `Query.orderOf`. -/
def orderOf (value : Value) : Except Failure (List String) :=
  match value with
  | .scalar .undefined => .ok []
  | .scalar .null => .ok []
  | .array elements =>
    if orderCap < elements.length then
      invalidQuery "A query orders by at most 8 fields."
    else
      orderFrom platform [] elements
  | _ => invalidQuery "The order is not a list."

end

section

variable (catalog : Catalog)
variable (sourceId : String)

/-- `Query.unknown`. -/
def unknown (ids : List String) : Except Failure Unit :=
  if ids.all fun id => (catalog.field sourceId id).isSome then .ok () else unknownField

/-- `Query.flags`. -/
def flags (groupBy order : List String) (counted : Bool) : Except Failure Unit :=
  if groupBy.any fun id => (catalog.field sourceId id).any fun spec => !spec.group then
    unsupported "unsupported_operation" "That field cannot be grouped."
  else if order.any fun id =>
      (catalog.field sourceId id).any fun spec => !spec.sort && !counted then
    unsupported "unsupported_operation" "That field cannot be sorted."
  else
    .ok ()

end

/-- `Query.grouped`. -/
def grouped (select groupBy order : List String) : Except Failure Unit :=
  if ¬∀ field ∈ select, field ∈ groupBy then
    invalidQuery "A counted field has to be grouped."
  else if order ≠ [] ∧ groupBy = [] then
    invalidQuery "A count of every row has no order."
  else if ¬∀ field ∈ order, field ∈ groupBy then
    invalidQuery "A count is ordered by a grouped field."
  else
    .ok ()

/-- `document.aggregate === 'count'`. -/
def isCounted (document : Members) : Bool :=
  match member document "aggregate" with
  | .scalar (.string aggregate) => aggregate = "count"
  | _ => false

/-- `Query.fieldsOf`. -/
def fieldsOf (platform : Platform) (catalog : Catalog) (sourceId : String) (document : Members) :
    Except Failure Unit := do
  let counted := isCounted document
  let select ← names (member document "select") "select"
  if selectCap < select.length then
    invalidQuery "A query selects at most 64 fields."
  else if select = [] ∧ counted = false then
    invalidQuery "A query with no aggregate names no field."
  else
    let groupBy ← names (member document "groupBy") "groupBy"
    if groupBy ≠ [] ∧ counted = false then
      invalidQuery "groupBy needs a count."
    else if groupCap < groupBy.length then
      invalidQuery "A query groups by at most 8 fields."
    else
      let order ← orderOf platform (member document "orderBy")
      unknown catalog sourceId (select ++ groupBy ++ order)
      flags catalog sourceId groupBy order counted
      if counted then grouped select groupBy order else .ok ()

/-! ## The rest of the document -/

/-- `Query.sourceOf`; it answers the source. -/
def sourceOf (catalog : Catalog) (document : Members) : Except Failure SourceSpec :=
  match document.lookup "source" with
  | none => invalidQuery "The document names no source."
  | some (.scalar (.string source)) =>
    if source = "" then
      invalidQuery "The document names no source."
    else
      match catalog.source source with
      | none => .error (.refused "STS-REPORT-0001" "unknown_source" "No such source.")
      | some spec => .ok spec
  | some _ => invalidQuery "A report reads one source."

/-- `Query.formatOf` and `Query.modeOf`: a member that is one of some texts. -/
def choiceOf (platform : Platform) (name : String) (choices : List String)
    (error description : String) (document : Members) :
    Except Failure Unit :=
  match document.lookup name with
  | none => .ok ()
  | some (.scalar (.string choice)) =>
    if choice ∈ choices then .ok () else unsupported error description
  | some value => do
    let _ ← valueText platform value
    unsupported error description

/-- `Query.formatOf`. -/
def formatOf (platform : Platform) (document : Members) : Except Failure Unit :=
  choiceOf platform "format" formats "unsupported_format" "The format is not json, csv or pdf."
    document

/-- `Query.modeOf`. -/
def modeOf (platform : Platform) (document : Members) : Except Failure Unit :=
  choiceOf platform "mode" modes "unsupported_operation" "The mode is not sync, async or auto."
    document

/-- `/^[A-Za-z]{2,3}(-[A-Za-z0-9]{2,8})*$/`. -/
def isLocale (tag : String) : Bool :=
  match tag.toList.splitOn '-' with
  | [] => false
  | language :: subtags =>
    (2 ≤ language.length && language.length ≤ 3 && language.all isAsciiLetter) &&
      subtags.all fun subtag =>
        2 ≤ subtag.length && subtag.length ≤ 8 &&
          subtag.all fun char => isAsciiLetter char || ('0' ≤ char && char ≤ '9')
where
  isAsciiLetter (char : Char) : Bool := ('A' ≤ char && char ≤ 'Z') || ('a' ≤ char && char ≤ 'z')

/-- `Query.localeOf`. -/
def localeOf (platform : Platform) (document : Members) : Except Failure Unit :=
  match member document "locale" with
  | .scalar .undefined => .ok ()
  | .scalar .null => .ok ()
  | .scalar (.string tag) =>
    if 35 < (Json.codeUnits tag).length ∨ isLocale tag = false then
      invalidQuery "The locale is not a language tag."
    else
      .ok ()
  | value => do
    let _ ← valueText platform value
    invalidQuery "The locale is not a language tag."

/-- `Query.aggregateOf`. -/
def aggregateOf (document : Members) : Except Failure Unit :=
  if (member document "aggregate").isAbsent || isCounted document then
    .ok ()
  else
    unsupported "unsupported_operation" "The only aggregate is count."

/-- `Query.limitOf`; it answers the limit, where the document has one. -/
def limitOf (document : Members) : Except Failure (Option Nat) :=
  match document.lookup "limit" with
  | none => .ok none
  | some (.scalar (.number (.finite false magnitude))) =>
    if magnitude = 0 ∨ magnitude.den ≠ 1 then
      invalidQuery "A limit is a positive whole number."
    else
      .ok (some magnitude.num)
  | some _ => invalidQuery "A limit is a positive whole number."

/-- A member that is a text, or a default. -/
def textMember (document : Members) (name default : String) : String :=
  match member document name with
  | .scalar (.string text) => text
  | _ => default

/-- `Query.sizeOf`, whose last check is one of `auto` again. -/
def sizeOfDocument (limits : Limits) (source : SourceSpec) (document : Members) (limit : Nat) :
    Except Failure Unit :=
  let mode := textMember document "mode" "auto"
  if textMember document "format" "json" = "pdf" ∧ limits.pdfMaxRows < limit then
    tooLarge "A PDF cannot hold this many rows. Ask for CSV."
  else if mode = "sync" ∧ (limits.syncMaxRows < limit ∨ source.bounded = false) then
    tooLarge
      (if limits.syncMaxRows < limit then
        "The limit is above the synchronous cap."
      else
        "This source cannot be read synchronously.")
  else if (mode = "async" ∨ mode = "auto") ∧ limits.asyncMaxRows < limit then
    tooLarge "The limit is above the asynchronous cap."
  else
    .ok ()

/-! ## The plan -/

/-- A filter of a plan. -/
inductive Node where
  | absent
  | and (args : List Node)
  | or (args : List Node)
  | not (arg : Node)
  | isNull (field : String)
  | leaf (op field : String) (value : Value)

/-- One field of an order. -/
structure OrderKey where
  field : String
  dir : String
  deriving DecidableEq

structure Plan where
  source : String
  select : List String
  /-- `where`. -/
  filter : Node
  orderBy : List OrderKey
  limit : Nat
  format : String
  mode : String
  locale : Option String
  counted : Bool
  groupBy : List String
  execution : String
  fields : List String

/-- A text that has been checked to be one. -/
def Value.text : Value → String
  | .scalar (.string text) => text
  | _ => ""

theorem sizeOf_lt_of_lookup {members : Members} {name : String} {value : Value}
    (isMember : members.lookup name = some value) :
    sizeOf value < sizeOf members := by
  obtain ⟨before, after, rfl, _⟩ := List.lookup_eq_some_iff.mp isMember
  have inside : (name, value) ∈ before ++ (name, value) :: after := by simp
  have less := List.sizeOf_lt_of_mem inside
  rw [Prod.mk.sizeOf_spec] at less
  omega

/-- `Query.copyWhere`, of a filter that `whereOf` accepts. -/
def copyWhere (parameters : Option Members) : Value → Node
  | .scalar _ => .absent
  | .array _ => .absent
  | .object members =>
    let op := (member members "op").text
    if op = "and" ∨ op = "or" then
      match _isArgs : members.lookup "args" with
      | some (.array args) =>
        let copies := args.attach.map fun child => copyWhere parameters child.val
        if op = "and" then .and copies else .or copies
      | _ => .absent
    else if op = "not" then
      match _isArg : members.lookup "arg" with
      | some arg => .not (copyWhere parameters arg)
      | none => .not .absent
    else if op = "isNull" then
      .isNull (member members "field").text
    else
      let value :=
        match members.lookup "param" with
        | some param => ((parameters.getD []).lookup param.text).getD (.scalar .undefined)
        | none => member members "value"
      .leaf op (member members "field").text value
termination_by node => sizeOf node
decreasing_by
  · have deeper := sizeOf_lt_of_lookup _isArgs
    have deepest := List.sizeOf_lt_of_mem child.property
    rw [Value.array.sizeOf_spec] at deeper
    rw [Value.object.sizeOf_spec]
    omega
  · have deeper := sizeOf_lt_of_lookup _isArg
    rw [Value.object.sizeOf_spec]
    omega

/-- `Query.copyOrder`, of an order that `orderOf` accepts. -/
def copyOrder (platform : Platform) (value : Value) : List OrderKey :=
  match value with
  | .array elements =>
    elements.filterMap fun
      | .object item =>
        match valueText platform (member item "dir") with
        | .ok dir => some ⟨(member item "field").text, dir⟩
        | .error _ => none
      | _ => none
  | _ => []

/-- The texts of a list of field ids that `names` accepts. -/
def copyNames (value : Value) : List String :=
  match value with
  | .array elements => elements.map Value.text
  | _ => []

/-- `Query.planOf`. -/
def planOf (platform : Platform) (limits : Limits) (parameters : Option Members)
    (source : SourceSpec) (document : Members) (limit : Nat) :
    Plan :=
  let select := copyNames (member document "select")
  let groupBy := copyNames (member document "groupBy")
  let counted := isCounted document
  let mode := textMember document "mode" "auto"
  { source := (member document "source").text
    select
    filter := copyWhere parameters (member document "where")
    orderBy := copyOrder platform (member document "orderBy")
    limit
    format := textMember document "format" "json"
    mode
    locale :=
      match member document "locale" with
      | .scalar (.string tag) => some tag
      | _ => none
    counted
    groupBy
    execution :=
      if mode = "sync" ∨ mode = "auto" ∧ source.bounded = true ∧ limit ≤ limits.syncMaxRows then
        "sync"
      else
        "async"
    fields := if counted then (if select = [] then groupBy else select) ++ ["count"] else select }

/-- `Query.document`: the members of what was posted, if it is a document. -/
def documentOf (document : Value) : Except Failure Members :=
  match document with
  | .object members =>
    let keys := ownKeys members
    if "query" ∈ keys ∨ "sources" ∈ keys then
      invalidQuery "A report is a document, not a statement."
    else if ¬∀ key ∈ keys, key ∈ documentKeys then
      invalidQuery "The document has a key this service does not read."
    else
      .ok members
  | _ => invalidQuery "A report is a document, not a statement."

/-- `Query.validate`. -/
def validate (platform : Platform) (catalog : Catalog) (limits : Limits)
    (document : Value) (parameters : Option Members) :
    Except Failure Plan := do
  let members ← documentOf document
  let source ← sourceOf catalog members
  let boundSource := (member members "source").text
  formatOf platform members
  modeOf platform members
  localeOf platform members
  aggregateOf members
  fieldsOf platform catalog boundSource members
  whereOf platform catalog parameters boundSource (whereDepth) (member members "where")
  let given ← limitOf members
  let limit := given.getD limits.syncMaxRows
  sizeOfDocument limits source members limit
  return planOf platform limits parameters source members limit

end IyaSts.Report
