import IyaSts.Json
import IyaSts.KeyedList
import IyaSts.SpacedText

namespace IyaSts.MetadataPolicy

open Json JsObject

/-!
# The metadata policies of `metadata_policy.ts`

A policy is an object of entity types, each an object of parameters, each an
object of operators.  A chain's policies are validated, merged from the most
superior statement down, and applied to the subject's metadata.

Deep copies are the value itself: nothing here compares identities.
-/

/-- `OPERATORS`, in their order of application. -/
def operators : List String :=
  ["value", "add", "default", "one_of", "subset_of", "superset_of", "essential"]

/-- `FORBIDDEN_PAIRS`. -/
def forbiddenPairs : List (String × String) :=
  [("one_of", "add"), ("one_of", "subset_of"), ("one_of", "superset_of")]

def codeStructure : String := "STS-OIDFED-0001"
def codeCombination : String := "STS-OIDFED-0002"
def codeMerge : String := "STS-OIDFED-0003"
def codeCritical : String := "STS-OIDFED-0004"
def codeApplication : String := "STS-OIDFED-0005"
def codeEssential : String := "STS-OIDFED-0006"

/-- Why no metadata is answered. -/
inductive Failure where
  /-- `refuse`: a policy error. -/
  | refused (code why : String)
  /-- A value without a text is made one: a `TypeError`. -/
  | thrown
  /-- A built-in object's own properties are written or read. -/
  | outside
  deriving DecidableEq

abbrev Result := Except Failure

/-- `refuse`. -/
def refuse {α : Type} (code why : String) : Result α := throw (.refused code why)

/-- A new array. -/
def arrayFrom (values : List Json) : Json := .array 0 values

/-! ## Comparing values -/

/-- `same`. -/
def same (a b : Json) : Bool := canonical a == canonical b

/-- `subsetOf`. -/
def subsetOf (small big : List Json) : Bool := KeyedList.subsetOf canonical small big

/-- `union`. -/
def union (a b : List Json) : List Json := KeyedList.union canonical a b

/-- `intersection`. -/
def intersection (a b : List Json) : List Json := KeyedList.intersection canonical a b

/-! ## One parameter's operators -/

/-- `operatorValueProblem`; the empty text where there is none. -/
def operatorValueProblem (op : String) (v : Json) : String :=
  if op = "value" then
    ""
  else if op = "default" then
    match v with
    | .null => "may not be null (6.1.3.1.3)"
    | _ => ""
  else if op = "essential" then
    match v with
    | .boolean _ => ""
    | _ => "must be a boolean"
  else if op = "add" ∨ op = "one_of" ∨ op = "subset_of" ∨
      op = "superset_of" then
    if isArray v = false then
      "must be an array"
    else if (elements v).any fun one =>
        match one with
        | .null => true
        | one => isArray one then
      "may hold strings, numbers and objects only"
    else
      ""
  else
    ""

/-- `has` of `combinationProblem`. -/
def has (ops : Members) (name : String) : Bool := (ops.lookup name).isSome

/-- An operator's array. -/
def listed (ops : Members) (name : String) : List Json := ((ops.lookup name).map elements).getD []

/-- `ops.essential === true`. -/
def isEssential (ops : Members) : Bool :=
  match ops.lookup "essential" with
  | some v => strictEqual v (.boolean true)
  | none => false

/-- What `combinationProblem` says of `value` beside the other operators. -/
def valueProblem (ops : Members) (v : Json) : String :=
  match v with
  | .null =>
    if has ops "add" then
      "value null may not be combined with add"
    else if has ops "default" then
      "value null may not be combined with default (6.1.3.1.1)"
    else if isEssential ops then
      "value null may not be combined with essential true"
    else
      ""
  | v =>
    if has ops "add" ∧
        ¬ (isArray v ∧ subsetOf (listed ops "add") (elements v)) then
      "the values of add must be a subset of value"
    else if has ops "one_of" ∧
        ¬ (listed ops "one_of").any (fun one => same one v) then
      "value must be among the one_of values"
    else if has ops "subset_of" ∧
        ¬ (isArray v ∧ subsetOf (elements v) (listed ops "subset_of")) then
      "the values of value must be a subset of subset_of"
    else if has ops "superset_of" ∧
        ¬ (isArray v ∧
          subsetOf (listed ops "superset_of") (elements v)) then
      "the values of value must be a superset of superset_of"
    else
      ""

/-- The same of operators that may lack `value`. -/
def besideValue (ops : Members) : String :=
  match ops.lookup "value" with
  | some v => valueProblem ops v
  | none => ""

/-- `combinationProblem`; the empty text where there is none. -/
def combinationProblem (ops : Members) : String :=
  match forbiddenPairs.find? fun pair => has ops pair.1 && has ops pair.2 with
  | some pair => pair.1 ++ " may not be combined with " ++ pair.2
  | none =>
    if besideValue ops ≠ "" then
      besideValue ops
    else if has ops "add" ∧ has ops "subset_of" ∧
        ¬ subsetOf (listed ops "add") (listed ops "subset_of") then
      "the values of add must be a subset of subset_of"
    else if has ops "subset_of" ∧ has ops "superset_of" ∧
        ¬ subsetOf (listed ops "superset_of") (listed ops "subset_of") then
      "subset_of must be a superset of superset_of"
    else
      ""

/-! ## Validating one statement's policy -/

/-- The parameters of one entity type, each with its operators. -/
abbrev Parameters := List (String × Members)

/-- A validated policy. -/
abbrev Policy := List (String × Parameters)

/-- The loop of `validate` over one parameter's operators. -/
def validateOperators (critical : List String) (place : String) (ops : Members) : Result Members :=
  (entries ops).foldlM (fun kept operator => do
    let (op, v) := operator
    if op ∉ operators then
      if op ∈ critical then
        refuse codeCritical
          (place ++ " uses the operator \"" ++ op ++
            "\", which the chain declares critical (metadata_policy_crit) " ++
            "and this service does not understand (6.1.3.2).")
      else
        pure kept
    else
      let problem := operatorValueProblem op v
      if problem ≠ "" then
        refuse codeStructure (place ++ "." ++ op ++ " " ++ problem ++ ".")
      else
        pure (assign kept op v)) []

/-- The body of the loop of `validate` over one type's parameters. -/
def validateParameter (critical : List String) (place : String) (ops : Json) : Result Members :=
  match ops with
  | .object _ ops => do
    let kept ← validateOperators critical place ops
    let combination := combinationProblem kept
    if combination ≠ "" then
      refuse codeCombination (place ++ ": " ++ combination ++ " (6.1.3.1).")
    else
      pure kept
  | _ => refuse codeStructure (place ++ " is not a JSON object.")

/-- The body of the loop of `validate` over the entity types. -/
def validateType (critical : List String) (place : String) (params : Json) : Result Parameters :=
  match params with
  | .object _ params =>
    (entries params).foldlM (fun out parameter => do
      let (name, ops) := parameter
      let kept ← validateParameter critical (place ++ "." ++ name) ops
      pure (assign out name kept)) []
  | _ => refuse codeStructure (place ++ " is not a JSON object.")

/-- `validate`. -/
def validate (policy : Json) (critical : List String) : Result Policy :=
  match policy with
  | .object _ policy =>
    (entries policy).foldlM (fun out entry => do
      let (type, params) := entry
      let kept ← validateType critical ("metadata_policy." ++ type) params
      pure (assign out type kept)) []
  | _ => refuse codeStructure "metadata_policy is not a JSON object."

/-! ## Merging -/

/-- `mergeOperator`; an error is its `why`. -/
def mergeOperator (op : String) (a b : Json) : Except String Json :=
  if op = "value" ∨ op = "default" then
    if same a b then
      .ok a
    else
      .error ("two superiors set different values, and " ++ op ++
        " merges only when they are equal")
  else if op = "add" ∨ op = "superset_of" then
    .ok (arrayFrom (union (elements a) (elements b)))
  else if op = "subset_of" then
    .ok (arrayFrom (intersection (elements a) (elements b)))
  else if op = "one_of" then
    let both := intersection (elements a) (elements b)
    if both ≠ [] then
      .ok (arrayFrom both)
    else
      .error "the one_of values of two superiors do not intersect"
  else
    .ok (.boolean (strictEqual a (.boolean true) || strictEqual b (.boolean true)))

/-- The loop of `merge` over one parameter's operators. -/
def mergeOperators (place : String) (held sub : Members) : Result Members :=
  (entries sub).foldlM (fun held operator =>
    let (op, v) := operator
    match held.lookup op with
    | none => pure (assign held op v)
    | some mine =>
      match mergeOperator op mine v with
      | .ok merged => pure (assign held op merged)
      | .error why => refuse codeMerge (place ++ "." ++ op ++ ": " ++ why ++ " (6.1.3.1).")) held

/-- A parameter that both policies hold. -/
def mergeParameter (place : String)
    (held sub : Members) : Result Members := do
  let held ← mergeOperators place held sub
  let combination := combinationProblem held
  if combination ≠ "" then
    refuse codeCombination
      (place ++ ", merged down the chain: " ++ combination ++ " (6.1.4.1).")
  else
    pure held

/--
The operators that merges have left on the functions every object inherits,
by the function's name.  They outlive the chain they come from.
-/
abbrev Builtins := List (String × Members)

/-- `out` of `merge`, and the functions it writes to. -/
structure Merging where
  out : Policy
  builtins : Builtins

/-- The body of the loop of `merge` over one type's parameters. -/
def mergeName (place : String) (merging : Parameters × Builtins)
    (parameter : String × Members) : Result (Parameters × Builtins) :=
  let (params, builtins) := merging
  let (name, sub) := parameter
  -- `!out[type][name]` is asked of what is inherited, too.
  match read params name with
  | .absent => pure (assign params name sub, builtins)
  | .own held => do
    let held ← mergeParameter (place ++ "." ++ name) held sub
    pure (assign params name held, builtins)
  | .inherited => do
    let held := (builtins.lookup name).getD []
    let held ← mergeParameter (place ++ "." ++ name) held sub
    pure (params, assign builtins name held)

/-- The body of the loop of `merge` over the entity types. -/
def mergeType (merging : Merging) (entry : String × Parameters) : Result Merging :=
  let (type, next) := entry
  match read merging.out type with
  | .absent => pure ⟨assign merging.out type next, merging.builtins⟩
  | .own params => do
    let (params, builtins) ←
      (entries next).foldlM (mergeName ("metadata_policy." ++ type)) (params, merging.builtins)
    pure ⟨assign merging.out type params, builtins⟩
  | .inherited =>
    -- The parameters are looked for on, and written to, a function.
    if entries next = [] then
      pure merging
    else
      throw .outside

/-- `merge`. -/
def merge (current : Merging) (next : Policy) : Result Merging :=
  (entries next).foldlM mergeType current

/-! ## A chain's policy -/

/-- What every entity type of some metadata holds, by parameter. -/
abbrev Metadata := List (String × Members)

/--
A claim set, as `validateClaims` accepts it: `metadata` is an object of
objects.
-/
structure ClaimSet where
  iss : Option Json
  sub : Option Json
  metadata : Option Metadata
  metadataPolicy : Option Json
  metadataPolicyCrit : Option Json
  constraints : Option Json

/-- `one.iss !== one.sub`. -/
def isSubordinate (statement : ClaimSet) : Bool :=
  match statement.iss, statement.sub with
  | some iss, some sub => !strictEqual iss sub
  | none, none => false
  | _, _ => true

/-- The operators the chain declares critical. -/
def criticalOf (statements : List ClaimSet) : Result (List String) :=
  statements.foldlM (fun critical one =>
    ((one.metadataPolicyCrit.map elements).getD []).foldlM
      (fun critical name =>
        match toText name with
        | some name => pure (if name ∈ critical then critical else critical ++ [name])
        | none => throw .thrown) critical) []

/-- The body of the loop of `resolve`. -/
def resolveStatement (critical : List String) (merging : Merging)
    (statement : ClaimSet) : Result Merging :=
  match statement.metadataPolicy with
  | none => pure merging
  | some raw => do
    let valid ← validate raw critical
    merge merging valid

/-- `resolve`, of the statements from the most superior down. -/
def resolve (builtins : Builtins)
    (statements : List ClaimSet) : Result Merging := do
  let critical ← criticalOf statements
  statements.foldlM (resolveStatement critical) ⟨[], builtins⟩

/-! ## Applying a policy -/

/-- `present` of `applyToType`. -/
def present (out : Members) (name : String) : Bool := (out.lookup name).isSome

/-- A parameter's value as the operators see it: `scope` as its words. -/
def seen (name : String) (value : Json) : Json :=
  match value with
  | .string text =>
    if name = "scope" then
      arrayFrom ((SpacedText.words text).map Json.string)
    else
      value
  | _ => value

/-- A value as it is stored: the values of `scope` joined. -/
def stored (name : String) (value : Json) : Result Json :=
  match value with
  | .array _ values =>
    if name = "scope" then
      match elementTexts values with
      | some texts => pure (.string (SpacedText.join texts))
      | none => throw .thrown
    else
      pure value
  | _ => pure value

/-- `write` of `applyToType`. -/
def write (out : Members) (name : String) (value : Json) : Result Members := do
  let value ← stored name value
  pure (assign out name value)

/-- One operator of `applyToType`, where the parameter has it. -/
def applyOperator (type name op : String) (v : Json) (out : Members) : Result Members :=
  let fail (why : String) : Result Members :=
    refuse codeApplication (type ++ "." ++ name ++ ": " ++ why ++ " (6.1.4.2).")
  if op = "value" then
    match v with
    | .null => pure (remove out name)
    | v => write out name v
  else if op = "add" then
    match out.lookup name with
    | none => write out name v
    | some value =>
      match seen name value with
      | .array _ held => write out name (arrayFrom (union held (elements v)))
      | _ => fail "add acts on an array, and the parameter is not one"
  else if op = "default" then
    if present out name then pure out else write out name v
  else if op = "one_of" then
    match out.lookup name with
    | none => pure out
    | some value =>
      let held := seen name value
      if isArray held ∨ ¬ (elements v).any (fun one => same one held) then
        fail ("the value is not one of " ++ stringify v)
      else
        pure out
  else if op = "subset_of" then
    match out.lookup name with
    | none => pure out
    | some value =>
      match seen name value with
      | .array _ held => write out name (arrayFrom (intersection held (elements v)))
      | _ => fail "subset_of acts on an array, and the parameter is not one"
  else if op = "superset_of" then
    match out.lookup name with
    | none => pure out
    | some value =>
      let held := seen name value
      if isArray held = false ∨ ¬ subsetOf (elements v) (elements held) then
        fail ("the values must include " ++ stringify v)
      else
        pure out
  else if op = "essential" then
    if strictEqual v (.boolean true) ∧ ¬ present out name then
      refuse codeEssential (type ++ "." ++ name ++ " is essential and absent (6.1.3.1.7).")
    else
      pure out
  else
    pure out

/-- The body of the loop of `applyToType` over the operators. -/
def applyAsked (type name : String) (ops : Members) (out : Members)
    (op : String) : Result Members :=
  match ops.lookup op with
  | none => pure out
  | some v => applyOperator type name op v out

/-- The body of the loop of `applyToType` over the parameters. -/
def applyParameter (type : String) (out : Members)
    (parameter : String × Members) : Result Members := do
  let (name, ops) := parameter
  let out ← operators.foldlM (applyAsked type name ops) out
  match out.lookup name with
  | some .null =>
    refuse codeApplication
      (type ++ "." ++ name ++ ": the result is null, which metadata may not hold (6.1.4.2).")
  | _ => pure out

/-- `applyToType`. -/
def applyToType (type : String) (metadata : Members) (policy : Parameters) : Result Members :=
  (entries policy).foldlM (applyParameter type) metadata

/-- `apply`. -/
def apply (metadata : Metadata) (resolved : Merging) : Result Metadata :=
  (entries metadata).foldlM (fun out entry =>
    let (type, params) := entry
    match read resolved.out type with
    | .absent => pure out
    | .own policy => do
      let applied ← applyToType type params policy
      pure (assign out type applied)
    | .inherited =>
      -- The policy is a built-in object with the operators left on it.
      match (resolved.builtins.lookup type).getD [] with
      | [] => pure out
      | _ => throw .outside) metadata

/-- `overlay`. -/
def overlay (metadata superior : Metadata) : Result Metadata :=
  (entries superior).foldlM (fun out entry =>
    let (type, params) := entry
    match read out type with
    | .absent => pure out
    | .own held =>
      pure (assign out type
        ((entries params).foldl (fun held parameter => assign held parameter.1 parameter.2) held))
    | .inherited =>
      -- `Object.prototype` is a plain object; the functions are none.
      if type = "__proto__" ∧ entries params ≠ [] then
        throw .outside
      else
        pure out) metadata

/-- `stripEntityTypes`, of the statements after the first. -/
def stripEntityTypes (metadata : Metadata) (statements : List ClaimSet) : Metadata :=
  statements.foldl (fun out statement =>
    let allowed :=
      match isSubordinate statement, statement.constraints with
      | true, some (.object _ constraints) => constraints.lookup "allowed_entity_types"
      | _, _ => none
    match allowed with
    | some (.array _ allowed) =>
      out.filter fun entry => entry.1 = "federation_entity" || includes allowed (.string entry.1)
    | _ => out) metadata

/-- What `resolvedMetadata` answers. -/
structure Resolved where
  metadata : Metadata
  policy : Policy
  builtins : Builtins

/-- `subordinates` of `resolvedMetadata`. -/
def subordinates (chain : List ClaimSet) : List ClaimSet := chain.tail.filter isSubordinate

/-- The subject's metadata before any policy. -/
def declared (chain : List ClaimSet) : Result Metadata := do
  let metadata := (chain.head?.bind ClaimSet.metadata).getD []
  let metadata ←
    match (subordinates chain).head?.bind ClaimSet.metadata with
    | some superior => overlay metadata superior
    | none => pure metadata
  pure (stripEntityTypes metadata chain.tail)

/-- `resolvedMetadata`. -/
def resolvedMetadata (builtins : Builtins)
    (chain : List ClaimSet) : Result Resolved := do
  let metadata ← declared chain
  let resolved ← resolve builtins (subordinates chain).reverse
  let metadata ← apply metadata resolved
  pure ⟨metadata, resolved.out, resolved.builtins⟩

end IyaSts.MetadataPolicy
