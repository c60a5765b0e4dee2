import IyaSts.BoundedHeap
import IyaSts.JsonContent
import IyaSts.ReportQuery
import Mathlib.Data.List.Infix

namespace IyaSts.Report

/-!
# The rows that a plan keeps, `report/rows.ts`

A row is asked of the plan's filter, each comparison by the type that the
catalog gives its field.  Without an order the first that match are kept, with
one a heap of those that sort first, and a count keeps a number for each group.
-/

open Binary64 (Number)

/-- A source row, keyed by field id; of two of one id the first counts. -/
abbrev Row := List (String × Scalar)

/-- `row[field]`. -/
def Row.value (row : Row) (field : String) : Scalar := (row.lookup field).getD .undefined

/-- `reportTypes`: the last field of an id counts. -/
def reportTypes (catalog : Catalog) (source field : String) : Option FieldType :=
  match catalog.field source field with
  | some spec => some spec.type
  | none => if field = "count" then some .number else none

/-- `LIST_FIELDS`. -/
def listFields : List String := ["memberOf", "methodsUsed"]

/-- `text.split(', ')`. -/
def splitList : List Char → List (List Char)
  | [] => [[]]
  | ',' :: ' ' :: rest => [] :: splitList rest
  | char :: rest =>
    match splitList rest with
    | [] => [[char]]
    | first :: others => (char :: first) :: others

/-- `partsOf`. -/
def partsOf (field : String) (value : Scalar) : List Scalar :=
  match value with
  | .string text =>
    if field ∈ listFields then
      let parts := (splitList text.toList).filter (· ≠ [])
      if parts = [] then [value] else parts.map fun part => .string (String.ofList part)
    else
      [value]
  | _ => [value]

/-- `left === right`; an array or object of a filter is none of a row's. -/
def strictEqual : Value → Value → Bool
  | .scalar .undefined, .scalar .undefined => true
  | .scalar .null, .scalar .null => true
  | .scalar (.boolean left), .scalar (.boolean right) => left = right
  | .scalar (.number left), .scalar (.number right) => Number.strictEqual left right
  | .scalar (.string left), .scalar (.string right) => left = right
  | _, _ => false

/-- `Number.isFinite(number)`. -/
def isFinite : Number → Bool
  | .finite _ _ => true
  | _ => false

section

variable (platform : Platform)

/-- `stamp`. -/
def stamp : Value → Option Number
  | .scalar (.number value) => if isFinite value then some value else none
  | .scalar (.string text) =>
    if isFinite (platform.dateParse text) then some (platform.dateParse text) else none
  | _ => none

/-- `same`. -/
def same (type : FieldType) (left right : Value) : Bool :=
  if type = .timestamp then
    match stamp platform left, stamp platform right with
    | some left, some right => Number.strictEqual left right
    | _, _ => false
  else
    strictEqual left right

/-- `before`. -/
def before (type : FieldType) (left right : Value) : Bool :=
  if type = .timestamp then
    match stamp platform left, stamp platform right with
    | some left, some right => Number.less left right
    | _, _ => false
  else
    match left, right with
    | .scalar (.number left), .scalar (.number right) => Number.less left right
    | _, _ => false

/-- `anyPartSame`. -/
def anyPartSame (type : FieldType) (field : String) (value : Scalar) (wanted : Value) : Bool :=
  (partsOf field value).any fun part => same platform type (.scalar part) wanted

variable (types : String → Option FieldType)

/-- Whether a field holds nothing: null, or the empty text. -/
def isEmpty (value : Scalar) : Bool := value = .undefined || value = .null || value = .string ""

/-- Whether a text is found in another by a test on their characters. -/
def onTexts (test : List Char → List Char → Bool) (value : Scalar) (wanted : Value) : Bool :=
  match value, wanted with
  | .string value, .scalar (.string wanted) => test wanted.toList value.toList
  | _, _ => false

/-- `Rows.leaf` of a comparison. -/
def compareLeaf (op field : String) (wanted : Value) (row : Row) : Bool :=
  let value := row.value field
  let type := (types field).getD .string
  if op = "in" then
    match wanted with
    | .array list => list.any fun one => anyPartSame platform type field value one
    | _ => false
  else if op = "eq" then
    anyPartSame platform type field value wanted
  else if op = "ne" then
    !anyPartSame platform type field value wanted
  else if op = "contains" then
    onTexts (fun wanted value => wanted <:+: value) value wanted
  else if op = "startsWith" then
    onTexts (fun wanted value => wanted <+: value) value wanted
  else if op = "lt" then
    before platform type (.scalar value) wanted
  else if op = "le" then
    before platform type (.scalar value) wanted || same platform type (.scalar value) wanted
  else if op = "gt" then
    before platform type wanted (.scalar value)
  else if op = "ge" then
    before platform type wanted (.scalar value) || same platform type (.scalar value) wanted
  else
    false

mutual

/-- `Rows.matches`. -/
def matchesNode (row : Row) : Node → Bool
  | .absent => true
  | .and args => matchesEvery row args
  | .or args => matchesSome row args
  | .not arg => !matchesNode row arg
  | .isNull field => isEmpty (row.value field)
  | .leaf op field value => compareLeaf platform types op field value row

def matchesEvery (row : Row) : List Node → Bool
  | [] => true
  | arg :: rest => matchesNode row arg && matchesEvery row rest

def matchesSome (row : Row) : List Node → Bool
  | [] => false
  | arg :: rest => matchesNode row arg || matchesSome row rest

end

end

/-! ## Ordering -/

/-- `value == null`. -/
def Scalar.isAbsent : Scalar → Bool
  | .undefined => true
  | .null => true
  | _ => false

section

variable (platform : Platform)

/-- `Number(value)`. -/
def toNumber : Scalar → Number
  | .undefined => .nan
  | .null => Number.ofInt 0
  | .boolean true => Number.ofInt 1
  | .boolean false => Number.ofInt 0
  | .number value => value
  | .string text => platform.parseNumber text

/-- The sign of a difference; not a number has none. -/
def signOf (difference : Number) : Int :=
  if Number.less difference (Number.ofInt 0) then -1
  else if Number.less (Number.ofInt 0) difference then 1
  else 0

/-- `as < bs ? -1 : (as > bs ? 1 : 0)`, by code units. -/
def compareTexts (left right : String) : Int :=
  if Json.codeUnits left < Json.codeUnits right then -1
  else if Json.codeUnits right < Json.codeUnits left then 1
  else 0

variable (types : String → Option FieldType)

/-- `Rows.compare`. -/
def compare (field : String) (left right : Scalar) : Int :=
  if left.isAbsent && right.isAbsent then 0
  else if left.isAbsent then -1
  else if right.isAbsent then 1
  else
    match types field with
    | some .timestamp =>
      let left := (stamp platform (.scalar left)).getD (Number.ofInt 0)
      let right := (stamp platform (.scalar right)).getD (Number.ofInt 0)
      signOf (Number.sub left right)
    | some .number => signOf (Number.sub (toNumber platform left) (toNumber platform right))
    | _ => compareTexts (scalarText platform left) (scalarText platform right)

/-- `Rows.order`. -/
def order (orderBy : List OrderKey) (first second : Row) : Int :=
  match orderBy with
  | [] => 0
  | key :: rest =>
    let direction := if key.dir = "desc" then -1 else 1
    let difference :=
      compare platform types key.field (first.value key.field) (second.value key.field)
    if difference ≠ 0 then difference * direction else order rest first second

end

/-! ## Keeping -/

/-- `value == null ? null : value`. -/
def nullable (value : Scalar) : Scalar := if value.isAbsent then .null else value

/-- A row of some fields of another; `Rows.project`, of the selected ones. -/
def project (ids : List String) (row : Row) : Row := ids.map fun id => (id, nullable (row.value id))

/-- A group of rows: its fields, and how many rows it has. -/
structure Group where
  row : Row
  count : Nat

/-- What is kept while a source is paged. -/
structure Rows where
  kept : Array Row
  /-- The groups by their keys, in order. -/
  groups : List (List Char × Group)
  stopped : Bool

/-- `new Rows(plan, types)`. -/
def Rows.empty : Rows := ⟨#[], [], false⟩

section

variable (platform : Platform)

/-- What `JSON.stringify` writes of an element. -/
def scalarContent : Scalar → Content
  | .undefined => .null
  | .null => .null
  | .boolean value => .boolean value
  | .number (.finite negative magnitude) =>
    .number
      { text := platform.numberText (.finite negative magnitude)
        nonempty := (platform.isNumeral negative magnitude).1
        numeric := (platform.isNumeral negative magnitude).2 }
  | .number _ => .null
  | .string text => .string text

/-- The key of a group, `JSON.stringify(keyParts)`. -/
def groupKey (row : Row) : List Char :=
  (Content.array (row.map fun one => scalarContent platform one.2)).render

/-- One row more in the group of a key. -/
def countAt (key : List Char) (row : Row) : List (List Char × Group) → List (List Char × Group)
  | [] => [(key, ⟨row, 1⟩)]
  | (other, held) :: rest =>
    if other = key then
      (other, { held with count := held.count + 1 }) :: rest
    else
      (other, held) :: countAt key row rest

variable (types : String → Option FieldType)
variable (plan : Plan)

/-- `Rows.count`. -/
def Rows.count (rows : Rows) (row : Row) : Rows :=
  let projected := project plan.groupBy row
  { rows with groups := countAt (groupKey platform projected) projected rows.groups }

/-- `Rows.heap`. -/
def Rows.heap (rows : Rows) (row : Row) : Rows :=
  { rows with
    kept := BoundedHeap.offer (order platform types plan.orderBy) plan.limit rows.kept row }

/-- `Rows.take`; false where the caller can stop paging. -/
def Rows.take (rows : Rows) (row : Row) : Rows × Bool :=
  if rows.stopped then
    (rows, false)
  else if !matchesNode platform types row plan.filter then
    (rows, true)
  else if plan.counted then
    (rows.count platform plan row, true)
  else if plan.orderBy = [] then
    let kept := rows.kept.push (project plan.select row)
    let stopped := decide (plan.limit ≤ kept.size)
    ({ rows with kept, stopped }, !stopped)
  else
    (rows.heap platform types plan (project plan.select row), true)

/-- The fields that are shown of a row or a group. -/
def Plan.shown : List String :=
  if plan.counted then (if plan.select = [] then plan.groupBy else plan.select) else plan.select

/-- `out.count = count`. -/
def setCount (count : Nat) (out : Row) : Row :=
  let value := Scalar.number (Number.ofInt count)
  if out.any fun one => one.1 = "count" then
    out.map fun one => if one.1 = "count" then ("count", value) else one
  else
    out ++ [("count", value)]

/-- The row of a group that is shown. -/
def showGroup (group : Group) : Row := setCount group.count (project plan.shown group.row)

/-- `Rows.finishCount`. -/
def Rows.finishCount (rows : Rows) : List Row :=
  let shown := rows.groups.map fun one => showGroup plan one.2
  let all := if rows.groups = [] ∧ plan.groupBy = [] then [setCount 0 []] else shown
  (Selection.sort (order platform types plan.orderBy) all).take plan.limit

/-- `Rows.finish`. -/
def Rows.finish (rows : Rows) : List Row :=
  if plan.counted then
    rows.finishCount platform types plan
  else if plan.orderBy ≠ [] then
    Selection.sort (order platform types plan.orderBy) rows.kept.toList
  else
    rows.kept.toList.take plan.limit

/-- The rows after some were offered, one after the other. -/
def Rows.offer (rows : Rows) (offered : List Row) : Rows :=
  offered.foldl (fun rows row => (rows.take platform types plan row).1) rows

end

end IyaSts.Report
