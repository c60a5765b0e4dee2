import IyaSts.Json

namespace IyaSts.GnapAccess

open Json

/-!
# The access rights of `gnap_access.ts`

An access array lists reference strings and rights.  `accessCovers` expands a
required right into its points, one value of each listed dimension, and asks of
each point whether some granted right allows it.  A right that is not of the
shape expected can make the code throw; `none` stands for that.
-/

/-- `ARRAY_DIMENSIONS`. -/
def arrayDimensions : List String := ["actions", "locations", "datatypes", "privileges"]

/-- `MAX_POINTS`. -/
def maxPoints : Nat := 1024

/-- Whether a value is an object. -/
def isObject : Json → Bool
  | .object _ _ => true
  | _ => false

/-- `canonicalJson`. -/
def canonicalJson (value : Json) : String := canonical value

/-- The rights whose canonical form was not seen yet. -/
def dedupeFrom (seen : List String) : List Json → List Json
  | [] => []
  | right :: rest =>
    if canonicalJson right ∈ seen then
      dedupeFrom seen rest
    else
      right :: dedupeFrom (canonicalJson right :: seen) rest

/-- The first right of each canonical form. -/
def dedupe (access : List Json) : List Json := dedupeFrom [] access

/-- Whether two objects hold strictly equal values under a name. -/
def sameMember (first second : Members) (name : String) : Bool :=
  match first.lookup name, second.lookup name with
  | some value, some value' => strictEqual value value'
  | none, none => true
  | _, _ => false

/-- One member of a point, against the granted object. -/
def coversMember (granted : Members) (key : String) (value : Json) : Option Bool :=
  if key = "type" then
    some true
  else
    match JsObject.read granted key with
    | .absent => some true
    -- What every object inherits is no JSON value, and equals none.
    | .inherited => some false
    | .own held =>
      if key ∈ arrayDimensions then
        match held, value with
        | .array _ allowed, .array _ values => some (values.all (includes allowed))
        | .array _ _, _ => none
        | _, _ => some false
      else if key = "identifier" then
        some (strictEqual held value)
      else
        some (canonicalJson held == canonicalJson value)

/-- Whether one granted object covers one point, or one whole right. -/
def objectCoversPoint (grantedObject : Json) (point : Members) : Option Bool :=
  match grantedObject with
  | .object _ granted =>
    if sameMember granted point "type" then
      point.allM fun member => coversMember granted member.1 member.2
    else
      some false
  | _ => some false

/-- One dimension's turn of the loop of `pointsOf`. -/
def expand (required : Members) (points : List Members) (dim : String) : Option (List Members) :=
  match required.lookup dim with
  | some (.array _ (first :: rest)) =>
    if points.length * (first :: rest).length > maxPoints then
      none
    else
      some (points.flatMap fun point =>
        (first :: rest).map fun value => point ++ [(dim, .array 0 [value])])
  | _ => some points

/-- A member `pointsOf` carries to every point. -/
def isCarried (member : String × Json) : Bool :=
  -- Assigning to `__proto__` sets a prototype and makes no member.
  member.1 ≠ "__proto__" ∧ member.1 ∉ arrayDimensions

/-- Every combination of one value a listed dimension; `none` past the cap. -/
def pointsOf (required : Members) : Option (List Members) :=
  arrayDimensions.foldlM (expand required) [(entries required).filter isCarried]

/-- Whether a value is the empty array. -/
def isEmptyArray : Json → Bool
  | .array _ [] => true
  | _ => false

/-- A member the whole right is asked with, past the cap. -/
def isAsked (member : String × Json) : Bool :=
  member.1 ≠ "__proto__" ∧ ¬ (member.1 ∈ arrayDimensions ∧ isEmptyArray member.2)

/-- The whole of a right, past the cap: without its empty dimensions. -/
def wholeOf (required : Members) : Members := (entries required).filter isAsked

/-- Whether a right has a type: a string, and not the empty one. -/
def hasType (members : Members) : Bool :=
  match members.lookup "type" with
  | some (.string text) => text ≠ ""
  | _ => false

/-- One required element, against the granted rights. -/
def coversNeed (granted : List Json) (need : Json) : Option Bool :=
  match need with
  | .string _ => some (includes granted need)
  | .object _ required =>
    if hasType required then
      let covered := fun point =>
        (granted.filter isObject).anyM fun right => objectCoversPoint right point
      match pointsOf required with
      | none => covered (wholeOf required)
      | some points => points.allM covered
    else
      some false
  | _ => some false

/-- Whether the union of `granted` covers every element of `required`. -/
def accessCovers (granted required : Json) : Option Bool :=
  match required with
  | .null => some true
  | .array _ [] => some true
  | .array _ needs =>
    match granted with
    | .array _ rights => needs.allM (coversNeed rights)
    | _ => some false
  | _ => some false

/-- The elements of `requested` that `granted` covers, each kept whole. -/
def covered (granted : Json) : List Json → Option (List Json)
  | [] => some []
  | one :: rest => do
    let keep ← accessCovers granted (.array 0 [one])
    let others ← covered granted rest
    pure (if keep then one :: others else others)

/-- What an authorization server narrows a request with. -/
def intersect (granted : Json) (requested : List Json) : Option (List Json) :=
  (covered granted requested).map dedupe

/-! ## What narrowing is for -/

/-- A right whose listed dimensions are arrays, as every checked right is. -/
def IsRight : Json → Prop
  | .object _ members =>
    ∀ dim ∈ arrayDimensions, ∀ value,
      members.lookup dim = some value →
      ∃ identity values, value = .array identity values
  | _ => True

/-- An access array of such rights. -/
def IsAccess : Json → Prop
  | .array _ needs => ∀ need ∈ needs, IsRight need
  | _ => True

/--
What is narrowed out of a grant covers nothing the grant does not: whatever it
covers the grant covers, or throws on where a listed dimension is no array.
-/
def Narrows (granted : Json) (requested : List Json) : Prop :=
  ∀ narrowed required,
    intersect granted requested = some narrowed →
    accessCovers (.array 0 narrowed) required = some true →
    accessCovers granted required ≠ some false ∧
      (IsAccess required → accessCovers granted required = some true)

end IyaSts.GnapAccess
