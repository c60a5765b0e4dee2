import IyaSts.DistinguishedName
import IyaSts.JsObject
import IyaSts.TextLines

namespace IyaSts.Tiers

/-!
# A group in two tiers

`persistence/tiers.js`: where a distinguished name sits, and a group's attributes
split into the half that holds no person and the half that holds only people.
An attribute holds one value or an array of them.
-/

/-- The lower case of a text of ASCII. -/
def asciiLower (text : String) : String := String.ofList (text.toList.map Char.toLower)

section

-- `String.prototype.toLowerCase`, of any version of Unicode.
variable (toLowerCase : String → String)

/-! ## Where a name sits -/

/-- `rdnsOf`. -/
def rdnsOf (dnKey : String) : List (List Char) :=
  (((toLowerCase dnKey).toList.splitOn ',').map TextLines.trim).filter (· ≠ [])

/-- What `placeOf` answers. -/
inductive Place where
  | inside
  | container
  | elsewhere
  deriving DecidableEq

/-- `one.indexOf('dc=') === 0`. -/
def isDomainComponent (rdn : List Char) : Bool := "dc=".toList.isPrefixOf rdn

/-- `placeOf`: the last name before the trailing `dc=` ones is the container. -/
def placeOf (dnKey container : String) : Place :=
  match (rdnsOf toLowerCase dnKey).reverse.dropWhile isDomainComponent with
  | [] => .elsewhere
  | last :: above =>
    if last ≠ container.toList then
      .elsewhere
    else if above.isEmpty then
      .container
    else
      .inside

def residentContainers : List String := ["ou=users"]

def memberAttributes : List String := ["member", "uniquemember", "memberuid"]

def nameMemberAttributes : List String := ["memberuid"]

/-- `isPersonDn`. -/
def isPersonDn (dnKey : String) : Bool :=
  residentContainers.any fun container => placeOf toLowerCase dnKey container = .inside

/-! ## Splitting and joining -/

/-- What an attribute holds. -/
inductive Held where
  | one (value : String)
  | many (values : List String)
  deriving DecidableEq

/-- `Array.isArray(held) ? held : [held]`. -/
def Held.values : Held → List String
  | .one value => [value]
  | .many values => values

/-- The attributes of an entry, in the order of their keys. -/
abbrev Attributes := List (String × Held)

/-- A group, split. -/
structure Halves where
  globalHalf : Attributes
  cellHalf : Attributes
  deriving DecidableEq

/-- An attribute that holds members. -/
def IsMember (name : String) : Prop := toLowerCase name ∈ memberAttributes

instance (name : String) : Decidable (IsMember toLowerCase name) :=
  inferInstanceAs (Decidable (_ ∈ _))

/-- A member that is a person: every value of an attribute of names is. -/
def isPerson (name value : String) : Bool :=
  toLowerCase name ∈ nameMemberAttributes || isPersonDn toLowerCase value

/-- The people among an attribute's values. -/
def peopleOf (entry : String × Held) : List String :=
  entry.2.values.filter (isPerson toLowerCase entry.1 ·)

/-- The others. -/
def othersOf (entry : String × Held) : List String :=
  entry.2.values.filter fun value => !isPerson toLowerCase entry.1 value

/-- One attribute of `splitGroup`. -/
def splitOne (halves : Halves) (entry : String × Held) : Halves :=
  if ¬ IsMember toLowerCase entry.1 then
    { halves with
      globalHalf := JsObject.assign halves.globalHalf entry.1 entry.2 }
  else
    let people := peopleOf toLowerCase entry
    let others := othersOf toLowerCase entry
    { globalHalf :=
        if others ≠ [] ∨ people = [] then
          JsObject.assign halves.globalHalf entry.1 (.many others)
        else
          halves.globalHalf
      cellHalf :=
        if people ≠ [] then
          JsObject.assign halves.cellHalf entry.1 (.many people)
        else
          halves.cellHalf }

/-- `splitGroup`. -/
def splitGroup (attrs : Attributes) : Halves :=
  attrs.foldl (splitOne toLowerCase) { globalHalf := [], cellHalf := [] }

/-- The key of the same attribute, whatever its case. -/
def existingKey (out : Attributes) (name : String) : String :=
  match out.find? fun entry => toLowerCase entry.1 = toLowerCase name with
  | some entry => if entry.1 = "" then name else entry.1
  | none => name

/--
The values that are not seen yet.  What is seen are an object's properties, so
that a name every object inherits always is.
-/
def unseen : List String → List String → List String
  | _, [] => []
  | seen, value :: rest =>
    let key := toLowerCase value
    if JsObject.Inherited key ∨ key ∈ seen then
      unseen seen rest
    else
      value :: unseen (key :: seen) rest

/-- `out[key]` as an array of values. -/
def valuesAt (out : Attributes) (key : String) : List String :=
  match out.lookup key with
  | some held => held.values
  | none => []

/-- One attribute of `joinGroup`. -/
def joinOne (out : Attributes) (entry : String × Held) : Attributes :=
  if ¬ IsMember toLowerCase entry.1 then
    out
  else
    let existing := existingKey toLowerCase out entry.1
    let have_ := valuesAt out existing
    let add := unseen toLowerCase (have_.map toLowerCase) entry.2.values
    JsObject.assign out existing (.many (have_ ++ add))

/-- `joinGroup`. -/
def joinGroup (globalAttrs cellAttrs : Attributes) : Attributes :=
  cellAttrs.foldl (joinOne toLowerCase)
    (globalAttrs.foldl (fun out entry => JsObject.assign out entry.1 entry.2) [])

end

end IyaSts.Tiers
