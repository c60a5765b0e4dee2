import IyaSts.Fallible
import IyaSts.TextPattern

namespace IyaSts.LdapMatching

/-!
# A search filter matched by each attribute's own rule, `ldap_matching.ts`

An equality or substring assertion on an attribute whose rule ignores case is
compared with both sides lower-cased, a substring assertion by a regular
expression.  Every other assertion is left to the library.
-/

/-- The attribute type of a description: `name.split(';')[0]`. -/
def typeOf (name : String) : String := String.ofList (name.toList.takeWhile (· ≠ ';'))

/-- `String.prototype.toLowerCase`, of any version of Unicode. -/
structure Lowering where
  toLowerCase : String → String
  /-- A semicolon has no case and changes that of no letter. -/
  keepsType : ∀ name, typeOf (toLowerCase name) = toLowerCase (typeOf name)
  keepsEmpty : ∀ text, toLowerCase text = "" ↔ text = ""

/-- `CASE_IGNORE_ATTRIBUTES`. -/
def caseIgnoreAttributes : List String :=
  ["businesscategory", "c", "cn", "dc", "description", "destinationindicator", "dnqualifier",
    "generationqualifier", "givenname", "houseidentifier", "initials", "l", "name", "o", "ou",
    "physicaldeliveryofficename", "postalcode", "postofficebox", "serialnumber", "sn", "st",
    "street", "title", "uid", "commonname", "surname", "gn", "countryname", "localityname",
    "stateorprovincename", "streetaddress", "organizationname", "organizationalunitname",
    "domaincomponent", "userid", "mail", "rfc822mailbox", "associateddomain", "buildingname", "co",
    "friendlycountryname", "documentauthor", "documentidentifier", "documentlocation",
    "documentpublisher", "documenttitle", "documentversion", "drink", "favouritedrink", "host",
    "info", "organizationalstatus", "roomnumber", "uniqueidentifier", "carlicense",
    "departmentnumber", "displayname", "employeenumber", "employeetype", "preferredlanguage"]

/-- The pieces of a substring assertion; an absent one is empty. -/
structure Pieces where
  initial : String
  any : List String
  final : String
  deriving DecidableEq

/-- A parsed filter; `value` is none where it is no string. -/
inductive Filter where
  | and (clauses : List Filter)
  | or (clauses : List Filter)
  | not (filter : Filter)
  | equality (name : String) (value : Option String)
  | substring (name : String) (pieces : Pieces)
  | other (type : String)

/-- The attributes of an entry, each with its values. -/
abbrev Attributes := List (String × List String)

section

variable (lowering : Lowering)

/--
An entry as the search handler hands it.  The store keeps names lower-cased, so
that no two of them differ in letter case alone.
-/
structure Entry where
  attributes : Attributes
  distinct : (attributes.map fun one => lowering.toLowerCase one.1).Nodup

variable {lowering}

/-- `valuesOf`. -/
def valuesOf (entry : Entry lowering) (name : String) : List String :=
  match entry.attributes.lookup name with
  | some values => values
  | none =>
    let wanted := lowering.toLowerCase name
    match entry.attributes.find? fun one => lowering.toLowerCase one.1 = wanted with
    | some one => one.2
    | none => []

variable (lowering)

/-- A piece, lower-cased and escaped. -/
def escapedPiece (piece : String) : List Char :=
  TextPattern.escaped (lowering.toLowerCase piece).toList

/-- The source of `substringPattern`. -/
def substringSource (pieces : Pieces) : List Char :=
  (if pieces.initial = "" then [] else '^' :: escapedPiece lowering pieces.initial ++ ".*".toList) ++
    pieces.any.flatMap (fun one => escapedPiece lowering one ++ ".*".toList) ++
    (if pieces.final = "" then [] else escapedPiece lowering pieces.final ++ ['$'])

/-- `substringPattern`; the error of `RegExp` where the source is no pattern. -/
def substringPattern (pieces : Pieces) : Except String (List TextPattern.Part) :=
  match TextPattern.parse (substringSource lowering pieces) with
  | some parts => .ok parts
  | none => .error "SyntaxError"

/-- `ignoresCase`. -/
def ignoresCase (name : String) : Bool := lowering.toLowerCase (typeOf name) ∈ caseIgnoreAttributes

variable {lowering}

-- `filter.matches(entry, false)`, the library's own leaf.
variable (library : Filter → Entry lowering → Except String Bool)

mutual

/-- `LdapMatching.matches`. -/
def matchesFilter (entry : Entry lowering) : Filter → Except String Bool
  | .and clauses => matchesEvery entry clauses
  | .or clauses => matchesSome entry clauses
  | .not filter => do
    let isMatch ← matchesFilter entry filter
    return !isMatch
  | .equality name value =>
    match value with
    | none => library (.equality name value) entry
    | some value =>
      if ignoresCase lowering name then
        .ok ((valuesOf entry name).any fun one =>
          lowering.toLowerCase one = lowering.toLowerCase value)
      else
        library (.equality name (some value)) entry
  | .substring name pieces =>
    if ignoresCase lowering name then do
      let pattern ← substringPattern lowering pieces
      return (valuesOf entry name).any fun one =>
        TextPattern.test pattern (lowering.toLowerCase one).toList
    else
      library (.substring name pieces) entry
  | .other type => library (.other type) entry

/-- `clauses.every`. -/
def matchesEvery (entry : Entry lowering) : List Filter → Except String Bool
  | [] => .ok true
  | clause :: rest => do
    if ← matchesFilter entry clause then matchesEvery entry rest else return false

/-- `clauses.some`. -/
def matchesSome (entry : Entry lowering) : List Filter → Except String Bool
  | [] => .ok false
  | clause :: rest => do
    if ← matchesFilter entry clause then return true else matchesSome entry rest

end

end

end IyaSts.LdapMatching
