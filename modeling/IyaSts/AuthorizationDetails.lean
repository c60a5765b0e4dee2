import IyaSts.JsonValue

namespace IyaSts.AuthorizationDetails

/-!
# Rich authorization requests

What a token request may narrow, and the Allow that is recorded against the
text of the details and spent once.  The digest and the check of a location
are parameters.
-/

open Json JsonValue

/-- `COMMON_ARRAYS`. -/
def commonArrays : List String := ["locations", "actions", "datatypes", "privileges"]

/-- `AUTHORIZATION_DETAILS_BUILT_IN`. -/
def builtInTypes : List String := ["openid_credential"]

/-! ## Details -/

/-- The texts of an array of strings. -/
def textsOf : JsonValue → Option (List String)
  | .array elements =>
    elements.mapM fun element =>
      match element with
      | .string text => some text
      | _ => none
  | _ => none

/--
A detail that `parse` accepted: an object with a type, whose common arrays are
arrays of strings.
-/
structure Detail where
  members : List (String × JsonValue)
  type : String
  isType : members.lookup "type" = some (.string type)
  typeSome : type ≠ ""
  areTexts :
    ∀ name ∈ commonArrays, ∀ value, members.lookup name = some value →
      ∃ texts, textsOf value = some texts ∧ texts ≠ [] ∧ "" ∉ texts

/-- A detail as a JSON value. -/
def Detail.value (detail : Detail) : JsonValue := .object detail.members

/-! ## One text for details that differ in the order of members -/

mutual

/-- `canonical`, where assigning `__proto__` adds no member. -/
def canonical : JsonValue → JsonValue
  | .array elements => .array (canonicalElements elements)
  | .object members =>
    .object ((sortByName (entries (canonicalMembers members))).filter
      fun member => member.1 ≠ "__proto__")
  | value => value

/-- The elements of an array, each in canonical form. -/
def canonicalElements : List JsonValue → List JsonValue
  | [] => []
  | element :: rest => canonical element :: canonicalElements rest

/-- The members of an object, each in canonical form. -/
def canonicalMembers : List (String × JsonValue) → List (String × JsonValue)
  | [] => []
  | (name, value) :: rest => (name, canonical value) :: canonicalMembers rest

end

/-- `JSON.stringify(this.canonical(value))`. -/
def canonicalText (value : JsonValue) : String := (canonical value).stringify

/--
`deepEqual(granted[key], value)`.  What is inherited is a function, which has no
text, but for the prototype itself, which is an object with nothing to list.
-/
def deepEqual (granted : JsObject.Property JsonValue) (key : String) (value : JsonValue) : Bool :=
  match granted with
  | .own held => canonicalText held = canonicalText value
  | .inherited => key = "__proto__" && canonicalText value = "\x7b\x7d"
  | .absent => false

/-! ## Narrowing -/

/-- One member of a request, against the granted detail. -/
def coversMember (granted : Detail) (key : String) (value : JsonValue) : Bool :=
  if key = "type" then
    true
  else if key ∈ commonArrays then
    match (granted.members.lookup key).bind textsOf, textsOf value with
    | some allowed, some asked => asked.all fun one => one ∈ allowed
    | _, _ => false
  else
    deepEqual (JsObject.read granted.members key) key value

/-- `covers`. -/
def covers (granted requested : Detail) : Bool :=
  granted.type = requested.type &&
    (entries requested.members).all fun (key, value) => coversMember granted key value

/-- The sentence for a detail that no granted one covers. -/
def notCovered (place : Nat) (one : Detail) (grant : List Detail) : String :=
  "authorization_details[" ++
    (toString place ++ "] (type \"" ++ one.type ++
      "\") is not covered by what this grant authorized — " ++
      (if grant = [] then
        "no authorization_details at all"
      else
        String.ofList (((JsonValue.array (grant.map Detail.value)).stringify).toList.take 400)) ++
      ". RFC 9396 section 6: a token request may ask for a subset of " ++
      "the authorized details and not for more.")

/-- `coveredProblem`, from one of the requested details on. -/
def coveredProblemFrom (place : Nat) (requested grant : List Detail) : String :=
  match requested with
  | [] => ""
  | one :: rest =>
    if grant.any fun granted => covers granted one then
      coveredProblemFrom (place + 1) rest grant
    else
      notCovered place one grant

/-- `coveredProblem`. -/
def coveredProblem (requested grant : List Detail) : String := coveredProblemFrom 0 requested grant

/-- What `narrow` puts on the token for one requested detail. -/
def narrowOne (grant : List Detail) (one : Detail) : Detail :=
  if one.type ∉ builtInTypes then
    one
  else
    ((grant.filter fun granted => covers granted one).head?).getD one

/-- `narrow`. -/
def narrow (requested grant : List Detail) : List Detail := requested.map (narrowOne grant)

/-! ## The Allow, once -/

/-- What an Allow is recorded with. -/
structure Held where
  expires : Int
  lowered : Option (List Detail)

/-- `consented`: what is recorded, by key. -/
abbrev Consented := List (String × Held)

section

variable (digest : String → String)

/-- `digestOf`. -/
def digestOf (details : List Detail) : String :=
  digest (canonicalText (.array (details.map Detail.value)))

/-- `consentKey`. -/
def consentKey (username clientId digested : String) : String :=
  username ++ " " ++ clientId ++ " " ++ digested

/-- `consentTtlMs`, of the seconds that are set. -/
def consentTtlMs (pendingTtlS : Int) : Int := (if pendingTtlS > 0 then pendingTtlS else 600) * 1000

/-- `noteConsented`. -/
def noteConsented (consented : Consented) (now pendingTtlS : Int)
    (username clientId digested : String) (lowered : Option (List Detail)) :
    Consented :=
  let key := consentKey username clientId digested
  let live := consented.filter fun entry => now ≤ entry.2.expires
  (live.filter fun entry => entry.1 ≠ key) ++
    [(key, { expires := now + consentTtlMs pendingTtlS, lowered })]

/-- `consumeConsent`: what was allowed, and what is recorded after it. -/
def consumeConsent (consented : Consented) (now : Int) (username clientId digested : String) :
    Option (Option (List Detail)) × Consented :=
  let key := consentKey username clientId digested
  match consented.lookup key with
  | none => (none, consented)
  | some held =>
    (if now ≤ held.expires then some held.lowered else none,
      consented.filter fun entry => entry.1 ≠ key)

end

end IyaSts.AuthorizationDetails
