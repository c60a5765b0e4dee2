import Mathlib.Data.Rat.Defs

namespace IyaSts.Xacml

/-!
# The XACML model: decisions, identifiers, policy trees and requests

The vocabulary both decision points agree about.  The decision values, the
status codes and the identifiers are the ones of `xacml_model.js` (and of its
Rust port, `model.rs`); the policy tree is what the readers produce.

A policy tree is one type for both engines.  The JavaScript engine holds it as
plain objects with a `kind`, the Rust engine as the type of `policy.rs`; the
members neither evaluator nor the validator reads (descriptions, combiner
parameters, XPath versions) are left out.
-/

/-! ## Decisions -/

/-- The seven XACML 3.0 decision values. -/
inductive Decision where
  | permit
  | deny
  | notApplicable
  | indeterminate
  | indeterminateP
  | indeterminateD
  | indeterminateDP
  deriving DecidableEq

namespace Decision

/-- Any of the four Indeterminate values. -/
def isIndeterminate : Decision → Bool
  | .indeterminate => true
  | .indeterminateP => true
  | .indeterminateD => true
  | .indeterminateDP => true
  | _ => false

/-- Fold an extended Indeterminate down to what a Response carries. -/
def externalDecision : Decision → Decision
  | .indeterminateP => .indeterminate
  | .indeterminateD => .indeterminate
  | .indeterminateDP => .indeterminate
  | decision => decision

end Decision

/-- The two Rule effects. -/
inductive Effect where
  | permit
  | deny
  deriving DecidableEq

namespace Effect

/-- The decision a fired rule of this effect produces. -/
def decision : Effect → Decision
  | .permit => .permit
  | .deny => .deny

/-- The Indeterminate in the direction of a rule's own effect. -/
def indeterminateOfEffect : Effect → Decision
  | .permit => .indeterminateP
  | .deny => .indeterminateD

/-- An effect, in the specification's spelling. -/
def text : Effect → String
  | .permit => "Permit"
  | .deny => "Deny"

/-- Read an effect as an obligation's `FulfillOn` writes it. -/
def parse (written : String) : Option Effect :=
  if written = "Permit" then
    some .permit
  else if written = "Deny" then
    some .deny
  else
    none

end Effect

/-- What a target says.  Not a decision. -/
inductive MatchResult where
  | isMatch
  | noMatch
  | indeterminate
  deriving DecidableEq

/-- The XACML status codes. -/
inductive StatusCode where
  | ok
  | missingAttribute
  | syntaxError
  | processingError
  deriving DecidableEq

/-! ## Identifiers -/

namespace RuleAlg

def denyOverrides : String := "urn:oasis:names:tc:xacml:3.0:rule-combining-algorithm:deny-overrides"
def permitOverrides : String :=
  "urn:oasis:names:tc:xacml:3.0:rule-combining-algorithm:permit-overrides"
def orderedDenyOverrides : String :=
  "urn:oasis:names:tc:xacml:3.0:rule-combining-algorithm:ordered-deny-overrides"
def orderedPermitOverrides : String :=
  "urn:oasis:names:tc:xacml:3.0:rule-combining-algorithm:ordered-permit-overrides"
def denyUnlessPermit : String :=
  "urn:oasis:names:tc:xacml:3.0:rule-combining-algorithm:deny-unless-permit"
def permitUnlessDeny : String :=
  "urn:oasis:names:tc:xacml:3.0:rule-combining-algorithm:permit-unless-deny"
def firstApplicable : String :=
  "urn:oasis:names:tc:xacml:1.0:rule-combining-algorithm:first-applicable"
def legacyDenyOverrides : String :=
  "urn:oasis:names:tc:xacml:1.0:rule-combining-algorithm:deny-overrides"
def legacyPermitOverrides : String :=
  "urn:oasis:names:tc:xacml:1.0:rule-combining-algorithm:permit-overrides"
def legacyOrderedDenyOverrides : String :=
  "urn:oasis:names:tc:xacml:1.1:rule-combining-algorithm:ordered-deny-overrides"
def legacyOrderedPermitOverrides : String :=
  "urn:oasis:names:tc:xacml:1.1:rule-combining-algorithm:ordered-permit-overrides"

end RuleAlg

namespace PolicyAlg

def denyOverrides : String :=
  "urn:oasis:names:tc:xacml:3.0:policy-combining-algorithm:deny-overrides"
def permitOverrides : String :=
  "urn:oasis:names:tc:xacml:3.0:policy-combining-algorithm:permit-overrides"
def orderedDenyOverrides : String :=
  "urn:oasis:names:tc:xacml:3.0:policy-combining-algorithm:ordered-deny-overrides"
def orderedPermitOverrides : String :=
  "urn:oasis:names:tc:xacml:3.0:policy-combining-algorithm:ordered-permit-overrides"
def denyUnlessPermit : String :=
  "urn:oasis:names:tc:xacml:3.0:policy-combining-algorithm:deny-unless-permit"
def permitUnlessDeny : String :=
  "urn:oasis:names:tc:xacml:3.0:policy-combining-algorithm:permit-unless-deny"
def firstApplicable : String :=
  "urn:oasis:names:tc:xacml:1.0:policy-combining-algorithm:first-applicable"
def onlyOneApplicable : String :=
  "urn:oasis:names:tc:xacml:1.0:policy-combining-algorithm:only-one-applicable"
def legacyDenyOverrides : String :=
  "urn:oasis:names:tc:xacml:1.0:policy-combining-algorithm:deny-overrides"
def legacyPermitOverrides : String :=
  "urn:oasis:names:tc:xacml:1.0:policy-combining-algorithm:permit-overrides"
def legacyOrderedDenyOverrides : String :=
  "urn:oasis:names:tc:xacml:1.1:policy-combining-algorithm:ordered-deny-overrides"
def legacyOrderedPermitOverrides : String :=
  "urn:oasis:names:tc:xacml:1.1:policy-combining-algorithm:ordered-permit-overrides"

end PolicyAlg

namespace DataType

def boolean : String := "http://www.w3.org/2001/XMLSchema#boolean"
def integer : String := "http://www.w3.org/2001/XMLSchema#integer"
def time : String := "http://www.w3.org/2001/XMLSchema#time"
def date : String := "http://www.w3.org/2001/XMLSchema#date"
def dateTime : String := "http://www.w3.org/2001/XMLSchema#dateTime"
def dayTimeDuration : String := "http://www.w3.org/2001/XMLSchema#dayTimeDuration"
def yearMonthDuration : String := "http://www.w3.org/2001/XMLSchema#yearMonthDuration"
def legacyDayTimeDuration : String :=
  "http://www.w3.org/TR/2002/WD-xquery-operators-20020816#dayTimeDuration"
def legacyYearMonthDuration : String :=
  "http://www.w3.org/TR/2002/WD-xquery-operators-20020816#yearMonthDuration"

end DataType

/-- The environment category, the only one the clock answers for. -/
def Category.environment : String := "urn:oasis:names:tc:xacml:3.0:attribute-category:environment"

namespace AttributeId

def currentTime : String := "urn:oasis:names:tc:xacml:1.0:environment:current-time"
def currentDate : String := "urn:oasis:names:tc:xacml:1.0:environment:current-date"
def currentDateTime : String := "urn:oasis:names:tc:xacml:1.0:environment:current-dateTime"

end AttributeId

/-- A datatype identifier with the two legacy duration spellings accepted. -/
def canonicalType (uri : String) : String :=
  if uri = DataType.legacyDayTimeDuration then
    DataType.dayTimeDuration
  else if uri = DataType.legacyYearMonthDuration then
    DataType.yearMonthDuration
  else
    uri

/-! ## Values and bags -/

/-- Which of the three date and time grammars a value came from. -/
inductive TemporalShape where
  | date
  | time
  | dateTime
  deriving DecidableEq

/-- A date, a time or a dateTime, in its local components. -/
structure Temporal where
  shape : TemporalShape
  year : Int
  month : Int
  day : Int
  hour : Int
  minute : Int
  second : Rat
  tz : Option Int
  deriving DecidableEq

/--
A parsed value.  The shapes an evaluator itself looks into are spelt out; the
other datatypes' values are the payload of the datatype table.
-/
inductive Value (Payload : Type) where
  | boolean (truth : Bool)
  | integer (number : Int)
  | temporal (instant : Temporal)
  | other (payload : Payload)
  deriving DecidableEq

/-- A bag: every value of one datatype, duplicates kept. -/
structure Bag (Payload : Type) where
  type : String
  values : List (Value Payload)
  deriving DecidableEq

namespace Bag

/-- Build a bag, its datatype canonicalised. -/
def ofValues (type : String) (values : List (Value Payload)) : Bag Payload where
  type := canonicalType type
  values := values

/-- A bag of one value. -/
def singleton (type : String) (value : Value Payload) : Bag Payload := ofValues type [value]

/-- A bag of one boolean. -/
def ofBool (truth : Bool) : Bag Payload := singleton DataType.boolean (.boolean truth)

@[simp] theorem singleton_values (type : String) (value : Value Payload) :
    (singleton type value).values = [value] :=
  rfl

end Bag

/-! ## Policy trees -/

/-- An `<AttributeDesignator>`. -/
structure Designator where
  category : String
  attributeId : String
  dataType : String
  issuer : Option String
  mustBePresent : Bool
  deriving DecidableEq

/-- An `<AttributeValue>`: its declared datatype and its lexical form. -/
structure AttributeValue where
  type : String
  lexical : String
  deriving DecidableEq

/-- The six things that can appear where XACML expects an expression. -/
inductive Expression where
  | value (literal : AttributeValue)
  | designator (sought : Designator)
  | selector (dataType : String)
  | variableRef (variableId : String)
  | function (functionId : String)
  | apply (functionId : String) (args : List Expression)

/-- What a `<Match>` compares its literal with. -/
inductive MatchReference where
  | designator (sought : Designator)
  | selector (dataType : String)
  deriving DecidableEq

namespace MatchReference

/-- The reference as the expression it is evaluated as. -/
def expression : MatchReference → Expression
  | .designator sought => .designator sought
  | .selector dataType => .selector dataType

end MatchReference

/-- A `<Match>`: the readers accept a literal and a designator or selector only. -/
structure Match where
  matchId : String
  value : AttributeValue
  reference : MatchReference
  deriving DecidableEq

/--
An `<AllOf>`.  `slot` names the object itself: the JavaScript engine writes the
last error of an evaluation onto it, and a document reached twice is one object.
-/
structure AllOf where
  slot : Nat
  allMatches : List Match
  deriving DecidableEq

/-- An `<AnyOf>`. -/
structure AnyOf where
  allOf : List AllOf
  deriving DecidableEq

/-- A `<Target>`; an absent one matches everything. -/
structure Target where
  anyOf : List AnyOf
  deriving DecidableEq

/-- One assignment of an obligation or advice expression. -/
structure AssignmentExpression where
  attributeId : String
  category : Option String
  issuer : Option String
  expression : Expression

/-- An obligation or advice expression; `on` is held as written. -/
structure ExpressionHolder where
  id : String
  on : String
  assignments : List AssignmentExpression

/-- A `<Rule>`. -/
structure Rule where
  id : String
  effect : Effect
  target : Option Target
  condition : Option Expression
  obligations : List ExpressionHolder
  advice : List ExpressionHolder

/-- A `<Policy>`, its variable definitions in document order. -/
structure Policy where
  id : String
  version : String
  combiningAlgId : String
  target : Option Target
  definitions : List (String × Expression)
  rules : List Rule
  obligations : List ExpressionHolder
  advice : List ExpressionHolder

/-- A node of a policy tree: a document, or a reference to one. -/
inductive PolicyNode where
  | policy (policy : Policy)
  | policySet
      (id : String)
      (version : String)
      (combiningAlgId : String)
      (target : Option Target)
      (children : List PolicyNode)
      (obligations : List ExpressionHolder)
      (advice : List ExpressionHolder)
  | policyIdReference (ref : String)
  | policySetIdReference (ref : String)

/-- The documents a reference may name. -/
abbrev Repository := List (String × PolicyNode)

/-! ## Requests and responses -/

/-- A value as the request carried it. -/
structure RequestValue where
  type : String
  lexical : String
  deriving DecidableEq

structure RequestAttribute where
  attributeId : String
  issuer : Option String
  values : List RequestValue
  deriving DecidableEq

structure RequestCategory where
  category : String
  attributes : List RequestAttribute
  deriving DecidableEq

structure Request where
  returnPolicyIdList : Bool
  categories : List RequestCategory
  deriving DecidableEq

/-- One attribute of a fired obligation or advice, resolved. -/
structure ResolvedAssignment (Payload : Type) where
  attributeId : String
  category : Option String
  issuer : Option String
  type : String
  value : Value Payload
  lexical : String
  deriving DecidableEq

/-- An obligation or advice that fired. -/
structure ResolvedObligation (Payload : Type) where
  id : String
  assignments : List (ResolvedAssignment Payload)
  deriving DecidableEq

/-- A policy or policy set that turned out to be applicable. -/
structure PolicyIdentifier where
  isPolicySet : Bool
  id : String
  version : String
  deriving DecidableEq

/-- Why there is no decision, when there is none. -/
structure Status where
  code : Option StatusCode
  message : Option String
  deriving DecidableEq

/-- The decision point's answer. -/
structure Response (Payload : Type) where
  decision : Decision
  status : Status
  obligations : List (ResolvedObligation Payload)
  advice : List (ResolvedObligation Payload)
  policyIdentifiers : List PolicyIdentifier
  deriving DecidableEq

end IyaSts.Xacml
