import IyaSts.GnapAccess
import Mathlib.Data.List.Nodup

namespace IyaSts.GnapAccess

open Json

/-!
# The token model and its four checks, `gnap_access.ts`

What a token model must be before a format writes it and after a format reads
it, and what every format asks of a presentation: time, audience, key binding
and access.
-/

/-- A refusal: `{ ok: false, errorCode, why }`. -/
structure Refusal where
  errorCode : String
  why : String
  deriving DecidableEq

/-- Whether a character is a control character, `CONTROL_RE`. -/
def isControl (char : Char) : Bool := char.toNat ≤ 0x1f ∨ char.toNat = 0x7f

/-- A character of base64url. -/
def isBase64url (char : Char) : Bool := char.isAlphanum ∨ char = '_' ∨ char = '-'

/-- Whether a text is a base64url SHA-256 digest, `THUMBPRINT_RE`. -/
def isThumbprint (text : String) : Bool := text.toList.length = 43 ∧ text.toList.all isBase64url

/-- `plainString`. -/
def plainString (text : String) : Bool := text ≠ "" ∧ ¬ text.toList.any isControl

/-- `isInteger`, of a number that is none below zero. -/
def isInteger (value : Nat) : Bool := value < 2 ^ 53

/-- `TOKEN_FLAGS`. -/
def tokenFlags : List String := ["bearer", "durable"]

/-- `MAX_ACTOR_CHAIN`. -/
def maxActorChain : Nat := 16

/-! ## Access rights -/

/-- Whether every element is a string, `isStringArray`. -/
def isStringArray : Json → Bool
  | .array _ elements =>
    elements.all fun element =>
      match element with
      | .string _ => true
      | _ => false
  | _ => false

/-- The refusal of a right's member that is malformed. -/
def malformedMember (name kind : String) (index : Nat) : Refusal where
  errorCode := "STS-GNAP-0302"
  why := "\"" ++ name ++ "\" in access element " ++ toString index ++
    " must be " ++ kind ++ " (RFC 9635 section 8)."

/-- The members of a right that are to be arrays of strings. -/
def checkDimensions (right : Members) (index : Nat) :
    List String → Except Refusal Unit
  | [] => .ok ()
  | dim :: rest =>
    match right.lookup dim with
    | some value =>
      if isStringArray value then
        checkDimensions right index rest
      else
        .error (malformedMember dim "an array of strings" index)
    | none => checkDimensions right index rest

/-- One element of an access array. -/
def checkRight (index : Nat) : Json → Except Refusal Unit
  | .string text =>
    if text = "" then
      .error ⟨"STS-GNAP-0301", "access element " ++ toString index ++
        " is an empty reference string (RFC 9635 section 8.1)."⟩
    else
      .ok ()
  | .object _ right =>
    if hasType right then do
      checkDimensions right index arrayDimensions
      match right.lookup "identifier" with
      | some (.string _) => .ok ()
      | none => .ok ()
      | some _ => .error (malformedMember "identifier" "a string" index)
    else
      .error ⟨"STS-GNAP-0301", untyped⟩
  | _ => .error ⟨"STS-GNAP-0301", untyped⟩
where
  untyped :=
    "access element " ++ toString index ++ " must be a reference string " ++
      "or an object with a non-empty string \"type\" (RFC 9635 section 8)."

/-- Every element of an access array, from an index on. -/
def checkRights (index : Nat) : List Json → Except Refusal Unit
  | [] => .ok ()
  | right :: rest => do
    checkRight index right
    checkRights (index + 1) rest

/-- `normalise`: the array without its repetitions, or a refusal. -/
def normalise : Json → Except Refusal (List Json)
  | .array _ (first :: rest) => do
    checkRights 0 (first :: rest)
    pure (dedupe (first :: rest))
  | _ =>
    .error ⟨"STS-GNAP-0300", "access must be a non-empty array of access " ++
      "rights (RFC 9635 section 8)."⟩

/-! ## The key a token is bound to -/

/-- A confirmation: the one member it has. -/
inductive Cnf where
  | jkt (thumbprint : String)
  | x5t (thumbprint : String)
  | kid (reference : String)
  deriving DecidableEq

/-- The name of the member. -/
def Cnf.member : Cnf → String
  | .jkt _ => "jkt"
  | .x5t _ => "x5t#S256"
  | .kid _ => "kid"

/-- The value of the member. -/
def Cnf.value : Cnf → String
  | .jkt thumbprint => thumbprint
  | .x5t thumbprint => thumbprint
  | .kid reference => reference

/-- `cnfToString`, of a token that is bound. -/
def cnfToString : Cnf → String
  | .jkt thumbprint => "jkt:" ++ thumbprint
  | .x5t thumbprint => "x5t:" ++ thumbprint
  | .kid reference => "kid:" ++ reference

/-- A character no `.` of a regular expression matches. -/
def isLineTerminator (char : Char) : Bool :=
  char = '\n' ∨ char = '\r' ∨ char.toNat = 0x2028 ∨ char.toNat = 0x2029

/-- `cnfFromString`. -/
def cnfFromString (text : String) : Option Cnf :=
  match text.toList with
  | 'j' :: 'k' :: 't' :: ':' :: rest => thumbprint .jkt rest
  | 'x' :: '5' :: 't' :: ':' :: rest => thumbprint .x5t rest
  | 'k' :: 'i' :: 'd' :: ':' :: rest =>
    if rest ≠ [] ∧ ¬ rest.any isLineTerminator ∧ ¬ rest.any isControl then
      some (.kid (String.ofList rest))
    else
      none
  | _ => none
where
  thumbprint (make : String → Cnf) (rest : List Char) : Option Cnf :=
    if isThumbprint (String.ofList rest) then
      some (make (String.ofList rest))
    else
      none

/-! ## The actor chain -/

/-- One actor of a chain. -/
structure ActorEntry where
  sub : String
  iss : Option String
  deriving DecidableEq

/-- A member of an actor: a plain string. -/
def plainMember : Json → Option String
  | .string text => if plainString text then some text else none
  | _ => none

/-- The actors of one level and of those below it, at most so many. -/
def actorChainFrom : Nat → Json → Option (List ActorEntry)
  | _, .null => some []
  | remaining + 1, .object _ level =>
    if (keys level).all fun key => key ∈ ["sub", "iss", "act"] then do
      let sub ← plainMember ((level.lookup "sub").getD .null)
      let iss ← match level.lookup "iss" with
        | none => some none
        | some value => (plainMember value).map some
      let below ← actorChainFrom remaining ((level.lookup "act").getD .null)
      pure (⟨sub, iss⟩ :: below)
    else
      none
  | _, _ => none

/-- `actorChain`; null and undefined are the empty chain. -/
def actorChain (act : Option Json) : Option (List ActorEntry) :=
  actorChainFrom maxActorChain (act.getD .null)

/-- `nestActors`; `none` is null. -/
def nestActors : List ActorEntry → Option Json
  | [] => none
  | actor :: rest =>
    some (.object 0
      ([("sub", .string actor.sub)] ++
        (actor.iss.map fun iss => ("iss", .string iss)).toList ++
        ((nestActors rest).map fun act => ("act", act)).toList))

/-! ## The model -/

/-- A token model; `none` is null. -/
structure TokenModel where
  jti : String
  iss : String
  sub : Option String
  aud : List String
  instanceId : String
  access : List Json
  flags : List String
  cnf : Option Cnf
  iat : Nat
  nbf : Option Nat
  exp : Nat
  label : Option String
  act : Option Json
  grant : Option String

/-- The refusal of a model. -/
def bad (why : String) : Refusal where
  errorCode := "STS-GNAP-0303"
  why := "the token model is not valid: " ++ why ++ " (RFC 9767 section 2.1)."

/-- The refusal of a model that fails a check. -/
def ensure (holds : Bool) (why : String) : Except Refusal Unit :=
  if holds then .ok () else .error (bad why)

/-- Whether a confirmation's value is one. -/
def isConfirmation : Cnf → Bool
  | .kid reference => plainString reference
  | cnf => isThumbprint cnf.value

/-- What is said of a confirmation's value that is none. -/
def notConfirmation (cnf : Cnf) : String :=
  "\"cnf." ++ cnf.member ++ "\" is not a valid " ++
    match cnf with
    | .kid _ => "key reference"
    | _ => "SHA-256 thumbprint"

/-- `validateModel`; `isUrl` is whether `new URL` takes a text. -/
def validateModel (isUrl : String → Bool) (model : TokenModel) :
    Except Refusal TokenModel := do
  ensure (plainString model.jti) "\"jti\" must be a non-empty string"
  ensure (model.iss ≠ "" ∧ isUrl model.iss ∧ ¬ model.iss.toList.any isControl)
    "\"iss\" must be an absolute URI"
  ensure (model.sub.all plainString) "\"sub\" must be a non-empty string or null"
  ensure (model.aud.all plainString) "\"aud\" must be an array of non-empty strings"
  ensure model.aud.Nodup "\"aud\" must not repeat an entry"
  ensure (plainString model.instanceId) "\"instanceId\" must be a non-empty string"
  let access ← normalise (.array 0 model.access)
  ensure (model.flags.all (· ∈ tokenFlags) ∧ model.flags.Nodup)
    ("\"flags\" must be an array of distinct known flags (" ++ ", ".intercalate tokenFlags ++ ")")
  match model.cnf with
  | none => .ok ()
  | some cnf => ensure (isConfirmation cnf) (notConfirmation cnf)
  ensure (model.cnf.isNone = ("bearer" ∈ model.flags))
    ("the \"bearer\" flag and \"cnf\" disagree — a bearer token has no cnf " ++
      "and a bound token has no bearer flag")
  ensure (isInteger model.iat ∧ isInteger model.exp)
    "\"iat\" and \"exp\" must be non-negative integer seconds"
  ensure (model.nbf.all isInteger) "\"nbf\" must be integer seconds or null"
  ensure (model.iat < model.exp) "\"exp\" must be later than \"iat\""
  ensure (model.nbf.all fun nbf => nbf < model.exp) "\"nbf\" must be earlier than \"exp\""
  ensure (model.exp ≤ 253402300799) "\"exp\" is past the year 9999"
  ensure (model.label.all plainString) "\"label\" must be a non-empty string or null"
  let actors ← match actorChain model.act with
    | some actors => .ok actors
    | none => .error (bad ("\"act\" must be null or a chain of \x7b sub, " ++
        "iss?, act? \x7d at most " ++ toString maxActorChain ++
        " deep, each sub (and iss) a non-empty string"))
  ensure
    (model.grant.all fun grant => plainString grant ∧ (codeUnits grant).length ≤ 256)
    ("\"grant\" must be a non-empty string of at most 256 characters, or " ++ "null")
  pure { model with access := access, act := nestActors actors }

/-! ## The checks of a presentation -/

/-- What a token is presented with; `none` is null or undefined. -/
structure Context where
  /-- The time, where a whole one is given. -/
  now : Option Int
  audience : Option String
  presentedKey : Json
  requiredAccess : Json

/-- An expiry; `none` is Infinity. -/
abbrev Expiry := Option Nat

/-- A number as it is written in a refusal. -/
def expiryText : Expiry → String
  | some exp => toString exp
  | none => "Infinity"

/-- `checkTime`; satisfied where it answers none. -/
def checkTime (exp : Expiry) (nbf : Option Nat) (now : Int) : Option Refusal :=
  if exp.any fun exp => (exp : Int) ≤ now then
    some ⟨"STS-GNAP-0304", "the access token expired at " ++ expiryText exp ++
      " and it is now " ++ toString now ++ " (RFC 9767 section 2.1.7)."⟩
  else
    match nbf with
    | some nbf =>
      if now < nbf then
        some ⟨"STS-GNAP-0305", "the access token is not valid before " ++
          toString nbf ++ " and it is now " ++ toString now ++
          " (RFC 9767 section 2.1.7)."⟩
      else
        none
    | none => none

/-- `checkAudience`. -/
def checkAudience (audienceLists : List (List String))
    (audience : Option String) : Option Refusal :=
  match audience with
  | none => none
  | some audience =>
    if audienceLists.all fun list => list = [] ∨ audience ∈ list then
      none
    else
      some ⟨"STS-GNAP-0306", "the access token is not intended for \"" ++
        audience ++ "\" (RFC 9767 section 2.1.3)."⟩

/-- `checkBinding`. -/
def checkBinding (cnf : Option Cnf) (presentedKey : Json) : Option Refusal :=
  match cnf with
  | none => none
  | some cnf =>
    let refused : Refusal :=
      ⟨"STS-GNAP-0307", "the access token is bound to a key (" ++
        cnf.member ++ ") and was not presented with that key (RFC 9767 " ++
        "section 2.1.4, RFC 9635 section 7.2)."⟩
    match presentedKey with
    | .object _ members =>
      match members.lookup cnf.member with
      | some (.string value) => if value = cnf.value then none else some refused
      | _ => some refused
    | _ => some refused

/-- The refusal of a list that does not cover what is required. -/
def uncovered (index : Nat) : Refusal where
  errorCode := "STS-GNAP-0308"
  why := "the access token does not grant the access this request needs" ++
    (if 0 < index then " (an attenuation narrowed it)" else "") ++
    " (RFC 9635 section 8)."

/-- The access lists, from an index on; `none` where the code throws. -/
def checkAccessFrom (requiredAccess : Json) (index : Nat) :
    List (List Json) → Option (Option Refusal)
  | [] => some none
  | list :: rest =>
    match accessCovers (.array 0 list) requiredAccess with
    | none => none
    | some true => checkAccessFrom requiredAccess (index + 1) rest
    | some false => some (some (uncovered index))

/-- `checkAccess`. -/
def checkAccess (accessLists : List (List Json)) (requiredAccess : Json) :
    Option (Option Refusal) :=
  match requiredAccess with
  | .null => some none
  | _ => checkAccessFrom requiredAccess 0 accessLists

/-- A format's attenuations; `none` is undefined. -/
structure Lists where
  exp : Option Expiry
  nbf : Option (Option Nat)
  audience : Option (List (List String))
  access : Option (List (List Json))

/--
`checkPresentation`, at a clock; satisfied where it answers `some none`, and
`none` where the code throws.
-/
def checkPresentation (nowSec : Int) (model : TokenModel) (context : Context)
    (lists : Lists) : Option (Option Refusal) :=
  let now := context.now.getD nowSec
  let exp := lists.exp.getD (some model.exp)
  let nbf := lists.nbf.getD model.nbf
  match checkTime exp nbf now with
  | some refused => some (some refused)
  | none =>
    match checkAudience (lists.audience.getD [model.aud])
        context.audience with
    | some refused => some (some refused)
    | none =>
      match checkBinding model.cnf context.presentedKey with
      | some refused => some (some refused)
      | none => checkAccess (lists.access.getD [model.access]) context.requiredAccess

end IyaSts.GnapAccess
