import IyaSts.GnapModel

namespace IyaSts.TokenMacaroon

/-!
# The macaroon token format, `token_macaroon.ts`

A token model is written as a list of caveats that ends with the access; who
holds the token may append further caveats.  The reader takes the model from
the caveats up to the first access, and its limits from all of them.
-/

open Json GnapAccess

/-- What the platform's own library does, as far as the format calls it. -/
structure Platform where
  /-- `JSON.stringify`. -/
  stringify : Json → String
  /-- `JSON.parse`; `none` where it throws. -/
  parse : String → Option Json
  /-- `Buffer.from(text, 'utf8').toString('base64url')`. -/
  toBase64url : String → String
  /-- `Buffer.from(text, 'base64url')`, read back as base64url. -/
  roundTrip : String → String
  /-- `Buffer.from(text, 'base64url').toString('utf8')`. -/
  fromBase64url : String → String
  /-- Whether `new URL(text)` does not throw. -/
  isUrl : String → Bool

/-- `IDENTIFIER_PREFIX`. -/
def identifierLead : String := "gnap:v1:"

/-! ## The grammar of a caveat -/

/-- The kinds of caveat. -/
inductive Kind where
  | iss
  | iat
  | sub
  | client
  | bearer
  | cnf
  | flags
  | label
  | exp
  | nbf
  | aud
  | grant
  | act
  | access
  deriving DecidableEq

/-- The name of a kind. -/
def Kind.name : Kind → String
  | .iss => "iss"
  | .iat => "iat"
  | .sub => "sub"
  | .client => "client"
  | .bearer => "bearer"
  | .cnf => "cnf"
  | .flags => "flags"
  | .label => "label"
  | .exp => "exp"
  | .nbf => "nbf"
  | .aud => "aud"
  | .grant => "grant"
  | .act => "act"
  | .access => "access"

/-- `INTEGER`. -/
def isIntegerText : List Char → Bool
  | ['0'] => true
  | first :: rest => ('1' ≤ first ∧ first ≤ '9') ∧ rest.length ≤ 15 ∧ rest.all Char.isDigit
  | [] => false

/-- `STRING`. -/
def isStringText (text : List Char) : Bool := text ≠ [] ∧ ¬ text.any isControl

/-- `\s`. -/
def isSpace (char : Char) : Bool :=
  char.toNat ∈ [0x09, 0x0a, 0x0b, 0x0c, 0x0d, 0x20, 0xa0, 0x1680, 0x2028,
      0x2029, 0x202f, 0x205f, 0x3000, 0xfeff] ∨
    (0x2000 ≤ char.toNat ∧ char.toNat ≤ 0x200a)

/-- A list of words, one separator between each two. -/
def areWords (separator : Char) (isWordChar : Char → Bool) (text : List Char) : Bool :=
  (text.splitOn separator).all fun word => word ≠ [] ∧ word.all isWordChar

/-- Nonempty base64url. -/
def isValueText (text : List Char) : Bool := text ≠ [] ∧ text.all isBase64url

/-- One of the regular expressions of the grammar. -/
structure Pattern where
  kind : Kind
  /-- What a caveat starts with. -/
  lead : String
  /-- Whether what follows is of the grammar. -/
  accepts : List Char → Bool

/-- `CAVEATS`. -/
def patterns : List Pattern :=
  [⟨.iss, "gnap:iss=", isStringText⟩,
    ⟨.iat, "gnap:iat=", isIntegerText⟩,
    ⟨.sub, "gnap:sub=", isStringText⟩,
    ⟨.client, "gnap:client=", isStringText⟩,
    ⟨.bearer, "gnap:bearer", fun text => text = []⟩,
    ⟨.cnf, "gnap:cnf=", isStringText⟩,
    ⟨.flags, "gnap:flags=", areWords ',' fun char => 'a' ≤ char ∧ char ≤ 'z'⟩,
    ⟨.label, "gnap:label=", isStringText⟩,
    ⟨.exp, "gnap:exp<", isIntegerText⟩,
    ⟨.nbf, "gnap:nbf>=", isIntegerText⟩,
    ⟨.aud, "gnap:aud=", areWords ' ' fun char => ¬ isSpace char⟩,
    ⟨.grant, "gnap:grant=", isStringText⟩,
    ⟨.act, "gnap:act=", isValueText⟩,
    ⟨.access, "gnap:access=", isValueText⟩]

/-- `ATTENUATING`. -/
def attenuating : List Kind := [.exp, .nbf, .aud, .access]

/-- `REQUIRED_ONCE`. -/
def requiredOnce : List Kind := [.iss, .iat, .client, .exp]

/-- What a regular expression captures of a text. -/
def Pattern.exec (pattern : Pattern) (text : String) : Option (List Char) :=
  match text.toList.dropPrefix? pattern.lead.toList with
  | some rest => if pattern.accepts rest then some rest else none
  | none => none

/-- A caveat that was read: its kind and its value. -/
inductive Caveat where
  | iss (value : String)
  | iat (value : Nat)
  | sub (value : String)
  | client (value : String)
  | bearer
  | cnf (value : Cnf)
  | flags (value : List String)
  | label (value : String)
  | exp (value : Nat)
  | nbf (value : Nat)
  | aud (value : List String)
  | grant (value : String)
  | act (value : Option Json)
  | access (value : List Json)

/-- The kind of a caveat. -/
def Caveat.kind : Caveat → Kind
  | .iss _ => .iss
  | .iat _ => .iat
  | .sub _ => .sub
  | .client _ => .client
  | .bearer => .bearer
  | .cnf _ => .cnf
  | .flags _ => .flags
  | .label _ => .label
  | .exp _ => .exp
  | .nbf _ => .nbf
  | .aud _ => .aud
  | .grant _ => .grant
  | .act _ => .act
  | .access _ => .access

/-- The number a text of digits spells. -/
def numberOf (text : List Char) : Nat :=
  text.foldl (fun value char => value * 10 + (char.toNat - '0'.toNat)) 0

/-- The words of a text. -/
def wordsOf (separator : Char) (text : List Char) : List String :=
  (text.splitOn separator).map String.ofList

section

variable (platform : Platform)

/-- The JSON a caveat carries; null where it carries none. -/
def jsonOf (text : List Char) : Json :=
  let value := String.ofList text
  if platform.roundTrip value = value then
    (platform.parse (platform.fromBase64url value)).getD .null
  else
    .null

/-- The value of a caveat; `none` where it is malformed. -/
def valueOf (kind : Kind) (text : List Char) : Option Caveat :=
  match kind with
  | .iss => some (.iss (String.ofList text))
  | .iat => integer .iat
  | .sub => some (.sub (String.ofList text))
  | .client => some (.client (String.ofList text))
  | .bearer => some .bearer
  | .cnf => (cnfFromString (String.ofList text)).map .cnf
  | .flags => some (.flags (wordsOf ',' text))
  | .label => some (.label (String.ofList text))
  | .exp => integer .exp
  | .nbf => integer .nbf
  | .aud => some (.aud (wordsOf ' ' text))
  | .grant => some (.grant (String.ofList text))
  | .act =>
    -- A null is refused as the empty chain is.
    match actorChain (some (jsonOf platform text)) with
    | some (first :: rest) => some (.act (nestActors (first :: rest)))
    | _ => none
  | .access =>
    match normalise (jsonOf platform text) with
    | .ok access => some (.access access)
    | .error _ => none
where
  integer (make : Nat → Caveat) : Option Caveat :=
    if isInteger (numberOf text) then some (make (numberOf text)) else none

/-- The first pattern that matches decides. -/
def parseWith (text : String) : List Pattern → Option Caveat
  | [] => none
  | pattern :: rest =>
    match pattern.exec text with
    | some captured => valueOf platform pattern.kind captured
    | none => parseWith text rest

/-- `parseCaveat`. -/
def parseCaveat (text : String) : Option Caveat := parseWith platform text patterns

/-! ## Reading a list of caveats -/

/-- The kind under which the authority section holds a caveat. -/
def Caveat.slot (caveat : Caveat) : Kind := if caveat.kind = .bearer then .cnf else caveat.kind

/-- What the loop of `readCaveats` has read. -/
structure Progress where
  /-- The authority section's caveats, each slot once. -/
  authority : List Caveat
  audience : List (List String)
  access : List (List Json)
  exps : List Nat
  nbfs : List Nat
  boundary : Option Nat

/-- Before the first caveat. -/
def Progress.empty : Progress := ⟨[], [], [], [], [], none⟩

/-- Whether the authority section holds a caveat of a slot. -/
def holds (authority : List Caveat) (slot : Kind) : Bool :=
  authority.any fun caveat => caveat.slot = slot

/-- The lists, with one caveat more. -/
def Progress.push (progress : Progress) (caveat : Caveat) : Progress :=
  match caveat with
  | .aud value => { progress with audience := progress.audience ++ [value] }
  | .access value => { progress with access := progress.access ++ [value] }
  | .exp value => { progress with exps := progress.exps ++ [value] }
  | .nbf value => { progress with nbfs := progress.nbfs ++ [value] }
  | _ => progress

/-- The authority section, with one caveat more. -/
def Progress.authorise (progress : Progress) (index : Nat) (caveat : Caveat) : Progress :=
  { progress with
    authority := progress.authority ++ [caveat]
    boundary := if caveat.kind = .access then some index else none }

/-- One round of the loop of `readCaveats`. -/
def readOne (index : Nat) (progress : Progress) (text : Option String) : Except Refusal Progress :=
  match text.bind (parseCaveat platform) with
  | none =>
    .error ⟨"STS-GNAP-0315", "macaroon caveat " ++ toString index ++
      " is not in this service's caveat grammar, and an unknown caveat " ++
      "is never skipped."⟩
  | some caveat =>
    if progress.boundary.isSome then
      if caveat.kind ∈ attenuating then
        .ok (progress.push caveat)
      else
        .error ⟨"STS-GNAP-0316", "macaroon caveat " ++ toString index ++
          " (gnap:" ++ caveat.kind.name ++ ") follows the authority " ++
          "section, where only exp, nbf, aud and access may be added."⟩
    else if holds progress.authority caveat.slot then
      .error ⟨"STS-GNAP-0316", "the macaroon's authority section repeats " ++
        "gnap:" ++ caveat.slot.name ++ "."⟩
    else
      .ok ((progress.authorise index caveat).push caveat)

/-- The loop of `readCaveats`, from an index on. -/
def readEach (index : Nat) (progress : Progress) :
    List (Option String) → Except Refusal Progress
  | [] => .ok progress
  | text :: rest => do
    let next ← readOne platform index progress text
    readEach (index + 1) next rest

/-- The model of an authority section; `none` where a caveat is missing. -/
def modelOf (authority : List Caveat) (jti : String) : Option TokenModel := do
  let iss ← authority.findSome? fun
    | .iss value => some value
    | _ => none
  let client ← authority.findSome? fun
    | .client value => some value
    | _ => none
  let access ← authority.findSome? fun
    | .access value => some value
    | _ => none
  let cnf ← authority.findSome? fun
    | .cnf value => some (some value)
    | .bearer => some none
    | _ => none
  let iat ← authority.findSome? fun
    | .iat value => some value
    | _ => none
  let exp ← authority.findSome? fun
    | .exp value => some value
    | _ => none
  pure {
    jti := jti
    iss := iss
    sub := authority.findSome? fun
      | .sub value => some value
      | _ => none
    aud := (authority.findSome? fun
      | .aud value => some value
      | _ => none).getD []
    instanceId := client
    access := access
    flags := (authority.findSome? fun
      | .flags value => some value
      | _ => none).getD []
    cnf := cnf
    iat := iat
    nbf := authority.findSome? fun
      | .nbf value => some value
      | _ => none
    exp := exp
    label := authority.findSome? fun
      | .label value => some value
      | _ => none
    act := (authority.findSome? fun
      | .act value => some value
      | _ => none).join
    grant := authority.findSome? fun
      | .grant value => some value
      | _ => none }

/-- What `readCaveats` answers. -/
structure Reading where
  model : TokenModel
  audience : List (List String)
  access : List (List Json)
  exp : Expiry
  nbf : Option Nat
  attenuated : Bool

/-- The kinds an authority section lacks. -/
def missingOf (authority : List Caveat) : List Kind :=
  (requiredOnce ++ [Kind.cnf, Kind.access]).filter fun kind => ¬ holds authority kind

/-- `readCaveats`; a caveat that is no text is `none`. -/
def readCaveats (conditions : List (Option String)) (jti : String) :
    Except Refusal Reading := do
  let progress ← readEach platform 0 .empty conditions
  match modelOf progress.authority jti with
  | none =>
    .error ⟨"STS-GNAP-0316", "the macaroon's authority section lacks " ++
      "gnap:" ++ ", gnap:".intercalate ((missingOf progress.authority).map Kind.name) ++ "."⟩
  | some model =>
    match validateModel platform.isUrl model with
    | .error refusal =>
      .error ⟨"STS-GNAP-0316", "the macaroon's authority section is " ++
        "not a valid token model: " ++ refusal.why⟩
    | .ok model =>
      pure {
        model := model
        audience := progress.audience
        access := progress.access
        exp := progress.exps.min?
        nbf := progress.nbfs.max?
        attenuated := progress.boundary.any fun boundary => boundary < conditions.length - 1 }

/-! ## Writing a model -/

/-- A digit is a character numbers are written with. -/
theorem mem_numeralChars_of_isDigit {char : Char} (isDigit : char.isDigit = true) :
    char ∈ numeralChars := by
  obtain ⟨low, high⟩ := Char.isDigit_iff_toNat.mp isDigit
  have isCode : char.toNat ∈ List.range' 48 10 := by
    rw [List.mem_range']
    exact ⟨char.toNat - 48, by simp at low high; omega,
      by simp at low high; omega⟩
  have each :
      ((List.range' 48 10).all fun code =>
        Char.ofNat code ∈ numeralChars) = true := by
    decide
  simpa using List.all_eq_true.mp each char.toNat isCode

/-- A number as JSON. -/
def numeralOf (value : Nat) : Numeral where
  text := toString value
  nonempty := by simp [Nat.toDigits_ne_nil]
  numeric := by
    intro char isChar
    rw [Nat.toString_eq_repr, Nat.toList_repr] at isChar
    exact mem_numeralChars_of_isDigit (Nat.isDigit_of_mem_toDigits (by decide) (by decide) isChar)

/-- A text or null as JSON. -/
def textOrNull (text : Option String) : Json := (text.map Json.string).getD .null

/-- A model as the object it is. -/
def modelJson (model : TokenModel) : Json :=
  .object 0
    [("jti", .string model.jti),
      ("iss", .string model.iss),
      ("sub", textOrNull model.sub),
      ("aud", .array 0 (model.aud.map .string)),
      ("instanceId", .string model.instanceId),
      ("access", .array 0 model.access),
      ("flags", .array 0 (model.flags.map .string)),
      ("cnf", (model.cnf.map fun cnf =>
        .object 0 [(cnf.member, .string cnf.value)]).getD .null),
      ("iat", .number (numeralOf model.iat)),
      ("nbf", (model.nbf.map fun nbf => .number (numeralOf nbf)).getD .null),
      ("exp", .number (numeralOf model.exp)),
      ("label", textOrNull model.label),
      ("act", model.act.getD .null),
      ("grant", textOrNull model.grant)]

/-- `b64uJson`. -/
def b64uJson (value : Json) : String := platform.toBase64url (platform.stringify value)

/-- The caveats a model is spelt as, in the authority order. -/
def spell (model : TokenModel) : List String :=
  ["gnap:iss=" ++ model.iss] ++
    ["gnap:iat=" ++ toString model.iat] ++
    (model.sub.map ("gnap:sub=" ++ ·)).toList ++
    ["gnap:client=" ++ model.instanceId] ++
    [match model.cnf with
      | some cnf => "gnap:cnf=" ++ cnfToString cnf
      | none => "gnap:bearer"] ++
    (if model.flags = [] then []
      else ["gnap:flags=" ++ ",".intercalate model.flags]) ++
    (model.label.map ("gnap:label=" ++ ·)).toList ++
    ["gnap:exp<" ++ toString model.exp] ++
    (model.nbf.map fun nbf => "gnap:nbf>=" ++ toString nbf).toList ++
    (if model.aud = [] then []
      else ["gnap:aud=" ++ " ".intercalate model.aud]) ++
    ((model.grant.filter (· ≠ "")).map ("gnap:grant=" ++ ·)).toList ++
    (model.act.map fun act => "gnap:act=" ++ b64uJson platform act).toList ++
    ["gnap:access=" ++ b64uJson platform (.array 0 model.access)]

/-- The refusal of a model that cannot be written. -/
def notExpressible : Refusal where
  errorCode := "STS-GNAP-0310"
  why := "the token model cannot be written as macaroon caveats that read " ++
    "back as the same model (an audience with whitespace in it, a label " ++
    "with a control character, for example)."

/-- `caveatsFor`. -/
def caveatsFor (model : TokenModel) : Except Refusal (List String) :=
  let out := spell platform model
  match readCaveats platform (out.map some) model.jti with
  | .error _ => .error notExpressible
  | .ok read =>
    if canonicalJson (modelJson read.model) =
        canonicalJson (modelJson model) then
      .ok out
    else
      .error notExpressible

/-! ## Verifying a token -/

/-- A macaroon as the library imports it, its texts decoded. -/
structure Macaroon where
  /-- The identifier; `none` where it is no UTF-8. -/
  identifier : Option String
  /-- The first-party caveats; `none` where one is no UTF-8. -/
  caveats : List (Option String)

/-- What `verify` answers. -/
structure Verified where
  model : TokenModel
  attenuated : Bool

/-- The token an identifier names; `none` where it is no token's. -/
def jtiOf (identifier : Option String) : Option String :=
  match identifier.bind fun identifier =>
      identifier.toList.dropPrefix? identifierLead.toList with
  | some (first :: rest) => some (String.ofList (first :: rest))
  | _ => none

/-- What `verify` does once a token is imported and its chain is known. -/
def verifyMacaroon (macaroon : Macaroon) (chainHolds : Bool) (nowSec : Int)
    (context : Context) : Option (Except Refusal Verified) :=
  match jtiOf macaroon.identifier with
  | some jti =>
    if chainHolds then
      match readCaveats platform macaroon.caveats jti with
      | .error refusal => some (.error refusal)
      | .ok read =>
        match checkPresentation nowSec read.model context
            ⟨some read.exp, some read.nbf, some read.audience,
              some read.access⟩ with
        | none => none
        | some (some refused) => some (.error refused)
        | some none => some (.ok ⟨read.model, read.attenuated⟩)
    else
      some (.error ⟨"STS-GNAP-0314", "the macaroon's HMAC chain does not " ++
        "verify under this authorization server's root key — it was " ++
        "altered, a caveat was removed, or another key minted it."⟩)
  | none =>
    some (.error ⟨"STS-GNAP-0312", "the macaroon identifier is not \"" ++
      identifierLead ++ "<jti>\", so this is not a GNAP macaroon this " ++
      "service minted."⟩)

end

end IyaSts.TokenMacaroon
