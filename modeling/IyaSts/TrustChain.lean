import Mathlib.Data.List.Basic

namespace IyaSts.TrustChain

/-!
# Walking up to a Trust Anchor

`oidfed/trust_chain.ts` from an entity's authority hints to the chains that end at a
configured anchor.  What is fetched, signatures and clocks are given; a walk remembers
what it obtained and what it could not, and stops when its budget is spent.  Which
statements it asked for is recorded beside it and is read by no step.
-/

structure Refusal where
  code : String
  why : String

/-- The claims of a statement that the walk reads.  The fetch endpoint is there where
it is an endpoint's URL. -/
structure Claims (Keys : Type) where
  iss : String
  sub : String
  jwks : Keys
  authorityHints : List String
  fetchEndpoint : Option String

structure Statement (Keys : Type) where
  jwt : String
  claims : Claims Keys

structure Limits where
  maxHints : Nat
  maxDepth : Nat
  maxFetches : Nat

/-- An entity that this process answers for itself. -/
structure LocalEntity where
  configuration : String
  subordinateStatement : String → Option String

/-- What a walk depends on.  A fetch answers a statement, or why there is none. -/
structure Surroundings (Keys : Type) where
  limits : Limits
  isEntityId : String → Bool
  configurationUrlOf : String → String
  fetchUrlOf : String → String → String
  localEntity : String → Option LocalEntity
  fetch : String → Except String String
  keysOf : String → Keys
  verify : String → Keys → Except Refusal (Claims Keys)
  validateClaims : Claims Keys → Option Refusal

/-- The state of a walk, and the statements it asked for. -/
structure Walk (Keys : Type) where
  seen : List (String × Except Refusal (Statement Keys)) := []
  fetches : Nat := 0
  exhausted : Bool := false
  problems : List String := []
  obtained : List String := []

variable {Keys : Type}

def Walk.remember (walk : Walk Keys) (key : String) (got : Except Refusal (Statement Keys)) :
    Except Refusal (Statement Keys) × Walk Keys :=
  (got, { walk with seen := (key, got) :: walk.seen })

def Walk.problem (walk : Walk Keys) (why : String) : Walk Keys :=
  { walk with problems := walk.problems ++ [why] }

/-- `walk.seen` names a configuration by its entity, and a statement by its issuer and
its subject. -/
def configurationKey (entityId : String) : String :=
  "ec " ++ entityId

def statementKey (iss sub : String) : String :=
  "ss " ++ iss ++ " " ++ sub

section

variable (env : Surroundings Keys)

/-- One statement, in process when its owner is this service, fetched otherwise. -/
def retrieve (url : String) (fromLocal : LocalEntity → Option String) (owner : String) :
    Except Refusal String :=
  match env.localEntity owner with
  | some mine =>
    match fromLocal mine with
    | some jwt => .ok jwt
    | none => .error ⟨"STS-OIDFED-0026", owner ++ " (this service) holds no such statement."⟩
  | none => (env.fetch url).mapError fun why => ⟨"STS-OIDFED-0024", why⟩

/-- A statement that counts against the budget. -/
def obtain (key url : String) (fromLocal : LocalEntity → Option String) (owner : String)
    (walk : Walk Keys) : Except Refusal String × Walk Keys :=
  if env.limits.maxFetches < walk.fetches + 1 then
    (.error ⟨"STS-OIDFED-0028", "the resolution reached oidfed.maxFetchesPerResolution (" ++
        toString env.limits.maxFetches ++ ") and stopped (18.1)."⟩,
      { walk with fetches := walk.fetches + 1, exhausted := true })
  else
    (retrieve env url fromLocal owner,
      { walk with fetches := walk.fetches + 1, obtained := key :: walk.obtained })

/-- A configuration has to be about its own issuer, and signed by it. -/
def readConfiguration (entityId jwt : String) : Except Refusal (Statement Keys) :=
  match env.verify jwt (env.keysOf jwt) with
  | .error refusal =>
    .error ⟨refusal.code, entityId ++ "'s Entity Configuration: " ++ refusal.why⟩
  | .ok claims =>
    if claims.iss ≠ entityId ∨ claims.sub ≠ entityId then
      .error ⟨"STS-OIDFED-0024", "the configuration published for " ++ entityId ++
        " is about " ++ claims.sub ++ ", issued by " ++ claims.iss ++ "."⟩
    else
      match env.validateClaims claims with
      | some refusal =>
        .error ⟨refusal.code, entityId ++ "'s Entity Configuration: " ++ refusal.why⟩
      | none => .ok ⟨jwt, claims⟩

def configurationOf (entityId : String) (walk : Walk Keys) :
    Except Refusal (Statement Keys) × Walk Keys :=
  match walk.seen.lookup (configurationKey entityId) with
  | some got => (got, walk)
  | none =>
    if env.isEntityId entityId = false then
      walk.remember (configurationKey entityId)
        (.error ⟨"STS-OIDFED-0024", "\"" ++ entityId ++ "\" is not an Entity Identifier."⟩)
    else
      let (got, walk) := obtain env (configurationKey entityId)
        (env.configurationUrlOf entityId) (fun mine => some mine.configuration) entityId walk
      walk.remember (configurationKey entityId) (got.bind (readConfiguration env entityId))

/-- A statement has to be by the superior that was asked, about the subject it was
asked about. -/
def readStatement (superior : Claims Keys) (sub jwt : String) :
    Except Refusal (Statement Keys) :=
  match env.verify jwt superior.jwks with
  | .error refusal => .error ⟨refusal.code, "the statement " ++ superior.iss ++
      " made about " ++ sub ++ ": " ++ refusal.why⟩
  | .ok claims =>
    if claims.iss ≠ superior.iss ∨ claims.sub ≠ sub then
      .error ⟨"STS-OIDFED-0026", "asked " ++ superior.iss ++ " about " ++ sub ++
        " and was answered with a statement by " ++ claims.iss ++ " about " ++
        claims.sub ++ "."⟩
    else
      match env.validateClaims claims with
      | some refusal => .error ⟨refusal.code, "the statement " ++ superior.iss ++
          " made about " ++ sub ++ ": " ++ refusal.why⟩
      | none => .ok ⟨jwt, claims⟩

def subordinateStatementOf (superior : Claims Keys) (sub : String) (walk : Walk Keys) :
    Except Refusal (Statement Keys) × Walk Keys :=
  match walk.seen.lookup (statementKey superior.iss sub) with
  | some got => (got, walk)
  | none =>
    match superior.fetchEndpoint with
    | none =>
      walk.remember (statementKey superior.iss sub)
        (.error ⟨"STS-OIDFED-0025", superior.iss ++ " publishes no " ++
          "federation_fetch_endpoint (5.1.1), so it vouches for nobody."⟩)
    | some endpoint =>
      let (got, walk) := obtain env (statementKey superior.iss sub)
        (env.fetchUrlOf endpoint sub) (fun mine => mine.subordinateStatement sub)
        superior.iss walk
      walk.remember (statementKey superior.iss sub)
        (got.bind (readStatement env superior sub))

/-- A chain from a hint up, with the hint's configuration replaced by the statement it
made, unless the hint is the anchor itself. -/
def extend (ec statement : Statement Keys) (chain : List String) : List String :=
  ec.jwt :: statement.jwt :: if chain.length = 1 then chain else chain.tail

/-- The loop of `walkUp` over the hints of an entity. -/
def follow (entityId : String) (ec : Statement Keys) (path : List String)
    (up : String → Walk Keys → List (List String) × Walk Keys) :
    List String → Walk Keys → List (List String) × Walk Keys
  | [], walk => ([], walk)
  | hint :: hints, walk =>
    if hint ∈ path ∨ hint = entityId then
      follow entityId ec path up hints
        (walk.problem ("a loop at " ++ hint ++ " is not followed (10.1)."))
    else
      match configurationOf env hint walk with
      | (.error refusal, walk) => follow entityId ec path up hints (walk.problem refusal.why)
      | (.ok superior, walk) =>
        match subordinateStatementOf env superior.claims entityId walk with
        | (.error refusal, walk) =>
          follow entityId ec path up hints (walk.problem refusal.why)
        | (.ok statement, walk) =>
          let (upper, walk) := up hint walk
          let out := upper.map (extend ec statement)
          if walk.exhausted then
            (out, walk)
          else
            let (rest, walk) := follow entityId ec path up hints walk
            (out ++ rest, walk)

/-- Every chain from an entity up to an anchor.  `path` is the entities on this
branch. -/
def walkUp (anchors : List String) (entityId : String) (path : List String)
    (walk : Walk Keys) : List (List String) × Walk Keys :=
  match configurationOf env entityId walk with
  | (.error refusal, walk) => ([], walk.problem refusal.why)
  | (.ok ec, walk) =>
    if entityId ∈ anchors then
      ([[ec.jwt]], walk)
    else if env.limits.maxDepth ≤ path.length + 1 then
      ([], walk.problem ("the chain above " ++ entityId ++
        " would be deeper than oidfed.maxChainDepth (" ++ toString env.limits.maxDepth ++ ")."))
    else
      let hints := ec.claims.authorityHints
      let max := env.limits.maxHints
      let walk := if max < hints.length then
          walk.problem (entityId ++ " names " ++ toString hints.length ++ " authority hints; " ++
            "only the first " ++ toString max ++
            " are followed (oidfed.maxAuthorityHints, 18.1).")
        else
          walk
      follow env entityId ec path
        (fun hint walk => walkUp anchors hint (path ++ [entityId]) walk) (hints.take max) walk
termination_by env.limits.maxDepth - path.length
decreasing_by
  rw [List.length_append, List.length_singleton]
  omega

/-! ## Resolving -/

/-- A validated chain: how many statements it has, and the anchor it ends at. -/
structure Validated where
  statements : Nat
  anchor : String

/-- `order.indexOf`: where the list names an anchor first, and below all of them where
it does not. -/
def indexOf (anchors : List String) (anchor : String) : Int :=
  if anchor ∈ anchors then anchors.idxOf anchor else -1

/-- The comparison of `resolve`: the shorter chain, and of chains as long the earlier
anchor. -/
def comesFirst (anchors : List String) (one other : Validated) : Bool :=
  one.statements < other.statements ∨
    one.statements = other.statements ∧ indexOf anchors one.anchor ≤ indexOf anchors other.anchor

/-- The walk that `resolve` starts, from a configuration it was handed if there is
one. -/
def start (entityId : String) (given : Option (Statement Keys)) : Walk Keys :=
  match given with
  | none => {}
  | some statement => { seen := [(configurationKey entityId, .ok statement)] }

/-- `resolve` behind the checks of a configuration it was handed. -/
def resolve (validate : List String → Except String Validated) (entityId : String)
    (anchors : List String) (given : Option (Statement Keys)) : Except Refusal Validated :=
  if anchors = [] then
    .error ⟨"STS-OIDFED-0022", "this realm is configured with no Trust Anchor, so it can " ++
      "trust nobody through a federation."⟩
  else
    let (found, walk) := walkUp env anchors entityId [] (start entityId given)
    let valid := found.filterMap fun jwts => (validate jwts).toOption
    match valid.mergeSort (comesFirst anchors) with
    | chosen :: _ => .ok chosen
    | [] =>
      let problems := walk.problems ++ found.filterMap fun jwts =>
        match validate jwts with
        | .error why => some why
        | .ok _ => none
      .error ⟨if walk.exhausted then "STS-OIDFED-0028" else "STS-OIDFED-0027",
        entityId ++ " could not be resolved to a configured Trust Anchor" ++
          if problems = [] then "." else ": " ++ " / ".intercalate (problems.take 5)⟩

end

end IyaSts.TrustChain
