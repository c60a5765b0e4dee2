import IyaSts.DemandWalk
import IyaSts.JsObject
import IyaSts.XacmlModel

namespace IyaSts.Xacml

/-!
# The combining algorithms of the two engines

Each algorithm is a demand walk: it keeps some flags, stops at the child that
settles the matter, and otherwise ends in an ordered cascade of tests over its
flags.  `Node` holds `COMBINERS` of `xacml_pdp.js`, `Rust` the implementations
of `combining.rs`.
-/

/-- A combining algorithm, as a walk over the children's decisions. -/
abbrev Combiner := DemandWalk.Walk Decision

/-- A combination: the decision and the results really produced. -/
abbrev Combination (Result : Type) := DemandWalk.Outcome Decision Result

namespace Combiner

/-- Combine children that are already decided. -/
def combine (combiner : Combiner) (decisions : List Decision) : Combination Decision :=
  combiner.run (m := Id) id combiner.start [] (decisions.map pure)

/-- Combining decided children is walking over their decisions. -/
theorem combine_eq (combiner : Combiner) (decisions : List Decision) :
    combiner.combine decisions = combiner.settleAll combiner.start decisions := by
  rw [combine, DemandWalk.Walk.run_pure]
  rfl

end Combiner

/-- Stop at one decision, which is then the combined one. -/
def stopAt (wins : Decision) (decision : Decision) : Option Decision :=
  if decision = wins then some wins else none

/-! ## only-one-applicable

Which children are applicable is decided before any is evaluated.  The loop is
the same in the two engines; what each makes of a refusal is not.
-/

/-- What asking every child's target finds. -/
inductive Selection (Answer : Type) where
  | undecided (answer : Answer)
  | several
  | nobody
  | one (index : Nat)
  deriving DecidableEq

/-- Ask the targets in order, from position `index` on. -/
def selectApplicable {m : Type → Type} [Monad m] {Answer : Type} (resultOf : Answer → MatchResult) :
    Option Nat → Nat → List (m Answer) → m (Selection Answer)
  | none, _, [] => pure .nobody
  | some index, _, [] => pure (.one index)
  | selected, index, target :: rest => do
    let answer ← target
    match resultOf answer, selected with
    | .indeterminate, _ => pure (.undecided answer)
    | .isMatch, some _ => pure .several
    | .isMatch, none => selectApplicable resultOf (some index) (index + 1) rest
    | .noMatch, _ => selectApplicable resultOf selected (index + 1) rest

namespace Node

/-! ## The JavaScript engine -/

/-- only-one-applicable (C.9), in the shape every combiner answers in. -/
def evaluateOnlyOneApplicable {m : Type → Type} [Monad m] {Result : Type}
    (decisionOf : Result → Decision) (targets : List (m MatchResult))
    (evaluateChild : Nat → m Result) :
    m (Combination Result) := do
  match ← selectApplicable id none 0 targets with
  | .undecided _ => pure ⟨.indeterminateDP, []⟩
  | .several => pure ⟨.indeterminateDP, []⟩
  | .nobody => pure ⟨.notApplicable, []⟩
  | .one index =>
    let result ← evaluateChild index
    pure ⟨decisionOf result, [result]⟩

structure DenyOverridesFlags where
  errorD : Bool := false
  errorP : Bool := false
  errorDP : Bool := false
  permit : Bool := false

/-- deny-overrides, XACML 3.0 (C.2). -/
def denyOverrides : Combiner where
  Flags := DenyOverridesFlags
  start := {}
  stop := stopAt .deny
  note flags decision :=
    if decision = .permit then
      { flags with permit := true }
    else if decision = .indeterminateD then
      { flags with errorD := true }
    else if decision = .indeterminateP then
      { flags with errorP := true }
    else if decision = .indeterminateDP ∨ decision = .indeterminate then
      { flags with errorDP := true }
    else
      flags
  -- The order of these tests is the algorithm.
  settle flags :=
    if flags.errorDP then
      .indeterminateDP
    else if flags.errorD && (flags.errorP || flags.permit) then
      .indeterminateDP
    else if flags.errorD then
      .indeterminateD
    else if flags.permit then
      .permit
    else if flags.errorP then
      .indeterminateP
    else
      .notApplicable

structure PermitOverridesFlags where
  errorD : Bool := false
  errorP : Bool := false
  errorDP : Bool := false
  deny : Bool := false

/-- permit-overrides, XACML 3.0 (C.3). -/
def permitOverrides : Combiner where
  Flags := PermitOverridesFlags
  start := {}
  stop := stopAt .permit
  note flags decision :=
    if decision = .deny then
      { flags with deny := true }
    else if decision = .indeterminateD then
      { flags with errorD := true }
    else if decision = .indeterminateP then
      { flags with errorP := true }
    else if decision = .indeterminateDP ∨ decision = .indeterminate then
      { flags with errorDP := true }
    else
      flags
  settle flags :=
    if flags.errorDP then
      .indeterminateDP
    else if flags.errorP && (flags.errorD || flags.deny) then
      .indeterminateDP
    else if flags.errorP then
      .indeterminateP
    else if flags.deny then
      .deny
    else if flags.errorD then
      .indeterminateD
    else
      .notApplicable

/-- A walk with no flags: one decision wins, another stands otherwise. -/
def unlessOther (wins otherwise : Decision) : Combiner where
  Flags := Unit
  start := ()
  stop := stopAt wins
  note _ _ := ()
  settle _ := otherwise

/-- deny-unless-permit (C.6). -/
def denyUnlessPermit : Combiner := unlessOther .permit .deny

/-- permit-unless-deny (C.7). -/
def permitUnlessDeny : Combiner := unlessOther .deny .permit

/-- first-applicable (C.8): an extended Indeterminate becomes the plain one. -/
def firstApplicable : Combiner where
  Flags := Unit
  start := ()
  stop decision :=
    if decision = .notApplicable then
      none
    else if decision.isIndeterminate then
      some .indeterminate
    else
      some decision
  note _ _ := ()
  settle _ := .notApplicable

structure LegacyRuleFlags where
  error : Bool := false
  potential : Bool := false
  other : Bool := false

/--
The legacy rule versions: `wins` overrides, `other` is remembered, and
`couldWin` is the Indeterminate of a rule whose effect is `wins`.
-/
def legacyRuleOverrides (wins other couldWin : Decision) : Combiner where
  Flags := LegacyRuleFlags
  start := {}
  stop := stopAt wins
  note flags decision :=
    if decision = other then
      { flags with other := true }
    else if decision.isIndeterminate then
      { flags with
        error := true
        potential := flags.potential || (decision = couldWin || decision = .indeterminateDP) }
    else
      flags
  settle flags :=
    if flags.potential then
      .indeterminate
    else if flags.other then
      other
    else if flags.error then
      .indeterminate
    else
      .notApplicable

def legacyRuleDenyOverrides : Combiner := legacyRuleOverrides .deny .permit .indeterminateD

def legacyRulePermitOverrides : Combiner := legacyRuleOverrides .permit .deny .indeterminateP

structure LegacyPolicyFlags where
  error : Bool := false
  other : Bool := false

/-- The legacy policy versions: an error anywhere gives the overriding decision. -/
def legacyPolicyOverrides (wins other : Decision) : Combiner where
  Flags := LegacyPolicyFlags
  start := {}
  stop := stopAt wins
  note flags decision :=
    if decision = other then
      { flags with other := true }
    else if decision.isIndeterminate then
      { flags with error := true }
    else
      flags
  settle flags :=
    if flags.error then
      wins
    else if flags.other then
      other
    else
      .notApplicable

def legacyPolicyDenyOverrides : Combiner := legacyPolicyOverrides .deny .permit

def legacyPolicyPermitOverrides : Combiner := legacyPolicyOverrides .permit .deny

/-- What an identifier is registered as. -/
inductive Registered where
  | combiner (implementation : Combiner)
  -- Its entry throws: the algorithm lives in `evaluatePolicySet()`.
  | onlyOneApplicable

/-- `combiner(uris, implementation)`: one implementation under each identifier. -/
def register (uris : List String) (implementation : Combiner) : List (String × Registered) :=
  uris.map fun uri => (uri, .combiner implementation)

/-- The combining algorithms by identifier. -/
def combiners : List (String × Registered) :=
  register
      [RuleAlg.denyOverrides, RuleAlg.orderedDenyOverrides,
        PolicyAlg.denyOverrides, PolicyAlg.orderedDenyOverrides]
      denyOverrides ++
    register
      [RuleAlg.permitOverrides, RuleAlg.orderedPermitOverrides,
        PolicyAlg.permitOverrides, PolicyAlg.orderedPermitOverrides]
      permitOverrides ++
    register [RuleAlg.denyUnlessPermit, PolicyAlg.denyUnlessPermit] denyUnlessPermit ++
    register [RuleAlg.permitUnlessDeny, PolicyAlg.permitUnlessDeny] permitUnlessDeny ++
    register [RuleAlg.firstApplicable, PolicyAlg.firstApplicable] firstApplicable ++
    register
      [RuleAlg.legacyDenyOverrides, RuleAlg.legacyOrderedDenyOverrides]
      legacyRuleDenyOverrides ++
    register
      [RuleAlg.legacyPermitOverrides, RuleAlg.legacyOrderedPermitOverrides]
      legacyRulePermitOverrides ++
    register
      [PolicyAlg.legacyDenyOverrides, PolicyAlg.legacyOrderedDenyOverrides]
      legacyPolicyDenyOverrides ++
    register
      [PolicyAlg.legacyPermitOverrides, PolicyAlg.legacyOrderedPermitOverrides]
      legacyPolicyPermitOverrides ++
    [(PolicyAlg.onlyOneApplicable, .onlyOneApplicable)]

/-- `COMBINERS[uri] || null`, which also answers to the inherited names. -/
def lookupCombiner (uri : String) : JsObject.Property Registered := JsObject.read combiners uri

end Node

namespace Rust

/-! ## The Rust engine -/

/-- Why only-one-applicable refuses, where it refuses. -/
inductive Refusal (Answer : Type) where
  | undecided (answer : Answer)
  | several
  deriving DecidableEq

/-- only-one-applicable (C.9): a combination, or a finished refusal. -/
def onlyOneApplicable {m : Type → Type} [Monad m] {Answer Result : Type}
    (resultOf : Answer → MatchResult) (decisionOf : Result → Decision) (targets : List (m Answer))
    (evaluate : Nat → m Result) :
    m (Except (Refusal Answer) (Combination Result)) := do
  match ← selectApplicable resultOf none 0 targets with
  | .undecided answer => pure (.error (.undecided answer))
  | .several => pure (.error .several)
  | .nobody => pure (.ok ⟨.notApplicable, []⟩)
  | .one index =>
    let result ← evaluate index
    pure (.ok ⟨decisionOf result, [result]⟩)

/-- The extended Indeterminate flags the two 3.0 overrides algorithms track. -/
structure Seen where
  errorD : Bool := false
  errorP : Bool := false
  errorDP : Bool := false

def Seen.note (seen : Seen) : Decision → Seen
  | .indeterminateD => { seen with errorD := true }
  | .indeterminateP => { seen with errorP := true }
  | .indeterminateDP => { seen with errorDP := true }
  | .indeterminate => { seen with errorDP := true }
  | _ => seen

structure OverridesFlags where
  seen : Seen := {}
  other : Bool := false

/-- deny-overrides, XACML 3.0 (C.2). -/
def denyOverrides : Combiner where
  Flags := OverridesFlags
  start := {}
  stop := stopAt .deny
  note flags decision :=
    if decision = .permit then
      { flags with other := true }
    else
      { flags with seen := flags.seen.note decision }
  settle flags :=
    if flags.seen.errorDP ||
        (flags.seen.errorD && (flags.seen.errorP || flags.other)) then
      .indeterminateDP
    else if flags.seen.errorD then
      .indeterminateD
    else if flags.other then
      .permit
    else if flags.seen.errorP then
      .indeterminateP
    else
      .notApplicable

/-- permit-overrides, XACML 3.0 (C.3). -/
def permitOverrides : Combiner where
  Flags := OverridesFlags
  start := {}
  stop := stopAt .permit
  note flags decision :=
    if decision = .deny then
      { flags with other := true }
    else
      { flags with seen := flags.seen.note decision }
  settle flags :=
    if flags.seen.errorDP ||
        (flags.seen.errorP && (flags.seen.errorD || flags.other)) then
      .indeterminateDP
    else if flags.seen.errorP then
      .indeterminateP
    else if flags.other then
      .deny
    else if flags.seen.errorD then
      .indeterminateD
    else
      .notApplicable

/-- deny-unless-permit and permit-unless-deny (C.6, C.7). -/
def unlessOther (wins otherwise : Decision) : Combiner where
  Flags := Unit
  start := ()
  stop decision := if decision = wins then some decision else none
  note _ _ := ()
  settle _ := otherwise

/-- first-applicable (C.8). -/
def firstApplicable : Combiner where
  Flags := Unit
  start := ()
  stop decision :=
    if decision = .notApplicable then
      none
    else
      some (if decision.isIndeterminate then .indeterminate else decision)
  note _ _ := ()
  settle _ := .notApplicable

structure LegacyRuleFlags where
  error : Bool := false
  potential : Bool := false
  sawOther : Bool := false

/-- The legacy rule overrides algorithms. -/
def legacyRuleOverrides (overriding : Decision) : Combiner :=
  let other : Decision := if overriding = .deny then .permit else .deny
  let couldOverride : Decision := if overriding = .deny then .indeterminateD else .indeterminateP
  { Flags := LegacyRuleFlags
    start := {}
    stop := fun decision => if decision = overriding then some decision else none
    note := fun flags decision =>
      if decision = other then
        { flags with sawOther := true }
      else if decision.isIndeterminate then
        if decision = couldOverride ∨ decision = .indeterminateDP then
          { flags with error := true, potential := true }
        else
          { flags with error := true }
      else
        flags
    settle := fun flags =>
      if flags.potential then
        .indeterminate
      else if flags.sawOther then
        other
      else if flags.error then
        .indeterminate
      else
        .notApplicable }

structure LegacyPolicyFlags where
  error : Bool := false
  sawOther : Bool := false

/-- The legacy policy overrides algorithms. -/
def legacyPolicyOverrides (overriding : Decision) : Combiner :=
  let other : Decision := if overriding = .deny then .permit else .deny
  { Flags := LegacyPolicyFlags
    start := {}
    stop := fun decision => if decision = overriding then some decision else none
    note := fun flags decision =>
      if decision = other then
        { flags with sawOther := true }
      else if decision.isIndeterminate then
        { flags with error := true }
      else
        flags
    settle := fun flags =>
      if flags.error then
        overriding
      else if flags.sawOther then
        other
      else
        .notApplicable }

/-- One implementation under each identifier. -/
def add (uris : List String) (make : Combiner) : List (String × Combiner) :=
  uris.map fun uri => (uri, make)

/-- Every combining algorithm but only-one-applicable, by identifier. -/
def combiners : List (String × Combiner) :=
  add
      [RuleAlg.denyOverrides, RuleAlg.orderedDenyOverrides,
        PolicyAlg.denyOverrides, PolicyAlg.orderedDenyOverrides]
      denyOverrides ++
    add
      [RuleAlg.permitOverrides, RuleAlg.orderedPermitOverrides,
        PolicyAlg.permitOverrides, PolicyAlg.orderedPermitOverrides]
      permitOverrides ++
    add [RuleAlg.denyUnlessPermit, PolicyAlg.denyUnlessPermit] (unlessOther .permit .deny) ++
    add [RuleAlg.permitUnlessDeny, PolicyAlg.permitUnlessDeny] (unlessOther .deny .permit) ++
    add [RuleAlg.firstApplicable, PolicyAlg.firstApplicable] firstApplicable ++
    add
      [RuleAlg.legacyDenyOverrides, RuleAlg.legacyOrderedDenyOverrides]
      (legacyRuleOverrides .deny) ++
    add
      [RuleAlg.legacyPermitOverrides, RuleAlg.legacyOrderedPermitOverrides]
      (legacyRuleOverrides .permit) ++
    add
      [PolicyAlg.legacyDenyOverrides, PolicyAlg.legacyOrderedDenyOverrides]
      (legacyPolicyOverrides .deny) ++
    add
      [PolicyAlg.legacyPermitOverrides, PolicyAlg.legacyOrderedPermitOverrides]
      (legacyPolicyOverrides .permit)

/-- The combiner registered for an identifier. -/
def get (uri : String) : Option Combiner := combiners.lookup uri

end Rust

/-! ## Both engines -/

inductive Engine where
  | node
  | rust
  deriving DecidableEq

/-- The walk an engine runs under an identifier, only-one-applicable apart. -/
def Engine.combinerFor : Engine → String → Option Combiner
  | .node, uri =>
    match Node.lookupCombiner uri with
    | .own (.combiner implementation) => some implementation
    | _ => none
  | .rust, uri => Rust.get uri

/-- A child whose target and decision are known. -/
structure DecidedChild where
  target : MatchResult
  decision : Decision
  deriving DecidableEq

/--
Combine decided children under an identifier, as a policy set does: through
only-one-applicable, or through the walk the engine has registered.
-/
def Engine.combine (engine : Engine) (uri : String) (children : List DecidedChild) :
    Option (Combination Decision) :=
  let targets := children.map DecidedChild.target
  let decisionAt : Nat → Decision := fun index =>
    (children.map DecidedChild.decision).getD index .notApplicable
  if uri = PolicyAlg.onlyOneApplicable then
    match engine with
    | .node => some (Node.evaluateOnlyOneApplicable (m := Id) id targets decisionAt)
    | .rust =>
      match Rust.onlyOneApplicable (m := Id) id id targets decisionAt with
      | .ok combination => some combination
      | .error _ => some ⟨.indeterminateDP, []⟩
  else
    (engine.combinerFor uri).map fun combiner =>
      combiner.combine (children.map DecidedChild.decision)

namespace Combiner

open DemandWalk

def denyOverridesMatch : Walk.Matches Node.denyOverrides Rust.denyOverrides where
  Related := fun (flags : Node.DenyOverridesFlags)
      (flags' : Rust.OverridesFlags) =>
    flags.errorD = flags'.seen.errorD ∧
      flags.errorP = flags'.seen.errorP ∧
      flags.errorDP = flags'.seen.errorDP ∧
      flags.permit = flags'.other
  start := ⟨rfl, rfl, rfl, rfl⟩
  stop _ := rfl
  note := by
    rintro flags flags' answer ⟨sameD, sameP, sameDP, samePermit⟩
    cases answer <;> simp_all [Node.denyOverrides, Rust.denyOverrides, Rust.Seen.note]
  settle := by
    rintro flags flags' ⟨sameD, sameP, sameDP, samePermit⟩
    simp only [Node.denyOverrides, Rust.denyOverrides, sameD, sameP, sameDP, samePermit]
    cases flags'.seen.errorDP <;> rfl

def permitOverridesMatch : Walk.Matches Node.permitOverrides Rust.permitOverrides where
  Related := fun (flags : Node.PermitOverridesFlags)
      (flags' : Rust.OverridesFlags) =>
    flags.errorD = flags'.seen.errorD ∧
      flags.errorP = flags'.seen.errorP ∧
      flags.errorDP = flags'.seen.errorDP ∧
      flags.deny = flags'.other
  start := ⟨rfl, rfl, rfl, rfl⟩
  stop _ := rfl
  note := by
    rintro flags flags' answer ⟨sameD, sameP, sameDP, sameDeny⟩
    cases answer <;> simp_all [Node.permitOverrides, Rust.permitOverrides, Rust.Seen.note]
  settle := by
    rintro flags flags' ⟨sameD, sameP, sameDP, sameDeny⟩
    simp only [Node.permitOverrides, Rust.permitOverrides, sameD, sameP, sameDP, sameDeny]
    cases flags'.seen.errorDP <;> rfl

end Combiner

end IyaSts.Xacml
