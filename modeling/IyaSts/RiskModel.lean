import Mathlib.Algebra.Order.Field.Rat
import Mathlib.Data.List.Basic

namespace IyaSts.RiskModel

/-!
# The risk score of one sign-in

A person's history and everybody's are asked for counts, level by level, and
the score is the product of the features' ratios and of the user term.
Numbers are exact rationals, and a division by zero has no answer.
-/

/-- A division, which zero has no part in. -/
def divide (numerator denominator : ℚ) : Option ℚ :=
  if denominator = 0 then none else some (numerator / denominator)

/-- A feature: its levels, each with a weight, coarsest last. -/
structure Feature where
  name : String
  levels : List (String × ℚ)
  deriving DecidableEq

/-- `FEATURES[0]`. -/
def ip : Feature :=
  { name := "ip", levels := [("ip", 6 / 10), ("asn", 3 / 10), ("country", 1 / 10)] }

/-- `FEATURES[1]`. -/
def ua : Feature where
  name := "ua"
  levels := [
    ("ua", 5386653840551359 / 10000000000000000),
    ("browser", 2680451498625666 / 10000000000000000),
    ("os", 18818295100109536 / 100000000000000000),
    ("device", 51065150812021525 / 10000000000000000000)
  ]

/-- `FEATURES`. -/
def features : List Feature := [ip, ua]

/-- A history, as counts; the users are of the population only. -/
structure History where
  n : Nat
  users : Option Nat
  count : String → String → Nat
  distinct : String → Nat
  distinctWithin : String → String → String → Nat

/-- A level's value: absent, `null` or what is spelled as a text. -/
inductive Value where
  | undefined
  | null
  | text (spelled : String)
  deriving DecidableEq

/-- This sign-in's value at each level. -/
abbrev Attempt := String → Value

/-- `String(value === undefined ? '' : value)`. -/
def Value.asked : Value → String
  | .undefined => ""
  | .null => "null"
  | .text spelled => spelled

/-- `RiskModel.missing`. -/
def missing : Value → Bool
  | .undefined => true
  | .null => true
  | .text spelled => spelled = ""

/-- `RiskModel.unknownLevels`. -/
def unknownLevels (attempt : Attempt) : List String :=
  features.flatMap fun feature =>
    (feature.levels.tail.filter fun pair => missing (attempt pair.1)).map Prod.fst

/-- The distinct values of a level, in the history or in a part of it. -/
def distinctIn (history : History) (within : Option (String × String)) (level : String) : Nat :=
  match within with
  | some (first, value) => history.distinctWithin first value level
  | none => history.distinct level

/-- `RiskModel.unseen`: the distinct values below a level, plus one. -/
def unseen (history : History) (feature : Feature) (level : String)
    (within : Option (String × String)) : Nat :=
  let names := feature.levels.map Prod.fst
  -- `indexOf` is `-1` for a name that is none, and the loop then ends at once.
  let below := if level ∈ names then names.drop (names.idxOf level + 1) else []
  below.foldl (fun total name => total + distinctIn history within name) 1

/-- `RiskModel.likelihood`. -/
def likelihood (appearance n unseen : Nat)
    (smoothing : Bool) : Option ℚ := do
  let u : ℚ := if smoothing ∨ appearance = 0 then unseen else 0
  if 0 < appearance then
    let share ← divide appearance n
    let taken ← divide u (n + u)
    return share * (1 - taken)
  else if smoothing then
    divide 1 (n + u)
  else
    return 0

/-- `RiskModel.subLikelihood`. -/
def subLikelihood (history : History) (feature : Feature) (level value : String)
    (smoothing : Bool) : Option ℚ := do
  let appearance := history.count level value
  let wanted := smoothing
  let innerUnseen :=
    if !wanted then
      0
    else if appearance = 0 then
      1
    else
      unseen history feature level (some (level, value))
  let inner ← likelihood appearance appearance innerUnseen smoothing
  let outer ←
    likelihood appearance history.n
      (if wanted then unseen history feature level none else 0) smoothing
  return inner * outer

/-- The loop of `featureLikelihood`, from the `i`-th level on. -/
def addLevels (history : History) (feature : Feature) (attempt : Attempt) (smoothFirst : Bool) :
    List (String × ℚ) → Nat → ℚ → Option ℚ
  | [], _, total => some total
  | (level, weight) :: rest, i, total => do
    -- A level whose lookup found nothing adds nothing.
    if 0 < i ∧ missing (attempt level) then
      addLevels history feature attempt smoothFirst rest (i + 1) total
    else
      let likely ←
        subLikelihood history feature level (attempt level).asked
          (smoothFirst && i = 0)
      addLevels history feature attempt smoothFirst rest (i + 1)
        (total + weight * likely)

/-- `RiskModel.featureLikelihood`. -/
def featureLikelihood (history : History) (feature : Feature) (attempt : Attempt)
    (smoothFirst : Bool) : Option ℚ :=
  addLevels history feature attempt smoothFirst feature.levels 0 0

/-- The counts the user term is made of. -/
structure Terms where
  users : Nat
  signIns : Nat
  userSignIns : Nat
  deriving DecidableEq

/-- What `score` answers. -/
inductive Answer where
  | scored (score : ℚ) (factors : List (String × ℚ)) (terms : Terms) (unknown : List String)
  | unscored (why : String) (unknown : List String)
  deriving DecidableEq

/-- A feature's ratio, of the population's likelihood to the person's. -/
def ratioOf (attempt : Attempt) (user population : History)
    (feature : Feature) : Option ℚ := do
  let found ← featureLikelihood user feature attempt false
  let expected ← featureLikelihood population feature attempt true
  let own := if found = 0 then expected / 4 else found
  if 0 < own then divide expected own else some 0

/-- The loop of `score` over the features. -/
def addFactors (attempt : Attempt) (user population : History) :
    List Feature → ℚ → List (String × ℚ) → Option (ℚ × List (String × ℚ))
  | [], risk, factors => some (risk, factors)
  | feature :: rest, risk, factors => do
    let ratio ← ratioOf attempt user population feature
    addFactors attempt user population rest (risk * ratio)
      (factors ++ [(feature.name, ratio)])

/-- The user term. -/
def userTerm (users signIns userSignIns : Nat) : Option ℚ := do
  let userLoginLikelihood ← divide userSignIns signIns
  let attackLikelihood ← divide 1 users
  divide attackLikelihood userLoginLikelihood

/-- `RiskModel.score`. -/
def score (attempt : Attempt) (user population : History) : Option Answer :=
  let unknown := unknownLevels attempt
  if user.n = 0 then
    some (.unscored ("the first sign-in: there is no history " ++ "to compare it with") unknown)
  else if population.n = 0 ∨ population.users.getD 0 = 0 then
    some (.unscored "no population history yet" unknown)
  else do
    let users := population.users.getD 0
    let (risk, factors) ←
      addFactors attempt user population features 1 []
    let term ← userTerm users population.n user.n
    return .scored (risk * term) (factors ++ [("user", term)])
      { users, signIns := population.n, userSignIns := user.n } unknown

end IyaSts.RiskModel
