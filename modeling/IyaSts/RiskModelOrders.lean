import IyaSts.RiskModel
import Mathlib.Tactic.FieldSimp
import Mathlib.Tactic.Linarith
import Mathlib.Tactic.Positivity
import Mathlib.Tactic.Ring

namespace IyaSts.RiskModel

/-!
# Familiar sign-ins score no higher, but for one jump

A person's likelihood of a feature is a weighted share of their sign-ins, which
grows with every count.  The population's is positive, as its first level is
smoothed.  The ratio falls as the share grows, except where a share of nothing
is taken for a quarter of the population's likelihood.
-/

open List

theorem divide_eq {denominator : ℚ} (notZero : denominator ≠ 0) (numerator : ℚ) :
    divide numerator denominator = some (numerator / denominator) :=
  if_neg notZero

/-! ## One level -/

/-- Unsmoothed, a likelihood is the share of the sign-ins. -/
theorem likelihood_unsmoothed {n : Nat} (hasSignIn : n ≠ 0) (appearance : Nat) :
    likelihood appearance n 0 false = some ((appearance : ℚ) / n) := by
  have isPositive : (n : ℚ) ≠ 0 := Nat.cast_ne_zero.mpr hasSignIn
  unfold likelihood
  by_cases isSeen : 0 < appearance
  · simp [isSeen, divide_eq isPositive]
  · have notSeen : appearance = 0 := by omega
    simp [notSeen]

variable {history other : History} {attempt : Attempt} {levels : List (String × ℚ)}
    {i : Nat} {pair : String × ℚ} {level : String}

/-- A person's likelihood at a level is the share of their sign-ins there. -/
theorem subLikelihood_person (hasSignIn : history.n ≠ 0)
    (feature : Feature) (level value : String) :
    subLikelihood history feature level value false =
      some ((history.count level value : ℚ) / history.n) := by
  unfold subLikelihood
  by_cases isSeen : history.count level value = 0
  · simp [isSeen, likelihood]
  · have isPositive : (history.count level value : ℚ) ≠ 0 := Nat.cast_ne_zero.mpr isSeen
    simp [likelihood_unsmoothed isSeen, likelihood_unsmoothed hasSignIn, div_self isPositive]

/-- Smoothed, a likelihood is positive. -/
theorem likelihood_smoothed (appearance : Nat) {n unseen : Nat} (enough : appearance = 0 ∨ n ≠ 0)
    (oneUnseen : 0 < unseen) :
    ∃ likely, likelihood appearance n unseen true = some likely ∧ 0 < likely := by
  have unseenPositive : (0 : ℚ) < unseen := Nat.cast_pos.mpr oneUnseen
  have notNegative : (0 : ℚ) ≤ n := Nat.cast_nonneg n
  have together : (n : ℚ) + unseen ≠ 0 := by positivity
  unfold likelihood
  by_cases isSeen : 0 < appearance
  · have hasSignIn : 0 < n := by omega
    have signIns : (0 : ℚ) < n := Nat.cast_pos.mpr hasSignIn
    have seen : (0 : ℚ) < appearance := Nat.cast_pos.mpr isSeen
    refine ⟨appearance / n * (1 - unseen / (n + unseen)), by
        simp [isSeen, divide_eq signIns.ne', divide_eq together], ?_⟩
    have rest : (1 : ℚ) - unseen / (n + unseen) = n / (n + unseen) := by
      field_simp
      ring
    rw [rest]
    positivity
  · refine ⟨1 / (n + unseen), ?_, by positivity⟩
    simp [isSeen, divide_eq together]

/-- There is always one unseen value. -/
theorem unseen_pos (history : History) (feature : Feature) (level : String)
    (within : Option (String × String)) :
    0 < unseen history feature level within := by
  have grows (names : List String) (total : Nat) (isSome : 0 < total) :
      0 < names.foldl
        (fun total name => total + distinctIn history within name)
        total := by
    induction names generalizing total with
    | nil => exact isSome
    | cons name rest ih => exact ih _ (Nat.lt_of_lt_of_le isSome (Nat.le_add_right _ _))
  exact grows _ 1 Nat.one_pos

/-- The population's likelihood at its smoothed level is positive. -/
theorem subLikelihood_population (hasSignIn : history.n ≠ 0)
    (feature : Feature) (level value : String) :
    ∃ likely, subLikelihood history feature level value true = some likely ∧ 0 < likely := by
  have outerUnseen := unseen_pos history feature level none
  obtain ⟨outer, isOuter, outerPositive⟩ :=
    likelihood_smoothed (history.count level value) (.inr hasSignIn) outerUnseen
  have inner :
      ∃ likely,
        likelihood (history.count level value) (history.count level value)
            (if history.count level value = 0 then 1
              else unseen history feature level (some (level, value)))
            true = some likely ∧ 0 < likely := by
    apply likelihood_smoothed
    · exact (Nat.eq_zero_or_pos _).imp_right Nat.pos_iff_ne_zero.mp
    · split
      · exact Nat.one_pos
      · exact unseen_pos history feature level _
  obtain ⟨within, isWithin, withinPositive⟩ := inner
  refine ⟨within * outer, ?_, mul_pos withinPositive outerPositive⟩
  unfold subLikelihood
  simp [isWithin, isOuter]

/-! ## A feature's levels -/

/-- The levels that count: the first, and those whose lookup found a value. -/
def known (attempt : Attempt) :
    List (String × ℚ) → Nat → List (String × ℚ)
  | [], _ => []
  | (level, weight) :: rest, i =>
    if 0 < i ∧ missing (attempt level) then
      known attempt rest (i + 1)
    else
      (level, weight) :: known attempt rest (i + 1)

/-- A level's part of the weighted share. -/
def part (history : History) (attempt : Attempt) (pair : String × ℚ) : ℚ :=
  pair.2 * ((history.count pair.1 (attempt pair.1).asked : ℚ) / history.n)

/-- The person's weighted share of a feature. -/
def share (history : History) (attempt : Attempt) (feature : Feature) : ℚ :=
  ((known attempt feature.levels 0).map (part history attempt)).sum

theorem mem_of_mem_known (isKnown : pair ∈ known attempt levels i) : pair ∈ levels := by
  induction levels generalizing i with
  | nil => exact isKnown
  | cons first rest ih =>
    obtain ⟨level, weight⟩ := first
    unfold known at isKnown
    split at isKnown
    · exact mem_cons_of_mem _ (ih isKnown)
    · rcases mem_cons.mp isKnown with isFirst | inRest
      · exact mem_cons.mpr (.inl isFirst)
      · exact mem_cons_of_mem _ (ih inRest)

/-- Unsmoothed levels add their shares. -/
theorem addLevels_unsmoothed (hasSignIn : history.n ≠ 0)
    (feature : Feature) (attempt : Attempt) {smoothFirst : Bool} (levels : List (String × ℚ))
    (notSmoothed : (smoothFirst && decide (i = 0)) = false) (total : ℚ) :
    addLevels history feature attempt smoothFirst levels i total =
      some (total + ((known attempt levels i).map (part history attempt)).sum) := by
  induction levels generalizing i total with
  | nil => simp [addLevels, known]
  | cons first rest ih =>
    obtain ⟨level, weight⟩ := first
    have restNotSmoothed : (smoothFirst && decide (i + 1 = 0)) = false := by simp
    unfold addLevels known
    split
    · exact ih restNotSmoothed total
    · rw [notSmoothed, subLikelihood_person hasSignIn]
      simp only [Option.bind_eq_bind, Option.bind_some, ih restNotSmoothed,
        map_cons, sum_cons, part, add_assoc]

/-- A person's likelihood of a feature is their weighted share of it. -/
theorem featureLikelihood_person (hasSignIn : history.n ≠ 0)
    (feature : Feature) (attempt : Attempt) :
    featureLikelihood history feature attempt false = some (share history attempt feature) := by
  rw [featureLikelihood, addLevels_unsmoothed hasSignIn _ _ _ rfl, zero_add]
  rfl

/-- A feature with a first level whose weights are all positive. -/
structure Weighted (feature : Feature) : Prop where
  hasFirst : feature.levels ≠ []
  positive : ∀ pair ∈ feature.levels, 0 < pair.2

theorem weighted_of_mem {feature : Feature} (isFeature : feature ∈ features) :
    Weighted feature := by
  simp only [features, mem_cons, not_mem_nil, or_false] at isFeature
  rcases isFeature with rfl | rfl
  · exact ⟨by simp [ip], by simp [ip]⟩
  · refine ⟨by simp [ua], ?_⟩
    simp only [ua, forall_mem_cons]
    norm_num

theorem ip_mem : ip ∈ features := by simp [features]

theorem ua_mem : ua ∈ features := by simp [features]

theorem ip_weighted : Weighted ip := weighted_of_mem ip_mem

theorem ua_weighted : Weighted ua := weighted_of_mem ua_mem

theorem part_nonneg (isPositive : 0 < pair.2) : 0 ≤ part history attempt pair := by
  unfold part
  positivity

theorem parts_nonneg {feature : Feature} (isWeighted : Weighted feature)
    (history : History) (attempt : Attempt) (areLevels : ∀ pair ∈ levels, pair ∈ feature.levels) :
    0 ≤ (levels.map (part history attempt)).sum := by
  apply sum_nonneg
  intro value isPart
  obtain ⟨pair, isLevel, rfl⟩ := mem_map.mp isPart
  exact part_nonneg (isWeighted.positive pair (areLevels pair isLevel))

theorem share_nonneg {feature : Feature} (isWeighted : Weighted feature)
    (history : History) (attempt : Attempt) :
    0 ≤ share history attempt feature :=
  parts_nonneg isWeighted history attempt fun _ isKnown => mem_of_mem_known isKnown

/-- The population's likelihood of a feature is positive. -/
theorem featureLikelihood_population (hasSignIn : history.n ≠ 0)
    {feature : Feature} (isWeighted : Weighted feature) (attempt : Attempt) :
    ∃ expected, featureLikelihood history feature attempt true = some expected ∧ 0 < expected := by
  obtain ⟨⟨level, weight⟩, rest, isLevels⟩ := exists_cons_of_ne_nil isWeighted.hasFirst
  obtain ⟨likely, isLikely, likelyPositive⟩ :=
    subLikelihood_population hasSignIn feature level (attempt level).asked
  have weightPositive : 0 < weight := isWeighted.positive (level, weight) (by rw [isLevels]; simp)
  have restNonneg :=
    parts_nonneg isWeighted history attempt (fun pair (isKnown : pair ∈ known attempt rest 1) => by
        rw [isLevels]
        exact mem_cons_of_mem _ (mem_of_mem_known isKnown))
  refine ⟨weight * likely + ((known attempt rest 1).map (part history attempt)).sum, ?_, ?_⟩
  · rw [featureLikelihood, isLevels, addLevels, if_neg (by simp)]
    simp only [decide_true, Bool.and_true, isLikely, Option.bind_eq_bind,
      Option.bind_some, zero_add]
    exact addLevels_unsmoothed hasSignIn feature attempt rest rfl _
  · have := mul_pos weightPositive likelyPositive
    linarith

/-- A share grows with the counts. -/
theorem share_mono {first second : History} (sameSize : first.n = second.n)
    {feature : Feature} (isWeighted : Weighted feature)
    (oftener :
      ∀ pair ∈ feature.levels,
        first.count pair.1 (attempt pair.1).asked ≤ second.count pair.1 (attempt pair.1).asked) :
    share first attempt feature ≤ share second attempt feature := by
  apply sum_le_sum
  intro pair isKnown
  have isLevel := mem_of_mem_known isKnown
  have weightPositive := isWeighted.positive pair isLevel
  have seen : (first.count pair.1 (attempt pair.1).asked : ℚ) ≤
      second.count pair.1 (attempt pair.1).asked :=
    Nat.cast_le.mpr (oftener pair isLevel)
  unfold part
  rw [sameSize]
  gcongr

/-! ## A feature's ratio -/

/-- The population's likelihood of a feature. -/
def expected (population : History) (attempt : Attempt) (feature : Feature) : ℚ :=
  (featureLikelihood population feature attempt true).getD 0

/-- A feature's ratio: four where the person shares nothing with it. -/
def ratio (attempt : Attempt) (user population : History) (feature : Feature) : ℚ :=
  if share user attempt feature = 0 then
    4
  else
    expected population attempt feature / share user attempt feature

section Ratios

variable
    {user population : History}
    {feature : Feature}

theorem featureLikelihood_eq_expected (attempt : Attempt) (hasSignIn : population.n ≠ 0)
    (isWeighted : Weighted feature) :
    featureLikelihood population feature attempt true =
        some (expected population attempt feature) ∧
      0 < expected population attempt feature := by
  obtain ⟨likely, isLikely, isPositive⟩ := featureLikelihood_population hasSignIn isWeighted attempt
  unfold expected
  rw [isLikely]
  exact ⟨rfl, isPositive⟩

theorem ratioOf_eq (attempt : Attempt) (hasSignIn : user.n ≠ 0) (hasSignIns : population.n ≠ 0)
    (isWeighted : Weighted feature) :
    ratioOf attempt user population feature = some (ratio attempt user population feature) := by
  obtain ⟨isExpected, isPositive⟩ := featureLikelihood_eq_expected attempt hasSignIns isWeighted
  have notNegative := share_nonneg isWeighted user attempt
  unfold ratioOf ratio
  rw [featureLikelihood_person hasSignIn, isExpected]
  simp only [Option.bind_eq_bind, Option.bind_some]
  by_cases isStrange : share user attempt feature = 0
  · have quarter : 0 < expected population attempt feature / 4 := by
      positivity
    rw [if_pos isStrange, if_pos isStrange, if_pos quarter, divide_eq quarter.ne']
    congr 1
    field_simp
  · have sharePositive : 0 < share user attempt feature :=
      lt_of_le_of_ne notNegative (Ne.symm isStrange)
    rw [if_neg isStrange, if_neg isStrange, if_pos sharePositive, divide_eq sharePositive.ne']

theorem ratio_pos (attempt : Attempt) (user : History) (hasSignIns : population.n ≠ 0)
    (isWeighted : Weighted feature) :
    0 < ratio attempt user population feature := by
  have isPositive := (featureLikelihood_eq_expected attempt hasSignIns isWeighted).2
  have notNegative := share_nonneg isWeighted user attempt
  unfold ratio
  split
  · norm_num
  · rename_i isShared
    exact div_pos isPositive (lt_of_le_of_ne notNegative (Ne.symm isShared))

end Ratios

/--
The jump: the first person shares nothing with the feature, and the second
something whose weighted share is under a quarter of the population's
likelihood.
-/
def Jumps (attempt : Attempt) (first second population : History) (feature : Feature) : Prop :=
  share first attempt feature = 0 ∧ share second attempt feature ≠ 0 ∧
    4 * share second attempt feature < expected population attempt feature

/-- The second person's history has the attempt's values at least as often. -/
def Familiar (attempt : Attempt) (first second : History) : Prop :=
  ∀ feature ∈ features, ∀ pair ∈ feature.levels,
    first.count pair.1 (attempt pair.1).asked ≤ second.count pair.1 (attempt pair.1).asked

/-- A ratio falls with familiarity exactly where nothing jumps. -/
theorem ratio_le_iff {first second population : History} (sameSize : first.n = second.n)
    (hasSignIns : population.n ≠ 0) (oftener : Familiar attempt first second) {feature : Feature}
    (isFeature : feature ∈ features) :
    ratio attempt second population feature ≤
        ratio attempt first population feature ↔
      ¬Jumps attempt first second population feature := by
  have isWeighted := weighted_of_mem isFeature
  have grows := share_mono sameSize isWeighted (oftener feature isFeature)
  have notNegative := share_nonneg isWeighted first attempt
  have isPositive := (featureLikelihood_eq_expected attempt hasSignIns isWeighted).2
  unfold ratio Jumps
  by_cases isStrange : share first attempt feature = 0
  · by_cases stillStrange : share second attempt feature = 0
    · simp [isStrange, stillStrange]
    · have sharePositive : 0 < share second attempt feature :=
        lt_of_le_of_ne (notNegative.trans grows) (Ne.symm stillStrange)
      rw [if_pos isStrange, if_neg stillStrange, div_le_iff₀ sharePositive]
      simp [isStrange, stillStrange]
  · have firstPositive : 0 < share first attempt feature :=
      lt_of_le_of_ne notNegative (Ne.symm isStrange)
    have secondPositive := lt_of_lt_of_le firstPositive grows
    rw [if_neg isStrange, if_neg secondPositive.ne']
    simp only [isStrange, false_and, not_false_eq_true, iff_true]
    exact div_le_div_of_nonneg_left isPositive.le firstPositive grows

/-! ## The score -/

/-- The user term of the counts. -/
def term (users signIns userSignIns : Nat) : ℚ := 1 / users / (userSignIns / signIns)

section Scores

variable
    {user population : History}
    {users : Nat}

/-- With sign-ins and users there is a score, and its factors multiply to it. -/
theorem score_eq (attempt : Attempt) (hasSignIn : user.n ≠ 0) (hasSignIns : population.n ≠ 0)
    (hasUsers : population.users = some users ∧ users ≠ 0) :
    score attempt user population =
      some
        (.scored
          (ratio attempt user population ip *
              ratio attempt user population ua *
            term users population.n user.n)
          [("ip", ratio attempt user population ip),
            ("ua", ratio attempt user population ua),
            ("user", term users population.n user.n)]
          { users, signIns := population.n, userSignIns := user.n }
          (unknownLevels attempt)) := by
  have signIn : (user.n : ℚ) ≠ 0 := Nat.cast_ne_zero.mpr hasSignIn
  have signIns : (population.n : ℚ) ≠ 0 := Nat.cast_ne_zero.mpr hasSignIns
  have someUsers : (users : ℚ) ≠ 0 := Nat.cast_ne_zero.mpr hasUsers.2
  have isTerm : userTerm users population.n user.n = some (term users population.n user.n) := by
    unfold userTerm term
    rw [divide_eq signIns, divide_eq someUsers]
    simp only [Option.bind_eq_bind, Option.bind_some]
    exact divide_eq (div_ne_zero signIn signIns) _
  have ipRatio := ratioOf_eq attempt hasSignIn hasSignIns ip_weighted
  have uaRatio := ratioOf_eq attempt hasSignIn hasSignIns ua_weighted
  have isScored : ¬(population.n = 0 ∨ population.users.getD 0 = 0) := by
    rw [hasUsers.1]
    exact not_or.mpr ⟨hasSignIns, hasUsers.2⟩
  unfold score
  rw [if_neg hasSignIn, if_neg isScored]
  simp only [hasUsers.1, Option.getD_some, features, addFactors, ipRatio,
    uaRatio, isTerm, Option.bind_eq_bind, Option.bind_some, one_mul,
    nil_append, cons_append, Option.pure_def]
  rfl

theorem term_pos (hasUsers : users ≠ 0) {signIns userSignIns : Nat} (hasSignIns : signIns ≠ 0)
    (hasSignIn : userSignIns ≠ 0) :
    0 < term users signIns userSignIns := by
  have := Nat.pos_of_ne_zero hasUsers
  have := Nat.pos_of_ne_zero hasSignIns
  have := Nat.pos_of_ne_zero hasSignIn
  unfold term
  positivity

end Scores

/-! ## Levels whose lookup found nothing -/

/-- Histories that differ at one level only, and only in their counts. -/
structure AlikeBut (level : String) (history other : History) : Prop where
  sameSize : history.n = other.n
  sameUsers : history.users = other.users
  sameCounts : ∀ name, name ≠ level → ∀ value, history.count name value = other.count name value
  sameDistinct : history.distinct = other.distinct
  sameWithin : history.distinctWithin = other.distinctWithin

/-- A level below a feature's first, and not its first. -/
theorem ne_first_of_unknown (isUnknown : level ∈ unknownLevels attempt) :
    missing (attempt level) = true ∧ level ≠ "ip" ∧ level ≠ "ua" := by
  obtain ⟨feature, isFeature, isMissing⟩ := mem_flatMap.mp isUnknown
  obtain ⟨pair, isLevel, rfl⟩ := mem_map.mp isMissing
  obtain ⟨inTail, isMissing⟩ := mem_filter.mp isLevel
  refine ⟨isMissing, ?_⟩
  simp only [features, mem_cons, not_mem_nil, or_false] at isFeature
  rcases isFeature with rfl | rfl
  · simp only [ip, tail_cons, mem_cons, not_mem_nil, or_false] at inTail
    rcases inTail with rfl | rfl <;> decide
  · simp only [ua, tail_cons, mem_cons, not_mem_nil, or_false] at inTail
    rcases inTail with rfl | rfl | rfl <;> decide

/-- A missing level is not asked about. -/
theorem addLevels_alike (areAlike : AlikeBut level history other)
    (isMissing : missing (attempt level) = true)
    (feature : Feature) (smoothFirst : Bool) (levels : List (String × ℚ)) (i : Nat)
    (notFirst : i = 0 → ∀ pair, levels.head? = some pair → pair.1 ≠ level) (total : ℚ) :
    addLevels history feature attempt smoothFirst levels i total =
      addLevels other feature attempt smoothFirst levels i total := by
  induction levels generalizing i total with
  | nil => rfl
  | cons first rest ih =>
    obtain ⟨name, weight⟩ := first
    have continues := fun total => ih (i + 1) (by omega) total
    unfold addLevels
    split
    · exact continues total
    · rename_i isAsked
      have isOther : name ≠ level := by
        rcases Nat.eq_zero_or_pos i with isFirst | isLater
        · exact notFirst isFirst (name, weight) rfl
        · rintro rfl
          exact isAsked ⟨isLater, isMissing⟩
      have sameLikelihood :
          subLikelihood history feature name (attempt name).asked
              (smoothFirst && decide (i = 0)) =
            subLikelihood other feature name (attempt name).asked
              (smoothFirst && decide (i = 0)) := by
        unfold subLikelihood unseen distinctIn
        rw [areAlike.sameCounts name isOther, areAlike.sameSize,
          areAlike.sameDistinct, areAlike.sameWithin]
      rw [sameLikelihood]
      exact congrArg _ (funext fun likely => continues _)

theorem featureLikelihood_alike (areAlike : AlikeBut level history other)
    (isUnknown : level ∈ unknownLevels attempt) {feature : Feature} (isFeature : feature ∈ features)
    (smoothFirst : Bool) :
    featureLikelihood history feature attempt smoothFirst =
      featureLikelihood other feature attempt smoothFirst := by
  obtain ⟨isMissing, notIp, notUa⟩ := ne_first_of_unknown isUnknown
  apply addLevels_alike areAlike isMissing
  intro _ pair isFirst
  simp only [features, mem_cons, not_mem_nil, or_false] at isFeature
  rcases isFeature with rfl | rfl
  · simp only [ip, List.head?_cons, Option.some.injEq] at isFirst
    rw [← isFirst]
    exact notIp.symm
  · simp only [ua, List.head?_cons, Option.some.injEq] at isFirst
    rw [← isFirst]
    exact notUa.symm

/-- How often the histories hold a missing level's values changes nothing. -/
theorem score_alike {user otherUser population otherPopulation : History}
    (alikeUsers : AlikeBut level user otherUser)
    (alikePopulations : AlikeBut level population otherPopulation)
    (isUnknown : level ∈ unknownLevels attempt) :
    score attempt user population = score attempt otherUser otherPopulation := by
  have sameRatio :
      ∀ feature ∈ features,
        ratioOf attempt user population feature =
          ratioOf attempt otherUser otherPopulation feature := by
    intro feature isFeature
    unfold ratioOf
    rw [featureLikelihood_alike alikeUsers isUnknown isFeature,
      featureLikelihood_alike alikePopulations isUnknown isFeature]
  unfold score
  simp only [features, addFactors, sameRatio ip (by simp [features]),
    sameRatio ua (by simp [features]), alikeUsers.sameSize,
    alikePopulations.sameSize, alikePopulations.sameUsers]

/-! ## Familiarity -/

/-- Histories that can be scored: sign-ins on both sides, and users. -/
structure Scorable (user population : History) : Prop where
  hasSignIn : user.n ≠ 0
  hasSignIns : population.n ≠ 0
  hasUsers : population.users.getD 0 ≠ 0

/-- The users of a population that can be scored against. -/
theorem Scorable.users {user population : History} (areScorable : Scorable user population) :
    ∃ users, population.users = some users ∧ users ≠ 0 := by
  have hasUsers := areScorable.hasUsers
  cases isUsers : population.users with
  | none => exact absurd (by rw [isUsers]; rfl) hasUsers
  | some users =>
    rw [isUsers] at hasUsers
    exact ⟨users, rfl, hasUsers⟩

/--
Where nothing jumps, a more familiar sign-in scores no higher; each factor
falls exactly where its feature does not jump.  A score is positive and the
product of its factors, and how often a missing level's values were seen is
nothing to it.
-/
theorem score_falls_with_familiarity :
    (∀ attempt first second population,
      Scorable first population →
      first.n = second.n →
      Familiar attempt first second →
      ∃ risk factors terms unknown risk' factors' terms' unknown',
        score attempt first population =
            some (.scored risk factors terms unknown) ∧
          score attempt second population = some (.scored risk' factors' terms' unknown') ∧
          (∀ feature ∈ features,
            ∃ factor factor',
              factors.lookup feature.name = some factor ∧
                factors'.lookup feature.name = some factor' ∧
                (factor' ≤ factor ↔ ¬Jumps attempt first second population feature)) ∧
          ((∀ feature ∈ features, ¬Jumps attempt first second population feature) → risk' ≤ risk)) ∧
      (∀ attempt user population,
        Scorable user population →
        ∃ risk factors terms unknown,
          score attempt user population =
              some (.scored risk factors terms unknown) ∧
            0 < risk ∧ (factors.map Prod.snd).prod = risk) ∧
      ∀ attempt level user otherUser population otherPopulation,
        level ∈ unknownLevels attempt →
        AlikeBut level user otherUser →
        AlikeBut level population otherPopulation →
        score attempt user population = score attempt otherUser otherPopulation := by
  refine ⟨?_, ?_, ?_⟩
  · intro attempt first second population areScorable sameSize oftener
    obtain ⟨users, hasUsers⟩ := areScorable.users
    have hasSignIns := areScorable.hasSignIns
    have secondSignIn : second.n ≠ 0 := by
      rw [← sameSize]
      exact areScorable.hasSignIn
    have firstScore := score_eq attempt areScorable.hasSignIn hasSignIns hasUsers
    have secondScore := score_eq attempt secondSignIn hasSignIns hasUsers
    have ipFalls := ratio_le_iff sameSize hasSignIns oftener ip_mem
    have uaFalls := ratio_le_iff sameSize hasSignIns oftener ua_mem
    refine ⟨_, _, _, _, _, _, _, _, firstScore, secondScore, ?_, ?_⟩
    · simp only [features, forall_mem_cons]
      exact ⟨⟨_, _, rfl, rfl, ipFalls⟩, ⟨_, _, rfl, rfl, uaFalls⟩, forall_mem_nil _⟩
    · intro noJump
      have termPositive := term_pos hasUsers.2 hasSignIns areScorable.hasSignIn
      have uaPositive := ratio_pos attempt second hasSignIns ua_weighted
      have ipPositive := ratio_pos attempt first hasSignIns ip_weighted
      rw [← sameSize]
      apply mul_le_mul_of_nonneg_right _ termPositive.le
      exact
        mul_le_mul (ipFalls.mpr (noJump ip ip_mem))
          (uaFalls.mpr (noJump ua ua_mem)) uaPositive.le
          ipPositive.le
  · intro attempt user population areScorable
    obtain ⟨users, hasUsers⟩ := areScorable.users
    have hasSignIns := areScorable.hasSignIns
    refine ⟨_, _, _, _, score_eq attempt areScorable.hasSignIn hasSignIns hasUsers, ?_, ?_⟩
    · have ipPositive := ratio_pos attempt user hasSignIns ip_weighted
      have uaPositive := ratio_pos attempt user hasSignIns ua_weighted
      exact
        mul_pos (mul_pos ipPositive uaPositive)
          (term_pos hasUsers.2 hasSignIns areScorable.hasSignIn)
    · simp only [map_cons, map_nil, prod_cons, prod_nil, mul_one, mul_assoc]
  · intro attempt level user otherUser population otherPopulation isUnknown
      alikeUsers alikePopulations
    exact score_alike alikeUsers alikePopulations isUnknown

/-- The score that is answered. -/
def Answer.risk : Answer → Option ℚ
  | .scored risk _ _ _ => some risk
  | .unscored _ _ => none

/-- A sign-in from a country, with nothing else known of it. -/
def sampleAttempt : Attempt
  | "ip" => .text "198.51.100.7"
  | "country" => .text "XX"
  | "ua" => .text ""
  | _ => .undefined

/-- A hundred sign-ins, so many of them from the country. -/
def samplePerson (fromCountry : Nat) : History where
  n := 100
  users := none
  count := fun level value => if level = "country" ∧ value = "XX" then fromCountry else 0
  distinct := fun _ => 0
  distinctWithin := fun _ _ _ => 0

/-- Ten people, half of whose sign-ins are from the country. -/
def samplePopulation (networks : Nat) : History where
  n := 1000
  users := some 10
  count := fun level value => if level = "country" ∧ value = "XX" then 500 else 0
  distinct := fun level => if level = "asn" then networks else 0
  distinctWithin := fun _ _ _ => 0

/-- The claims of the theorem about the samples, whose network is unknown. -/
theorem samples_score_with_familiarity :
    (∃ risk factors terms unknown risk' factors' terms' unknown',
      score sampleAttempt (samplePerson 1) (samplePopulation 0) =
          some (.scored risk factors terms unknown) ∧
        score sampleAttempt (samplePerson 2) (samplePopulation 0) =
          some (.scored risk' factors' terms' unknown') ∧
        (∀ feature ∈ features,
          ∃ factor factor',
            factors.lookup feature.name = some factor ∧
              factors'.lookup feature.name = some factor' ∧
              (factor' ≤ factor ↔
                ¬Jumps sampleAttempt (samplePerson 1) (samplePerson 2)
                  (samplePopulation 0) feature)) ∧
        ((∀ feature ∈ features,
            ¬Jumps sampleAttempt (samplePerson 1) (samplePerson 2) (samplePopulation 0) feature) →
          risk' ≤ risk)) ∧
      (∃ risk factors terms unknown,
        score sampleAttempt (samplePerson 1) (samplePopulation 0) =
            some (.scored risk factors terms unknown) ∧
          0 < risk ∧ (factors.map Prod.snd).prod = risk) ∧
      score sampleAttempt (samplePerson 1) (samplePopulation 0) =
        score sampleAttempt (samplePerson 1) (samplePopulation 0) := by
  have areScorable : Scorable (samplePerson 1) (samplePopulation 0) :=
    ⟨by decide, by decide, by decide⟩
  have oftener : Familiar sampleAttempt (samplePerson 1) (samplePerson 2) := by
    intro feature _ pair _
    simp only [samplePerson]
    split <;> omega
  exact
    ⟨score_falls_with_familiarity.1 _ _ _ _ areScorable rfl oftener,
      score_falls_with_familiarity.2.1 _ _ _ areScorable,
      score_falls_with_familiarity.2.2 sampleAttempt "asn" _ _ _ _
        (by decide) ⟨rfl, rfl, fun _ _ _ => rfl, rfl, rfl⟩
        ⟨rfl, rfl, fun _ _ _ => rfl, rfl, rfl⟩⟩

/--
Somebody who never signed in from the country scores lower than somebody who
did once; and the networks known of the population change a score whose own
network is missing.
-/
theorem stranger_scores_lower :
    Familiar sampleAttempt (samplePerson 0) (samplePerson 1) ∧
      (∃ low high,
        (score sampleAttempt (samplePerson 0) (samplePopulation 0)).bind
            Answer.risk = some low ∧
          (score sampleAttempt (samplePerson 1) (samplePopulation 0)).bind Answer.risk = some high ∧
          low < high) ∧
      "asn" ∈ unknownLevels sampleAttempt ∧
      score sampleAttempt (samplePerson 1) (samplePopulation 0) ≠
        score sampleAttempt (samplePerson 1) (samplePopulation 1) := by
  refine ⟨?_, ?_, by decide, by decide +kernel⟩
  · intro feature _ pair _
    simp only [samplePerson]
    split <;> omega
  · exact
      ⟨16, 202600 / 1001, by decide +kernel, by decide +kernel,
        by norm_num⟩

end IyaSts.RiskModel
