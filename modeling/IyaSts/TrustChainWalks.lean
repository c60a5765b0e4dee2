import IyaSts.TrustChain

namespace IyaSts.TrustChain

/-!
# What a walk finds

What a walk remembers is what it would be answered anew, until its budget is spent.  So
a walk that spends less finds the chains of the simple paths of hints, whatever the
branches share, and no walk asks for a statement twice.
-/

variable {Keys : Type} (env : Surroundings Keys) (begun : Walk Keys)

/-! ## Paths of hints -/

/-- The surroundings with a budget for one statement. -/
def onlyOne : Surroundings Keys :=
  { env with limits := { env.limits with maxFetches := 1 } }

/-- What the walk that has only begun would be answered about an entity. -/
def configuration (entityId : String) : Except Refusal (Statement Keys) :=
  (configurationOf (onlyOne env) entityId begun).1

/-- What anybody would be answered who asks a superior about an entity. -/
def statement (superior : Claims Keys) (sub : String) : Except Refusal (Statement Keys) :=
  (subordinateStatementOf (onlyOne env) superior sub {}).1

/-- The chains of the paths of hints, none of which comes back to an entity it has been
at, up to the first anchor met. -/
inductive Climbs (anchors : List String) : List String → String → List String → Prop where
  | anchor {path : List String} {entityId : String} {ec : Statement Keys}
      (isEc : configuration env begun entityId = .ok ec) (isAnchor : entityId ∈ anchors) :
      Climbs anchors path entityId [ec.jwt]
  | up {path : List String} {entityId hint : String} {ec superior vouched : Statement Keys}
      {chain : List String} (isEc : configuration env begun entityId = .ok ec)
      (notAnchor : entityId ∉ anchors) (inDepth : path.length + 1 < env.limits.maxDepth)
      (isHint : hint ∈ ec.claims.authorityHints.take env.limits.maxHints)
      (noLoop : ¬(hint ∈ path ∨ hint = entityId))
      (isSuperior : configuration env begun hint = .ok superior)
      (isVouched : statement env superior.claims entityId = .ok vouched)
      (climbs : Climbs anchors (path ++ [entityId]) hint chain) :
      Climbs anchors path entityId (extend ec vouched chain)

/-- A walk may begin with configurations it was handed.  An entity's name has no
space. -/
structure Begins : Prop where
  noSpace : ∀ id, env.isEntityId id = true → ' ' ∉ id.toList
  handed : ∀ key got, begun.seen.lookup key = some got → ∃ id ec, key = configurationKey id ∧
    got = .ok ec ∧ ec.claims.iss = id ∧ env.isEntityId id = true
  fetches : begun.fetches = 0

variable {env} {begun}

theorem configuration_ok (begins : Begins env begun) {id : String} {ec : Statement Keys}
    (isEc : configuration env begun id = .ok ec) : ec.claims.iss = id ∧ ' ' ∉ id.toList := by
  simp only [configuration, configurationOf] at isEc
  split at isEc
  · rename_i got isHanded
    obtain ⟨named, one, sameKey, isOne, sameIss, isId⟩ := begins.handed _ _ isHanded
    obtain rfl : id = named := (String.append_right_inj _).mp sameKey
    obtain rfl := Except.ok.inj (isEc.symm.trans isOne)
    exact ⟨sameIss, begins.noSpace _ isId⟩
  · split at isEc
    · cases isEc
    · rename_i isId
      refine ⟨?_, begins.noSpace id (eq_true_of_ne_false isId)⟩
      simp only [Walk.remember, obtain, onlyOne, begins.fetches, Nat.lt_irrefl, if_false] at isEc
      cases isJwt : retrieve (onlyOne env) (env.configurationUrlOf id)
          (fun mine => some mine.configuration) id with
      | error refusal =>
        have isEc := isJwt ▸ isEc
        cases isEc
      | ok jwt =>
        have isEc : readConfiguration env id jwt = .ok ec := by
          have isEc := isJwt ▸ isEc
          exact isEc
        simp only [readConfiguration] at isEc
        split at isEc
        · cases isEc
        · split at isEc
          · cases isEc
          · split at isEc
            · cases isEc
            · rename_i claims _ isOwn _ _
              obtain rfl := Except.ok.inj isEc
              exact Decidable.not_not.mp fun other => isOwn (.inl other)

/-- A statement's key tells who made it and about whom, where its issuer has no space. -/
theorem statementKey_inj {iss iss' sub sub' : String} (noSpace : ' ' ∉ iss.toList)
    (noSpace' : ' ' ∉ iss'.toList) (same : statementKey iss sub = statementKey iss' sub') :
    iss = iss' ∧ sub = sub' := by
  have upTo (text rest : List Char) (none : ' ' ∉ text) :
      (text ++ ' ' :: rest).takeWhile (· != ' ') = text := by
    rw [List.takeWhile_append_of_pos fun c (member : c ∈ text) => bne_iff_ne.mpr
        fun isSpace : c = ' ' => none (isSpace ▸ member),
      List.takeWhile_cons_of_neg (by decide), List.append_nil]
  have chars := congrArg String.toList same
  simp only [statementKey, String.toList_append, List.append_assoc, List.append_cancel_left_eq]
    at chars
  have sameIss : iss = iss' := String.toList_inj.mp
    ((upTo _ _ noSpace).symm.trans ((congrArg _ chars).trans (upTo _ _ noSpace')))
  subst sameIss
  exact ⟨rfl, String.toList_inj.mp (List.append_cancel_left (List.append_cancel_left chars))⟩

/-! ## What a walk remembers -/

/-- An entry of the memory that says what would be answered anew. -/
def Named (env : Surroundings Keys) (begun : Walk Keys) (key : String)
    (got : Except Refusal (Statement Keys)) : Prop :=
  (∃ id, key = configurationKey id ∧ got = configuration env begun id) ∨
    ∃ id superior sub, configuration env begun id = .ok superior ∧
      key = statementKey superior.claims.iss sub ∧ got = statement env superior.claims sub

/-- What a walk remembers while its budget lasts: what it began with, and what would be
answered anew. -/
structure Remembers (env : Surroundings Keys) (begun walk : Walk Keys) : Prop where
  began : ∀ key got, begun.seen.lookup key = some got → walk.seen.lookup key = some got
  named : walk.exhausted = false → ∀ key got, walk.seen.lookup key = some got →
    Named env begun key got

variable {walk next : Walk Keys}

theorem Remembers.remember (remembers : Remembers env begun walk) {key : String}
    (isNew : walk.seen.lookup key = none) {got : Except Refusal (Statement Keys)}
    {asked : Walk Keys} (seen : asked.seen = walk.seen)
    (isNamed : asked.exhausted = false → walk.exhausted = false ∧ Named env begun key got) :
    Remembers env begun (asked.remember key got).2 where
  began other known isKnown := by
    have isOld := remembers.began other known isKnown
    have notKey : other ≠ key := by
      rintro rfl
      rw [isNew] at isOld
      cases isOld
    simpa only [Walk.remember, seen, List.lookup_cons, beq_eq_false_iff_ne.mpr notKey] using isOld
  named lasts other known isKnown := by
    simp only [Walk.remember, seen, List.lookup_cons] at isKnown
    split at isKnown
    · rename_i isKey
      obtain rfl := Option.some.inj isKnown
      exact beq_iff_eq.mp isKey ▸ (isNamed lasts).2
    · exact remembers.named (isNamed lasts).1 other known isKnown

/-- What is obtained while the budget lasts does not depend on the budget. -/
theorem obtain_cases (env : Surroundings Keys) (key url : String)
    (fromLocal : LocalEntity → Option String) (owner : String) (walk : Walk Keys) :
    (obtain env key url fromLocal owner walk).2.seen = walk.seen ∧
      ((obtain env key url fromLocal owner walk).2.exhausted = false →
        walk.exhausted = false ∧ ∀ first : Walk Keys, first.fetches = 0 →
          (obtain env key url fromLocal owner walk).1 =
            (obtain (onlyOne env) key url fromLocal owner first).1) := by
  unfold obtain
  split
  · exact ⟨rfl, fun lasts => by cases lasts⟩
  · refine ⟨rfl, fun lasts => ⟨lasts, fun first isFirst => ?_⟩⟩
    rw [if_neg (by simp only [onlyOne, isFirst, Nat.lt_irrefl, not_false_eq_true])]
    rfl

theorem configurationOf_spec (begins : Begins env begun) (remembers : Remembers env begun walk)
    (entityId : String) {got : Except Refusal (Statement Keys)}
    (asked : configurationOf env entityId walk = (got, next)) :
    Remembers env begun next ∧
      (next.exhausted = false → walk.exhausted = false ∧ got = configuration env begun entityId) := by
  unfold configurationOf at asked
  cases isSeen : walk.seen.lookup (configurationKey entityId) with
  | some known =>
    rw [isSeen] at asked
    obtain ⟨rfl, rfl⟩ := Prod.mk.inj asked
    refine ⟨remembers, fun lasts => ⟨lasts, ?_⟩⟩
    rcases remembers.named lasts _ _ isSeen with ⟨id, same, isGot⟩ | ⟨_, _, _, _, same, _⟩
    · exact isGot.trans (congrArg _ ((String.append_right_inj _).mp same).symm)
    · have chars := congrArg String.toList same
      simp [configurationKey, statementKey] at chars
  | none =>
    have notHanded : begun.seen.lookup (configurationKey entityId) = none := by
      cases isHanded : begun.seen.lookup (configurationKey entityId) with
      | none => rfl
      | some known => cases isSeen.symm.trans (remembers.began _ _ isHanded)
    rw [isSeen] at asked
    have isAnew : ∃ after : Walk Keys, after.seen = walk.seen ∧
        next = (after.remember (configurationKey entityId) got).2 ∧
        (after.exhausted = false →
          walk.exhausted = false ∧ got = configuration env begun entityId) := by
      unfold configuration configurationOf
      rw [notHanded]
      by_cases notId : env.isEntityId entityId = false
      · simp only [if_pos notId] at asked
        obtain ⟨rfl, rfl⟩ := Prod.mk.inj asked
        rw [if_pos (show (onlyOne env).isEntityId entityId = false from notId)]
        exact ⟨walk, rfl, rfl, fun lasts => ⟨lasts, rfl⟩⟩
      · simp only [if_neg notId] at asked
        obtain ⟨rfl, rfl⟩ := Prod.mk.inj asked
        obtain ⟨seen, isSame⟩ := obtain_cases env (configurationKey entityId)
          (env.configurationUrlOf entityId) (fun mine => some mine.configuration) entityId walk
        rw [if_neg (show ¬(onlyOne env).isEntityId entityId = false from notId)]
        refine ⟨_, seen, rfl, fun lasts => ⟨(isSame lasts).1, ?_⟩⟩
        rw [(isSame lasts).2 begun begins.fetches]
        rfl
    obtain ⟨after, seen, rfl, isSame⟩ := isAnew
    exact ⟨remembers.remember isSeen seen fun lasts =>
      ⟨(isSame lasts).1, .inl ⟨entityId, rfl, (isSame lasts).2⟩⟩, isSame⟩

theorem subordinateStatementOf_spec (begins : Begins env begun)
    (remembers : Remembers env begun walk) {id : String} {superior : Statement Keys}
    (isSuperior : walk.exhausted = false → configuration env begun id = .ok superior) (sub : String)
    {got : Except Refusal (Statement Keys)}
    (asked : subordinateStatementOf env superior.claims sub walk = (got, next)) :
    Remembers env begun next ∧
      (next.exhausted = false →
        walk.exhausted = false ∧ got = statement env superior.claims sub) := by
  unfold subordinateStatementOf at asked
  cases isSeen : walk.seen.lookup (statementKey superior.claims.iss sub) with
  | some known =>
    rw [isSeen] at asked
    obtain ⟨rfl, rfl⟩ := Prod.mk.inj asked
    refine ⟨remembers, fun lasts => ⟨lasts, ?_⟩⟩
    rcases remembers.named lasts _ _ isSeen with ⟨_, same, _⟩ | ⟨one, other, about, isOther, same,
      isGot⟩
    · have chars := congrArg String.toList same
      simp [configurationKey, statementKey] at chars
    · have isSuperior := isSuperior lasts
      obtain ⟨rfl, noSpace⟩ := configuration_ok begins isSuperior
      obtain ⟨rfl, noSpace'⟩ := configuration_ok begins isOther
      obtain ⟨sameIss, rfl⟩ := statementKey_inj noSpace noSpace' same
      obtain rfl := Except.ok.inj ((sameIss ▸ isSuperior).symm.trans isOther)
      exact isGot
  | none =>
    rw [isSeen] at asked
    have isAnew : ∃ after : Walk Keys, after.seen = walk.seen ∧
        next = (after.remember (statementKey superior.claims.iss sub) got).2 ∧
        (after.exhausted = false →
          walk.exhausted = false ∧ got = statement env superior.claims sub) := by
      unfold statement subordinateStatementOf
      cases isEndpoint : superior.claims.fetchEndpoint with
      | none =>
        rw [isEndpoint] at asked
        obtain ⟨rfl, rfl⟩ := Prod.mk.inj asked
        exact ⟨walk, rfl, rfl, fun lasts => ⟨lasts, rfl⟩⟩
      | some endpoint =>
        simp only [isEndpoint, Walk.remember] at asked
        obtain ⟨rfl, rfl⟩ := Prod.mk.inj asked
        obtain ⟨seen, isSame⟩ := obtain_cases env (statementKey superior.claims.iss sub)
          (env.fetchUrlOf endpoint sub) (fun mine => mine.subordinateStatement sub)
          superior.claims.iss walk
        refine ⟨_, seen, rfl, fun lasts => ⟨(isSame lasts).1, ?_⟩⟩
        rw [(isSame lasts).2 {} rfl]
        rfl
    obtain ⟨after, seen, rfl, isSame⟩ := isAnew
    exact ⟨remembers.remember isSeen seen fun lasts =>
      ⟨(isSame lasts).1, .inr ⟨id, superior, sub, isSuperior (isSame lasts).1, rfl,
        (isSame lasts).2⟩⟩, isSame⟩

/-! ## What a walk finds -/

theorem Remembers.problem (remembers : Remembers env begun walk) (why : String) :
    Remembers env begun (walk.problem why) :=
  ⟨remembers.began, remembers.named⟩

/-- A walk that goes on remembers, and while its budget lasts it has found what is
meant. -/
def Finds (env : Surroundings Keys) (begun walk : Walk Keys) (meant : List String → Prop)
    (result : List (List String) × Walk Keys) : Prop :=
  Remembers env begun result.2 ∧ (result.2.exhausted = false →
    walk.exhausted = false ∧ ∀ chain, chain ∈ result.1 ↔ meant chain)

/-- A hint that is followed, and a chain that comes of it. -/
def Vouches (env : Surroundings Keys) (begun : Walk Keys) (entityId : String)
    (ec : Statement Keys) (path : List String) (above : String → List String → Prop)
    (hint : String) (chain : List String) : Prop :=
  ¬(hint ∈ path ∨ hint = entityId) ∧ ∃ superior vouched upper,
    configuration env begun hint = .ok superior ∧
      statement env superior.claims entityId = .ok vouched ∧ above hint upper ∧
        chain = extend ec vouched upper

theorem follow_spec (begins : Begins env begun) {entityId : String} {ec : Statement Keys}
    {path : List String} {up : String → Walk Keys → List (List String) × Walk Keys}
    {above : String → List String → Prop}
    (ups : ∀ hint walk, Remembers env begun walk →
      Finds env begun walk (above hint) (up hint walk))
    (hints : List String) (remembers : Remembers env begun walk) :
    Finds env begun walk (fun chain => ∃ hint ∈ hints,
      Vouches env begun entityId ec path above hint chain)
      (follow env entityId ec path up hints walk) := by
  induction hints generalizing walk with
  | nil =>
    refine ⟨remembers, fun lasts => ⟨lasts, fun chain => ⟨fun isFound => ?_, ?_⟩⟩⟩
    · cases isFound
    · rintro ⟨_, isHint, _⟩
      cases isHint
  | cons hint hints ih =>
    -- A hint of which nothing comes leaves what comes of the others.
    have passed {after : Walk Keys} (why : String) (kept : Remembers env begun after)
        (earlier : after.exhausted = false → walk.exhausted = false ∧
          ∀ chain, ¬Vouches env begun entityId ec path above hint chain) :
        Finds env begun walk (fun chain => ∃ one ∈ hint :: hints,
          Vouches env begun entityId ec path above one chain)
          (follow env entityId ec path up hints (after.problem why)) := by
      obtain ⟨remembers, finds⟩ := ih (kept.problem why)
      refine ⟨remembers, fun lasts => ⟨(earlier (finds lasts).1).1, fun chain => ?_⟩⟩
      refine ((finds lasts).2 chain).trans ?_
      show _ ↔ ∃ one ∈ hint :: hints, Vouches env begun entityId ec path above one chain
      rw [List.exists_mem_cons_iff]
      exact (or_iff_right ((earlier (finds lasts).1).2 chain)).symm
    unfold follow
    by_cases isLoop : hint ∈ path ∨ hint = entityId
    · rw [if_pos isLoop]
      exact passed _ remembers fun lasts => ⟨lasts, fun _ vouches => vouches.1 isLoop⟩
    rw [if_neg isLoop]
    rcases asked : configurationOf env hint walk with ⟨got, after⟩
    obtain ⟨kept, isConfiguration⟩ := configurationOf_spec begins remembers hint asked
    cases got with
    | error refusal =>
      refine passed _ kept fun lasts => ⟨(isConfiguration lasts).1, ?_⟩
      rintro _ ⟨_, superior, _, _, isSuperior, _⟩
      cases (isConfiguration lasts).2.trans isSuperior
    | ok superior =>
      dsimp only
      rcases askedAgain : subordinateStatementOf env superior.claims entityId after with
        ⟨got, next⟩
      have isSuperior (lasts : after.exhausted = false) := (isConfiguration lasts).2.symm
      obtain ⟨kept', isStatement⟩ :=
        subordinateStatementOf_spec begins kept isSuperior entityId askedAgain
      cases got with
      | error refusal =>
        refine passed _ kept' fun lasts => ⟨(isConfiguration (isStatement lasts).1).1, ?_⟩
        rintro _ ⟨_, other, _, _, isOther, isVouched, _⟩
        obtain rfl := Except.ok.inj ((isSuperior (isStatement lasts).1).symm.trans isOther)
        cases (isStatement lasts).2.trans isVouched
      | ok vouched =>
        obtain ⟨keptUp, finds⟩ := ups hint next kept'
        have here (lasts : (up hint next).2.exhausted = false) (chain : List String) :
            chain ∈ (up hint next).1.map (extend ec vouched) ↔
              Vouches env begun entityId ec path above hint chain := by
          have isVouched := (isStatement (finds lasts).1).2.symm
          have isSuperior := isSuperior (isStatement (finds lasts).1).1
          rw [List.mem_map]
          constructor
          · rintro ⟨upper, isUpper, rfl⟩
            exact ⟨isLoop, superior, vouched, upper, isSuperior, isVouched,
              ((finds lasts).2 upper).mp isUpper, rfl⟩
          · rintro ⟨_, other, otherVouched, upper, isOther, isOtherVouched, isAbove, rfl⟩
            obtain rfl := Except.ok.inj (isSuperior.symm.trans isOther)
            obtain rfl := Except.ok.inj (isVouched.symm.trans isOtherVouched)
            exact ⟨upper, ((finds lasts).2 upper).mpr isAbove, rfl⟩
        dsimp only
        split
        · rename_i isExhausted
          exact ⟨keptUp, fun lasts => by cases isExhausted.symm.trans lasts⟩
        · obtain ⟨keptOthers, findsOthers⟩ := ih keptUp
          refine ⟨keptOthers, fun lasts => ⟨?_, fun chain => ?_⟩⟩
          · exact (isConfiguration (isStatement (finds (findsOthers lasts).1).1).1).1
          · show _ ↔ ∃ one ∈ hint :: hints, Vouches env begun entityId ec path above one chain
            rw [List.mem_append, here (findsOthers lasts).1, (findsOthers lasts).2 chain,
              List.exists_mem_cons_iff]

/-- A walk up finds the chains of the paths of hints, while its budget lasts. -/
theorem walkUp_spec (begins : Begins env begun) (anchors : List String) (entityId : String)
    (path : List String) (remembers : Remembers env begun walk) :
    Finds env begun walk (Climbs env begun anchors path entityId)
      (walkUp env anchors entityId path walk) := by
  induction levels : env.limits.maxDepth - path.length using Nat.strongRecOn
    generalizing entityId path walk with
  | ind levels ih =>
    rw [walkUp]
    rcases asked : configurationOf env entityId walk with ⟨got, after⟩
    obtain ⟨kept, isConfiguration⟩ := configurationOf_spec begins remembers entityId asked
    have none {result : List (List String) × Walk Keys} (why : String)
        (isResult : result = ([], after.problem why))
        (nowhere : after.exhausted = false →
          ∀ chain, ¬Climbs env begun anchors path entityId chain) :
        Finds env begun walk (Climbs env begun anchors path entityId) result := by
      subst isResult
      refine ⟨kept.problem why, fun lasts => ⟨(isConfiguration lasts).1, fun chain => ?_⟩⟩
      exact ⟨fun isFound => absurd isFound List.not_mem_nil,
        fun climbs => absurd climbs (nowhere lasts chain)⟩
    cases got with
    | error refusal =>
      refine none _ rfl fun lasts chain climbs => ?_
      cases climbs with
      | anchor isEc _ => cases (isConfiguration lasts).2.trans isEc
      | up isEc => cases (isConfiguration lasts).2.trans isEc
    | ok ec =>
      dsimp only
      have isEc (lasts : after.exhausted = false) := (isConfiguration lasts).2.symm
      by_cases isAnchor : entityId ∈ anchors
      · rw [if_pos isAnchor]
        refine ⟨kept, fun lasts => ⟨(isConfiguration lasts).1, fun chain => ?_⟩⟩
        rw [List.mem_singleton]
        constructor
        · rintro rfl
          exact .anchor (isEc lasts) isAnchor
        · intro climbs
          cases climbs with
          | anchor isOther _ =>
            obtain rfl := Except.ok.inj ((isEc lasts).symm.trans isOther)
            rfl
          | up _ notAnchor => exact absurd isAnchor notAnchor
      rw [if_neg isAnchor]
      by_cases tooDeep : env.limits.maxDepth ≤ path.length + 1
      · rw [if_pos tooDeep]
        refine none _ rfl fun _ chain climbs => ?_
        cases climbs with
        | anchor _ isOther => exact isAnchor isOther
        | up _ _ inDepth => omega
      · rw [if_neg tooDeep]
        have follows (next : Walk Keys) (keptNext : Remembers env begun next)
            (same : next.exhausted = after.exhausted) :
            Finds env begun walk (Climbs env begun anchors path entityId)
              (follow env entityId ec path
                (fun hint walk => walkUp env anchors hint (path ++ [entityId]) walk)
                (ec.claims.authorityHints.take env.limits.maxHints) next) := by
          have ups (hint : String) (walk : Walk Keys) (remembers : Remembers env begun walk) :
              Finds env begun walk (Climbs env begun anchors (path ++ [entityId]) hint)
                (walkUp env anchors hint (path ++ [entityId]) walk) := by
            refine ih _ ?_ hint (path ++ [entityId]) remembers rfl
            rw [List.length_append, List.length_singleton]
            omega
          obtain ⟨keptAll, finds⟩ := follow_spec begins ups _ keptNext
          refine ⟨keptAll, fun lasts => ?_⟩
          have atFirst := same.symm.trans (finds lasts).1
          refine ⟨(isConfiguration atFirst).1, fun chain => ((finds lasts).2 chain).trans ?_⟩
          constructor
          · rintro ⟨hint, isHint, noLoop, superior, vouched, upper, isSuperior, isVouched, climbs,
              rfl⟩
            exact .up (isEc atFirst) isAnchor (by omega) isHint noLoop isSuperior isVouched climbs
          · intro climbs
            cases climbs with
            | anchor _ isOther => exact absurd isOther isAnchor
            | up isOther _ _ isHint noLoop isSuperior isVouched climbs =>
              obtain rfl := Except.ok.inj ((isEc atFirst).symm.trans isOther)
              exact ⟨_, isHint, noLoop, _, _, _, isSuperior, isVouched, climbs, rfl⟩
        split
        · exact follows _ (kept.problem _) rfl
        · exact follows _ kept rfl

/-! ## What a walk asks for -/

/-- What every question and every problem keeps, the loop over the hints keeps. -/
theorem follow_keeps {motive : Walk Keys → Prop}
    (problem : ∀ walk why, motive walk → motive (walk.problem why))
    (configured : ∀ id walk, motive walk → motive (configurationOf env id walk).2)
    (vouched : ∀ superior sub walk, motive walk →
      motive (subordinateStatementOf env superior sub walk).2)
    {entityId : String} {ec : Statement Keys} {path : List String}
    {up : String → Walk Keys → List (List String) × Walk Keys}
    (ups : ∀ hint walk, motive walk → motive (up hint walk).2) (hints : List String)
    (holds : motive walk) : motive (follow env entityId ec path up hints walk).2 := by
  induction hints generalizing walk with
  | nil => exact holds
  | cons hint hints ih =>
    unfold follow
    split
    · exact ih (problem _ _ holds)
    · have asked := configured hint walk holds
      split <;> rename_i isAsked <;> rw [isAsked] at asked
      · exact ih (problem _ _ asked)
      · rename_i superior _
        have askedAgain := vouched superior.claims entityId _ asked
        split <;> rename_i isAskedAgain <;> rw [isAskedAgain] at askedAgain
        · exact ih (problem _ _ askedAgain)
        · have above := ups hint _ askedAgain
          dsimp only
          split
          · exact above
          · exact ih above

/-- What every question and every problem keeps, a walk keeps. -/
theorem walkUp_keeps {motive : Walk Keys → Prop}
    (problem : ∀ walk why, motive walk → motive (walk.problem why))
    (configured : ∀ id walk, motive walk → motive (configurationOf env id walk).2)
    (vouched : ∀ superior sub walk, motive walk →
      motive (subordinateStatementOf env superior sub walk).2)
    (anchors : List String) (entityId : String) (path : List String) (holds : motive walk) :
    motive (walkUp env anchors entityId path walk).2 := by
  induction levels : env.limits.maxDepth - path.length using Nat.strongRecOn
    generalizing entityId path walk with
  | ind levels ih =>
    rw [walkUp]
    have asked := configured entityId walk holds
    split <;> rename_i isAsked <;> rw [isAsked] at asked
    · exact problem _ _ asked
    · split
      · exact asked
      · split
        · exact problem _ _ asked
        · refine follow_keeps problem configured vouched (fun hint walk holds => ih _ (by
            rw [List.length_append, List.length_singleton]
            omega) hint (path ++ [entityId]) holds rfl) _ ?_
          split
          · exact problem _ _ asked
          · exact asked

/-- A walk that has asked for no more than its budget, for nothing twice, and remembers
what it asked for. -/
structure Frugal (env : Surroundings Keys) (walk : Walk Keys) : Prop where
  within : walk.obtained.length ≤ env.limits.maxFetches
  counted : walk.obtained.length ≤ walk.fetches
  once : walk.obtained.Nodup
  remembered : ∀ key ∈ walk.obtained, walk.seen.lookup key ≠ none

theorem Frugal.remember (frugal : Frugal env walk) {key : String}
    {got : Except Refusal (Statement Keys)} : Frugal env (walk.remember key got).2 where
  within := frugal.within
  counted := frugal.counted
  once := frugal.once
  remembered other member := by
    simp only [Walk.remember, List.lookup_cons]
    split
    · exact Option.some_ne_none _
    · exact frugal.remembered other member

/-- A statement that is not remembered is asked for and then remembered. -/
theorem Frugal.obtain (frugal : Frugal env walk) {key : String}
    (isNew : walk.seen.lookup key = none) (url : String)
    (fromLocal : LocalEntity → Option String) (owner : String)
    (read : Except Refusal String → Except Refusal (Statement Keys)) :
    Frugal env (((obtain env key url fromLocal owner walk).2).remember key
      (read (obtain env key url fromLocal owner walk).1)).2 := by
  have counted := frugal.counted
  unfold TrustChain.obtain
  split
  · have spent : Frugal env { walk with fetches := walk.fetches + 1, exhausted := true } :=
      ⟨frugal.within, Nat.le_succ_of_le counted, frugal.once, frugal.remembered⟩
    exact spent.remember
  · refine ⟨?_, Nat.succ_le_succ counted, List.nodup_cons.mpr ⟨?_, frugal.once⟩, ?_⟩
    · show walk.obtained.length + 1 ≤ _
      omega
    · exact fun member => frugal.remembered key member isNew
    · intro other member
      simp only [Walk.remember, List.lookup_cons]
      split
      · exact Option.some_ne_none _
      · rename_i notKey
        rcases List.mem_cons.mp member with rfl | isOld
        · cases (beq_self_eq_true other).symm.trans notKey
        · exact frugal.remembered other isOld

theorem Frugal.walkUp (frugal : Frugal env walk) (anchors : List String) (entityId : String)
    (path : List String) : Frugal env (walkUp env anchors entityId path walk).2 := by
  refine walkUp_keeps (fun _ _ kept => ⟨kept.within, kept.counted, kept.once, kept.remembered⟩)
    (fun id walk kept => ?_) (fun superior sub walk kept => ?_) anchors entityId path frugal
  · unfold configurationOf
    split
    · exact kept
    · split
      · exact kept.remember
      · exact kept.obtain ‹_› _ _ _ (fun got => got.bind (readConfiguration env id))
  · unfold subordinateStatementOf
    split
    · exact kept
    · split
      · exact kept.remember
      · exact kept.obtain ‹_› _ _ _ (fun got => got.bind (readStatement env superior sub))

/-- Whatever the hints are, a walk ends, has asked for at most `maxFetches` statements,
and has asked for none of them twice. -/
theorem walk_stays_in_budget (env : Surroundings Keys) (anchors : List String)
    (entityId : String) (given : Option (Statement Keys)) :
    (walkUp env anchors entityId [] (start entityId given)).2.obtained.length ≤
        env.limits.maxFetches ∧
      (walkUp env anchors entityId [] (start entityId given)).2.obtained.Nodup := by
  have begins : Frugal env (start entityId given) := by
    cases given <;> exact ⟨Nat.zero_le _, Nat.le_refl _, List.nodup_nil, List.forall_mem_nil _⟩
  have frugal := begins.walkUp anchors entityId []
  exact ⟨frugal.within, frugal.once⟩

/-! ## What is chosen -/

theorem comesFirst_total (anchors : List String) (one other : Validated) :
    (comesFirst anchors one other || comesFirst anchors other one) = true := by
  simp only [comesFirst, Bool.or_eq_true, decide_eq_true_eq]
  omega

theorem comesFirst_trans (anchors : List String) (one other third : Validated)
    (first : comesFirst anchors one other = true)
    (second : comesFirst anchors other third = true) : comesFirst anchors one third = true := by
  simp only [comesFirst, decide_eq_true_eq] at first second ⊢
  omega

/-- A federation of one entity, which is its own anchor. -/
def oneEntity : Surroundings Unit where
  limits := ⟨1, 1, 1⟩
  isEntityId id := id = "https://a"
  configurationUrlOf id := id ++ "/.well-known/openid-federation"
  fetchUrlOf endpoint sub := endpoint ++ "?sub=" ++ sub
  localEntity _ := none
  fetch _ := .ok "ec"
  keysOf _ := ()
  verify _ _ := .ok ⟨"https://a", "https://a", (), [], none⟩
  validateClaims _ := none

end IyaSts.TrustChain
