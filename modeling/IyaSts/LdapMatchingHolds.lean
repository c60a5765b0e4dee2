import IyaSts.LdapMatching

namespace IyaSts.LdapMatching

/-!
# When a filter is matched as it is evaluated over lower-cased values

What a filter answers depends on lower-cased text alone.  It is what the filter
evaluates to over the lower-cased entry, but where a substring assertion holds
of a value only with a line break between two of its pieces.
-/

open TextPattern List

/-! ## Substring assertions -/

/-- `x ++ any1 ++ x ++ … ++ final`, for some texts `x`. -/
def FollowedBy (final : List Char) : List (List Char) → List Char → Prop
  | [], text => ∃ skipped, text = skipped ++ final
  | piece :: any, text =>
    ∃ skipped rest, text = skipped ++ (piece ++ rest) ∧ FollowedBy final any rest

/-- Such a text, of which each `x` is on one line if a piece comes after it. -/
def FollowedOnLine (final : List Char) : List (List Char) → List Char → Prop
  | [], text => final = [] ∨ ∃ skipped, text = skipped ++ final ∧ OneLine skipped
  | piece :: any, text =>
    ∃ skipped rest,
      text = skipped ++ (piece ++ rest) ∧ OneLine skipped ∧ FollowedOnLine final any rest

namespace Pieces

/-- The pieces between the first and the last, as characters. -/
def middle (pieces : Pieces) : List (List Char) := pieces.any.map String.toList

/-- A value is `initial ++ x ++ any1 ++ x ++ … ++ final`, for some texts `x`. -/
def Holds (pieces : Pieces) (value : String) : Prop :=
  ∃ rest,
    value.toList = pieces.initial.toList ++ rest ∧ FollowedBy pieces.final.toList pieces.middle rest

/-- Such a value, of which each `x` between two pieces is on one line. -/
def HoldsOnLine (pieces : Pieces) (value : String) : Prop :=
  if pieces.initial = "" then
    match pieces.middle with
    | [] => ∃ skipped, value.toList = skipped ++ pieces.final.toList
    | piece :: any =>
      ∃ skipped rest,
        value.toList = skipped ++ (piece ++ rest) ∧ FollowedOnLine pieces.final.toList any rest
  else
    ∃ rest,
      value.toList = pieces.initial.toList ++ rest ∧
        FollowedOnLine pieces.final.toList pieces.middle rest

end Pieces

variable {final : List Char} {any : List (List Char)} {pieces : Pieces}

variable {text : List Char} {value : String}

theorem FollowedOnLine.followedBy (onLine : FollowedOnLine final any text) :
    FollowedBy final any text := by
  induction any generalizing text with
  | nil =>
    rcases onLine with rfl | ⟨skipped, isText, _⟩
    · exact ⟨text, (List.append_nil text).symm⟩
    · exact ⟨skipped, isText⟩
  | cons piece any ih =>
    obtain ⟨skipped, rest, isText, _, isRest⟩ := onLine
    exact ⟨skipped, rest, isText, ih isRest⟩

theorem Pieces.HoldsOnLine.holds (onLine : pieces.HoldsOnLine value) :
    pieces.Holds value := by
  rw [Pieces.HoldsOnLine] at onLine
  split at onLine
  · rename_i noInitial
    refine ⟨value.toList, by rw [noInitial]; rfl, ?_⟩
    cases isMiddle : pieces.middle with
    | nil =>
      rw [isMiddle] at onLine
      exact onLine
    | cons piece any =>
      rw [isMiddle] at onLine
      obtain ⟨skipped, rest, isValue, isRest⟩ := onLine
      exact ⟨skipped, rest, isValue, isRest.followedBy⟩
  · obtain ⟨rest, isValue, isRest⟩ := onLine
    exact ⟨rest, isValue, isRest.followedBy⟩

/-! ## The regular expression -/

/-- The parts after a piece. -/
def tailParts (final : List Char) : List (List Char) → List Part
  | [] => .gap :: if final = [] then [] else final.map .literal ++ [.stop]
  | piece :: any => .gap :: (piece.map .literal ++ tailParts final any)

/-- The source after a piece. -/
def tailSource (final : List Char) : List (List Char) → List Char
  | [] => '.' :: '*' :: if final = [] then [] else escaped final ++ ['$']
  | piece :: any => '.' :: '*' :: (escaped piece ++ tailSource final any)

theorem parse_tailSource (final : List Char) (any : List (List Char)) :
    parse (tailSource final any) = some (tailParts final any) := by
  induction any with
  | nil =>
    rw [tailSource, tailParts, parse_gap]
    split
    · rfl
    · rw [parse_escaped_append, parse_stop]
      rfl
  | cons piece any ih =>
    rw [tailSource, tailParts, parse_gap, parse_escaped_append, ih]
    rfl

theorem matchesFrom_tailParts_iff {position : Nat} :
    matchesFrom (tailParts final any) position text = true ↔ FollowedOnLine final any text := by
  induction any generalizing position text with
  | nil =>
    rw [tailParts, matchesFrom_gap_iff, FollowedOnLine]
    by_cases noFinal : final = []
    · rw [if_pos noFinal]
      refine iff_of_true ⟨[], text, rfl, forall_mem_nil _, rfl⟩ (.inl noFinal)
    · rw [if_neg noFinal, or_iff_right noFinal]
      refine exists_congr fun skipped => ?_
      constructor
      · rintro ⟨rest, isText, isLine, isMatch⟩
        obtain ⟨after, rfl, isEnd⟩ := matchesFrom_literals_iff.mp isMatch
        rw [matchesFrom, Bool.and_eq_true, List.isEmpty_iff] at isEnd
        rw [isEnd.1, List.append_nil] at isText
        exact ⟨isText, isLine⟩
      · rintro ⟨isText, isLine⟩
        exact
          ⟨final, isText, isLine,
            matchesFrom_literals_iff.mpr ⟨[], (List.append_nil final).symm, rfl⟩⟩
  | cons piece any ih =>
    rw [tailParts, matchesFrom_gap_iff, FollowedOnLine]
    refine exists_congr fun skipped => ?_
    constructor
    · rintro ⟨rest, isText, isLine, isMatch⟩
      obtain ⟨after, rfl, isAfter⟩ := matchesFrom_literals_iff.mp isMatch
      exact ⟨after, isText, isLine, ih.mp isAfter⟩
    · rintro ⟨rest, isText, isLine, isRest⟩
      exact
        ⟨piece ++ rest, isText, isLine,
          matchesFrom_literals_iff.mpr ⟨rest, rfl, ih.mpr isRest⟩⟩

/-- The parts of a substring assertion's pattern. -/
def Pieces.parts (pieces : Pieces) : List Part :=
  if pieces.initial = "" then
    (tailParts pieces.final.toList pieces.middle).tail
  else
    .start :: (pieces.initial.toList.map .literal ++ tailParts pieces.final.toList pieces.middle)

/-- The pattern finds the values of which the assertion holds on one line. -/
theorem test_parts_iff :
    test pieces.parts value.toList = true ↔ pieces.HoldsOnLine value := by
  rw [test_iff, Pieces.parts, Pieces.HoldsOnLine]
  by_cases noInitial : pieces.initial = ""
  · rw [if_pos noInitial, if_pos noInitial]
    cases pieces.middle with
    | nil =>
      rw [tailParts, tail_cons]
      by_cases noFinal : pieces.final.toList = []
      · rw [if_pos noFinal, noFinal]
        exact iff_of_true ⟨[], value.toList, rfl, rfl⟩ ⟨value.toList, (List.append_nil _).symm⟩
      · rw [if_neg noFinal]
        refine exists_congr fun skipped => ?_
        constructor
        · rintro ⟨rest, isValue, isMatch⟩
          obtain ⟨after, rfl, isEnd⟩ := matchesFrom_literals_iff.mp isMatch
          rw [matchesFrom, Bool.and_eq_true, List.isEmpty_iff] at isEnd
          rw [isEnd.1, List.append_nil] at isValue
          exact isValue
        · intro isValue
          exact
            ⟨pieces.final.toList, isValue,
              matchesFrom_literals_iff.mpr ⟨[], (List.append_nil _).symm, rfl⟩⟩
    | cons piece any =>
      rw [tailParts, tail_cons]
      refine exists_congr fun skipped => ?_
      constructor
      · rintro ⟨rest, isValue, isMatch⟩
        obtain ⟨after, rfl, isAfter⟩ := matchesFrom_literals_iff.mp isMatch
        exact ⟨after, isValue, matchesFrom_tailParts_iff.mp isAfter⟩
      · rintro ⟨rest, isValue, isRest⟩
        exact
          ⟨piece ++ rest, isValue,
            matchesFrom_literals_iff.mpr ⟨rest, rfl, matchesFrom_tailParts_iff.mpr isRest⟩⟩
  · rw [if_neg noInitial, if_neg noInitial]
    constructor
    · rintro ⟨before, rest, isValue, isMatch⟩
      rw [matchesFrom, Bool.and_eq_true, decide_eq_true_iff, length_eq_zero_iff] at isMatch
      obtain ⟨rfl, isMatch⟩ := isMatch
      obtain ⟨after, rfl, isAfter⟩ := matchesFrom_literals_iff.mp isMatch
      exact ⟨after, isValue, matchesFrom_tailParts_iff.mp isAfter⟩
    · rintro ⟨rest, isValue, isRest⟩
      refine ⟨[], pieces.initial.toList ++ rest, isValue, ?_⟩
      rw [matchesFrom, Bool.and_eq_true]
      exact ⟨rfl, matchesFrom_literals_iff.mpr ⟨rest, rfl, matchesFrom_tailParts_iff.mpr isRest⟩⟩

/-! ## Filters -/

/-- What holds of every filter whose parts it holds of. -/
theorem Filter.induction {motive : Filter → Prop}
    (and : ∀ clauses, (∀ clause ∈ clauses, motive clause) → motive (.and clauses))
    (or : ∀ clauses, (∀ clause ∈ clauses, motive clause) → motive (.or clauses))
    (not : ∀ filter, motive filter → motive (.not filter))
    (equality : ∀ name value, motive (.equality name value))
    (substring : ∀ name pieces, motive (.substring name pieces))
    (other : ∀ type, motive (.other type)) (filter : Filter) :
    motive filter :=
  @Filter.rec motive (fun clauses => ∀ clause ∈ clauses, motive clause)
    and or not equality substring other (forall_mem_nil _)
    (fun _ _ first rest => forall_mem_cons.mpr ⟨first, rest⟩) filter

mutual

/-- Something holds of a filter and of each of its parts. -/
def Filter.Every (holds : Filter → Prop) : Filter → Prop
  | .and clauses => holds (.and clauses) ∧ EveryClause holds clauses
  | .or clauses => holds (.or clauses) ∧ EveryClause holds clauses
  | .not filter => holds (.not filter) ∧ filter.Every holds
  | .equality name value => holds (.equality name value)
  | .substring name pieces => holds (.substring name pieces)
  | .other type => holds (.other type)

def EveryClause (holds : Filter → Prop) : List Filter → Prop
  | [] => True
  | clause :: rest => clause.Every holds ∧ EveryClause holds rest

end

example : (Filter.not (.and [])).Every fun _ => True := by simp [Filter.Every, EveryClause]

theorem everyClause_iff {holds : Filter → Prop} {clauses : List Filter} :
    EveryClause holds clauses ↔ ∀ clause ∈ clauses, clause.Every holds := by
  induction clauses with
  | nil => simp [EveryClause]
  | cons clause rest ih => rw [EveryClause, forall_mem_cons, ih]

theorem everyClause_congr {holds other : Filter → Prop} {clauses : List Filter}
    (same : ∀ clause ∈ clauses, (clause.Every holds ↔ clause.Every other)) :
    EveryClause holds clauses ↔ EveryClause other clauses := by
  rw [everyClause_iff, everyClause_iff]
  exact forall₂_congr same

theorem Filter.Every.here {holds : Filter → Prop} {filter : Filter} (every : filter.Every holds) :
    holds filter := by
  cases filter with
  | and clauses => exact every.1
  | or clauses => exact every.1
  | not filter => exact every.1
  | equality name value => exact every
  | substring name pieces => exact every
  | other type => exact every

section

variable (lowering : Lowering)

def Pieces.lowered (pieces : Pieces) : Pieces where
  initial := lowering.toLowerCase pieces.initial
  any := pieces.any.map lowering.toLowerCase
  final := lowering.toLowerCase pieces.final

mutual

/-- A filter with its names and values lower-cased. -/
def Filter.lowered : Filter → Filter
  | .and clauses => .and (loweredClauses clauses)
  | .or clauses => .or (loweredClauses clauses)
  | .not filter => .not filter.lowered
  | .equality name value => .equality (lowering.toLowerCase name) (value.map lowering.toLowerCase)
  | .substring name pieces => .substring (lowering.toLowerCase name) (pieces.lowered lowering)
  | .other type => .other type

def loweredClauses : List Filter → List Filter
  | [] => []
  | clause :: rest => clause.lowered :: loweredClauses rest

end

example : (Filter.and [.other ""]).lowered lowering = .and [.other ""] := by
  simp [Filter.lowered, loweredClauses]

theorem loweredClauses_eq (clauses : List Filter) :
    loweredClauses lowering clauses = clauses.map (Filter.lowered lowering) := by
  induction clauses with
  | nil => rfl
  | cons clause rest ih => rw [loweredClauses, ih, map_cons]

/-- An assertion that is compared here, on an attribute that ignores case. -/
def Supported : Filter → Prop
  | .and _ => True
  | .or _ => True
  | .not _ => True
  | .equality name value => value.isSome = true ∧ ignoresCase lowering name = true
  | .substring name _ => ignoresCase lowering name = true
  | .other _ => False

/-- A filter over attributes that ignore case. -/
def CaseIgnoring := { filter : Filter // filter.Every (Supported lowering) }

variable {lowering}

/-- The attributes of an entry, lower-cased. -/
def Entry.lowered (entry : Entry lowering) : Attributes :=
  entry.attributes.map fun one => (lowering.toLowerCase one.1, one.2.map lowering.toLowerCase)

/-! ## Evaluation -/

/-- The values held under a name. -/
def valuesAt (attributes : Attributes) (name : String) : List String :=
  (attributes.lookup name).getD []

variable (holds : Pieces → String → Prop)

mutual

/-- What a filter evaluates to, by what a substring assertion means of a value. -/
def Evaluates (attributes : Attributes) : Filter → Prop
  | .and clauses => EvaluatesEvery attributes clauses
  | .or clauses => EvaluatesSome attributes clauses
  | .not filter => ¬Evaluates attributes filter
  | .equality name value => ∃ one ∈ valuesAt attributes name, value = some one
  | .substring name pieces => ∃ one ∈ valuesAt attributes name, holds pieces one
  | .other _ => False

def EvaluatesEvery (attributes : Attributes) : List Filter → Prop
  | [] => True
  | clause :: rest => Evaluates attributes clause ∧ EvaluatesEvery attributes rest

def EvaluatesSome (attributes : Attributes) : List Filter → Prop
  | [] => False
  | clause :: rest => Evaluates attributes clause ∨ EvaluatesSome attributes rest

end

example : Evaluates holds [] (.not (.or [])) := by simp [Evaluates, EvaluatesSome]

/-- Matching a filter answers what it evaluates to over lower-cased text. -/
def Answers (library : Filter → Entry lowering → Except String Bool) (entry : Entry lowering)
    (filter : Filter) : Prop :=
  ∃ answer,
    matchesFilter library entry filter = .ok answer ∧
      (answer = true ↔ Evaluates holds entry.lowered (filter.lowered lowering))

/-! ## Leaves -/

/-- A name is found among lower-cased ones by its lower case. -/
theorem lookup_lowered (attributes : Attributes) (wanted : String) :
    (attributes.map fun one =>
        (lowering.toLowerCase one.1, one.2.map lowering.toLowerCase)).lookup wanted =
      (attributes.find? fun one => lowering.toLowerCase one.1 = wanted).map fun one =>
        one.2.map lowering.toLowerCase := by
  induction attributes with
  | nil => rfl
  | cons one rest ih =>
    rw [map_cons, lookup_cons, List.find?_cons]
    by_cases isWanted : lowering.toLowerCase one.1 = wanted
    · simp [isWanted]
    · have notFirst : (wanted == lowering.toLowerCase one.1) = false :=
        beq_false_of_ne (Ne.symm isWanted)
      rw [notFirst, decide_eq_false isWanted]
      exact ih

variable {attributes : Attributes}

theorem mem_of_lookup {name : String} {values : List String}
    (isFound : attributes.lookup name = some values) :
    (name, values) ∈ attributes := by
  induction attributes with
  | nil => cases isFound
  | cons one rest ih =>
    rw [lookup_cons] at isFound
    split at isFound
    · rename_i isName
      cases isFound
      rw [LawfulBEq.eq_of_beq isName]
      exact mem_cons_self
    · exact mem_cons_of_mem _ (ih isFound)

/-- An attribute is the only one of its name in any letter case. -/
theorem find_of_mem (distinct : (attributes.map fun one => lowering.toLowerCase one.1).Nodup)
    {one : String × List String} (isOne : one ∈ attributes) :
    (attributes.find? fun other =>
      lowering.toLowerCase other.1 = lowering.toLowerCase one.1) = some one := by
  induction attributes with
  | nil => cases isOne
  | cons first rest ih =>
    rw [map_cons, nodup_cons] at distinct
    rcases mem_cons.mp isOne with rfl | inRest
    · rw [List.find?_cons_of_pos (by simp)]
    · have isOther : ¬lowering.toLowerCase first.1 = lowering.toLowerCase one.1 := by
        intro same
        rw [same] at distinct
        exact distinct.1 (mem_map.mpr ⟨one, inRest, rfl⟩)
      rw [List.find?_cons_of_neg (by simpa using isOther)]
      exact ih distinct.2 inRest

/-- The values of an attribute are found by its name in any letter case. -/
theorem valuesOf_lowered (entry : Entry lowering) (name : String) :
    (valuesOf entry name).map lowering.toLowerCase =
      valuesAt entry.lowered (lowering.toLowerCase name) := by
  rw [valuesAt, Entry.lowered, lookup_lowered, valuesOf]
  cases isOwn : entry.attributes.lookup name with
  | some values =>
    have isFound := find_of_mem entry.distinct (mem_of_lookup isOwn)
    dsimp only at isFound ⊢
    rw [isFound]
    rfl
  | none =>
    dsimp only
    cases entry.attributes.find? fun one =>
      lowering.toLowerCase one.1 = lowering.toLowerCase name <;> rfl

/-- The source without the gap it begins with. -/
theorem parse_drop_tailSource {final : List Char} {any : List (List Char)} :
    parse ((tailSource final any).drop 2) = some (tailParts final any).tail := by
  have isTail := parse_tailSource final any
  cases any with
  | nil =>
    rw [tailSource, tailParts, parse_gap, Option.map_eq_some_iff] at isTail
    obtain ⟨parts, isParsed, isParts⟩ := isTail
    rw [cons_inj_right] at isParts
    rw [isParts] at isParsed
    exact isParsed
  | cons piece any =>
    rw [tailSource, tailParts, parse_gap, Option.map_eq_some_iff] at isTail
    obtain ⟨parts, isParsed, isParts⟩ := isTail
    rw [cons_inj_right] at isParts
    rw [isParts] at isParsed
    exact isParsed

/-- The source is that of the parts after the first piece, and that piece. -/
theorem substringSource_eq (pieces : Pieces) :
    substringSource lowering pieces =
      if (pieces.lowered lowering).initial = "" then
        (tailSource (pieces.lowered lowering).final.toList (pieces.lowered lowering).middle).drop 2
      else
        '^' :: (escaped (pieces.lowered lowering).initial.toList ++
          tailSource (pieces.lowered lowering).final.toList (pieces.lowered lowering).middle) := by
  have isTail (any : List String) :
      tailSource (lowering.toLowerCase pieces.final).toList
          ((any.map lowering.toLowerCase).map String.toList) =
        ".*".toList ++ (any.flatMap (fun one => escapedPiece lowering one ++ ".*".toList) ++
          if pieces.final = "" then [] else escapedPiece lowering pieces.final ++ ['$']) := by
    induction any with
    | nil =>
      have sameEmpty : (lowering.toLowerCase pieces.final).toList = [] ↔ pieces.final = "" := by
        rw [String.toList_eq_nil_iff, lowering.keepsEmpty]
      rw [map_nil, map_nil, tailSource, if_congr sameEmpty rfl rfl]
      rfl
    | cons piece any ih =>
      rw [map_cons, map_cons, tailSource, ih, flatMap_cons,
        append_assoc, append_assoc]
      rfl
  have isRest := isTail pieces.any
  rw [substringSource]
  by_cases noInitial : pieces.initial = ""
  · have isEmpty : (pieces.lowered lowering).initial = "" :=
      (lowering.keepsEmpty pieces.initial).mpr noInitial
    rw [if_pos noInitial, if_pos isEmpty]
    exact congrArg (List.drop 2) isRest.symm
  · have notEmpty : (pieces.lowered lowering).initial ≠ "" :=
      mt (lowering.keepsEmpty pieces.initial).mp noInitial
    rw [if_neg noInitial, if_neg notEmpty]
    simp only [cons_append, append_assoc]
    exact congrArg (fun rest => '^' :: (escapedPiece lowering pieces.initial ++ rest)) isRest.symm

theorem substringPattern_eq (pieces : Pieces) :
    substringPattern lowering pieces = .ok (pieces.lowered lowering).parts := by
  have isParsed :
      parse (substringSource lowering pieces) = some (pieces.lowered lowering).parts := by
    rw [substringSource_eq, Pieces.parts]
    split
    · exact parse_drop_tailSource
    · rw [parse_start, parse_escaped_append, parse_tailSource]
      rfl
  rw [substringPattern, isParsed]

section

variable {holds}
variable {library : Filter → Entry lowering → Except String Bool}
variable {entry : Entry lowering}

variable {name : String} {clauses : List Filter} {filter : Filter}

example : Answers holds library entry (.and []) :=
  ⟨true, by simp [matchesFilter, matchesEvery], by simp [Filter.lowered, loweredClauses, Evaluates,
    EvaluatesEvery]⟩

theorem equality_answers {value : Option String}
    (supported : Supported lowering (.equality name value)) :
    Answers holds library entry (.equality name value) := by
  obtain ⟨isText, ignores⟩ := supported
  obtain ⟨text, rfl⟩ := Option.isSome_iff_exists.mp isText
  refine ⟨_, by rw [matchesFilter]; exact if_pos ignores, ?_⟩
  rw [Filter.lowered, Evaluates, ← valuesOf_lowered, any_eq_true]
  constructor
  · rintro ⟨one, isValue, isEqual⟩
    refine ⟨_, mem_map_of_mem isValue, ?_⟩
    rw [of_decide_eq_true isEqual]
    rfl
  · rintro ⟨_, isLowered, isEqual⟩
    obtain ⟨one, isValue, rfl⟩ := mem_map.mp isLowered
    exact ⟨one, isValue, decide_eq_true (Option.some.inj isEqual).symm⟩

/-- A substring assertion is matched where it holds on one line. -/
theorem substring_answers {name : String} {pieces : Pieces}
    (supported : Supported lowering (.substring name pieces)) :
    Answers Pieces.HoldsOnLine library entry (.substring name pieces) := by
  have ignores : ignoresCase lowering name = true := supported
  refine ⟨_, by rw [matchesFilter, if_pos ignores, substringPattern_eq]; rfl, ?_⟩
  rw [Filter.lowered, Evaluates, ← valuesOf_lowered, any_eq_true]
  constructor
  · rintro ⟨one, isValue, isMatch⟩
    exact ⟨_, mem_map_of_mem isValue, test_parts_iff.mp isMatch⟩
  · rintro ⟨_, isLowered, isMatch⟩
    obtain ⟨one, isValue, rfl⟩ := mem_map.mp isLowered
    exact ⟨one, isValue, test_parts_iff.mpr isMatch⟩

/-! ## Whole filters -/

theorem and_answers (parts : ∀ clause ∈ clauses, Answers holds library entry clause) :
    Answers holds library entry (.and clauses) := by
  rw [Answers, matchesFilter, Filter.lowered, Evaluates]
  induction clauses with
  | nil => exact ⟨true, rfl, iff_of_true rfl trivial⟩
  | cons clause rest ih =>
    obtain ⟨⟨first, isFirst, means⟩, others⟩ := forall_mem_cons.mp parts
    rw [matchesEvery, isFirst, Fallible.ok_bind, loweredClauses, EvaluatesEvery, ← means]
    cases first with
    | true =>
      rw [if_pos rfl, eq_self, true_and]
      exact ih others
    | false => exact ⟨false, rfl, iff_of_false Bool.false_ne_true fun both => Bool.false_ne_true both.1⟩

theorem or_answers (parts : ∀ clause ∈ clauses, Answers holds library entry clause) :
    Answers holds library entry (.or clauses) := by
  rw [Answers, matchesFilter, Filter.lowered, Evaluates]
  induction clauses with
  | nil => exact ⟨false, rfl, iff_of_false Bool.false_ne_true id⟩
  | cons clause rest ih =>
    obtain ⟨⟨first, isFirst, means⟩, others⟩ := forall_mem_cons.mp parts
    rw [matchesSome, isFirst, Fallible.ok_bind, loweredClauses, EvaluatesSome, ← means]
    cases first with
    | true => exact ⟨true, rfl, iff_of_true rfl (.inl rfl)⟩
    | false =>
      rw [if_neg Bool.false_ne_true, or_iff_right Bool.false_ne_true]
      exact ih others

theorem not_answers (part : Answers holds library entry filter) :
    Answers holds library entry (.not filter) := by
  obtain ⟨answer, isAnswer, means⟩ := part
  refine ⟨!answer, by rw [matchesFilter, isAnswer]; rfl, ?_⟩
  rw [Filter.lowered, Evaluates, ← means, Bool.not_eq_true', Bool.not_eq_true]

/-- A filter is matched as it is evaluated on one line. -/
theorem answers_onLine {filter : Filter} (supported : filter.Every (Supported lowering)) :
    Answers Pieces.HoldsOnLine library entry filter := by
  induction filter using Filter.induction with
  | and clauses ih =>
    have parts := everyClause_iff.mp supported.2
    exact and_answers fun clause isClause => ih clause isClause (parts clause isClause)
  | or clauses ih =>
    have parts := everyClause_iff.mp supported.2
    exact or_answers fun clause isClause => ih clause isClause (parts clause isClause)
  | not filter ih => exact not_answers (ih supported.2)
  | equality name value => exact equality_answers supported
  | substring name pieces => exact substring_answers supported
  | other type => exact supported.elim

/-- Where a substring assertion holds of a value, it holds of one on one line. -/
def OnLineEnough (entry : Entry lowering) : Filter → Prop
  | .substring name pieces =>
    (∃ one ∈ valuesAt entry.lowered (lowering.toLowerCase name),
        (pieces.lowered lowering).Holds one) →
      ∃ one ∈ valuesAt entry.lowered (lowering.toLowerCase name),
        (pieces.lowered lowering).HoldsOnLine one
  | _ => True

theorem substring_answers_iff {pieces : Pieces}
    (supported : Supported lowering (.substring name pieces)) :
    Answers Pieces.Holds library entry (.substring name pieces) ↔
      OnLineEnough entry (.substring name pieces) := by
  obtain ⟨answer, isAnswer, means⟩ :=
    @substring_answers lowering library entry name pieces supported
  rw [Filter.lowered, Evaluates] at means
  rw [Answers, OnLineEnough, ← means, Filter.lowered, Evaluates]
  constructor
  · rintro ⟨other, isOther, otherMeans⟩ some
    rw [isAnswer] at isOther
    rw [Except.ok.inj isOther]
    exact otherMeans.mpr some
  · intro enough
    refine ⟨answer, isAnswer, ?_, enough⟩
    intro isMatch
    obtain ⟨one, isValue, onLine⟩ := means.mp isMatch
    exact ⟨one, isValue, onLine.holds⟩

/-- Each part is matched as it is evaluated exactly where one line is enough. -/
theorem every_answers_iff (supported : filter.Every (Supported lowering)) :
    filter.Every (Answers Pieces.Holds library entry) ↔ filter.Every (OnLineEnough entry) := by
  induction filter using Filter.induction with
  | and clauses ih =>
    have parts := everyClause_iff.mp supported.2
    rw [Filter.Every, Filter.Every, everyClause_congr fun clause isClause =>
      ih clause isClause (parts clause isClause)]
    refine and_congr_left fun every => iff_of_true (and_answers fun clause isClause => ?_) trivial
    exact ((ih clause isClause (parts clause isClause)).mpr
      (everyClause_iff.mp every clause isClause)).here
  | or clauses ih =>
    have parts := everyClause_iff.mp supported.2
    rw [Filter.Every, Filter.Every, everyClause_congr fun clause isClause =>
      ih clause isClause (parts clause isClause)]
    refine and_congr_left fun every => iff_of_true (or_answers fun clause isClause => ?_) trivial
    exact ((ih clause isClause (parts clause isClause)).mpr
      (everyClause_iff.mp every clause isClause)).here
  | not filter ih =>
    rw [Filter.Every, Filter.Every, ih supported.2]
    refine and_congr_left fun every => iff_of_true ?_ trivial
    exact not_answers ((ih supported.2).mpr every).here
  | equality name value => exact iff_of_true (equality_answers supported) trivial
  | substring name pieces => exact substring_answers_iff supported
  | other type => exact supported.elim

end

/-! ## Letter case -/

theorem ignoresCase_lowered (name : String) :
    ignoresCase lowering name =
      decide (typeOf (lowering.toLowerCase name) ∈ caseIgnoreAttributes) := by
  rw [ignoresCase, lowering.keepsType]

/-- An assertion on a lower-cased name that is compared here. -/
def SupportedLowered : Filter → Prop
  | .equality name value => value.isSome = true ∧ typeOf name ∈ caseIgnoreAttributes
  | .substring name _ => typeOf name ∈ caseIgnoreAttributes
  | .other _ => False
  | _ => True

/-- Whether a filter is compared here does not depend on its letter case. -/
theorem every_supported_iff (filter : Filter) :
    filter.Every (Supported lowering) ↔ (filter.lowered lowering).Every SupportedLowered := by
  induction filter using Filter.induction with
  | and clauses ih =>
    rw [Filter.lowered, Filter.Every, Filter.Every, everyClause_iff, everyClause_iff,
      loweredClauses_eq, forall_mem_map]
    exact and_congr_right fun _ => forall₂_congr ih
  | or clauses ih =>
    rw [Filter.lowered, Filter.Every, Filter.Every, everyClause_iff, everyClause_iff,
      loweredClauses_eq, forall_mem_map]
    exact and_congr_right fun _ => forall₂_congr ih
  | not filter ih =>
    rw [Filter.lowered, Filter.Every, Filter.Every]
    exact and_congr_right fun _ => ih
  | equality name value =>
    rw [Filter.lowered, Filter.Every, Filter.Every, Supported, SupportedLowered,
      ignoresCase_lowered, decide_eq_true_iff, Option.isSome_map]
  | substring name pieces =>
    rw [Filter.lowered, Filter.Every, Filter.Every, Supported, SupportedLowered,
      ignoresCase_lowered, decide_eq_true_iff]
  | other type => exact Iff.rfl

/-- What a filter answers depends on lower-cased text alone. -/
theorem matchesFilter_lowered {library : Filter → Entry lowering → Except String Bool}
    {filter filter' : Filter} {entry entry' : Entry lowering}
    (supported : filter.Every (Supported lowering))
    (sameFilter : filter'.lowered lowering = filter.lowered lowering)
    (sameEntry : entry'.lowered = entry.lowered) :
    matchesFilter library entry' filter' = matchesFilter library entry filter := by
  have alsoSupported : filter'.Every (Supported lowering) := by
    rw [every_supported_iff, sameFilter, ← every_supported_iff]
    exact supported
  obtain ⟨answer, isAnswer, means⟩ := @answers_onLine lowering library entry filter supported
  obtain ⟨answer', isAnswer', means'⟩ :=
    @answers_onLine lowering library entry' filter' alsoSupported
  rw [sameFilter, sameEntry, ← means] at means'
  rw [isAnswer, isAnswer', Bool.eq_iff_iff.mpr means']

/--
A filter over attributes that ignore case is matched as it is evaluated, each
part of it, exactly where a substring assertion that holds of a value holds of
one whose skipped texts between pieces have no line break.  What it answers is
the same for every other letter case.
-/
theorem matches_right_iff (library : Filter → Entry lowering → Except String Bool)
    (filter : CaseIgnoring lowering) (entry : Entry lowering) :
    (filter.val.Every (Answers Pieces.Holds library entry) ↔
        filter.val.Every (OnLineEnough entry)) ∧
      ∀ filter' (entry' : Entry lowering),
        filter'.lowered lowering = filter.val.lowered lowering →
        entry'.lowered = entry.lowered →
        matchesFilter library entry' filter' = matchesFilter library entry filter.val :=
  ⟨every_answers_iff filter.property,
    fun _ _ sameFilter sameEntry => matchesFilter_lowered filter.property sameFilter sameEntry⟩

end

/-! ## A value of two lines -/

def asciiLower (char : Char) : Char :=
  if 'A' ≤ char ∧ char ≤ 'Z' then Char.ofNat (char.toNat + 32) else char

theorem asciiLower_eq_semicolon_iff (char : Char) : asciiLower char = ';' ↔ char = ';' := by
  rw [asciiLower]
  split
  · rename_i isUpper
    have low : 65 ≤ char.toNat := UInt32.le_iff_toNat_le.mp isUpper.1
    have high : char.toNat ≤ 90 := UInt32.le_iff_toNat_le.mp isUpper.2
    have isLetter : ∀ letter < 26, Char.ofNat (letter + 97) ≠ ';' := by decide
    have isCode : char.toNat + 32 = char.toNat - 65 + 97 := by omega
    refine iff_of_false ?_ ?_
    · rw [isCode]
      exact isLetter _ (by omega)
    · rintro rfl
      exact absurd isUpper (by decide)
  · exact Iff.rfl

/-- Lower-casing of the letters of ASCII. -/
def asciiLowering : Lowering where
  toLowerCase := String.map asciiLower
  keepsType name := by
    have sameStop : (fun char => decide (char ≠ ';')) ∘ asciiLower = (decide <| · ≠ ';') := by
      funext char
      exact decide_eq_decide.mpr (not_congr (asciiLower_eq_semicolon_iff char))
    refine String.toList_injective ?_
    rw [typeOf, typeOf, String.toList_ofList, String.toList_map, String.toList_map,
      String.toList_ofList, takeWhile_map, sameStop]
  keepsEmpty text := by
    rw [← String.toList_eq_nil_iff, String.toList_map, map_eq_nil_iff,
      String.toList_eq_nil_iff]

/-- An entry whose `cn` is of two lines. -/
def twoLines : Entry asciiLowering where
  attributes := [("cn", ["a\nb"])]
  distinct := pairwise_singleton _ _

/-- `(cn=a*b)`. -/
def acrossLines : CaseIgnoring asciiLowering :=
  ⟨.substring "cn" ⟨"a", [], "b"⟩,
    show ignoresCase asciiLowering "cn" = true by decide +kernel⟩

theorem line_break_not_matched :
    ¬Answers Pieces.Holds (fun _ _ => .error "") twoLines acrossLines.val := by
  rintro ⟨answer, isAnswer, means⟩
  have notMatched : answer = false := by
    have isFalse : matchesFilter (fun _ _ => .error "") twoLines acrossLines.val = .ok false := by
      decide +kernel
    rw [isFalse] at isAnswer
    exact (Except.ok.inj isAnswer).symm
  refine Bool.false_ne_true (notMatched.symm.trans (means.mpr ?_))
  exact ⟨"a\nb", by decide +kernel, ['\n', 'b'], by decide +kernel, ['\n'], by decide +kernel⟩

end IyaSts.LdapMatching
