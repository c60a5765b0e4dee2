import IyaSts.GnapNarrowing
import Mathlib.Algebra.BigOperators.Group.List.Basic
import Mathlib.Algebra.Order.BigOperators.Group.List
import Mathlib.Logic.Function.Basic

namespace IyaSts.GnapAccess

open Json

/-!
# The points of a required right

Every choice of one value for each dimension that is listed is a point, and some granted
right of the type has to cover it.  `pointsOf` unfolds exactly these, up to its cap.
-/

open List

/-! ## The cross product -/

/-- The values a right lists of a dimension; of an empty array it lists none. -/
def listedValues (required : Members) (dim : String) : Option (List Json) :=
  match required.lookup dim with
  | some (.array _ (first :: rest)) => some (first :: rest)
  | _ => none

/-- One value chosen for each of these dimensions that the right lists, none for another. -/
def Chooses (required : Members) (dims : List String) (choice : String → Option Json) : Prop :=
  ∀ dim ∈ dims,
    match listedValues required dim with
    | some values => ∃ value ∈ values, choice dim = some value
    | none => choice dim = none

/-- How many points these dimensions make. -/
def pointCount (required : Members) (dims : List String) : Nat :=
  (dims.map fun dim => ((listedValues required dim).map List.length).getD 1).prod

/-- The values chosen, as the members of a point. -/
def chosen (choice : String → Option Json) (dims : List String) : Members :=
  dims.filterMap fun dim => (choice dim).map fun value => (dim, .array 0 [value])

/-- A right with no more points than are unfolded. -/
def WithinCap (required : Members) : Prop := pointCount required arrayDimensions ≤ maxPoints

instance (required : Members) : Decidable (WithinCap required) :=
  inferInstanceAs (Decidable (pointCount required arrayDimensions ≤ maxPoints))

/-! ## What is claimed -/

/-- A granted object covers one point of a required right. -/
structure CoversPoint (granted required : Members)
    (choice : String → Option Json) : Prop where
  type : granted.lookup "type" = required.lookup "type"
  /-- A dimension it lists has the value that was chosen. -/
  dimension :
    ∀ dim ∈ arrayDimensions, ∀ value,
      choice dim = some value →
        granted.lookup dim = none ∨
          ∃ identity allowed,
            granted.lookup dim = some (.array identity allowed) ∧ includes allowed value = true
  /-- What it says of another member is what is required. -/
  member :
    ∀ name value,
      required.lookup name = some value →
        name ∉ arrayDimensions → name ≠ "type" → name ≠ "__proto__" →
          match JsObject.read granted name with
          | .absent => True
          | .inherited => False
          | .own held =>
            if name = "identifier" then strictEqual held value = true
            else canonicalJson held = canonicalJson value

/-- One required element is covered: a reference that is granted, or a right of which
every point is. -/
def NeedCovered (rights : List Json) : Json → Prop
  | .string text => .string text ∈ rights
  | .object identity required =>
    hasType required = true ∧ IsRight (.object identity required) ∧
      ∀ choice,
        Chooses required arrayDimensions choice →
          ∃ identity granted,
            .object identity granted ∈ rights ∧ CoversPoint granted required choice
  | _ => False

/-- A required element with no more points than are unfolded. -/
def NeedWithinCap : Json → Prop
  | .object _ required => WithinCap required
  | _ => True

/-- The union of the granted rights is asked exactly, up to the cap. -/
structure CoversExactly (rights needs : List Json) : Prop where
  answers : (accessCovers (.array 0 rights) (.array 0 needs)).isSome = true
  sound :
    accessCovers (.array 0 rights) (.array 0 needs) = some true →
      ∀ need ∈ needs, NeedCovered rights need
  complete :
    (∀ need ∈ needs, NeedWithinCap need) →
      (∀ need ∈ needs, NeedCovered rights need) →
        accessCovers (.array 0 rights) (.array 0 needs) = some true
  monotone :
    ∀ more : List Json,
      rights ⊆ more →
        accessCovers (.array 0 rights) (.array 0 needs) = some true →
          accessCovers (.array 0 more) (.array 0 needs) ≠ some false

/-! ## The points that are unfolded -/

section

variable {required : Members}

variable {dim : String} {values : List Json} {choice choice' : String → Option Json}
    {dims : List String} {points : List Members}

theorem expand_of_unlisted (unlisted : listedValues required dim = none) (points : List Members) :
    expand required points dim = some points := by
  rw [listedValues.eq_def] at unlisted
  rw [expand.eq_def]
  generalize required.lookup dim = held at unlisted ⊢
  rcases held with _ | (_ | _ | _ | _ | ⟨_, _ | ⟨first, rest⟩⟩ | _)
  case some.array.cons => cases unlisted
  all_goals rfl

theorem expand_of_listed (listed : listedValues required dim = some values)
    (points : List Members) :
    expand required points dim =
      if maxPoints < points.length * values.length then none
      else
        some (points.flatMap fun point =>
          values.map fun value => point ++ [(dim, .array 0 [value])]) := by
  rw [listedValues.eq_def] at listed
  rw [expand.eq_def]
  generalize required.lookup dim = held at listed ⊢
  rcases held with _ | (_ | _ | _ | _ | ⟨_, _ | ⟨first, rest⟩⟩ | _)
  case some.array.cons =>
    cases listed
    rfl
  all_goals cases listed

theorem listedValues_ne_nil (listed : listedValues required dim = some values) : values ≠ [] := by
  unfold listedValues at listed
  split at listed
  · cases listed
    exact cons_ne_nil _ _
  · cases listed

theorem pointCount_cons (dim : String) (dims : List String) :
    pointCount required (dim :: dims) =
      ((listedValues required dim).map List.length).getD 1 * pointCount required dims := by
  unfold pointCount
  rw [map_cons, prod_cons]

theorem pointCount_pos (dims : List String) : 0 < pointCount required dims := by
  induction dims with
  | nil => exact Nat.one_pos
  | cons dim rest ih =>
    rw [pointCount_cons]
    refine Nat.mul_pos ?_ ih
    cases listed : listedValues required dim with
    | none => exact Nat.one_pos
    | some values => exact length_pos_of_ne_nil (listedValues_ne_nil listed)

theorem chosen_cons (choice : String → Option Json) (dim : String) (dims : List String) :
    chosen choice (dim :: dims) =
      ((choice dim).map fun value => (dim, Json.array 0 [value])).toList ++ chosen choice dims := by
  unfold chosen
  rw [filterMap_cons]
  cases choice dim with
  | none => rfl
  | some value => rfl

/-- A choice is one of the first dimension and one of the others. -/
theorem chooses_cons (choice : String → Option Json) (dim : String) (dims : List String) :
    Chooses required (dim :: dims) choice ↔
      (match listedValues required dim with
        | some values => ∃ value ∈ values, choice dim = some value
        | none => choice dim = none) ∧
        Chooses required dims choice :=
  forall_mem_cons

/-- What is chosen of some dimensions is told by the choice of these. -/
theorem chosen_congr (same : ∀ dim ∈ dims, choice dim = choice' dim) :
    chosen choice dims = chosen choice' dims :=
  filterMap_congr fun dim isDim => by rw [same dim isDim]

theorem chooses_congr (same : ∀ dim ∈ dims, choice dim = choice' dim)
    (chooses : Chooses required dims choice) :
    Chooses required dims choice' := by
  intro dim isDim
  rw [← same dim isDim]
  exact chooses dim isDim

/-- A choice of the others can be one of the first dimension too. -/
theorem chooses_update (notLater : dim ∉ dims)
    (slot : Option Json) (chooses : Chooses required dims choice) :
    Chooses required dims (Function.update choice dim slot) ∧
      chosen (Function.update choice dim slot) (dim :: dims) =
        (slot.map fun value => (dim, Json.array 0 [value])).toList ++ chosen choice dims := by
  have same : ∀ other ∈ dims, choice other = Function.update choice dim slot other := by
    intro other isOther
    have notDim : other ≠ dim := by
      rintro rfl
      exact notLater isOther
    exact (Function.update_of_ne notDim slot choice).symm
  refine ⟨chooses_congr same chooses, ?_⟩
  rw [chosen_cons, Function.update_self, chosen_congr same]

/-- The dimensions unfold to every choice, behind each point there was. -/
theorem foldlM_expand_points (distinct : dims.Nodup)
    (bounded : points.length * pointCount required dims ≤ maxPoints) :
    ∃ points',
      dims.foldlM (expand required) points = some points' ∧
        ∀ made,
          made ∈ points' ↔
            ∃ point ∈ points, ∃ choice,
              Chooses required dims choice ∧ made = point ++ chosen choice dims := by
  induction dims generalizing points with
  | nil =>
    refine ⟨points, rfl, fun made => ⟨fun isMade => ?_, ?_⟩⟩
    · exact ⟨made, isMade, fun _ => none, by simp [Chooses], by simp [chosen]⟩
    · rintro ⟨point, isPoint, choice, -, rfl⟩
      simpa [chosen] using isPoint
  | cons dim rest ih =>
    obtain ⟨notLater, restDistinct⟩ := nodup_cons.mp distinct
    rw [pointCount_cons] at bounded
    rw [foldlM_cons]
    cases listed : listedValues required dim with
    | none =>
      rw [listed, Option.map_none, Option.getD_none, Nat.one_mul] at bounded
      rw [expand_of_unlisted listed]
      obtain ⟨points', unfolded, made_iff⟩ := ih restDistinct bounded
      refine ⟨points', unfolded, fun made => (made_iff made).trans ?_⟩
      constructor
      · rintro ⟨point, isPoint, choice, chooses, rfl⟩
        obtain ⟨chooses', made'⟩ := chooses_update notLater none chooses
        refine ⟨point, isPoint, Function.update choice dim none, ?_, ?_⟩
        · rw [chooses_cons, listed]
          exact ⟨Function.update_self dim none choice, chooses'⟩
        · rw [made']
          rfl
      · rintro ⟨point, isPoint, choice, chooses, rfl⟩
        rw [chooses_cons, listed] at chooses
        refine ⟨point, isPoint, choice, chooses.2, ?_⟩
        rw [chosen_cons, chooses.1]
        rfl
    | some values =>
      rw [listed, Option.map_some, Option.getD_some, ← Nat.mul_assoc] at bounded
      have notPast : ¬ maxPoints < points.length * values.length :=
        Nat.not_lt.mpr ((Nat.le_mul_of_pos_right _ (pointCount_pos rest)).trans bounded)
      rw [expand_of_listed listed, if_neg notPast]
      have counted :
          (points.flatMap fun point =>
              values.map fun value => point ++ [(dim, Json.array 0 [value])]).length =
            points.length * values.length := by
        simp [length_flatMap]
      rw [← counted] at bounded
      obtain ⟨points', unfolded, made_iff⟩ := ih restDistinct bounded
      refine ⟨points', unfolded, fun made => (made_iff made).trans ?_⟩
      simp only [mem_flatMap, mem_map]
      constructor
      · rintro ⟨_, ⟨point, isPoint, value, isValue, rfl⟩, choice, chooses, rfl⟩
        obtain ⟨chooses', made'⟩ := chooses_update notLater (some value) chooses
        refine ⟨point, isPoint, Function.update choice dim (some value), ?_, ?_⟩
        · rw [chooses_cons, listed]
          exact ⟨⟨value, isValue, Function.update_self dim (some value) choice⟩, chooses'⟩
        · rw [made', append_assoc]
          rfl
      · rintro ⟨point, isPoint, choice, chooses, rfl⟩
        rw [chooses_cons, listed] at chooses
        obtain ⟨⟨value, isValue, isChosen⟩, restChooses⟩ := chooses
        refine ⟨point ++ [(dim, .array 0 [value])],
          ⟨point, isPoint, value, isValue, rfl⟩, choice, restChooses, ?_⟩
        rw [chosen_cons, isChosen, append_assoc]
        rfl

theorem foldlM_expand_none (isSome : 0 < points.length) (isBelow : points.length ≤ maxPoints)
    (notBounded : maxPoints < points.length * pointCount required dims) :
    dims.foldlM (expand required) points = none := by
  induction dims generalizing points with
  | nil =>
    rw [pointCount, map_nil, prod_nil, Nat.mul_one] at notBounded
    exact absurd isBelow (Nat.not_le.mpr notBounded)
  | cons dim rest ih =>
    rw [foldlM_cons]
    rw [pointCount_cons] at notBounded
    cases listed : listedValues required dim with
    | none =>
      rw [listed, Option.map_none, Option.getD_none, Nat.one_mul] at notBounded
      rw [expand_of_unlisted listed]
      exact ih isSome isBelow notBounded
    | some values =>
      rw [listed, Option.map_some, Option.getD_some, ← Nat.mul_assoc] at notBounded
      rw [expand_of_listed listed]
      by_cases isPast : maxPoints < points.length * values.length
      · rw [if_pos isPast]
        rfl
      · rw [if_neg isPast]
        have counted :
            (points.flatMap fun point =>
                values.map fun value => point ++ [(dim, Json.array 0 [value])]).length =
              points.length * values.length := by
          simp [length_flatMap]
        refine ih ?_ ?_ ?_
        · rw [counted]
          exact Nat.mul_pos isSome (length_pos_of_ne_nil (listedValues_ne_nil listed))
        · rw [counted]
          exact Nat.not_lt.mp isPast
        · rw [counted]
          exact notBounded

/-- A point: what is carried to it, and what is chosen. -/
def pointOf (required : Members) (choice : String → Option Json) : Members :=
  (entries required).filter isCarried ++ chosen choice arrayDimensions

/-- Up to the cap the points are the choices. -/
theorem pointsOf_within (within : WithinCap required) :
    ∃ points,
      pointsOf required = some points ∧
        ∀ point,
          point ∈ points ↔
            ∃ choice,
              Chooses required arrayDimensions choice ∧ point = pointOf required choice := by
  have bounded :
      [(entries required).filter isCarried].length *
          pointCount required arrayDimensions ≤ maxPoints := by
    rw [length_singleton, Nat.one_mul]
    exact within
  obtain ⟨points, unfolded, made_iff⟩ := foldlM_expand_points (by decide) bounded
  refine ⟨points, unfolded, fun point => (made_iff point).trans ?_⟩
  simp only [mem_singleton, exists_eq_left]
  rfl

/-- Past the cap there are none. -/
theorem pointsOf_past (past : ¬ WithinCap required) : pointsOf required = none := by
  have isOne : [(entries required).filter isCarried].length = 1 := length_singleton
  refine foldlM_expand_none (isOne ▸ Nat.one_pos) ?_ ?_
  · rw [isOne]
    decide
  rw [isOne, Nat.one_mul]
  exact Nat.not_le.mp past

/-! ## One granted object and one point -/

theorem mem_carried_iff (name : String) (value : Json) :
    (name, value) ∈ (entries required).filter isCarried ↔
      required.lookup name = some value ∧ name ≠ "__proto__" ∧ name ∉ arrayDimensions := by
  rw [mem_filter, mem_entries_iff]
  simp only [isCarried, decide_eq_true_eq]

theorem mem_chosen_iff (choice : String → Option Json)
    (dims : List String) (name : String) (value : Json) :
    (name, value) ∈ chosen choice dims ↔
      name ∈ dims ∧ ∃ one, choice name = some one ∧ value = .array 0 [one] := by
  unfold chosen
  simp only [mem_filterMap, Option.map_eq_some_iff, Prod.mk.injEq]
  constructor
  · rintro ⟨dim, isDim, one, isChosen, rfl, rfl⟩
    exact ⟨isDim, one, isChosen, rfl⟩
  · rintro ⟨isDim, one, isChosen, rfl⟩
    exact ⟨name, isDim, one, isChosen, rfl, rfl⟩

/-- A point has the type of its right. -/
theorem lookup_type_pointOf {type : String} (typed : required.lookup "type" = some (.string type))
    (choice : String → Option Json) :
    (pointOf required choice).lookup "type" = some (.string type) := by
  have carried :
      ((entries required).filter isCarried).lookup "type" = some (.string type) :=
    (lookup_filter_entries _ _ _ _).mpr ⟨typed, by simp [isCarried, arrayDimensions]⟩
  unfold pointOf
  rw [lookup_append, carried]
  rfl

/-- A dimension is nothing an object inherits. -/
theorem not_inherited_of_dimension (isDimension : dim ∈ arrayDimensions) :
    dim ≠ "type" ∧ ¬ JsObject.Inherited dim := by
  have each : (arrayDimensions.all fun dim => dim ≠ "type" ∧ ¬ JsObject.Inherited dim) = true := by
    decide +kernel
  exact of_decide_eq_true (all_eq_true.mp each dim isDimension)

/-- A granted object allows some values of a dimension that it does not list, or lists
them too. -/
theorem allows_dimension_iff {granted : Members} (isDimension : dim ∈ arrayDimensions)
    (identity : Nat) (values : List Json) :
    Allows granted dim (.array identity values) ↔
      granted.lookup dim = none ∨
        ∃ identity allowed,
          granted.lookup dim = some (.array identity allowed) ∧
            ∀ value ∈ values, includes allowed value = true := by
  obtain ⟨notType, notInherited⟩ := not_inherited_of_dimension isDimension
  rw [allows_iff notType, JsObject.read_of_not_inherited notInherited]
  cases granted.lookup dim with
  | none => simp
  | some held =>
    simp only [if_pos isDimension]
    simp

/-- A granted object covers a point as the code asks it. -/
theorem objectCoversPoint_pointOf_iff (typed : hasType required = true)
    (granted : Members) (identity : Nat) (choice : String → Option Json) :
    objectCoversPoint (.object identity granted) (pointOf required choice) = some true ↔
      CoversPoint granted required choice := by
  obtain ⟨type, isType⟩ := exists_type typed
  rw [objectCoversPoint_iff, sameMember_type_iff (lookup_type_pointOf isType choice)]
  constructor
  · rintro ⟨sameType, allowed⟩
    refine ⟨sameType.trans isType.symm, ?_, ?_⟩
    · intro dim isDimension value isChosen
      have isMember : (dim, Json.array 0 [value]) ∈ pointOf required choice :=
        mem_append_right _ ((mem_chosen_iff ..).mpr ⟨isDimension, value, isChosen, rfl⟩)
      have allows := (allows_dimension_iff isDimension 0 [value]).mp (allowed _ isMember)
      simpa only [mem_singleton, forall_eq] using allows
    · intro name value isRequired notDimension notType notPrototype
      have isMember : (name, value) ∈ pointOf required choice :=
        mem_append_left _ ((mem_carried_iff ..).mpr ⟨isRequired, notPrototype, notDimension⟩)
      have allows := (allows_iff notType value).mp (allowed _ isMember)
      simp only [if_neg notDimension] at allows
      exact allows
  · intro covers
    refine ⟨covers.type.trans isType, ?_⟩
    rintro ⟨name, value⟩ isMember
    rcases mem_append.mp isMember with isCarried | isChosen
    · obtain ⟨isRequired, notPrototype, notDimension⟩ := (mem_carried_iff ..).mp isCarried
      by_cases isType : name = "type"
      · simp [Allows, coversMember, isType]
      · refine (allows_iff isType value).mpr ?_
        simp only [if_neg notDimension]
        exact covers.member name value isRequired notDimension isType notPrototype
    · obtain ⟨isDimension, one, isOne, rfl⟩ := (mem_chosen_iff ..).mp isChosen
      refine (allows_dimension_iff isDimension 0 [one]).mpr ?_
      simpa only [mem_singleton, forall_eq] using covers.dimension name isDimension one isOne

/-- No point makes the code throw. -/
theorem objectCoversPoint_pointOf_isSome (granted : Json) (choice : String → Option Json) :
    (objectCoversPoint granted (pointOf required choice)).isSome = true := by
  refine objectCoversPoint_isSome granted ?_
  rintro ⟨name, value⟩ isMember isDimension
  rcases mem_append.mp isMember with isCarried | isChosen
  · exact absurd isDimension ((mem_carried_iff ..).mp isCarried).2.2
  · obtain ⟨-, one, -, rfl⟩ := (mem_chosen_iff ..).mp isChosen
    exact ⟨0, [one], rfl⟩

end

/-! ## One required right -/

section

variable {rights : List Json} {required : Members}

/-- Some granted object covers a part of a right. -/
theorem someCovers_eq_true_iff {part : Members}
    (answers : ∀ right, (objectCoversPoint right part).isSome = true) :
    someCovers rights part = some true ↔
      ∃ identity granted,
        .object identity granted ∈ rights ∧
          objectCoversPoint (.object identity granted) part = some true := by
  unfold someCovers
  constructor
  · intro found
    obtain ⟨right, isRight, covers⟩ := exists_of_anyM found
    obtain ⟨isGranted, -⟩ := mem_filter.mp isRight
    cases right with
    | object identity granted => exact ⟨identity, granted, isGranted, covers⟩
    | _ => cases covers
  · rintro ⟨identity, granted, isGranted, covers⟩
    have isRight : Json.object identity granted ∈ rights.filter isObject :=
      mem_filter.mpr ⟨isGranted, rfl⟩
    exact eq_true_of_isSome (anyM_isSome fun right _ => answers right)
      (anyM_ne_false isRight covers)

/-- Up to the cap a right is covered where each choice is, and the code answers. -/
theorem coversNeed_within (typed : hasType required = true)
    (within : WithinCap required) (rights : List Json) (identity : Nat) :
    (coversNeed rights (.object identity required)).isSome = true ∧
      (coversNeed rights (.object identity required) = some true ↔
        ∀ choice,
          Chooses required arrayDimensions choice →
            ∃ identity granted,
              .object identity granted ∈ rights ∧ CoversPoint granted required choice) := by
  obtain ⟨points, unfolded, point_iff⟩ := pointsOf_within within
  have parts : partsOf required = points := by
    unfold partsOf
    rw [unfolded]
  rw [coversNeed_object _ _ typed, parts]
  refine ⟨allM_isSome fun point isPoint => ?_, ?_⟩
  · obtain ⟨choice, -, rfl⟩ := (point_iff point).mp isPoint
    exact anyM_isSome fun right _ => objectCoversPoint_pointOf_isSome right choice
  · rw [allM_eq_true_iff]
    have covered_iff (choice : String → Option Json) :=
      @someCovers_eq_true_iff rights (pointOf required choice) fun right =>
        objectCoversPoint_pointOf_isSome right choice
    constructor
    · intro allCovered choice chooses
      obtain ⟨identity, granted, isGranted, covers⟩ :=
        (covered_iff choice).mp (allCovered _ ((point_iff _).mpr ⟨choice, chooses, rfl⟩))
      exact ⟨identity, granted, isGranted,
        (objectCoversPoint_pointOf_iff typed granted identity choice).mp covers⟩
    · intro allCovered point isPoint
      obtain ⟨choice, chooses, rfl⟩ := (point_iff point).mp isPoint
      obtain ⟨identity, granted, isGranted, covers⟩ := allCovered choice chooses
      exact (covered_iff choice).mpr
        ⟨identity, granted, isGranted,
          (objectCoversPoint_pointOf_iff typed granted identity choice).mpr covers⟩

/-- Past the cap one granted object has to cover the whole. -/
theorem coversNeed_past (typed : hasType required = true) (past : ¬ WithinCap required)
    (rights : List Json) (identity : Nat) :
    coversNeed rights (.object identity required) = someCovers rights (wholeOf required) := by
  have parts : partsOf required = [wholeOf required] := by
    unfold partsOf
    rw [pointsOf_past past]
  rw [coversNeed_object _ _ typed, parts, allM_singleton]

theorem mem_wholeOf_iff (name : String) (value : Json) :
    (name, value) ∈ wholeOf required ↔
      required.lookup name = some value ∧ name ≠ "__proto__" ∧
        ¬ (name ∈ arrayDimensions ∧ isEmptyArray value = true) := by
  unfold wholeOf
  rw [mem_filter, mem_entries_iff]
  simp only [isAsked, decide_eq_true_eq]

/-- An object that covers the whole of a right covers each of its points. -/
theorem coversPoint_of_whole (typed : hasType required = true) {granted : Members} {identity : Nat}
    (covers : objectCoversPoint (.object identity granted) (wholeOf required) = some true)
    {choice : String → Option Json} (chooses : Chooses required arrayDimensions choice) :
    CoversPoint granted required choice := by
  obtain ⟨type, isType⟩ := exists_type typed
  have wholeType : (wholeOf required).lookup "type" = some (.string type) := by
    rw [(isPart_wholeOf typed).type]
    exact isType
  rw [objectCoversPoint_iff, sameMember_type_iff wholeType] at covers
  obtain ⟨sameType, allowed⟩ := covers
  refine ⟨sameType.trans isType.symm, ?_, ?_⟩
  · intro dim isDimension value isChosen
    have choosesDim := chooses dim isDimension
    cases listed : listedValues required dim with
    | none =>
      rw [listed] at choosesDim
      rw [choosesDim] at isChosen
      cases isChosen
    | some values =>
      rw [listed] at choosesDim
      obtain ⟨one, isOne, isChosen'⟩ := choosesDim
      cases isChosen.symm.trans isChosen'
      unfold listedValues at listed
      split at listed
      · rename_i identity' first rest isList
        cases listed
        have isMember : (dim, Json.array identity' (first :: rest)) ∈ wholeOf required :=
          (mem_wholeOf_iff ..).mpr
            ⟨isList, by rintro rfl; revert isDimension; decide, by simp [isEmptyArray]⟩
        rcases (allows_dimension_iff isDimension identity' (first :: rest)).mp
            (allowed _ isMember) with notListed | ⟨identity, allowedValues, isHeld, included⟩
        · exact .inl notListed
        · exact .inr ⟨identity, allowedValues, isHeld, included value isOne⟩
      · cases listed
  · intro name value isRequired notDimension notType notPrototype
    have isMember : (name, value) ∈ wholeOf required :=
      (mem_wholeOf_iff ..).mpr ⟨isRequired, notPrototype, fun isEmpty => notDimension isEmpty.1⟩
    have allows := (allows_iff notType value).mp (allowed _ isMember)
    simp only [if_neg notDimension] at allows
    exact allows

/-- The whole of a right whose dimensions are lists never makes the code throw. -/
theorem objectCoversPoint_wholeOf_isSome {identity : Nat}
    (isRight : IsRight (.object identity required)) (right : Json) :
    (objectCoversPoint right (wholeOf required)).isSome = true := by
  refine objectCoversPoint_isSome right ?_
  rintro ⟨name, value⟩ isMember isDimension
  exact isRight name isDimension value ((mem_wholeOf_iff ..).mp isMember).1

end

/-! ## One required element -/

/-- A required element that the code refuses. -/
def NeedRefused (rights : List Json) : Json → Prop
  | .string text => .string text ∉ rights
  | .object _ required =>
    hasType required = false ∨
      (WithinCap required ∧
        ∃ choice,
          Chooses required arrayDimensions choice ∧
            ∀ identity granted,
              .object identity granted ∈ rights → ¬ CoversPoint granted required choice) ∨
      (¬ WithinCap required ∧
        ∀ right ∈ rights.filter isObject, objectCoversPoint right (wholeOf required) = some false)
  | _ => True

/-- A required right past the cap, of which some granted object makes the code throw before
any covers it. -/
def NeedThrows (rights : List Json) : Json → Prop
  | .object _ required =>
    hasType required = true ∧ ¬ WithinCap required ∧
      ∃ before right after,
        rights.filter isObject = before ++ right :: after ∧
          objectCoversPoint right (wholeOf required) = none ∧
          ∀ earlier ∈ before, objectCoversPoint earlier (wholeOf required) = some false
  | _ => False

end IyaSts.GnapAccess
