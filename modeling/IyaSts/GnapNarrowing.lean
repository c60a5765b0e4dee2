import IyaSts.GnapAccess

namespace IyaSts.GnapAccess

open Json

/-!
# When narrowing narrows

A right that `intersect` keeps is asked about only what it lists, and is later
read as unrestricted in what it leaves out.  Narrowing is sound exactly when
each kept right is allowed by one granted object that lists nothing the kept
right leaves out: then whatever the kept right allows, that object allows too.
-/

open List

/-! ## Tests that may throw -/

section Tests

variable {α : Type}

theorem allM_eq_true_iff (test : α → Option Bool) (elements : List α) :
    elements.allM test = some true ↔ ∀ element ∈ elements, test element = some true := by
  induction elements with
  | nil => simp [List.allM]
  | cons element rest ih =>
    rw [List.allM]
    cases answer : test element with
    | none => simp [answer]
    | some accepted =>
      cases accepted with
      | false => simp [answer]
      | true => simpa [answer] using ih

variable {test : α → Option Bool} {elements : List α}

theorem allM_ne_false (noneRefused : ∀ element ∈ elements, test element ≠ some false) :
    elements.allM test ≠ some false := by
  induction elements with
  | nil => simp [List.allM]
  | cons element rest ih =>
    rw [List.allM]
    have headNotRefused := noneRefused element mem_cons_self
    have restNotRefused :=
      ih fun later isLater => noneRefused later (mem_cons_of_mem _ isLater)
    cases answer : test element with
    | none => simp
    | some accepted =>
      cases accepted with
      | false => exact absurd answer headNotRefused
      | true => simpa using restNotRefused

theorem allM_isSome (noneThrows : ∀ element ∈ elements, (test element).isSome = true) :
    (elements.allM test).isSome = true := by
  induction elements with
  | nil => simp [List.allM]
  | cons element rest ih =>
    rw [List.allM]
    have headAnswers := noneThrows element mem_cons_self
    have restAnswers := ih fun later isLater => noneThrows later (mem_cons_of_mem _ isLater)
    cases answer : test element with
    | none => simp [answer] at headAnswers
    | some accepted =>
      cases accepted with
      | false => simp
      | true => simpa using restAnswers

theorem allM_singleton (test : α → Option Bool) (element : α) :
    [element].allM test = test element := by
  rw [List.allM]
  cases test element with
  | none => rfl
  | some accepted => cases accepted <;> rfl

theorem exists_of_anyM (found : elements.anyM test = some true) :
    ∃ element ∈ elements, test element = some true := by
  induction elements with
  | nil => simp [List.anyM] at found
  | cons element rest ih =>
    rw [List.anyM] at found
    cases answer : test element with
    | none => simp [answer] at found
    | some accepted =>
      cases accepted with
      | true => exact ⟨element, mem_cons_self, answer⟩
      | false =>
        obtain ⟨later, isLater, accepts⟩ := ih (by simpa [answer] using found)
        exact ⟨later, mem_cons_of_mem _ isLater, accepts⟩

theorem anyM_ne_false {witness : α} (isElement : witness ∈ elements)
    (accepts : test witness = some true) :
    elements.anyM test ≠ some false := by
  induction elements with
  | nil => cases isElement
  | cons element rest ih =>
    rw [List.anyM]
    cases answer : test element with
    | none => simp
    | some accepted =>
      cases accepted with
      | true => simp
      | false =>
        rcases mem_cons.mp isElement with isHead | inRest
        · rw [isHead, answer] at accepts
          cases accepts
        · simpa using ih inRest

theorem anyM_isSome (noneThrows : ∀ element ∈ elements, (test element).isSome = true) :
    (elements.anyM test).isSome = true := by
  induction elements with
  | nil => simp [List.anyM]
  | cons element rest ih =>
    rw [List.anyM]
    have headAnswers := noneThrows element mem_cons_self
    have restAnswers := ih fun later isLater => noneThrows later (mem_cons_of_mem _ isLater)
    cases answer : test element with
    | none => simp [answer] at headAnswers
    | some accepted =>
      cases accepted with
      | true => simp
      | false => simpa using restAnswers

/-- A test that neither throws nor refuses accepts. -/
theorem eq_true_of_isSome {answer : Option Bool} (answers : answer.isSome = true)
    (notRefused : answer ≠ some false) :
    answer = some true := by
  cases answer with
  | none => cases answers
  | some accepted =>
    cases accepted with
    | true => rfl
    | false => exact absurd rfl notRefused

end Tests

/-! ## What one granted object allows -/

/-- A granted object allows a value under a key. -/
def Allows (granted : Members) (key : String) (value : Json) : Prop :=
  coversMember granted key value = some true

variable {granted point required kept : Members} {key type fresh : String} {value : Json}
    {dims : List String} {requested rights : List Json} {identity : Nat}

/-- What a granted object must say of a key it lists, to allow a value. -/
theorem allows_iff (notType : key ≠ "type") (value : Json) :
    Allows granted key value ↔
      match JsObject.read granted key with
      | .absent => True
      | .inherited => False
      | .own held =>
        if key ∈ arrayDimensions then
          ∃ identity allowed identity' values,
            held = .array identity allowed ∧
              value = .array identity' values ∧ ∀ one ∈ values, includes allowed one = true
        else if key = "identifier" then
          strictEqual held value = true
        else
          canonicalJson held = canonicalJson value := by
  unfold Allows coversMember
  rw [if_neg notType]
  cases JsObject.read granted key with
  | absent => simp
  | inherited => simp
  | own held =>
    simp only
    split_ifs with isDimension isIdentifier
    · cases held <;> cases value <;> simp
    · simp
    · simp

/-- An object covers a point when the types agree and each member is allowed. -/
theorem objectCoversPoint_iff (granted : Members) (identity : Nat) (point : Members) :
    objectCoversPoint (.object identity granted) point = some true ↔
      sameMember granted point "type" = true ∧
        ∀ member ∈ point, Allows granted member.1 member.2 := by
  unfold objectCoversPoint Allows
  by_cases sameType : sameMember granted point "type" = true
  · simp only [sameType, if_true, allM_eq_true_iff, true_and]
  · simp [sameType]

/-- A member of a point whose listed dimensions are arrays is never a throw. -/
theorem coversMember_isSome (granted : Members)
    (isArray : key ∈ arrayDimensions → ∃ identity values, value = .array identity values) :
    (coversMember granted key value).isSome = true := by
  unfold coversMember
  by_cases isType : key = "type"
  · simp [isType]
  · rw [if_neg isType]
    cases JsObject.read granted key with
    | absent => rfl
    | inherited => rfl
    | own held =>
      by_cases isDimension : key ∈ arrayDimensions
      · obtain ⟨identity, values, rfl⟩ := isArray isDimension
        simp only [isDimension, if_true]
        cases held <;> rfl
      · simp only [isDimension, if_false]
        split <;> rfl

theorem objectCoversPoint_isSome (granted : Json)
    (areArrays :
      ∀ member ∈ point,
        member.1 ∈ arrayDimensions →
        ∃ identity values, member.2 = .array identity values) :
    (objectCoversPoint granted point).isSome = true := by
  cases granted with
  | object identity members =>
    simp only [objectCoversPoint]
    split
    · exact allM_isSome fun member isMember =>
        coversMember_isSome members (areArrays member isMember)
    · rfl
  | _ => rfl

/-! ## What is asked of a required right -/

/-- The points of a required right, or past the cap its whole. -/
def partsOf (required : Members) : List Members :=
  match pointsOf required with
  | none => [wholeOf required]
  | some points => points

/-- Some granted object covers a part. -/
def someCovers (granted : List Json) (part : Members) : Option Bool :=
  (granted.filter isObject).anyM fun right => objectCoversPoint right part

/-- A required object asks that every part of it be covered. -/
theorem coversNeed_object (granted : List Json) (identity : Nat) (typed : hasType required = true) :
    coversNeed granted (.object identity required) =
      (partsOf required).allM (someCovers granted) := by
  simp only [coversNeed, typed, if_true, partsOf]
  cases pointsOf required with
  | none => exact (allM_singleton (someCovers granted) (wholeOf required)).symm
  | some points => rfl

/-- What holds of the points before a dimension holds of them after it. -/
theorem foldlM_expand {Holds : Members → Prop}
    (grows :
      ∀ point dim value,
        dim ∈ arrayDimensions →
        Holds point →
        Holds (point ++ [(dim, .array 0 [value])]))
    (areDimensions : ∀ dim ∈ dims, dim ∈ arrayDimensions)
    {points points' : List Members}
    (expanded : dims.foldlM (expand required) points = some points')
    (nonempty : points ≠ [])
    (holds : ∀ point ∈ points, Holds point) :
    points' ≠ [] ∧ ∀ point ∈ points', Holds point := by
  induction dims generalizing points with
  | nil =>
    simp only [foldlM_nil, pure, Option.some.injEq] at expanded
    subst expanded
    exact ⟨nonempty, holds⟩
  | cons dim rest ih =>
    rw [foldlM_cons] at expanded
    have isDimension := areDimensions dim mem_cons_self
    have restDimensions :=
      fun later isLater => areDimensions later (mem_cons_of_mem dim isLater)
    cases next : expand required points dim with
    | none => simp [next] at expanded
    | some points₁ =>
      simp only [next, Option.bind_eq_bind, Option.bind_some]
        at expanded
      unfold expand at next
      split at next
      · next identity first others listed =>
          split at next
          · cases next
          · simp only [Option.some.injEq] at next
            subst next
            refine ih restDimensions expanded ?_ ?_
            · obtain ⟨point, isPoint⟩ := exists_mem_of_ne_nil points nonempty
              apply ne_nil_of_mem (a := point ++ [(dim, .array 0 [first])])
              exact mem_flatMap.mpr ⟨point, isPoint, by simp⟩
            · intro point isPoint
              obtain ⟨earlier, isEarlier, made⟩ := mem_flatMap.mp isPoint
              obtain ⟨value, _, rfl⟩ := mem_map.mp made
              exact grows earlier dim value isDimension (holds earlier isEarlier)
      · simp only [Option.some.injEq] at next
        subst next
        exact ih restDimensions expanded nonempty holds

/-- A part of a required right says nothing the right does not. -/
structure IsPart (required part : Members) : Prop where
  /-- It has the type of the right. -/
  type : part.lookup "type" = required.lookup "type"
  /-- Its dimensions are never empty, and arrays where the right's are. -/
  dimension :
    ∀ member ∈ part,
      member.1 ∈ arrayDimensions →
      isEmptyArray member.2 = false ∧
        ((∃ identity values, member.2 = .array identity values) ∨
          required.lookup member.1 = some member.2)
  /-- No member sets a prototype. -/
  notProto : ∀ member ∈ part, member.1 ≠ "__proto__"

/-- The whole of a right is a part of it. -/
theorem isPart_wholeOf (typed : hasType required = true) : IsPart required (wholeOf required) where
  type := by
    cases held : required.lookup "type" with
    | none => simp [hasType, held] at typed
    | some value =>
      exact (lookup_filter_entries _ _ _ _).mpr ⟨held, by simp [isAsked, arrayDimensions]⟩
  dimension := by
    intro member isMember isDimension
    obtain ⟨isEntry, asked⟩ := mem_filter.mp isMember
    simp only [isAsked, isDimension, true_and, ne_eq, Bool.not_eq_true, decide_eq_true_eq] at asked
    exact ⟨asked.2, .inr ((mem_entries_iff _ _ _).mp isEntry)⟩
  notProto := by
    intro member isMember
    have asked := (mem_filter.mp isMember).2
    simp only [isAsked, decide_eq_true_eq] at asked
    exact asked.1

/-- There is something asked, and each part asked is a part. -/
theorem partsOf_spec (typed : hasType required = true) :
    partsOf required ≠ [] ∧ ∀ part ∈ partsOf required, IsPart required part := by
  unfold partsOf
  cases expanded : pointsOf required with
  | none => simpa using isPart_wholeOf typed
  | some points =>
    refine foldlM_expand ?_ (fun _ isDimension => isDimension) expanded (by simp) ?_
    · intro point dim value isDimension isPart
      refine ⟨?_, ?_, ?_⟩
      · have carried := isPart.type
        cases held : required.lookup "type" with
        | none => simp [hasType, held] at typed
        | some type =>
          rw [held] at carried
          simp [lookup_append, carried]
      · intro member isMember memberDimension
        rcases mem_append.mp isMember with isEarlier | isNew
        · exact isPart.dimension member isEarlier memberDimension
        · rw [mem_singleton] at isNew
          subst isNew
          exact ⟨rfl, .inl ⟨0, [value], rfl⟩⟩
      · intro member isMember
        rcases mem_append.mp isMember with isEarlier | isNew
        · exact isPart.notProto member isEarlier
        · rw [mem_singleton] at isNew
          subst isNew
          rintro rfl
          simp [arrayDimensions] at isDimension
    · intro point isCarriedPart
      rw [mem_singleton] at isCarriedPart
      subst isCarriedPart
      refine ⟨?_, ?_, ?_⟩
      · cases held : required.lookup "type" with
        | none => simp [hasType, held] at typed
        | some value =>
          exact (lookup_filter_entries _ _ _ _).mpr ⟨held, by simp [isCarried, arrayDimensions]⟩
      · intro member isMember isDimension
        have carried := (mem_filter.mp isMember).2
        simp [isCarried, isDimension] at carried
      · intro member isMember
        have carried := (mem_filter.mp isMember).2
        simp only [isCarried, decide_eq_true_eq] at carried
        exact carried.1

/-! ## One granted object for a whole right -/

/-- Whether a value is an array with something in it. -/
def isListing : Json → Bool
  | .array _ (_ :: _) => true
  | _ => false

/-- A member that bears on what a right allows. -/
def isOutlined (member : String × Json) : Bool :=
  member.1 ≠ "__proto__" ∧ (member.1 ∈ arrayDimensions → isListing member.2)

/-- What a right asks of whoever is to grant the whole of it. -/
def outlineOf (right : Members) : Members := (entries right).filter isOutlined

/-- Whether reading a name off an object finds anything. -/
def lists (members : Members) (name : String) : Bool :=
  match JsObject.read members name with
  | .absent => false
  | _ => true

/--
Whether one granted object covers the whole of a right, and lists nothing the
right leaves out.
-/
def coversAlone (right : Members) : Json → Bool
  | .object identity granted =>
    objectCoversPoint (.object identity granted) (outlineOf right) ==
        some true &&
      (keys granted).all (lists right)
  | _ => false

/-- Whether some granted object covers a requested right alone. -/
def keptByOne (granted right : Json) : Bool :=
  match granted, right with
  | .array _ rights, .object _ members => rights.any (coversAlone members)
  | _, _ => true

/-- Two objects of one point's type are of one type. -/
theorem sameMember_type_iff (typed : point.lookup "type" = some (.string type)) :
    sameMember granted point "type" = true ↔ granted.lookup "type" = some (.string type) := by
  unfold sameMember
  rw [typed]
  cases held : granted.lookup "type" with
  | none => simp
  | some value =>
    simp only [Option.some.injEq]
    constructor
    · exact strictEqual_string
    · rintro rfl
      simp

/-- A right with a type has it as a string. -/
theorem exists_type {members : Members} (typed : hasType members = true) :
    ∃ type, members.lookup "type" = some (.string type) := by
  unfold hasType at typed
  split at typed
  · next type held => exact ⟨type, held⟩
  · cases typed

/-- The outline of a right has its type. -/
theorem lookup_type_outlineOf {right : Members}
    (typed : right.lookup "type" = some (.string type)) :
    (outlineOf right).lookup "type" = some (.string type) :=
  (lookup_filter_entries _ _ _ _).mpr ⟨typed, by simp [isOutlined, arrayDimensions]⟩

/--
What a kept right allows, an object that covers it alone allows: a name the
kept right leaves out is one the object leaves out too.
-/
theorem allows_trans (confined : lists granted key = true → lists kept key = true)
    (outlined : ∀ member ∈ outlineOf kept, Allows granted member.1 member.2)
    (notProto : key ≠ "__proto__") (notEmpty : key ∈ arrayDimensions → isEmptyArray value = false)
    (allowed : Allows kept key value) :
    Allows granted key value := by
  by_cases isType : key = "type"
  · simp [Allows, coversMember, isType]
  rw [allows_iff isType] at allowed
  cases readKept : JsObject.read kept key with
  | inherited => simp [readKept] at allowed
  | absent =>
    have notListed : lists kept key = false := by simp [lists, readKept]
    have readGranted : JsObject.read granted key = .absent := by
      cases reading : JsObject.read granted key with
      | absent => rfl
      | _ =>
        have listed := confined (by simp [lists, reading])
        simp [notListed] at listed
    rw [allows_iff isType, readGranted]
    trivial
  | own held =>
    simp only [readKept] at allowed
    have isEntry : (key, held) ∈ entries kept :=
      (mem_entries_iff _ _ _).mpr (JsObject.lookup_of_read_own readKept)
    by_cases isDimension : key ∈ arrayDimensions
    · simp only [isDimension, if_true] at allowed
      obtain ⟨identity, listed, identity', values, rfl, rfl, within⟩ := allowed
      cases values with
      | nil =>
        simp [isEmptyArray] at notEmpty
        exact absurd isDimension notEmpty
      | cons one others =>
        -- Something is within the list, so the list is not empty.
        have listing : isListing (.array identity listed) = true := by
          obtain ⟨element, isElement, _⟩ := (includes_iff _ _).mp (within one mem_cons_self)
          cases listed with
          | nil => cases isElement
          | cons _ _ => rfl
        have allowsList :=
          outlined (key, .array identity listed)
            (mem_filter.mpr ⟨isEntry, by simp [isOutlined, notProto, listing]⟩)
        rw [allows_iff isType] at allowsList ⊢
        cases readGranted : JsObject.read granted key with
        | absent => trivial
        | inherited => simp [readGranted] at allowsList
        | own grantedHeld =>
          simp only [readGranted, isDimension, if_true]
            at allowsList ⊢
          obtain ⟨identity₁, allowed₁, _, listed', rfl, sameList, listWithin⟩ := allowsList
          cases sameList
          refine ⟨_, _, _, _, rfl, rfl, ?_⟩
          intro value isValue
          obtain ⟨element, isElement, elementEqual⟩ := (includes_iff _ _).mp (within value isValue)
          obtain ⟨grantedElement, isGranted, grantedEqual⟩ :=
            (includes_iff _ _).mp (listWithin element isElement)
          exact (includes_iff _ _).mpr
            ⟨grantedElement, isGranted, strictEqual_trans grantedEqual elementEqual⟩
    · simp only [isDimension, if_false] at allowed
      have allowsHeld :=
        outlined (key, held)
          (mem_filter.mpr ⟨isEntry, by simp [isOutlined, notProto, isDimension]⟩)
      rw [allows_iff isType] at allowsHeld ⊢
      cases readGranted : JsObject.read granted key with
      | absent => trivial
      | inherited => simp [readGranted] at allowsHeld
      | own grantedHeld =>
        simp only [readGranted, isDimension, if_false]
          at allowsHeld ⊢
        split at allowed
        · next isIdentifier =>
            rw [if_pos isIdentifier] at allowsHeld ⊢
            exact strictEqual_trans allowsHeld allowed
        · next notIdentifier =>
            rw [if_neg notIdentifier] at allowsHeld ⊢
            exact allowsHeld.trans allowed

/-- An object that covers a kept right alone covers each part it covers. -/
theorem covers_of_coversAlone {required part kept granted : Members} {identity identity' : Nat}
    (requiredTyped : hasType required = true) (keptTyped : hasType kept = true)
    (isPart : IsPart required part)
    (keptCovers : objectCoversPoint (.object identity kept) part = some true)
    (alone : coversAlone kept (.object identity' granted) = true) :
    objectCoversPoint (.object identity' granted) part = some true := by
  simp only [coversAlone, Bool.and_eq_true, beq_iff_eq, all_eq_true]
    at alone
  obtain ⟨coversOutline, confined⟩ := alone
  obtain ⟨type, requiredType⟩ := exists_type requiredTyped
  obtain ⟨keptType, keptHasType⟩ := exists_type keptTyped
  rw [objectCoversPoint_iff] at keptCovers coversOutline ⊢
  have partType : part.lookup "type" = some (.string type) := isPart.type.trans requiredType
  rw [sameMember_type_iff partType] at keptCovers ⊢
  rw [sameMember_type_iff (lookup_type_outlineOf keptHasType)]
    at coversOutline
  rw [keptHasType] at keptCovers
  refine ⟨coversOutline.1.trans keptCovers.1, ?_⟩
  intro member isMember
  refine allows_trans ?_ coversOutline.2
    (isPart.notProto member isMember)
    (fun isDimension => (isPart.dimension member isMember isDimension).1)
    (keptCovers.2 member isMember)
  intro listed
  by_cases isOwn : (granted.lookup member.1).isSome = true
  · exact confined _ ((mem_keys_iff _ _).mpr isOwn)
  · -- What the granted object inherits the kept right inherits too.
    have notOwn : granted.lookup member.1 = none := by
      rwa [Option.isSome_iff_ne_none, not_not] at isOwn
    have inherited : JsObject.Inherited member.1 := by
      by_contra notInherited
      simp [lists, JsObject.read, notOwn, notInherited] at listed
    unfold lists JsObject.read
    cases kept.lookup member.1 with
    | some value => rfl
    | none => simp [inherited]

/-! ## What intersect keeps -/

/-- A requested right that is covered, and the first of its canonical form. -/
def FirstKept (granted : Json) (requested : List Json) (right : Json) : Prop :=
  ∃ before after,
    requested = before ++ right :: after ∧
      accessCovers granted (.array 0 [right]) = some true ∧
        ∀ earlier ∈ before,
          accessCovers granted (.array 0 [earlier]) = some true →
          canonicalJson earlier ≠ canonicalJson right

/-- Nothing is kept where a test throws; else what is covered is. -/
theorem covered_eq (granted : Json) (requested : List Json) :
    covered granted requested =
      if ∀ one ∈ requested,
          accessCovers granted (.array 0 [one]) ≠ none then
        some (requested.filter fun one => accessCovers granted (.array 0 [one]) == some true)
      else
        none := by
  induction requested with
  | nil => simp [covered]
  | cons one rest ih =>
    simp only [covered, ih, forall_mem_cons]
    cases answer : accessCovers granted (.array 0 [one]) with
    | none => simp
    | some keep =>
      by_cases noneThrows : ∀ one ∈ rest, accessCovers granted (.array 0 [one]) ≠ none
      · rw [if_pos noneThrows, if_pos ⟨by simp, noneThrows⟩]
        cases keep <;> simp [answer]
      · rw [if_neg noneThrows, if_neg fun both => noneThrows both.2]
        rfl

/-- An element stands first in a list, or later in it. -/
theorem exists_split_cons_iff (Before : List Json → Prop) (one right : Json) (rest : List Json) :
    (∃ before after,
        one :: rest = before ++ right :: after ∧ Before before) ↔
      (one = right ∧ Before []) ∨
        ∃ before after, rest = before ++ right :: after ∧ Before (one :: before) := by
  constructor
  · rintro ⟨before, after, shape, holds⟩
    cases before with
    | nil =>
      simp only [nil_append, List.cons.injEq] at shape
      exact .inl ⟨shape.1, holds⟩
    | cons first before =>
      simp only [cons_append, List.cons.injEq] at shape
      obtain ⟨rfl, shape⟩ := shape
      exact .inr ⟨before, after, shape, holds⟩
  · rintro (⟨rfl, holds⟩ | ⟨before, after, rfl, holds⟩)
    · exact ⟨[], rest, rfl, holds⟩
    · exact ⟨one :: before, after, rfl, holds⟩

/-- What deduplication leaves of a filtered list. -/
theorem mem_dedupeFrom_filter_iff (keep : Json → Bool)
    (requested : List Json) (seen : List String) (right : Json) :
    right ∈ dedupeFrom seen (requested.filter keep) ↔
      ∃ before after,
        requested = before ++ right :: after ∧
          (keep right = true ∧
            canonicalJson right ∉ seen ∧
              ∀ earlier ∈ before,
                keep earlier = true →
                canonicalJson earlier ≠ canonicalJson right) := by
  induction requested generalizing seen with
  | nil => simp [dedupeFrom]
  | cons one rest ih =>
    rw [exists_split_cons_iff (fun before =>
      keep right = true ∧
        canonicalJson right ∉ seen ∧
          ∀ earlier ∈ before, keep earlier = true → canonicalJson earlier ≠ canonicalJson right)]
    simp only [forall_mem_cons]
    cases keepOne : keep one with
    | false =>
      rw [filter_cons_of_neg (by simp [keepOne]), ih]
      constructor
      · rintro ⟨before, after, shape, keeps, unseen, first⟩
        exact .inr ⟨before, after, shape, keeps, unseen,
          by simp, first⟩
      · rintro (⟨rfl, keeps, _⟩ | ⟨before, after, shape, keeps, unseen, _, first⟩)
        · rw [keepOne] at keeps
          cases keeps
        · exact ⟨before, after, shape, keeps, unseen, first⟩
    | true =>
      rw [filter_cons_of_pos keepOne, dedupeFrom]
      by_cases isSeen : canonicalJson one ∈ seen
      · rw [if_pos isSeen, ih]
        constructor
        · rintro ⟨before, after, shape, keeps, unseen, first⟩
          exact .inr ⟨before, after, shape, keeps, unseen,
            fun _ same => unseen (same ▸ isSeen), first⟩
        · rintro (⟨rfl, _, unseen, _⟩ | ⟨before, after, shape, keeps, unseen, _, first⟩)
          · exact absurd isSeen unseen
          · exact ⟨before, after, shape, keeps, unseen, first⟩
      · rw [if_neg isSeen, mem_cons, ih]
        constructor
        · rintro (rfl | ⟨before, after, shape, keeps, unseen, first⟩)
          · exact .inl ⟨rfl, keepOne, isSeen, by simp⟩
          · rw [mem_cons, not_or] at unseen
            exact .inr ⟨before, after, shape, keeps, unseen.2, fun _ => Ne.symm unseen.1, first⟩
        · rintro (⟨rfl, _⟩ | ⟨before, after, shape, keeps, unseen, notOne, first⟩)
          · exact .inl rfl
          · refine .inr ⟨before, after, shape, keeps, ?_, first⟩
            rw [mem_cons, not_or]
            exact ⟨Ne.symm (notOne rfl), unseen⟩

/-- What narrowing keeps, where nothing throws. -/
theorem intersect_spec (granted : Json) (requested : List Json) :
    if ∀ one ∈ requested,
        accessCovers granted (.array 0 [one]) ≠ none then
      ∃ narrowed,
        intersect granted requested = some narrowed ∧
          ∀ right, right ∈ narrowed ↔ FirstKept granted requested right
    else
      intersect granted requested = none := by
  unfold intersect
  rw [covered_eq]
  split
  · refine ⟨_, rfl, ?_⟩
    intro right
    rw [dedupe, mem_dedupeFrom_filter_iff]
    simp [FirstKept]
  · rfl

/-- An array of needs is covered when each of them is. -/
theorem accessCovers_array (identity identity' : Nat) (rights needs : List Json) :
    accessCovers (.array identity rights) (.array identity' needs) =
      needs.allM (coversNeed rights) := by
  cases needs <;> rfl

/-- A right is kept out of an array of granted rights. -/
theorem kept_shape {granted right : Json}
    (kept : accessCovers granted (.array 0 [right]) = some true) :
    ∃ identity rights, granted = .array identity rights ∧ coversNeed rights right = some true := by
  cases granted with
  | array identity rights =>
    rw [accessCovers_array, allM_singleton] at kept
    exact ⟨identity, rights, rfl, kept⟩
  | _ => cases kept

/-- No rights cover no need. -/
theorem coversNeed_nil (need : Json) : coversNeed [] need ≠ some true := by
  intro covers
  cases need with
  | object identity required =>
    have typed : hasType required = true := by
      by_contra notTyped
      simp [coversNeed, notTyped] at covers
    rw [coversNeed_object _ _ typed, allM_eq_true_iff] at covers
    obtain ⟨part, isPart⟩ := exists_mem_of_ne_nil _ (partsOf_spec typed).1
    simpa [someCovers, List.anyM] using covers part isPart
  | string text => simp [coversNeed, includes] at covers
  | _ => cases covers

/-! ## Narrowing by single objects is sound -/

/-- An element that the kept rights cover, the grant covers or throws on. -/
theorem coversNeed_of_kept {granted : List Json} (identity : Nat) {narrowed : List Json}
    (areKept :
      ∀ right ∈ narrowed,
        coversNeed granted right = some true ∧ keptByOne (.array identity granted) right = true)
    {need : Json}
    (covers : coversNeed narrowed need = some true) :
    coversNeed granted need ≠ some false ∧
      (IsRight need → coversNeed granted need = some true) := by
  cases need with
  | string text =>
    have isKept : .string text ∈ narrowed := by
      simp only [coversNeed, Option.some.injEq, includes_iff] at covers
      obtain ⟨element, isElement, equal⟩ := covers
      exact strictEqual_string equal ▸ isElement
    have granted := (areKept _ isKept).1
    exact ⟨by simp [granted], fun _ => granted⟩
  | object needIdentity required =>
    have typed : hasType required = true := by
      by_contra notTyped
      simp [coversNeed, notTyped] at covers
    rw [coversNeed_object _ _ typed] at covers ⊢
    obtain ⟨_, areParts⟩ := partsOf_spec typed
    have coversPart :
        ∀ part ∈ partsOf required,
          ∃ right ∈ granted.filter isObject, objectCoversPoint right part = some true := by
      intro part isAPart
      have partCovered := (allM_eq_true_iff _ _).mp covers part isAPart
      obtain ⟨right, isRight, rightCovers⟩ := exists_of_anyM partCovered
      obtain ⟨isNarrowed, rightIsObject⟩ := mem_filter.mp isRight
      cases right with
      | object keptIdentity kept =>
        obtain ⟨keptCovered, byOne⟩ := areKept _ isNarrowed
        have keptTyped : hasType kept = true := by
          by_contra notTyped
          simp [coversNeed, notTyped] at keptCovered
        simp only [keptByOne, any_eq_true] at byOne
        obtain ⟨single, isGranted, alone⟩ := byOne
        cases single with
        | object singleIdentity singleMembers =>
          exact ⟨_, mem_filter.mpr ⟨isGranted, rfl⟩,
            covers_of_coversAlone typed keptTyped (areParts part isAPart) rightCovers alone⟩
        | _ => cases alone
      | _ => cases rightIsObject
    have notRefused : (partsOf required).allM (someCovers granted) ≠ some false := by
      refine allM_ne_false fun part isAPart => ?_
      obtain ⟨right, isRight, rightCovers⟩ := coversPart part isAPart
      exact anyM_ne_false isRight rightCovers
    refine ⟨notRefused, fun isRight => ?_⟩
    refine eq_true_of_isSome (allM_isSome fun part isAPart => ?_) notRefused
    refine anyM_isSome fun right _ => ?_
    refine objectCoversPoint_isSome right fun member isMember isDimension => ?_
    rcases ((areParts part isAPart).dimension member isMember isDimension).2 with isArray | isListed
    · exact isArray
    · exact isRight member.1 isDimension member.2 isListed
  | _ => cases covers

/-- Where each kept right is covered by one object alone, narrowing narrows. -/
theorem narrows_of_keptByOne {granted : Json}
    (keptAlone :
      (∀ one ∈ requested, accessCovers granted (.array 0 [one]) ≠ none) →
      ∀ right, FirstKept granted requested right → keptByOne granted right = true) :
    Narrows granted requested := by
  intro narrowed required isNarrowed covers
  have spec := intersect_spec granted requested
  split at spec
  · next noneThrows =>
      obtain ⟨_, intersected, isKeptIff⟩ := spec
      rw [isNarrowed, Option.some.injEq] at intersected
      subst intersected
      cases required with
      | null => exact ⟨by simp [accessCovers], fun _ => rfl⟩
      | array needIdentity needs =>
        rw [accessCovers_array, allM_eq_true_iff] at covers
        cases needs with
        | nil => exact ⟨by simp [accessCovers], fun _ => rfl⟩
        | cons need others =>
          -- Something is covered, so something was kept.
          have someKept : narrowed ≠ [] := by
            rintro rfl
            exact coversNeed_nil need (covers need mem_cons_self)
          obtain ⟨right, isKept⟩ := exists_mem_of_ne_nil _ someKept
          obtain ⟨_, _, _, rightCovered, _⟩ := (isKeptIff right).mp isKept
          obtain ⟨identity, rights, rfl, _⟩ := kept_shape rightCovered
          have areKept :
              ∀ right ∈ narrowed,
                coversNeed rights right = some true ∧
                  keptByOne (.array identity rights) right = true := by
            intro right isKept
            obtain ⟨_, _, _, rightCovered, _⟩ := (isKeptIff right).mp isKept
            obtain ⟨_, _, sameArray, coversRight⟩ := kept_shape rightCovered
            cases sameArray
            exact ⟨coversRight, keptAlone noneThrows right ((isKeptIff right).mp isKept)⟩
          have eachNeed (need : Json) (isNeed : need ∈ _) :=
            coversNeed_of_kept identity areKept (covers need isNeed)
          rw [accessCovers_array]
          refine ⟨allM_ne_false fun need isNeed => (eachNeed need isNeed).1, fun isAccess => ?_⟩
          exact (allM_eq_true_iff _ _).mpr fun need isNeed =>
            (eachNeed need isNeed).2 (isAccess need isNeed)
      | _ => cases covers
  · rw [isNarrowed] at spec
    cases spec

/-! ## Nothing less will do -/

/-- The texts of a granted object's values, and of their elements. -/
def textsOf : Json → List String
  | .object _ members =>
    members.flatMap fun member =>
      canonical member.2 ::
        match member.2 with
        | .array _ elements => elements.map canonical
        | _ => []
  | _ => []

/-- A text longer than any of some texts. -/
theorem exists_longer (texts : List String) :
    ∃ fresh : String, ∀ text ∈ texts, text.length < fresh.length := by
  have bound : ∃ length, ∀ text ∈ texts, text.length < length := by
    induction texts with
    | nil => exact ⟨0, by simp⟩
    | cons text rest ih =>
      obtain ⟨length, longer⟩ := ih
      refine ⟨max length (text.length + 1), ?_⟩
      intro other isText
      rcases mem_cons.mp isText with rfl | inRest
      · omega
      · have := longer other inRest
        omega
  obtain ⟨length, longer⟩ := bound
  exact ⟨String.ofList (List.replicate length 'a'), by simpa using longer⟩

/-- A value no granted object was found to list. -/
def freshValue (fresh : String) (key : String) : Json :=
  if key ∈ arrayDimensions then
    .array 0 (List.replicate (maxPoints + 1) (.string fresh))
  else
    .string fresh

/-- An object that lists a key does not allow a fresh value for it. -/
theorem not_allows_fresh
    (isFresh : ∀ text ∈ textsOf (.object identity granted), text.length < fresh.length)
    (notType : key ≠ "type") (listed : key ∈ keys granted) :
    ¬ Allows granted key (freshValue fresh key) := by
  have quoteUnseen :
      quote fresh ∉ textsOf (.object identity granted) := fun seen =>
    absurd (isFresh _ seen) (Nat.lt_asymm (length_le_length_quote fresh))
  obtain ⟨held, lookedUp⟩ := Option.isSome_iff_exists.mp ((mem_keys_iff _ _).mp listed)
  have readHeld : JsObject.read granted key = .own held := by simp [JsObject.read, lookedUp]
  have isMember : (key, held) ∈ granted := JsObject.mem_of_read_own readHeld
  have heldSeen :
      canonical held ∈ textsOf (.object identity granted) :=
    mem_flatMap.mpr ⟨(key, held), isMember, mem_cons_self⟩
  rw [allows_iff notType, readHeld]
  simp only [freshValue]
  split_ifs with isDimension isIdentifier
  · rintro ⟨arrayIdentity, allowed, _, values, rfl, sameValues, within⟩
    cases sameValues
    obtain ⟨element, isElement, equal⟩ :=
      (includes_iff _ _).mp (within (.string fresh) (mem_replicate.mpr ⟨by decide, rfl⟩))
    rw [strictEqual_string equal] at isElement
    refine quoteUnseen (mem_flatMap.mpr ⟨(key, _), isMember, mem_cons_of_mem _ ?_⟩)
    exact mem_map.mpr ⟨.string fresh, isElement, by simp [canonical]⟩
  · intro equal
    rw [strictEqual_string equal] at heldSeen
    exact quoteUnseen (by simpa [canonical] using heldSeen)
  · intro equal
    rw [show canonical held = quote fresh by
      simpa [canonicalJson, canonical] using equal] at heldSeen
    exact quoteUnseen heldSeen

/-- A listed dimension, repeated until it passes the cap. -/
def repeated (key : String) (value : Json) : Json :=
  match value with
  | .array identity elements =>
    if key ∈ arrayDimensions then
      .array 0 (List.replicate (maxPoints + 1) elements).flatten
    else
      .array identity elements
  | _ => value

/-- The names a kept right leaves out, among those a grant could list. -/
def leftOut (rights : List Json) (kept : Members) : List String :=
  (arrayDimensions ++ rights.flatMap fun right =>
    match right with
    | .object _ members => keys members
    | _ => []).filter fun key => !lists kept key

/--
The requirement that puts a kept right to the test: it asks the whole of it,
and something fresh of whatever it leaves out and a granted object lists.
-/
def challenge (rights : List Json) (kept : Members) (fresh : String) : Members :=
  (outlineOf kept).map (fun member =>
      (member.1, repeated member.1 member.2)) ++
    (leftOut rights kept).map fun key => (key, freshValue fresh key)

/-- The challenge asks the outline, and something fresh beside it. -/
theorem lookup_challenge (rights : List Json) (kept : Members) (fresh key : String) :
    (challenge rights kept fresh).lookup key =
      (((outlineOf kept).lookup key).map (repeated key)).or
        (if key ∈ leftOut rights kept then
          some (freshValue fresh key)
        else
          none) := by
  rw [challenge, lookup_append, lookup_map_values, lookup_map_names]

/-- What the challenge asks under a name, in its two cases. -/
theorem lookup_challenge_cases (asked : (challenge rights kept fresh).lookup key = some value) :
    (∃ held,
      kept.lookup key = some held ∧ isOutlined (key, held) = true ∧ value = repeated key held) ∨
      (key ∈ leftOut rights kept ∧ value = freshValue fresh key) := by
  rw [lookup_challenge] at asked
  cases outlined : (outlineOf kept).lookup key with
  | some held =>
    obtain ⟨lookedUp, bears⟩ := (lookup_filter_entries _ _ _ _).mp outlined
    rw [outlined] at asked
    exact .inl ⟨held, lookedUp, bears, (Option.some.inj asked).symm⟩
  | none =>
    rw [outlined] at asked
    simp only [Option.map_none, Option.none_or] at asked
    split at asked
    · next isLeftOut => exact .inr ⟨isLeftOut, (Option.some.inj asked).symm⟩
    · cases asked

/-- Repeating a list that is not empty makes it as long as it is repeated. -/
theorem length_flatten_replicate (times : Nat) (first : Json) (rest : List Json) :
    times ≤ (List.replicate times (first :: rest)).flatten.length := by
  induction times with
  | zero => simp
  | succ times ih =>
    rw [replicate_succ, flatten_cons, length_append, length_cons]
    omega

/-- Every dimension of the challenge is longer than the cap. -/
theorem challenge_dimension {fresh dim : String} (isDimension : dim ∈ arrayDimensions)
    (asked : (challenge rights kept fresh).lookup dim = some value) :
    ∃ identity first rest,
      value = .array identity (first :: rest) ∧ maxPoints < (first :: rest).length := by
  rcases lookup_challenge_cases asked with
    ⟨held, _, outlined, rfl⟩ | ⟨_, rfl⟩
  · simp only [isOutlined, isDimension, true_implies, decide_eq_true_eq]
      at outlined
    obtain ⟨_, listing⟩ := outlined
    cases held with
    | array identity elements =>
      cases elements with
      | nil => cases listing
      | cons first rest =>
        simp only [repeated, isDimension, if_true]
        refine ⟨0, first, rest ++ (List.replicate maxPoints (first :: rest)).flatten, ?_, ?_⟩
        · simp [replicate_succ]
        · have long := length_flatten_replicate maxPoints first rest
          simp only [length_cons, length_append]
          omega
    | _ => cases listing
  · simp only [freshValue, isDimension, if_true]
    exact ⟨0, .string fresh, List.replicate maxPoints (.string fresh),
      by rw [replicate_succ], by simp⟩

/-- Where every dimension is past the cap, no points are made. -/
theorem foldlM_expand_long
    (areLong :
      ∀ dim ∈ dims, ∀ value,
        required.lookup dim = some value →
        ∃ identity first rest,
          value = .array identity (first :: rest) ∧ maxPoints < (first :: rest).length)
    (point : Members) :
    dims.foldlM (expand required) [point] =
      if ∀ dim ∈ dims, required.lookup dim = none then
        some [point]
      else
        none := by
  induction dims with
  | nil => simp
  | cons dim rest ih =>
    rw [foldlM_cons]
    cases listed : required.lookup dim with
    | none =>
      have unchanged : expand required [point] dim = some [point] := by simp [expand, listed]
      simp only [unchanged, Option.bind_eq_bind, Option.bind_some,
        forall_mem_cons, listed, true_and]
      exact ih fun later isLater => areLong later (mem_cons_of_mem _ isLater)
    | some value =>
      obtain ⟨identity, first, others, rfl, long⟩ := areLong dim mem_cons_self value listed
      have pastCap : expand required [point] dim = none := by
        simp only [expand, listed, length_singleton, Nat.one_mul]
        exact if_pos long
      rw [pastCap, if_neg]
      · rfl
      · intro noneListed
        rw [noneListed dim mem_cons_self] at listed
        cases listed

/-- So the whole of the challenge is what is asked. -/
theorem partsOf_challenge (rights : List Json) (kept : Members) (fresh : String) :
    partsOf (challenge rights kept fresh) = [wholeOf (challenge rights kept fresh)] := by
  unfold partsOf pointsOf
  rw [foldlM_expand_long fun dim isDimension value asked => challenge_dimension isDimension asked]
  split_ifs with noDimensions
  · simp only [List.cons.injEq, and_true, wholeOf]
    apply filter_congr
    intro member isMember
    have asked := (mem_entries_iff _ _ _).mp isMember
    have notDimension : member.1 ∉ arrayDimensions := fun isDimension => by
      simp [noDimensions member.1 isDimension] at asked
    simp [isCarried, isAsked, notDimension]
  · rfl

/-- The whole of the challenge is all of it. -/
theorem mem_wholeOf_challenge_iff {value : Json} :
    (key, value) ∈ wholeOf (challenge rights kept fresh) ↔
      (challenge rights kept fresh).lookup key = some value := by
  rw [wholeOf, mem_filter, mem_entries_iff, and_iff_left_iff_imp]
  intro asked
  have notEmpty : key ∈ arrayDimensions → isEmptyArray value = false := by
    intro isDimension
    obtain ⟨_, _, _, rfl, _⟩ := challenge_dimension isDimension asked
    rfl
  have notProto : key ≠ "__proto__" := by
    rintro rfl
    rcases lookup_challenge_cases asked with
      ⟨_, _, outlined, _⟩ | ⟨isLeftOut, _⟩
    · simp [isOutlined] at outlined
    · have inherits : lists kept "__proto__" = true := by
        unfold lists JsObject.read
        cases kept.lookup "__proto__" with
        | some _ => rfl
        | none => simp [JsObject.Inherited, JsObject.inheritedNames]
      simp [leftOut, inherits] at isLeftOut
  simp only [isAsked, decide_eq_true_eq, ne_eq, notProto, not_false_eq_true, true_and]
  rintro ⟨isDimension, isEmpty⟩
  rw [notEmpty isDimension] at isEmpty
  cases isEmpty

/-- The challenge has the type of the kept right. -/
theorem lookup_type_challenge (typed : kept.lookup "type" = some (.string type)) :
    (challenge rights kept fresh).lookup "type" = some (.string type) := by
  rw [lookup_challenge, lookup_type_outlineOf typed]
  rfl

theorem hasType_challenge (typed : hasType kept = true) :
    hasType (challenge rights kept fresh) = true := by
  obtain ⟨type, held⟩ := exists_type typed
  simp only [hasType, held] at typed
  simp only [hasType, lookup_type_challenge held, typed]

/-- A kept right covers the challenge to it. -/
theorem covers_challenge (identity : Nat) (fresh : String) (typed : hasType kept = true) :
    objectCoversPoint (.object identity kept)
        (wholeOf (challenge rights kept fresh)) = some true := by
  obtain ⟨type, held⟩ := exists_type typed
  have partType :
      (wholeOf (challenge rights kept fresh)).lookup "type" = some (.string type) :=
    (isPart_wholeOf (hasType_challenge typed)).type.trans (lookup_type_challenge held)
  rw [objectCoversPoint_iff, sameMember_type_iff partType]
  refine ⟨held, ?_⟩
  rintro ⟨key, value⟩ isMember
  by_cases isType : key = "type"
  · simp [Allows, coversMember, isType]
  rw [allows_iff isType]
  rcases lookup_challenge_cases (mem_wholeOf_challenge_iff.mp isMember)
    with ⟨keptHeld, lookedUp, outlined, rfl⟩ | ⟨isLeftOut, rfl⟩
  · simp only [JsObject.read, lookedUp]
    split_ifs with isDimension isIdentifier
    · simp only [isOutlined, isDimension, true_implies, decide_eq_true_eq] at outlined
      cases keptHeld with
      | array keptIdentity elements =>
        simp only [repeated, isDimension, if_true]
        refine ⟨_, _, _, _, rfl, rfl, ?_⟩
        intro one isOne
        obtain ⟨copy, isCopy, isInCopy⟩ := mem_flatten.mp isOne
        rw [(mem_replicate.mp isCopy).2] at isInCopy
        exact (includes_iff _ _).mpr ⟨one, isInCopy, strictEqual_self one⟩
      | _ => cases outlined.2
    · cases keptHeld <;> simp [repeated, isDimension]
    · cases keptHeld <;> simp [repeated, isDimension]
  · have notListed : lists kept key = false := by
      simpa [leftOut] using (mem_filter.mp isLeftOut).2
    unfold lists at notListed
    split at notListed
    · next notRead => rw [notRead]; trivial
    · cases notListed

/-- What covers the challenge covers the kept right alone. -/
theorem coversAlone_of_covers_challenge (typed : hasType kept = true)
    (isGranted : .object identity granted ∈ rights)
    (isFresh : ∀ text ∈ textsOf (.object identity granted), text.length < fresh.length)
    (covers :
      objectCoversPoint (.object identity granted)
        (wholeOf (challenge rights kept fresh)) = some true) :
    coversAlone kept (.object identity granted) = true := by
  obtain ⟨type, held⟩ := exists_type typed
  have partType :
      (wholeOf (challenge rights kept fresh)).lookup "type" = some (.string type) :=
    (isPart_wholeOf (hasType_challenge typed)).type.trans (lookup_type_challenge held)
  rw [objectCoversPoint_iff, sameMember_type_iff partType] at covers
  obtain ⟨grantedType, allows⟩ := covers
  simp only [coversAlone, Bool.and_eq_true, beq_iff_eq, all_eq_true]
  constructor
  · rw [objectCoversPoint_iff, sameMember_type_iff (lookup_type_outlineOf held)]
    refine ⟨grantedType, ?_⟩
    rintro ⟨key, value⟩ isMember
    obtain ⟨isEntry, outlined⟩ := mem_filter.mp isMember
    have asked : (challenge rights kept fresh).lookup key = some (repeated key value) := by
      have inOutline : (outlineOf kept).lookup key = some value :=
        (lookup_filter_entries _ _ _ _).mpr ⟨(mem_entries_iff _ _ _).mp isEntry, outlined⟩
      rw [lookup_challenge, inOutline]
      rfl
    have allowsRepeated := allows (key, repeated key value) (mem_wholeOf_challenge_iff.mpr asked)
    by_cases isType : key = "type"
    · simp [Allows, coversMember, isType]
    by_cases isDimension : key ∈ arrayDimensions
    · simp only [isOutlined, isDimension, true_implies, decide_eq_true_eq] at outlined
      cases value with
      | array valueIdentity elements =>
        simp only [repeated, isDimension, if_true] at allowsRepeated
        rw [allows_iff isType] at allowsRepeated ⊢
        cases readGranted : JsObject.read granted key with
        | absent => trivial
        | inherited => simp [readGranted] at allowsRepeated
        | own grantedHeld =>
          simp only [readGranted, isDimension, if_true]
            at allowsRepeated ⊢
          obtain ⟨_, allowed, _, values, rfl, sameValues, within⟩ := allowsRepeated
          cases sameValues
          refine ⟨_, _, _, _, rfl, rfl, ?_⟩
          intro one isOne
          exact within one (mem_flatten.mpr
            ⟨elements, mem_replicate.mpr ⟨by decide, rfl⟩, isOne⟩)
      | _ => cases outlined.2
    · have unchanged : repeated key value = value := by
        cases value <;> simp [repeated, isDimension]
      rwa [unchanged] at allowsRepeated
  · intro key listed
    by_contra notListed
    rw [Bool.not_eq_true] at notListed
    have notType : key ≠ "type" := by
      rintro rfl
      simp [lists, JsObject.read, held] at notListed
    have isLeftOut : key ∈ leftOut rights kept := by
      refine mem_filter.mpr ⟨mem_append_right _ ?_, by simp [notListed]⟩
      exact mem_flatMap.mpr ⟨_, isGranted, listed⟩
    have notOutlined : (outlineOf kept).lookup key = none := by
      by_contra outlined
      obtain ⟨value, isOutlinedValue⟩ := Option.ne_none_iff_exists'.mp outlined
      have lookedUp := ((lookup_filter_entries _ _ _ _).mp isOutlinedValue).1
      simp [lists, JsObject.read, lookedUp] at notListed
    have asked : (challenge rights kept fresh).lookup key = some (freshValue fresh key) := by
      rw [lookup_challenge, notOutlined, if_pos isLeftOut]
      rfl
    exact not_allows_fresh isFresh notType listed
      (allows (key, freshValue fresh key) (mem_wholeOf_challenge_iff.mpr asked))

/-- Where narrowing narrows, each kept right is covered by one object alone. -/
theorem keptByOne_of_narrows {granted : Json} (narrows : Narrows granted requested)
    (noneThrows : ∀ one ∈ requested, accessCovers granted (.array 0 [one]) ≠ none)
    {right : Json} (first : FirstKept granted requested right) :
    keptByOne granted right = true := by
  have spec := intersect_spec granted requested
  rw [if_pos noneThrows] at spec
  obtain ⟨narrowed, isNarrowed, isKeptIff⟩ := spec
  have isKept := (isKeptIff right).mpr first
  obtain ⟨_, _, _, rightCovered, _⟩ := first
  obtain ⟨identity, rights, rfl, coversRight⟩ := kept_shape rightCovered
  cases right with
  | object keptIdentity kept =>
    have typed : hasType kept = true := by
      by_contra notTyped
      simp [coversNeed, notTyped] at coversRight
    obtain ⟨fresh, isFresh⟩ := exists_longer (rights.flatMap textsOf)
    let need : Json := .object 0 (challenge rights kept fresh)
    have isAccess : IsAccess (.array 0 [need]) := by
      intro one isOne
      rw [mem_singleton] at isOne
      subst isOne
      intro dim isDimension value asked
      obtain ⟨valueIdentity, first, rest, shape, _⟩ := challenge_dimension isDimension asked
      exact ⟨valueIdentity, _, shape⟩
    have narrowedCovers : accessCovers (.array 0 narrowed) (.array 0 [need]) = some true := by
      rw [accessCovers_array, allM_singleton, coversNeed_object _ _ (hasType_challenge typed),
        partsOf_challenge, allM_singleton]
      refine eq_true_of_isSome
        (anyM_isSome fun other _ => ?_)
        (anyM_ne_false (mem_filter.mpr ⟨isKept, rfl⟩)
          (covers_challenge keptIdentity fresh typed))
      refine objectCoversPoint_isSome other ?_
      rintro ⟨key, value⟩ isMember isDimension
      obtain ⟨valueIdentity, first, rest, shape, _⟩ :=
        challenge_dimension isDimension (mem_wholeOf_challenge_iff.mp isMember)
      exact ⟨valueIdentity, _, shape⟩
    have grantedCovers := (narrows narrowed _ isNarrowed narrowedCovers).2 isAccess
    rw [accessCovers_array, allM_singleton, coversNeed_object _ _ (hasType_challenge typed),
      partsOf_challenge, allM_singleton] at grantedCovers
    obtain ⟨single, isSingle, singleCovers⟩ := exists_of_anyM grantedCovers
    obtain ⟨isGranted, singleIsObject⟩ := mem_filter.mp isSingle
    simp only [keptByOne, any_eq_true]
    cases single with
    | object singleIdentity members =>
      exact ⟨_, isGranted, coversAlone_of_covers_challenge typed isGranted
          (fun text isText => isFresh text (mem_flatMap.mpr ⟨_, isGranted, isText⟩))
          singleCovers⟩
    | _ => cases singleIsObject
  | _ => rfl

/-- A right to read photos, and the right that leaves the actions out. -/
def readPhotos : Json :=
  .object 0 [("type", .string "photo-api"), ("actions", .array 1 [.string "read"])]

def anyPhotos : Json := .object 2 [("type", .string "photo-api")]

def deletePhotos : Json :=
  .object 3 [("type", .string "photo-api"), ("actions", .array 4 [.string "delete"])]

end IyaSts.GnapAccess
