import IyaSts.Json
import IyaSts.PersistenceTiers

namespace IyaSts.Tiers

open DistinguishedName JsObject

/-!
# What a split group keeps, and what it keeps to itself

Splitting and joining are followed by what is read of the halves and of the
joined group: each attribute that is written was not there before, and joining
only adds to the attribute that is there already.
-/

open List

section

variable {toLowerCase : String → String}

/-- The attributes of an entry, whose keys are an object's. -/
structure AttributeMap where
  members : Attributes
  distinct : (members.map Prod.fst).Nodup

/-- A value of an attribute, whatever the letter case of its key. -/
def Holds (toLowerCase : String → String) (attrs : Attributes) (label value : String) : Prop :=
  ∃ name held, attrs.lookup name = some held ∧ toLowerCase name = label ∧ value ∈ held.values

/-! ## The two halves -/

/-- What the global half gets of an attribute. -/
def globalOf (toLowerCase : String → String) (entry : String × Held) : Option Held :=
  if ¬ IsMember toLowerCase entry.1 then
    some entry.2
  else if othersOf toLowerCase entry ≠ [] ∨ peopleOf toLowerCase entry = [] then
    some (.many (othersOf toLowerCase entry))
  else
    none

/-- What the cell half gets of it. -/
def cellOf (toLowerCase : String → String) (entry : String × Held) : Option Held :=
  if IsMember toLowerCase entry.1 ∧ peopleOf toLowerCase entry ≠ [] then
    some (.many (peopleOf toLowerCase entry))
  else
    none

variable {value : String} {out cell : Attributes} {entry : String × Held} (halves : Halves)

theorem splitOne_globalHalf (entry : String × Held) :
    (splitOne toLowerCase halves entry).globalHalf =
      put (globalOf toLowerCase) halves.globalHalf entry := by
  unfold splitOne put globalOf
  by_cases isMember : IsMember toLowerCase entry.1
  · rw [if_neg (not_not.mpr isMember), if_neg (not_not.mpr isMember)]
    dsimp only
    split_ifs <;> rfl
  · rw [if_pos isMember, if_pos isMember]

theorem splitOne_cellHalf (entry : String × Held) :
    (splitOne toLowerCase halves entry).cellHalf =
      put (cellOf toLowerCase) halves.cellHalf entry := by
  unfold splitOne put cellOf
  by_cases isMember : IsMember toLowerCase entry.1
  · rw [if_neg (not_not.mpr isMember)]
    dsimp only
    by_cases hasPeople : peopleOf toLowerCase entry = []
    · rw [if_neg (not_not.mpr hasPeople), if_neg fun both => both.2 hasPeople]
    · rw [if_pos hasPeople, if_pos ⟨isMember, hasPeople⟩]
  · rw [if_pos isMember, if_neg fun both => isMember both.1]

/-- What is read of the global half. -/
theorem lookup_globalHalf (attrs : AttributeMap) (name : String) :
    (splitGroup toLowerCase attrs.members).globalHalf.lookup name =
      match attrs.members.lookup name with
      | some held =>
        if name = "__proto__" then none
        else globalOf toLowerCase (name, held)
      | none => none := by
  have shape :
      (splitGroup toLowerCase attrs.members).globalHalf =
        attrs.members.foldl (put (globalOf toLowerCase)) [] :=
    (foldl_hom Halves.globalHalf fun halves entry =>
      (splitOne_globalHalf halves entry).symm).symm
  rw [shape]
  have isRead :=
    @lookup_foldl_put _ _ attrs.members [] (globalOf toLowerCase)
      attrs.distinct (fun _ _ => rfl) name
  cases isHeld : attrs.members.lookup name with
  | none =>
    rw [isHeld] at isRead
    exact isRead
  | some held =>
    rw [isHeld] at isRead
    exact isRead

/-- What is read of the cell half. -/
theorem lookup_cellHalf (attrs : AttributeMap) (name : String) :
    (splitGroup toLowerCase attrs.members).cellHalf.lookup name =
      match attrs.members.lookup name with
      | some held =>
        if name = "__proto__" then none
        else cellOf toLowerCase (name, held)
      | none => none := by
  have shape :
      (splitGroup toLowerCase attrs.members).cellHalf =
        attrs.members.foldl (put (cellOf toLowerCase)) [] :=
    (foldl_hom Halves.cellHalf fun halves entry => (splitOne_cellHalf halves entry).symm).symm
  rw [shape]
  have isRead :=
    @lookup_foldl_put _ _ attrs.members [] (cellOf toLowerCase) attrs.distinct (fun _ _ => rfl) name
  cases isHeld : attrs.members.lookup name with
  | none =>
    rw [isHeld] at isRead
    exact isRead
  | some held =>
    rw [isHeld] at isRead
    exact isRead

/-! ## Joining one attribute -/

/-- What is added was given, and is nothing every object inherits. -/
theorem mem_of_mem_unseen {seen values : List String}
    (isUnseen : value ∈ unseen toLowerCase seen values) :
    value ∈ values ∧ ¬ Inherited (toLowerCase value) := by
  induction values generalizing seen with
  | nil => cases isUnseen
  | cons first rest ih =>
    rw [unseen] at isUnseen
    split at isUnseen
    · obtain ⟨isLater, plain⟩ := ih isUnseen
      exact ⟨mem_cons_of_mem _ isLater, plain⟩
    · rename_i notSeen
      rcases mem_cons.mp isUnseen with rfl | isLater
      · exact ⟨mem_cons_self, fun inherited => notSeen (.inl inherited)⟩
      · obtain ⟨isLater, plain⟩ := ih isLater
        exact ⟨mem_cons_of_mem _ isLater, plain⟩

/-- What is given and not added was seen, but for what every object inherits. -/
theorem seen_or_unseen {seen values : List String} {value : String} (isGiven : value ∈ values)
    (plain : ¬ Inherited (toLowerCase value)) :
    toLowerCase value ∈ seen ∨
      ∃ other ∈ unseen toLowerCase seen values, toLowerCase other = toLowerCase value := by
  induction values generalizing seen with
  | nil => cases isGiven
  | cons first rest ih =>
    rw [unseen]
    split
    · rename_i wasSeen
      rcases mem_cons.mp isGiven with rfl | isLater
      · exact .inl (wasSeen.resolve_left plain)
      · exact ih isLater
    · rcases mem_cons.mp isGiven with rfl | isLater
      · exact .inr ⟨value, mem_cons_self, rfl⟩
      · rcases @ih (toLowerCase first :: seen) isLater with
          isSeen | ⟨other, isUnseen, same⟩
        · rcases mem_cons.mp isSeen with same | isSeen
          · exact .inr ⟨first, mem_cons_self, same.symm⟩
          · exact .inl isSeen
        · exact .inr ⟨other, mem_cons_of_mem _ isUnseen, same⟩

/-- The key that is there is the same attribute. -/
theorem toLowerCase_existingKey (out : Attributes) (name : String) :
    toLowerCase (existingKey toLowerCase out name) = toLowerCase name := by
  unfold existingKey
  cases found :
      out.find? fun entry => toLowerCase entry.1 = toLowerCase name with
  | none => rfl
  | some entry =>
    dsimp only
    split
    · rfl
    · simpa using List.find?_some found

/-- What is held after one attribute was joined. -/
theorem holds_joinOne_iff (protoPlain : ¬ IsMember toLowerCase "__proto__")
    (isMember : IsMember toLowerCase entry.1) (label value : String) :
    Holds toLowerCase (joinOne toLowerCase out entry) label value ↔
      Holds toLowerCase out label value ∨
        (label = toLowerCase entry.1 ∧
          value ∈
            unseen toLowerCase
              ((valuesAt out (existingKey toLowerCase out entry.1)).map
                toLowerCase) entry.2.values) := by
  have sameAttribute := @toLowerCase_existingKey toLowerCase out entry.1
  unfold joinOne
  rw [if_neg (not_not.mpr isMember)]
  dsimp only
  generalize existingKey toLowerCase out entry.1 = key at sameAttribute ⊢
  have notProto : key ≠ "__proto__" := by
    rintro rfl
    refine protoPlain ?_
    unfold IsMember at isMember ⊢
    rwa [sameAttribute]
  constructor
  · rintro ⟨name, held, isHeld, isLabel, isValue⟩
    rw [lookup_assign out (.inl notProto)] at isHeld
    split at isHeld
    · rename_i isKey
      cases isHeld
      subst isKey
      rcases mem_append.mp isValue with wasThere | isAdded
      · unfold valuesAt at wasThere
        split at wasThere
        · rename_i held wasHeld
          exact .inl ⟨name, held, wasHeld, isLabel, wasThere⟩
        · cases wasThere
      · exact .inr ⟨isLabel.symm.trans sameAttribute, isAdded⟩
    · exact .inl ⟨name, held, isHeld, isLabel, isValue⟩
  · rintro (⟨name, held, isHeld, isLabel, isValue⟩ | ⟨rfl, isAdded⟩)
    · by_cases isKey : name = key
      · subst isKey
        refine ⟨name, _, by rw [lookup_assign out (.inl notProto), if_pos rfl], isLabel, ?_⟩
        refine mem_append_left _ ?_
        rw [valuesAt, isHeld]
        exact isValue
      · refine ⟨name, held, ?_, isLabel, isValue⟩
        rw [lookup_assign out (.inl notProto), if_neg isKey]
        exact isHeld
    · refine ⟨key, _, by
        rw [lookup_assign out (.inl notProto), if_pos rfl], sameAttribute, ?_⟩
      exact mem_append_right _ isAdded

/-- Joining reads nothing else otherwise. -/
theorem lookup_joinOne {name : String} (notMember : ¬ IsMember toLowerCase name) :
    (joinOne toLowerCase out entry).lookup name = out.lookup name := by
  unfold joinOne
  split
  · rfl
  · rename_i isMember
    refine lookup_assign_other out ?_ _
    rintro rfl
    refine isMember fun isMember => notMember ?_
    unfold IsMember at isMember ⊢
    rwa [@toLowerCase_existingKey toLowerCase]

/-! ## Joining what was split -/

/-- The copy that joining starts from reads as the global half. -/
theorem lookup_copy (attrs : AttributeMap) (name : String) :
    ((splitGroup toLowerCase attrs.members).globalHalf.foldl
        (fun out entry => assign out entry.1 entry.2) []).lookup name =
      (splitGroup toLowerCase attrs.members).globalHalf.lookup name := by
  have distinct : ((splitGroup toLowerCase attrs.members).globalHalf.map Prod.fst).Nodup := by
    have shape :
        (splitGroup toLowerCase attrs.members).globalHalf =
          attrs.members.foldl (put (globalOf toLowerCase)) [] :=
      (foldl_hom Halves.globalHalf fun halves entry =>
        (splitOne_globalHalf halves entry).symm).symm
    rw [shape]
    exact nodup_foldl_put _ _ nodup_nil
  have noProto := @lookup_globalHalf toLowerCase attrs "__proto__"
  have isRead :=
    @lookup_foldl_put _ _
      (splitGroup toLowerCase attrs.members).globalHalf []
      (fun entry : String × Held => some entry.2) distinct (fun _ _ => rfl)
      name
  refine Eq.trans isRead ?_
  cases isHeld :
      (splitGroup toLowerCase attrs.members).globalHalf.lookup name with
  | none => rfl
  | some held =>
    dsimp only
    rw [if_neg]
    rintro rfl
    rw [isHeld] at noProto
    split at noProto <;> simp at noProto

/-- A group, split and joined. -/
def joined (toLowerCase : String → String) (attrs : AttributeMap) : Attributes :=
  joinGroup toLowerCase (splitGroup toLowerCase attrs.members).globalHalf
    (splitGroup toLowerCase attrs.members).cellHalf

/-- What is held while the cell half is joined, attribute by attribute. -/
theorem holds_foldl_joinOne_iff (protoPlain : ¬ IsMember toLowerCase "__proto__")
    (areMembers : ∀ entry ∈ cell, IsMember toLowerCase entry.1) {label value : String}
    (isHeld : Holds toLowerCase (cell.foldl (joinOne toLowerCase) out) label value) :
    Holds toLowerCase out label value ∨
      ∃ entry ∈ cell, label = toLowerCase entry.1 ∧
        value ∈ entry.2.values ∧ ¬ Inherited (toLowerCase value) := by
  induction cell generalizing out with
  | nil => exact .inl isHeld
  | cons entry rest ih =>
    have isMember := areMembers entry mem_cons_self
    rcases ih
        (fun other isLater =>
          areMembers other (mem_cons_of_mem _ isLater)) isHeld with
      isEarlier | ⟨other, isLater, isLabel, isValue⟩
    · rcases (holds_joinOne_iff protoPlain isMember label value).mp
          isEarlier with wasHeld | ⟨isLabel, isAdded⟩
      · exact .inl wasHeld
      · exact .inr ⟨entry, mem_cons_self, isLabel, mem_of_mem_unseen isAdded⟩
    · exact .inr ⟨other, mem_cons_of_mem _ isLater, isLabel, isValue⟩

/-- What is held stays held. -/
theorem holds_foldl_joinOne (protoPlain : ¬ IsMember toLowerCase "__proto__")
    (areMembers : ∀ entry ∈ cell, IsMember toLowerCase entry.1)
    {label value : String} (isHeld : Holds toLowerCase out label value) :
    Holds toLowerCase (cell.foldl (joinOne toLowerCase) out) label value := by
  induction cell generalizing out with
  | nil => exact isHeld
  | cons entry rest ih =>
    refine ih
      (fun other isLater => areMembers other (mem_cons_of_mem _ isLater)) ?_
    exact (holds_joinOne_iff protoPlain
      (areMembers entry mem_cons_self) label value).mpr (.inl isHeld)

/-- What the cell half holds is joined, in some letter case. -/
theorem found_foldl_joinOne (protoPlain : ¬ IsMember toLowerCase "__proto__")
    (areMembers : ∀ entry ∈ cell, IsMember toLowerCase entry.1) (isEntry : entry ∈ cell)
    (isValue : value ∈ entry.2.values) (plain : ¬ Inherited (toLowerCase value)) :
    ∃ other,
      Holds toLowerCase (cell.foldl (joinOne toLowerCase) out)
          (toLowerCase entry.1) other ∧
        toLowerCase other = toLowerCase value := by
  induction cell generalizing out with
  | nil => cases isEntry
  | cons first rest ih =>
    have restMembers :
        ∀ other ∈ rest, IsMember toLowerCase other.1 :=
      fun other isLater => areMembers other (mem_cons_of_mem _ isLater)
    rcases mem_cons.mp isEntry with rfl | isLater
    · have isMember := areMembers entry mem_cons_self
      suffices joinedNow :
          ∃ other,
            Holds toLowerCase (joinOne toLowerCase out entry)
                (toLowerCase entry.1) other ∧
              toLowerCase other = toLowerCase value by
        obtain ⟨other, isHeld, same⟩ := joinedNow
        exact ⟨other, holds_foldl_joinOne protoPlain restMembers isHeld, same⟩
      rcases @seen_or_unseen toLowerCase
          ((valuesAt out (existingKey toLowerCase out entry.1)).map
            toLowerCase) _ _ isValue plain with
        isSeen | ⟨other, isUnseen, same⟩
      · obtain ⟨other, wasThere, same⟩ := mem_map.mp isSeen
        refine ⟨other, ?_, same⟩
        refine (holds_joinOne_iff protoPlain isMember _ _).mpr (.inl ?_)
        unfold valuesAt at wasThere
        split at wasThere
        · rename_i held isHeld
          exact ⟨_, held, isHeld, toLowerCase_existingKey _ _, wasThere⟩
        · cases wasThere
      · exact ⟨other, (holds_joinOne_iff protoPlain isMember _ _).mpr (.inr ⟨rfl, isUnseen⟩), same⟩
    · exact ih restMembers isLater

/-- No other attribute is touched. -/
theorem lookup_foldl_joinOne {name : String} (notMember : ¬ IsMember toLowerCase name) :
    (cell.foldl (joinOne toLowerCase) out).lookup name = out.lookup name := by
  induction cell generalizing out with
  | nil => rfl
  | cons entry rest ih => rw [foldl_cons, ih, lookup_joinOne notMember]

/-! ## When a group is split and joined as it should be -/

/-- A text names an entry below `ou=users`, however it is spelled. -/
def NamesPerson (value : String) : Prop := Below (plainName "ou" "users") value

/-- What is asked of splitting a group and joining it again. -/
structure SplitsAndJoins (toLowerCase : String → String)
    (attrs : AttributeMap) : Prop where
  /-- No member of the global half is a person. -/
  noPerson :
    ∀ name held,
      (splitGroup toLowerCase attrs.members).globalHalf.lookup name =
          some held →
        IsMember toLowerCase name → ∀ value ∈ held.values, ¬ NamesPerson value
  /-- No login name is left in it. -/
  noName :
    ∀ name held,
      (splitGroup toLowerCase attrs.members).globalHalf.lookup name =
          some held →
        toLowerCase name ∈ nameMemberAttributes → held.values = []
  /-- Every joined value was there before. -/
  within :
    ∀ label value,
      Holds toLowerCase (joined toLowerCase attrs) label value →
        Holds toLowerCase attrs.members label value
  /-- Every value is joined, in some letter case. -/
  complete :
    ∀ label value,
      Holds toLowerCase attrs.members label value →
        ∃ other, Holds toLowerCase (joined toLowerCase attrs) label other ∧
          toLowerCase other = toLowerCase value
  /-- Every other attribute is as it was. -/
  others :
    ∀ name, ¬ IsMember toLowerCase name →
      (joined toLowerCase attrs).lookup name = attrs.members.lookup name

/-- What the values and the keys of a group must be for that. -/
structure Recognised (toLowerCase : String → String)
    (attrs : AttributeMap) : Prop where
  /-- A person's name is spelled so that it is taken for one. -/
  people :
    ∀ name held, attrs.members.lookup name = some held →
      IsMember toLowerCase name →
        toLowerCase name ∉ nameMemberAttributes →
          ∀ value ∈ held.values, NamesPerson value → isPersonDn toLowerCase value = true
  /-- No login name is one that every object inherits. -/
  names :
    ∀ name held, attrs.members.lookup name = some held →
      toLowerCase name ∈ nameMemberAttributes →
        ∀ value ∈ held.values, ¬ Inherited (toLowerCase value)
  /-- No attribute is called `__proto__`. -/
  proto : attrs.members.lookup "__proto__" = none

/-- A name that is taken for a person's is nothing every object inherits. -/
theorem not_inherited_of_isPersonDn (isPerson : isPersonDn toLowerCase value = true) :
    ¬ Inherited (toLowerCase value) := by
  have none : ∀ name ∈ inheritedNames, isPersonDn id name = false := by decide +kernel
  intro isInherited
  have notPerson := none (toLowerCase value) isInherited
  have same : isPersonDn id (toLowerCase value) = isPersonDn toLowerCase value := rfl
  rw [same, isPerson] at notPerson
  cases notPerson

section

variable
  {attrs : AttributeMap}
  {name : String}
  {held : Held}

/-- What the global half holds of a member attribute. -/
theorem mem_globalHalf
    (isHeld : (splitGroup toLowerCase attrs.members).globalHalf.lookup name = some held)
    (isMember : IsMember toLowerCase name) :
    ∃ whole, attrs.members.lookup name = some whole ∧
      held.values = othersOf toLowerCase (name, whole) := by
  rw [lookup_globalHalf] at isHeld
  split at isHeld
  · rename_i whole isWhole
    refine ⟨whole, isWhole, ?_⟩
    split at isHeld
    · cases isHeld
    · rw [globalOf, if_neg (not_not.mpr isMember)] at isHeld
      split at isHeld
      · cases isHeld
        rfl
      · cases isHeld
  · cases isHeld

variable {value : String}

/-- And every value that is no person's. -/
theorem holds_globalHalf (protoPlain : ¬ IsMember toLowerCase "__proto__")
    (isHeld : attrs.members.lookup name = some held) (isMember : IsMember toLowerCase name)
    (isOther : value ∈ othersOf toLowerCase (name, held)) :
    Holds toLowerCase (splitGroup toLowerCase attrs.members).globalHalf
    (toLowerCase name) value := by
  have notProto : name ≠ "__proto__" := by
    rintro rfl
    exact protoPlain isMember
  refine ⟨name, .many (othersOf toLowerCase (name, held)), ?_, rfl, isOther⟩
  rw [lookup_globalHalf, isHeld]
  dsimp only
  rw [if_neg notProto, globalOf, if_neg (not_not.mpr isMember),
    if_pos (.inl (ne_nil_of_mem isOther))]

/-- What the cell half holds: people, of a member attribute. -/
theorem mem_cellHalf {entry : String × Held}
    (isEntry : entry ∈ (splitGroup toLowerCase attrs.members).cellHalf) :
    IsMember toLowerCase entry.1 ∧
      ∃ whole, attrs.members.lookup entry.1 = some whole ∧
        entry.2.values = peopleOf toLowerCase (entry.1, whole) := by
  have shape :
      (splitGroup toLowerCase attrs.members).cellHalf =
        attrs.members.foldl (put (cellOf toLowerCase)) [] :=
    (foldl_hom Halves.cellHalf fun halves entry => (splitOne_cellHalf halves entry).symm).symm
  have distinct : ((splitGroup toLowerCase attrs.members).cellHalf.map Prod.fst).Nodup := by
    rw [shape]
    exact nodup_foldl_put _ _ nodup_nil
  have isHeld :
      (splitGroup toLowerCase attrs.members).cellHalf.lookup entry.1 = some entry.2 :=
    (Json.lookup_eq_some_iff_mem distinct entry.1 entry.2).mpr isEntry
  rw [lookup_cellHalf] at isHeld
  split at isHeld
  · rename_i whole isWhole
    split at isHeld
    · cases isHeld
    · unfold cellOf at isHeld
      split at isHeld
      · rename_i isPeople
        refine ⟨isPeople.1, whole, isWhole, ?_⟩
        cases isHeld_ : entry.2 with
        | one value =>
          rw [isHeld_] at isHeld
          cases isHeld
        | many values =>
          rw [isHeld_] at isHeld
          cases isHeld
          rfl
      · cases isHeld
  · cases isHeld

/-- And every person of it. -/
theorem holds_cellHalf (protoPlain : ¬ IsMember toLowerCase "__proto__")
    (isHeld : attrs.members.lookup name = some held) (isMember : IsMember toLowerCase name)
    (isPerson : value ∈ peopleOf toLowerCase (name, held)) :
    (name, .many (peopleOf toLowerCase (name, held))) ∈
    (splitGroup toLowerCase attrs.members).cellHalf := by
  have notProto : name ≠ "__proto__" := by
    rintro rfl
    exact protoPlain isMember
  have isRead :
      (splitGroup toLowerCase attrs.members).cellHalf.lookup name =
        some (.many (peopleOf toLowerCase (name, held))) := by
    rw [lookup_cellHalf, isHeld]
    dsimp only
    rw [if_neg notProto, cellOf, if_pos ⟨isMember, ne_nil_of_mem isPerson⟩]
  obtain ⟨before, after, shape, _⟩ := lookup_eq_some_iff.mp isRead
  rw [shape]
  simp

end

/-! ## Each direction -/

theorem joined_eq (attrs : AttributeMap) :
    joined toLowerCase attrs =
      (splitGroup toLowerCase attrs.members).cellHalf.foldl
        (joinOne toLowerCase)
        ((splitGroup toLowerCase attrs.members).globalHalf.foldl
          (fun out entry => assign out entry.1 entry.2) []) :=
  rfl

/-- The copy holds what the global half holds. -/
theorem holds_copy_iff (attrs : AttributeMap) (label value : String) :
    Holds toLowerCase
        ((splitGroup toLowerCase attrs.members).globalHalf.foldl
          (fun out entry => assign out entry.1 entry.2) []) label value ↔
      Holds toLowerCase (splitGroup toLowerCase attrs.members).globalHalf label value := by
  unfold Holds
  refine exists_congr fun name => exists_congr fun held => ?_
  rw [lookup_copy]

/-- A group that is split and joined as it should be is as it must be. -/
theorem recognised_of_splitsAndJoins (protoPlain : ¬ IsMember toLowerCase "__proto__")
    {attrs : AttributeMap} (splits : SplitsAndJoins toLowerCase attrs) :
    Recognised toLowerCase attrs where
  people := by
    intro name held isHeld isMember notName value isValue namesPerson
    by_contra notPerson
    have isOther : value ∈ othersOf toLowerCase (name, held) := by
      refine mem_filter.mpr ⟨isValue, ?_⟩
      simpa [isPerson, notName] using notPerson
    obtain ⟨key, whole, isGlobal, isLabel, isThere⟩ :=
      holds_globalHalf protoPlain isHeld isMember isOther
    have keyMember : IsMember toLowerCase key := by
      unfold IsMember at isMember ⊢
      rwa [isLabel]
    exact splits.noPerson key whole isGlobal keyMember value isThere namesPerson
  names := by
    intro name held isHeld isName value isValue
    obtain ⟨other, isJoined, same⟩ :=
      splits.complete (toLowerCase name) value ⟨name, held, isHeld, rfl, isValue⟩
    rw [joined_eq] at isJoined
    rcases holds_foldl_joinOne_iff protoPlain
        (fun entry isEntry => (mem_cellHalf isEntry).1) isJoined with
      isCopied | ⟨entry, _, _, _, plain⟩
    · obtain ⟨key, whole, isGlobal, isLabel, isThere⟩ := (holds_copy_iff attrs _ _).mp isCopied
      have noneLeft := splits.noName key whole isGlobal (isLabel ▸ isName)
      rw [noneLeft] at isThere
      cases isThere
    · rwa [← same]
  proto := by
    rw [← splits.others "__proto__" protoPlain, joined_eq,
      lookup_foldl_joinOne protoPlain, lookup_copy, lookup_globalHalf]
    cases attrs.members.lookup "__proto__" with
    | none => rfl
    | some held => simp

/-- What is a person's is not among the others, and the other way round. -/
theorem mem_peopleOf_or_othersOf {entry : String × Held} {value : String}
    (isValue : value ∈ entry.2.values) :
    value ∈ peopleOf toLowerCase entry ∨ value ∈ othersOf toLowerCase entry := by
  unfold peopleOf othersOf
  cases isPersons : isPerson toLowerCase entry.1 value with
  | true => exact .inl (mem_filter.mpr ⟨isValue, isPersons⟩)
  | false => exact .inr (mem_filter.mpr ⟨isValue, by simp [isPersons]⟩)

/-- And a group that is as it must be is split and joined as it should be. -/
theorem splitsAndJoins_of_recognised (protoPlain : ¬ IsMember toLowerCase "__proto__")
    {attrs : AttributeMap} (recognised : Recognised toLowerCase attrs) :
    SplitsAndJoins toLowerCase attrs := by
  have areMembers :
      ∀ entry ∈ (splitGroup toLowerCase attrs.members).cellHalf, IsMember toLowerCase entry.1 :=
    fun entry isEntry => (mem_cellHalf isEntry).1
  have others :
      ∀ name, ¬ IsMember toLowerCase name →
        (joined toLowerCase attrs).lookup name = attrs.members.lookup name := by
    intro name notMember
    rw [joined_eq, lookup_foldl_joinOne notMember, lookup_copy, lookup_globalHalf]
    cases isHeld : attrs.members.lookup name with
    | none => rfl
    | some held =>
      have notProto : name ≠ "__proto__" := by
        rintro rfl
        rw [recognised.proto] at isHeld
        cases isHeld
      dsimp only
      rw [if_neg notProto, globalOf, if_pos notMember]
  refine
    { noPerson := ?_
      noName := ?_
      within := ?_
      complete := ?_
      others := others }
  · intro name held isGlobal isMember value isValue namesPerson
    obtain ⟨whole, isWhole, shape⟩ := mem_globalHalf isGlobal isMember
    rw [shape] at isValue
    obtain ⟨isThere, notPersons⟩ := mem_filter.mp isValue
    rw [isPerson, Bool.not_eq_true', Bool.or_eq_false_iff, decide_eq_false_iff_not] at notPersons
    have isPersons :=
      recognised.people name whole isWhole isMember notPersons.1 value isThere namesPerson
    rw [notPersons.2] at isPersons
    cases isPersons
  · intro name held isGlobal isName
    have isMember : IsMember toLowerCase name := by
      have isLast := mem_singleton.mp isName
      unfold IsMember
      rw [isLast]
      decide
    obtain ⟨whole, isWhole, shape⟩ := mem_globalHalf isGlobal isMember
    rw [shape, othersOf, filter_eq_nil_iff]
    intro value isValue
    simp [isPerson, isName]
  · intro label value isJoined
    rw [joined_eq] at isJoined
    rcases holds_foldl_joinOne_iff protoPlain areMembers isJoined with
      isCopied | ⟨entry, isEntry, isLabel, isValue, _⟩
    · obtain ⟨name, held, isGlobal, isLabel, isValue⟩ := (holds_copy_iff attrs _ _).mp isCopied
      by_cases isMember : IsMember toLowerCase name
      · obtain ⟨whole, isWhole, shape⟩ := mem_globalHalf isGlobal isMember
        rw [shape] at isValue
        exact ⟨name, whole, isWhole, isLabel, (mem_filter.mp isValue).1⟩
      · have isRead := others name isMember
        rw [joined_eq, lookup_foldl_joinOne isMember, lookup_copy] at isRead
        rw [isRead] at isGlobal
        exact ⟨name, held, isGlobal, isLabel, isValue⟩
    · obtain ⟨_, whole, isWhole, shape⟩ := mem_cellHalf isEntry
      rw [shape] at isValue
      exact ⟨entry.1, whole, isWhole, isLabel.symm, (mem_filter.mp isValue).1⟩
  · rintro label value ⟨name, held, isHeld, rfl, isValue⟩
    by_cases isMember : IsMember toLowerCase name
    · rcases @mem_peopleOf_or_othersOf toLowerCase (name, held) value
          isValue with isPersons | isOthers
      · have plain : ¬ Inherited (toLowerCase value) := by
          have isPersonHere := (mem_filter.mp isPersons).2
          by_cases isName : toLowerCase name ∈ nameMemberAttributes
          · exact recognised.names name held isHeld isName value isValue
          · refine not_inherited_of_isPersonDn ?_
            simpa [isPerson, isName] using isPersonHere
        have inCell := holds_cellHalf protoPlain isHeld isMember isPersons
        exact found_foldl_joinOne protoPlain areMembers inCell isPersons plain
      · refine ⟨value, ?_, rfl⟩
        rw [joined_eq]
        refine holds_foldl_joinOne protoPlain areMembers ?_
        exact (holds_copy_iff attrs _ _).mpr (holds_globalHalf protoPlain isHeld isMember isOthers)
    · refine ⟨value, ⟨name, held, ?_, rfl, isValue⟩, rfl⟩
      rw [others name isMember]
      exact isHeld

/-- A group of one member who is no person. -/
def applicationGroup : AttributeMap where
  members := [("cn", .one "group"), ("member", .many ["cn=app,ou=applications,dc=x"])]
  distinct := by decide

/-- A person with spaces around an equals sign, and a login name. -/
def leakyGroup : AttributeMap where
  members := [("member", .many ["uid=alice,ou = users,dc=x"]), ("memberUid", .many ["constructor"])]
  distinct := by decide

/-- The first is a person's name in a spelling of its own. -/
theorem namesPerson_spaced : NamesPerson "uid=alice,ou = users,dc=x" :=
  ⟨[plainName "uid" "alice"], [plainName "dc" "x"], by decide +kernel,
    by decide, by decide⟩

end

end IyaSts.Tiers
