import IyaSts.DirectoryMergeCredentials

namespace IyaSts.DirectoryMerge

/-!
# One attribute that is merged again

The second merge of an attribute is of what the first left.  It leaves it, unless the
attribute looked like a list the first time only.
-/

open JsObject List

/-! ## One attribute, of what its sides hold -/

/-- `mergeAttribute`, of the three properties. -/
def mergeSlot (name : String) (b m t : Slot) : Slot :=
  if same name m b then
    t
  else if same name t b || same name m t then
    m
  else if name = "modifytimestamp" then
    if isAfter (firstOf name m) (firstOf name t) then m else t
  else if name = "createtimestamp" ∨ name = "entryuuid" then
    if t = .absent then m else t
  else if name ∈ single then
    m
  else if name ∈ multi ∨ 1 < countOf b ∨ 1 < countOf m ∨ 1 < countOf t then
    mergeValues name b m t
  else
    m

theorem mergeAttribute_eq (base mine theirs : Attributes) (name : String) :
    mergeAttribute base mine theirs name =
      mergeSlot name (read base name) (read mine name) (read theirs name) :=
  rfl

/-- What an object reads as that has no property of its own. -/
def unset (name : String) : Slot := read ([] : Attributes) name

/-- A property that is read after it was put to a new object. -/
def putSlot (name : String) : Slot → Slot
  | .own held => .own held
  | _ => unset name

theorem unset_eq (name : String) :
    unset name = if Inherited name then .inherited else .absent :=
  rfl

theorem own_ne_unset (name : String) (held : Values) :
    Property.own held ≠ unset name := by
  rw [unset_eq]
  split <;> simp

variable {attributes : Attributes}

theorem read_of_lookup_none {name : String} (notHeld : attributes.lookup name = none) :
    read attributes name = unset name := by
  rw [unset_eq, JsObject.read, notHeld]

theorem read_of_lookup_some {name : String} {held : Values}
    (isHeld : attributes.lookup name = some held) :
    read attributes name = .own held := by
  rw [JsObject.read, isHeld]

/-- A property that is its own array, or nobody's own. -/
def IsList (name : String) (slot : Slot) : Prop :=
  (∃ values, slot = .own (.list values)) ∨ slot = unset name

/-- An entry whose attributes are arrays. -/
def HoldsLists (attributes : Attributes) : Prop :=
  ∀ member ∈ attributes, ∃ values, member.2 = .list values

theorem isList_read (lists : HoldsLists attributes) (name : String) :
    IsList name (read attributes name) := by
  cases isHeld : attributes.lookup name with
  | none => exact .inr (read_of_lookup_none isHeld)
  | some held =>
      have isRead := read_of_lookup_some isHeld
      obtain ⟨values, isList⟩ := lists _ (mem_of_read_own isRead)
      left
      exact ⟨values, isRead.trans (congrArg Property.own isList)⟩

section Slots

variable {name : String} {b m t : Slot}

theorem putSlot_unset (name : String) : putSlot name (unset name) = unset name := by
  cases isUnset : unset name with
  | own held => exact absurd isUnset.symm (own_ne_unset name held)
  | inherited => exact isUnset
  | absent => exact isUnset

theorem putSlot_of_isList (isList : IsList name m) : putSlot name m = m := by
  rcases isList with ⟨values, rfl⟩ | rfl
  · rfl
  · exact putSlot_unset name

/-- Of arrays, `same` is equality. -/
theorem same_iff (notPrototype : name ≠ "__proto__") (isList : IsList name m)
    (isList' : IsList name t) :
    same name m t = true ↔ m = t := by
  have notOwn (values : List String) : Shape.values (.list values) ≠ shapeOf name (unset name) := by
    rw [unset_eq]
    split
    · simp [shapeOf, notPrototype]
    · simp [shapeOf]
  rw [same, decide_eq_true_eq]
  rcases isList with ⟨values, rfl⟩ | rfl
  · rcases isList' with ⟨values', rfl⟩ | rfl
    · simp [shapeOf]
    · exact iff_of_false (notOwn values) (own_ne_unset name _)
  · rcases isList' with ⟨values', rfl⟩ | rfl
    · exact iff_of_false (Ne.symm (notOwn values')) (own_ne_unset name _).symm
    · simp

/-! ## What is left of an attribute that is merged by value -/

/-- Theirs without what mine removed, then what mine added. -/
def leftOf (name : String) (base mine theirs : Slot) : List String :=
  let b := listOf name base
  let m := listOf name mine
  (m.filter fun value => value ∉ b).foldl
    (fun out value => if value ∈ out then out else out ++ [value])
    ((listOf name theirs).filter fun value => value ∉ b.filter fun value => value ∉ m)

theorem mergeValues_eq (name : String) (b m t : Slot) :
    mergeValues name b m t =
      if leftOf name b m t = [] then .absent
      else .own (.list (leftOf name b m t)) :=
  rfl

theorem putSlot_mergeValues (name : String) (b m t : Slot) :
    putSlot name (mergeValues name b m t) =
      if leftOf name b m t = [] then unset name
      else .own (.list (leftOf name b m t)) := by
  rw [mergeValues_eq]
  split <;> rfl

theorem mem_leftOf (value : String) :
    value ∈ leftOf name b m t ↔
      (value ∈ listOf name t ∧
          ¬ (value ∈ listOf name b ∧ value ∉ listOf name m)) ∨
        (value ∈ listOf name m ∧ value ∉ listOf name b) := by
  unfold leftOf
  simp only [mem_foldl_push, mem_filter, decide_eq_true_eq]

/-- What is left stays when it is merged again. -/
theorem leftOf_leftOf :
    leftOf name b m (.own (.list (leftOf name b m t))) = leftOf name b m t := by
  have kept :
      ((leftOf name b m t).filter fun value =>
        value ∉ (listOf name b).filter fun value => value ∉ listOf name m) =
      leftOf name b m t := by
    refine filter_eq_self.mpr fun value isLeft => ?_
    rw [decide_eq_true_eq, mem_filter, decide_eq_true_eq]
    rcases (mem_leftOf value).mp isLeft with ⟨-, notRemoved⟩ | ⟨isMine, -⟩
    · exact notRemoved
    · exact fun removed => removed.2 isMine
  have again (out : List String) :
      leftOf name b m (.own (.list out)) =
        ((listOf name m).filter fun value => value ∉ listOf name b).foldl
          (fun out value => if value ∈ out then out else out ++ [value])
          (out.filter fun value =>
            value ∉ (listOf name b).filter fun value => value ∉ listOf name m) :=
    rfl
  rw [again, kept]
  refine foldl_push_self fun value isAdded => ?_
  rw [mem_filter, decide_eq_true_eq] at isAdded
  exact (mem_leftOf value).mpr (.inr isAdded)

/-- Where nothing is left, mine added nothing. -/
theorem leftOf_unset (isEmpty : leftOf name b m t = []) (other : Slot) :
    leftOf name b m other =
      (listOf name other).filter fun value =>
        value ∉ (listOf name b).filter fun value => value ∉ listOf name m := by
  have noneAdded : ((listOf name m).filter fun value => value ∉ listOf name b) = [] := by
    refine filter_eq_nil_iff.mpr fun value isMine isAdded => ?_
    have isLeft : value ∈ leftOf name b m t :=
      (mem_leftOf value).mpr (.inr ⟨isMine, of_decide_eq_true isAdded⟩)
    rw [isEmpty] at isLeft
    cases isLeft
  unfold leftOf
  simp only [noneAdded, foldl_nil]

/-! ## When the merge of an attribute is another one the second time -/

/-- An attribute that base or mine tells to be a list. -/
abbrev ListBefore (name : String) (b m : Slot) : Prop :=
  name ∈ multi ∨ 1 < countOf b ∨ 1 < countOf m

/--
An attribute that both sides changed, each in its own way, and that was merged by value:
nothing is left of it though mine and theirs hold it, or so little that it does not look
like a list any more.  What an object inherits counts as held where it is read.
-/
def Unstable (name : String) (b m t : Slot) : Prop :=
  m ≠ b ∧ t ≠ b ∧ m ≠ t ∧ ¬ IsStamp name ∧ name ∉ single ∧
    (ListBefore name b m ∨ 1 < countOf t) ∧
      if leftOf name b m t = [] then
        t ≠ unset name ∧ m ≠ unset name ∧
          (b = unset name ∨ ¬ ListBefore name b m ∨
            ∃ value ∈ listOf name (unset name), ¬ (value ∈ listOf name b ∧ value ∉ listOf name m))
      else
        .own (.list (leftOf name b m t)) ≠ m ∧
          (.own (.list (leftOf name b m t)) = b ∨
            ¬ (ListBefore name b m ∨ 1 < (leftOf name b m t).length))


theorem countOf_own (values : List String) :
    countOf (.own (.list values)) = values.length :=
  rfl

theorem countOf_unset (name : String) : ¬ 1 < countOf (unset name) := by
  rw [unset_eq]
  split <;> simp [countOf]

/-- The merge of arrays, with `same` as equality. -/
theorem mergeSlot_of_isList (notPrototype : name ≠ "__proto__") (listB : IsList name b)
    (listM : IsList name m) (listT : IsList name t) :
    putSlot name (mergeSlot name b m t) =
      if m = b then
        t
      else if t = b ∨ m = t then
        m
      else if name = "modifytimestamp" then
        if isAfter (firstOf name m) (firstOf name t) then m else t
      else if name = "createtimestamp" ∨ name = "entryuuid" then
        if t = .absent then m else t
      else if name ∈ single then
        m
      else if ListBefore name b m ∨ 1 < countOf t then
        if leftOf name b m t = [] then unset name
        else .own (.list (leftOf name b m t))
      else
        m := by
  have putM := putSlot_of_isList listM
  have putT := putSlot_of_isList listT
  unfold mergeSlot
  simp only [same_iff notPrototype listM listB, Bool.or_eq_true,
    same_iff notPrototype listT listB, same_iff notPrototype listM listT]
  rw [apply_ite (putSlot name), apply_ite (putSlot name), apply_ite (putSlot name),
    apply_ite (putSlot name), apply_ite (putSlot name), apply_ite (putSlot name),
    apply_ite (putSlot name), apply_ite (putSlot name), putM, putT, putSlot_mergeValues]
  simp only [ListBefore, or_assoc]

/-- The second merge is the first, of what the first left. -/
def Stable (name : String) (b m t : Slot) : Prop :=
  putSlot name (mergeSlot name b m (putSlot name (mergeSlot name b m t))) =
    putSlot name (mergeSlot name b m t)

theorem stable_of_theirs (isTheirs : putSlot name (mergeSlot name b m t) = t) :
    Stable name b m t := by
  rw [Stable, isTheirs, isTheirs]

theorem stable_of_mine (notPrototype : name ≠ "__proto__") (listB : IsList name b)
    (listM : IsList name m) (isMine : putSlot name (mergeSlot name b m t) = m) :
    Stable name b m t := by
  rw [Stable, isMine, mergeSlot_of_isList notPrototype listB listM listM]
  split
  · rfl
  · rw [if_pos (.inr rfl)]

/-- The second merge of an attribute of which the first left nothing. -/
theorem stable_of_nothing_left (theirsChanged : t ≠ b)
    (byValue : ListBefore name b m ∨ 1 < countOf t) (isEmpty : leftOf name b m t = []) :
    (if unset name = b ∨ m = unset name then
        m
      else if ListBefore name b m ∨ 1 < countOf (unset name) then
        if leftOf name b m (unset name) = [] then unset name
        else .own (.list (leftOf name b m (unset name)))
      else
        m) = unset name ↔
      ¬ (t ≠ unset name ∧ m ≠ unset name ∧
        (b = unset name ∨ ¬ ListBefore name b m ∨
          ∃ value ∈ listOf name (unset name),
            ¬ (value ∈ listOf name b ∧ value ∉ listOf name m))) := by
  by_cases mineUnset : m = unset name
  · rw [if_pos (.inr mineUnset)]
    exact iff_of_true mineUnset fun unstable => unstable.2.1 mineUnset
  by_cases baseUnset : unset name = b
  · rw [if_pos (.inl baseUnset)]
    refine iff_of_false mineUnset fun stable => stable ⟨?_, mineUnset, .inl baseUnset.symm⟩
    rw [baseUnset]
    exact theirsChanged
  rw [if_neg (by rintro (isBase | isMine)
                 · exact baseUnset isBase
                 · exact mineUnset isMine)]
  by_cases isList : ListBefore name b m
  · rw [if_pos (.inl isList)]
    by_cases isEmpty' : leftOf name b m (unset name) = []
    · rw [if_pos isEmpty']
      refine iff_of_true rfl ?_
      rintro ⟨-, -, isBase | notList | ⟨value, isUnset, notRemoved⟩⟩
      · exact baseUnset isBase.symm
      · exact notList isList
      · have isLeft : value ∈ leftOf name b m (unset name) :=
          (mem_leftOf value).mpr (.inl ⟨isUnset, notRemoved⟩)
        rw [isEmpty'] at isLeft
        cases isLeft
    · rw [if_neg isEmpty']
      refine iff_of_false (own_ne_unset name _) fun stable => stable ⟨?_, mineUnset, ?_⟩
      · rintro rfl
        exact isEmpty' isEmpty
      · obtain ⟨value, isLeft⟩ := exists_mem_of_ne_nil _ isEmpty'
        rw [leftOf_unset isEmpty, mem_filter, decide_eq_true_eq,
          mem_filter, decide_eq_true_eq] at isLeft
        exact .inr (.inr ⟨value, isLeft⟩)
  · rw [if_neg (by rintro (isBefore | isMany)
                   · exact isList isBefore
                   · exact countOf_unset name isMany)]
    refine iff_of_false mineUnset fun stable => stable ⟨?_, mineUnset, .inr (.inl isList)⟩
    rintro rfl
    exact byValue.elim isList (countOf_unset name)

/-- The second merge of an attribute of which the first left something. -/
theorem stable_of_left {left : List String} :
    (if .own (.list left) = b ∨ m = .own (.list left) then
        m
      else if ListBefore name b m ∨ 1 < left.length then
        .own (.list left)
      else
        m) = (.own (.list left) : Slot) ↔
      ¬ ((.own (.list left) : Slot) ≠ m ∧
        ((.own (.list left) : Slot) = b ∨ ¬ (ListBefore name b m ∨ 1 < left.length))) := by
  by_cases isMine : m = .own (.list left)
  · rw [if_pos (.inr isMine)]
    exact iff_of_true isMine fun unstable => unstable.1 isMine.symm
  by_cases isBase : .own (.list left) = b
  · rw [if_pos (.inl isBase)]
    exact iff_of_false isMine fun stable => stable ⟨Ne.symm isMine, .inl isBase⟩
  rw [if_neg (by rintro (isBase' | isMine')
                 · exact isBase isBase'
                 · exact isMine isMine')]
  by_cases isList : ListBefore name b m ∨ 1 < left.length
  · rw [if_pos isList]
    exact iff_of_true rfl fun unstable => unstable.2.elim isBase fun notList => notList isList
  · rw [if_neg isList]
    exact iff_of_false isMine fun stable => stable ⟨Ne.symm isMine, .inr isList⟩

/-- An attribute is merged to what it is already, or is unstable. -/
theorem stable_iff (notPrototype : name ≠ "__proto__") (listB : IsList name b)
    (listM : IsList name m) (listT : IsList name t) :
    Stable name b m t ↔ ¬ Unstable name b m t := by
  have first := mergeSlot_of_isList notPrototype listB listM listT
  unfold Unstable
  by_cases mineSame : m = b
  · rw [if_pos mineSame] at first
    exact iff_of_true (stable_of_theirs first) fun unstable => unstable.1 mineSame
  rw [if_neg mineSame] at first
  by_cases oneChange : t = b ∨ m = t
  · rw [if_pos oneChange] at first
    refine iff_of_true (stable_of_mine notPrototype listB listM first) ?_
    rintro ⟨-, notBase, notMine, -⟩
    exact oneChange.elim notBase notMine
  rw [if_neg oneChange] at first
  rw [not_or] at oneChange
  by_cases isStamp : IsStamp name
  · refine iff_of_true ?_ fun unstable => unstable.2.2.2.1 isStamp
    by_cases isModified : name = "modifytimestamp"
    · rw [if_pos isModified] at first
      split at first
      · exact stable_of_mine notPrototype listB listM first
      · exact stable_of_theirs first
    · have isCreated : name = "createtimestamp" ∨ name = "entryuuid" := by
        rcases isStamp with isUuid | isCreated | isModified'
        · exact .inr isUuid
        · exact .inl isCreated
        · exact absurd isModified' isModified
      rw [if_neg isModified, if_pos isCreated] at first
      split at first
      · exact stable_of_mine notPrototype listB listM first
      · exact stable_of_theirs first
  have notModified : name ≠ "modifytimestamp" := fun isModified => isStamp (.inr (.inr isModified))
  have notCreated : ¬ (name = "createtimestamp" ∨ name = "entryuuid") := by
    rintro (isCreated | isUuid)
    · exact isStamp (.inr (.inl isCreated))
    · exact isStamp (.inl isUuid)
  rw [if_neg notModified, if_neg notCreated] at first
  by_cases isSingle : name ∈ single
  · rw [if_pos isSingle] at first
    exact iff_of_true (stable_of_mine notPrototype listB listM first)
      fun unstable => unstable.2.2.2.2.1 isSingle
  rw [if_neg isSingle] at first
  by_cases byValue : ListBefore name b m ∨ 1 < countOf t
  · rw [if_pos byValue] at first
    have again (listR : IsList name (putSlot name (mergeSlot name b m t))) :=
      mergeSlot_of_isList notPrototype listB listM listR
    simp only [if_neg mineSame, if_neg notModified, if_neg notCreated, if_neg isSingle] at again
    have onlyLeft (left : Prop) :
        (m ≠ b ∧ t ≠ b ∧ m ≠ t ∧ ¬ IsStamp name ∧ name ∉ single ∧
          (ListBefore name b m ∨ 1 < countOf t) ∧ left) ↔ left :=
      ⟨fun unstable => unstable.2.2.2.2.2.2, fun isLeft =>
        ⟨mineSame, oneChange.1, oneChange.2, isStamp, isSingle, byValue, isLeft⟩⟩
    rw [onlyLeft, Stable]
    by_cases isEmpty : leftOf name b m t = []
    · rw [if_pos isEmpty] at first
      rw [first] at again ⊢
      rw [if_pos isEmpty, again (.inr rfl)]
      exact stable_of_nothing_left oneChange.1 byValue isEmpty
    · rw [if_neg isEmpty] at first
      rw [first] at again ⊢
      rw [if_neg isEmpty, again (.inl ⟨_, rfl⟩), leftOf_leftOf, if_neg isEmpty, countOf_own]
      exact stable_of_left
  · rw [if_neg byValue] at first
    exact iff_of_true (stable_of_mine notPrototype listB listM first)
      fun unstable => byValue unstable.2.2.2.2.2.1

/-! ## The same, of what the sides hold -/

/-- A value that theirs has and mine did not remove, or that mine added. -/
abbrev IsLeft (name : String) (b m t : Slot) (value : String) : Prop :=
  (value ∈ listOf name t ∧ ¬ (value ∈ listOf name b ∧ value ∉ listOf name m)) ∨
    (value ∈ listOf name m ∧ value ∉ listOf name b)

/--
An attribute outside the tables that both sides changed, each in its own way.  It is merged
by value the first time, and the second time it is not, or not to the same.
-/
structure Flips (name : String) (b m t : Slot) : Prop where
  mineChanged : m ≠ b
  theirsChanged : t ≠ b
  apart : m ≠ t
  notStamp : ¬ IsStamp name
  notSingle : name ∉ single
  byValue : ListBefore name b m ∨ 1 < countOf t
  flips :
    -- No value is left, and the second time mine or the inherited value is.
    ((∀ value, ¬ IsLeft name b m t value) ∧ t ≠ unset name ∧ m ≠ unset name ∧
        (b = unset name ∨ ¬ ListBefore name b m ∨
          ∃ value ∈ listOf name (unset name), ¬ (value ∈ listOf name b ∧ value ∉ listOf name m))) ∨
      -- One value is left, and no side looks like a list the second time.
      (∃ value,
        (∀ other, IsLeft name b m t other ↔ other = value) ∧
          (listOf name t).count value ≤ 1 ∧ m ≠ .own (.list [value]) ∧
          ¬ ListBefore name b m) ∨
      -- Base held as its own what theirs inherits.
      (t = .inherited ∧ b = .own (.list (listOf name t)) ∧
        ∀ value, value ∈ listOf name m ↔ value ∈ listOf name b)

theorem leftOf_eq_nil_iff :
    leftOf name b m t = [] ↔ ∀ value, ¬ IsLeft name b m t value := by
  rw [eq_nil_iff_forall_not_mem]
  exact forall_congr' fun value => not_congr (mem_leftOf value)

theorem count_foldl_push (added out : List String) (value : String) :
    (added.foldl
        (fun out value => if value ∈ out then out else out ++ [value]) out).count
        value =
      if value ∈ out then out.count value
      else if value ∈ added then 1
      else 0 := by
  induction added generalizing out with
  | nil =>
      by_cases isOut : value ∈ out
      · rw [if_pos isOut]
        rfl
      · rw [if_neg isOut, if_neg not_mem_nil]
        exact count_eq_zero_of_not_mem isOut
  | cons first rest ih =>
      rw [foldl_cons, ih]
      by_cases isHeld : first ∈ out
      · rw [if_pos isHeld]
        by_cases isOut : value ∈ out
        · rw [if_pos isOut, if_pos isOut]
        · have notFirst : value ≠ first := by
            rintro rfl
            exact isOut isHeld
          rw [if_neg isOut, if_neg isOut]
          simp only [mem_cons, notFirst, false_or]
      · rw [if_neg isHeld]
        simp only [count_append, mem_append, mem_cons, not_mem_nil, or_false]
        by_cases isOut : value ∈ out
        · have notFirst : value ∉ [first] := by
            rw [mem_singleton]
            rintro rfl
            exact isHeld isOut
          rw [if_pos (.inl isOut), if_pos isOut, count_eq_zero_of_not_mem notFirst,
            Nat.add_zero]
        · rw [count_eq_zero_of_not_mem isOut, Nat.zero_add]
          by_cases isFirst : value = first
          · subst isFirst
            rw [if_pos (.inr rfl), if_neg isOut, if_pos (.inl rfl), count_singleton_self]
          · simp only [isOut, isFirst, if_false, false_or]

theorem count_leftOf {value : String} (isLeft : IsLeft name b m t value) :
    (leftOf name b m t).count value = max 1 ((listOf name t).count value) := by
  unfold leftOf
  simp only
  rw [count_foldl_push]
  simp only [mem_filter, decide_eq_true_eq]
  by_cases isKept : value ∈ listOf name t ∧ ¬ (value ∈ listOf name b ∧ value ∉ listOf name m)
  · have isCounted : 0 < (listOf name t).count value := count_pos_iff.mpr isKept.1
    rw [if_pos isKept, count_filter]
    · omega
    · exact decide_eq_true isKept.2
  · have isAdded := isLeft.resolve_left isKept
    have notTheirs : value ∉ listOf name t := fun isTheirs =>
      isKept ⟨isTheirs, fun removed => removed.2 isAdded.1⟩
    rw [if_neg isKept, if_pos isAdded, count_eq_zero_of_not_mem notTheirs]
    rfl

theorem leftOf_eq_singleton_iff {value : String} :
    leftOf name b m t = [value] ↔
      (∀ other, IsLeft name b m t other ↔ other = value) ∧ (listOf name t).count value ≤ 1 := by
  constructor
  · intro isOne
    have onlyOne (other : String) : IsLeft name b m t other ↔ other = value := by
      rw [← mem_singleton, ← isOne]
      exact (mem_leftOf other).symm
    have counted := count_leftOf ((onlyOne value).mpr rfl)
    rw [isOne, count_singleton_self] at counted
    exact ⟨onlyOne, by omega⟩
  · rintro ⟨onlyOne, atMostOne⟩
    have counted := count_leftOf ((onlyOne value).mpr rfl)
    have allSame : ∀ other ∈ leftOf name b m t, value = other := fun other isLeft =>
      ((onlyOne other).mp ((mem_leftOf other).mp isLeft)).symm
    rw [max_eq_left atMostOne, count_eq_length.mpr allSame] at counted
    obtain ⟨other, isOther⟩ := length_eq_one_iff.mp counted
    rw [isOther, allSame other (by rw [isOther]; exact mem_singleton_self other)]

/-- Where mine has the values of base, theirs are left as they are. -/
theorem leftOf_of_same_values
    (sameValues : ∀ value, value ∈ listOf name m ↔ value ∈ listOf name b) :
    leftOf name b m t = listOf name t := by
  have noneAdded : ((listOf name m).filter fun value => value ∉ listOf name b) = [] := by
    refine filter_eq_nil_iff.mpr fun value isMine isAdded => ?_
    exact of_decide_eq_true isAdded ((sameValues value).mp isMine)
  unfold leftOf
  simp only [noneAdded, foldl_nil]
  refine filter_eq_self.mpr fun value _ => ?_
  rw [decide_eq_true_eq, mem_filter, decide_eq_true_eq]
  exact fun removed => removed.2 ((sameValues value).mpr removed.1)

/-- What is left is base only where base held what theirs inherits. -/
theorem leftOf_eq_base_iff (listT : IsList name t) (theirsChanged : t ≠ b)
    (notEmpty : leftOf name b m t ≠ []) :
    .own (.list (leftOf name b m t)) = b ↔
      t = .inherited ∧ b = .own (.list (listOf name t)) ∧
        ∀ value, value ∈ listOf name m ↔ value ∈ listOf name b := by
  constructor
  · intro isBase
    have held (value : String) : value ∈ listOf name b ↔ IsLeft name b m t value := by
      have ofBase : listOf name b = leftOf name b m t := congrArg (listOf name) isBase.symm
      rw [ofBase]
      exact mem_leftOf value
    have sameValues (value : String) : value ∈ listOf name m ↔ value ∈ listOf name b := by
      constructor
      · intro isMine
        by_contra notBase
        exact notBase ((held value).mpr (.inr ⟨isMine, notBase⟩))
      · intro isBase
        by_contra notMine
        rcases (held value).mp isBase with ⟨-, notRemoved⟩ | ⟨isMine, -⟩
        · exact notRemoved ⟨isBase, notMine⟩
        · exact notMine isMine
    have isTheirs := @leftOf_of_same_values name b m t sameValues
    rw [isTheirs] at isBase notEmpty
    refine ⟨?_, isBase.symm, sameValues⟩
    rcases listT with ⟨values, rfl⟩ | isUnset
    · exact absurd isBase theirsChanged
    · rw [unset_eq] at isUnset
      split at isUnset
      · exact isUnset
      · rw [isUnset] at notEmpty
        exact absurd rfl notEmpty
  · rintro ⟨-, isBase, sameValues⟩
    rw [leftOf_of_same_values sameValues]
    exact isBase.symm

theorem unstable_iff_flips (listT : IsList name t) :
    Unstable name b m t ↔ Flips name b m t := by
  constructor
  · rintro ⟨mineChanged, theirsChanged, apart, notStamp, notSingle, byValue, flips⟩
    refine ⟨mineChanged, theirsChanged, apart, notStamp, notSingle, byValue, ?_⟩
    by_cases isEmpty : leftOf name b m t = []
    · rw [if_pos isEmpty] at flips
      exact .inl ⟨leftOf_eq_nil_iff.mp isEmpty, flips⟩
    · rw [if_neg isEmpty] at flips
      obtain ⟨notMine, isBase | few⟩ := flips
      · exact .inr (.inr ((leftOf_eq_base_iff listT theirsChanged isEmpty).mp isBase))
      · rw [not_or, Nat.not_lt] at few
        have isOne : (leftOf name b m t).length = 1 :=
          le_antisymm few.2 (length_pos_of_ne_nil isEmpty)
        obtain ⟨value, isValue⟩ := length_eq_one_iff.mp isOne
        rw [isValue] at notMine
        obtain ⟨onlyOne, atMostOne⟩ := leftOf_eq_singleton_iff.mp isValue
        exact .inr (.inl ⟨value, onlyOne, atMostOne, Ne.symm notMine, few.1⟩)
  · intro flips
    refine ⟨flips.mineChanged, flips.theirsChanged, flips.apart, flips.notStamp,
      flips.notSingle, flips.byValue, ?_⟩
    rcases flips.flips with
      ⟨isEmpty, held⟩ | ⟨value, onlyOne, atMostOne, notMine, notList⟩ | isBase
    · rw [if_pos (leftOf_eq_nil_iff.mpr isEmpty)]
      exact held
    · rw [leftOf_eq_singleton_iff.mpr ⟨onlyOne, atMostOne⟩, if_neg (cons_ne_nil value [])]
      refine ⟨Ne.symm notMine, .inr ?_⟩
      rintro (isList | isMany)
      · exact notList isList
      · exact absurd isMany (Nat.lt_irrefl 1)
    · have notEmpty : leftOf name b m t ≠ [] := by
        rw [leftOf_of_same_values isBase.2.2, isBase.1]
        exact cons_ne_nil _ _
      rw [if_neg notEmpty, (leftOf_eq_base_iff listT flips.theirsChanged notEmpty).mpr isBase]
      exact ⟨Ne.symm flips.mineChanged, .inl rfl⟩

end Slots

end IyaSts.DirectoryMerge
