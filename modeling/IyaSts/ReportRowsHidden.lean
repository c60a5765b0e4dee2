import IyaSts.ReportRowsAnswers

namespace IyaSts.Report

/-!
# Ordering by what is not shown

Rows are projected before they are ordered, so that a plan which orders by a
field that it does not show orders by less.  What every answer of a plan needs
is that of two rows the one that sorts first shows it.
-/

open List

open Binary64 (Number)
open Selection (Consistent First)

section

variable {platform : Platform}
variable {types : String → Option FieldType}
variable {plan : Plan}

/-! ## Two rows -/

variable {one other : SourceRow types} {field : String} {ids : List String}

theorem matching_pair (isOne : matchesNode platform types one.val plan.filter = true)
    (isOther : matchesNode platform types other.val plan.filter = true) :
    matching platform plan [other, one] = [other, one] := by
  simp [matching, isOne, isOther]

/-- Of two rows the one that is offered first is answered first, if it shows no worse. -/
theorem answer_pair (sound : plan.Sound) (notCounted : plan.counted = false)
    (isOrdered : plan.orderBy ≠ []) (isOne : matchesNode platform types one.val plan.filter = true)
    (isOther : matchesNode platform types other.val plan.filter = true)
    (notBefore :
      ¬order platform types plan.orderBy (project plan.select one.val)
          (project plan.select other.val) <
        0) :
    ∃ rest, answer platform plan [other, one] = project plan.select other.val :: rest := by
  have consistent := @consistent_order_project platform types plan plan.select
  have isMatching := matching_pair isOne isOther
  by_cases isAfter :
      0 <
        order platform types plan.orderBy (project plan.select one.val)
          (project plan.select other.val)
  · obtain ⟨kept, isFirst, isAnswer⟩ :=
      exists_answer_of_order sound.limit notCounted isOrdered [other, one]
    rw [isMatching] at isFirst
    cases kept with
    | nil =>
      have isLength := isFirst.2.1
      have := sound.limit
      simp at isLength
      omega
    | cons head rest =>
      have isHead : head = other := by
        rcases mem_cons.mp (Selection.mem_of_first isFirst mem_cons_self) with
          isHead | isTail
        · exact isHead
        · rw [mem_singleton] at isTail
          subst isTail
          rcases Selection.first_head isFirst (mem_cons_self) with same | notAfter
          · exact same.symm
          · exact absurd isAfter (not_lt.mpr notAfter)
      rw [isAnswer, isHead]
      exact ⟨_, rfl⟩
  · have same :
        order platform types plan.orderBy (project plan.select one.val)
            (project plan.select other.val) =
          0 :=
      le_antisymm (not_lt.mp isAfter) (not_lt.mp notBefore)
    have isKept :=
      @kept_offer_of_order platform types plan notCounted isOrdered Rows.empty rfl
        ([other, one].map Subtype.val)
    rw [filter_map_val, isMatching] at isKept
    have isFold :
        (([other, one].map Subtype.val).map (project plan.select)).foldl
            (BoundedHeap.offer (order platform types plan.orderBy) plan.limit) Rows.empty.kept =
          BoundedHeap.offer (order platform types plan.orderBy) plan.limit
            #[project plan.select other.val] (project plan.select one.val) :=
      congrArg
        (fun kept =>
          BoundedHeap.offer (order platform types plan.orderBy) plan.limit kept
            (project plan.select one.val))
        (BoundedHeap.offer_empty sound.limit (project plan.select other.val))
    rw [answer, Rows.finish, notCounted, if_neg Bool.false_ne_true, if_pos isOrdered,
      isKept.trans isFold, BoundedHeap.offer_singleton same]
    split
    · have isSorted :
          Selection.Sorted (order platform types plan.orderBy)
            [project plan.select other.val, project plan.select one.val] :=
        pairwise_pair.mpr (consistent.nonpos_of_nonneg notBefore)
      rw [Selection.sort_of_sorted isSorted]
      exact ⟨_, rfl⟩
    · rw [Selection.sort_of_sorted (pairwise_singleton _ _)]
      exact ⟨_, rfl⟩

/-- A plan whose second row sorts first but does not show it answers another row first. -/
theorem not_isAnswer_pair (sound : plan.Sound) (notCounted : plan.counted = false)
    (isOne : matchesNode platform types one.val plan.filter = true)
    (isOther : matchesNode platform types other.val plan.filter = true)
    (hidden : ¬SortsAsShown platform plan one other) :
    ¬IsAnswer platform plan [other, one] (answer platform plan [other, one]) := by
  intro asked
  obtain ⟨isBefore, hidden⟩ := Classical.not_imp.mp hidden
  have isOrdered : plan.orderBy ≠ [] := by
    intro isNil
    rw [isNil] at isBefore
    exact lt_irrefl 0 isBefore
  rw [plan.shown_of_not_counted notCounted] at hidden
  obtain ⟨differ, notBefore⟩ := not_or.mp hidden
  obtain ⟨rest, isAnswer⟩ := answer_pair sound notCounted isOrdered isOne isOther notBefore
  rw [IsAnswer, notCounted, if_neg Bool.false_ne_true, if_neg isOrdered, isAnswer,
    matching_pair isOne isOther] at asked
  obtain ⟨kept, isFirst, isShown⟩ := asked
  cases kept with
  | nil => cases isShown
  | cons head tail =>
    rw [map_cons, List.cons.injEq] at isShown
    have isHead : head = other := by
      rcases mem_cons.mp (Selection.mem_of_first isFirst mem_cons_self) with
        isHead | isTail
      · exact isHead
      · rw [mem_singleton] at isTail
        subst isTail
        exact absurd ⟨notCounted, isShown.1.symm⟩ differ
    subst isHead
    have consistent := @consistent_order platform types plan.orderBy
    have isLater : one ∈ [head, one] := mem_cons_of_mem _ mem_cons_self
    rcases Selection.first_head isFirst isLater with same | notAfter
    · subst same
      rw [consistent.self one] at isBefore
      exact lt_irrefl 0 isBefore
    · exact consistent.not_neg_of_nonpos notAfter isBefore

/-! ## Two groups -/

theorem signOf_sub_of_place_eq {first second : Number} (isFinite : IsFiniteDouble first)
    (isFinite' : IsFiniteDouble second) (same : first.place = second.place) :
    signOf (Number.sub first second) = 0 := by
  obtain ⟨notBefore, notAfter⟩ := signOf_sub isFinite isFinite'
  rw [same] at notBefore notAfter
  exact
    le_antisymm (not_lt.mp fun isAfter => lt_irrefl _ (notAfter.mp isAfter))
      (not_lt.mp fun isBefore => lt_irrefl _ (notBefore.mp isBefore))

/-- Equal numbers are not told apart, whatever the field's type. -/
theorem compare_number {number other : Number} (isFinite : IsFiniteDouble number)
    (isFinite' : IsFiniteDouble other) (same : number.place = other.place) :
    compare platform types field (.number number) (.number other) = 0 := by
  have byTexts :
      compareTexts (scalarText platform (.number number)) (scalarText platform (.number other)) =
        0 := by
    have isText : scalarText platform (.number number) = scalarText platform (.number other) :=
      (platform.numberText_inj isFinite isFinite').mpr same
    rw [isText, compareTexts, if_neg (lt_irrefl _), if_neg (lt_irrefl _)]
  have isTime {time : Number} (isFinite : IsFiniteDouble time) :
      timeOf platform (.number time) = time := by
    obtain ⟨negative, magnitude, rfl⟩ := isFinite.eq_finite
    rfl
  have byTimes :
      signOf (Number.sub (timeOf platform (.number number)) (timeOf platform (.number other))) =
        0 := by
    rw [isTime isFinite, isTime isFinite']
    exact signOf_sub_of_place_eq isFinite isFinite' same
  unfold compare
  generalize types field = type
  rcases type with _ | _ | _ | _ | _
  · exact byTexts
  · exact byTexts
  · exact signOf_sub_of_place_eq isFinite isFinite' same
  · exact byTexts
  · exact byTimes

theorem Typed.number {type : Option FieldType} {number : Number}
    (typed : Typed type (.number number)) :
    IsFiniteDouble number := by
  rcases type with _ | _ | _ | _ | _ <;> exact typed

theorem compare_of_is {left right : Scalar} (typed : Typed (types field) left)
    (typed' : Typed (types field) right) (same : (nullable left).Is (nullable right)) :
    compare platform types field left right = 0 := by
  have bySelf {value : Scalar} (typed : Typed (types field) value) :
      compare platform types field value value = 0 :=
    (@consistent_compare platform types field).self ⟨value, typed⟩
  rw [← compare_nullable]
  cases left with
  | number number =>
    cases right with
    | number other => exact compare_number typed.number typed'.number same.2.2
    | _ => cases same
  | _ =>
    cases right with
    | number other => cases same
    | _ =>
      rw [← (same : _ = _)]
      exact bySelf (typed_nullable typed)

/-- Two rows of one group are not told apart by the fields of the group. -/
theorem order_of_sameGroup {orderBy : List OrderKey} (grouped : ∀ key ∈ orderBy, key.field ∈ ids)
    {one other : Row} (typed : RowTyped types one) (typed' : RowTyped types other)
    (same : SameGroup ids one other) :
    order platform types orderBy one other = 0 := by
  induction orderBy with
  | nil => rfl
  | cons key rest ih =>
    obtain ⟨isGrouped, others⟩ := forall_mem_cons.mp grouped
    have isSame :
        compare platform types key.field (one.value key.field) (other.value key.field) = 0 :=
      compare_of_is (typed key.field) (typed' key.field) (same key.field isGrouped)
    rw [order, isSame]
    exact ih others

theorem SameGroup.symm {one other : Row} (same : SameGroup ids one other) :
    SameGroup ids other one := by
  intro id isId
  have sameValue := same id isId
  revert sameValue
  cases nullable (one.value id) <;> cases nullable (other.value id) <;>
    simp only [Scalar.Is] <;> grind

theorem sameGroup_self {row : Row} (typed : RowTyped types row) : SameGroup ids row row := by
  intro id _
  have isTyped := typed id
  revert isTyped
  cases row.value id with
  | number number =>
    intro isTyped
    exact ⟨isTyped.number.1, isTyped.number.1, rfl⟩
  | _ => exact fun _ => rfl

theorem value_setCount_count (count : Nat) (out : Row) :
    (setCount count out).value "count" = .number (Number.ofInt count) := by
  rw [setCount]
  split
  · rename_i isNamed
    induction out with
    | nil => cases isNamed
    | cons one rest ih =>
      by_cases isCount : one.1 = "count"
      · rw [map_cons, if_pos isCount]
        rfl
      · rw [any_cons, decide_eq_false isCount, Bool.false_or] at isNamed
        rw [map_cons, if_neg isCount, Row.value, lookup_cons,
          beq_false_of_ne (Ne.symm isCount)]
        exact ih isNamed
  · rename_i notNamed
    have notHeld : out.lookup "count" = none := by
      rw [lookup_eq_none_iff]
      intro one isOne
      rw [bne_iff_ne]
      intro isCount
      exact notNamed (any_eq_true.mpr ⟨one, isOne, decide_eq_true isCount.symm⟩)
    rw [Row.value, lookup_append, notHeld]
    rfl

/-- Counting one row twice and then a row of another group leaves two groups. -/
theorem answer_groups (sound : plan.Sound) (isCounted : plan.counted = true)
    (isOne : matchesNode platform types one.val plan.filter = true)
    (isOther : matchesNode platform types other.val plan.filter = true)
    (differ : ¬SameGroup plan.groupBy one.val other.val)
    (notAfter :
      order platform types plan.orderBy (project plan.shown other.val)
          (project plan.shown one.val) ≤
        0) :
    ∃ rest,
      answer platform plan [other, other, one] =
        showGroup plan ⟨project plan.groupBy other.val, 2⟩ :: rest := by
  have notSame :
      groupKey platform (project plan.groupBy other.val) ≠
        groupKey platform (project plan.groupBy one.val) :=
    fun same => differ ((groupKey_eq_iff one.property other.property).mp same.symm)
  have isMatching : matching platform plan [other, other, one] = [other, other, one] := by
    simp [matching, isOne, isOther]
  have isGroups :
      ((matching platform plan [other, other, one]).map Subtype.val).foldl
          (fun groups row =>
            countAt (groupKey platform (project plan.groupBy row)) (project plan.groupBy row)
              groups)
          [] =
        [(groupKey platform (project plan.groupBy other.val), ⟨project plan.groupBy other.val, 2⟩),
          (groupKey platform (project plan.groupBy one.val),
            ⟨project plan.groupBy one.val, 1⟩)] := by
    rw [isMatching]
    simp [countAt, notSame]
  have isSorted :
      Selection.Sorted (order platform types plan.orderBy)
        [showGroup plan ⟨project plan.groupBy other.val, 2⟩,
          showGroup plan ⟨project plan.groupBy one.val, 1⟩] := by
    refine pairwise_pair.mpr ?_
    have subset := fun id (isShown : id ∈ plan.shown) => sound.shown_subset isCounted isShown
    rw [order_showGroup sound isCounted, project_project subset, project_project subset]
    exact notAfter
  rw [answer_of_count isCounted, isGroups]
  dsimp only
  rw [if_neg (by rintro ⟨⟨⟩, _⟩), map_cons, map_cons, map_nil,
    Selection.sort_of_sorted isSorted]
  obtain ⟨fewer, isLimit⟩ := Nat.exists_eq_succ_of_ne_zero (Nat.ne_of_gt sound.limit)
  rw [isLimit, take_succ_cons]
  exact ⟨_, rfl⟩

/-- A count whose later group sorts first but does not show it answers another group first. -/
theorem not_isAnswer_groups (sound : plan.Sound) (isCounted : plan.counted = true)
    (isOne : matchesNode platform types one.val plan.filter = true)
    (isOther : matchesNode platform types other.val plan.filter = true)
    (hidden : ¬SortsAsShown platform plan one other) :
    ¬IsAnswer platform plan [other, other, one] (answer platform plan [other, other, one]) := by
  intro asked
  obtain ⟨isBefore, hidden⟩ := Classical.not_imp.mp hidden
  have notBefore := (not_or.mp hidden).2
  have differ : ¬SameGroup plan.groupBy one.val other.val := by
    intro same
    rw [order_of_sameGroup (sound.order isCounted) one.property other.property same] at isBefore
    exact lt_irrefl 0 isBefore
  have notAfter :=
    (@consistent_order_project platform types plan plan.shown).nonpos_of_nonneg notBefore
  obtain ⟨rest, isAnswer⟩ := answer_groups sound isCounted isOne isOther differ notAfter
  have isMatching : matching platform plan [other, other, one] = [other, other, one] := by
    simp [matching, isOne, isOther]
  rw [IsAnswer, if_pos isCounted, isAnswer, isMatching] at asked
  obtain ⟨groups, countOf, kept, isFirst, isShown⟩ := asked
  cases kept with
  | nil => cases isShown
  | cons head tail =>
    rw [map_cons, List.cons.injEq] at isShown
    have isHead : head ∈ groups := Selection.mem_of_first isFirst mem_cons_self
    have ofGroup {group : Group} (isGroup : group ∈ groups) :
        group.row = project plan.groupBy other.val ∨ group.row = project plan.groupBy one.val := by
      rcases countOf.isGroup group isGroup with ⟨row, isRow, isProject⟩ | ⟨⟨⟩, _⟩
      rw [mem_cons, mem_cons, mem_singleton] at isRow
      rcases isRow with rfl | rfl | rfl
      · exact .inl isProject
      · exact .inl isProject
      · exact .inr isProject
    -- Only the group of `other` has two rows.
    have isHeadRow : head.row = project plan.groupBy other.val := by
      refine (ofGroup isHead).resolve_right fun isRow => ?_
      have isNumber := countOf.counted head isHead
      have isSingle :
          ([other, other, one].countP fun row => SameGroup plan.groupBy head.row row.val) = 1 := by
        rw [isRow]
        simp [sameGroup_project_iff, differ, sameGroup_self one.property]
      have sameValue :
          (showGroup plan ⟨project plan.groupBy other.val, 2⟩).value "count" =
            (showGroup plan head).value "count" := by
        rw [isShown.1]
      rw [showGroup, showGroup, value_setCount_count, value_setCount_count, isNumber, isSingle]
        at sameValue
      have sameNumber := Scalar.number.inj sameValue
      rw [Number.ofInt_natCast, Number.ofInt_natCast, Number.finite.injEq] at sameNumber
      exact absurd sameNumber.2 (by norm_num)
    obtain ⟨group, isGroup, sameGroup⟩ :=
      countOf.covered one (mem_cons_of_mem _ (mem_cons_of_mem _ mem_cons_self))
    have isGroupRow : group.row = project plan.groupBy one.val := by
      refine (ofGroup isGroup).resolve_left fun isRow => ?_
      rw [isRow, sameGroup_project_iff] at sameGroup
      exact differ sameGroup.symm
    rcases Selection.first_head isFirst isGroup with same | notAfter
    · rw [same, isHeadRow, sameGroup_project_iff] at sameGroup
      exact differ sameGroup.symm
    · rw [isHeadRow, isGroupRow, order_project (sound.order isCounted)] at notAfter
      exact (@consistent_order platform types plan.orderBy).not_neg_of_nonpos notAfter isBefore

end

end IyaSts.Report
