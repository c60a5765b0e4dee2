import IyaSts.ReportRowsCount

namespace IyaSts.Report

/-!
# What a plan answers

A plan asks for the first rows that match, for those that sort first, or for
the groups of a count that do.  What is answered is what is asked for where a
row that sorts before another shows it.
-/

open List

open Selection (Consistent First)

section

variable (platform : Platform)
variable {types : String → Option FieldType}
variable (plan : Plan)

/-! ## What is asked for -/

/-- The source rows that match, in order. -/
def matching (rows : List (SourceRow types)) : List (SourceRow types) :=
  rows.filter fun row => matchesNode platform types row.val plan.filter

/-- The groups of some rows, each once and with the number of its rows. -/
structure CountOf (ids : List String) (rows : List (SourceRow types)) (groups : List Group) :
    Prop where
  distinct : groups.Pairwise fun one other => ¬SameGroup ids one.row other.row
  isGroup :
    ∀ group ∈ groups,
      (∃ row ∈ rows, group.row = project ids row.val) ∨ rows = [] ∧ ids = [] ∧ group.row = []
  covered : ∀ row ∈ rows, ∃ group ∈ groups, SameGroup ids group.row row.val
  counted : ∀ group ∈ groups, group.count = rows.countP fun row => SameGroup ids group.row row.val
  /-- Without a grouped field, all rows are one group. -/
  whole : ids = [] → groups ≠ []

/-- What a plan asks for of some source rows. -/
def IsAnswer (rows : List (SourceRow types)) (answer : List Row) : Prop :=
  if plan.counted then
    ∃ groups,
      CountOf plan.groupBy (matching platform plan rows) groups ∧
        ∃ kept,
          First (fun one other => order platform types plan.orderBy one.row other.row)
              plan.limit groups kept ∧
            answer = kept.map (showGroup plan)
  else if plan.orderBy = [] then
    answer =
      ((matching platform plan rows).take plan.limit).map fun row => project plan.select row.val
  else
    ∃ kept,
      First
          (fun one other : SourceRow types => order platform types plan.orderBy one.val other.val)
          plan.limit (matching platform plan rows) kept ∧
        answer = kept.map fun row => project plan.select row.val

/-- What a plan answers when some source rows are offered. -/
def answer (rows : List (SourceRow types)) : List Row :=
  (Rows.empty.offer platform types plan (rows.map Subtype.val)).finish platform types plan

/-- A row that sorts before another shows it, or the two show the same. -/
def SortsAsShown (first second : SourceRow types) : Prop :=
  order platform types plan.orderBy first.val second.val < 0 →
    (plan.counted = false ∧ project plan.shown first.val = project plan.shown second.val) ∨
      order platform types plan.orderBy (project plan.shown first.val)
        (project plan.shown second.val) < 0

end

/-! ## Runs -/

section

variable {platform : Platform}
variable {types : String → Option FieldType}
variable {plan : Plan}

/-- A count keeps the groups of the rows that match. -/
theorem groups_offer (isCounted : plan.counted = true) {rows : Rows}
    (isRunning : rows.stopped = false) (offered : List Row) :
    (rows.offer platform types plan offered).groups =
      (offered.filter fun row => matchesNode platform types row plan.filter).foldl
        (fun groups row =>
          countAt (groupKey platform (project plan.groupBy row)) (project plan.groupBy row) groups)
        rows.groups := by
  induction offered generalizing rows with
  | nil => rfl
  | cons row rest ih =>
    rw [Rows.offer, foldl_cons]
    cases isMatch : matchesNode platform types row plan.filter with
    | false =>
      have isTaken : (rows.take platform types plan row).1 = rows := by
        simp [Rows.take, isRunning, isMatch]
      rw [isTaken, filter_cons_of_neg (by simpa using isMatch)]
      exact ih isRunning
    | true =>
      have isTaken : (rows.take platform types plan row).1 = rows.count platform plan row := by
        simp [Rows.take, isRunning, isMatch, isCounted]
      rw [isTaken, filter_cons_of_pos (by simpa using isMatch), foldl_cons]
      exact @ih (rows.count platform plan row) isRunning

/-- An order keeps the heap of the rows that match. -/
theorem kept_offer_of_order (notCounted : plan.counted = false) (isOrdered : plan.orderBy ≠ [])
    {rows : Rows} (isRunning : rows.stopped = false) (offered : List Row) :
    (rows.offer platform types plan offered).kept =
      ((offered.filter fun row => matchesNode platform types row plan.filter).map
          (project plan.select)).foldl
        (BoundedHeap.offer (order platform types plan.orderBy) plan.limit) rows.kept := by
  induction offered generalizing rows with
  | nil => rfl
  | cons row rest ih =>
    rw [Rows.offer, foldl_cons]
    cases isMatch : matchesNode platform types row plan.filter with
    | false =>
      have isTaken : (rows.take platform types plan row).1 = rows := by
        simp [Rows.take, isRunning, isMatch]
      rw [isTaken, filter_cons_of_neg (by simpa using isMatch)]
      exact ih isRunning
    | true =>
      have isTaken :
          (rows.take platform types plan row).1 =
            rows.heap platform types plan (project plan.select row) := by
        simp [Rows.take, isRunning, isMatch, notCounted, isOrdered]
      rw [isTaken, filter_cons_of_pos (by simpa using isMatch), map_cons, foldl_cons]
      exact @ih (rows.heap platform types plan (project plan.select row)) isRunning

theorem offer_of_stopped {rows : Rows} (isStopped : rows.stopped = true) (offered : List Row) :
    rows.offer platform types plan offered = rows := by
  induction offered with
  | nil => rfl
  | cons row rest ih =>
    have isTaken : (rows.take platform types plan row).1 = rows := by simp [Rows.take, isStopped]
    rw [Rows.offer, foldl_cons, isTaken]
    exact ih

/-- Without an order the first rows that match are kept. -/
theorem kept_offer_of_plain (notCounted : plan.counted = false) (notOrdered : plan.orderBy = [])
    {rows : Rows} (isBounded : rows.kept.size ≤ plan.limit)
    (isStopped : rows.stopped = decide (plan.limit ≤ rows.kept.size)) (offered : List Row) :
    (rows.offer platform types plan offered).kept.toList =
      (rows.kept.toList ++
          (offered.filter fun row => matchesNode platform types row plan.filter).map
            (project plan.select)).take plan.limit := by
  induction offered generalizing rows with
  | nil =>
    rw [filter_nil, map_nil, append_nil,
      take_of_length_le (by simpa using isBounded)]
    rfl
  | cons row rest ih =>
    by_cases isFull : plan.limit ≤ rows.kept.size
    · rw [decide_eq_true isFull] at isStopped
      have isExact : rows.kept.toList.length = plan.limit := by
        rw [Array.length_toList]
        omega
      rw [offer_of_stopped isStopped, ← isExact, take_left]
    · rw [decide_eq_false isFull] at isStopped
      rw [Rows.offer, foldl_cons]
      cases isMatch : matchesNode platform types row plan.filter with
      | false =>
        have isTaken : (rows.take platform types plan row).1 = rows := by
          simp [Rows.take, isStopped, isMatch]
        rw [isTaken, filter_cons_of_neg (by simpa using isMatch)]
        refine ih isBounded ?_
        rw [isStopped, decide_eq_false isFull]
      | true =>
        have isTaken :
            (rows.take platform types plan row).1 =
              { rows with
                kept := rows.kept.push (project plan.select row)
                stopped :=
                  decide (plan.limit ≤ (rows.kept.push (project plan.select row)).size) } := by
          simp [Rows.take, isStopped, isMatch, notCounted, notOrdered]
        rw [isTaken, filter_cons_of_pos (by simpa using isMatch), map_cons,
          append_cons, ← Array.toList_push]
        refine ih ?_ rfl
        rw [Array.size_push]
        omega

variable {row : Row} {name field : String} {value : Scalar} {ids : List String}
    {rows : List (SourceRow types)}

/-- Where `take` answers false, no later row changes the answer. -/
theorem finish_of_take_false {rows : Rows} (isFalse : (rows.take platform types plan row).2 = false)
    (later : List Row) :
    ((rows.take platform types plan row).1.offer platform types plan later).finish
        platform types plan =
      (rows.take platform types plan row).1.finish platform types plan := by
  have isStopped : (rows.take platform types plan row).1.stopped = true := by
    rw [Rows.take] at isFalse ⊢
    split at isFalse
    · rename_i isStopped
      rw [if_pos isStopped]
      exact isStopped
    · rename_i isRunning
      rw [if_neg isRunning]
      split at isFalse
      · cases isFalse
      · rename_i isMatch
        rw [if_neg isMatch]
        split at isFalse
        · cases isFalse
        · rename_i notCounted
          rw [if_neg notCounted]
          split at isFalse
          · rename_i notOrdered
            rw [if_pos notOrdered]
            rw [Bool.not_eq_false'] at isFalse
            exact isFalse
          · cases isFalse
  rw [offer_of_stopped isStopped]

/-! ## Answers -/

theorem filter_map_val (rows : List (SourceRow types)) :
    (rows.map Subtype.val).filter (fun row => matchesNode platform types row plan.filter) =
      (matching platform plan rows).map Subtype.val := by
  rw [matching, filter_map]
  rfl

/-- The order of what rows show is a weak order too. -/
theorem consistent_order_project (ids : List String) :
    Consistent fun first second : SourceRow types =>
      order platform types plan.orderBy (project ids first.val) (project ids second.val) :=
  (@consistent_order platform types plan.orderBy).comap
    fun row : SourceRow types => ⟨project ids row.val, rowTyped_project row.property ids⟩

theorem answer_of_plain (limitPositive : 0 < plan.limit) (notCounted : plan.counted = false)
    (notOrdered : plan.orderBy = []) (rows : List (SourceRow types)) :
    answer platform plan rows =
      ((matching platform plan rows).take plan.limit).map fun row => project plan.select row.val := by
  have kept :=
    @kept_offer_of_plain platform types plan notCounted notOrdered Rows.empty (Nat.zero_le _)
      (decide_eq_false (Nat.not_le_of_lt limitPositive)).symm (rows.map Subtype.val)
  rw [filter_map_val, map_map] at kept
  rw [answer, Rows.finish, notCounted, if_neg Bool.false_ne_true, if_neg (not_not.mpr notOrdered),
    kept]
  simp [Rows.empty, map_take]

/-- What an order answers is shown of the first by what is shown. -/
theorem exists_answer_of_order (limitPositive : 0 < plan.limit) (notCounted : plan.counted = false)
    (isOrdered : plan.orderBy ≠ []) (rows : List (SourceRow types)) :
    ∃ kept,
      First
          (fun one other : SourceRow types =>
            order platform types plan.orderBy (project plan.select one.val)
              (project plan.select other.val))
          plan.limit (matching platform plan rows) kept ∧
        answer platform plan rows = kept.map fun row => project plan.select row.val := by
  have isKept :=
    @kept_offer_of_order platform types plan notCounted isOrdered Rows.empty rfl
      (rows.map Subtype.val)
  have isMapped :=
    @BoundedHeap.foldl_offer_map _ (order platform types plan.orderBy) _
      (fun row : SourceRow types => project plan.select row.val) plan.limit #[]
      (matching platform plan rows)
  rw [Array.map_empty] at isMapped
  rw [filter_map_val, map_map] at isKept
  have isKept' := isKept.trans isMapped
  have keeps :=
    BoundedHeap.keeps_foldl (@consistent_order_project platform types plan plan.select)
      limitPositive (BoundedHeap.keeps_empty _ _) (matching platform plan rows)
  refine
    ⟨_, BoundedHeap.first_sort_of_keeps
      (@consistent_order_project platform types plan plan.select) keeps, ?_⟩
  rw [answer, Rows.finish, notCounted, if_neg Bool.false_ne_true, if_pos isOrdered, isKept',
    Array.toList_map, Selection.sort_map]

/-! ## Plans -/

/-- What a plan that is accepted keeps to. -/
structure Plan.Sound (plan : Plan) : Prop where
  limit : 0 < plan.limit
  select : plan.counted = true → ∀ id ∈ plan.select, id ∈ plan.groupBy
  order : plan.counted = true → ∀ key ∈ plan.orderBy, key.field ∈ plan.groupBy
  count : plan.counted = true → "count" ∉ plan.groupBy

theorem Plan.shown_of_not_counted (notCounted : plan.counted = false) :
    plan.shown = plan.select := by
  rw [Plan.shown, notCounted, if_neg Bool.false_ne_true]

theorem Plan.Sound.shown_subset (sound : plan.Sound) (isCounted : plan.counted = true) {id : String}
    (isShown : id ∈ plan.shown) :
    id ∈ plan.groupBy := by
  rw [Plan.shown, if_pos isCounted] at isShown
  split at isShown
  · exact isShown
  · exact sound.select isCounted id isShown

/-! ## Groups -/

theorem lookup_append_of_ne (isOther : field ≠ name) :
    Row.value (row ++ [(name, value)]) field = row.value field := by
  rw [Row.value, Row.value, lookup_append]
  cases row.lookup field with
  | some held => rfl
  | none =>
    rw [lookup_cons, beq_false_of_ne isOther]
    rfl

theorem lookup_map_of_ne (isOther : field ≠ name) :
    Row.value (row.map fun one => if one.1 = name then (name, value) else one) field =
      row.value field := by
  rw [Row.value, Row.value]
  congr 1
  induction row with
  | nil => rfl
  | cons one rest ih =>
    obtain ⟨id, held⟩ := one
    rw [map_cons]
    by_cases isName : id = name
    · subst isName
      rw [if_pos rfl, lookup_cons, lookup_cons, beq_false_of_ne isOther]
      exact ih
    · rw [if_neg isName, lookup_cons, lookup_cons, ih]

/-- The number of a group is no other field of it. -/
theorem value_setCount {count : Nat} {out : Row} (isOther : field ≠ "count") :
    (setCount count out).value field = out.value field := by
  rw [setCount]
  split
  · exact lookup_map_of_ne isOther
  · exact lookup_append_of_ne isOther

theorem order_congr {orderBy : List OrderKey} {first first' second second' : Row}
    (same : ∀ key ∈ orderBy, first.value key.field = first'.value key.field)
    (same' : ∀ key ∈ orderBy, second.value key.field = second'.value key.field) :
    order platform types orderBy first second = order platform types orderBy first' second' := by
  induction orderBy with
  | nil => rfl
  | cons key rest ih =>
    obtain ⟨isSame, others⟩ := forall_mem_cons.mp same
    obtain ⟨isSame', others'⟩ := forall_mem_cons.mp same'
    rw [order, order, isSame, isSame', ih others others']

theorem project_project {ids groupBy : List String} (subset : ∀ id ∈ ids, id ∈ groupBy)
    (row : Row) :
    project ids (project groupBy row) = project ids row := by
  refine map_congr_left fun id isId => ?_
  rw [value_project, if_pos (subset id isId)]
  cases row.value id <;> rfl

/-- What groups show is ordered by the fields that are shown. -/
theorem order_showGroup (sound : plan.Sound) (isCounted : plan.counted = true) (one other : Group) :
    order platform types plan.orderBy (showGroup plan one) (showGroup plan other) =
      order platform types plan.orderBy (project plan.shown one.row)
        (project plan.shown other.row) := by
  have notCount {key : OrderKey} (isKey : key ∈ plan.orderBy) : key.field ≠ "count" := by
    intro isCount
    have isGrouped := sound.order isCounted key isKey
    rw [isCount] at isGrouped
    exact sound.count isCounted isGrouped
  refine order_congr (fun key isKey => ?_) fun key isKey => ?_
  · rw [showGroup, value_setCount (notCount isKey)]
  · rw [showGroup, value_setCount (notCount isKey)]

theorem sameGroup_project_iff {row other : Row} :
    SameGroup ids (project ids row) other ↔ SameGroup ids row other := by
  refine forall₂_congr fun id isId => ?_
  rw [value_project, if_pos isId]
  cases row.value id <;> exact Iff.rfl

theorem sameGroup_project_project_iff {row other : Row} :
    SameGroup ids (project ids row) (project ids other) ↔ SameGroup ids row other := by
  rw [sameGroup_project_iff]
  refine forall₂_congr fun id isId => ?_
  rw [value_project, if_pos isId]
  cases other.value id <;> exact Iff.rfl

/-- The groups that a count keeps are those of the rows that match. -/
theorem countOf_groups {groups : List (List Char × Group)}
    (counted : Counted platform ids (rows.map Subtype.val) groups) (some : ids = [] → groups ≠ []) :
    CountOf ids rows (groups.map Prod.snd) := by
  have ofRow {one : List Char × Group} (isOne : one ∈ groups) :
      ∃ row ∈ rows,
        one.2.row = project ids row.val ∧ one.1 = groupKey platform (project ids row.val) := by
    obtain ⟨isKey, _, isMapped, isProject⟩ := counted.isGroup one isOne
    obtain ⟨row, isRow, rfl⟩ := mem_map.mp isMapped
    exact ⟨row, isRow, isProject, by rw [isKey, isProject]⟩
  refine ⟨?_, fun group isGroup => ?_, fun row isRow => ?_, fun group isGroup => ?_, ?_⟩
  · rw [pairwise_map]
    refine (pairwise_map.mp counted.distinct).imp_of_mem fun isOne isOther differ same => ?_
    obtain ⟨row, _, isProject, isKey⟩ := ofRow isOne
    obtain ⟨row', _, isProject', isKey'⟩ := ofRow isOther
    rw [isProject, isProject', sameGroup_project_project_iff] at same
    rw [isKey, isKey', (groupKey_eq_iff row.property row'.property).mpr same] at differ
    exact differ rfl
  · obtain ⟨one, isOne, rfl⟩ := mem_map.mp isGroup
    obtain ⟨row, isRow, isProject, _⟩ := ofRow isOne
    exact .inl ⟨row, isRow, isProject⟩
  · obtain ⟨one, isOne, sameKey⟩ :=
      mem_map.mp (counted.covered row.val (mem_map_of_mem isRow))
    obtain ⟨row', _, isProject, isKey⟩ := ofRow isOne
    refine ⟨one.2, mem_map_of_mem isOne, ?_⟩
    rw [isProject, sameGroup_project_iff,
      ← @groupKey_eq_iff platform types _ _ _ row'.property row.property, ← isKey, sameKey]
  · obtain ⟨one, isOne, rfl⟩ := mem_map.mp isGroup
    obtain ⟨row', _, isProject, isKey⟩ := ofRow isOne
    rw [counted.counted one isOne, countP_map]
    refine countP_congr fun row _ => ?_
    have sameKey :
        groupKey platform (project ids row.val) = one.1 ↔ SameGroup ids one.2.row row.val := by
      rw [isKey, isProject, sameGroup_project_iff, eq_comm,
        groupKey_eq_iff row'.property row.property]
    simpa using sameKey
  · intro noIds isNil
    exact some noIds (map_eq_nil_iff.mp isNil)

/-- What a count answers is sorted of the groups that it keeps. -/
theorem answer_of_count (isCounted : plan.counted = true) (rows : List (SourceRow types)) :
    answer platform plan rows =
      let groups :=
        ((matching platform plan rows).map Subtype.val).foldl
          (fun groups row =>
            countAt (groupKey platform (project plan.groupBy row)) (project plan.groupBy row)
              groups)
          []
      (Selection.sort (order platform types plan.orderBy)
        (if groups = [] ∧ plan.groupBy = [] then [setCount 0 []]
        else groups.map fun one => showGroup plan one.2)).take plan.limit := by
  have isGroups := @groups_offer platform types plan isCounted Rows.empty rfl (rows.map Subtype.val)
  rw [filter_map_val] at isGroups
  rw [answer, Rows.finish, if_pos isCounted, Rows.finishCount, isGroups]
  rfl

/-- What a count answers is shown of the first of its groups by what is shown. -/
theorem exists_answer_of_count (sound : plan.Sound) (isCounted : plan.counted = true)
    (rows : List (SourceRow types)) :
    ∃ groups,
      CountOf plan.groupBy (matching platform plan rows) groups ∧
        answer platform plan rows =
          (Selection.sort (order platform types plan.orderBy)
            (groups.map (showGroup plan))).take plan.limit := by
  have counted :=
    counted_foldl (counted_nil platform plan.groupBy)
      ((matching platform plan rows).map Subtype.val)
  rw [nil_append] at counted
  rw [answer_of_count isCounted]
  dsimp only
  by_cases noGroup :
      ((matching platform plan rows).map Subtype.val).foldl
          (fun groups row =>
            countAt (groupKey platform (project plan.groupBy row)) (project plan.groupBy row)
              groups)
          [] = [] ∧ plan.groupBy = []
  · rw [if_pos noGroup]
    obtain ⟨isNil, noIds⟩ := noGroup
    rw [isNil] at counted
    have noMatch : matching platform plan rows = [] := by
      refine eq_nil_iff_forall_not_mem.mpr fun row isRow => ?_
      exact not_mem_nil (counted.covered row.val (mem_map_of_mem isRow))
    have noShown : plan.shown = [] := by
      refine eq_nil_iff_forall_not_mem.mpr fun id isShown => ?_
      have isGrouped := sound.shown_subset isCounted isShown
      rw [noIds] at isGrouped
      exact not_mem_nil isGrouped
    refine ⟨[⟨[], 0⟩], ?_, ?_⟩
    · rw [noMatch, noIds]
      refine ⟨pairwise_singleton _ _, ?_, forall_mem_nil _, ?_, ?_⟩
      · exact forall_mem_singleton.mpr (.inr ⟨rfl, rfl, rfl⟩)
      · exact forall_mem_singleton.mpr rfl
      · exact fun _ => cons_ne_nil _ _
    · rw [map_singleton, showGroup, noShown]
      rfl
  · rw [if_neg noGroup]
    refine ⟨_, countOf_groups counted ?_, ?_⟩
    · intro noIds isNil
      exact noGroup ⟨isNil, noIds⟩
    · rw [map_map]
      rfl

theorem rowTyped_of_countOf {groups : List Group} (countOf : CountOf ids rows groups) :
    ∀ group ∈ groups, RowTyped types group.row := by
  intro group isGroup
  rcases countOf.isGroup group isGroup with ⟨row, _, isProject⟩ | ⟨_, _, isNil⟩
  · rw [isProject]
    exact rowTyped_project row.property ids
  · rw [isNil]
    intro field
    exact trivial

/-! ## Where rows sort as they show -/

/-- A count answers what is asked for where its rows sort as they show. -/
theorem isAnswer_of_count (sound : plan.Sound) (isCounted : plan.counted = true)
    (agrees :
      ∀ one ∈ matching platform plan rows, ∀ other ∈ matching platform plan rows,
        SortsAsShown platform plan one other) :
    IsAnswer platform plan rows (answer platform plan rows) := by
  obtain ⟨groups, countOf, isAnswer⟩ := exists_answer_of_count sound isCounted rows
  rw [IsAnswer, if_pos isCounted]
  refine ⟨groups, countOf, ?_⟩
  have typed := rowTyped_of_countOf countOf
  lift groups to List { group : Group // RowTyped types group.row } using typed
  have consistent :
      Consistent fun one other : { group : Group // RowTyped types group.row } =>
        order platform types plan.orderBy one.val.row other.val.row :=
    (@consistent_order platform types plan.orderBy).comap
      fun group : { group : Group // RowTyped types group.row } =>
        (⟨group.val.row, group.property⟩ : SourceRow types)
  have shownConsistent :
      Consistent fun one other : { group : Group // RowTyped types group.row } =>
        order platform types plan.orderBy (showGroup plan one.val) (showGroup plan other.val) :=
    ((@consistent_order_project platform types plan plan.shown).comap
      fun group : { group : Group // RowTyped types group.row } =>
        (⟨group.val.row, group.property⟩ : SourceRow types)).congr
      fun one other => order_showGroup sound isCounted one.val other.val
  have isFirst :=
    Selection.first_take (Selection.sorted_sort shownConsistent groups)
      (Selection.sort_perm _ groups) plan.limit
  have groupsAgree :
      ∀ one ∈ groups, ∀ other ∈ groups,
        order platform types plan.orderBy one.val.row other.val.row < 0 →
          showGroup plan one.val = showGroup plan other.val ∨
            order platform types plan.orderBy (showGroup plan one.val) (showGroup plan other.val) <
              0 := by
    intro one isOne other isOther isBefore
    refine .inr ?_
    rw [order_showGroup sound isCounted]
    have ofRow {group : Group} (isGroup : group ∈ groups.map Subtype.val) :
        ∃ row ∈ matching platform plan rows, group.row = project plan.groupBy row.val := by
      rcases countOf.isGroup group isGroup with isRow | ⟨_, noIds, _⟩
      · exact isRow
      · have noOrder : plan.orderBy = [] := by
          refine eq_nil_iff_forall_not_mem.mpr fun key isKey => ?_
          have isGrouped := sound.order isCounted key isKey
          rw [noIds] at isGrouped
          exact not_mem_nil isGrouped
        rw [noOrder] at isBefore
        exact absurd isBefore (lt_irrefl 0)
    obtain ⟨row, isRow, isProject⟩ := ofRow (mem_map_of_mem isOne)
    obtain ⟨row', isRow', isProject'⟩ := ofRow (mem_map_of_mem isOther)
    have subset := fun id (isShown : id ∈ plan.shown) => sound.shown_subset isCounted isShown
    rw [isProject, isProject', order_project (sound.order isCounted)] at isBefore
    rw [isProject, isProject', project_project subset, project_project subset]
    rcases agrees row isRow row' isRow' isBefore with ⟨notCounted, _⟩ | shownBefore
    · rw [isCounted] at notCounted
      cases notCounted
    · exact shownBefore
  obtain ⟨kept, keptFirst, sameShown⟩ :=
    Selection.first_of_shown consistent shownConsistent groupsAgree isFirst
  have keptGroups :=
    @First.map _ _ (fun one other : Group => order platform types plan.orderBy one.row other.row)
      Subtype.val _ _ _ keptFirst
  refine ⟨kept.map Subtype.val, keptGroups, ?_⟩
  rw [isAnswer, map_map, Selection.sort_map, ← map_take, map_map]
  exact sameShown.symm

/-- An order answers what is asked for where its rows sort as they show. -/
theorem isAnswer_of_order (sound : plan.Sound) (notCounted : plan.counted = false)
    (isOrdered : plan.orderBy ≠ [])
    (agrees :
      ∀ one ∈ matching platform plan rows, ∀ other ∈ matching platform plan rows,
        SortsAsShown platform plan one other) :
    IsAnswer platform plan rows (answer platform plan rows) := by
  obtain ⟨firstShown, isFirst, isAnswer⟩ :=
    exists_answer_of_order sound.limit notCounted isOrdered rows
  rw [IsAnswer, notCounted, if_neg Bool.false_ne_true, if_neg isOrdered, isAnswer]
  have rowsAgree :
      ∀ one ∈ matching platform plan rows, ∀ other ∈ matching platform plan rows,
        order platform types plan.orderBy one.val other.val < 0 →
          project plan.select one.val = project plan.select other.val ∨
            order platform types plan.orderBy (project plan.select one.val)
                (project plan.select other.val) <
              0 := by
    intro one isOne other isOther isBefore
    have shown := agrees one isOne other isOther isBefore
    rw [plan.shown_of_not_counted notCounted] at shown
    exact shown.imp And.right id
  obtain ⟨kept, keptFirst, sameShown⟩ :=
    @Selection.first_of_shown _ _ _ (order platform types plan.orderBy)
      (fun row : SourceRow types => project plan.select row.val) (consistent_order plan.orderBy)
      (consistent_order_project plan.select) _ _ _ rowsAgree isFirst
  exact ⟨kept, keptFirst, sameShown.symm⟩

/-- A plan answers what is asked for where its rows sort as they show. -/
theorem isAnswer_of_agrees (sound : plan.Sound)
    (agrees :
      ∀ one ∈ matching platform plan rows, ∀ other ∈ matching platform plan rows,
        SortsAsShown platform plan one other) :
    IsAnswer platform plan rows (answer platform plan rows) := by
  cases isCounted : plan.counted with
  | true => exact isAnswer_of_count sound isCounted agrees
  | false =>
    by_cases isOrdered : plan.orderBy = []
    · rw [IsAnswer, isCounted, if_neg Bool.false_ne_true, if_pos isOrdered]
      exact answer_of_plain sound.limit isCounted isOrdered rows
    · exact isAnswer_of_order sound isCounted isOrdered agrees

end

end IyaSts.Report
