import IyaSts.ReportRowsHidden

namespace IyaSts.Report

/-!
# Accepted plans

What a plan keeps to that was accepted: what it lists is what was checked, a
count shows and sorts by grouped fields, and a limit is positive.
-/

open List

open Binary64 (Number)

/-! ## Lists of fields -/

variable {key : String}

/-- The ids that are accepted are those that a plan takes. -/
theorem namesFrom_eq {held ids : List String} {elements : List Value}
    (accepted : namesFrom key held elements = .ok ids) :
    ids = held ++ elements.map Value.text := by
  induction elements generalizing held with
  | nil =>
    rw [map_nil, append_nil]
    exact (Except.ok.inj accepted).symm
  | cons element rest ih =>
    cases element with
    | scalar scalar =>
      cases scalar with
      | string name =>
        obtain ⟨_, accepted⟩ := of_passed accepted
        obtain ⟨_, accepted⟩ := of_passed accepted
        rw [ih accepted, map_cons, ← append_cons]
        rfl
      | _ => cases accepted
    | _ => cases accepted

theorem names_eq {value : Value} {ids : List String} (accepted : names value key = .ok ids) :
    copyNames value = ids := by
  cases value with
  | scalar scalar => cases scalar <;> cases accepted <;> rfl
  | array elements => exact (namesFrom_eq accepted).symm
  | object members => cases accepted

section

variable {platform : Platform}

/-- The fields of an order that is accepted are those that a plan sorts by. -/
theorem orderFrom_eq {held fields : List String} {elements : List Value}
    (accepted : orderFrom platform held elements = .ok fields) :
    fields = held ++ (copyOrder platform (.array elements)).map OrderKey.field := by
  induction elements generalizing held with
  | nil =>
    refine (Except.ok.inj accepted).symm.trans ?_
    exact (append_nil held).symm
  | cons element rest ih =>
    cases element with
    | scalar scalar => cases accepted
    | array elements => cases accepted
    | object item =>
      rw [orderFrom] at accepted
      obtain ⟨_, accepted⟩ := of_passed accepted
      cases isField : member item "field" with
      | array elements =>
        rw [isField] at accepted
        cases accepted
      | object members =>
        rw [isField] at accepted
        cases accepted
      | scalar scalar =>
        rw [isField] at accepted
        cases scalar with
        | string field =>
          obtain ⟨_, accepted⟩ := of_passed accepted
          obtain ⟨dir, isDir, accepted⟩ := (Fallible.bind_eq_ok_iff _ _ _).mp accepted
          obtain ⟨_, accepted⟩ := of_passed accepted
          obtain ⟨_, accepted⟩ := of_passed accepted
          have isKey :
              copyOrder platform (.array (.object item :: rest)) =
                ⟨field, dir⟩ :: copyOrder platform (.array rest) := by
            have isText : (member item "field").text = field := by
              rw [isField]
              rfl
            rw [copyOrder, copyOrder, filterMap_cons]
            dsimp only
            rw [isDir, isText]
          rw [ih accepted, isKey, map_cons, ← append_cons]
        | _ => cases accepted

theorem orderOf_eq {value : Value} {fields : List String}
    (accepted : orderOf platform value = .ok fields) :
    (copyOrder platform value).map OrderKey.field = fields := by
  cases value with
  | scalar scalar => cases scalar <;> cases accepted <;> rfl
  | array elements =>
    obtain ⟨_, accepted⟩ := of_passed accepted
    exact (orderFrom_eq accepted).symm
  | object members => cases accepted

/-! ## Counts -/

variable {catalog : Catalog}

theorem field_id {sourceId fieldId : String} {spec : FieldSpec}
    (isField : catalog.field sourceId fieldId = some spec) :
    spec.id = fieldId := by
  have isFound := mem_of_getLast? isField
  rw [mem_filter] at isFound
  exact of_decide_eq_true isFound.2

variable {sourceId : String} {document : Members} {types : String → Option FieldType}
    {plan : Plan}

/-- No field that may be grouped is named `count`. -/
theorem count_not_grouped {ids groupBy order : List String} {counted : Bool}
    (known : unknown catalog sourceId ids = .ok ())
    (flagged : flags catalog sourceId groupBy order counted = .ok ())
    (subset : ∀ id ∈ groupBy, id ∈ ids) :
    "count" ∉ groupBy := by
  intro isGrouped
  have isKnown := (Fallible.ite_eq_ok_iff.mp known).1
  have isField := all_eq_true.mp isKnown "count" (subset _ isGrouped)
  obtain ⟨spec, isSpec⟩ := Option.isSome_iff_exists.mp isField
  rw [flags] at flagged
  split at flagged
  · cases flagged
  · rename_i isAllowed
    have isGroup : spec.group = true := by
      by_contra notGroup
      refine isAllowed (any_eq_true.mpr ⟨"count", isGrouped, ?_⟩)
      rw [isSpec]
      simpa using notGroup
    have isGroupable := spec.groupable isGroup
    rw [field_id isSpec] at isGroupable
    revert isGroupable
    decide

/-- A count selects and sorts by fields that it groups by. -/
theorem of_fieldsOf (accepted : fieldsOf platform catalog sourceId document = .ok ())
    (counted : isCounted document = true) :
    (∀ id ∈ copyNames (member document "select"), id ∈ copyNames (member document "groupBy")) ∧
      (∀ key ∈ copyOrder platform (member document "orderBy"),
        key.field ∈ copyNames (member document "groupBy")) ∧
      "count" ∉ copyNames (member document "groupBy") := by
  rw [fieldsOf, Fallible.bind_eq_ok_iff] at accepted
  obtain ⟨select, isSelect, accepted⟩ := accepted
  obtain ⟨_, accepted⟩ := of_passed accepted
  obtain ⟨_, accepted⟩ := of_passed accepted
  obtain ⟨groupBy, isGroupBy, accepted⟩ := (Fallible.bind_eq_ok_iff _ _ _).mp accepted
  obtain ⟨_, accepted⟩ := of_passed accepted
  obtain ⟨_, accepted⟩ := of_passed accepted
  obtain ⟨order, isOrder, accepted⟩ := (Fallible.bind_eq_ok_iff _ _ _).mp accepted
  obtain ⟨⟨⟩, known, accepted⟩ := (Fallible.bind_eq_ok_iff _ _ _).mp accepted
  obtain ⟨⟨⟩, flagged, accepted⟩ := (Fallible.bind_eq_ok_iff _ _ _).mp accepted
  rw [if_pos counted] at accepted
  obtain ⟨selected, accepted⟩ := of_passed accepted
  obtain ⟨_, accepted⟩ := of_passed accepted
  obtain ⟨ordered, _⟩ := of_passed accepted
  rw [names_eq isSelect, names_eq isGroupBy]
  refine ⟨not_not.mp selected, fun key isKey => ?_, ?_⟩
  · refine not_not.mp ordered key.field ?_
    rw [← orderOf_eq isOrder]
    exact mem_map_of_mem isKey
  · refine count_not_grouped known flagged fun id isId => ?_
    exact mem_append_left _ (mem_append_right _ isId)

theorem limitOf_pos {given : Option Nat} (accepted : limitOf document = .ok given) :
    ∀ limit ∈ given, 0 < limit := by
  rw [limitOf] at accepted
  split at accepted
  · cases accepted
    rintro limit ⟨⟩
  · rename_i magnitude _
    obtain ⟨isWhole, accepted⟩ := of_passed accepted
    cases accepted
    rintro limit ⟨⟩
    rw [NNRat.num_pos]
    exact pos_iff_ne_zero.mpr fun isZero => isWhole (.inl isZero)
  · cases accepted

/-- What an accepted plan keeps to. -/
theorem sound_of_validate {limits : Limits} {document : Value}
    {parameters : Option Members} {plan : Plan}
    (accepted : validate platform catalog limits document parameters = .ok plan) :
    plan.Sound := by
  simp only [validate, Fallible.bind_eq_ok_iff, Fallible.pure_eq_ok_iff] at accepted
  obtain ⟨members, _, spec, _, _, _, _, _, _, _, _, _, ⟨⟩, fields, _, _, given, isLimit, _, _, rfl⟩ :=
    accepted
  have counts := fun isCounted => of_fieldsOf fields isCounted
  refine ⟨?_, fun isCounted => (counts isCounted).1, fun isCounted => (counts isCounted).2.1,
    fun isCounted => (counts isCounted).2.2⟩
  rw [planOf]
  dsimp only
  cases given with
  | none => exact limits.positive
  | some limit => exact limitOf_pos isLimit limit rfl

/-! ## What accepted plans answer -/

/-- Rows sort as they show where every field of the order is shown. -/
theorem sortsAsShown_of_shown (shown : ∀ key ∈ plan.orderBy, key.field ∈ plan.shown)
    (one other : SourceRow types) :
    SortsAsShown platform plan one other := by
  intro isBefore
  refine .inr ?_
  rw [order_project shown]
  exact isBefore

theorem isAnswer_iff_of_sound (sound : plan.Sound) :
    (∀ rows : List (SourceRow types), IsAnswer platform plan rows (answer platform plan rows)) ↔
      ∀ one other : SourceRow types,
        matchesNode platform types one.val plan.filter = true →
          matchesNode platform types other.val plan.filter = true →
            SortsAsShown platform plan one other := by
  constructor
  · intro each one other isOne isOther
    by_contra hidden
    cases isCounted : plan.counted with
    | true => exact not_isAnswer_groups sound isCounted isOne isOther hidden (each _)
    | false => exact not_isAnswer_pair sound isCounted isOne isOther hidden (each _)
  · intro agrees rows
    refine isAnswer_of_agrees sound fun one isOne other isOther => ?_
    exact agrees one other (mem_filter.mp isOne).2 (mem_filter.mp isOther).2

end

/-! ## An order that is not shown -/

theorem groupable_of_not_grouped (id : String) : false = true → id ∈ groupableIds := by rintro ⟨⟩

theorem groupable_status : true = true → "status" ∈ groupableIds := fun _ => by decide

def statusCatalog : Catalog where
  sources :=
    [⟨"users", true, [⟨"username", .string, true, true, false, groupable_of_not_grouped "username"⟩,
        ⟨"status", .string, true, true, true, groupable_status⟩]⟩]

/-- A query of user names, by their status. -/
def byStatus (select : List String) : Value :=
  .object
    [("source", .scalar (.string "users")),
      ("select", .array (select.map fun id => .scalar (.string id))),
      ("orderBy",
        .array [.object [("field", .scalar (.string "status")), ("dir", .scalar (.string "asc"))]])]

/-- A user's row. -/
def userRow (username status : String) : SourceRow (reportTypes statusCatalog "users") where
  val := [("username", .string username), ("status", .string status)]
  property := by
    intro field
    have isName : reportTypes statusCatalog "users" "username" = some .string := rfl
    have isStatus : reportTypes statusCatalog "users" "status" = some .string := rfl
    rw [Row.value, lookup_cons, lookup_cons, lookup_nil]
    by_cases named : field = "username"
    · rw [named, isName]
      trivial
    · rw [beq_false_of_ne named]
      by_cases staged : field = "status"
      · rw [staged, isStatus]
        trivial
      · rw [beq_false_of_ne staged, Typed.eq_def]
        trivial

/-- Without a filter every row matches. -/
theorem matches_copyWhere_scalar {platform : Platform} {types : String → Option FieldType}
    {parameters : Option Members} (scalar : Scalar) (row : Row) :
    matchesNode platform types row (copyWhere parameters (.scalar scalar)) = true := by
  rw [copyWhere]
  rfl

end IyaSts.Report
