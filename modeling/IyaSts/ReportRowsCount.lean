import IyaSts.ReportFilterHolds
import IyaSts.ReportRowsOrder

namespace IyaSts.Report

/-!
# The groups of a count

Rows are counted by a text of their grouped values.  Two rows have one text
exactly where their grouped values are equal, so that each group is counted
once, and with all its rows.
-/

open List

open Binary64 (Number)

/-! ## Keys -/

/-- Two rows have equal values for the grouped fields. -/
def SameGroup (ids : List String) (one other : Row) : Prop :=
  ∀ id ∈ ids, (nullable (one.value id)).Is (nullable (other.value id))

instance (left right : Scalar) : Decidable (left.Is right) :=
  decidable_of_iff _ (strictEqual_scalar_iff left right)

instance (ids : List String) (one other : Row) : Decidable (SameGroup ids one other) :=
  inferInstanceAs (Decidable (∀ id ∈ ids, (nullable (one.value id)).Is (nullable (other.value id))))

section

variable {platform : Platform}

theorem render_array_inj {elements elements' : List Content}
    (same : (Content.array elements).render = (Content.array elements').render) :
    elements = elements' := by
  have delimited : Content.Delimited [] := by rintro first ⟨⟩
  have isSame :=
    @Content.render_append_inj (.array elements) (.array elements') [] [] delimited delimited
      (by rw [same])
  exact Content.array.inj isSame.1

/-- Two numbers are written alike where they are equal. -/
theorem scalarContent_number_iff {number other : Number}
    (isFinite : IsFiniteDouble number) (isFinite' : IsFiniteDouble other) :
    scalarContent platform (.number number) = scalarContent platform (.number other) ↔
      (Scalar.number number).Is (.number other) := by
  have isText := platform.numberText_inj isFinite isFinite'
  obtain ⟨negative, magnitude, rfl⟩ := isFinite.eq_finite
  obtain ⟨negative', magnitude', rfl⟩ := isFinite'.eq_finite
  rw [scalarContent, scalarContent, Content.number.injEq, Numeral.mk.injEq, isText, Scalar.Is]
  exact ((and_iff_right rfl).trans (and_iff_right rfl)).symm

/-- Two values are written alike where they are equal. -/
theorem scalarContent_eq_iff {type : Option FieldType} {value other : Scalar}
    (typed : Typed type value) (typed' : Typed type other) :
    scalarContent platform (nullable value) = scalarContent platform (nullable other) ↔
      (nullable value).Is (nullable other) := by
  have isNumber {number : Number} (typed : Typed type (.number number)) : IsFiniteDouble number := by
    rcases type with _ | _ | _ | _ | _ <;> exact typed
  have notNumber
      {number : Number}
      (typed : Typed type (.number number))
      {content : Content}
      (notNumeral : ∀ numeral, content ≠ .number numeral) :
      scalarContent platform (.number number) ≠ content := by
    obtain ⟨negative, magnitude, rfl⟩ := (isNumber typed).eq_finite
    rw [scalarContent]
    exact (notNumeral _).symm
  cases value with
  | number number =>
    cases other with
    | number number' => exact scalarContent_number_iff (isNumber typed) (isNumber typed')
    | _ => exact iff_of_false (notNumber typed (by rintro numeral ⟨⟩)) (by rintro ⟨⟩)
  | _ =>
    cases other with
    | number number' =>
      exact iff_of_false (notNumber typed' (by rintro numeral ⟨⟩)).symm (by rintro ⟨⟩)
    | _ => simp [nullable, Scalar.isAbsent, scalarContent, Scalar.Is]

/-- Two rows are of one group where their keys are the same. -/
theorem groupKey_eq_iff {types : String → Option FieldType}
    {ids : List String} {one other : Row} (typed : RowTyped types one)
    (typed' : RowTyped types other) :
    groupKey platform (project ids one) = groupKey platform (project ids other) ↔
      SameGroup ids one other := by
  have isContents (row : Row) :
      (project ids row).map (fun one => scalarContent platform one.2) =
        ids.map fun id => scalarContent platform (nullable (row.value id)) := by
    rw [project, map_map]
    rfl
  rw [groupKey, groupKey, isContents, isContents]
  constructor
  · intro same id isId
    have sameContents := map_inj_left.mp (render_array_inj same) id isId
    exact (scalarContent_eq_iff (typed id) (typed' id)).mp sameContents
  · intro same
    refine congrArg (fun contents => (Content.array contents).render) ?_
    refine map_congr_left fun id isId => ?_
    exact (scalarContent_eq_iff (typed id) (typed' id)).mpr (same id isId)

/-! ## Counting -/

/-- What a count has kept of some rows: each group's key, row and number. -/
structure Counted (platform : Platform) (ids : List String) (rows : List Row)
    (groups : List (List Char × Group)) :
    Prop where
  distinct : (groups.map Prod.fst).Nodup
  isGroup :
    ∀ one ∈ groups, one.1 = groupKey platform one.2.row ∧ ∃ row ∈ rows, one.2.row = project ids row
  covered : ∀ row ∈ rows, groupKey platform (project ids row) ∈ groups.map Prod.fst
  counted :
    ∀ one ∈ groups, one.2.count = rows.countP fun row => groupKey platform (project ids row) = one.1

theorem keys_countAt (key : List Char) (row : Row) (groups : List (List Char × Group)) :
    (countAt key row groups).map Prod.fst =
      if key ∈ groups.map Prod.fst then groups.map Prod.fst
      else groups.map Prod.fst ++ [key] := by
  induction groups with
  | nil => rfl
  | cons one rest ih =>
    obtain ⟨other, held⟩ := one
    rw [countAt]
    by_cases isKey : other = key
    · subst isKey
      simp
    · rw [if_neg isKey, map_cons, map_cons, ih]
      have notKey : ¬key = other := Ne.symm isKey
      by_cases inRest : key ∈ rest.map Prod.fst
      · rw [if_pos inRest, if_pos (mem_cons_of_mem _ inRest)]
      · rw [if_neg inRest, if_neg (by simp only [mem_cons, not_or]; exact ⟨notKey, inRest⟩)]
        rfl

variable {groups : List (List Char × Group)} {ids : List String} {rows : List Row}

/-- A group after one row more is one that was, with that row or without. -/
theorem of_mem_countAt {key : List Char} {row : Row}
    (distinct : (groups.map Prod.fst).Nodup) {one : List Char × Group}
    (isOne : one ∈ countAt key row groups) :
    (one ∈ groups ∧ one.1 ≠ key) ∨
      (∃ held, (key, held) ∈ groups ∧ one = (key, { held with count := held.count + 1 })) ∨
      (key ∉ groups.map Prod.fst ∧ one = (key, ⟨row, 1⟩)) := by
  induction groups with
  | nil =>
    rw [countAt, mem_singleton] at isOne
    exact .inr (.inr ⟨not_mem_nil, isOne⟩)
  | cons first rest ih =>
    obtain ⟨other, held⟩ := first
    rw [map_cons, nodup_cons] at distinct
    rw [countAt] at isOne
    by_cases isKey : other = key
    · subst isKey
      rw [if_pos rfl] at isOne
      rcases mem_cons.mp isOne with rfl | inRest
      · exact .inr (.inl ⟨held, mem_cons_self, rfl⟩)
      · refine .inl ⟨mem_cons_of_mem _ inRest, ?_⟩
        rintro rfl
        exact distinct.1 (mem_map.mpr ⟨one, inRest, rfl⟩)
    · rw [if_neg isKey] at isOne
      rcases mem_cons.mp isOne with rfl | inRest
      · exact .inl ⟨mem_cons_self, isKey⟩
      · rcases ih distinct.2 inRest with
          ⟨isOld, notKey⟩ | ⟨held', isHeld, rfl⟩ | ⟨isNew, rfl⟩
        · exact .inl ⟨mem_cons_of_mem _ isOld, notKey⟩
        · exact .inr (.inl ⟨held', mem_cons_of_mem _ isHeld, rfl⟩)
        · refine .inr (.inr ⟨?_, rfl⟩)
          rw [map_cons, mem_cons, not_or]
          exact ⟨Ne.symm isKey, isNew⟩

theorem counted_nil (platform : Platform) (ids : List String) : Counted platform ids [] [] where
  distinct := nodup_nil
  isGroup := forall_mem_nil _
  covered := forall_mem_nil _
  counted := forall_mem_nil _

/-- One row more is counted in its own group, and in no other. -/
theorem counted_countAt (counted : Counted platform ids rows groups) (row : Row) :
    Counted platform ids (rows ++ [row])
      (countAt (groupKey platform (project ids row)) (project ids row) groups) := by
  obtain ⟨distinct, isGroup, covered, counts⟩ := counted
  refine ⟨?_, fun one isOne => ?_, fun other isOther => ?_, fun one isOne => ?_⟩
  · rw [keys_countAt]
    split
    · exact distinct
    · rename_i isNew
      exact nodup_append.mpr ⟨distinct, nodup_singleton _, fun _ isOld _ isKey => by
          rw [mem_singleton.mp isKey]
          rintro rfl
          exact isNew isOld⟩
  · rcases of_mem_countAt distinct isOne with ⟨isOld, _⟩ | ⟨held, isHeld, rfl⟩ | ⟨_, rfl⟩
    · obtain ⟨isKey, other, isOther, isRow⟩ := isGroup one isOld
      exact ⟨isKey, other, mem_append_left _ isOther, isRow⟩
    · obtain ⟨isKey, other, isOther, isRow⟩ := isGroup _ isHeld
      exact ⟨isKey, other, mem_append_left _ isOther, isRow⟩
    · exact ⟨rfl, row, mem_append_right _ (mem_singleton.mpr rfl), rfl⟩
  · rw [keys_countAt]
    rcases mem_append.mp isOther with isOld | isRow
    · have isKey := covered other isOld
      split
      · exact isKey
      · exact mem_append_left _ isKey
    · rw [mem_singleton.mp isRow]
      split
      · assumption
      · exact mem_append_right _ (mem_singleton.mpr rfl)
  · rw [countP_append, countP_singleton]
    rcases of_mem_countAt distinct isOne with ⟨isOld, notKey⟩ | ⟨held, isHeld, rfl⟩ | ⟨isNew, rfl⟩
    · rw [counts one isOld, if_neg (by simpa using Ne.symm notKey), Nat.add_zero]
    · rw [if_pos (by simp)]
      exact congrArg (· + 1) (counts _ isHeld)
    · rw [if_pos (by simp), countP_eq_zero.mpr]
      intro other isOther isSame
      have isKey : groupKey platform (project ids other) = groupKey platform (project ids row) :=
        of_decide_eq_true isSame
      rw [← isKey] at isNew
      exact isNew (covered other isOther)

/-- Counting some rows, each group has its rows. -/
theorem counted_foldl (counted : Counted platform ids rows groups) (more : List Row) :
    Counted platform ids (rows ++ more)
      (more.foldl
        (fun groups row => countAt (groupKey platform (project ids row)) (project ids row) groups)
        groups) := by
  induction more generalizing rows groups with
  | nil =>
    rw [append_nil]
    exact counted
  | cons row rest ih =>
    rw [append_cons]
    exact ih (counted_countAt counted row)

end

end IyaSts.Report
