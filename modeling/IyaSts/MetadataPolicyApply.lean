import IyaSts.JsonContent
import IyaSts.MetadataPolicy

namespace IyaSts.MetadataPolicy

open Json JsObject SpacedText Fallible

/-!
# What one parameter's operators make of it

The operators of a parameter run in a fixed order over one value.  Where they
may be combined at all, what one establishes the later ones keep.
-/

open List

/-! ## What an operator asks of the resolved parameter -/

/-- What the elements of an array say. -/
def valuesOf (value : Json) : List Content := (elements value).map content

/-- Equal values, arrays up to the order and the repetition of theirs. -/
def SameValues (a b : Json) : Prop :=
  a.content = b.content ∨
    (isArray a = true ∧ isArray b = true ∧ valuesOf a ⊆ valuesOf b ∧ valuesOf b ⊆ valuesOf a)

/-- A parameter as some operators, taken alone, ask for it. -/
structure Satisfies (name : String) (ops : Members)
    (parameter : Option Json) : Prop where
  value :
    ∀ v, ops.lookup "value" = some v → v ≠ .null →
      ∃ held, parameter = some held ∧ SameValues (seen name held) (seen name v)
  absent : ops.lookup "value" = some .null → parameter = none
  add :
    ∀ v, ops.lookup "add" = some v →
      ∃ held,
        parameter = some held ∧
          isArray (seen name held) = true ∧ valuesOf v ⊆ valuesOf (seen name held)
  oneOf :
    ∀ v held, ops.lookup "one_of" = some v → parameter = some held →
      (seen name held).content ∈ valuesOf v
  subsetOf :
    ∀ v held, ops.lookup "subset_of" = some v → parameter = some held →
      isArray (seen name held) = true ∧ valuesOf (seen name held) ⊆ valuesOf v
  supersetOf :
    ∀ v held, ops.lookup "superset_of" = some v → parameter = some held →
      isArray (seen name held) = true ∧ valuesOf v ⊆ valuesOf (seen name held)
  essential : isEssential ops = true → parameter.isSome = true

/-! ## Comparing serialisations -/

/-- The values of an array, as the code compares them. -/
def keysOf (value : Json) : List String := (elements value).map canonical

theorem canonical_mem_iff (one : Json) (values : List Json) :
    canonical one ∈ values.map canonical ↔ one.content ∈ values.map content := by
  simp only [mem_map, canonical_eq_iff]

variable (a b : Json) (first second : List Json) (key : String)

theorem keysOf_subset_iff : keysOf a ⊆ keysOf b ↔ valuesOf a ⊆ valuesOf b := by
  constructor
  · intro isSubset said isSaid
    obtain ⟨one, isOne, rfl⟩ := mem_map.mp isSaid
    exact (canonical_mem_iff one _).mp (isSubset (mem_map_of_mem isOne))
  · intro isSubset key isKey
    obtain ⟨one, isOne, rfl⟩ := mem_map.mp isKey
    exact (canonical_mem_iff one _).mpr (isSubset (mem_map_of_mem isOne))

theorem same_iff : same a b = true ↔ a.content = b.content := by
  rw [same, beq_iff_eq, canonical_eq_iff]

/-! ## Values that survive being joined and split -/

/-- A text that is one word. -/
def OneWordText (value : Json) : Prop := ∃ text, value = .string text ∧ OneWord text

variable {values : List Json} {value held : Json} {text : String} {texts : List String}
    {identity : Nat} {after : Option Json}

theorem elementTexts_of_oneWord (eachOne : ∀ value ∈ values, OneWordText value) :
    ∃ texts,
      elementTexts values = some texts ∧
        values = texts.map Json.string ∧ ∀ text ∈ texts, OneWord text := by
  induction values with
  | nil => exact ⟨[], rfl, rfl, by simp⟩
  | cons value rest ih =>
    obtain ⟨text, rfl, isOne⟩ := eachOne value mem_cons_self
    obtain ⟨texts, areTexts, rfl, areOne⟩ :=
      ih fun later isLater => eachOne later (mem_cons_of_mem _ isLater)
    refine ⟨text :: texts, ?_, rfl, ?_⟩
    · simp [elementTexts, toText, areTexts]
    · intro other isOther
      rcases mem_cons.mp isOther with rfl | isLater
      · exact isOne
      · exact areOne other isLater

/-- A value that says a text is that text. -/
theorem eq_string_of_content (sameContent : value.content = (Json.string text).content) :
    value = .string text := by
  cases value with
  | string text' =>
    simp only [content, Content.string.injEq] at sameContent
    rw [sameContent]
  | _ => simp [content] at sameContent

theorem seen_of_array {name : String} (array : isArray value = true) : seen name value = value := by
  cases value with
  | array identity values => rfl
  | _ => cases array

/-- The texts of a longer array are one more text. -/
theorem elementTexts_cons {rest : List Json}
    (areTexts : elementTexts (value :: rest) = some texts) :
    ∃ text later,
      texts = text :: later ∧
        elementTexts rest = some later ∧ ∀ held, value = .string held → text = held := by
  cases value with
  | null =>
    simp only [elementTexts, Option.map_eq_some_iff] at areTexts
    obtain ⟨later, areLater, rfl⟩ := areTexts
    exact ⟨"", later, rfl, areLater, fun _ isText => by cases isText⟩
  | string held =>
    simp only [elementTexts, toText, Option.bind_eq_bind, Option.bind_some, Option.bind_eq_some_iff,
      Option.pure_def, Option.some.injEq] at areTexts
    obtain ⟨later, areLater, rfl⟩ := areTexts
    refine ⟨held, later, rfl, areLater, ?_⟩
    intro other isText
    cases isText
    rfl
  | _ =>
    simp only [elementTexts, Option.bind_eq_bind, Option.bind_eq_some_iff, Option.pure_def,
      Option.some.injEq] at areTexts
    obtain ⟨text, _, later, areLater, rfl⟩ := areTexts
    exact ⟨text, later, rfl, areLater, fun _ isText => by cases isText⟩

theorem mem_elementTexts (areTexts : elementTexts values = some texts)
    (isValue : .string text ∈ values) :
    text ∈ texts := by
  induction values generalizing texts with
  | nil => cases isValue
  | cons value rest ih =>
    obtain ⟨first, later, rfl, areLater, isFirst⟩ := elementTexts_cons areTexts
    rcases mem_cons.mp isValue with isHead | isLater
    · rw [isFirst text isHead.symm]
      exact mem_cons_self
    · exact mem_cons_of_mem _ (ih areLater isLater)

/-- The values of `scope` are seen as one word each, once they are stored. -/
theorem oneWord_of_stored (isStored : stored "scope" value = .ok held) {one : Json}
    (isSeen : one ∈ elements (seen "scope" held)) :
    OneWordText one := by
  have ofText
      (text : String)
      (isWord : one ∈ elements (seen "scope" (.string text))) :
      OneWordText one := by
    simp only [seen, if_true, arrayFrom, elements, mem_map] at isWord
    obtain ⟨word, isWord, rfl⟩ := isWord
    exact ⟨word, rfl, oneWord_of_mem isWord⟩
  cases value with
  | array identity values =>
    simp only [stored, if_true] at isStored
    split at isStored
    · cases isStored
      exact ofText _ isSeen
    · cases isStored
  | string text =>
    cases isStored
    exact ofText text isSeen
  | _ =>
    cases isStored
    cases isSeen

/-- A stored array is seen with every value that is one word. -/
theorem mem_seen_of_stored {name : String}
    (isStored : stored name (.array identity values) = .ok held) :
    isArray (seen name held) = true ∧
      ∀ one ∈ values, (name = "scope" → OneWordText one) → one ∈ elements (seen name held) := by
  by_cases isScope : name = "scope"
  · subst isScope
    simp only [stored, if_true] at isStored
    split at isStored
    · rename_i texts areTexts
      cases isStored
      refine ⟨rfl, ?_⟩
      intro one isOne isWord
      obtain ⟨text, rfl, oneWord⟩ := isWord rfl
      have isText := mem_elementTexts areTexts isOne
      simp only [seen, if_true, arrayFrom, elements, words_join]
      refine mem_map_of_mem (mem_flatMap.mpr ⟨text, isText, ?_⟩)
      rw [oneWord]
      exact mem_singleton_self text
    · cases isStored
  · simp only [stored, if_neg isScope] at isStored
    cases isStored
    exact ⟨rfl, fun one isOne _ => isOne⟩

/-- A stored array of words is seen as it was. -/
theorem elements_seen_of_stored {name : String}
    (isStored : stored name (.array identity values) = .ok held)
    (areWords : name = "scope" → ∀ one ∈ values, OneWordText one) :
    elements (seen name held) = values := by
  by_cases isScope : name = "scope"
  · subst isScope
    obtain ⟨texts, areTexts, rfl, areOne⟩ := elementTexts_of_oneWord (areWords rfl)
    simp only [stored, if_true, areTexts] at isStored
    cases isStored
    simp only [seen, if_true, arrayFrom, elements, words_join_of_oneWord areOne]
  · simp only [stored, if_neg isScope] at isStored
    cases isStored
    rfl

/-! ## What each operator does -/

/-- A parameter was written. -/
def Writes (name : String) (value : Json) (after : Option Json) : Prop :=
  ∃ held, stored name value = .ok held ∧ after = some held

section

variable {type name : String} {v : Json} {out out' : Members}

/-- Writing a parameter changes it alone. -/
theorem write_ok (writable : name ≠ "__proto__") (wrote : write out name v = .ok out') :
    (∀ other, other ≠ name → out'.lookup other = out.lookup other) ∧
      Writes name v (out'.lookup name) := by
  rw [write, bind_eq_ok_iff] at wrote
  obtain ⟨held, isStored, assigned⟩ := wrote
  rw [pure_eq_ok_iff] at assigned
  subst assigned
  refine ⟨?_, held, isStored, ?_⟩
  · intro other isOther
    rw [lookup_assign out (.inl writable), if_neg isOther]
  · rw [lookup_assign out (.inl writable), if_pos rfl]

-- A null value deletes the parameter.
example : applyOperator type name "value" .null out = .ok (remove out name) := by
  simp [applyOperator]
  rfl

theorem applied_value (writable : name ≠ "__proto__")
    (applied : applyOperator type name "value" v out = .ok out') :
    (v = .null ∧ out'.lookup name = none) ∨ (v ≠ .null ∧ Writes name v (out'.lookup name)) := by
  simp only [applyOperator, if_true] at applied
  cases v with
  | null =>
    rw [pure_eq_ok_iff] at applied
    subst applied
    exact .inl ⟨rfl, by simp [lookup_remove]⟩
  | _ => exact .inr ⟨by simp, (write_ok writable applied).2⟩

theorem applied_add (writable : name ≠ "__proto__")
    (applied : applyOperator type name "add" v out = .ok out') :
    (out.lookup name = none ∧ Writes name v (out'.lookup name)) ∨
      ∃ value,
        out.lookup name = some value ∧
          isArray (seen name value) = true ∧
            Writes name
              (arrayFrom
                (union (elements (seen name value)) (elements v)))
              (out'.lookup name) := by
  simp only [applyOperator, String.reduceEq, if_false, if_true] at applied
  cases found : out.lookup name with
  | none =>
    rw [found] at applied
    exact .inl ⟨rfl, (write_ok writable applied).2⟩
  | some value =>
    rw [found] at applied
    refine .inr ⟨value, rfl, ?_⟩
    cases isSeen : seen name value with
    | array identity held =>
      simp only [isSeen] at applied
      exact ⟨rfl, (write_ok writable applied).2⟩
    | _ =>
      simp only [isSeen] at applied
      exact absurd applied (throw_ne_ok _ _)

theorem applied_default (writable : name ≠ "__proto__")
    (applied : applyOperator type name "default" v out = .ok out') :
    (out.lookup name = none ∧ Writes name v (out'.lookup name)) ∨
      ((out.lookup name).isSome = true ∧ out' = out) := by
  simp only [applyOperator, String.reduceEq, if_false, if_true] at applied
  split at applied
  · rename_i isPresent
    rw [pure_eq_ok_iff] at applied
    exact .inr ⟨isPresent, applied.symm⟩
  · rename_i notPresent
    rw [present] at notPresent
    exact .inl ⟨Option.not_isSome_iff_eq_none.mp notPresent, (write_ok writable applied).2⟩

theorem applied_oneOf (applied : applyOperator type name "one_of" v out = .ok out') :
    out' = out ∧
      ∀ held, out.lookup name = some held →
        ∃ one ∈ elements v, same one (seen name held) = true := by
  simp only [applyOperator, String.reduceEq, if_false, if_true] at applied
  cases found : out.lookup name with
  | none =>
    rw [found] at applied
    rw [pure_eq_ok_iff] at applied
    exact ⟨applied.symm, by simp⟩
  | some held =>
    rw [found] at applied
    simp only at applied
    split at applied
    · exact absurd applied (throw_ne_ok _ _)
    · rename_i accepted
      rw [pure_eq_ok_iff] at applied
      refine ⟨applied.symm, ?_⟩
      rintro _ ⟨rfl⟩
      rw [not_or, not_not, any_eq_true] at accepted
      exact accepted.2

theorem applied_subsetOf (writable : name ≠ "__proto__")
    (applied : applyOperator type name "subset_of" v out = .ok out') :
    (out.lookup name = none ∧ out' = out) ∨
      ∃ value,
        out.lookup name = some value ∧
          isArray (seen name value) = true ∧
            Writes name
              (arrayFrom
                (intersection (elements (seen name value)) (elements v)))
              (out'.lookup name) := by
  simp only [applyOperator, String.reduceEq, if_false, if_true] at applied
  cases found : out.lookup name with
  | none =>
    rw [found] at applied
    rw [pure_eq_ok_iff] at applied
    exact .inl ⟨rfl, applied.symm⟩
  | some value =>
    rw [found] at applied
    refine .inr ⟨value, rfl, ?_⟩
    cases isSeen : seen name value with
    | array identity held =>
      simp only [isSeen] at applied
      exact ⟨rfl, (write_ok writable applied).2⟩
    | _ =>
      simp only [isSeen] at applied
      exact absurd applied (throw_ne_ok _ _)

theorem applied_supersetOf (applied : applyOperator type name "superset_of" v out = .ok out') :
    out' = out ∧
      ∀ held, out.lookup name = some held →
        isArray (seen name held) = true ∧ keysOf v ⊆ keysOf (seen name held) := by
  simp only [applyOperator, String.reduceEq, if_false, if_true] at applied
  cases found : out.lookup name with
  | none =>
    rw [found] at applied
    rw [pure_eq_ok_iff] at applied
    exact ⟨applied.symm, by simp⟩
  | some held =>
    rw [found] at applied
    simp only at applied
    split at applied
    · exact absurd applied (throw_ne_ok _ _)
    · rename_i accepted
      rw [pure_eq_ok_iff] at applied
      refine ⟨applied.symm, ?_⟩
      rintro _ ⟨rfl⟩
      rw [not_or, not_not, Bool.not_eq_false] at accepted
      exact ⟨accepted.1, (KeyedList.subsetOf_iff canonical _ _).mp accepted.2⟩

theorem applied_essential (applied : applyOperator type name "essential" v out = .ok out') :
    out' = out ∧ (strictEqual v (.boolean true) = true → (out.lookup name).isSome = true) := by
  simp only [applyOperator, String.reduceEq, if_false, if_true] at applied
  split at applied
  · exact absurd applied (throw_ne_ok _ _)
  · rename_i accepted
    rw [pure_eq_ok_iff] at applied
    refine ⟨applied.symm, fun isTrue => ?_⟩
    by_contra notPresent
    exact accepted ⟨isTrue, notPresent⟩

/-- An operator leaves, deletes or writes its parameter, or fails. -/
theorem applyOperator_cases (type name op : String) (v : Json) (out : Members) :
    applyOperator type name op v out = pure out ∨
      applyOperator type name op v out = pure (remove out name) ∨
        (∃ value, applyOperator type name op v out = write out name value) ∨
          ∃ failure, applyOperator type name op v out = throw failure := by
  unfold applyOperator
  simp only [refuse]
  repeat' split
  all_goals
    first
    | exact .inl rfl
    | exact .inr (.inl rfl)
    | exact .inr (.inr (.inl ⟨_, rfl⟩))
    | exact .inr (.inr (.inr ⟨_, rfl⟩))

/-- No operator changes another parameter. -/
theorem applyOperator_others {op : String} (writable : name ≠ "__proto__")
    (applied : applyOperator type name op v out = .ok out') {other : String}
    (isOther : other ≠ name) :
    out'.lookup other = out.lookup other := by
  rcases applyOperator_cases type name op v out with
    left | deleted | ⟨value, wrote⟩ | ⟨failure, thrown⟩
  · rw [left, pure_eq_ok_iff] at applied
    rw [applied]
  · rw [deleted, pure_eq_ok_iff] at applied
    rw [← applied, lookup_remove, if_neg isOther]
  · rw [wrote] at applied
    exact (write_ok writable applied).1 other isOther
  · rw [thrown] at applied
    exact absurd applied (throw_ne_ok _ _)

end

/-! ## Operators that may be combined -/

/-- What `combinationProblem` rules out. -/
structure Combined (ops : Members) : Prop where
  oneOf_alone : has ops "one_of" = true → has ops "add" = false ∧ has ops "subset_of" = false
  null_alone :
    ops.lookup "value" = some .null →
      has ops "add" = false ∧ has ops "default" = false ∧ isEssential ops = false
  value_add :
    ∀ v a, ops.lookup "value" = some v → v ≠ .null →
      ops.lookup "add" = some a → isArray v = true ∧ keysOf a ⊆ keysOf v
  value_subsetOf :
    ∀ v s, ops.lookup "value" = some v → v ≠ .null →
      ops.lookup "subset_of" = some s → isArray v = true ∧ keysOf v ⊆ keysOf s
  add_subsetOf :
    ∀ a s, ops.lookup "add" = some a → ops.lookup "subset_of" = some s → keysOf a ⊆ keysOf s

theorem listed_eq {ops : Members} {name : String} {v : Json} (found : ops.lookup name = some v) :
    listed ops name = elements v := by
  simp [listed, found]

theorem has_eq {ops : Members} {name : String} {v : Json} (found : ops.lookup name = some v) :
    has ops name = true := by
  simp [has, found]

theorem subsetOf_iff (small big : List Json) :
    subsetOf small big = true ↔ small.map canonical ⊆ big.map canonical :=
  KeyedList.subsetOf_iff canonical small big

/-- A value that is not null beside arrays that it may stand beside. -/
theorem valueProblem_eq_empty {ops : Members} {v : Json} (notNull : v ≠ .null)
    (fine : valueProblem ops v = "") :
    (has ops "add" = true →
      isArray v = true ∧ subsetOf (listed ops "add") (elements v) = true) ∧
      (has ops "subset_of" = true →
        isArray v = true ∧ subsetOf (elements v) (listed ops "subset_of") = true) := by
  have unfolded :
      valueProblem ops v =
        if has ops "add" ∧
            ¬ (isArray v ∧ subsetOf (listed ops "add") (elements v)) then
          "the values of add must be a subset of value"
        else if has ops "one_of" ∧
            ¬ (listed ops "one_of").any (fun one => same one v) then
          "value must be among the one_of values"
        else if has ops "subset_of" ∧
            ¬ (isArray v ∧
              subsetOf (elements v) (listed ops "subset_of")) then
          "the values of value must be a subset of subset_of"
        else if has ops "superset_of" ∧
            ¬ (isArray v ∧
              subsetOf (listed ops "superset_of") (elements v)) then
          "the values of value must be a superset of superset_of"
        else
          "" := by
    cases v with
    | null => exact absurd rfl notNull
    | _ => rfl
  rw [unfolded] at fine
  split at fine
  · exact absurd fine (by decide)
  rename_i addFine
  split at fine
  · exact absurd fine (by decide)
  split at fine
  · exact absurd fine (by decide)
  rename_i subsetFine
  constructor
  · intro hasAdd
    by_contra notHeld
    exact addFine ⟨hasAdd, notHeld⟩
  · intro hasSubset
    by_contra notHeld
    exact subsetFine ⟨hasSubset, notHeld⟩

/-- The null value stands beside no operator that brings one back. -/
theorem valueProblem_null {ops : Members} (fine : valueProblem ops .null = "") :
    has ops "add" = false ∧ has ops "default" = false ∧ isEssential ops = false := by
  simp only [valueProblem] at fine
  split at fine
  · exact absurd fine (by decide)
  rename_i noAdd
  split at fine
  · exact absurd fine (by decide)
  rename_i noDefault
  split at fine
  · exact absurd fine (by decide)
  rename_i notEssential
  exact ⟨by simpa using noAdd, by simpa using noDefault,
    by simpa using notEssential⟩

/-- Operators without a combination problem. -/
theorem combined_of_fine {ops : Members} (fine : combinationProblem ops = "") : Combined ops := by
  unfold combinationProblem at fine
  split at fine
  · rename_i pair isForbidden
    have text := congrArg String.toList fine
    simp at text
  rename_i noneForbidden
  rw [List.find?_eq_none] at noneForbidden
  split at fine
  · contradiction
  rename_i noValueProblem
  rw [not_not] at noValueProblem
  split at fine
  · exact absurd fine (by decide)
  rename_i addFine
  have valueFine (v : Json) (found : ops.lookup "value" = some v) : valueProblem ops v = "" := by
    simpa [besideValue, found] using noValueProblem
  refine ⟨?_, ?_, ?_, ?_, ?_⟩
  · intro hasOneOf
    have noAdd := noneForbidden ("one_of", "add") (by decide)
    have noSubset := noneForbidden ("one_of", "subset_of") (by decide)
    simp only [hasOneOf, Bool.true_and, Bool.not_eq_true] at noAdd noSubset
    exact ⟨noAdd, noSubset⟩
  · intro isNull
    exact valueProblem_null (valueFine .null isNull)
  · intro v a isValue notNull isAdd
    have beside := (valueProblem_eq_empty notNull (valueFine v isValue)).1 (has_eq isAdd)
    rw [listed_eq isAdd, subsetOf_iff] at beside
    exact beside
  · intro v s isValue notNull isSubset
    have beside := (valueProblem_eq_empty notNull (valueFine v isValue)).2 (has_eq isSubset)
    rw [listed_eq isSubset, subsetOf_iff] at beside
    exact beside
  · intro a s isAdd isSubset
    by_contra notWithin
    apply addFine
    refine ⟨has_eq isAdd, has_eq isSubset, ?_⟩
    rw [listed_eq isAdd, listed_eq isSubset, subsetOf_iff]
    exact notWithin

/-! ## One parameter -/

/-- The values of `scope` that operators write are one word each. -/
structure Worded (name : String) (ops : Members)
    (before : Option Json) : Prop where
  value : name = "scope" → ∀ v, ops.lookup "value" = some v → ∀ one ∈ elements v, OneWordText one
  add : name = "scope" → ∀ v, ops.lookup "add" = some v → ∀ one ∈ elements v, OneWordText one
  subsetOf :
    name = "scope" →
      ∀ v held, ops.lookup "subset_of" = some v → before = some held →
        ∀ one ∈ elements held, canonical one ∈ keysOf v → OneWordText one

/-- A parameter that is seen as words, if it is `scope`. -/
def SeenAsWords (name : String) (parameter : Option Json) : Prop :=
  name = "scope" →
    ∀ held, parameter = some held → ∀ one ∈ elements (seen name held), OneWordText one

theorem SeenAsWords.of_writes {name : String} {v : Json} (writes : Writes name v after) :
    SeenAsWords name after := by
  intro isScope held isHeld one isOne
  obtain ⟨held', isStored, rfl⟩ := writes
  cases isHeld
  subst isScope
  exact oneWord_of_stored isStored isOne

theorem stored_of_not_array {name : String} {v held : Json} (notArray : isArray v = false)
    (isStored : stored name v = .ok held) :
    held = v := by
  cases v with
  | array identity values => cases notArray
  | _ =>
    cases isStored
    rfl

theorem exists_array {v : Json} (array : isArray v = true) :
    ∃ identity, v = .array identity (elements v) := by
  cases v with
  | array identity values => exact ⟨identity, rfl⟩
  | _ => cases array

/-- An operator that is asked for runs, and another changes nothing. -/
theorem asked_cases {type name op : String} {ops out out' : Members}
    (applied : applyAsked type name ops out op = .ok out') :
    (ops.lookup op = none ∧ out' = out) ∨
      ∃ v, ops.lookup op = some v ∧ applyOperator type name op v out = .ok out' := by
  unfold applyAsked at applied
  cases found : ops.lookup op with
  | none =>
    rw [found] at applied
    exact .inl ⟨rfl, ((pure_eq_ok_iff _ _).mp applied).symm⟩
  | some v =>
    rw [found] at applied
    exact .inr ⟨v, rfl, applied⟩

/-- What the operators before `subset_of` leave, `one_of` checked it. -/
theorem words_before_subset {type name : String} {ops out out₁ out₂ out₃ : Members}
    (writable : name ≠ "__proto__") (value : applyAsked type name ops out "value" = .ok out₁)
    (add : applyAsked type name ops out₁ "add" = .ok out₂)
    (default_ : applyAsked type name ops out₂ "default" = .ok out₃) :
    out₃.lookup name = out.lookup name ∨ SeenAsWords name (out₃.lookup name) := by
  have absent {p : Option Json} (isAbsent : p = none) : SeenAsWords name p := by
    intro _ held isHeld
    rw [isAbsent] at isHeld
    cases isHeld
  have first : out₁.lookup name = out.lookup name ∨ SeenAsWords name (out₁.lookup name) := by
    rcases asked_cases value with ⟨_, rfl⟩ | ⟨v, _, applied⟩
    · exact .inl rfl
    · rcases applied_value writable applied with ⟨_, none⟩ | ⟨_, writes⟩
      · exact .inr (absent none)
      · exact .inr (SeenAsWords.of_writes writes)
  have second : out₂.lookup name = out.lookup name ∨ SeenAsWords name (out₂.lookup name) := by
    rcases asked_cases add with ⟨_, rfl⟩ | ⟨v, _, applied⟩
    · exact first
    · rcases applied_add writable applied with
        ⟨_, writes⟩ | ⟨_, _, _, writes⟩
      · exact .inr (SeenAsWords.of_writes writes)
      · exact .inr (SeenAsWords.of_writes writes)
  rcases asked_cases default_ with ⟨_, rfl⟩ | ⟨v, _, applied⟩
  · exact second
  · rcases applied_default writable applied with ⟨_, writes⟩ | ⟨_, rfl⟩
    · exact .inr (SeenAsWords.of_writes writes)
    · exact second

/-- A parameter with an array's values, up to order and repetition. -/
def HasValues (name : String) (v : Json) (parameter : Option Json) : Prop :=
  ∃ held,
    parameter = some held ∧
      isArray (seen name held) = true ∧
        keysOf (seen name held) ⊆ keysOf v ∧ keysOf v ⊆ keysOf (seen name held)

/-- An array that is written is there with its values. -/
theorem hasValues_of_writes {name : String} {v : Json} (array : isArray v = true)
    (areWords : name = "scope" → ∀ one ∈ elements v, OneWordText one)
    (writes : Writes name v after) :
    HasValues name v after := by
  obtain ⟨held, isStored, rfl⟩ := writes
  obtain ⟨identity, isArray_⟩ := exists_array array
  rw [isArray_] at isStored
  have same := elements_seen_of_stored isStored areWords
  refine ⟨held, rfl, (mem_seen_of_stored isStored).1, ?_, ?_⟩
  · rw [keysOf, same]
    exact fun _ => id
  · rw [keysOf, keysOf, same]
    exact fun _ => id

theorem HasValues.of_same_keys {name : String} {v v' : Json} {parameter : Option Json}
    (hasValues : HasValues name v parameter) (forth : keysOf v ⊆ keysOf v')
    (back : keysOf v' ⊆ keysOf v) :
    HasValues name v' parameter := by
  obtain ⟨held, isHeld, array, within, holds⟩ := hasValues
  exact ⟨held, isHeld, array, List.Subset.trans within forth, List.Subset.trans back holds⟩

theorem mem_keys_union :
    key ∈ keysOf (arrayFrom (union first second)) ↔
      key ∈ first.map canonical ∨ key ∈ second.map canonical :=
  KeyedList.mem_keys_union_iff canonical first second key

theorem mem_keys_intersection :
    key ∈ keysOf (arrayFrom (intersection first second)) ↔
      key ∈ first.map canonical ∧ key ∈ second.map canonical :=
  KeyedList.mem_keys_intersection_iff canonical first second key

section

variable {type name : String} {ops out out' : Members}

/-- What `add` leaves of a parameter that is there. -/
theorem hasValues_of_add (writable : name ≠ "__proto__") {v held : Json}
    (addWords : name = "scope" → ∀ one ∈ elements v, OneWordText one)
    (heldWords : SeenAsWords name (out.lookup name)) (isHeld : out.lookup name = some held)
    (applied : applyOperator type name "add" v out = .ok out') :
    HasValues name
      (arrayFrom (union (elements (seen name held)) (elements v)))
      (out'.lookup name) := by
  rcases applied_add writable applied with
    ⟨absent, _⟩ | ⟨held', isHeld', _, writes⟩
  · rw [isHeld] at absent
    cases absent
  · rw [isHeld] at isHeld'
    cases isHeld'
    refine hasValues_of_writes rfl ?_ writes
    intro isScope one isOne
    rcases KeyedList.mem_of_mem_union canonical isOne with wasHeld | isAdded
    · exact heldWords isScope held isHeld one wasHeld
    · exact addWords isScope one isAdded

/-- What `subset_of` leaves of a parameter that is there. -/
theorem hasValues_of_subsetOf (writable : name ≠ "__proto__") {v held : Json}
    (words :
      name = "scope" →
        ∀ one ∈ elements (seen name held), canonical one ∈ keysOf v → OneWordText one)
    (isHeld : out.lookup name = some held)
    (applied : applyOperator type name "subset_of" v out = .ok out') :
    HasValues name
      (arrayFrom (intersection (elements (seen name held)) (elements v)))
      (out'.lookup name) := by
  rcases applied_subsetOf writable applied with
    ⟨absent, _⟩ | ⟨held', isHeld', _, writes⟩
  · rw [isHeld] at absent
    cases absent
  · rw [isHeld] at isHeld'
    cases isHeld'
    refine hasValues_of_writes rfl ?_ writes
    intro isScope one isOne
    obtain ⟨wasHeld, isNamed⟩ := KeyedList.mem_of_mem_intersection canonical isOne
    exact words isScope one wasHeld isNamed

/-- Every value `subset_of` keeps of the metadata's own `scope` is a word. -/
theorem Worded.words_of_subsetOf (worded : Worded name ops (out.lookup name))
    {parameter : Option Json} (origin : parameter = out.lookup name ∨ SeenAsWords name parameter)
    {v held : Json} (isSubset : ops.lookup "subset_of" = some v) (isHeld : parameter = some held) :
    name = "scope" →
      ∀ one ∈ elements (seen name held), canonical one ∈ keysOf v → OneWordText one := by
  intro isScope one isOne isNamed
  rcases origin with same | words
  · rw [same] at isHeld
    cases held with
    | string text =>
      have isStored : stored "scope" (.string text) = .ok (.string text) := rfl
      subst isScope
      exact oneWord_of_stored isStored isOne
    | array identity values => exact worded.subsetOf isScope v _ isSubset isHeld one isOne isNamed
    | _ => cases isOne
  · exact words isScope held isHeld one isOne

end

/-- The seven operators of a parameter, each where it is asked for. -/
structure Stages (type name : String)
    (ops out out₁ out₂ out₃ out₄ out' : Members) : Prop where
  value : applyAsked type name ops out "value" = .ok out₁
  add : applyAsked type name ops out₁ "add" = .ok out₂
  absentDefault : applyAsked type name ops out₂ "default" = .ok out₃
  oneOf : applyAsked type name ops out₃ "one_of" = .ok out₃
  subsetOf : applyAsked type name ops out₃ "subset_of" = .ok out₄
  supersetOf : applyAsked type name ops out₄ "superset_of" = .ok out₄
  essential : applyAsked type name ops out₄ "essential" = .ok out₄
  final : out' = out₄

/-- A parameter that is applied passes its stages. -/
theorem applyParameter_stages {type name : String} {ops out out' : Members}
    (applied : applyParameter type out (name, ops) = .ok out') :
    ∃ out₁ out₂ out₃ out₄, Stages type name ops out out₁ out₂ out₃ out₄ out' := by
  simp only [applyParameter, operators, foldlM_cons, foldlM_nil,
    bind_eq_ok_iff] at applied
  obtain ⟨out₇, ⟨out₁, value, out₂, add, out₃, default_, out₄, oneOf, out₅,
    subsetOf, out₆, supersetOf, out₈, essential, same⟩, answered⟩ := applied
  rw [pure_eq_ok_iff] at same
  subst same
  have isFinal : out' = out₈ := by
    split at answered
    · exact absurd answered (throw_ne_ok _ _)
    · exact ((pure_eq_ok_iff _ _).mp answered).symm
  have sameOneOf : out₄ = out₃ := by
    rcases asked_cases oneOf with ⟨_, same⟩ | ⟨v, _, applied⟩
    · exact same
    · exact (applied_oneOf applied).1
  have sameSuperset : out₆ = out₅ := by
    rcases asked_cases supersetOf with ⟨_, same⟩ | ⟨v, _, applied⟩
    · exact same
    · exact (applied_supersetOf applied).1
  have sameEssential : out₈ = out₆ := by
    rcases asked_cases essential with ⟨_, same⟩ | ⟨v, _, applied⟩
    · exact same
    · exact (applied_essential applied).1
  subst sameOneOf sameSuperset sameEssential
  exact ⟨out₁, out₂, out₄, out₈,
    value, add, default_, oneOf, subsetOf, supersetOf, essential, isFinal⟩

namespace Stages

variable {type name : String}
  {ops out out₁ out₂ out₃ out₄ out' : Members}

/-- The parameter that `subset_of` finds is the metadata's or of words. -/
theorem origin (stages : Stages type name ops out out₁ out₂ out₃ out₄ out')
    (writable : name ≠ "__proto__") :
    out₃.lookup name = out.lookup name ∨ SeenAsWords name (out₃.lookup name) :=
  words_before_subset writable stages.value stages.add stages.absentDefault

variable {held : Json}

/-- A parameter that is there passes `default` as it is. -/
theorem default_of_present (stages : Stages type name ops out out₁ out₂ out₃ out₄ out')
    (writable : name ≠ "__proto__") (isHeld : out₂.lookup name = some held) :
    out₃ = out₂ := by
  rcases asked_cases stages.absentDefault with ⟨_, same⟩ | ⟨v, _, applied⟩
  · exact same
  · rcases applied_default writable applied with ⟨absent, _⟩ | ⟨_, same⟩
    · rw [isHeld] at absent
      cases absent
    · exact same

/-- What `subset_of` keeps of values that it names all. -/
theorem subsetOf_keeps (stages : Stages type name ops out out₁ out₂ out₃ out₄ out')
    (writable : name ≠ "__proto__") (worded : Worded name ops (out.lookup name))
    (isHeld : out₃.lookup name = some held) (array : isArray (seen name held) = true) :
    ∃ held',
      out₄.lookup name = some held' ∧
        isArray (seen name held') = true ∧
          keysOf (seen name held') ⊆ keysOf (seen name held) ∧
            ∀ key ∈ keysOf (seen name held),
              (∀ v, ops.lookup "subset_of" = some v → key ∈ keysOf v) →
              key ∈ keysOf (seen name held') := by
  rcases asked_cases stages.subsetOf with
    ⟨_, same⟩ | ⟨v, isSubset, applied⟩
  · rw [same]
    exact ⟨held, isHeld, array, fun _ => id, fun _ isKey _ => isKey⟩
  · obtain ⟨held', isHeld', array', within, holds⟩ :=
      hasValues_of_subsetOf writable
        (worded.words_of_subsetOf (stages.origin writable) isSubset isHeld)
        isHeld applied
    refine ⟨held', isHeld', array', ?_, ?_⟩
    · intro key isKey
      exact ((mem_keys_intersection _ _ key).mp (within isKey)).1
    · intro key isKey isNamed
      exact holds ((mem_keys_intersection _ _ key).mpr ⟨isKey, isNamed v isSubset⟩)

end Stages

/-- An array given as `value` is what the parameter holds at the end. -/
theorem Stages.value_array {type name : String} {ops out out₁ out₂ out₃ out₄ out' : Members}
    (stages : Stages type name ops out out₁ out₂ out₃ out₄ out') (writable : name ≠ "__proto__")
    (combined : Combined ops) (worded : Worded name ops (out.lookup name)) {v : Json}
    (isValue : ops.lookup "value" = some v) (array : isArray v = true) :
    HasValues name v (out₄.lookup name) := by
  have notNull : v ≠ .null := by
    rintro rfl
    cases array
  have first : HasValues name v (out₁.lookup name) ∧ SeenAsWords name (out₁.lookup name) := by
    rcases asked_cases stages.value with ⟨absent, _⟩ | ⟨v', isValue', applied⟩
    · rw [isValue] at absent
      cases absent
    · rw [isValue] at isValue'
      cases isValue'
      rcases applied_value writable applied with ⟨isNull, _⟩ | ⟨_, writes⟩
      · exact absurd isNull notNull
      · exact
          ⟨hasValues_of_writes array
              (fun isScope => worded.value isScope v isValue) writes,
            SeenAsWords.of_writes writes⟩
  have second : HasValues name v (out₂.lookup name) := by
    rcases asked_cases stages.add with ⟨_, same⟩ | ⟨a, isAdd, applied⟩
    · rw [same]
      exact first.1
    · obtain ⟨⟨held, isHeld, _, within, holds⟩, words⟩ := first
      refine (hasValues_of_add writable
        (fun isScope => worded.add isScope a isAdd) words isHeld applied).of_same_keys ?_ ?_
      · intro key isKey
        rcases (mem_keys_union _ _ key).mp isKey with wasHeld | isAdded
        · exact within wasHeld
        · exact (combined.value_add v a isValue notNull isAdd).2 isAdded
      · intro key isKey
        exact (mem_keys_union _ _ key).mpr (.inl (holds isKey))
  obtain ⟨held, isHeld, arrayHeld, within, holds⟩ := second
  have same := stages.default_of_present writable isHeld
  rw [← same] at isHeld
  obtain ⟨held', isHeld', array', fewer, kept⟩ :=
    stages.subsetOf_keeps writable worded isHeld arrayHeld
  refine ⟨held', isHeld', array', List.Subset.trans fewer within, ?_⟩
  intro key isKey
  apply kept key (holds isKey)
  intro s isSubset
  exact (combined.value_subsetOf v s isValue notNull isSubset).2 isKey

/-- A value that is no array is what the parameter holds at the end. -/
theorem Stages.value_other {type name : String} {ops out out₁ out₂ out₃ out₄ out' : Members}
    (stages : Stages type name ops out out₁ out₂ out₃ out₄ out') (writable : name ≠ "__proto__")
    (combined : Combined ops) {v : Json} (isValue : ops.lookup "value" = some v)
    (notNull : v ≠ .null) (notArray : isArray v = false) :
    out₄.lookup name = some v := by
  have first : out₁.lookup name = some v := by
    rcases asked_cases stages.value with ⟨absent, _⟩ | ⟨v', isValue', applied⟩
    · rw [isValue] at absent
      cases absent
    · rw [isValue] at isValue'
      cases isValue'
      rcases applied_value writable applied with ⟨isNull, _⟩ | ⟨_, writes⟩
      · exact absurd isNull notNull
      · obtain ⟨held, isStored, isHeld⟩ := writes
        rw [isHeld, stored_of_not_array notArray isStored]
  have second : out₂ = out₁ := by
    rcases asked_cases stages.add with ⟨_, same⟩ | ⟨a, isAdd, _⟩
    · exact same
    · have array := (combined.value_add v a isValue notNull isAdd).1
      rw [notArray] at array
      cases array
  rw [← second] at first
  have third := stages.default_of_present writable first
  have fourth : out₄ = out₃ := by
    rcases asked_cases stages.subsetOf with ⟨_, same⟩ | ⟨s, isSubset, _⟩
    · exact same
    · have array := (combined.value_subsetOf v s isValue notNull isSubset).1
      rw [notArray] at array
      cases array
  rw [fourth, third, first]

/-- A parameter whose `value` is null is absent at the end. -/
theorem Stages.value_null {type name : String} {ops out out₁ out₂ out₃ out₄ out' : Members}
    (stages : Stages type name ops out out₁ out₂ out₃ out₄ out') (writable : name ≠ "__proto__")
    (combined : Combined ops) (isValue : ops.lookup "value" = some .null) :
    out₄.lookup name = none := by
  obtain ⟨noAdd, noDefault, _⟩ := combined.null_alone isValue
  have first : out₁.lookup name = none := by
    rcases asked_cases stages.value with ⟨absent, _⟩ | ⟨v', isValue', applied⟩
    · rw [isValue] at absent
      cases absent
    · rw [isValue] at isValue'
      cases isValue'
      rcases applied_value writable applied with ⟨_, isNone⟩ | ⟨notNull, _⟩
      · exact isNone
      · exact absurd rfl notNull
  have second : out₂ = out₁ := by
    rcases asked_cases stages.add with ⟨_, same⟩ | ⟨a, isAdd, _⟩
    · exact same
    · rw [has_eq isAdd] at noAdd
      cases noAdd
  have third : out₃ = out₂ := by
    rcases asked_cases stages.absentDefault with ⟨_, same⟩ | ⟨d, isDefault, _⟩
    · exact same
    · rw [has_eq isDefault] at noDefault
      cases noDefault
  rcases asked_cases stages.subsetOf with ⟨_, same⟩ | ⟨s, _, applied⟩
  · rw [same, third, second, first]
  · rcases applied_subsetOf writable applied with
      ⟨_, same⟩ | ⟨held, isHeld, _⟩
    · rw [same, third, second, first]
    · rw [third, second, first] at isHeld
      cases isHeld

/-- The values of `add` are among those the parameter holds at the end. -/
theorem Stages.added {type name : String} {ops out out₁ out₂ out₃ out₄ out' : Members}
    (stages : Stages type name ops out out₁ out₂ out₃ out₄ out') (writable : name ≠ "__proto__")
    (combined : Combined ops) (worded : Worded name ops (out.lookup name)) {a : Json}
    (isAdd : ops.lookup "add" = some a) (array : isArray a = true) :
    ∃ held,
      out₄.lookup name = some held ∧
        isArray (seen name held) = true ∧ keysOf a ⊆ keysOf (seen name held) := by
  have addWords (isScope : name = "scope") := worded.add isScope a isAdd
  have second :
      ∃ held,
        out₂.lookup name = some held ∧
          isArray (seen name held) = true ∧ keysOf a ⊆ keysOf (seen name held) := by
    rcases asked_cases stages.add with ⟨absent, _⟩ | ⟨a', isAdd', applied⟩
    · rw [isAdd] at absent
      cases absent
    rw [isAdd] at isAdd'
    cases isAdd'
    rcases applied_add writable applied with
      ⟨_, writes⟩ | ⟨value, _, _, held, isStored, isHeld⟩
    · obtain ⟨held, isHeld, arrayHeld, _, holds⟩ := hasValues_of_writes array addWords writes
      exact ⟨held, isHeld, arrayHeld, holds⟩
    · obtain ⟨arrayHeld, stays⟩ := mem_seen_of_stored isStored
      refine ⟨held, isHeld, arrayHeld, ?_⟩
      intro key isKey
      obtain ⟨one, isOne, rfl⟩ := mem_map.mp isKey
      have isUnion :=
        (mem_keys_union (elements (seen name value)) (elements a) (canonical one)).mpr (.inr isKey)
      obtain ⟨one', isOne', sameKey⟩ := mem_map.mp isUnion
      rw [← sameKey]
      apply mem_map_of_mem
      apply stays one' isOne'
      -- A value with the key of a text is that text.
      intro isScope
      obtain ⟨text, rfl, oneWord⟩ := addWords isScope one isOne
      refine ⟨text, ?_, oneWord⟩
      exact eq_string_of_content ((canonical_eq_iff _ _).mp sameKey)
  obtain ⟨held, isHeld, arrayHeld, added⟩ := second
  have same := stages.default_of_present writable isHeld
  rw [← same] at isHeld
  obtain ⟨held', isHeld', array', _, kept⟩ := stages.subsetOf_keeps writable worded isHeld arrayHeld
  refine ⟨held', isHeld', array', ?_⟩
  intro key isKey
  apply kept key (added isKey)
  intro s isSubset
  exact combined.add_subsetOf a s isAdd isSubset isKey

/-- A parameter that is applied satisfies its own operators. -/
theorem applyParameter_satisfies {type name : String} {ops out out' : Members}
    (writable : name ≠ "__proto__") (combined : Combined ops)
    (arrays : ∀ a, ops.lookup "add" = some a → isArray a = true)
    (worded : Worded name ops (out.lookup name))
    (applied : applyParameter type out (name, ops) = .ok out') :
    Satisfies name ops (out'.lookup name) := by
  obtain ⟨out₁, out₂, out₃, out₄, stages⟩ := applyParameter_stages applied
  rw [stages.final]
  refine ⟨?_, ?_, ?_, ?_, ?_, ?_, ?_⟩
  · intro v isValue notNull
    cases array : isArray v with
    | true =>
      obtain ⟨held, isHeld, arrayHeld, within, holds⟩ :=
        stages.value_array writable combined worded isValue array
      refine ⟨held, isHeld, .inr ⟨arrayHeld, ?_⟩⟩
      rw [seen_of_array array]
      exact ⟨array, (keysOf_subset_iff _ _).mp within, (keysOf_subset_iff _ _).mp holds⟩
    | false => exact ⟨v, stages.value_other writable combined isValue notNull array, .inl rfl⟩
  · intro isNull
    exact stages.value_null writable combined isNull
  · intro a isAdd
    obtain ⟨held, isHeld, arrayHeld, holds⟩ :=
      stages.added writable combined worded isAdd (arrays a isAdd)
    exact ⟨held, isHeld, arrayHeld, (keysOf_subset_iff _ _).mp holds⟩
  · intro v held isOneOf isHeld
    have noSubset := (combined.oneOf_alone (has_eq isOneOf)).2
    have unchanged : out₄ = out₃ := by
      rcases asked_cases stages.subsetOf with ⟨_, same⟩ | ⟨s, isSubset, _⟩
      · exact same
      · rw [has_eq isSubset] at noSubset
        cases noSubset
    rw [unchanged] at isHeld
    rcases asked_cases stages.oneOf with ⟨absent, _⟩ | ⟨v', isOneOf', applied⟩
    · rw [isOneOf] at absent
      cases absent
    · rw [isOneOf] at isOneOf'
      cases isOneOf'
      obtain ⟨one, isOne, equal⟩ := (applied_oneOf applied).2 held isHeld
      rw [same_iff] at equal
      rw [← equal]
      exact mem_map_of_mem isOne
  · intro v held isSubset isHeld
    rcases asked_cases stages.subsetOf with
      ⟨absent, _⟩ | ⟨v', isSubset', applied⟩
    · rw [isSubset] at absent
      cases absent
    rw [isSubset] at isSubset'
    cases isSubset'
    cases isThird : out₃.lookup name with
    | none =>
      rcases applied_subsetOf writable applied with
        ⟨_, same⟩ | ⟨held', isHeld', _⟩
      · rw [same, isThird] at isHeld
        cases isHeld
      · rw [isThird] at isHeld'
        cases isHeld'
    | some third =>
      obtain ⟨held', isHeld', arrayHeld, within, _⟩ :=
        hasValues_of_subsetOf writable
          (worded.words_of_subsetOf (stages.origin writable) isSubset isThird)
          isThird applied
      rw [isHeld] at isHeld'
      cases isHeld'
      refine ⟨arrayHeld, (keysOf_subset_iff _ _).mp ?_⟩
      intro key isKey
      exact ((mem_keys_intersection _ _ key).mp (within isKey)).2
  · intro v held isSuperset isHeld
    rcases asked_cases stages.supersetOf with
      ⟨absent, _⟩ | ⟨v', isSuperset', applied⟩
    · rw [isSuperset] at absent
      cases absent
    · rw [isSuperset] at isSuperset'
      cases isSuperset'
      obtain ⟨arrayHeld, holds⟩ := (applied_supersetOf applied).2 held isHeld
      exact ⟨arrayHeld, (keysOf_subset_iff _ _).mp holds⟩
  · intro isEssential_
    rcases asked_cases stages.essential with ⟨absent, _⟩ | ⟨v, found, applied⟩
    · simp [isEssential, absent] at isEssential_
    · rw [isEssential, found] at isEssential_
      exact (applied_essential applied).2 isEssential_

end IyaSts.MetadataPolicy
