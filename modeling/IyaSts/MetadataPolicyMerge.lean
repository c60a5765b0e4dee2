import IyaSts.MetadataPolicyApply

namespace IyaSts.MetadataPolicy

open Json JsObject Fallible

/-!
# Merging loosens nothing

A parameter's merged operators are at least as tight as each statement's own,
so a parameter that satisfies the merged ones satisfies every statement's.
-/

open List

/-! ## One parameter's operators are tighter than others -/

/-- Some operators ask for everything that others ask for. -/
structure Tightens (held ops : Members) : Prop where
  value :
    ∀ v, ops.lookup "value" = some v → ∃ v', held.lookup "value" = some v' ∧ v'.content = v.content
  add :
    ∀ v, ops.lookup "add" = some v → ∃ v', held.lookup "add" = some v' ∧ valuesOf v ⊆ valuesOf v'
  oneOf :
    ∀ v, ops.lookup "one_of" = some v →
      ∃ v', held.lookup "one_of" = some v' ∧ valuesOf v' ⊆ valuesOf v
  subsetOf :
    ∀ v, ops.lookup "subset_of" = some v →
      ∃ v', held.lookup "subset_of" = some v' ∧ valuesOf v' ⊆ valuesOf v
  supersetOf :
    ∀ v, ops.lookup "superset_of" = some v →
      ∃ v', held.lookup "superset_of" = some v' ∧ valuesOf v ⊆ valuesOf v'
  essential : isEssential ops = true → isEssential held = true

namespace Tightens

/-- Operators that read the same are as tight. -/
theorem of_lookup_eq {held ops : Members}
    (same : ∀ op ∈ operators, held.lookup op = ops.lookup op) :
    Tightens held ops := by
  have read (op : String) (isOperator : op ∈ operators) {v : Json}
      (found : ops.lookup op = some v) :
      held.lookup op = some v := by
    rw [same op isOperator, found]
  refine ⟨?_, ?_, ?_, ?_, ?_, ?_⟩
  · intro v found
    exact ⟨v, read _ (by decide) found, rfl⟩
  · intro v found
    exact ⟨v, read _ (by decide) found, fun _ => id⟩
  · intro v found
    exact ⟨v, read _ (by decide) found, fun _ => id⟩
  · intro v found
    exact ⟨v, read _ (by decide) found, fun _ => id⟩
  · intro v found
    exact ⟨v, read _ (by decide) found, fun _ => id⟩
  · intro isTrue
    rw [isEssential, same "essential" (by decide)]
    exact isTrue


theorem trans {first second third : Members} (left : Tightens first second)
    (right : Tightens second third) :
    Tightens first third := by
  refine ⟨?_, ?_, ?_, ?_, ?_, ?_⟩
  · intro v found
    obtain ⟨v', found', same'⟩ := right.value v found
    obtain ⟨v'', found'', same''⟩ := left.value v' found'
    exact ⟨v'', found'', same''.trans same'⟩
  · intro v found
    obtain ⟨v', found', within'⟩ := right.add v found
    obtain ⟨v'', found'', within''⟩ := left.add v' found'
    exact ⟨v'', found'', List.Subset.trans within' within''⟩
  · intro v found
    obtain ⟨v', found', within'⟩ := right.oneOf v found
    obtain ⟨v'', found'', within''⟩ := left.oneOf v' found'
    exact ⟨v'', found'', List.Subset.trans within'' within'⟩
  · intro v found
    obtain ⟨v', found', within'⟩ := right.subsetOf v found
    obtain ⟨v'', found'', within''⟩ := left.subsetOf v' found'
    exact ⟨v'', found'', List.Subset.trans within'' within'⟩
  · intro v found
    obtain ⟨v', found', within'⟩ := right.supersetOf v found
    obtain ⟨v'', found'', within''⟩ := left.supersetOf v' found'
    exact ⟨v'', found'', List.Subset.trans within' within''⟩
  · intro isTrue
    exact left.essential (right.essential isTrue)

end Tightens

variable {v v' a b m : Json} {name place op : String}

/-- Values with one content are seen as values with one content. -/
theorem seen_content (name : String) (same : v'.content = v.content) :
    (seen name v').content = (seen name v).content := by
  cases v with
  | string text => rw [eq_string_of_content same]
  | _ =>
    cases v' with
    | string text' => simp [content] at same
    | _ => exact same

/-- The values of an array are told by what it says. -/
theorem valuesOf_of_content (same : v'.content = v.content) :
    isArray v' = isArray v ∧ valuesOf v' = valuesOf v := by
  cases v <;> cases v' <;> simp_all [content, isArray, valuesOf, elements, contents_eq]

theorem eq_null_of_content (same : v.content = Json.null.content) : v = .null := by
  cases v <;> simp_all [content]

/-- What satisfies the tighter operators satisfies the others. -/
theorem Satisfies.of_tightens {held ops : Members} {parameter : Option Json}
    (satisfies : Satisfies name held parameter) (tightens : Tightens held ops) :
    Satisfies name ops parameter := by
  refine ⟨?_, ?_, ?_, ?_, ?_, ?_, ?_⟩
  · intro v found notNull
    obtain ⟨v', found', same⟩ := tightens.value v found
    have notNull' : v' ≠ .null := by
      rintro rfl
      exact notNull (eq_null_of_content same.symm)
    obtain ⟨value, isValue, equal⟩ := satisfies.value v' found' notNull'
    have sameSeen := seen_content name same
    obtain ⟨sameKind, sameValues⟩ := valuesOf_of_content sameSeen
    refine ⟨value, isValue, ?_⟩
    rcases equal with equal | ⟨array, array', within, holds⟩
    · exact .inl (equal.trans sameSeen)
    · rw [sameKind] at array'
      rw [sameValues] at within holds
      exact .inr ⟨array, array', within, holds⟩
  · intro isNull
    obtain ⟨v', found', same⟩ := tightens.value .null isNull
    rw [eq_null_of_content same] at found'
    exact satisfies.absent found'
  · intro v found
    obtain ⟨v', found', within⟩ := tightens.add v found
    obtain ⟨value, isValue, array, holds⟩ := satisfies.add v' found'
    exact ⟨value, isValue, array, List.Subset.trans within holds⟩
  · intro v value found isValue
    obtain ⟨v', found', within⟩ := tightens.oneOf v found
    exact within (satisfies.oneOf v' value found' isValue)
  · intro v value found isValue
    obtain ⟨v', found', within⟩ := tightens.subsetOf v found
    obtain ⟨array, holds⟩ := satisfies.subsetOf v' value found' isValue
    exact ⟨array, List.Subset.trans holds within⟩
  · intro v value found isValue
    obtain ⟨v', found', within⟩ := tightens.supersetOf v found
    obtain ⟨array, holds⟩ := satisfies.supersetOf v' value found' isValue
    exact ⟨array, List.Subset.trans within holds⟩
  · intro isTrue
    exact satisfies.essential (tightens.essential isTrue)

/-! ## Merging one parameter -/

/-- What the merge of one operator leaves of it. -/
def MergesTo (op : String) (v : Json) (before after : Option Json) : Prop :=
  match before with
  | none => after = some v
  | some mine => ∃ merged, mergeOperator op mine v = .ok merged ∧ after = some merged

/-- What an object shows of itself. -/
def lookups {Value : Type} (members : List (String × Value)) (name : String) : Option Value :=
  members.lookup name

theorem lookups_assign {Value : Type} {members : List (String × Value)} {name : String}
    (writable : name ≠ "__proto__" ∨ (members.lookup name).isSome = true) (value : Value) :
    (∀ other, other ≠ name →
      lookups (assign members name value) other = lookups members other) ∧
      lookups (assign members name value) name = some value := by
  refine ⟨fun other isOther => ?_, ?_⟩
  · rw [lookups, lookup_assign members writable, if_neg isOther]
    rfl
  · rw [lookups, lookup_assign members writable, if_pos rfl]

/-- Merging the operators of a parameter merges each once. -/
theorem mergeOperators_lookup {held sub merged : Members} (writable : sub.lookup "__proto__" = none)
    (merges : mergeOperators place held sub = .ok merged) (op : String) :
    (∀ v, sub.lookup op = some v →
      MergesTo op v (held.lookup op) (merged.lookup op)) ∧
      (sub.lookup op = none → merged.lookup op = held.lookup op) := by
  have each := foldlM_each lookups MergesTo (nodup_entries sub) ?_ merges op
  · simpa only [lookup_entries, lookups] using each
  · intro held held' op v isOperator stepped
    have notProto : op ≠ "__proto__" := by
      rintro rfl
      rw [mem_entries_iff, writable] at isOperator
      cases isOperator
    simp only at stepped
    unfold MergesTo
    cases found : held.lookup op with
    | none =>
      rw [found] at stepped
      rw [← (pure_eq_ok_iff _ _).mp stepped]
      simpa only [lookups, found] using lookups_assign (.inl notProto) v
    | some mine =>
      rw [found] at stepped
      simp only at stepped
      cases merges : mergeOperator op mine v with
      | error why =>
        rw [merges] at stepped
        exact absurd stepped (throw_ne_ok _ _)
      | ok merged =>
        rw [merges] at stepped
        rw [← (pure_eq_ok_iff _ _).mp stepped]
        obtain ⟨others, isMerged⟩ := lookups_assign (.inl notProto) merged
        refine ⟨others, ?_⟩
        simp only [lookups, found] at isMerged ⊢
        exact ⟨merged, merges, isMerged⟩

/-- A parameter's operators that were checked, one statement's or merged. -/
structure Sound (name : String) (before : Option Json) (ops : Members) :
    Prop where
  known : ops.lookup "__proto__" = none
  combined : Combined ops
  arrays : ∀ a, ops.lookup "add" = some a → isArray a = true
  worded : Worded name ops before

theorem valuesOf_arrayFrom (values : List Json) :
    valuesOf (arrayFrom values) = values.map content :=
  rfl

theorem mem_values_union (first second : List Json) (said : Content) :
    said ∈ valuesOf (arrayFrom (union first second)) ↔
      said ∈ first.map content ∨ said ∈ second.map content := by
  constructor
  · intro isUnion
    obtain ⟨one, isOne, rfl⟩ := mem_map.mp isUnion
    rcases KeyedList.mem_of_mem_union canonical isOne with isFirst | isSecond
    · exact .inl (mem_map_of_mem isFirst)
    · exact .inr (mem_map_of_mem isSecond)
  · intro isEither
    have isKey (one : Json)
        (isOne : canonical one ∈ keysOf (arrayFrom (union first second))) :
        one.content ∈ valuesOf (arrayFrom (union first second)) :=
      (canonical_mem_iff one _).mp isOne
    rcases isEither with isFirst | isSecond
    · obtain ⟨one, isOne, rfl⟩ := mem_map.mp isFirst
      exact isKey one ((mem_keys_union _ _ _).mpr (.inl (mem_map_of_mem isOne)))
    · obtain ⟨one, isOne, rfl⟩ := mem_map.mp isSecond
      exact isKey one ((mem_keys_union _ _ _).mpr (.inr (mem_map_of_mem isOne)))

theorem mem_values_intersection {first second : List Json} {said : Content}
    (isBoth : said ∈ valuesOf (arrayFrom (intersection first second))) :
    said ∈ first.map content ∧ said ∈ second.map content := by
  obtain ⟨one, isOne, rfl⟩ := mem_map.mp isBoth
  obtain ⟨isFirst, isSecond⟩ := KeyedList.mem_of_mem_intersection canonical isOne
  exact ⟨mem_map_of_mem isFirst, (canonical_mem_iff one _).mp isSecond⟩

/-! ### What the merge of each operator is -/

theorem mergeOperator_value {a b merged : Json} (merges : mergeOperator "value" a b = .ok merged) :
    merged = a ∧ a.content = b.content := by
  simp only [mergeOperator, true_or, if_true] at merges
  split at merges
  · rename_i equal
    cases merges
    exact ⟨rfl, (same_iff _ _).mp equal⟩
  · cases merges

theorem mergeOperator_union (isUnion : op = "add" ∨ op = "superset_of") {a b merged : Json}
    (merges : mergeOperator op a b = .ok merged) :
    merged = arrayFrom (union (elements a) (elements b)) := by
  rcases isUnion with rfl | rfl
  · simp only [mergeOperator, String.reduceEq, or_self, if_false, true_or,
      if_true, Except.ok.injEq] at merges
    exact merges.symm
  · simp only [mergeOperator, String.reduceEq, or_self, if_false, or_true,
      if_true, Except.ok.injEq] at merges
    exact merges.symm

theorem mergeOperator_intersection (isIntersection : op = "subset_of" ∨ op = "one_of")
    {a b merged : Json} (merges : mergeOperator op a b = .ok merged) :
    merged = arrayFrom (intersection (elements a) (elements b)) := by
  rcases isIntersection with rfl | rfl
  · simp only [mergeOperator, String.reduceEq, or_self, if_false,
      if_true, Except.ok.injEq] at merges
    exact merges.symm
  · simp only [mergeOperator, String.reduceEq, or_self, if_false, if_true] at merges
    split at merges
    · cases merges
      rfl
    · cases merges

theorem mergeOperator_essential {a b merged : Json}
    (merges : mergeOperator "essential" a b = .ok merged) :
    merged = .boolean (strictEqual a (.boolean true) || strictEqual b (.boolean true)) := by
  simp only [mergeOperator, String.reduceEq, or_self, if_false, Except.ok.injEq] at merges
  exact merges.symm

/-! ### What the merge of a parameter is -/

/-- Merged operators, by where each comes from. -/
structure Merged (held sub merged : Members) : Prop where
  ofHeld :
    ∀ op v, held.lookup op = some v →
      merged.lookup op = some v ∨
        ∃ v' m, sub.lookup op = some v' ∧ mergeOperator op v v' = .ok m ∧ merged.lookup op = some m
  ofSub :
    ∀ op v', sub.lookup op = some v' →
      merged.lookup op = some v' ∨
        ∃ v m, held.lookup op = some v ∧ mergeOperator op v v' = .ok m ∧ merged.lookup op = some m
  origin :
    ∀ op m, merged.lookup op = some m →
      held.lookup op = some m ∨ sub.lookup op = some m ∨
        ∃ v v', held.lookup op = some v ∧ sub.lookup op = some v' ∧ mergeOperator op v v' = .ok m

theorem merged_of_mergeOperators {held sub merged : Members}
    (writable : sub.lookup "__proto__" = none)
    (merges : mergeOperators place held sub = .ok merged) :
    Merged held sub merged := by
  have each := mergeOperators_lookup writable merges
  refine ⟨?_, ?_, ?_⟩
  · intro op v isHeld
    cases isSub : sub.lookup op with
    | none =>
      rw [(each op).2 isSub]
      exact .inl isHeld
    | some v' =>
      have changed := (each op).1 v' isSub
      rw [isHeld] at changed
      obtain ⟨m, isMerged, isAfter⟩ := changed
      exact .inr ⟨v', m, rfl, isMerged, isAfter⟩
  · intro op v' isSub
    have changed := (each op).1 v' isSub
    cases isHeld : held.lookup op with
    | none =>
      rw [isHeld] at changed
      exact .inl changed
    | some v =>
      rw [isHeld] at changed
      obtain ⟨m, isMerged, isAfter⟩ := changed
      exact .inr ⟨v, m, rfl, isMerged, isAfter⟩
  · intro op m isAfter
    cases isSub : sub.lookup op with
    | none =>
      rw [(each op).2 isSub] at isAfter
      exact .inl isAfter
    | some v' =>
      have changed := (each op).1 v' isSub
      cases isHeld : held.lookup op with
      | none =>
        rw [isHeld, MergesTo, isAfter] at changed
        exact .inr (.inl changed.symm)
      | some v =>
        rw [isHeld] at changed
        obtain ⟨m', isMerged, isAfter'⟩ := changed
        rw [isAfter] at isAfter'
        cases isAfter'
        exact .inr (.inr ⟨v, v', rfl, rfl, isMerged⟩)

/-- A union says what either array says. -/
theorem values_union (isUnion : op = "add" ∨ op = "superset_of")
    (merges : mergeOperator op a b = .ok m) :
    valuesOf a ⊆ valuesOf m ∧ valuesOf b ⊆ valuesOf m := by
  rw [mergeOperator_union isUnion merges]
  exact
    ⟨fun said isSaid => (mem_values_union _ _ said).mpr (.inl isSaid),
      fun said isSaid => (mem_values_union _ _ said).mpr (.inr isSaid)⟩

/-- An intersection says what both arrays say. -/
theorem values_intersection (isIntersection : op = "subset_of" ∨ op = "one_of")
    (merges : mergeOperator op a b = .ok m) :
    valuesOf m ⊆ valuesOf a ∧ valuesOf m ⊆ valuesOf b := by
  rw [mergeOperator_intersection isIntersection merges]
  exact
    ⟨fun _ isSaid => (mem_values_intersection isSaid).1,
      fun _ isSaid => (mem_values_intersection isSaid).2⟩

namespace Merged

variable {held sub merged : Members}

theorem tightens_held (isMerged : Merged held sub merged) : Tightens merged held := by
  refine ⟨?_, ?_, ?_, ?_, ?_, ?_⟩
  · intro v found
    rcases isMerged.ofHeld _ v found with same | ⟨v', m, _, merges, isAfter⟩
    · exact ⟨v, same, rfl⟩
    · exact ⟨m, isAfter, by rw [(mergeOperator_value merges).1]⟩
  · intro v found
    rcases isMerged.ofHeld _ v found with same | ⟨v', m, _, merges, isAfter⟩
    · exact ⟨v, same, fun _ => id⟩
    · exact ⟨m, isAfter, (values_union (.inl rfl) merges).1⟩
  · intro v found
    rcases isMerged.ofHeld _ v found with same | ⟨v', m, _, merges, isAfter⟩
    · exact ⟨v, same, fun _ => id⟩
    · exact ⟨m, isAfter, (values_intersection (.inr rfl) merges).1⟩
  · intro v found
    rcases isMerged.ofHeld _ v found with same | ⟨v', m, _, merges, isAfter⟩
    · exact ⟨v, same, fun _ => id⟩
    · exact ⟨m, isAfter, (values_intersection (.inl rfl) merges).1⟩
  · intro v found
    rcases isMerged.ofHeld _ v found with same | ⟨v', m, _, merges, isAfter⟩
    · exact ⟨v, same, fun _ => id⟩
    · exact ⟨m, isAfter, (values_union (.inr rfl) merges).1⟩
  · intro isTrue
    unfold isEssential at isTrue ⊢
    cases found : held.lookup "essential" with
    | none =>
      rw [found] at isTrue
      cases isTrue
    | some v =>
      rw [found] at isTrue
      rcases isMerged.ofHeld _ v found with
        same | ⟨v', m, _, merges, isAfter⟩
      · rw [same]
        exact isTrue
      · rw [isAfter, mergeOperator_essential merges]
        simp only at isTrue ⊢
        rw [isTrue]
        rfl

theorem tightens_sub (isMerged : Merged held sub merged) : Tightens merged sub := by
  refine ⟨?_, ?_, ?_, ?_, ?_, ?_⟩
  · intro v found
    rcases isMerged.ofSub _ v found with same | ⟨v', m, _, merges, isAfter⟩
    · exact ⟨v, same, rfl⟩
    · obtain ⟨isFirst, equal⟩ := mergeOperator_value merges
      exact ⟨m, isAfter, by rw [isFirst, equal]⟩
  · intro v found
    rcases isMerged.ofSub _ v found with same | ⟨v', m, _, merges, isAfter⟩
    · exact ⟨v, same, fun _ => id⟩
    · exact ⟨m, isAfter, (values_union (.inl rfl) merges).2⟩
  · intro v found
    rcases isMerged.ofSub _ v found with same | ⟨v', m, _, merges, isAfter⟩
    · exact ⟨v, same, fun _ => id⟩
    · exact ⟨m, isAfter, (values_intersection (.inr rfl) merges).2⟩
  · intro v found
    rcases isMerged.ofSub _ v found with same | ⟨v', m, _, merges, isAfter⟩
    · exact ⟨v, same, fun _ => id⟩
    · exact ⟨m, isAfter, (values_intersection (.inl rfl) merges).2⟩
  · intro v found
    rcases isMerged.ofSub _ v found with same | ⟨v', m, _, merges, isAfter⟩
    · exact ⟨v, same, fun _ => id⟩
    · exact ⟨m, isAfter, (values_union (.inr rfl) merges).2⟩
  · intro isTrue
    unfold isEssential at isTrue ⊢
    cases found : sub.lookup "essential" with
    | none =>
      rw [found] at isTrue
      cases isTrue
    | some v =>
      rw [found] at isTrue
      rcases isMerged.ofSub _ v found with
        same | ⟨v', m, _, merges, isAfter⟩
      · rw [same]
        exact isTrue
      · rw [isAfter, mergeOperator_essential merges]
        simp only at isTrue ⊢
        rw [isTrue, Bool.or_true]
        rfl

/-- Words stay words, whichever side they come from. -/
theorem worded {name : String} {before : Option Json} (isMerged : Merged held sub merged)
    (ofHeld : Worded name held before) (ofSub : Worded name sub before) :
    Worded name merged before := by
  refine ⟨?_, ?_, ?_⟩
  · intro isScope m found one isOne
    rcases isMerged.origin _ m found with
      isHeld | isSub | ⟨v, v', isHeld, _, merges⟩
    · exact ofHeld.value isScope m isHeld one isOne
    · exact ofSub.value isScope m isSub one isOne
    · rw [(mergeOperator_value merges).1] at isOne
      exact ofHeld.value isScope v isHeld one isOne
  · intro isScope m found one isOne
    rcases isMerged.origin _ m found with
      isHeld | isSub | ⟨v, v', isHeld, isSub, merges⟩
    · exact ofHeld.add isScope m isHeld one isOne
    · exact ofSub.add isScope m isSub one isOne
    · rw [mergeOperator_union (.inl rfl) merges] at isOne
      rcases KeyedList.mem_of_mem_union canonical isOne with
        isFirst | isSecond
      · exact ofHeld.add isScope v isHeld one isFirst
      · exact ofSub.add isScope v' isSub one isSecond
  · intro isScope m value found isValue one isOne isNamed
    rcases isMerged.origin _ m found with
      isHeld | isSub | ⟨v, v', isHeld, _, merges⟩
    · exact ofHeld.subsetOf isScope m value isHeld isValue one isOne isNamed
    · exact ofSub.subsetOf isScope m value isSub isValue one isOne isNamed
    · refine ofHeld.subsetOf isScope v value isHeld isValue one isOne ?_
      rw [mergeOperator_intersection (.inl rfl) merges] at isNamed
      exact ((mem_keys_intersection _ _ _).mp isNamed).1

end Merged

/-- A merged parameter is sound, and as tight as both it is merged of. -/
theorem mergeParameter_spec {before : Option Json} {held sub merged : Members}
    (ofHeld : Sound name before held) (ofSub : Sound name before sub)
    (merges : mergeParameter place held sub = .ok merged) :
    Sound name before merged ∧ Tightens merged held ∧ Tightens merged sub := by
  rw [mergeParameter, bind_eq_ok_iff] at merges
  obtain ⟨merged', mergesOperators, checked⟩ := merges
  simp only at checked
  split at checked
  · exact absurd checked (throw_ne_ok _ _)
  rename_i fine
  rw [pure_eq_ok_iff] at checked
  subst checked
  rw [not_not] at fine
  have isMerged := merged_of_mergeOperators ofSub.known mergesOperators
  refine ⟨⟨?_, combined_of_fine fine, ?_, ?_⟩, isMerged.tightens_held, isMerged.tightens_sub⟩
  · have same := (mergeOperators_lookup ofSub.known mergesOperators "__proto__").2 ofSub.known
    rw [same]
    exact ofHeld.known
  · intro m found
    rcases isMerged.origin _ m found with
      isHeld | isSub | ⟨v, v', _, _, merges⟩
    · exact ofHeld.arrays m isHeld
    · exact ofSub.arrays m isSub
    · rw [mergeOperator_union (.inl rfl) merges]
      rfl
  · exact isMerged.worded ofHeld.worded ofSub.worded

end IyaSts.MetadataPolicy
