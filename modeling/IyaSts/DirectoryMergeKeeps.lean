import IyaSts.DirectoryMerge
import IyaSts.ThreeWay
import Mathlib.Data.List.Induction

namespace IyaSts.DirectoryMerge

/-!
# No list update is lost between nodes

Every commit merges each list of the table by the three-way rule of sets, so
nodes that changed one entry leave, in any order, the base without what any of
them removed and with what any of them added.
-/

open JsObject ThreeWay List

/-! ## The values of one attribute -/

/-- The values an entry holds at a name. -/
def valuesOf (attributes : Attributes) (name : String) : Set String :=
  {value | value ∈ listOf name (read attributes name)}

/-- The list of the values that a shape is of. -/
def Shape.listOf (name : String) : Shape → List String
  | .values held => DirectoryMerge.listOf name (.own held)
  | .undefined => [builtinText name]
  | .object => [builtinText name]

/-- The text of a value tells the list of it. -/
theorem listOf_shapeOf (name : String) (slot : Slot) :
    (shapeOf name slot).listOf name = listOf name slot := by
  cases slot with
  | own held => rfl
  | inherited =>
    by_cases isPrototype : name = "__proto__" <;> simp [shapeOf, isPrototype, Shape.listOf, listOf]
  | absent => rfl

variable {name : String}

/-- Values with one text are the same list. -/
theorem listOf_eq_of_same {first second : Slot} (isSame : same name first second = true) :
    listOf name first = listOf name second := by
  have shapes : shapeOf name first = shapeOf name second := by simpa [same] using isSame
  rw [← listOf_shapeOf, shapes, listOf_shapeOf]

/-- What is added once is there, beside what was. -/
theorem mem_foldl_push (added out : List String) (value : String) :
    value ∈ added.foldl
        (fun out value => if value ∈ out then out else out ++ [value]) out ↔
      value ∈ out ∨ value ∈ added := by
  induction added generalizing out with
  | nil => simp
  | cons first rest ih =>
    rw [foldl_cons, ih]
    by_cases isHeld : first ∈ out
    · rw [if_pos isHeld, mem_cons]
      constructor
      · rintro (isOut | isRest)
        · exact .inl isOut
        · exact .inr (.inr isRest)
      · rintro (isOut | isFirst | isRest)
        · exact .inl isOut
        · exact .inl (isFirst ▸ isHeld)
        · exact .inr isRest
    · rw [if_neg isHeld, mem_append, mem_singleton, mem_cons, or_assoc]

/-- The list of an answer that is absent where it is empty. -/
theorem listOf_unless_empty (name : String) (out : List String) :
    listOf name (if out = [] then .absent else .own (.list out)) = out := by
  by_cases isEmpty : out = []
  · rw [if_pos isEmpty, isEmpty]
    rfl
  · rw [if_neg isEmpty]
    rfl

/-- The value-wise rule is the three-way merge of the sets. -/
theorem mem_mergeValues (name : String) (base mine theirs : Slot) (value : String) :
    value ∈ listOf name (mergeValues name base mine theirs) ↔
      (value ∈ listOf name theirs ∧
          ¬ (value ∈ listOf name base ∧ value ∉ listOf name mine)) ∨
        (value ∈ listOf name mine ∧ value ∉ listOf name base) := by
  unfold mergeValues
  simp only [listOf_unless_empty, mem_foldl_push, mem_filter, decide_eq_true_eq]

/-- A name of the list table is in no other table. -/
theorem apart_of_multi (isMulti : name ∈ multi) :
    name ≠ "modifytimestamp" ∧ name ≠ "createtimestamp" ∧
      name ≠ "entryuuid" ∧ name ∉ single ∧ ¬ Inherited name := by
  have each :
      (multi.all fun name =>
        name ≠ "modifytimestamp" ∧ name ≠ "createtimestamp" ∧
          name ≠ "entryuuid" ∧ name ∉ single ∧ ¬ Inherited name) = true := by
    decide +kernel
  exact of_decide_eq_true (all_eq_true.mp each name isMulti)

variable (base mine theirs : Attributes)

/-- Each shortcut answers what the value-wise rule would. -/
theorem mergeAttribute_multi (isMulti : name ∈ multi) :
    {value | value ∈ listOf name (mergeAttribute base mine theirs name)} =
      threeWay (valuesOf base name) (valuesOf mine name) (valuesOf theirs name) := by
  obtain ⟨notModified, notCreated, notUuid, notSingle, _⟩ := apart_of_multi isMulti
  unfold mergeAttribute
  simp only
  by_cases unchanged : same name (read mine name) (read base name) = true
  · have sameValues : valuesOf mine name = valuesOf base name := by
      unfold valuesOf
      rw [listOf_eq_of_same unchanged]
    rw [if_pos unchanged, sameValues, threeWay_of_mine_unchanged]
    rfl
  rw [if_neg unchanged]
  by_cases theirsUnchanged : same name (read theirs name) (read base name) = true
  · have sameValues : valuesOf theirs name = valuesOf base name := by
      unfold valuesOf
      rw [listOf_eq_of_same theirsUnchanged]
    rw [if_pos (by simp [theirsUnchanged]), sameValues, threeWay_of_theirs_unchanged]
    rfl
  by_cases equal : same name (read mine name) (read theirs name) = true
  · have sameValues : valuesOf theirs name = valuesOf mine name := by
      unfold valuesOf
      rw [listOf_eq_of_same equal]
    rw [if_pos (by simp [equal]), sameValues, threeWay_of_equal]
    rfl
  rw [if_neg (by simp [theirsUnchanged, equal]), if_neg notModified, if_neg (by simp [notCreated,
    notUuid]), if_neg notSingle, if_pos (.inl isMulti)]
  ext value
  exact mem_mergeValues ..

/-! ## All attributes together -/

/-- The names that are merged are those of the three sides. -/
theorem mem_namesOf (name : String) :
    name ∈ namesOf base mine theirs ↔ ∃ member ∈ mine ++ theirs ++ base, member.1 = name := by
  have folded (members : Attributes) (names : List String) :
      name ∈ members.foldl
          (fun names member =>
            if member.1 ∈ names then names else names ++ [member.1]) names ↔
        name ∈ names ∨ ∃ member ∈ members, member.1 = name := by
    have pushed := mem_foldl_push (members.map Prod.fst) names name
    rw [foldl_map] at pushed
    simpa using pushed
  unfold namesOf
  rw [folded]
  simp

/-- A name no side holds reads as absent, where none inherits it. -/
theorem read_absent_of_not_held {attributes : Attributes} {name : String}
    (notInherited : ¬ Inherited name) (notHeld : ∀ member ∈ attributes, member.1 ≠ name) :
    read attributes name = .absent := by
  have notFound : attributes.lookup name = none := by
    rw [lookup_eq_none_iff]
    intro member isMember
    simpa using (notHeld member isMember).symm
  rw [read_of_not_inherited notInherited, notFound]

/-- Each name holds what was last put there. -/
theorem lookup_foldl_put (merged : String → Slot) {name : String}
    (notPrototype : name ≠ "__proto__") (names : List String) (out : Attributes) :
    (names.foldl (fun out name => put out name (merged name)) out).lookup
        name =
      match merged name with
      | .own held => if name ∈ names then some held else out.lookup name
      | _ => out.lookup name := by
  induction names generalizing out with
  | nil => cases merged name <;> rfl
  | cons first rest ih =>
    rw [foldl_cons, ih]
    by_cases isFirst : first = name
    · subst isFirst
      cases holds : merged first with
      | own held =>
        simp only [put, mem_cons, true_or, if_true]
        rw [lookup_assign _ (.inl notPrototype), if_pos rfl]
        exact ite_self _
      | inherited => rfl
      | absent => rfl
    · have other : (put out first (merged first)).lookup name = out.lookup name := by
        cases merged first with
        | own held => exact lookup_assign_other _ (Ne.symm isFirst) _
        | inherited => rfl
        | absent => rfl
      rw [other]
      simp only [mem_cons, Ne.symm isFirst, false_or]

/-- The merged attributes read as each attribute's merge. -/
theorem read_mergeAttributes (notInherited : ¬ Inherited name)
    (notBuiltin : mergeAttribute base mine theirs name ≠ .inherited) :
    read (mergeAttributes base mine theirs) name = mergeAttribute base mine theirs name := by
  have notPrototype : name ≠ "__proto__" := by
    rintro rfl
    exact notInherited (by decide)
  have looked :=
    lookup_foldl_put (mergeAttribute base mine theirs) notPrototype (namesOf base mine theirs) []
  rw [read_of_not_inherited notInherited]
  unfold mergeAttributes
  rw [looked]
  cases merged : mergeAttribute base mine theirs name with
  | own held =>
    have isNamed : name ∈ namesOf base mine theirs := by
      by_contra notNamed
      have nowhere : ∀ member ∈ mine ++ theirs ++ base, member.1 ≠ name := by
        intro member isMember isName
        exact notNamed ((mem_namesOf ..).mpr ⟨member, isMember, isName⟩)
      have inMine := @read_absent_of_not_held mine name notInherited
        fun member isMember => nowhere member (by simp [isMember])
      have inTheirs := @read_absent_of_not_held theirs name notInherited
        fun member isMember => nowhere member (by simp [isMember])
      have inBase := @read_absent_of_not_held base name notInherited
        fun member isMember => nowhere member (by simp [isMember])
      have unchanged : same name Property.absent .absent = true := by simp [same]
      unfold mergeAttribute at merged
      simp only [inMine, inTheirs, inBase, unchanged, if_true] at merged
      cases merged
    simp only [isNamed, if_true]
  | inherited => exact absurd merged notBuiltin
  | absent => rfl

/-! ## One commit -/

section

variable (toLowerCase : List Nat → List Nat)

variable (base mine theirs : Attributes)

/-- The merge of the entry's own identifier is one of the two sides'. -/
theorem mergeAttribute_entryuuid :
    mergeAttribute base mine theirs "entryuuid" = read mine "entryuuid" ∨
      mergeAttribute base mine theirs "entryuuid" = read theirs "entryuuid" := by
  unfold mergeAttribute
  simp only
  split
  · exact .inr rfl
  · split
    · exact .inl rfl
    · rw [if_neg (by decide), if_pos (by simp)]
      split
      · exact .inl rfl
      · exact .inr rfl

/-- The identifier is read off one attribute. -/
theorem uuidOf_congr {first second : Entry}
    (sameSlot : read first.attributes "entryuuid" = read second.attributes "entryuuid") :
    uuidOf toLowerCase first = uuidOf toLowerCase second := by
  unfold uuidOf
  rw [sameSlot]

/-- A name that no object inherits does not read as inherited. -/
theorem read_ne_inherited {attributes : Attributes} {name : String}
    (notInherited : ¬ Inherited name) :
    read attributes name ≠ .inherited := by
  intro found
  exact notInherited (of_read_inherited found).2

/-- The merged attributes hold the three-way merge of every list. -/
theorem valuesOf_mergeAttributes {name : String} (isMulti : name ∈ multi) :
    valuesOf (mergeAttributes base mine theirs) name =
      threeWay (valuesOf base name) (valuesOf mine name) (valuesOf theirs name) := by
  obtain ⟨_, _, _, notSingle, notInherited⟩ := apart_of_multi isMulti
  have notBuiltin : mergeAttribute base mine theirs name ≠ .inherited := by
    have fromSides (attributes : Attributes) := @read_ne_inherited attributes name notInherited
    unfold mergeAttribute mergeValues
    simp only
    repeat' split
    all_goals first
      | exact fromSides _
      | simp
  rw [← mergeAttribute_multi base mine theirs isMulti]
  unfold valuesOf
  rw [read_mergeAttributes base mine theirs notInherited notBuiltin]

/-- The merged attributes carry the identifier both sides carry. -/
theorem uuidOf_mergedEntry {mine theirs : Entry}
    (sameEntry : uuidOf toLowerCase theirs = uuidOf toLowerCase mine) :
    uuidOf toLowerCase
        (mergedEntry mine.dn
          (mergeAttributes base mine.attributes theirs.attributes)
          mine theirs) =
      uuidOf toLowerCase mine := by
  have notInherited : ¬ Inherited "entryuuid" := by decide
  rcases mergeAttribute_entryuuid base mine.attributes theirs.attributes with
    ofMine | ofTheirs
  · apply uuidOf_congr
    have notBuiltin := @read_ne_inherited mine.attributes _ notInherited
    rw [← ofMine] at notBuiltin ⊢
    exact read_mergeAttributes _ _ _ notInherited notBuiltin
  · rw [← sameEntry]
    apply uuidOf_congr
    have notBuiltin := @read_ne_inherited theirs.attributes _ notInherited
    rw [← ofTheirs] at notBuiltin ⊢
    exact read_mergeAttributes _ _ _ notInherited notBuiltin

/-- One identifier is not two. -/
theorem differ_self (uuid : List Nat) : differ uuid uuid = false := by simp [differ]

/--
A commit of a change of the same entry writes it: the entry stays the same
one, and every list is the three-way merge.
-/
theorem commit_keeps {base stored mine : Entry}
    (storedSame : uuidOf toLowerCase stored = uuidOf toLowerCase base)
    (mineSame : uuidOf toLowerCase mine = uuidOf toLowerCase base) :
    ∃ next,
      commit toLowerCase base (some stored) mine = some next ∧
        uuidOf toLowerCase next = uuidOf toLowerCase base ∧
        ∀ name ∈ multi,
          valuesOf next.attributes name =
            threeWay (valuesOf base.attributes name)
              (valuesOf mine.attributes name)
              (valuesOf stored.attributes name) := by
  have verdict :
      mergeEntry toLowerCase (some base) (some mine) (some stored) =
        mergeChanges base.attributes mine stored := by
    unfold mergeEntry
    simp only [storedSame, mineSame, differ_self, Bool.false_eq_true, if_false]
  have committed {outcome : Outcome} {next : Entry}
      (decided : mergeChanges base.attributes mine stored = ⟨outcome, some next⟩)
      (writes : outcome = .mine ∨ outcome = .merged) :
      commit toLowerCase base (some stored) mine = some next := by
    unfold commit
    rw [verdict, decided]
    rcases writes with rfl | rfl <;> rfl
  by_cases unchanged :
      mergeAttributes base.attributes mine.attributes stored.attributes = mine.attributes
  · refine ⟨mine, committed (if_pos unchanged) (.inl rfl), mineSame, ?_⟩
    intro name isMulti
    rw [← valuesOf_mergeAttributes _ _ _ isMulti, unchanged]
  · refine ⟨_, committed (if_neg unchanged) (.inr rfl), ?_, ?_⟩
    · rw [← mineSame]
      exact uuidOf_mergedEntry toLowerCase _ (storedSame.trans mineSame.symm)
    · intro name isMulti
      exact valuesOf_mergeAttributes _ _ _ isMulti

/-! ## A whole run of commits -/

/-- What the stored row is after the commits of these lives. -/
structure Merged (base : Entry) (lives : List Entry) (stored : Entry) :
    Prop where
  sameEntry : uuidOf toLowerCase stored = uuidOf toLowerCase base
  values :
    ∀ name ∈ multi,
      valuesOf stored.attributes name =
        mergedAll (valuesOf base.attributes name)
          (lives.map fun live => valuesOf live.attributes name)

/-- Every run of commits of one entry's changes merges them all. -/
theorem commits_merged {base : Entry} {lives : List Entry}
    (sameEntry : ∀ live ∈ lives, uuidOf toLowerCase live = uuidOf toLowerCase base) :
    ∃ stored,
      commits toLowerCase base lives = some stored ∧ Merged toLowerCase base lives stored := by
  induction lives using List.reverseRecOn with
  | nil =>
    refine ⟨base, rfl, rfl, ?_⟩
    intro name _
    exact (mergedAll_nil _).symm
  | append_singleton before mine ih =>
    obtain ⟨stored, isStored, merged⟩ := ih
      fun live isLive => sameEntry live (by simp [isLive])
    obtain ⟨next, isNext, nextSame, nextValues⟩ :=
      commit_keeps toLowerCase merged.sameEntry (sameEntry mine (by simp))
    refine ⟨next, ?_, nextSame, ?_⟩
    · unfold commits at isStored ⊢
      rw [foldl_append, isStored]
      exact isNext
    · intro name isMulti
      rw [nextValues name isMulti, merged.values name isMulti, map_append]
      exact (mergedAll_concat _ _ _).symm

/--
However the nodes' commits are ordered, every list of the table ends as the
base's values minus those some node removed plus those some node added.
-/
theorem no_list_update_lost (base : Entry) {lives order : List Entry}
    (sameEntry : ∀ live ∈ lives, uuidOf toLowerCase live = uuidOf toLowerCase base)
    (isOrder : order.Perm lives) :
    ∃ stored,
      commits toLowerCase base order = some stored ∧
        ∀ name ∈ multi,
          valuesOf stored.attributes name =
            (valuesOf base.attributes name \
                {value | ∃ live ∈ lives,
                  value ∈ removed (valuesOf base.attributes name)
                    (valuesOf live.attributes name)}) ∪
              {value | ∃ live ∈ lives,
                value ∈ added (valuesOf base.attributes name) (valuesOf live.attributes name)} := by
  obtain ⟨stored, isStored, merged⟩ :=
    @commits_merged toLowerCase base order
      fun live isLive => sameEntry live (isOrder.mem_iff.mp isLive)
  refine ⟨stored, isStored, ?_⟩
  intro name isMulti
  rw [merged.values name isMulti, mergedAll_perm _ (isOrder.map _)]
  simp only [mergedAll, mem_map, exists_exists_and_eq_and]

end

/-- The small letter of an ASCII capital. -/
def asciiLower (units : List Nat) : List Nat :=
  units.map fun unit => if 65 ≤ unit ∧ unit ≤ 90 then unit + 32 else unit

/-- A group of two members. -/
def group : Entry where
  dn := "cn=staff,ou=groups"
  attributes := [("member", .list ["ann", "bob"]), ("entryuuid", .list ["A1"])]
  createdAt := some "20260914000000Z"
  modifiedAt := some "20260914000000Z"
  origin := none

/-- One node removed a member and added another. -/
def staffed : Entry :=
  { group with
    attributes := [("member", .list ["bob", "cat"]), ("entryuuid", .list ["a1"])] }

/-- Another node emptied the group. -/
def emptied : Entry :=
  { group with attributes := [("entryuuid", .list ["A1"])] }

/-- The group ends with the member that was added. -/
theorem no_list_update_lost_of_group :
    ∃ stored,
      commits asciiLower group [emptied, staffed] = some stored ∧
        valuesOf stored.attributes "member" = {"cat"} := by
  obtain ⟨stored, isStored, values⟩ :=
    @no_list_update_lost asciiLower group [staffed, emptied]
      [emptied, staffed] (by decide) (List.Perm.swap _ _ _)
  refine ⟨stored, isStored, ?_⟩
  rw [values "member" (by decide)]
  have ofList {attributes : Attributes} {values : List String}
      (isList : listOf "member" (JsObject.read attributes "member") = values) :
      valuesOf attributes "member" = {value | value ∈ values} := by
    unfold valuesOf
    rw [isList]
  have ofGroup := @ofList group.attributes ["ann", "bob"] (by decide)
  have ofStaffed := @ofList staffed.attributes ["bob", "cat"] (by decide)
  have ofEmptied := @ofList emptied.attributes [] (by decide)
  ext value
  simp only [mem_cons, not_mem_nil, or_false, exists_eq_or_imp,
    exists_eq_left, ofGroup, ofStaffed, ofEmptied, removed, added]
  by_cases isAnn : value = "ann" <;> by_cases isBob : value = "bob" <;>
    by_cases isCat : value = "cat" <;> simp [isAnn, isBob, isCat]

end IyaSts.DirectoryMerge
