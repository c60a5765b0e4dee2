import IyaSts.JsonContent

namespace IyaSts

/-!
# What `JSON.parse` gives, by content

A value without identities.  A number too large for a double is infinite, and
`JSON.stringify` writes `null` for it.  An object's own properties come in the
language's order: the array indexes by their number, then the other names as
they were added.
-/

open List

/-- A value that `JSON.parse` may give. -/
inductive JsonValue where
  | null
  | boolean (value : Bool)
  | number (numeral : Numeral)
  | infinite (negative : Bool)
  | string (text : String)
  | array (elements : List JsonValue)
  | object (members : List (String × JsonValue))

namespace JsonValue

open Json

/-! ## The order of properties -/

/-- The number of a name that is an array index. -/
def arrayIndex (name : String) : Option Nat :=
  let number := Nat.ofDigitChars 10 name.toList 0
  if number < 2 ^ 32 - 1 ∧ Nat.toDigits 10 number = name.toList then
    some number
  else
    none

/-- An object's own properties, as a loop over them meets them. -/
def propertyOrder {Value : Type} (members : List (String × Value)) : List (String × Value) :=
  ((members.filter fun member => (arrayIndex member.1).isSome).mergeSort
      fun first second => (arrayIndex first.1).getD 0 ≤ (arrayIndex second.1).getD 0) ++
    members.filter fun member => !(arrayIndex member.1).isSome

/-! ## Texts and forms of a value -/

mutual

/-- What `JSON.stringify` writes of a value. -/
def content : JsonValue → Content
  | .null => .null
  | .boolean value => .boolean value
  | .number numeral => .number numeral
  | .infinite _ => .null
  | .string text => .string text
  | .array elements => .array (contents elements)
  | .object members => .object (propertyOrder (entries (contentMembers members)))

/-- What it writes of the elements of an array. -/
def contents : List JsonValue → List Content
  | [] => []
  | element :: rest => content element :: contents rest

/-- What it writes of the members of an object. -/
def contentMembers : List (String × JsonValue) → List (String × Content)
  | [] => []
  | (name, value) :: rest => (name, content value) :: contentMembers rest

end

/-- `JSON.stringify(value)`. -/
def stringify (value : JsonValue) : String := String.ofList value.content.render

mutual

/-- A value with the members of every object sorted by name. -/
def byName : JsonValue → JsonValue
  | .array elements => .array (byNameElements elements)
  | .object members => .object (sortByName (entries (byNameMembers members)))
  | value => value

/-- The elements of an array, so sorted. -/
def byNameElements : List JsonValue → List JsonValue
  | [] => []
  | element :: rest => byName element :: byNameElements rest

/-- The members of an object, each so sorted. -/
def byNameMembers : List (String × JsonValue) → List (String × JsonValue)
  | [] => []
  | (name, value) :: rest => (name, byName value) :: byNameMembers rest

end

/-- Two values are one, whatever the order of their members. -/
def Same (value other : JsonValue) : Prop := value.byName = other.byName

mutual

/-- No object has a member `__proto__`, and no number is infinite. -/
def plain : JsonValue → Bool
  | .infinite _ => false
  | .array elements => plainElements elements
  | .object members => plainMembers members
  | _ => true

/-- So are all elements of an array. -/
def plainElements : List JsonValue → Bool
  | [] => true
  | element :: rest => plain element && plainElements rest

/-- So are all members of an object. -/
def plainMembers : List (String × JsonValue) → Bool
  | [] => true
  | (name, value) :: rest => name ≠ "__proto__" && plain value && plainMembers rest

end

/-! ## Lists of the parts -/

variable (elements : List JsonValue)

theorem contents_eq : contents elements = elements.map content := by
  induction elements with
  | nil => rfl
  | cons element rest ih => rw [contents, ih, map_cons]

theorem contentMembers_eq (members : List (String × JsonValue)) :
    contentMembers members = members.map fun member => (member.1, member.2.content) := by
  induction members with
  | nil => rfl
  | cons member rest ih => rw [contentMembers, ih, map_cons]

theorem byNameElements_eq :
    byNameElements elements = elements.map byName := by
  induction elements with
  | nil => rfl
  | cons element rest ih => rw [byNameElements, ih, map_cons]

theorem byNameMembers_eq (members : List (String × JsonValue)) :
    byNameMembers members = members.map fun member => (member.1, member.2.byName) := by
  induction members with
  | nil => rfl
  | cons member rest ih => rw [byNameMembers, ih, map_cons]

theorem plainElements_iff :
    plainElements elements = true ↔ ∀ element ∈ elements, element.plain = true := by
  induction elements with
  | nil => simp [plainElements]
  | cons element rest ih => rw [plainElements, Bool.and_eq_true, ih, forall_mem_cons]

theorem plainMembers_iff (members : List (String × JsonValue)) :
    plainMembers members = true ↔
      ∀ member ∈ members, member.1 ≠ "__proto__" ∧ member.2.plain = true := by
  induction members with
  | nil => simp [plainMembers]
  | cons member rest ih =>
    rw [plainMembers, Bool.and_eq_true, Bool.and_eq_true,
      ih, forall_mem_cons, decide_eq_true_eq]

/-! ## Sorting by name -/

/-- The code units of one character. -/
def unitsOf (char : Char) : List Nat :=
  if char.toNat < 0x10000 then
    [char.toNat]
  else
    [0xD800 + (char.toNat - 0x10000) / 0x400, 0xDC00 + (char.toNat - 0x10000) % 0x400]


/-- No character's code is that of a surrogate. -/
theorem notSurrogate (char : Char) : char.toNat < 0xD800 ∨ 0xDFFF < char.toNat := by
  rcases char.valid with low | high
  · exact .inl low
  · exact .inr high.1

/-- A character is known by its code units. -/
theorem unitsOf_append_inj {char other : Char} {rest rest' : List Nat}
    (same : unitsOf char ++ rest = unitsOf other ++ rest') :
    char = other ∧ rest = rest' := by
  have charRange := notSurrogate char
  have otherRange := notSurrogate other
  have charLess : char.toNat < 0x110000 := by
    rcases char.valid with low | high
    · exact Nat.lt_trans low (by decide)
    · exact high.2
  have otherLess : other.toNat < 0x110000 := by
    rcases other.valid with low | high
    · exact Nat.lt_trans low (by decide)
    · exact high.2
  have ofCode (sameCode : char.toNat = other.toNat) : char = other := by
    rw [← Char.ofNat_toNat char, sameCode, Char.ofNat_toNat]
  unfold unitsOf at same
  split at same <;> split at same <;>
    simp only [cons_append, nil_append, List.cons.injEq] at same
  · exact ⟨ofCode same.1, same.2⟩
  · omega
  · omega
  · exact ⟨ofCode (by omega), same.2.2⟩

/-- A text is known by its code units. -/
theorem codeUnits_inj {text other : String} (same : codeUnits text = codeUnits other) :
    text = other := by
  have charsInj
      (chars : List Char) :
      ∀ others : List Char, chars.flatMap unitsOf = others.flatMap unitsOf → chars = others := by
    have unitsSome (char : Char) (rest : List Nat) : unitsOf char ++ rest ≠ [] := by
      unfold unitsOf
      split <;> simp
    induction chars with
    | nil =>
      intro others same
      cases others with
      | nil => rfl
      | cons other rest =>
        rw [flatMap_nil, flatMap_cons] at same
        exact absurd same.symm (unitsSome _ _)
    | cons char rest ih =>
      intro others same
      cases others with
      | nil =>
        rw [flatMap_nil, flatMap_cons] at same
        exact absurd same (unitsSome _ _)
      | cons other others =>
        rw [flatMap_cons, flatMap_cons] at same
        obtain ⟨rfl, sameRest⟩ := unitsOf_append_inj same
        rw [ih others sameRest]
  exact String.toList_inj.mp (charsInj _ _ same)

/-- The order by name, on members. -/
theorem pairwise_sortByName {Value : Type} (members : List (String × Value)) :
    (sortByName members).Pairwise fun first second =>
      (!decide (codeUnits second.1 < codeUnits first.1)) = true := by
  apply pairwise_mergeSort
  · intro first second third low high
    simp only [Bool.not_eq_true', decide_eq_false_iff_not, List.not_lt] at *
    exact List.le_trans low high
  · intro first second
    simp only [Bool.or_eq_true, Bool.not_eq_true', decide_eq_false_iff_not, List.not_lt]
    exact List.le_total _ _

variable {Value : Type} {members : List (String × Value)}

/-- Of members with distinct names, one of each name is there. -/
theorem eq_of_sameName (distinct : (members.map Prod.fst).Nodup) {first second : String × Value}
    (isFirst : first ∈ members) (isSecond : second ∈ members) (sameName : first.1 = second.1) :
    first = second := by
  have firstRead := (lookup_eq_some_iff_mem distinct first.1 first.2).mpr isFirst
  have secondRead := (lookup_eq_some_iff_mem distinct second.1 second.2).mpr isSecond
  rw [sameName, secondRead, Option.some.injEq] at firstRead
  exact Prod.ext sameName firstRead.symm

/-- Of members with distinct names, the order they come in is lost. -/
theorem sortByName_perm {members others : List (String × Value)}
    (perm : members.Perm others) (distinct : (members.map Prod.fst).Nodup) :
    sortByName members = sortByName others := by
  have sorted : (sortByName members).Perm members := mergeSort_perm members _
  have sortedOthers : (sortByName others).Perm others := mergeSort_perm others _
  apply List.Perm.eq_of_pairwise _ (pairwise_sortByName members)
    (pairwise_sortByName others)
    (sorted.trans (perm.trans sortedOthers.symm))
  intro first second isFirst isSecond low high
  simp only [Bool.not_eq_true', decide_eq_false_iff_not, List.not_lt] at low high
  have sameName : first.1 = second.1 := codeUnits_inj (List.le_antisymm low high)
  have inFirst : first ∈ members := sorted.mem_iff.mp isFirst
  have inSecond : second ∈ members := perm.mem_iff.mpr (sortedOthers.mem_iff.mp isSecond)
  exact eq_of_sameName distinct inFirst inSecond sameName

theorem nodup_sortByName (distinct : (members.map Prod.fst).Nodup) :
    ((sortByName members).map Prod.fst).Nodup :=
  ((mergeSort_perm members _).map Prod.fst).nodup_iff.mpr distinct

theorem sortByName_idem (distinct : (members.map Prod.fst).Nodup) :
    sortByName (sortByName members) = sortByName members :=
  sortByName_perm (mergeSort_perm members _) (nodup_sortByName distinct)

/-- Distinct names are each read once. -/
theorem entries_of_nodup (distinct : (members.map Prod.fst).Nodup) : entries members = members := by
  induction members with
  | nil => rfl
  | cons member rest ih =>
    obtain ⟨name, value⟩ := member
    rw [map_cons, nodup_cons] at distinct
    rw [entries, ih distinct.2, filter_eq_self.mpr]
    intro other isOther
    rw [decide_eq_true_eq]
    intro sameName
    exact distinct.1 (mem_map.mpr ⟨other, isOther, sameName⟩)

theorem mem_of_mem_entries {member : String × Value} (isEntry : member ∈ entries members) :
    member ∈ members := by
  rw [mem_entries_iff] at isEntry
  obtain ⟨before, after, shape, _⟩ := lookup_eq_some_iff.mp isEntry
  simp [shape]

theorem propertyOrder_perm (members : List (String × Value)) :
    (propertyOrder members).Perm members := by
  have indexed :=
    mergeSort_perm
      (members.filter fun member => (arrayIndex member.1).isSome)
      fun first second => decide ((arrayIndex first.1).getD 0 ≤ (arrayIndex second.1).getD 0)
  exact (indexed.append_right _).trans (filter_append_perm _ members)

/-- The order of properties is one of names. -/
theorem propertyOrder_map {Value Value' : Type} (change : Value → Value')
    (members : List (String × Value)) :
    propertyOrder (members.map fun member => (member.1, change member.2)) =
      (propertyOrder members).map fun member =>
        (member.1, change member.2) := by
  unfold propertyOrder
  rw [map_append, map_mergeSort, filter_map, filter_map]
  · rfl
  · intro _ _ _ _
    rfl

/-! ## A plain value is known by its text -/

mutual

/-- A value back from what is written of it. -/
def ofContent : Content → JsonValue
  | .null => .null
  | .boolean value => .boolean value
  | .number numeral => .number numeral
  | .string text => .string text
  | .array elements => .array (ofContents elements)
  | .object members => .object (sortByName (ofContentMembers members))

/-- The elements of an array, back from theirs. -/
def ofContents : List Content → List JsonValue
  | [] => []
  | element :: rest => ofContent element :: ofContents rest

/-- The members of an object, back from theirs. -/
def ofContentMembers : List (String × Content) → List (String × JsonValue)
  | [] => []
  | (name, value) :: rest => (name, ofContent value) :: ofContentMembers rest

end

theorem ofContents_eq (elements : List Content) : ofContents elements = elements.map ofContent := by
  induction elements with
  | nil => rfl
  | cons element rest ih => rw [ofContents, ih, map_cons]

theorem ofContentMembers_eq (members : List (String × Content)) :
    ofContentMembers members = members.map fun member => (member.1, ofContent member.2) := by
  induction members with
  | nil => rfl
  | cons member rest ih => rw [ofContentMembers, ih, map_cons]

/-- The members of a value sorted by name have distinct names. -/
theorem nodup_byName (members : List (String × JsonValue)) :
    ((sortByName (entries (byNameMembers members))).map Prod.fst).Nodup :=
  nodup_sortByName (nodup_entries _)

mutual

/-- A value sorted by name is read back from its content. -/
theorem ofContent_content (value : JsonValue) (isPlain : value.plain = true) :
    ofContent value.byName.content = value.byName := by
  match value with
  | .null => rfl
  | .boolean _ => rfl
  | .number _ => rfl
  | .infinite _ => cases isPlain
  | .string _ => rfl
  | .array elements =>
    rw [byName, content, ofContent, contents_eq, byNameElements_eq,
      ofContents_eq, map_map, map_map]
    exact congrArg array (map_congr_left (ofContent_elements elements isPlain))
  | .object members =>
    have distinct := nodup_byName members
    have back :
        ((propertyOrder
            (sortByName (entries (byNameMembers members)))).map
          fun member => (member.1, ofContent member.2.content)) =
          propertyOrder (sortByName (entries (byNameMembers members))) := by
      conv => rhs; rw [← map_id (propertyOrder _)]
      apply map_congr_left
      intro member isMember
      have inOrder := (propertyOrder_perm _).mem_iff.mp isMember
      rw [sortByName, mem_mergeSort] at inOrder
      have inMembers := mem_of_mem_entries inOrder
      rw [byNameMembers_eq] at inMembers
      obtain ⟨held, isHeld, rfl⟩ := mem_map.mp inMembers
      rw [ofContent_members members isPlain held isHeld]
      rfl
    rw [byName, content, contentMembers_eq, entries_of_nodup,
      propertyOrder_map, ofContent, ofContentMembers_eq, map_map]
    · calc
        object (sortByName ((propertyOrder
            (sortByName (entries (byNameMembers members)))).map
          fun member => (member.1, ofContent member.2.content)))
            = object (sortByName (propertyOrder
                (sortByName (entries (byNameMembers members))))) := by
          rw [back]
        _ = object (sortByName (sortByName (entries (byNameMembers members)))) := by
          rw [sortByName_perm (propertyOrder_perm _).symm distinct]
        _ = object (sortByName (entries (byNameMembers members))) := by
          rw [sortByName_idem (nodup_entries _)]
    · rw [map_map]
      exact distinct

theorem ofContent_elements (elements : List JsonValue) (arePlain : plainElements elements = true) :
    ∀ element ∈ elements, ofContent element.byName.content = element.byName := by
  match elements with
  | [] => simp
  | element :: rest =>
    rw [plainElements, Bool.and_eq_true] at arePlain
    rw [forall_mem_cons]
    exact ⟨ofContent_content element arePlain.1, ofContent_elements rest arePlain.2⟩

theorem ofContent_members (members : List (String × JsonValue))
    (arePlain : plainMembers members = true) :
    ∀ member ∈ members, ofContent member.2.byName.content = member.2.byName := by
  match members with
  | [] => simp
  | (name, value) :: rest =>
    rw [plainMembers, Bool.and_eq_true, Bool.and_eq_true] at arePlain
    rw [forall_mem_cons]
    exact ⟨ofContent_content value arePlain.1.2, ofContent_members rest arePlain.2⟩

end

/-- Plain values of one text are one, up to the order of members. -/
theorem same_of_stringify {value other : JsonValue} (isPlain : value.plain = true)
    (otherPlain : other.plain = true) (sameText : value.byName.stringify = other.byName.stringify) :
    Same value other := by
  have sameContent : value.byName.content = other.byName.content := by
    have chars := congrArg String.toList sameText
    rw [stringify, stringify, String.toList_ofList, String.toList_ofList]
      at chars
    have delimited : Content.Delimited [] := by simp [Content.Delimited]
    exact
      (Content.render_append_inj _ delimited delimited (congrArg (fun text => text ++ []) chars)).1
  calc
    value.byName = ofContent value.byName.content := (ofContent_content value isPlain).symm
    _ = ofContent other.byName.content := by rw [sameContent]
    _ = other.byName := ofContent_content other otherPlain

end JsonValue

end IyaSts
