import IyaSts.Json

namespace IyaSts

/-!
# What a JSON value says

The content of a value is the value without identities and with the members of
every object in order of their names.  The key-sorted serialisation tells the
content and nothing else, so comparing serialisations compares contents.
-/

open List

/-- A JSON value without identities. -/
inductive Content where
  | null
  | boolean (value : Bool)
  | number (numeral : Numeral)
  | string (text : String)
  | array (elements : List Content)
  | object (members : List (String × Content))

namespace Content

/-! ## Its text -/

/-- The characters of a quoted string. -/
def quoteChars (text : String) : List Char := '"' :: text.toList.flatMap Json.escape ++ ['"']

mutual

/-- The characters of a content. -/
def render : Content → List Char
  | .null => ['n', 'u', 'l', 'l']
  | .boolean true => ['t', 'r', 'u', 'e']
  | .boolean false => ['f', 'a', 'l', 's', 'e']
  | .number numeral => numeral.text.toList
  | .string text => quoteChars text
  | .array [] => ['[', ']']
  | .array (first :: rest) => '[' :: (render first ++ (renderElements rest ++ [']']))
  | .object [] => ['{', '}']
  | .object ((name, value) :: rest) =>
    '{' :: (quoteChars name ++ ':' :: (render value ++ (renderMembers rest ++ ['}'])))

/-- The elements after the first, each behind a comma. -/
def renderElements : List Content → List Char
  | [] => []
  | element :: rest => ',' :: (render element ++ renderElements rest)

/-- The members after the first, each behind a comma. -/
def renderMembers : List (String × Content) → List Char
  | [] => []
  | (name, value) :: rest => ',' :: (quoteChars name ++ ':' :: (render value ++ renderMembers rest))

end

/-- The kind of value that a first character begins. -/
def kindOf (char : Char) : Nat :=
  if char = 'n' then 0
  else if char = 't' then 1
  else if char = 'f' then 2
  else if char ∈ numeralChars then 3
  else if char = '"' then 4
  else if char = '[' then 5
  else if char = '{' then 6
  else 7

/-- The kind of a content. -/
def kind : Content → Nat
  | .null => 0
  | .boolean true => 1
  | .boolean false => 2
  | .number _ => 3
  | .string _ => 4
  | .array _ => 5
  | .object _ => 6

theorem kind_lt (content : Content) : content.kind < 7 := by
  cases content with
  | boolean value => cases value <;> decide
  | _ => simp [kind]

/-- The first character of a content tells its kind. -/
theorem render_head (content : Content) :
    ∃ first rest, content.render = first :: rest ∧ kindOf first = content.kind := by
  cases content with
  | null => exact ⟨_, _, rfl, rfl⟩
  | boolean value =>
    cases value with
    | true => exact ⟨_, _, rfl, rfl⟩
    | false => exact ⟨_, _, rfl, rfl⟩
  | number numeral =>
    cases shape : numeral.text.toList with
    | nil => exact absurd shape numeral.nonempty
    | cons first rest =>
      have isNumeral : first ∈ numeralChars := numeral.numeric first (shape ▸ mem_cons_self)
      refine ⟨first, rest, shape, ?_⟩
      have each : (numeralChars.all fun char => kindOf char = 3) = true := by decide
      exact of_decide_eq_true (all_eq_true.mp each first isNumeral)
  | string text => exact ⟨_, _, rfl, rfl⟩
  | array elements =>
    cases elements with
    | nil => exact ⟨_, _, rfl, rfl⟩
    | cons first rest => exact ⟨_, _, rfl, rfl⟩
  | object members =>
    cases members with
    | nil => exact ⟨_, _, rfl, rfl⟩
    | cons member rest => exact ⟨_, _, rfl, rfl⟩

/-! ## Reading a quoted string back -/

/-- The value of a hexadecimal digit. -/
def hexValue (char : Char) : Nat := if char.toNat < 58 then char.toNat - 48 else char.toNat - 87

/-- The character that some characters begin with, escaped. -/
def unescape : List Char → Option (Char × List Char)
  | '\\' :: 'b' :: rest => some (Char.ofNat 8, rest)
  | '\\' :: 'f' :: rest => some (Char.ofNat 12, rest)
  | '\\' :: 'n' :: rest => some ('\n', rest)
  | '\\' :: 'r' :: rest => some ('\r', rest)
  | '\\' :: 't' :: rest => some ('\t', rest)
  | '\\' :: 'u' :: '0' :: '0' :: high :: low :: rest =>
    some (Char.ofNat (hexValue high * 16 + hexValue low), rest)
  | '\\' :: char :: rest => some (char, rest)
  | char :: rest => some (char, rest)
  | [] => none

variable (char : Char) (elements : List Content) (members : List (String × Content))

/-- An escaped character reads back. -/
theorem unescape_escape (rest : List Char) :
    unescape (Json.escape char ++ rest) = some (char, rest) := by
  have isChar (n : Nat) (isCode : char.toNat = n) : char = Char.ofNat n := by
    rw [← isCode, Char.ofNat_toNat]
  unfold Json.escape
  split_ifs with isQuote isBackslash is8 is12 isNewline isReturn isTab isControl
  · subst isQuote
    rfl
  · subst isBackslash
    rfl
  · rw [isChar 8 is8]
    rfl
  · rw [isChar 12 is12]
    rfl
  · subst isNewline
    rfl
  · subst isReturn
    rfl
  · subst isTab
    rfl
  · have digits :
        ∀ code < 32,
          hexValue (Json.hexDigit (code / 16)) * 16 +
            hexValue (Json.hexDigit (code % 16)) = code := by
      decide
    simp only [cons_append, nil_append, unescape]
    rw [digits _ isControl, Char.ofNat_toNat]
  · rw [singleton_append]
    unfold unescape
    split <;> simp_all

variable {rest rest' : List Char}

/-- Escaped characters are told apart, whatever follows them. -/
theorem escape_append_inj {char char' : Char}
    (same : Json.escape char ++ rest = Json.escape char' ++ rest') :
    char = char' ∧ rest = rest' := by
  have read := congrArg unescape same
  rw [unescape_escape, unescape_escape, Option.some.injEq, Prod.mk.injEq] at read
  exact read

/-- No escaped character ends a string. -/
theorem escape_append_ne_quote (rest rest' : List Char) :
    Json.escape char ++ rest ≠ '"' :: rest' := by
  intro same
  unfold Json.escape at same
  split_ifs at same <;> simp_all

/-- Quoted strings are told apart, whatever follows them. -/
theorem quoteChars_append_inj {text text' : String}
    (same : quoteChars text ++ rest = quoteChars text' ++ rest') :
    text = text' ∧ rest = rest' := by
  have inner
      (chars chars' : List Char)
      (same :
        chars.flatMap Json.escape ++ '"' :: rest = chars'.flatMap Json.escape ++ '"' :: rest') :
      chars = chars' ∧ rest = rest' := by
    induction chars generalizing chars' with
    | nil =>
      cases chars' with
      | nil => simpa using same
      | cons char' later' =>
        rw [flatMap_nil, nil_append, flatMap_cons, append_assoc] at same
        exact absurd same.symm (escape_append_ne_quote _ _ _)
    | cons char later ih =>
      cases chars' with
      | nil =>
        rw [flatMap_nil, nil_append, flatMap_cons, append_assoc] at same
        exact absurd same (escape_append_ne_quote _ _ _)
      | cons char' later' =>
        simp only [flatMap_cons, append_assoc] at same
        obtain ⟨rfl, laterSame⟩ := escape_append_inj same
        obtain ⟨rfl, restSame⟩ := ih later' laterSame
        exact ⟨rfl, restSame⟩
  simp only [quoteChars, cons_append, append_assoc,
    nil_append, List.cons.injEq, true_and] at same
  obtain ⟨sameChars, restSame⟩ := inner _ _ same
  exact ⟨String.toList_inj.mp sameChars, restSame⟩

/-! ## Contents are told apart by their texts -/

/-- What may follow a value: nothing, a comma or a closing bracket. -/
def Delimited (rest : List Char) : Prop := ∀ first ∈ rest.head?, first ∈ [',', ']', '}']

/-- Numerals are told apart, whatever delimiter follows them. -/
theorem numeral_append_inj {numeral numeral' : Numeral} (delimited : Delimited rest)
    (delimited' : Delimited rest')
    (same : numeral.text.toList ++ rest = numeral'.text.toList ++ rest') :
    numeral = numeral' ∧ rest = rest' := by
  have stops {rest : List Char} (delimited : Delimited rest) :
      rest.takeWhile (fun char => decide (char ∈ numeralChars)) = [] := by
    cases rest with
    | nil => rfl
    | cons first later =>
      have isDelimiter := delimited first rfl
      have each : ([',', ']', '}'].all fun char => char ∉ numeralChars) = true := by decide
      simp [of_decide_eq_true (all_eq_true.mp each first isDelimiter)]
  have whole (numeral : Numeral) {rest : List Char}
      (delimited : Delimited rest) :
      (numeral.text.toList ++ rest).takeWhile
          (fun char => decide (char ∈ numeralChars)) =
        numeral.text.toList := by
    rw [takeWhile_append_of_pos (by simpa using numeral.numeric),
      stops delimited, append_nil]
  have sameText : numeral.text.toList = numeral'.text.toList := by
    rw [← whole numeral delimited, same, whole numeral' delimited']
  refine ⟨?_, ?_⟩
  · cases numeral
    cases numeral'
    simp only [Numeral.mk.injEq]
    exact String.toList_inj.mp sameText
  · rw [sameText] at same
    exact append_cancel_left same

/-- Equal texts begin values of one kind. -/
theorem kind_eq_of_render {content content' : Content}
    (same : content.render ++ rest = content'.render ++ rest') :
    content.kind = content'.kind := by
  obtain ⟨first, later, shape, isKind⟩ := render_head content
  obtain ⟨first', later', shape', isKind'⟩ := render_head content'
  rw [shape, shape', cons_append, cons_append, List.cons.injEq] at same
  rw [← isKind, ← isKind', same.1]

/-- No value begins with the bracket that ends an array. -/
theorem render_append_ne_bracket (content : Content) (rest rest' : List Char) :
    content.render ++ rest ≠ ']' :: rest' := by
  intro same
  obtain ⟨first, later, shape, isKind⟩ := render_head content
  rw [shape, cons_append, List.cons.injEq] at same
  have kind := kind_lt content
  rw [← isKind, same.1] at kind
  exact absurd kind (by decide)

theorem delimited_elements (rest : List Char) :
    Delimited (renderElements elements ++ ']' :: rest) := by
  cases elements with
  | nil => simp [Delimited, renderElements]
  | cons element later => simp [Delimited, renderElements]

theorem delimited_members (rest : List Char) :
    Delimited (renderMembers members ++ '}' :: rest) := by
  cases members with
  | nil => simp [Delimited, renderMembers]
  | cons member later =>
    obtain ⟨name, value⟩ := member
    simp [Delimited, renderMembers]

mutual

/-- Contents are told apart, whatever delimiter follows them. -/
theorem render_append_inj (content : Content) :
    ∀ {content' : Content} {rest rest' : List Char},
      Delimited rest →
      Delimited rest' →
      content.render ++ rest = content'.render ++ rest' →
      content = content' ∧ rest = rest' := by
  intro content' rest rest' delimited delimited' same
  have sameKind := kind_eq_of_render same
  match content with
  | .null =>
    cases content' with
    | null => simpa [render] using same
    | boolean value => cases value <;> cases sameKind
    | _ => cases sameKind
  | .boolean value =>
    cases content' with
    | boolean value' =>
      cases value <;> cases value'
      · exact ⟨rfl, append_cancel_left same⟩
      · cases sameKind
      · cases sameKind
      · exact ⟨rfl, append_cancel_left same⟩
    | _ => cases value <;> cases sameKind
  | .number numeral =>
    cases content' with
    | number numeral' =>
      obtain ⟨rfl, restSame⟩ := numeral_append_inj delimited delimited' same
      exact ⟨rfl, restSame⟩
    | boolean value => cases value <;> cases sameKind
    | _ => cases sameKind
  | .string text =>
    cases content' with
    | string text' =>
      obtain ⟨rfl, restSame⟩ := quoteChars_append_inj same
      exact ⟨rfl, restSame⟩
    | boolean value => cases value <;> cases sameKind
    | _ => cases sameKind
  | .array [] =>
    cases content' with
    | array elements' =>
      cases elements' with
      | nil => exact ⟨rfl, append_cancel_left same⟩
      | cons first' later' =>
        simp only [render, cons_append, append_assoc,
          List.cons.injEq, true_and, nil_append] at same
        exact absurd same.symm (render_append_ne_bracket _ _ _)
    | boolean value => cases value <;> cases sameKind
    | _ => cases sameKind
  | .array (first :: later) =>
    cases content' with
    | array elements' =>
      cases elements' with
      | nil =>
        simp only [render, cons_append, append_assoc,
          List.cons.injEq, true_and, nil_append] at same
        exact absurd same (render_append_ne_bracket _ _ _)
      | cons first' later' =>
        simp only [render, cons_append, append_assoc,
          List.cons.injEq, true_and, nil_append] at same
        obtain ⟨rfl, laterSame⟩ :=
          render_append_inj first (delimited_elements later rest)
            (delimited_elements later' rest') same
        obtain ⟨rfl, restSame⟩ := renderElements_append_inj later laterSame
        exact ⟨rfl, restSame⟩
    | boolean value => cases value <;> cases sameKind
    | _ => cases sameKind
  | .object [] =>
    cases content' with
    | object members' =>
      cases members' with
      | nil => exact ⟨rfl, append_cancel_left same⟩
      | cons member' later' =>
        obtain ⟨name', value'⟩ := member'
        simp [render, quoteChars] at same
    | boolean value => cases value <;> cases sameKind
    | _ => cases sameKind
  | .object ((name, value) :: later) =>
    cases content' with
    | object members' =>
      cases members' with
      | nil => simp [render, quoteChars] at same
      | cons member' later' =>
        obtain ⟨name', value'⟩ := member'
        simp only [render, cons_append, append_assoc,
          List.cons.injEq, true_and, nil_append] at same
        obtain ⟨rfl, valueSame⟩ := quoteChars_append_inj same
        rw [List.cons.injEq] at valueSame
        obtain ⟨rfl, laterSame⟩ :=
          render_append_inj value (delimited_members later rest)
            (delimited_members later' rest') valueSame.2
        obtain ⟨rfl, restSame⟩ := renderMembers_append_inj later laterSame
        exact ⟨rfl, restSame⟩
    | boolean value => cases value <;> cases sameKind
    | _ => cases sameKind

theorem renderElements_append_inj (elements : List Content) :
    ∀ {elements' : List Content} {rest rest' : List Char},
      renderElements elements ++ ']' :: rest = renderElements elements' ++ ']' :: rest' →
      elements = elements' ∧ rest = rest' := by
  intro elements' rest rest' same
  match elements, elements' with
  | [], [] => simpa [renderElements] using same
  | [], _ :: _ => simp [renderElements] at same
  | _ :: _, [] => simp [renderElements] at same
  | first :: later, first' :: later' =>
    simp only [renderElements, cons_append, append_assoc,
      List.cons.injEq, true_and] at same
    obtain ⟨rfl, laterSame⟩ :=
      render_append_inj first (delimited_elements later rest) (delimited_elements later' rest') same
    obtain ⟨rfl, restSame⟩ := renderElements_append_inj later laterSame
    exact ⟨rfl, restSame⟩

theorem renderMembers_append_inj (members : List (String × Content)) :
    ∀ {members' : List (String × Content)} {rest rest' : List Char},
      renderMembers members ++ '}' :: rest = renderMembers members' ++ '}' :: rest' →
      members = members' ∧ rest = rest' := by
  intro members' rest rest' same
  match members, members' with
  | [], [] => simpa [renderMembers] using same
  | [], (_, _) :: _ => simp [renderMembers] at same
  | (_, _) :: _, [] => simp [renderMembers] at same
  | (name, value) :: later, (name', value') :: later' =>
    simp only [renderMembers, cons_append, append_assoc,
      List.cons.injEq, true_and] at same
    obtain ⟨rfl, valueSame⟩ := quoteChars_append_inj same
    rw [List.cons.injEq] at valueSame
    obtain ⟨rfl, laterSame⟩ :=
      render_append_inj value (delimited_members later rest)
        (delimited_members later' rest') valueSame.2
    obtain ⟨rfl, restSame⟩ := renderMembers_append_inj later laterSame
    exact ⟨rfl, restSame⟩

end

/-! ## Lists of texts behind commas -/

theorem renderElements_eq :
    renderElements elements = elements.flatMap fun element => ',' :: element.render := by
  induction elements with
  | nil => rfl
  | cons element rest ih => rw [renderElements, ih, flatMap_cons, cons_append]

theorem renderMembers_eq :
    renderMembers members =
      members.flatMap fun member =>
        ',' :: (quoteChars member.1 ++ ':' :: member.2.render) := by
  induction members with
  | nil => rfl
  | cons member rest ih =>
    obtain ⟨name, value⟩ := member
    simp [renderMembers, ih]

theorem intercalate_comma (first : List Char) (rest : List (List Char)) :
    [','].intercalate (first :: rest) = first ++ rest.flatMap fun text => ',' :: text := by
  induction rest generalizing first with
  | nil => simp
  | cons next later ih =>
    rw [intercalate_cons_cons, ih]
    simp

end Content

namespace Json

mutual

/-- What a value says. -/
def content : Json → Content
  | .null => .null
  | .boolean value => .boolean value
  | .number numeral => .number numeral
  | .string text => .string text
  | .array _ elements => .array (contents elements)
  | .object _ members => .object (sortByName (entries (contentMembers members)))

/-- What the elements of an array say. -/
def contents : List Json → List Content
  | [] => []
  | element :: rest => content element :: contents rest

/-- What the members of an object say. -/
def contentMembers : List (String × Json) → List (String × Content)
  | [] => []
  | (name, value) :: rest => (name, content value) :: contentMembers rest

end

theorem contents_eq (elements : List Json) : contents elements = elements.map content := by
  induction elements with
  | nil => rfl
  | cons element rest ih => rw [contents, ih, map_cons]

variable {Value Value' : Type}

variable (change : Value → Value') (members : List (String × Value))

/-- Mapping the values of an object maps its entries. -/
theorem entries_map :
    entries (members.map fun member => (member.1, change member.2)) =
    (entries members).map fun member => (member.1, change member.2) := by
  induction members with
  | nil => rfl
  | cons member rest ih =>
    obtain ⟨name, value⟩ := member
    simp only [map_cons, entries, ih, filter_map]
    rfl

/-- Sorting by name does not look at the values. -/
theorem sortByName_map :
    sortByName (members.map fun member => (member.1, change member.2)) =
    (sortByName members).map fun member =>
        (member.1, change member.2) := by
  unfold sortByName
  rw [map_mergeSort]
  intro _ _ _ _
  rfl

theorem toList_quote (text : String) : (quote text).toList = Content.quoteChars text := by
  simp [quote, Content.quoteChars]

mutual

/-- The key-sorted serialisation is the text of the content. -/
theorem canonical_eq (value : Json) : canonical value = String.ofList value.content.render := by
  match value with
  | .null => rfl
  | .boolean true => rfl
  | .boolean false => rfl
  | .number numeral => simp [canonical, content, Content.render]
  | .string text => simp [canonical, content, Content.render, quote, Content.quoteChars]
  | .array identity elements =>
    rw [canonical, canonicalElements_eq elements]
    apply String.toList_inj.mp
    rw [content]
    cases contents elements with
    | nil => rfl
    | cons first rest =>
      simp [String.toList_intercalate, Content.intercalate_comma, Content.render,
        Content.renderElements_eq, flatMap_map, Function.comp_def]
  | .object identity members =>
    rw [canonical, canonicalMembers_eq members,
      entries_map fun value : Content => String.ofList value.render,
      sortByName_map fun value : Content => String.ofList value.render]
    apply String.toList_inj.mp
    rw [content]
    cases sortByName (entries (contentMembers members)) with
    | nil => rfl
    | cons first rest =>
      simp [String.toList_intercalate, Content.intercalate_comma, Content.render,
        Content.renderMembers_eq, flatMap_map, Function.comp_def, toList_quote]

theorem canonicalElements_eq (elements : List Json) :
    canonicalElements elements =
      (contents elements).map fun element =>
        String.ofList element.render := by
  match elements with
  | [] => rfl
  | element :: rest =>
    rw [canonicalElements, canonical_eq element, canonicalElements_eq rest]
    rfl

theorem canonicalMembers_eq (members : List (String × Json)) :
    canonicalMembers members =
      (contentMembers members).map fun member =>
        (member.1, String.ofList member.2.render) := by
  match members with
  | [] => rfl
  | (name, value) :: rest =>
    rw [canonicalMembers, canonical_eq value, canonicalMembers_eq rest]
    rfl

end

/-- Serialisations are the same exactly where the contents are. -/
theorem canonical_eq_iff (a b : Json) : canonical a = canonical b ↔ a.content = b.content := by
  rw [canonical_eq, canonical_eq]
  constructor
  · intro same
    have chars := congrArg String.toList same
    rw [String.toList_ofList, String.toList_ofList] at chars
    have delimited : Content.Delimited [] := by simp [Content.Delimited]
    exact (Content.render_append_inj a.content delimited delimited (congrArg (· ++ []) chars)).1
  · intro same
    rw [same]

end Json

end IyaSts
