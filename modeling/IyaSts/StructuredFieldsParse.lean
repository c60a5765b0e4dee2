import IyaSts.StructuredFields

namespace IyaSts.StructuredFields

/-!
# Structured Field Values, parsed: parameters, lists and dictionaries

The loops over parameters and members.  A round of each ends with less to
read, which is why the loop does.
-/

open Fallible

/-! ## Parameters -/

/-- `indexOfKey`. -/
def indexOfKey (pairs : List (String × α)) (key : String) : Option Nat :=
  pairs.findIdx? fun pair => pair.1 = key

/-- A value put at its key's place, or at the end when the key is new. -/
def put (pairs : List (String × α)) (key : String) (value : α) : List (String × α) :=
  match indexOfKey pairs key with
  | some place => pairs.modify place fun pair => (pair.1, value)
  | none => pairs ++ [(key, value)]

/-- One parameter, after its semicolon. -/
def parseParameterAt (cur : Cursor) :
    Except String ((String × BareItem) × Cursor) := do
  let (key, cur) ← parseKeyAt cur.discardSP
  if cur.peek = some '=' then
    let (value, cur) ← parseBareItemAt (cur.advance 1)
    return ((key, value), cur)
  else
    return ((key, .boolean true), cur)

theorem parseParameterAt_shortens (cur : Cursor) : Shortens cur (parseParameterAt cur) := by
  intro pair next isRead
  unfold parseParameterAt at isRead
  rw [bind_eq_ok_iff] at isRead
  obtain ⟨⟨key, after⟩, keyRead, isRead⟩ := isRead
  have skipped := cur.skipWhile_le fun c => c = ' '
  have keyShorter := parseKeyAt_shortens _ keyRead
  rw [Cursor.discardSP] at keyShorter
  simp only at isRead
  split at isRead
  · rw [bind_eq_ok_iff] at isRead
    obtain ⟨⟨value, last⟩, valueRead, isRead⟩ := isRead
    rw [pure_eq_ok_iff, Prod.mk.injEq] at isRead
    have valueShorter := parseBareItemAt_shortens _ valueRead
    have sign := length_advance_le after 1
    rw [← isRead.2]
    simp only at *
    omega
  · rw [pure_eq_ok_iff, Prod.mk.injEq] at isRead
    rw [← isRead.2]
    omega

/-- The loop of `parseParametersAt`. -/
def parametersFrom (params : Parameters) (cur : Cursor) : Except String (Parameters × Cursor) :=
  if _isNext : cur.peek = some ';' then
    match _isRead : parseParameterAt (cur.advance 1) with
    | .error error => .error error
    | .ok ((key, value), next) => parametersFrom (put params key value) next
  else
    .ok (params, cur)
  termination_by cur.rest.length
  decreasing_by
    exact Nat.lt_trans (parseParameterAt_shortens _ _isRead) (length_advance_of_peek _isNext)

/-- `parseParametersAt`. -/
def parseParametersAt (cur : Cursor) : Except String (Parameters × Cursor) := parametersFrom [] cur


variable {cur next : Cursor}

theorem parametersFrom_le {params params' : Parameters}
    (isRead : parametersFrom params cur = .ok (params', next)) :
    next.rest.length ≤ cur.rest.length := by
  fun_induction parametersFrom params cur with
  | case1 => cases isRead
  | case2 params cur isNext key value after parameterRead
      ih =>
    have restLe := ih isRead
    have shorter := parseParameterAt_shortens _ parameterRead
    have first := length_advance_of_peek isNext
    omega
  | case3 =>
    rw [Except.ok.injEq, Prod.mk.injEq] at isRead
    rw [isRead.2]

/-! ## Items -/

/-- `parseItemAt`. -/
def parseItemAt (cur : Cursor) : Except String (Item × Cursor) := do
  let (bare, cur) ← parseBareItemAt cur
  let (params, cur) ← parseParametersAt cur
  return ({ bare, params }, cur)

theorem parseItemAt_shortens (cur : Cursor) : Shortens cur (parseItemAt cur) := by
  intro item next isRead
  unfold parseItemAt at isRead
  rw [bind_eq_ok_iff] at isRead
  obtain ⟨⟨bare, after⟩, bareRead, isRead⟩ := isRead
  rw [bind_eq_ok_iff] at isRead
  obtain ⟨⟨params, last⟩, paramsRead, isRead⟩ := isRead
  rw [pure_eq_ok_iff, Prod.mk.injEq] at isRead
  rw [← isRead.2]
  exact Nat.lt_of_le_of_lt (parametersFrom_le paramsRead) (parseBareItemAt_shortens cur bareRead)

/-! ## Inner Lists -/

/-- The loop of `parseInnerListAt`. -/
def innerListFrom (innerList : List Item) (cur : Cursor) : Except String (InnerList × Cursor) :=
  if cur.rest = [] then
    fail ("the Inner List is not closed with \")\" (section 4.2.1.2 step " ++ "4).")
  else if cur.discardSP.peek = some ')' then do
    let (params, cur) ← parseParametersAt (cur.discardSP.advance 1)
    return ({ value := innerList, params }, cur)
  else
    match _isRead : parseItemAt cur.discardSP with
    | .error error => .error error
    | .ok (item, next) =>
      if next.peek ≠ some ' ' ∧ next.peek ≠ some ')' then
        fail ("Inner List items must be separated by a space; found \"" ++
          shown next.peek ++ "\" at offset " ++ toString next.i ++
          " (section 4.2.1.2 step 3.5).")
      else
        innerListFrom (innerList ++ [item]) next
  termination_by cur.rest.length
  decreasing_by
    exact Nat.lt_of_lt_of_le (parseItemAt_shortens _ _isRead) (cur.skipWhile_le _)

/-- `parseInnerListAt`. -/
def parseInnerListAt (cur : Cursor) : Except String (InnerList × Cursor) :=
  if cur.peek ≠ some '(' then
    fail "an Inner List must begin with \"(\" (section 4.2.1.2 step 1)."
  else
    innerListFrom [] (cur.advance 1)


theorem innerListFrom_le {innerList : List Item} {value : InnerList}
    (isRead : innerListFrom innerList cur = .ok (value, next)) :
    next.rest.length ≤ cur.rest.length := by
  have skipped (cur : Cursor) : cur.discardSP.rest.length ≤ cur.rest.length := cur.skipWhile_le _
  fun_induction innerListFrom innerList cur with
  | case1 => cases isRead
  | case2 innerList cur notEmpty isClosed =>
    rw [bind_eq_ok_iff] at isRead
    obtain ⟨⟨params, last⟩, paramsRead, isRead⟩ := isRead
    rw [pure_eq_ok_iff, Prod.mk.injEq] at isRead
    rw [← isRead.2]
    have paramsLe := parametersFrom_le paramsRead
    have close := length_advance_le cur.discardSP 1
    have spaces := skipped cur
    omega
  | case3 => cases isRead
  | case4 => cases isRead
  | case5 innerList cur notEmpty notClosed item after itemRead isSeparated
      ih =>
    have restLe := ih isRead
    have shorter := parseItemAt_shortens _ itemRead
    have spaces := skipped cur
    omega

theorem parseInnerListAt_shortens (cur : Cursor) : Shortens cur (parseInnerListAt cur) := by
  intro value next isRead
  unfold parseInnerListAt at isRead
  split at isRead
  · cases isRead
  rename_i isOpened
  exact Nat.lt_of_le_of_lt (innerListFrom_le isRead) (length_advance_of_peek (not_not.mp isOpened))

/-! ## Members -/

/-- `parseItemOrInnerListAt`. -/
def parseItemOrInnerListAt (cur : Cursor) : Except String (Member × Cursor) :=
  if cur.peek = some '(' then
    (parseInnerListAt cur).map fun (innerList, cur) => (.innerList innerList, cur)
  else
    (parseItemAt cur).map fun (item, cur) => (.item item, cur)

theorem parseItemOrInnerListAt_shortens (cur : Cursor) :
    Shortens cur (parseItemOrInnerListAt cur) := by
  intro member next isRead
  unfold parseItemOrInnerListAt at isRead
  split at isRead
  · cases innerRead : parseInnerListAt cur with
    | error error =>
      rw [innerRead] at isRead
      cases isRead
    | ok result =>
      rw [innerRead] at isRead
      cases isRead
      exact parseInnerListAt_shortens cur innerRead
  · cases itemRead : parseItemAt cur with
    | error error =>
      rw [itemRead] at isRead
      cases isRead
    | ok result =>
      rw [itemRead] at isRead
      cases isRead
      exact parseItemAt_shortens cur itemRead

/-- What separates two members, by the sections a message names. -/
structure Separated where
  kind : String
  missing : String
  trailing : String

/-- The separation of a List's members. -/
def Separated.list : Separated where
  kind := "List"
  missing := " (section 4.2.1 step 2.4)."
  trailing := " (section 4.2.1 step 2.6)."

/-- The separation of a Dictionary's members. -/
def Separated.dictionary : Separated where
  kind := "Dictionary"
  missing := " (section 4.2.2 step 2.8)."
  trailing := " (section 4.2.2 step 2.10)."

/-- After a member: the end, or the comma before the next member. -/
def afterMember (separated : Separated) (cur : Cursor) : Except String (Option Cursor) :=
  let cur := cur.discardOWS
  if cur.rest = [] then
    return none
  else if cur.peek ≠ some ',' then
    fail ("expected \",\" between " ++ separated.kind ++
      " members at offset " ++ toString cur.i ++ ", found \"" ++
      shown cur.peek ++ "\"" ++ separated.missing)
  else
    let next := (cur.advance 1).discardOWS
    if next.rest = [] then
      fail ("the " ++ separated.kind ++ " ends with a trailing comma" ++ separated.trailing)
    else
      return some next

theorem afterMember_le {separated : Separated}
    (isRead : afterMember separated cur = .ok (some next)) :
    next.rest.length ≤ cur.rest.length := by
  unfold afterMember at isRead
  simp only at isRead
  split at isRead
  · cases isRead
  split at isRead
  · cases isRead
  split at isRead
  · cases isRead
  rw [pure_eq_ok_iff, Option.some.injEq] at isRead
  rw [← isRead]
  have before := cur.skipWhile_le fun c => c = ' ' || c = '\t'
  have comma := length_advance_le cur.discardOWS 1
  have after := (cur.discardOWS.advance 1).skipWhile_le fun c => c = ' ' || c = '\t'
  rw [← Cursor.discardOWS] at before after
  omega

/-- The end of the text, where the members end. -/
def Cursor.atEnd (cur : Cursor) : Cursor := cur.discardOWS

/-- The loop of `parseListAt`. -/
def listFrom (members : List Member) (cur : Cursor) : Except String (List Member × Cursor) :=
  if cur.rest = [] then
    .ok (members, cur)
  else
    match _isRead : parseItemOrInnerListAt cur with
    | .error error => .error error
    | .ok (member, next) =>
      match _isAfter : afterMember .list next with
      | .error error => .error error
      | .ok none => .ok (members ++ [member], next.atEnd)
      | .ok (some next') => listFrom (members ++ [member]) next'
  termination_by cur.rest.length
  decreasing_by
    exact Nat.lt_of_le_of_lt (afterMember_le _isAfter) (parseItemOrInnerListAt_shortens _ _isRead)

/-- `parseListAt`. -/
def parseListAt (cur : Cursor) : Except String (List Member × Cursor) := listFrom [] cur

/-- A round of the loop of `parseListAt`. -/
theorem listFrom_eq (members : List Member) (cur : Cursor) :
    listFrom members cur =
      (if cur.rest = [] then
        .ok (members, cur)
      else do
        let (member, next) ← parseItemOrInnerListAt cur
        match ← afterMember .list next with
        | none => .ok (members ++ [member], next.atEnd)
        | some next' => listFrom (members ++ [member]) next') := by
  rw [listFrom]
  split
  · rfl
  split
  · rename_i error isRead
    rw [isRead]
    rfl
  · rename_i member next isRead
    rw [isRead]
    split <;> rename_i isAfter <;> simp only [bind, Except.bind, isAfter]

/-- One member of a Dictionary. -/
def parseMemberAt (cur : Cursor) :
    Except String ((String × Member) × Cursor) := do
  let (thisKey, cur) ← parseKeyAt cur
  if cur.peek = some '=' then
    let (member, cur) ← parseItemOrInnerListAt (cur.advance 1)
    return ((thisKey, member), cur)
  else
    let (params, cur) ← parseParametersAt cur
    return ((thisKey, .item { bare := .boolean true, params }), cur)

theorem parseMemberAt_shortens (cur : Cursor) : Shortens cur (parseMemberAt cur) := by
  intro pair next isRead
  unfold parseMemberAt at isRead
  rw [bind_eq_ok_iff] at isRead
  obtain ⟨⟨key, after⟩, keyRead, isRead⟩ := isRead
  have keyShorter := parseKeyAt_shortens _ keyRead
  simp only at isRead
  split at isRead
  · rw [bind_eq_ok_iff] at isRead
    obtain ⟨⟨member, last⟩, memberRead, isRead⟩ := isRead
    rw [pure_eq_ok_iff, Prod.mk.injEq] at isRead
    have memberShorter := parseItemOrInnerListAt_shortens _ memberRead
    have sign := length_advance_le after 1
    rw [← isRead.2]
    simp only at *
    omega
  · rw [bind_eq_ok_iff] at isRead
    obtain ⟨⟨params, last⟩, paramsRead, isRead⟩ := isRead
    rw [pure_eq_ok_iff, Prod.mk.injEq] at isRead
    have paramsLe := parametersFrom_le paramsRead
    rw [← isRead.2]
    simp only at *
    omega

/-- A Dictionary, and the repeated keys `onDuplicate` is told. -/
structure Dictionary where
  members : List (String × Member)
  duplicates : List String
  deriving DecidableEq

/-- A member put into a Dictionary. -/
def Dictionary.put (dictionary : Dictionary) (key : String) (member : Member) : Dictionary where
  members := StructuredFields.put dictionary.members key member
  duplicates :=
    dictionary.duplicates ++
      if (indexOfKey dictionary.members key).isSome then [key] else []

/-- The loop of `parseDictionaryAt`. -/
def dictionaryFrom (dictionary : Dictionary) (cur : Cursor) : Except String (Dictionary × Cursor) :=
  if cur.rest = [] then
    .ok (dictionary, cur)
  else
    match _isRead : parseMemberAt cur with
    | .error error => .error error
    | .ok ((key, member), next) =>
      match _isAfter : afterMember .dictionary next with
      | .error error => .error error
      | .ok none => .ok (dictionary.put key member, next.atEnd)
      | .ok (some next') => dictionaryFrom (dictionary.put key member) next'
  termination_by cur.rest.length
  decreasing_by
    exact Nat.lt_of_le_of_lt (afterMember_le _isAfter) (parseMemberAt_shortens _ _isRead)

/-- `parseDictionaryAt`. -/
def parseDictionaryAt (cur : Cursor) : Except String (Dictionary × Cursor) :=
  dictionaryFrom { members := [], duplicates := [] } cur

/-- A round of the loop of `parseDictionaryAt`. -/
theorem dictionaryFrom_eq (dictionary : Dictionary) (cur : Cursor) :
    dictionaryFrom dictionary cur =
      (if cur.rest = [] then
        .ok (dictionary, cur)
      else do
        let ((key, member), next) ← parseMemberAt cur
        match ← afterMember .dictionary next with
        | none => .ok (dictionary.put key member, next.atEnd)
        | some next' =>
          dictionaryFrom (dictionary.put key member) next') := by
  rw [dictionaryFrom]
  split
  · rfl
  split
  · rename_i error isRead
    rw [isRead]
    rfl
  · rename_i key member next isRead
    rw [isRead]
    split <;> rename_i isAfter <;> simp only [bind, Except.bind, isAfter]

/-! ## The top of the parser -/

/-- A parsed field, and the repeated keys `onDuplicate` is told. -/
structure Parsed where
  field : Field
  duplicates : List String
  deriving DecidableEq

/-- The field of one type that a cursor is at. -/
def parseFieldAt (fieldType : FieldType) (cur : Cursor) : Except String (Parsed × Cursor) :=
  match fieldType with
  | .list =>
    (parseListAt cur).map fun (members, cur) => ({ field := .list members, duplicates := [] }, cur)
  | .dictionary =>
    (parseDictionaryAt cur).map fun (dictionary, cur) =>
      ({ field := .dictionary dictionary.members
         duplicates := dictionary.duplicates }, cur)
  | .item =>
    (parseItemAt cur).map fun (item, cur) => ({ field := .item item, duplicates := [] }, cur)

/-- `parseTop`, of a string. -/
def parseTop (input : String) (fieldType : FieldType) : Except String Parsed :=
  match input.toList.findIdx? fun c => 0x7f < c.toNat with
  | some k =>
    fail ("the field value contains a character outside ASCII at " ++
      "offset " ++ toString k ++ " (section 4.2 step 1).")
  | none => do
    let start : Cursor := { rest := input.toList, i := 0 }
    let (output, cur) ← parseFieldAt fieldType start.discardSP
    let cur := cur.discardSP
    if cur.rest ≠ [] then
      fail ("unexpected \"" ++ shown cur.peek ++ "\" at offset " ++
        toString cur.i ++ " after the " ++ fieldType.text ++
        " ended (section 4.2 step 7).")
    else
      return output

/-- `parseList`, `parseDictionary` or `parseItem`. -/
def parse (fieldType : FieldType) (input : String) : Except String Field :=
  (parseTop input fieldType).map Parsed.field

end IyaSts.StructuredFields
