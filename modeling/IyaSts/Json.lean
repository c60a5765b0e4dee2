import IyaSts.Fallible
import IyaSts.JsObject
import Mathlib.Algebra.Group.Nat.Defs
import Mathlib.Data.List.Basic

namespace IyaSts

/-!
# JSON values as JavaScript holds them

An object is an association list of which the first binding of a name counts,
so every list is an object.  Arrays and objects carry the identity strict
equality compares; a number is known by the text `JSON.stringify` gives it.
-/

open List

/-- The characters a number is written with. -/
def numeralChars : List Char := "0123456789-+.e".toList

/-- The text of a number. -/
structure Numeral where
  text : String
  nonempty : text.toList ≠ []
  numeric : ∀ char ∈ text.toList, char ∈ numeralChars

/-- A JSON value. -/
inductive Json where
  | null
  | boolean (value : Bool)
  | number (numeral : Numeral)
  | string (text : String)
  | array (identity : Nat) (elements : List Json)
  | object (identity : Nat) (members : List (String × Json))

namespace Json

/-- The members of an object. -/
abbrev Members := List (String × Json)

/-- `a === b`. -/
def strictEqual : Json → Json → Bool
  | .null, .null => true
  | .boolean value, .boolean value' => value == value'
  | .number numeral, .number numeral' => numeral.text == numeral'.text
  | .string text, .string text' => text == text'
  | .array identity _, .array identity' _ => identity == identity'
  | .object identity _, .object identity' _ => identity == identity'
  | _, _ => false

/-- `list.indexOf(value) >= 0`. -/
def includes (list : List Json) (value : Json) : Bool :=
  list.any fun element => strictEqual element value

/-- The names and values of an object, each name once. -/
def entries {Value : Type} :
    List (String × Value) →
    List (String × Value)
  | [] => []
  | (name, value) :: rest => (name, value) :: (entries rest).filter fun member => member.1 ≠ name

/-- `Object.keys(object)`. -/
def keys (members : Members) : List String := (entries members).map Prod.fst

/-! ## The key-sorted serialisation -/

/-- The UTF-16 code units of a string. -/
def codeUnits (text : String) : List Nat :=
  text.toList.flatMap fun char =>
    if char.toNat < 0x10000 then
      [char.toNat]
    else
      [0xD800 + (char.toNat - 0x10000) / 0x400, 0xDC00 + (char.toNat - 0x10000) % 0x400]

/-- `names.sort()`, here of names with what they name. -/
def sortByName {Value : Type} (members : List (String × Value)) : List (String × Value) :=
  members.mergeSort fun first second => !decide (codeUnits second.1 < codeUnits first.1)

/-- A hexadecimal digit. -/
def hexDigit (digit : Nat) : Char := (Nat.digitChar digit)

/-- One character of a string, as `JSON.stringify` writes it. -/
def escape (char : Char) : List Char :=
  if char = '"' then
    ['\\', '"']
  else if char = '\\' then
    ['\\', '\\']
  else if char.toNat = 8 then
    ['\\', 'b']
  else if char.toNat = 12 then
    ['\\', 'f']
  else if char = '\n' then
    ['\\', 'n']
  else if char = '\r' then
    ['\\', 'r']
  else if char = '\t' then
    ['\\', 't']
  else if char.toNat < 0x20 then
    ['\\', 'u', '0', '0', hexDigit (char.toNat / 16), hexDigit (char.toNat % 16)]
  else
    [char]

/-- `JSON.stringify` of a string. -/
def quote (text : String) : String := String.ofList ('"' :: text.toList.flatMap escape ++ ['"'])

mutual

/-- A value as JSON with the keys of every object sorted. -/
def canonical : Json → String
  | .null => "null"
  | .boolean value => if value then "true" else "false"
  | .number numeral => numeral.text
  | .string text => quote text
  | .array _ elements => "[" ++ ",".intercalate (canonicalElements elements) ++ "]"
  | .object _ members =>
    "\x7b" ++
      ",".intercalate
        ((sortByName (entries (canonicalMembers members))).map
          fun member => quote member.1 ++ ":" ++ member.2) ++
      "\x7d"

/-- The elements of an array, each in canonical form. -/
def canonicalElements : List Json → List String
  | [] => []
  | element :: rest => canonical element :: canonicalElements rest

/-- The members of an object, each value in canonical form. -/
def canonicalMembers : List (String × Json) → List (String × String)
  | [] => []
  | (name, value) :: rest => (name, canonical value) :: canonicalMembers rest

end

/-! ## Other texts of a value -/

mutual

/-- `JSON.stringify(value)`. -/
def stringify : Json → String
  | .null => "null"
  | .boolean value => if value then "true" else "false"
  | .number numeral => numeral.text
  | .string text => quote text
  | .array _ elements => "[" ++ ",".intercalate (stringifyElements elements) ++ "]"
  | .object _ members =>
    "\x7b" ++
      ",".intercalate
        ((entries (stringifyMembers members)).map
          fun member => quote member.1 ++ ":" ++ member.2) ++
      "\x7d"

/-- The elements of an array, each as JSON. -/
def stringifyElements : List Json → List String
  | [] => []
  | element :: rest => stringify element :: stringifyElements rest

/-- The members of an object, each value as JSON. -/
def stringifyMembers : List (String × Json) → List (String × String)
  | [] => []
  | (name, value) :: rest => (name, stringify value) :: stringifyMembers rest

end

mutual

/-- `String(value)`, which throws on an object with a `toString` of its own. -/
def toText : Json → Option String
  | .null => some "null"
  | .boolean value => some (if value then "true" else "false")
  | .number numeral => some numeral.text
  | .string text => some text
  | .array _ elements => (elementTexts elements).map fun texts => ",".intercalate texts
  | .object _ members =>
    if (members.lookup "toString").isSome then
      none
    else
      some "[object Object]"

/-- What `elements.join(separator)` joins; `null` is the empty text. -/
def elementTexts : List Json → Option (List String)
  | [] => some []
  | .null :: rest => (elementTexts rest).map fun texts => "" :: texts
  | element :: rest => do
    let text ← toText element
    let texts ← elementTexts rest
    pure (text :: texts)

end

/-- The elements of an array; no other value has any. -/
def elements : Json → List Json
  | .array _ elements => elements
  | _ => []

/-- The members of an object; no other value has any. -/
def membersOf : Json → Option Members
  | .object _ members => some members
  | _ => none

/-- `Array.isArray(value)`. -/
def isArray : Json → Bool
  | .array _ _ => true
  | _ => false

/-! ## What each of these finds -/

variable {Value View Held Error : Type} {members : List (String × Value)}
    {step : Held → String × Value → Except Error Held} {held final : Held}

/-- An object's entries are what its names read as. -/
theorem mem_entries_iff (members : List (String × Value)) (name : String) (value : Value) :
    (name, value) ∈ entries members ↔ members.lookup name = some value := by
  induction members with
  | nil => simp [entries]
  | cons member rest ih =>
    obtain ⟨first, held⟩ := member
    by_cases isFirst : name = first
    · subst isFirst
      simp [entries, eq_comm]
    · have notFirst : (name == first) = false := by
        simpa using isFirst
      simp [entries, lookup_cons, notFirst, isFirst, ih]

/-- A name is a key exactly where it reads as something of the object's own. -/
theorem mem_keys_iff (members : Members) (name : String) :
    name ∈ keys members ↔ (members.lookup name).isSome = true := by
  simp only [keys, mem_map, Prod.exists, exists_and_right,
    exists_eq_right, mem_entries_iff, Option.isSome_iff_exists]

/-- Among distinct names, a name reads as the value it stands next to. -/
theorem lookup_eq_some_iff_mem (distinct : (members.map Prod.fst).Nodup) (name : String)
    (value : Value) :
    members.lookup name = some value ↔ (name, value) ∈ members := by
  induction members with
  | nil => simp
  | cons member rest ih =>
    obtain ⟨first, held⟩ := member
    simp only [map_cons, nodup_cons] at distinct
    by_cases isFirst : name = first
    · subst isFirst
      have notLater : (name, value) ∉ rest := fun isLater =>
        distinct.1 (mem_map_of_mem isLater)
      simp [notLater, eq_comm]
    · have notFirst : (name == first) = false := by
        simpa using isFirst
      simp [lookup_cons, notFirst, isFirst, ih distinct.2]

/-- An object's entries have distinct names. -/
theorem nodup_entries (members : List (String × Value)) :
    ((entries members).map Prod.fst).Nodup := by
  induction members with
  | nil => simp [entries]
  | cons member rest ih =>
    obtain ⟨first, held⟩ := member
    simp only [entries, map_cons, nodup_cons]
    refine ⟨?_, ?_⟩
    · simp
    · exact ih.sublist (filter_sublist.map Prod.fst)

/-- Leaving out some entries leaves the others as they read. -/
theorem lookup_filter_entries (members : List (String × Value)) (keep : String × Value → Bool)
    (name : String) (value : Value) :
    ((entries members).filter keep).lookup name = some value ↔
      members.lookup name = some value ∧ keep (name, value) = true := by
  rw [lookup_eq_some_iff_mem
      ((nodup_entries members).sublist (filter_sublist.map Prod.fst)),
    mem_filter, mem_entries_iff]

/-- Mapping the values of an object maps what its names read as. -/
theorem lookup_map_values {Value Value' : Type} (members : List (String × Value))
    (change : String → Value → Value') (name : String) :
    (members.map fun member =>
        (member.1, change member.1 member.2)).lookup name =
      (members.lookup name).map (change name) := by
  induction members with
  | nil => rfl
  | cons member rest ih =>
    obtain ⟨first, held⟩ := member
    by_cases isFirst : name = first
    · subst isFirst
      simp
    · have notFirst : (name == first) = false := by
        simpa using isFirst
      simpa [lookup_cons, notFirst] using ih

/-- An object made from names reads each as what was made of it. -/
theorem lookup_map_names (names : List String) (make : String → Value) (name : String) :
    (names.map fun made => (made, make made)).lookup name =
      if name ∈ names then some (make name) else none := by
  induction names with
  | nil => rfl
  | cons first rest ih =>
    by_cases isFirst : name = first
    · subst isFirst
      simp
    · have notFirst : (name == first) = false := by
        simpa using isFirst
      simpa [lookup_cons, notFirst, isFirst] using ih

/-- An object's entries read as the object does. -/
@[simp] theorem lookup_entries (members : List (String × Value)) (name : String) :
    (entries members).lookup name = members.lookup name := by
  apply Option.ext
  intro value
  rw [lookup_eq_some_iff_mem (nodup_entries members), mem_entries_iff]

/--
A loop over an object whose every round changes only what its own name shows
changes each name once, by its own round, and keeps what its rounds keep.
-/
theorem foldlM_each_keeping (Kept : Held → Prop) (look : Held → String → View)
    (Changes : String → Value → View → View → Prop) (distinct : (members.map Prod.fst).Nodup)
    (each :
      ∀ {held held' : Held} {name : String} {value : Value},
        (name, value) ∈ members →
        Kept held →
        step held (name, value) = .ok held' →
        Kept held' ∧
          (∀ other, other ≠ name → look held' other = look held other) ∧
            Changes name value (look held name) (look held' name))
    (kept : Kept held)
    (folds : members.foldlM step held = .ok final) :
    Kept final ∧
      ∀ name,
        (∀ value, members.lookup name = some value →
          Changes name value (look held name) (look final name)) ∧
          (members.lookup name = none → look final name = look held name) := by
  induction members generalizing held with
  | nil =>
    cases folds
    exact ⟨kept, fun _ => ⟨fun _ found => (nomatch found), fun _ => rfl⟩⟩
  | cons member rest ih =>
    obtain ⟨first, value⟩ := member
    rw [map_cons, nodup_cons] at distinct
    rw [foldlM_cons, Fallible.bind_eq_ok_iff] at folds
    obtain ⟨next, stepped, folds⟩ := folds
    obtain ⟨keptNext, others, changed⟩ := each mem_cons_self kept stepped
    obtain ⟨keptFinal, later⟩ :=
      ih distinct.2
        (fun isLater => each (mem_cons_of_mem _ isLater)) keptNext
        folds
    refine ⟨keptFinal, fun name => ?_⟩
    by_cases isFirst : name = first
    · subst isFirst
      have notLater : rest.lookup name = none := by
        rw [lookup_eq_none_iff]
        intro other isOther
        have : other.1 ≠ name := fun same => distinct.1 (mem_map.mpr ⟨other, isOther, same⟩)
        simpa using Ne.symm this
      simp only [lookup_cons, beq_self_eq_true, Option.some.injEq,
        reduceCtorEq, false_implies, and_true]
      rintro _ rfl
      rw [(later name).2 notLater]
      exact changed
    · have notFirst : (name == first) = false := by
        simpa using isFirst
      simp only [lookup_cons, notFirst]
      rw [← others name isFirst]
      exact later name

/-- The same of rounds that need nothing kept. -/
theorem foldlM_each (look : Held → String → View) (Changes : String → Value → View → View → Prop)
    (distinct : (members.map Prod.fst).Nodup)
    (each :
      ∀ {held held' : Held} {name : String} {value : Value},
        (name, value) ∈ members →
        step held (name, value) = .ok held' →
        (∀ other, other ≠ name → look held' other = look held other) ∧
          Changes name value (look held name) (look held' name))
    (folds : members.foldlM step held = .ok final)
    (name : String) :
    (∀ value, members.lookup name = some value →
      Changes name value (look held name) (look final name)) ∧
      (members.lookup name = none → look final name = look held name) :=
  (foldlM_each_keeping (fun _ => True) look Changes distinct
    (fun isMember _ stepped => ⟨trivial, each isMember stepped⟩)
    trivial folds).2 name

@[simp] theorem strictEqual_self (value : Json) : strictEqual value value = true := by
  cases value <;> simp [strictEqual]

theorem strictEqual_trans {first second third : Json} (left : strictEqual first second = true)
    (right : strictEqual second third = true) :
    strictEqual first third = true := by
  cases first <;> cases second <;> cases third <;> simp_all [strictEqual]

/-- A string is strictly equal to itself alone. -/
theorem strictEqual_string {value : Json} {text : String}
    (equal : strictEqual value (.string text) = true) :
    value = .string text := by
  cases value <;> simp_all [strictEqual]

theorem includes_iff (list : List Json) (value : Json) :
    includes list value = true ↔ ∃ element ∈ list, strictEqual element value = true := by
  simp [includes]

/-- Quoting a string never shortens it. -/
theorem length_le_length_quote (text : String) : text.length < (quote text).length := by
  have eachChar (chars : List Char) : chars.length ≤ (chars.flatMap escape).length := by
    induction chars with
    | nil => simp
    | cons char rest ih =>
      have positive : 1 ≤ (escape char).length := by
        unfold escape
        split_ifs <;> simp
      simp only [flatMap_cons, length_append, length_cons]
      omega
  have whole := eachChar text.toList
  simp only [quote, String.length_ofList, length_cons, length_append]
  rw [← String.length_toList]
  omega

end Json

end IyaSts
