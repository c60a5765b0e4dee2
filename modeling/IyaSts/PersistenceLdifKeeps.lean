import IyaSts.Fallible
import IyaSts.PersistenceLdifLines

namespace IyaSts.PersistenceLdif

/-!
# What a written store is read as

A store reads back as the entries it was written from, but for three attribute
names: `version` and `dn` mean something else to the reader, and every object
inherits a `constructor` that holds no values.  A line with such a name adds
no value to any entry, so a store that has one is never read back as it was.
-/

open Fallible TextLines List

/-- The names whose lines are no values of an attribute. -/
def reservedNames : List String := ["version", "dn", "constructor"]

variable {name value : String}

/-- Of the names of objects, an attribute description can only be one. -/
theorem inherited_iff (isName : IsName name) :
    JsObject.Inherited name ↔ name = "constructor" := by
  have others :
      ∀ inherited ∈ JsObject.inheritedNames,
        inherited ≠ "constructor" → inherited.toList.all isNameChar = false := by
    decide
  constructor
  · intro isInherited
    by_contra isOther
    have notName := others name isInherited isOther
    rw [all_eq_true.mpr isName.2] at notName
    exact absurd notName (by decide)
  · rintro rfl
    decide

section

variable {toLowerCase : String → String}
variable (keepsLower : ∀ name, IsName name → toLowerCase name = name)

/-- Every line of a list, one after the other. -/
abbrev readLines (toLowerCase : String → String) (reader : Reader) (lines : List (List Char)) :
    Except String Reader :=
  lines.foldlM (readLine toLowerCase) reader

theorem readLines_append (reader : Reader) (first second : List (List Char)) :
    readLines toLowerCase reader (first ++ second) =
      (readLines toLowerCase reader first).bind fun between =>
        readLines toLowerCase between second :=
  foldlM_append


/-- A comment changes nothing but the origin of the next record. -/
theorem readLine_comment (reader : Reader) (rest : List Char) :
    ∃ origin,
      readLine toLowerCase reader ('#' :: rest) =
        .ok { reader with pendingOrigin := origin } := by
  rw [readLine, if_neg (by simp), if_pos List.head?_cons]
  split
  · exact ⟨_, rfl⟩
  · exact ⟨reader.pendingOrigin, rfl⟩

include keepsLower in
/-- A written line is read as its name's value. -/
theorem readLine_value {name : String} (isName : IsName name) (value : String) (reader : Reader) :
    readLine toLowerCase reader (unfoldedLine name value) = readValue reader name value := by
  obtain ⟨isSome, _, notHash⟩ := unfoldedLine_head isName value
  rw [readLine, if_neg isSome, if_neg notHash, parseLine_unfoldedLine isName]
  simp only [String.ofList_toList, keepsLower name isName]

/-! ## A store without reserved names -/

/-- The comments above a store change nothing. -/
theorem readLines_header (header : List String) (reader : Reader) :
    ∃ origin,
      readLines toLowerCase reader
          ((headerLines header).map stripReturn) =
        .ok { reader with pendingOrigin := origin } := by
  induction header generalizing reader with
  | nil => exact ⟨reader.pendingOrigin, rfl⟩
  | cons line rest ih =>
    obtain ⟨origin, isRead⟩ :=
      @readLine_comment toLowerCase reader (stripReturn (' ' :: line.toList))
    obtain ⟨last, restRead⟩ := ih { reader with pendingOrigin := origin }
    refine ⟨last, ?_⟩
    have shape :
        (headerLines (line :: rest)).map stripReturn =
          ('#' :: stripReturn (' ' :: line.toList)) :: (headerLines rest).map stripReturn := by
      rw [← stripReturn_comment]
      rfl
    rw [shape, readLines, foldlM_cons, isRead]
    exact restRead

include keepsLower in
/-- A store is read from its first record on. -/
theorem readLines_version (reader : Reader) :
    readLines toLowerCase reader ["version: 1".toList, []] =
      .ok { reader.finish with pendingOrigin := [] } := by
  have isName : IsName "version" := by
    refine ⟨by decide, ?_⟩
    have areNameChars : "version".toList.all isNameChar = true := by decide
    exact all_eq_true.mp areNameChars
  have isLine : "version: 1".toList = unfoldedLine "version" "1" := by decide
  rw [isLine, readLines, foldlM_cons, readLine_value keepsLower isName]
  rfl

variable {attributes : List (String × List String)} {name dn : String} {origin : Option String}

theorem lookup_eq_none_of_new (isNew : name ∉ attributes.map Prod.fst) :
    attributes.lookup name = none := by
  rw [lookup_eq_none_iff]
  rintro ⟨held, values⟩ isHeld
  have isOther : name ≠ held := by
    rintro rfl
    exact isNew (mem_map.mpr ⟨_, isHeld, rfl⟩)
  simpa using isOther

/-- The first value of a name the entry does not have yet. -/
theorem addValue_first (isNew : name ∉ attributes.map Prod.fst)
    (notInherited : ¬JsObject.Inherited name) (value : String) :
    addValue { dn, attributes, origin } name value =
      .ok { dn, attributes := attributes ++ [(name, [value])], origin } := by
  have notPrototype : name ≠ "__proto__" := by
    rintro rfl
    exact notInherited (by decide)
  simp [addValue, JsObject.read, lookup_eq_none_of_new isNew, notInherited,
    JsObject.assign, notPrototype]

/-- Another value of the name the entry has last. -/
theorem addValue_next (isNew : name ∉ attributes.map Prod.fst)
    (values : List String) (value : String) :
    addValue
        { dn, attributes := attributes ++ [(name, values)], origin } name
        value =
      .ok {
        dn
        attributes := attributes ++ [(name, values ++ [value])]
        origin
      } := by
  have isFound : (attributes ++ [(name, values)]).lookup name = some values := by
    rw [lookup_append, lookup_eq_none_of_new isNew]
    simp
  have othersKept :
      (attributes.map fun member =>
          if member.1 = name then (name, values ++ [value]) else member) =
        attributes := by
    conv => rhs; rw [← map_id attributes]
    apply map_congr_left
    rintro ⟨held, heldValues⟩ isHeld
    have isOther : held ≠ name := by
      rintro rfl
      exact isNew (mem_map.mpr ⟨_, isHeld, rfl⟩)
    rw [if_neg isOther]
    rfl
  simp only [addValue, JsObject.read, isFound, JsObject.assign, Option.isSome_some, if_true,
    map_append, othersKept, map_cons, map_nil]

/-- The variables while an entry is read. -/
def Reader.reading (reader : Reader) (entry : StoredEntry) : Reader :=
  { reader with current := some entry, pendingOrigin := [] }

theorem readValue_attribute (unreserved : name ∉ reservedNames)
    (value : String) (reader : Reader) {entry entry' : StoredEntry}
    (added : addValue entry name value = .ok entry') :
    readValue (reader.reading entry) name value = .ok (reader.reading entry') := by
  simp only [reservedNames, mem_cons, not_or] at unreserved
  rw [readValue, if_neg unreserved.1, if_neg unreserved.2.1]
  simp only [Reader.reading, added]
  rfl

include keepsLower in
/-- Every further value of the name the entry has last. -/
theorem readLines_values {name : String} (isName : IsName name) (unreserved : name ∉ reservedNames)
    (dn : String) {attributes : List (String × List String)} (origin : Option String)
    (isNew : name ∉ attributes.map Prod.fst) (reader : Reader) (before values : List String) :
    readLines toLowerCase
        (reader.reading {
          dn, attributes := attributes ++ [(name, before)], origin })
        (values.map fun value => unfoldedLine name value) =
      .ok (reader.reading {
        dn
        attributes := attributes ++ [(name, before ++ values)]
        origin
      }) := by
  induction values generalizing before with
  | nil =>
    rw [append_nil]
    rfl
  | cons value rest ih =>
    rw [map_cons, readLines, foldlM_cons, readLine_value keepsLower isName,
      readValue_attribute unreserved value reader (addValue_next isNew before value)]
    have restRead := ih (before ++ [value])
    rw [append_assoc, singleton_append] at restRead
    exact restRead

include keepsLower in
/-- The values of every further attribute of an entry. -/
theorem readLines_attributes (dn : String) (origin : Option String) (reader : Reader)
    (before attributes : List (String × List String))
    (distinct : ((before ++ attributes).map Prod.fst).Nodup)
    (named : ∀ held ∈ attributes, IsName held.1) (valued : ∀ held ∈ attributes, held.2 ≠ [])
    (unreserved : ∀ held ∈ attributes, held.1 ∉ reservedNames) :
    readLines toLowerCase
        (reader.reading { dn, attributes := before, origin })
        ((valuePairs attributes).map fun (name, value) =>
          unfoldedLine name value) =
      .ok (reader.reading {
        dn, attributes := before ++ attributes, origin }) := by
  induction attributes generalizing before with
  | nil =>
    rw [append_nil]
    rfl
  | cons held rest ih =>
    obtain ⟨name, values⟩ := held
    rw [forall_mem_cons] at named valued unreserved
    obtain ⟨value, others, isValues⟩ : ∃ value others, values = value :: others := by
      cases values with
      | nil => exact absurd rfl valued.1
      | cons value others => exact ⟨value, others, rfl⟩
    subst isValues
    have isNew : name ∉ before.map Prod.fst := by
      rw [map_append, map_cons, nodup_append] at distinct
      intro isHeld
      exact distinct.2.2 name isHeld name mem_cons_self rfl
    have notInherited : ¬JsObject.Inherited name := by
      rw [inherited_iff named.1]
      rintro rfl
      exact unreserved.1 (by simp [reservedNames])
    have lines :
        (valuePairs ((name, value :: others) :: rest)).map
            (fun (name, value) => unfoldedLine name value) =
          unfoldedLine name value ::
            ((others.map fun value => unfoldedLine name value) ++
              (valuePairs rest).map fun (name, value) =>
                unfoldedLine name value) := by
      simp [valuePairs]
    have restDistinct : (((before ++ [(name, value :: others)]) ++ rest).map Prod.fst).Nodup := by
      rw [append_assoc, singleton_append]
      exact distinct
    have restRead :=
      ih (before ++ [(name, value :: others)])
        restDistinct named.2 valued.2 unreserved.2
    rw [append_assoc, singleton_append] at restRead
    have othersRead :=
      readLines_values keepsLower named.1 unreserved.1 dn origin isNew reader [value] others
    rw [singleton_append] at othersRead
    rw [lines, readLines, foldlM_cons, readLine_value keepsLower named.1,
      readValue_attribute unreserved.1 value reader (addValue_first isNew notInherited value)]
    calc
      readLines toLowerCase _ _
          = (readLines toLowerCase
              (reader.reading {
                dn, attributes := before ++ [(name, [value])], origin })
              (others.map fun value => unfoldedLine name value)).bind
              fun between =>
                readLines toLowerCase between
                  ((valuePairs rest).map fun (name, value) =>
                    unfoldedLine name value) :=
        readLines_append _ _ _
      _ = _ := by
        rw [othersRead]
        exact restRead

/-- The variables between two records. -/
def Reader.between (entries : List StoredEntry) (skipped : Nat) : Reader where
  entries := entries
  current := none
  pendingOrigin := []
  skipped := skipped

/-- An origin is the pending one when its record begins. -/
theorem readLines_origin {origin : Option String}
    (isWord : ∀ word, origin = some word → IsWord word)
    (entries : List StoredEntry) (skipped : Nat) :
    ∃ pending,
      readLines toLowerCase (.between entries skipped) (originLines origin) =
          .ok { Reader.between entries skipped with
            pendingOrigin := pending } ∧
        (if pending = [] then none else some (String.ofList pending)) =
          origin := by
  cases origin with
  | none => exact ⟨[], rfl, rfl⟩
  | some word =>
    obtain ⟨notEmpty, noSpace⟩ := isWord word rfl
    have notNil : word.toList ≠ [] := by simpa using notEmpty
    refine ⟨word.toList, ?_, ?_⟩
    · have isPrefix :
          originComment.isPrefixOf (originComment ++ word.toList) =
            true := by
        simp
      have isHash : (originComment ++ word.toList).head? = some '#' := rfl
      have isSome : originComment ++ word.toList ≠ [] := by
        intro isNil
        rw [isNil] at isHash
        exact absurd isHash (by simp)
      have isLine : originLines (some word) = [originComment ++ word.toList] := by
        simp only [originLines, notEmpty, if_false]
      have lineRead :
          readLine toLowerCase (.between entries skipped)
              (originComment ++ word.toList) =
            .ok { Reader.between entries skipped with
              pendingOrigin := word.toList } := by
        rw [readLine, if_neg isSome, if_pos isHash, if_pos isPrefix,
          drop_left, trim_of_noWhitespace _ noSpace]
      rw [isLine, readLines, foldlM_cons, lineRead]
      rfl
    · rw [if_neg notNil, String.ofList_toList]

include keepsLower in
/-- A record is read as the entry it was written from. -/
theorem readLines_entry {entry : StoredEntry} (wellFormed : entry.WellFormed)
    (unreserved : ∀ held ∈ entry.attributes, held.1 ∉ reservedNames)
    (entries : List StoredEntry) (skipped : Nat) :
    readLines toLowerCase (.between entries skipped)
        (entryLines entry ++ [[]]) =
      .ok (.between (entries ++ [entry]) skipped) := by
  obtain ⟨pending, originRead, isOrigin⟩ :=
    @readLines_origin toLowerCase _ wellFormed.marked entries skipped
  have begins :
      readLine toLowerCase
          { Reader.between entries skipped with pendingOrigin := pending }
          (unfoldedLine "dn" entry.dn) =
        .ok ((Reader.between entries skipped).reading {
          dn := entry.dn, attributes := [], origin := entry.origin }) := by
    rw [readLine_value keepsLower isName_dn, ← isOrigin]
    simp [readValue, Reader.finish, Reader.between, Reader.reading]
  have attributesRead :=
    readLines_attributes keepsLower entry.dn entry.origin
      (.between entries skipped) [] entry.attributes wellFormed.distinct
      wellFormed.named wellFormed.valued unreserved
  rw [entryLines, append_assoc, readLines_append, originRead, cons_append]
  simp only [Except.bind]
  rw [readLines, foldlM_cons, begins]
  calc
    readLines toLowerCase _ _
        = (readLines toLowerCase
            ((Reader.between entries skipped).reading {
              dn := entry.dn, attributes := [], origin := entry.origin })
            ((valuePairs entry.attributes).map fun (name, value) => unfoldedLine name value)).bind
            fun between => readLines toLowerCase between [[]] :=
      readLines_append _ _ _
    _ = _ := by
      rw [attributesRead]
      rfl

include keepsLower in
/-- The records of a store are read as its entries, in their order. -/
theorem readLines_rows {rows : List StoredEntry} (wellFormed : ∀ row ∈ rows, row.WellFormed)
    (unreserved : ∀ row ∈ rows, ∀ held ∈ row.attributes, held.1 ∉ reservedNames)
    (entries : List StoredEntry) (skipped : Nat) :
    readLines toLowerCase (.between entries skipped)
        (rows.flatMap fun entry => entryLines entry ++ [[]]) =
      .ok (.between (entries ++ rows) skipped) := by
  induction rows generalizing entries with
  | nil =>
    rw [append_nil]
    rfl
  | cons row rest ih =>
    rw [forall_mem_cons] at wellFormed unreserved
    have restRead := ih wellFormed.2 unreserved.2 (entries ++ [row])
    rw [append_assoc, singleton_append] at restRead
    rw [flatMap_cons, readLines_append, readLines_entry keepsLower wellFormed.1 unreserved.1]
    exact restRead

include keepsLower in
/-- The comments and the version of a store leave the reader at its start. -/
theorem readLines_preamble (rows : List StoredEntry) (header : List String) :
    readLines toLowerCase .start
        ((headerLines header).map stripReturn ++ storeLines rows) =
      readLines toLowerCase (.between [] 0)
        (rows.flatMap fun entry => entryLines entry ++ [[]]) := by
  obtain ⟨origin, headerRead⟩ := @readLines_header toLowerCase header .start
  have versionRead :=
    readLines_version keepsLower
      { Reader.start with pendingOrigin := origin }
  have shape :
      storeLines rows =
        ["version: 1".toList, []] ++ rows.flatMap fun entry => entryLines entry ++ [[]] :=
    rfl
  rw [readLines_append, headerRead, shape]
  simp only [Except.bind]
  rw [readLines_append, versionRead]
  rfl

end

/-! ## What a line can add -/

/-- The entries read so far, the unfinished one last. -/
def Reader.held (reader : Reader) : List StoredEntry := reader.entries ++ reader.current.toList

@[simp] theorem Reader.held_finish (reader : Reader) : reader.finish.held = reader.held := by
  simp [Reader.held, Reader.finish]

/-- How many values some entries have. -/
def countValues (entries : List StoredEntry) : Nat :=
  (entries.flatMap fun entry => valuePairs entry.attributes).length

theorem countValues_append (first second : List StoredEntry) :
    countValues (first ++ second) = countValues first + countValues second := by
  simp [countValues]

/-- An entry as the reader makes it: no name twice, and no inherited one. -/
structure Sound (entry : StoredEntry) : Prop where
  distinct : (entry.attributes.map Prod.fst).Nodup
  ownNames : ∀ name ∈ entry.attributes.map Prod.fst, ¬JsObject.Inherited name

/-- One more value of a name is one more pair. -/
theorem countPairs_assign {attributes : List (String × List String)}
    {values : List String} (distinct : (attributes.map Prod.fst).Nodup)
    (isFound : attributes.lookup name = some values) :
    (valuePairs (attributes.map fun member =>
        if member.1 = name then
          (name, values ++ [value])
        else
          member)).length =
    (valuePairs attributes).length + 1 := by
  induction attributes with
  | nil => exact absurd isFound (by simp)
  | cons held rest ih =>
    obtain ⟨heldName, heldValues⟩ := held
    rw [map_cons, nodup_cons] at distinct
    obtain ⟨notRepeated, restDistinct⟩ := distinct
    by_cases isName : heldName = name
    · subst isName
      rw [lookup_cons_self, Option.some.injEq] at isFound
      subst isFound
      have othersKept :
          (rest.map fun member =>
              if member.1 = heldName then
                (heldName, heldValues ++ [value])
              else
                member) = rest := by
        conv => rhs; rw [← map_id rest]
        apply map_congr_left
        intro member isMember
        have isOther : member.1 ≠ heldName := by
          intro isSame
          exact notRepeated (mem_map.mpr ⟨member, isMember, isSame⟩)
        rw [if_neg isOther]
        rfl
      rw [map_cons, if_pos rfl, othersKept]
      simp [valuePairs]
      omega
    · have isOther : (name == heldName) = false := by
        simpa using Ne.symm isName
      rw [lookup_cons, isOther] at isFound
      have restCount := ih restDistinct isFound
      rw [map_cons, if_neg isName]
      simp only [valuePairs, flatMap_cons, length_append] at restCount ⊢
      omega

/-- Adding a value adds one, of a name that is not inherited. -/
theorem addValue_counts {entry entry' : StoredEntry} (sound : Sound entry)
    (added : addValue entry name value = .ok entry') :
    ¬JsObject.Inherited name ∧ Sound entry' ∧
    (valuePairs entry'.attributes).length = (valuePairs entry.attributes).length + 1 := by
  obtain ⟨distinct, ownNames⟩ := sound
  unfold addValue at added
  split at added
  · rename_i values isOwn
    have isFound := JsObject.lookup_of_read_own isOwn
    rw [Except.ok.injEq] at added
    subst added
    have isOwnName : name ∈ entry.attributes.map Prod.fst :=
      mem_map.mpr ⟨_, JsObject.mem_of_read_own isOwn, rfl⟩
    simp only [JsObject.assign, isFound, Option.isSome_some, if_true]
    have sameNames :
        (entry.attributes.map fun member =>
            if member.1 = name then
              (name, values ++ [value])
            else
              member).map Prod.fst =
          entry.attributes.map Prod.fst := by
      rw [map_map]
      apply map_congr_left
      intro member _
      simp only [Function.comp_apply]
      split
      · rename_i isName
        exact isName.symm
      · rfl
    exact
      ⟨ownNames name isOwnName, ⟨by rw [sameNames]; exact distinct,
          by rw [sameNames]; exact ownNames⟩,
        countPairs_assign distinct isFound⟩
  · rename_i isAbsent
    obtain ⟨notFound, notInherited⟩ := JsObject.of_read_absent isAbsent
    have notPrototype : name ≠ "__proto__" := by
      rintro rfl
      exact notInherited (by decide)
    rw [Except.ok.injEq] at added
    subst added
    simp only [JsObject.assign, notFound, Option.isSome_none,
      Bool.false_eq_true, if_false, notPrototype]
    refine ⟨notInherited, ⟨?_, ?_⟩, ?_⟩
    · rw [map_append, nodup_append]
      refine ⟨distinct, by simp, ?_⟩
      intro held isHeld other isOther isSame
      obtain ⟨member, isMember, rfl⟩ := mem_map.mp isHeld
      rw [map_singleton, mem_singleton] at isOther
      rw [lookup_eq_none_iff] at notFound
      have isOtherName := notFound member isMember
      rw [isSame, isOther] at isOtherName
      simp at isOtherName
    · intro other isOther
      rw [map_append, mem_append] at isOther
      rcases isOther with isHeld | isNew
      · exact ownNames other isHeld
      · rw [map_singleton, mem_singleton] at isNew
        rw [isNew]
        exact notInherited
    · simp [valuePairs]
  · exact absurd added (by simp)

section

variable {toLowerCase : String → String}

/-- How many values a line adds at most. -/
def weight (toLowerCase : String → String) (line : List Char) : Nat :=
  if line.head? = some '#' then
    0
  else
    match parseLine line with
    | some { name, value := some _ } =>
      if toLowerCase (String.ofList name) ∈ reservedNames then 0 else 1
    | _ => 0

variable {reader reader' : Reader}

/-- A line adds at most its weight. -/
theorem readLine_counts {line : List Char} (sound : ∀ entry ∈ reader.held, Sound entry)
    (isRead : readLine toLowerCase reader line = .ok reader') :
    (∀ entry ∈ reader'.held, Sound entry) ∧
      countValues reader'.held ≤ countValues reader.held + weight toLowerCase line := by
  have keeps (isSame : reader'.held = reader.held) :
      (∀ entry ∈ reader'.held, Sound entry) ∧
        countValues reader'.held ≤ countValues reader.held + weight toLowerCase line := by
    rw [isSame]
    exact ⟨sound, Nat.le_add_right _ _⟩
  unfold readLine at isRead
  split at isRead
  · rw [Except.ok.injEq] at isRead
    subst isRead
    exact keeps reader.held_finish
  split at isRead
  · split at isRead <;> (rw [Except.ok.injEq] at isRead; exact keeps (by subst isRead; rfl))
  rename_i notEmpty notComment
  split at isRead
  · rw [Except.ok.injEq] at isRead
    exact keeps (by rw [← isRead])
  · rw [Except.ok.injEq] at isRead
    exact keeps (by rw [← isRead]; rfl)
  rename_i name value parsed
  unfold readValue at isRead
  split at isRead
  · rw [Except.ok.injEq] at isRead
    exact keeps (by rw [← isRead])
  split at isRead
  · rw [Except.ok.injEq] at isRead
    obtain ⟨entry, held, noAttributes⟩ :
        ∃ entry : StoredEntry, reader'.held = reader.held ++ [entry] ∧ entry.attributes = [] := by
      subst isRead
      exact ⟨_, rfl, rfl⟩
    rw [held]
    constructor
    · intro other isOther
      rcases mem_append.mp isOther with inHeld | isNew
      · exact sound other inHeld
      · rw [mem_singleton] at isNew
        rw [isNew]
        exact ⟨by simp [noAttributes], by simp [noAttributes]⟩
    · rw [countValues_append]
      simp [countValues, noAttributes, valuePairs]
  rename_i notVersion notDn
  split at isRead
  · rw [Except.ok.injEq] at isRead
    exact keeps (by rw [← isRead]; rfl)
  rename_i entry isCurrent
  rw [bind_eq_ok_iff] at isRead
  obtain ⟨entry', added, isRead⟩ := isRead
  rw [pure_eq_ok_iff] at isRead
  have held : reader.held = reader.entries ++ [entry] := by
    rw [Reader.held, isCurrent]
    rfl
  have held' : reader'.held = reader.entries ++ [entry'] := by
    rw [← isRead]
    rfl
  have isSound := sound entry (by rw [held]; exact mem_append_right _ (by simp))
  obtain ⟨notInherited, staysSound, count⟩ := addValue_counts isSound added
  have notConstructor : toLowerCase (String.ofList name) ≠ "constructor" := by
    intro isConstructor
    rw [isConstructor] at notInherited
    exact notInherited (by decide)
  have isWeight : weight toLowerCase line = 1 := by
    rw [weight, if_neg notComment, parsed]
    simp [reservedNames, notVersion, notDn, notConstructor]
  rw [held, held', isWeight, countValues_append, countValues_append]
  constructor
  · intro other isOther
    rcases mem_append.mp isOther with inEntries | isNew
    · exact sound other (by rw [held]; exact mem_append_left _ inEntries)
    · rw [mem_singleton] at isNew
      rw [isNew]
      exact staysSound
  · simp only [countValues, flatMap_cons, flatMap_nil, append_nil]
    omega

/-- Lines add at most their weights. -/
theorem readLines_counts {lines : List (List Char)} (sound : ∀ entry ∈ reader.held, Sound entry)
    (areRead : readLines toLowerCase reader lines = .ok reader') :
    countValues reader'.held ≤ countValues reader.held + (lines.map (weight toLowerCase)).sum := by
  induction lines generalizing reader with
  | nil =>
    rw [readLines, foldlM_nil, pure_eq_ok_iff] at areRead
    rw [areRead]
    simp
  | cons line rest ih =>
    rw [readLines, foldlM_cons, bind_eq_ok_iff] at areRead
    obtain ⟨between, isRead, restRead⟩ := areRead
    obtain ⟨staysSound, count⟩ := readLine_counts sound isRead
    have restCount := ih staysSound restRead
    rw [map_cons, sum_cons]
    omega

variable (keepsLower : ∀ name, IsName name → toLowerCase name = name)

include keepsLower in
theorem weight_unfoldedLine {name : String} (isName : IsName name) (value : String) :
    weight toLowerCase (unfoldedLine name value) =
      if name ∈ reservedNames then 0 else 1 := by
  obtain ⟨_, _, notHash⟩ := unfoldedLine_head isName value
  rw [weight, if_neg notHash, parseLine_unfoldedLine isName]
  simp only [String.ofList_toList, keepsLower name isName]

theorem weight_originLines (origin : Option String) :
    ((originLines origin).map (weight toLowerCase)).sum = 0 := by
  unfold originLines
  split
  · rename_i word
    split
    · rfl
    · have isHash : (originComment ++ word.toList).head? = some '#' := rfl
      simp only [map_cons, map_nil, weight, isHash, if_true,
        sum_cons, sum_nil, Nat.add_zero]
  · rfl

include keepsLower in
/-- A record's lines can add its values of names that are not reserved. -/
theorem weight_entryLines {entry : StoredEntry} (wellFormed : entry.WellFormed) :
    ((entryLines entry ++ [[]]).map (weight toLowerCase)).sum =
      (valuePairs entry.attributes).countP fun pair =>
        decide (pair.1 ∉ reservedNames) := by
  have pairsWeigh (pairs : List (String × String))
      (named : ∀ pair ∈ pairs, IsName pair.1) :
      ((pairs.map fun (name, value) => unfoldedLine name value).map
          (weight toLowerCase)).sum =
        pairs.countP fun pair => decide (pair.1 ∉ reservedNames) := by
    induction pairs with
    | nil => rfl
    | cons pair rest ih =>
      rw [forall_mem_cons] at named
      rw [map_cons, map_cons, sum_cons, ih named.2,
        weight_unfoldedLine keepsLower named.1, countP_cons]
      by_cases isReserved : pair.1 ∈ reservedNames
      · simp [isReserved]
      · simp [isReserved, Nat.add_comm]
  have named : ∀ pair ∈ valuePairs entry.attributes, IsName pair.1 := by
    intro pair isPair
    obtain ⟨values, isHeld, _⟩ := mem_valuePairs.mp isPair
    exact wellFormed.named _ isHeld
  have emptyWeight : weight toLowerCase [] = 0 := rfl
  have isReserved : "dn" ∈ reservedNames := by decide
  rw [entryLines, append_assoc, map_append, sum_append, weight_originLines,
    cons_append, map_cons, sum_cons, weight_unfoldedLine keepsLower isName_dn,
    if_pos isReserved, map_append, sum_append, pairsWeigh _ named]
  simp [emptyWeight]

include keepsLower in
/-- The records of a store, one after the other. -/
theorem weight_rows {rows : List StoredEntry} (wellFormed : ∀ row ∈ rows, row.WellFormed) :
    ((rows.flatMap fun entry => entryLines entry ++ [[]]).map
        (weight toLowerCase)).sum =
      (rows.flatMap fun row => valuePairs row.attributes).countP fun pair =>
        decide (pair.1 ∉ reservedNames) := by
  induction rows with
  | nil => rfl
  | cons row rest ih =>
    rw [forall_mem_cons] at wellFormed
    rw [flatMap_cons, map_append, sum_append,
      weight_entryLines keepsLower wellFormed.1, ih wellFormed.2,
      flatMap_cons, countP_append]

include keepsLower in
/-- Reading a written store is reading its records. -/
theorem fromLdif_toLdif {rows : List StoredEntry} (wellFormed : ∀ row ∈ rows, row.WellFormed)
    {header : List String} (noFeed : ∀ line ∈ header, '\n' ∉ line.toList) :
    fromLdif toLowerCase (toLdif rows header) =
      (readLines toLowerCase (.between [] 0)
        (rows.flatMap fun entry => entryLines entry ++ [[]])).bind
        fun reader => .ok (reader.finish.entries.map stamp) := by
  rw [fromLdif, unfold_toLdif wellFormed noFeed, ← readLines_preamble keepsLower rows header]
  rfl

end

/--
A store is read back as it was written exactly when none of its attributes has
one of the reserved names.
-/
theorem fromLdif_toLdif_iff (toLowerCase : String → String)
    (keepsLower : ∀ name, IsName name → toLowerCase name = name) (rows : List StoredEntry)
    (wellFormed : ∀ row ∈ rows, row.WellFormed) (header : List String)
    (noFeed : ∀ line ∈ header, '\n' ∉ line.toList) :
    (∃ entries,
      fromLdif toLowerCase (toLdif rows header) = .ok entries ∧ entries.map Entry.stored = rows) ↔
      ∀ row ∈ rows, ∀ held ∈ row.attributes, held.1 ∉ reservedNames := by
  have storedStamp (entries : List StoredEntry) :
      (entries.map stamp).map Entry.stored = entries := by
    rw [map_map]
    exact map_id' entries
  rw [fromLdif_toLdif keepsLower wellFormed noFeed]
  constructor
  · rintro ⟨entries, isRead, isStored⟩
    cases areRead :
        readLines toLowerCase (.between [] 0)
          (rows.flatMap fun entry => entryLines entry ++ [[]]) with
    | error error =>
      rw [areRead] at isRead
      exact absurd isRead (by simp [Except.bind])
    | ok reader =>
      rw [areRead] at isRead
      simp only [Except.bind, Except.ok.injEq] at isRead
      rw [← isRead, storedStamp] at isStored
      have isHeld : reader.held = rows := isStored
      have count := readLines_counts (by simp [Reader.held, Reader.between]) areRead
      rw [isHeld, weight_rows keepsLower wellFormed] at count
      have startCount : countValues (Reader.between [] 0).held = 0 := rfl
      have allUnreserved :
          ∀ pair ∈ rows.flatMap fun row => valuePairs row.attributes,
            decide (pair.1 ∉ reservedNames) = true := by
        rw [← countP_eq_length]
        apply Nat.le_antisymm countP_le_length
        rw [startCount, Nat.zero_add] at count
        exact count
      intro row isRow held isAttribute
      obtain ⟨value, isValue⟩ :=
        exists_mem_of_ne_nil _ ((wellFormed row isRow).valued held isAttribute)
      have isPair : (held.1, value) ∈ valuePairs row.attributes :=
        mem_valuePairs.mpr ⟨held.2, isAttribute, isValue⟩
      have unreserved := allUnreserved (held.1, value) (mem_flatMap.mpr ⟨row, isRow, isPair⟩)
      simpa using unreserved
  · intro unreserved
    have areRead := readLines_rows keepsLower wellFormed unreserved [] 0
    rw [areRead]
    refine ⟨_, rfl, ?_⟩
    rw [storedStamp]
    simp [Reader.finish, Reader.between]

/-- A character of a name has no lower case of its own. -/
theorem toLower_of_isNameChar {char : Char} (isName : isNameChar char = true) :
    char.toLower = char := by
  have isLower : char.isLower = (decide (char.val ≥ 'a'.val) && decide (char.val ≤ 'z'.val)) := rfl
  simp only [isNameChar, isLower, Char.isDigit, Bool.and_eq_true, decide_eq_true_eq] at isName
  have notUpper : ¬(char.val ≥ 'A'.val ∧ char.val ≤ 'Z'.val) := by
    rintro ⟨fromA, toZ⟩
    rcases isName with ⟨isLow, _⟩ | ⟨_, isLow⟩ | rfl | rfl
    · exact absurd (UInt32.le_trans isLow toZ) (by decide)
    · exact absurd (UInt32.le_trans fromA isLow) (by decide)
    · exact absurd fromA (by decide)
    · exact absurd fromA (by decide)
  exact dif_neg notUpper

theorem toLower_of_isName (name : String) (isName : IsName name) : name.toLower = name := by
  have lowered : name.toLower = name.map Char.toLower := rfl
  rw [← String.toList_inj, lowered, String.toList_map]
  conv => rhs; rw [← map_id name.toList]
  apply map_congr_left
  intro char isChar
  exact toLower_of_isNameChar (isName.2 char isChar)

/-- An attribute of each reserved name, and what its store is read as. -/
theorem fromLdif_reserved :
    fromLdif String.toLower
        (toLdif [⟨"cn=a", [("cn", ["a"]), ("version", ["1"])], none⟩] []) =
      .ok [stamp ⟨"cn=a", [("cn", ["a"])], none⟩] ∧
    fromLdif String.toLower
        (toLdif [⟨"cn=a", [("dn", ["cn=b"]), ("cn", ["a"])], none⟩] []) =
      .ok [stamp ⟨"cn=a", [], none⟩, stamp ⟨"cn=b", [("cn", ["a"])], none⟩] ∧
    fromLdif String.toLower
        (toLdif [⟨"cn=a", [("constructor", ["x"])], none⟩] []) =
      .error "current.attributes[name].push is not a function" := by
  decide +kernel

theorem isName_of_all (isSome : name.toList ≠ [])
    (areNameChars : name.toList.all isNameChar = true) :
    IsName name :=
  ⟨isSome, all_eq_true.mp areNameChars⟩

/-- An entry with an origin, a value in Base64 and an empty one. -/
def sampleEntry : StoredEntry where
  dn := "cn=a"
  attributes := [("cn", ["a"]), ("description", [" x\n", ""])]
  origin := some "seed"

theorem wellFormed_sampleEntry : sampleEntry.WellFormed where
  distinct := by decide
  named := by
    simp only [sampleEntry, forall_mem_cons]
    exact ⟨isName_of_all (by decide) (by decide), isName_of_all (by decide) (by decide), by simp⟩
  valued := by decide
  marked := by
    intro origin isOrigin
    rw [sampleEntry, Option.some.injEq] at isOrigin
    rw [← isOrigin]
    have noSpace : ("seed".toList.all fun char => !isWhitespace char) = true := by decide
    refine ⟨by decide, ?_⟩
    simpa using noSpace

/-- Such an entry is read back from its store. -/
theorem fromLdif_toLdif_sampleEntry :
    ∃ entries,
      fromLdif String.toLower (toLdif [sampleEntry] ["a header"]) =
          .ok entries ∧
        entries.map Entry.stored = [sampleEntry] := by
  refine
    (fromLdif_toLdif_iff String.toLower toLower_of_isName [sampleEntry] ?_ ["a header"] ?_).mpr ?_
  · simpa using wellFormed_sampleEntry
  · simp
  · rw [forall_mem_singleton]
    decide

end IyaSts.PersistenceLdif
