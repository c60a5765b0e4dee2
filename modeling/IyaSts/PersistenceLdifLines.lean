import IyaSts.PersistenceLdif
import Mathlib.Data.List.Forall2

namespace IyaSts.PersistenceLdif

/-!
# The lines of a written store

Every value has one line that is read as its name and itself, folding a line
is undone by unfolding it, and so a written text unfolds to the lines of its
entries, with an empty line after each.
-/

open TextLines List

/-! ## One line -/

/-- A line without a line feed or a carriage return. -/
def NoBreak (line : List Char) : Prop := ∀ char ∈ line, char ≠ '\n' ∧ char ≠ '\r'

variable {line : List Char} {char : Char} {name : String}
    {groups : List (List (List Char))} {lines : List (List Char)}

/-- A text in which no break is found has none. -/
theorem noBreak_of_all
    (noneFound :
      (line.all fun char => char ≠ '\n' && char ≠ '\r') = true) :
    NoBreak line := by
  intro char isChar
  have notFound := all_eq_true.mp noneFound char isChar
  simpa using notFound

theorem noBreak_append {first second : List Char} (firstNoBreak : NoBreak first)
    (secondNoBreak : NoBreak second) :
    NoBreak (first ++ second) := by
  intro char isChar
  rcases mem_append.mp isChar with inFirst | inSecond
  · exact firstNoBreak char inFirst
  · exact secondNoBreak char inSecond

theorem NoBreak.noFeed (noBreak : NoBreak line) : '\n' ∉ line :=
  fun isChar => (noBreak _ isChar).1 rfl

theorem NoBreak.stripReturn_eq (noBreak : NoBreak line) : stripReturn line = line := by
  unfold stripReturn
  split
  · rename_i isReturn
    exact absurd rfl (noBreak _ (mem_of_getLast? isReturn)).2
  · rfl

/-- A character of Base64 is no line break and no white space. -/
theorem encode_noSpace {bytes : Buffer} (isWritten : char ∈ Base64.encode bytes) :
    isWhitespace char = false := by
  have everySextet : ∀ bits < 64, isWhitespace (Base64.sextetChar bits) = false := by decide
  rcases Base64.mem_encode isWritten with rfl | ⟨bits, isSextet, rfl⟩
  · decide
  · exact everySextet bits isSextet

theorem noBreak_of_noSpace {text : List Char} (noSpace : ∀ char ∈ text, isWhitespace char = false) :
    NoBreak text := by
  intro char isChar
  have notSpace := noSpace char isChar
  constructor <;> (rintro rfl; exact absurd notSpace (by decide))

/-- A value written as it is has no line break. -/
theorem noBreak_of_plain {value : String} (isPlain : needsBase64 value = false) :
    NoBreak value.toList := by
  intro char isChar
  simp only [needsBase64] at isPlain
  split at isPlain
  · rename_i isEmpty
    rw [isEmpty] at isChar
    exact absurd isChar not_mem_nil
  split at isPlain
  · exact absurd isPlain (by decide)
  split at isPlain
  · exact absurd isPlain (by decide)
  rw [any_eq_false] at isPlain
  have isSafe := isPlain char isChar
  constructor <;> (rintro rfl; exact isSafe (by decide))

/-- A character of a lower-case attribute description. -/
def isNameChar (char : Char) : Bool := char.isLower ∨ char.isDigit ∨ char = '-' ∨ char = ';'

/-- A lower-case attribute description. -/
def IsName (name : String) : Prop := name.toList ≠ [] ∧ ∀ char ∈ name.toList, isNameChar char = true

/-- No character of a name has a meaning of its own in a line. -/
theorem IsName.notSpecial (isName : IsName name) (isChar : char ∈ name.toList) :
    char ≠ ':' ∧ char ≠ '\n' ∧ char ≠ '\r' ∧ char ≠ ' ' ∧ char ≠ '#' := by
  have isNameChar := isName.2 char isChar
  refine ⟨?_, ?_, ?_, ?_, ?_⟩ <;> (rintro rfl; exact absurd isNameChar (by decide))

theorem isName_dn : IsName "dn" := by
  refine ⟨by decide, ?_⟩
  intro char isChar
  have isOne : char = 'd' ∨ char = 'n' := by simpa using isChar
  rcases isOne with rfl | rfl <;> decide

theorem unfoldedLine_noBreak (isName : IsName name) (value : String) :
    NoBreak (unfoldedLine name value) := by
  have nameNoBreak : NoBreak name.toList := by
    intro char isChar
    obtain ⟨_, notFeed, notReturn, _⟩ := isName.notSpecial isChar
    exact ⟨notFeed, notReturn⟩
  have colons : NoBreak ":: ".toList ∧ NoBreak ": ".toList := by
    constructor <;> exact noBreak_of_all (by decide)
  unfold unfoldedLine
  cases isBase64 : needsBase64 value with
  | true =>
    exact
      noBreak_append (noBreak_append nameNoBreak colons.1)
        (noBreak_of_noSpace fun _ => encode_noSpace)
  | false => exact noBreak_append (noBreak_append nameNoBreak colons.2) (noBreak_of_plain isBase64)

/-- A line starts with its name. -/
theorem unfoldedLine_eq (name value : String) :
    ∃ rest, unfoldedLine name value = name.toList ++ ':' :: rest := by
  unfold unfoldedLine
  split
  · exact ⟨": ".toList ++ _, by rw [append_assoc]; rfl⟩
  · exact ⟨" ".toList ++ _, by rw [append_assoc]; rfl⟩

theorem unfoldedLine_head (isName : IsName name) (value : String) :
    unfoldedLine name value ≠ [] ∧
      (unfoldedLine name value).head? ≠ some ' ' ∧
      (unfoldedLine name value).head? ≠ some '#' := by
  obtain ⟨rest, isLine⟩ := unfoldedLine_eq name value
  rw [isLine]
  cases chars : name.toList with
  | nil => exact absurd chars isName.1
  | cons first others =>
    have isFirst : first ∈ name.toList := by
      rw [chars]
      exact mem_cons_self
    obtain ⟨_, _, _, notSpace, notHash⟩ := isName.notSpecial isFirst
    simp [notSpace, notHash]

/-- A line is read as its name and its value. -/
theorem parseLine_unfoldedLine (isName : IsName name) (value : String) :
    parseLine (unfoldedLine name value) = some { name := name.toList, value := some value } := by
  have noColon : ∀ char ∈ name.toList, char ≠ ':' := fun char isChar => (isName.notSpecial isChar).1
  have nameOf (rest : List Char) :
      (name.toList ++ ':' :: rest).takeWhile (fun char => char ≠ ':') = name.toList := by
    rw [takeWhile_append_of_pos (by simpa using noColon)]
    simp
  have restOf (rest : List Char) :
      (name.toList ++ ':' :: rest).drop (name.toList.length + 1) = rest := by
    simp
  have hasColon (rest : List Char) : ':' ∈ name.toList ++ ':' :: rest := by simp
  cases isBase64 : needsBase64 value with
  | true =>
    have isLine :
        unfoldedLine name value =
          name.toList ++ ':' :: (": ".toList ++ Base64.encode (Utf8.encode value)) := by
      rw [unfoldedLine, isBase64, if_pos rfl, append_assoc]
      rfl
    have trimmed :
        trim (' ' :: Base64.encode (Utf8.encode value)) = Base64.encode (Utf8.encode value) := by
      have noSpace :=
        trim_of_noWhitespace (Base64.encode (Utf8.encode value)) (fun _ => encode_noSpace)
      rw [trim] at noSpace ⊢
      rw [dropWhile_cons, if_pos (by decide)]
      exact noSpace
    rw [isLine, parseLine, if_pos (hasColon _)]
    simp only [nameOf, restOf]
    have dropped :
        (": ".toList ++ Base64.encode (Utf8.encode value)).drop 1 =
          ' ' :: Base64.encode (Utf8.encode value) :=
      rfl
    rw [if_neg (by simp), if_pos (by simp), dropped, trimmed,
      Base64.decode_encode, Utf8.decode_encode]
  | false =>
    have isLine : unfoldedLine name value = name.toList ++ ':' :: (' ' :: value.toList) := by
      rw [unfoldedLine, isBase64, if_neg (by decide), append_assoc]
      rfl
    rw [isLine, parseLine, if_pos (hasColon _)]
    simp only [nameOf, restOf]
    simp [String.ofList_toList]

/-! ## Folding -/

/-- A line that is no continuation starts a line of its own. -/
theorem unfoldLine_new (notSpace : line.head? ≠ some ' ') (out : List (List Char)) :
    unfoldLine out line = out ++ [line] := by
  unfold unfoldLine
  split
  · exact absurd rfl notSpace
  · rfl

variable (out : List (List Char)) (last rest : List Char)

/-- A continuation goes on with the line before it. -/
theorem unfoldLine_continuation :
    unfoldLine (out ++ [last]) (' ' :: rest) = out ++ [last ++ rest] := by
  simp [unfoldLine]

/-- The folded rest of a line is unfolded behind its beginning. -/
theorem unfold_continuations :
    (continuations rest).foldl unfoldLine (out ++ [last]) = out ++ [last ++ rest] := by
  fun_induction continuations rest generalizing last with
  | case1 => simp
  | case2 rest notRest ih =>
    rw [foldl_cons, unfoldLine_continuation, ih,
      append_assoc, take_append_drop]

/-- Folding a line is undone by unfolding it. -/
theorem unfold_folded (notSpace : line.head? ≠ some ' ') (out : List (List Char)) :
    (folded line).foldl unfoldLine out = out ++ [line] := by
  unfold folded
  split
  · rw [foldl_cons, foldl_nil, unfoldLine_new notSpace]
  · have partNotSpace : (line.take wrapAt).head? ≠ some ' ' := by
      rw [List.head?_take, if_neg (by decide)]
      exact notSpace
    rw [foldl_cons, unfoldLine_new partNotSpace, unfold_continuations, take_append_drop]

theorem folded_ne_nil (line : List Char) : folded line ≠ [] := by
  unfold folded
  split <;> simp

/-- The parts of a line have no break where the line has none. -/
theorem folded_noBreak (noBreak : NoBreak line) : ∀ part ∈ folded line, NoBreak part := by
  have continued (rest : List Char) (restNoBreak : NoBreak rest) :
      ∀ part ∈ continuations rest, NoBreak part := by
    fun_induction continuations rest with
    | case1 => simp
    | case2 rest notRest ih =>
      intro part isPart
      rcases mem_cons.mp isPart with rfl | inRest
      · intro char isChar
        rcases mem_cons.mp isChar with rfl | inTaken
        · decide
        · exact restNoBreak char (mem_of_mem_take inTaken)
      · exact
          ih
            (fun char isChar => restNoBreak char (mem_of_mem_drop isChar))
            part inRest
  intro part isPart
  unfold folded at isPart
  split at isPart
  · rw [mem_singleton] at isPart
    rw [isPart]
    exact noBreak
  · rcases mem_cons.mp isPart with rfl | inRest
    · exact fun char isChar => noBreak char (mem_of_mem_take isChar)
    · exact continued _ (fun char isChar => noBreak char (mem_of_mem_drop isChar)) part inRest

/-! ## The text of a store -/

/-- A word that an origin may be. -/
def IsWord (word : String) : Prop := word ≠ "" ∧ ∀ char ∈ word.toList, isWhitespace char = false

/-- The entries the store is for. -/
structure StoredEntry.WellFormed (entry : StoredEntry) : Prop where
  distinct : (entry.attributes.map Prod.fst).Nodup
  named : ∀ held ∈ entry.attributes, IsName held.1
  valued : ∀ held ∈ entry.attributes, held.2 ≠ []
  marked : ∀ origin, entry.origin = some origin → IsWord origin

/-- The names and values of an entry, one pair a line. -/
def valuePairs (attributes : List (String × List String)) : List (String × String) :=
  attributes.flatMap fun (name, values) => values.map fun value => (name, value)

/-- The lines of an entry before they are folded. -/
def entryLines (entry : StoredEntry) : List (List Char) :=
  originLines entry.origin ++ unfoldedLine "dn" entry.dn ::
    (valuePairs entry.attributes).map fun (name, value) => unfoldedLine name value

/-- Each line of an entry in its parts; the origin is not folded. -/
def entryParts (entry : StoredEntry) : List (List (List Char)) :=
  (originLines entry.origin).map (fun line => [line]) ++
    folded (unfoldedLine "dn" entry.dn) ::
      (valuePairs entry.attributes).map fun (name, value) => folded (unfoldedLine name value)

/-- A group of parts that has no break and unfolds to one line. -/
structure UnfoldsTo (parts : List (List Char)) (line : List Char) : Prop where
  isSome : parts ≠ []
  noBreak : ∀ part ∈ parts, NoBreak part
  unfolds : ∀ out, parts.foldl unfoldLine out = out ++ [line]

/-- A value's parts unfold to its line. -/
theorem unfoldsTo_value (isName : IsName name) (value : String) :
    UnfoldsTo (folded (unfoldedLine name value))
      (unfoldedLine name value) where
  isSome := folded_ne_nil _
  noBreak := folded_noBreak (unfoldedLine_noBreak isName value)
  unfolds := unfold_folded (unfoldedLine_head isName value).2.1

/-- A line that is not folded and no continuation unfolds to itself. -/
theorem unfoldsTo_single (noBreak : NoBreak line) (notSpace : line.head? ≠ some ' ') :
    UnfoldsTo [line] line where
  isSome := by simp
  noBreak := by simpa using noBreak
  unfolds out := by rw [foldl_cons, foldl_nil, unfoldLine_new notSpace]

/-- Groups of parts unfold to their lines, one after the other. -/
theorem unfold_groups (unfold : List.Forall₂ UnfoldsTo groups lines) (out : List (List Char)) :
    groups.flatten.foldl unfoldLine out = out ++ lines := by
  induction unfold generalizing out with
  | nil => simp
  | cons first rest ih =>
    rw [flatten_cons, foldl_append, first.unfolds, ih, append_assoc]
    rfl

theorem mem_valuePairs {attributes : List (String × List String)} {pair : String × String} :
    pair ∈ valuePairs attributes ↔ ∃ values, (pair.1, values) ∈ attributes ∧ pair.2 ∈ values := by
  simp only [valuePairs, mem_flatMap, mem_map, Prod.exists]
  constructor
  · rintro ⟨name, values, isAttribute, value, isValue, rfl⟩
    exact ⟨values, isAttribute, isValue⟩
  · rintro ⟨values, isAttribute, isValue⟩
    exact ⟨pair.1, values, isAttribute, pair.2, isValue, rfl⟩

variable {entry : StoredEntry}

/-- An entry's parts unfold to its lines. -/
theorem unfoldsTo_entry (wellFormed : entry.WellFormed) :
    List.Forall₂ UnfoldsTo (entryParts entry) (entryLines entry) := by
  have originUnfolds :
      List.Forall₂ UnfoldsTo
        ((originLines entry.origin).map fun line => [line])
        (originLines entry.origin) := by
    rw [forall₂_map_left_iff, forall₂_same]
    intro line isLine
    unfold originLines at isLine
    split at isLine
    · rename_i origin isOrigin
      split at isLine
      · exact absurd isLine not_mem_nil
      · rw [mem_singleton] at isLine
        rw [isLine]
        refine unfoldsTo_single ?_ ?_
        · refine noBreak_append (noBreak_of_all (by decide)) ?_
          exact noBreak_of_noSpace (wellFormed.marked origin isOrigin).2
        · have isHash : (originComment ++ origin.toList).head? = some '#' := rfl
          rw [isHash]
          decide
    · exact absurd isLine not_mem_nil
  have pairsUnfold :
      List.Forall₂ UnfoldsTo
        ((valuePairs entry.attributes).map fun (name, value) => folded (unfoldedLine name value))
        ((valuePairs entry.attributes).map fun (name, value) =>
          unfoldedLine name value) := by
    rw [forall₂_map_left_iff, forall₂_map_right_iff, forall₂_same]
    rintro ⟨name, value⟩ isPair
    obtain ⟨values, isAttribute, _⟩ := mem_valuePairs.mp isPair
    exact unfoldsTo_value (wellFormed.named _ isAttribute) value
  exact rel_append originUnfolds (.cons (unfoldsTo_value isName_dn _) pairsUnfold)

/-- The parts of a store's lines, from its version on. -/
def storeParts (rows : List StoredEntry) : List (List (List Char)) :=
  ["version: 1".toList] :: [[]] :: rows.flatMap fun entry => entryParts entry ++ [[[]]]

/-- The lines of a store, from its version on. -/
def storeLines (rows : List StoredEntry) : List (List Char) :=
  "version: 1".toList :: [] :: rows.flatMap fun entry => entryLines entry ++ [[]]

theorem unfoldsTo_empty : UnfoldsTo [[]] [] :=
  unfoldsTo_single (noBreak_of_all (by decide)) (by decide)

variable {rows : List StoredEntry}

/-- A store's parts unfold to its lines. -/
theorem unfoldsTo_store (wellFormed : ∀ row ∈ rows, row.WellFormed) :
    List.Forall₂ UnfoldsTo (storeParts rows) (storeLines rows) := by
  have rowsUnfold :
      List.Forall₂ UnfoldsTo
        (rows.flatMap fun entry => entryParts entry ++ [[[]]])
        (rows.flatMap fun entry => entryLines entry ++ [[]]) := by
    induction rows with
    | nil => exact .nil
    | cons row rest ih =>
      rw [forall_mem_cons] at wellFormed
      exact
        rel_append
          (rel_append (unfoldsTo_entry wellFormed.1) (.cons unfoldsTo_empty .nil))
          (ih wellFormed.2)
  have versionUnfolds :
      UnfoldsTo ["version: 1".toList] "version: 1".toList :=
    unfoldsTo_single (noBreak_of_all (by decide)) (by decide)
  exact .cons versionUnfolds (.cons unfoldsTo_empty rowsUnfold)

theorem groups_isSome (unfold : List.Forall₂ UnfoldsTo groups lines) :
    ∀ group ∈ groups, group ≠ [] := by
  induction unfold with
  | nil => simp
  | cons first rest ih =>
    rw [forall_mem_cons]
    exact ⟨first.isSome, ih⟩

theorem groups_noBreak (unfold : List.Forall₂ UnfoldsTo groups lines) :
    ∀ part ∈ groups.flatten, NoBreak part := by
  induction unfold with
  | nil => simp
  | cons first rest ih =>
    rw [flatten_cons]
    intro part isPart
    rcases mem_append.mp isPart with inFirst | inRest
    · exact first.noBreak part inFirst
    · exact ih part inRest

/-- An entry's text is its parts, one a line. -/
theorem entryToLdif_eq (wellFormed : entry.WellFormed) :
    entryToLdif entry = join (entryParts entry).flatten := by
  rw [← join_map_join (groups_isSome (unfoldsTo_entry wellFormed))]
  unfold entryToLdif entryParts
  congr 1
  have pairLines :
      (entry.attributes.flatMap fun (name, values) =>
          values.map (ldifLine name)) =
        (valuePairs entry.attributes).map fun (name, value) =>
          ldifLine name value := by
    simp [valuePairs, map_flatMap, Function.comp_def]
  rw [pairLines]
  simp [ldifLine, Function.comp_def]

/-- The comments above a store. -/
def headerLines (header : List String) : List (List Char) :=
  header.map fun line => "# ".toList ++ line.toList

/-- A store's text is its comments and its parts, one a line. -/
theorem toLdif_eq (wellFormed : ∀ row ∈ rows, row.WellFormed) (header : List String) :
    (toLdif rows header).toList = join (headerLines header ++ (storeParts rows).flatten) := by
  have rowTexts :
      (rows.flatMap fun entry => [entryToLdif entry, []]) =
        (rows.flatMap fun entry =>
          [(entryParts entry).flatten, [[]]]).map join := by
    rw [map_flatMap]
    apply flatMap_congr
    intro row isRow
    simp [entryToLdif_eq (wellFormed row isRow)]
  have rowParts :
      (rows.flatMap fun entry =>
          [(entryParts entry).flatten, [[]]]).flatten =
        (rows.flatMap fun entry => entryParts entry ++ [[[]]]).flatten := by
    simp only [List.flatMap, flatten_flatten, map_map]
    congr 1
    simp [Function.comp_def]
  have allSome :
      ∀ group ∈ (headerLines header).map (fun line => [line]) ++
          [["version: 1".toList], [[]]] ++
          rows.flatMap fun entry => [(entryParts entry).flatten, [[]]],
        group ≠ [] := by
    intro group isGroup
    rcases mem_append.mp isGroup with inFront | inRows
    · rcases mem_append.mp inFront with inHeader | inVersion
      · obtain ⟨line, _, rfl⟩ := mem_map.mp inHeader
        simp
      · rcases mem_cons.mp inVersion with rfl | inEmpty
        · simp
        · rw [mem_singleton] at inEmpty
          rw [inEmpty]
          simp
    · obtain ⟨row, isRow, isOne⟩ := mem_flatMap.mp inRows
      rcases mem_cons.mp isOne with rfl | isEmpty
      · obtain ⟨first, others, shape⟩ : ∃ first others, (entryParts row) = first :: others := by
          cases parts : entryParts row with
          | nil => simp [entryParts] at parts
          | cons first others => exact ⟨first, others, rfl⟩
        have firstSome :=
          groups_isSome (unfoldsTo_entry (wellFormed row isRow)) first
            (by rw [shape]; exact mem_cons_self)
        rw [shape, flatten_cons]
        simp [firstSome]
      · rw [mem_singleton] at isEmpty
        rw [isEmpty]
        simp
  have headerParts :
      ((headerLines header).map fun line => [line]).flatten = headerLines header :=
    flatMap_singleton' _
  have joined := join_map_join allSome
  rw [map_append, map_append, ← rowTexts, flatten_append,
    flatten_append, rowParts, headerParts] at joined
  rw [toLdif, String.toList_ofList]
  simpa [headerLines, storeParts, Function.comp_def] using joined

/-- Lines none of which is a continuation unfold to themselves. -/
theorem unfold_fresh (notSpace : ∀ line ∈ lines, line.head? ≠ some ' ') (out : List (List Char)) :
    lines.foldl unfoldLine out = out ++ lines := by
  induction lines generalizing out with
  | nil => simp
  | cons line rest ih =>
    rw [forall_mem_cons] at notSpace
    rw [foldl_cons, unfoldLine_new notSpace.1,
      ih notSpace.2, append_assoc]
    rfl

/-- A comment is read as one, with or without a return at its end. -/
theorem stripReturn_comment (line : String) :
    stripReturn ("# ".toList ++ line.toList) = '#' :: stripReturn (' ' :: line.toList) :=
  stripReturn_cons '#' (by simp)

/-- A written store unfolds to its comments and its lines. -/
theorem unfold_toLdif (wellFormed : ∀ row ∈ rows, row.WellFormed) {header : List String}
    (noFeed : ∀ line ∈ header, '\n' ∉ line.toList) :
    unfold (toLdif rows header).toList =
      (headerLines header).map stripReturn ++ storeLines rows := by
  have unfolds := unfoldsTo_store wellFormed
  have partsNoBreak := groups_noBreak unfolds
  have partsSome : (storeParts rows).flatten ≠ [] := by simp [storeParts]
  have allSome : headerLines header ++ (storeParts rows).flatten ≠ [] := by simp [partsSome]
  have allNoFeed : ∀ line ∈ headerLines header ++ (storeParts rows).flatten, '\n' ∉ line := by
    intro line isLine
    rcases mem_append.mp isLine with inHeader | inParts
    · obtain ⟨text, isText, rfl⟩ := mem_map.mp inHeader
      have textNoFeed := noFeed text isText
      simpa using textNoFeed
    · exact (partsNoBreak line inParts).noFeed
  have lastKept :
      stripReturn
          ((headerLines header ++ (storeParts rows).flatten).getLast allSome) =
        (headerLines header ++ (storeParts rows).flatten).getLast
          allSome := by
    rw [getLast_append_of_right_ne_nil _ _ partsSome]
    exact (partsNoBreak _ (getLast_mem partsSome)).stripReturn_eq
  have partsKept : (storeParts rows).flatten.map stripReturn = (storeParts rows).flatten := by
    rw [map_congr_left fun part isPart => (partsNoBreak part isPart).stripReturn_eq]
    exact map_id' _
  have headerFresh : ∀ line ∈ (headerLines header).map stripReturn, line.head? ≠ some ' ' := by
    intro line isLine
    obtain ⟨_, isHeader, rfl⟩ := mem_map.mp isLine
    obtain ⟨text, _, rfl⟩ := mem_map.mp isHeader
    rw [stripReturn_comment]
    simp
  rw [unfold, toLdif_eq wellFormed, split_join_of_last allSome allNoFeed lastKept, map_append,
    partsKept, foldl_append, unfold_fresh headerFresh, unfold_groups unfolds, nil_append]

end IyaSts.PersistenceLdif
