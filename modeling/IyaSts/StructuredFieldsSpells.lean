import IyaSts.StructuredFieldsReads

namespace IyaSts.StructuredFields

/-!
# Fields read as they are spelled

The loops over parameters, items and members succeed exactly on the texts that
spell them, so that the whole parser accepts what RFC 8941 section 4.2 accepts
and answers what it answers.
-/

open Fallible List

/-! ## Repeated keys -/

theorem eraseDups_concat (keys : List String) (key : String) :
    (keys ++ [key]).eraseDups =
      if key ∈ keys then keys.eraseDups else keys.eraseDups ++ [key] := by
  rw [eraseDups_append, cons_removeAll]
  by_cases isKnown : key ∈ keys
  · simp [isKnown]
  · simp [isKnown, eraseDups_cons]

theorem nodup_eraseDups (keys : List String) : keys.eraseDups.Nodup := by
  induction keys using List.reverseRecOn with
  | nil => exact nodup_nil
  | append_singleton keys key ih =>
    rw [eraseDups_concat]
    split
    · exact ih
    · rename_i isNew
      refine nodup_append.mpr ⟨ih, nodup_singleton _, ?_⟩
      rintro known isKnown other isKey rfl
      rw [mem_singleton] at isKey
      rw [mem_eraseDups, isKey] at isKnown
      exact isNew isKnown

/-- What some keys have, in their order. -/
def ofKeys (keys : List String) (held : String → Option α) : List (String × α) :=
  keys.filterMap fun key => (held key).map fun value => (key, value)

variable {keys : List String} {text rest : List Char} {bare : BareItem}
    {pair : String × BareItem} {cur : Cursor} {item : Item} {separated : Separated}
    {fieldType : FieldType}

theorem ofKeys_congr {held held' : String → Option α} (same : ∀ key ∈ keys, held key = held' key) :
    ofKeys keys held = ofKeys keys held' := by
  refine filterMap_congr fun key isKey => ?_
  rw [same key isKey]

theorem put_cons (first : String × α) (rest : List (String × α)) (key : String) (value : α) :
    put (first :: rest) key value =
      if first.1 = key then (first.1, value) :: rest else first :: put rest key value := by
  rw [put, put, indexOfKey, indexOfKey, List.findIdx?_cons]
  by_cases isKey : first.1 = key
  · rw [if_pos isKey, if_pos (decide_eq_true isKey)]
    rfl
  · rw [if_neg isKey, if_neg (by simpa using isKey)]
    cases rest.findIdx? fun pair => decide (pair.1 = key) <;> rfl

/-- A value put in changes that of its key, or is the last. -/
theorem put_ofKeys (distinct : keys.Nodup) {held : String → Option α}
    (known : ∀ key ∈ keys, (held key).isSome = true) (key : String) (value : α) :
    put (ofKeys keys held) key value =
      ofKeys (if key ∈ keys then keys else keys ++ [key])
        (fun other => if other = key then some value else held other) := by
  induction keys with
  | nil =>
    rw [if_neg not_mem_nil, nil_append, ofKeys, ofKeys, filterMap_cons, if_pos rfl]
    rfl
  | cons first keys ih =>
    obtain ⟨isNew, distinct⟩ := nodup_cons.mp distinct
    obtain ⟨isKnown, others⟩ := forall_mem_cons.mp known
    obtain ⟨firstValue, isFirst⟩ := Option.isSome_iff_exists.mp isKnown
    have isOfKeys : ofKeys (first :: keys) held = (first, firstValue) :: ofKeys keys held := by
      rw [ofKeys, filterMap_cons, isFirst]
      rfl
    rw [isOfKeys, put_cons]
    by_cases isKey : first = key
    · subst isKey
      rw [if_pos rfl, if_pos mem_cons_self]
      have same : ofKeys keys held =
          ofKeys keys fun other => if other = first then some value else held other := by
        refine ofKeys_congr fun other isOther => ?_
        rw [if_neg]
        rintro rfl
        exact isNew isOther
      rw [same]
      conv_rhs => rw [ofKeys, filterMap_cons, if_pos rfl]
      rfl
    · have isMember : key ∈ first :: keys ↔ key ∈ keys := by
        rw [mem_cons]
        exact or_iff_right (Ne.symm isKey)
      have isKeys :
          (if key ∈ first :: keys then first :: keys else first :: keys ++ [key]) =
            first :: if key ∈ keys then keys else keys ++ [key] := by
        by_cases inKeys : key ∈ keys
        · rw [if_pos inKeys, if_pos (isMember.mpr inKeys)]
        · rw [if_neg inKeys, if_neg fun held => inKeys (isMember.mp held)]
          rfl
      rw [if_neg isKey, ih distinct others, isKeys]
      conv_rhs => rw [ofKeys, filterMap_cons, if_neg isKey, isFirst]
      rfl

/-- Putting pairs one after the other, the last value counts at the place of the first. -/
theorem foldl_put (pairs : List (String × α)) :
    pairs.foldl (fun held pair => put held pair.1 pair.2) [] = lastWins pairs := by
  induction pairs using List.reverseRecOn with
  | nil => rfl
  | append_singleton pairs pair ih =>
    have known :
        ∀ key ∈ (pairs.map Prod.fst).eraseDups, (pairs.reverse.lookup key).isSome = true := by
      intro key isKey
      rw [mem_eraseDups] at isKey
      obtain ⟨held, isHeld, rfl⟩ := mem_map.mp isKey
      exact lookup_isSome_iff.mpr ⟨held, mem_reverse.mpr isHeld, beq_self_eq_true _⟩
    have isLast := put_ofKeys (nodup_eraseDups (pairs.map Prod.fst)) known pair.1 pair.2
    have isLookup :
        (fun key => (pairs ++ [pair]).reverse.lookup key) = fun key =>
          if key = pair.1 then some pair.2 else pairs.reverse.lookup key := by
      funext key
      rw [reverse_append, reverse_singleton, singleton_append, lookup_cons]
      by_cases isKey : key = pair.1
      · rw [if_pos isKey, beq_iff_eq.mpr isKey]
      · rw [if_neg isKey, beq_false_of_ne isKey]
    have isSpelled : lastWins (pairs ++ [pair]) =
        ofKeys ((pairs ++ [pair]).map Prod.fst).eraseDups fun key =>
          (pairs ++ [pair]).reverse.lookup key := rfl
    rw [foldl_append, ih, foldl_cons, foldl_nil, isSpelled,
      isLookup, map_append, map_singleton, eraseDups_concat]
    simp only [mem_eraseDups] at isLast
    exact isLast

/-! ## White space -/

/-- A text that begins with something other than white space. -/
def Starts (text : List Char) : Prop := text ≠ [] ∧ Stops Ows text

theorem starts_cons {c : Char} (notSpace : c ≠ ' ') (notTab : c ≠ '\t') (text : List Char) :
    Starts (c :: text) :=
  ⟨cons_ne_nil _ _, stops_cons_iff.mpr fun isOws => isOws.elim notSpace notTab⟩

/-- White space before what does not begin with it is all of it that there is. -/
theorem spaced_iff {inClass : Char → Bool} {InClass : Char → Prop}
    (holds : ∀ c, inClass c = true ↔ InClass c) {relation : List Char → Prop}
    (starts : ∀ inner, relation inner → Stops InClass inner) {text : List Char} :
    (∃ spaces inner, text = spaces ++ inner ∧ All InClass spaces ∧ relation inner) ↔
      relation (text.dropWhile inClass) := by
  constructor
  · rintro ⟨spaces, inner, isText, areSpaces, isInner⟩
    obtain ⟨_, isRest⟩ := (takeWhile_iff holds).mp ⟨isText, areSpaces, starts inner isInner⟩
    rw [isRest]
    exact isInner
  · intro isInner
    obtain ⟨isText, areSpaces, _⟩ :=
      (takeWhile_iff holds).mpr ⟨@rfl _ (text.takeWhile inClass), rfl⟩
    exact ⟨_, _, isText, areSpaces, isInner⟩

variable {items : List Item} {memberAt : List Char → α → List Char → Prop} {members : List α}
    {field : Field} (c : Char)

theorem isSpace_iff : decide (c = ' ') = true ↔ c = ' ' := decide_eq_true_iff

theorem isOws_iff : (decide (c = ' ') || decide (c = '\t')) = true ↔ Ows c := by
  rw [Bool.or_eq_true, decide_eq_true_iff, decide_eq_true_iff, Ows]

theorem Starts.stops_space (starts : Starts text) : Stops (· = ' ') text :=
  fun c isFirst isSpace => starts.2 c isFirst (.inl isSpace)

theorem keyAt_starts {key : String} (isKey : KeyAt text key rest) : Starts text := by
  cases isKey with
  | word isStart isMore stops =>
    refine starts_cons ?_ ?_ _ <;> rintro rfl
    · exact absurd ((isKeyStart_iff ' ').mpr isStart) (by decide)
    · exact absurd ((isKeyStart_iff '\t').mpr isStart) (by decide)

theorem starts_of_head (notEmpty : text ≠ []) (notSpace : text.head? ≠ some ' ')
    (notTab : text.head? ≠ some '\t') :
    Starts text := by
  cases text with
  | nil => exact absurd rfl notEmpty
  | cons c text =>
    refine starts_cons ?_ ?_ text <;> rintro rfl
    · exact notSpace rfl
    · exact notTab rfl

/-- Something that a bare item may begin with. -/
def bareStarts (next : Option Char) : Bool :=
  next = some '-' || next.any isDigit || next = some '"' || next.any isTokenStart ||
    next = some ':' || next = some '?'

theorem bareItemAt_head (isBare : BareItemAt text bare rest) : bareStarts text.head? = true := by
  simp only [bareStarts, Bool.or_eq_true, decide_eq_true_iff]
  rcases bareItemAt_iff.mp isBare with
    ⟨numeric, _⟩ | ⟨quote, _⟩ | ⟨token, _⟩ | ⟨colon, _⟩ | ⟨mark, _⟩
  · exact .inl (.inl (.inl (.inl numeric)))
  · exact .inl (.inl (.inl (.inr quote)))
  · exact .inl (.inl (.inr token))
  · exact .inl (.inr colon)
  · exact .inr mark

theorem bareItemAt_starts (isBare : BareItemAt text bare rest) : Starts text := by
  have isFirst := bareItemAt_head isBare
  refine starts_of_head ?_ ?_ ?_
  · rintro rfl
    exact absurd isFirst (by decide)
  · intro isSpace
    rw [isSpace] at isFirst
    exact absurd isFirst (by decide)
  · intro isTab
    rw [isTab] at isFirst
    exact absurd isFirst (by decide)

/-! ## Parameters -/

theorem parameterAt_starts (isPair : ParameterAt text pair rest) : Starts text := by
  cases isPair with
  | flag isKey _ => exact keyAt_starts isKey
  | valued isKey _ => exact keyAt_starts isKey

/-- A parameter is read after its spaces. -/
theorem parseParameterAt_iff {rest : List Char} :
    (∃ next, parseParameterAt cur = .ok (pair, next) ∧ next.rest = rest) ↔
      ParameterAt (cur.rest.dropWhile fun c => c = ' ') pair rest := by
  have isDiscarded : cur.discardSP.rest = cur.rest.dropWhile fun c => c = ' ' :=
    cur.rest_skipWhile _
  rw [parseParameterAt, exists_bind_iff, ← isDiscarded]
  constructor
  · rintro ⟨key, between, keyRead, final, isRead, rfl⟩
    have isKey := (reads_parseKeyAt _ _ _).mp ⟨between, keyRead, rfl⟩
    dsimp only at isRead
    split at isRead
    · rename_i isSign
      obtain ⟨⟨value, last⟩, valueRead, isRead⟩ := (bind_eq_ok_iff _ _ _).mp isRead
      cases isRead
      rw [rest_of_peek isSign] at isKey
      exact .valued isKey ((reads_parseBareItemAt _ _ _).mp ⟨_, valueRead, rfl⟩)
    · rename_i notSign
      cases isRead
      refine .flag isKey fun c isFirst isSign => notSign ?_
      rw [Cursor.peek, ← isSign]
      exact isFirst
  · intro isPair
    cases isPair with
    | flag isKey stops =>
      obtain ⟨between, keyRead, isRest⟩ := (reads_parseKeyAt _ _ _).mpr isKey
      refine ⟨_, between, keyRead, between, ?_, isRest⟩
      dsimp only
      rw [if_neg]
      · rfl
      · intro isSign
        rw [Cursor.peek, isRest] at isSign
        exact stops '=' isSign rfl
    | valued isKey isValue =>
      obtain ⟨between, keyRead, isRest⟩ := (reads_parseKeyAt _ _ _).mpr isKey
      rw [← rest_advance_of_rest isRest] at isValue
      obtain ⟨final, valueRead, isFinal⟩ := (reads_parseBareItemAt _ _ _).mpr isValue
      refine ⟨_, between, keyRead, final, ?_, isFinal⟩
      dsimp only
      rw [if_pos (peek_of_rest isRest), valueRead]
      rfl

/-- The parameters that follow, in the text. -/
theorem parametersAt_iff {pairs : List (String × BareItem)} :
    ParametersAt text pairs rest ↔
      (text.head? ≠ some ';' ∧ pairs = [] ∧ text = rest) ∨
        ∃ tail pair between more,
          text = ';' :: tail ∧ ParameterAt (tail.dropWhile fun c => c = ' ') pair between ∧
            ParametersAt between more rest ∧ pairs = pair :: more := by
  constructor
  · intro areParameters
    cases areParameters with
    | none stops => exact .inl ⟨fun isFirst => stops ';' isFirst rfl, rfl, rfl⟩
    | more areSpaces isPair areMore =>
      refine .inr ⟨_, _, _, _, rfl, ?_, areMore, rfl⟩
      exact
        (@spaced_iff _ _ isSpace_iff (fun inner => ParameterAt inner _ _)
          (fun inner isPair => (parameterAt_starts isPair).stops_space) _).mp
          ⟨_, _, rfl, areSpaces, isPair⟩
  · rintro (⟨notSemicolon, rfl, rfl⟩ | ⟨tail, pair, between, more, rfl, isPair, areMore, rfl⟩)
    · refine .none fun c isFirst isSemicolon => notSemicolon ?_
      rw [← isSemicolon]
      exact isFirst
    · obtain ⟨spaces, inner, rfl, areSpaces, isInner⟩ :=
        (@spaced_iff _ _ isSpace_iff (fun inner => ParameterAt inner pair between)
          (fun inner isPair => (parameterAt_starts isPair).stops_space) tail).mpr isPair
      exact .more areSpaces isInner areMore

/-- The loop over parameters puts each that is there. -/
theorem parametersFrom_iff {params params' : Parameters} {rest : List Char} :
    (∃ next, parametersFrom params cur = .ok (params', next) ∧ next.rest = rest) ↔
      ∃ pairs,
        ParametersAt cur.rest pairs rest ∧
          params' = pairs.foldl (fun held pair => put held pair.1 pair.2) params := by
  fun_induction parametersFrom params cur with
  | case1 params cur isNext error isRead =>
    refine iff_of_false ?_ ?_
    · rintro ⟨next, ⟨⟩, _⟩
    · rintro ⟨pairs, areParameters, _⟩
      rcases parametersAt_iff.mp areParameters with
        ⟨notSemicolon, _⟩ | ⟨tail, pair, between, more, isText, isPair, _⟩
      · exact notSemicolon isNext
      · rw [← rest_advance_of_rest isText] at isPair
        obtain ⟨next, pairRead, _⟩ := parseParameterAt_iff.mpr isPair
        rw [isRead] at pairRead
        cases pairRead
  | case2 params cur isNext key value after isRead ih =>
    rw [ih]
    have isPair := parseParameterAt_iff.mp ⟨after, isRead, rfl⟩
    constructor
    · rintro ⟨pairs, areParameters, rfl⟩
      refine ⟨(key, value) :: pairs, ?_, rfl⟩
      exact parametersAt_iff.mpr (.inr ⟨_, _, _, _, rest_of_peek isNext, isPair, areParameters, rfl⟩)
    · rintro ⟨pairs, areParameters, rfl⟩
      rcases parametersAt_iff.mp areParameters with
        ⟨notSemicolon, _⟩ | ⟨tail, pair, between, more, isText, isPair', areMore, rfl⟩
      · exact absurd isNext notSemicolon
      · rw [← rest_advance_of_rest isText] at isPair'
        obtain ⟨next, pairRead, rfl⟩ := parseParameterAt_iff.mpr isPair'
        rw [isRead] at pairRead
        cases pairRead
        exact ⟨more, areMore, rfl⟩
  | case3 params cur notNext =>
    constructor
    · rintro ⟨next, isRead, rfl⟩
      cases isRead
      exact ⟨[], parametersAt_iff.mpr (.inl ⟨notNext, rfl, rfl⟩), rfl⟩
    · rintro ⟨pairs, areParameters, rfl⟩
      rcases parametersAt_iff.mp areParameters with
        ⟨_, rfl, isRest⟩ | ⟨tail, pair, between, more, isText, _⟩
      · exact ⟨_, rfl, isRest⟩
      · exact absurd (peek_of_rest isText) notNext

theorem parseParametersAt_iff {params : Parameters} {rest : List Char} :
    (∃ next, parseParametersAt cur = .ok (params, next) ∧ next.rest = rest) ↔
      ∃ pairs, ParametersAt cur.rest pairs rest ∧ params = lastWins pairs := by
  rw [parseParametersAt, parametersFrom_iff]
  simp only [foldl_put]

/-! ## Items -/

theorem reads_parseItemAt : Reads parseItemAt ItemAt := by
  intro cur item rest
  rw [parseItemAt, exists_bind_iff]
  constructor
  · rintro ⟨bare, between, bareRead, final, isRead, isRest⟩
    obtain ⟨⟨params, last⟩, paramsRead, isRead⟩ := (bind_eq_ok_iff _ _ _).mp isRead
    cases isRead
    obtain ⟨pairs, areParameters, rfl⟩ := parseParametersAt_iff.mp ⟨_, paramsRead, isRest⟩
    exact .item ((reads_parseBareItemAt _ _ _).mp ⟨_, bareRead, rfl⟩) areParameters
  · intro isItem
    cases isItem with
    | item isBare areParameters =>
      obtain ⟨between, bareRead, rfl⟩ := (reads_parseBareItemAt _ _ _).mpr isBare
      obtain ⟨final, paramsRead, isRest⟩ := parseParametersAt_iff.mpr ⟨_, areParameters, rfl⟩
      refine ⟨_, between, bareRead, final, ?_, isRest⟩
      dsimp only
      rw [paramsRead]
      rfl

theorem itemAt_starts (isItem : ItemAt text item rest) : Starts text := by
  cases isItem with
  | item isBare _ => exact bareItemAt_starts isBare

theorem itemAt_head (isItem : ItemAt text item rest) : bareStarts text.head? = true := by
  cases isItem with
  | item isBare _ => exact bareItemAt_head isBare

/-! ## Inner Lists -/

/-- The items of an Inner List that follow, in the text. -/
theorem innerItemsAt_iff :
    InnerItemsAt text items rest ↔
    (items = [] ∧ (text.dropWhile fun c => c = ' ') = ')' :: rest) ∨
        ∃ item between more,
          ItemAt (text.dropWhile fun c => c = ' ') item between ∧
            (between.head? = some ' ' ∨ between.head? = some ')') ∧
            InnerItemsAt between more rest ∧ items = item :: more := by
  have closes :=
    @spaced_iff _ _ isSpace_iff (fun inner => inner = ')' :: rest) (fun inner isClosed => by
        rw [isClosed]
        exact (starts_cons (by decide) (by decide) rest).stops_space)
      text
  have begins (item : Item) (between : List Char) :=
    @spaced_iff _ _ isSpace_iff (fun inner => ItemAt inner item between)
      (fun inner isItem => (itemAt_starts isItem).stops_space) text
  rw [← closes]
  simp only [← begins]
  constructor
  · intro areItems
    cases areItems with
    | closed areSpaces => exact .inl ⟨rfl, _, _, rfl, areSpaces, rfl⟩
    | more areSpaces isItem isSeparated areMore =>
      exact .inr ⟨_, _, _, ⟨_, _, rfl, areSpaces, isItem⟩, isSeparated, areMore, rfl⟩
  · rintro (⟨rfl, spaces, inner, rfl, areSpaces, rfl⟩ |
      ⟨item, between, more, ⟨spaces, inner, rfl, areSpaces, isItem⟩, isSeparated, areMore, rfl⟩)
    · exact .closed areSpaces
    · exact .more areSpaces isItem isSeparated areMore

theorem rest_discardSP (cur : Cursor) : cur.discardSP.rest = cur.rest.dropWhile fun c => c = ' ' :=
  cur.rest_skipWhile _

/-- The loop over the items of an Inner List reads each that is there. -/
theorem innerListFrom_iff {innerList : InnerList} {rest : List Char} :
    (∃ next, innerListFrom items cur = .ok (innerList, next) ∧ next.rest = rest) ↔
      ∃ more between pairs,
        InnerItemsAt cur.rest more between ∧ ParametersAt between pairs rest ∧
          innerList = { value := items ++ more, params := lastWins pairs } := by
  fun_induction innerListFrom items cur with
  | case1 items cur isEmpty =>
    refine iff_of_false ?_ ?_
    · rintro ⟨next, ⟨⟩, _⟩
    · rintro ⟨more, between, pairs, areItems, _⟩
      rw [isEmpty] at areItems
      rcases innerItemsAt_iff.mp areItems with ⟨_, isClosed⟩ | ⟨item, after, _, isItem, _⟩
      · cases isClosed
      · exact (itemAt_starts isItem).1 rfl
  | case2 items cur notEmpty isClosed =>
    have isText := rest_of_peek isClosed
    rw [exists_bind_iff]
    constructor
    · rintro ⟨params, between, paramsRead, final, isRead, rfl⟩
      cases isRead
      obtain ⟨pairs, areParameters, rfl⟩ := parseParametersAt_iff.mp ⟨_, paramsRead, rfl⟩
      refine ⟨[], _, pairs, innerItemsAt_iff.mpr (.inl ⟨rfl, ?_⟩), areParameters, ?_⟩
      · rw [← rest_discardSP, isText]
      · rw [append_nil]
    · rintro ⟨more, between, pairs, areItems, areParameters, rfl⟩
      rcases innerItemsAt_iff.mp areItems with ⟨rfl, isRest⟩ | ⟨item, after, _, isItem, _⟩
      · rw [← rest_discardSP, isText] at isRest
        rw [← (List.cons.inj isRest).2] at areParameters
        obtain ⟨final, paramsRead, isFinal⟩ := parseParametersAt_iff.mpr ⟨_, areParameters, rfl⟩
        rw [append_nil]
        exact ⟨_, final, paramsRead, final, rfl, isFinal⟩
      · rw [← rest_discardSP, isText] at isItem
        exact absurd (itemAt_head isItem) (by rw [List.head?_cons]; decide)
  | case3 items cur notEmpty notClosed error isRead =>
    refine iff_of_false ?_ ?_
    · rintro ⟨next, ⟨⟩, _⟩
    · rintro ⟨more, between, pairs, areItems, _⟩
      rcases innerItemsAt_iff.mp areItems with ⟨_, isClosed⟩ | ⟨item, after, _, isItem, _⟩
      · rw [← rest_discardSP] at isClosed
        exact notClosed (peek_of_rest isClosed)
      · rw [← rest_discardSP] at isItem
        obtain ⟨final, itemRead, _⟩ := (reads_parseItemAt _ _ _).mpr isItem
        rw [isRead] at itemRead
        cases itemRead
  | case4 items cur notEmpty notClosed item next isRead notSeparated =>
    refine iff_of_false ?_ ?_
    · rintro ⟨next, ⟨⟩, _⟩
    · rintro ⟨more, between, pairs, areItems, _⟩
      rcases innerItemsAt_iff.mp areItems with
        ⟨_, isClosed⟩ | ⟨item, after, _, isItem, isSeparated, _⟩
      · rw [← rest_discardSP] at isClosed
        exact notClosed (peek_of_rest isClosed)
      · rw [← rest_discardSP] at isItem
        obtain ⟨final, itemRead, rfl⟩ := (reads_parseItemAt _ _ _).mpr isItem
        rw [isRead] at itemRead
        cases itemRead
        exact isSeparated.elim notSeparated.1 notSeparated.2
  | case5 items cur notEmpty notClosed item next isRead isSeparated ih =>
    rw [ih]
    have isItem := (reads_parseItemAt _ _ _).mp ⟨next, isRead, rfl⟩
    have separated : next.rest.head? = some ' ' ∨ next.rest.head? = some ')' := by
      by_contra notEither
      exact isSeparated (not_or.mp notEither)
    rw [rest_discardSP] at isItem
    constructor
    · rintro ⟨more, between, pairs, areItems, areParameters, rfl⟩
      refine
        ⟨item :: more, between, pairs, innerItemsAt_iff.mpr (.inr ⟨_, _, _, isItem, separated,
          areItems, rfl⟩), areParameters, ?_⟩
      rw [append_cons items item more]
    · rintro ⟨items', between, pairs, areItems, areParameters, rfl⟩
      rcases innerItemsAt_iff.mp areItems with
        ⟨_, isClosed⟩ | ⟨item', after, more, isItem', _, areMore, rfl⟩
      · rw [← rest_discardSP] at isClosed
        exact absurd (peek_of_rest isClosed) notClosed
      · rw [← rest_discardSP] at isItem'
        obtain ⟨final, itemRead, rfl⟩ := (reads_parseItemAt _ _ _).mpr isItem'
        rw [isRead] at itemRead
        cases itemRead
        refine ⟨more, between, pairs, areMore, areParameters, ?_⟩
        rw [append_cons items item more]

/-! ## Members -/

theorem reads_parseItemOrInnerListAt : Reads parseItemOrInnerListAt MemberAt := by
  intro cur member rest
  rw [parseItemOrInnerListAt]
  by_cases isOpened : cur.peek = some '('
  · have isText := rest_of_peek isOpened
    rw [if_pos isOpened, exists_map_iff, parseInnerListAt, if_neg (not_not.mpr isOpened)]
    simp only [innerListFrom_iff]
    rw [isText]
    constructor
    · rintro ⟨_, ⟨items, between, pairs, areItems, areParameters, rfl⟩, rfl⟩
      exact .innerList areItems areParameters
    · intro isMember
      cases isMember with
      | item isItem => exact absurd (itemAt_head isItem) (by rw [List.head?_cons]; decide)
      | innerList areItems areParameters => exact ⟨_, ⟨_, _, _, areItems, areParameters, rfl⟩, rfl⟩
  · rw [if_neg isOpened, exists_map_iff]
    simp only [reads_parseItemAt cur _ _]
    constructor
    · rintro ⟨item, isItem, rfl⟩
      exact .item isItem
    · generalize isShape : cur.rest = text
      intro isMember
      cases isMember with
      | item isItem => exact ⟨_, isItem, rfl⟩
      | innerList _ _ => exact absurd (peek_of_rest isShape) isOpened

theorem memberAt_starts {member : Member} (isMember : MemberAt text member rest) : Starts text := by
  cases isMember with
  | item isItem => exact itemAt_starts isItem
  | innerList _ _ => exact starts_cons (by decide) (by decide) _

/-- One member of a Dictionary is read with its key. -/
theorem reads_parseMemberAt : Reads parseMemberAt PairAt := by
  intro cur pair rest
  rw [parseMemberAt, exists_bind_iff]
  constructor
  · rintro ⟨key, between, keyRead, final, isRead, isRest⟩
    have isKey := (reads_parseKeyAt _ _ _).mp ⟨between, keyRead, rfl⟩
    dsimp only at isRead
    split at isRead
    · rename_i isSign
      obtain ⟨⟨member, last⟩, memberRead, isRead⟩ := (bind_eq_ok_iff _ _ _).mp isRead
      cases isRead
      rw [rest_of_peek isSign] at isKey
      exact .valued isKey ((reads_parseItemOrInnerListAt _ _ _).mp ⟨_, memberRead, isRest⟩)
    · rename_i notSign
      obtain ⟨⟨params, last⟩, paramsRead, isRead⟩ := (bind_eq_ok_iff _ _ _).mp isRead
      cases isRead
      obtain ⟨pairs, areParameters, rfl⟩ := parseParametersAt_iff.mp ⟨_, paramsRead, isRest⟩
      refine .flag isKey (fun c isFirst isSign => notSign ?_) areParameters
      rw [Cursor.peek, ← isSign]
      exact isFirst
  · intro isPair
    cases isPair with
    | flag isKey stops areParameters =>
      obtain ⟨between, keyRead, rfl⟩ := (reads_parseKeyAt _ _ _).mpr isKey
      obtain ⟨final, paramsRead, isFinal⟩ := parseParametersAt_iff.mpr ⟨_, areParameters, rfl⟩
      refine ⟨_, between, keyRead, final, ?_, isFinal⟩
      dsimp only
      have notSign : ¬between.peek = some '=' := fun isSign => stops '=' isSign rfl
      rw [if_neg notSign, paramsRead]
      rfl
    | valued isKey isMember =>
      obtain ⟨between, keyRead, isRest⟩ := (reads_parseKeyAt _ _ _).mpr isKey
      rw [← rest_advance_of_rest isRest] at isMember
      obtain ⟨final, memberRead, isFinal⟩ := (reads_parseItemOrInnerListAt _ _ _).mpr isMember
      refine ⟨_, between, keyRead, final, ?_, isFinal⟩
      dsimp only
      rw [if_pos (peek_of_rest isRest), memberRead]
      rfl

theorem pairAt_starts {pair : String × Member} (isPair : PairAt text pair rest) : Starts text := by
  cases isPair with
  | flag isKey _ _ => exact keyAt_starts isKey
  | valued isKey _ => exact keyAt_starts isKey

/-- A comma with white space around it, and then something. -/
def Follows (between next : List Char) : Prop :=
  ∃ spaces spaces',
    between = spaces ++ ',' :: (spaces' ++ next) ∧ All Ows spaces ∧ All Ows spaces' ∧ Starts next

theorem rest_discardOWS (cur : Cursor) :
    cur.discardOWS.rest = cur.rest.dropWhile fun c => c = ' ' || c = '\t' :=
  cur.rest_skipWhile _

/-- A text of one class is skipped to its end. -/
theorem dropWhile_eq_nil_iff {inClass : Char → Bool} {InClass : Char → Prop}
    (holds : ∀ c, inClass c = true ↔ InClass c) (text : List Char) :
    text.dropWhile inClass = [] ↔ All InClass text := by
  constructor
  · intro isNil
    obtain ⟨isText, allTaken, _⟩ := (takeWhile_iff holds).mpr ⟨rfl, isNil⟩
    rw [append_nil] at isText
    rw [isText]
    exact allTaken
  · intro allTaken
    exact ((takeWhile_iff holds).mp ⟨(append_nil text).symm, allTaken, stops_nil⟩).2

/-- After the last member there is only white space. -/
theorem afterMember_eq_none_iff {cur : Cursor} :
    afterMember separated cur = .ok none ↔ All Ows cur.rest := by
  rw [← dropWhile_eq_nil_iff isOws_iff, ← rest_discardOWS, afterMember]
  dsimp only
  by_cases isEmpty : cur.discardOWS.rest = []
  · rw [if_pos isEmpty]
    exact iff_of_true rfl isEmpty
  · rw [if_neg isEmpty]
    refine iff_of_false ?_ isEmpty
    split
    · rintro ⟨⟩
    · split <;> rintro ⟨⟩

/-- Before another member there is a comma, and it is not the last of the text. -/
theorem afterMember_eq_some_iff {separated : Separated} {cur : Cursor} {text : List Char} :
    (∃ next, afterMember separated cur = .ok (some next) ∧ next.rest = text) ↔
      Follows cur.rest text := by
  rw [afterMember]
  dsimp only
  constructor
  · rintro ⟨next, isRead, rfl⟩
    split at isRead
    · cases isRead
    split at isRead
    · cases isRead
    rename_i isComma
    split at isRead
    · cases isRead
    rename_i notEnd
    cases isRead
    have isText := rest_of_peek (not_not.mp isComma)
    have isNext := rest_discardOWS (cur.discardOWS.advance 1)
    rw [rest_discardOWS] at isText
    obtain ⟨isBetween, areSpaces, _⟩ := (takeWhile_iff isOws_iff).mpr ⟨rfl, isText⟩
    obtain ⟨isTail, areSpaces', stops⟩ := (takeWhile_iff isOws_iff).mpr ⟨rfl, isNext.symm⟩
    refine ⟨_, _, ?_, areSpaces, areSpaces', notEnd, stops⟩
    rw [← isTail]
    exact isBetween
  · rintro ⟨spaces, spaces', isBetween, areSpaces, areSpaces', notEmpty, stops⟩
    have notOws : ¬Ows ',' := by
      rintro (isSpace | isTab)
      · cases isSpace
      · cases isTab
    have isText := ((takeWhile_iff isOws_iff).mp ⟨isBetween, areSpaces, stops_cons_iff.mpr notOws⟩).2
    have isNext := ((takeWhile_iff isOws_iff).mp ⟨rfl, areSpaces', stops⟩).2
    rw [← rest_discardOWS] at isText
    have isRest : (cur.discardOWS.advance 1).discardOWS.rest = text := by
      rw [rest_discardOWS, rest_advance_of_rest isText, isNext]
    have some : cur.discardOWS.rest ≠ [] := by
      rw [isText]
      exact cons_ne_nil _ _
    rw [if_neg some, if_neg (not_not.mpr (peek_of_rest isText)), if_neg (isRest ▸ notEmpty)]
    exact ⟨_, rfl, isRest⟩

/-- The members that follow, in the text. -/
theorem membersAt_iff (starts : ∀ {text member rest}, memberAt text member rest → Starts text) :
    MembersAt memberAt text members ↔
      ∃ member between more,
        memberAt text member between ∧ members = member :: more ∧
          ((more = [] ∧ All Ows between) ∨
            ∃ next, Follows between next ∧ MembersAt memberAt next more) := by
  constructor
  · intro areMembers
    cases areMembers with
    | last isMember areSpaces => exact ⟨_, _, [], isMember, rfl, .inl ⟨rfl, areSpaces⟩⟩
    | more isMember areSpaces areSpaces' areMore =>
      refine ⟨_, _, _, isMember, rfl, .inr ⟨_, ⟨_, _, rfl, areSpaces, areSpaces', ?_⟩, areMore⟩⟩
      cases areMore with
      | last isNext _ => exact starts isNext
      | more isNext _ _ _ => exact starts isNext
  · rintro ⟨member, between, more, isMember, rfl, ⟨rfl, areSpaces⟩ |
      ⟨next, ⟨spaces, spaces', rfl, areSpaces, areSpaces', _⟩, areMore⟩⟩
    · exact .last isMember areSpaces
    · exact .more isMember areSpaces areSpaces' areMore

theorem not_membersAt_nil (starts : ∀ {text member rest}, memberAt text member rest → Starts text) :
    ¬MembersAt memberAt [] members := by
  intro areMembers
  obtain ⟨member, between, more, isMember, _⟩ := (membersAt_iff starts).mp areMembers
  exact (starts isMember).1 rfl

/-- The members that follow are read one after the other. -/
theorem membersAt_read_iff {parse : Cursor → Except String (α × Cursor)}
    {memberAt : List Char → α → List Char → Prop} (reads : Reads parse memberAt)
    (starts : ∀ {text member rest}, memberAt text member rest → Starts text)
    (separated : Separated) {cur : Cursor} {members : List α} :
    MembersAt memberAt cur.rest members ↔
      ∃ member next more,
        parse cur = .ok (member, next) ∧ members = member :: more ∧
          ((more = [] ∧ afterMember separated next = .ok none) ∨
            ∃ next',
              afterMember separated next = .ok (some next') ∧ MembersAt memberAt next'.rest more) := by
  rw [membersAt_iff starts]
  constructor
  · rintro ⟨member, between, more, isMember, isMembers, areMore⟩
    obtain ⟨next, memberRead, rfl⟩ := (reads _ _ _).mpr isMember
    refine ⟨member, next, more, memberRead, isMembers, areMore.imp ?_ ?_⟩
    · rintro ⟨isLast, areSpaces⟩
      exact ⟨isLast, afterMember_eq_none_iff.mpr areSpaces⟩
    · rintro ⟨text, isNext, areMore⟩
      obtain ⟨next', isAfter, rfl⟩ := (@afterMember_eq_some_iff separated _ _).mpr isNext
      exact ⟨next', isAfter, areMore⟩
  · rintro ⟨member, next, more, memberRead, isMembers, areMore⟩
    refine
      ⟨member, next.rest, more, (reads _ _ _).mp ⟨next, memberRead, rfl⟩, isMembers,
        areMore.imp ?_ ?_⟩
    · rintro ⟨isLast, isAfter⟩
      exact ⟨isLast, afterMember_eq_none_iff.mp isAfter⟩
    · rintro ⟨next', isAfter, areMore⟩
      exact ⟨next'.rest, afterMember_eq_some_iff.mp ⟨next', isAfter, rfl⟩, areMore⟩

theorem rest_atEnd (isAfter : afterMember separated cur = .ok none) : cur.atEnd.rest = [] := by
  rw [Cursor.atEnd, rest_discardOWS, dropWhile_eq_nil_iff isOws_iff]
  exact afterMember_eq_none_iff.mp isAfter

/-- A loop over members reads each that is there, to the end. -/
theorem membersLoop_iff {α β : Type} {parse : Cursor → Except String (α × Cursor)}
    {memberAt : List Char → α → List Char → Prop} (reads : Reads parse memberAt)
    (starts : ∀ {text member rest}, memberAt text member rest → Starts text)
    (shortens : ∀ cur, Shortens cur (parse cur)) {separated : Separated} {add : β → α → β}
    {loop : β → Cursor → Except String (β × Cursor)}
    (round :
      ∀ held cur,
        loop held cur =
          if cur.rest = [] then
            .ok (held, cur)
          else do
            let (member, next) ← parse cur
            match ← afterMember separated next with
            | none => .ok (add held member, next.atEnd)
            | some next' => loop (add held member) next')
    {held final : β}
    {cur : Cursor}
    {rest : List Char} :
    (∃ next, loop held cur = .ok (final, next) ∧ next.rest = rest) ↔
      rest = [] ∧
        ∃ members,
          (cur.rest = [] ∧ members = [] ∨ MembersAt memberAt cur.rest members) ∧
            final = members.foldl add held := by
  induction isLength : cur.rest.length using Nat.strong_induction_on generalizing held cur with
  | h length ih =>
    rw [round]
    by_cases isEmpty : cur.rest = []
    · rw [if_pos isEmpty]
      constructor
      · rintro ⟨next, isRead, rfl⟩
        cases isRead
        exact ⟨isEmpty, [], .inl ⟨isEmpty, rfl⟩, rfl⟩
      · rintro ⟨rfl, members, ⟨_, rfl⟩ | areMembers, rfl⟩
        · exact ⟨_, rfl, isEmpty⟩
        · rw [isEmpty] at areMembers
          exact absurd areMembers (not_membersAt_nil starts)
    · rw [if_neg isEmpty]
      have areRead (members : List α) :=
        @membersAt_read_iff _ _ _ reads starts separated cur members
      simp only [isEmpty, false_and, false_or]
      rw [exists_bind_iff]
      constructor
      · rintro ⟨member, next, memberRead, last, isRead, isRest⟩
        obtain ⟨after, isAfter, isRead⟩ := (bind_eq_ok_iff _ _ _).mp isRead
        cases after with
        | none =>
          cases isRead
          rw [rest_atEnd isAfter] at isRest
          exact
            ⟨isRest.symm, [member],
              (areRead _).mpr ⟨member, next, [], memberRead, rfl, .inl ⟨rfl, isAfter⟩⟩, rfl⟩
        | some next' =>
          have shorter : next'.rest.length < length := by
            rw [← isLength]
            exact Nat.lt_of_le_of_lt (afterMember_le isAfter) (shortens cur memberRead)
          obtain ⟨isEnd, members, areMembers, rfl⟩ := (ih _ shorter rfl).mp ⟨last, isRead, isRest⟩
          refine
            ⟨isEnd, member :: members, (areRead _).mpr
                ⟨member, next, members, memberRead, rfl, .inr ⟨next', isAfter, ?_⟩⟩, rfl⟩
          obtain ⟨_, _, _, _, _, notEnd⟩ :=
            (@afterMember_eq_some_iff separated _ _).mp ⟨next', isAfter, rfl⟩
          exact areMembers.resolve_left fun ended => notEnd.1 ended.1
      · rintro ⟨rfl, members, areMembers, rfl⟩
        obtain ⟨member, next, more, memberRead, rfl, isMore⟩ := (areRead _).mp areMembers
        refine ⟨member, next, memberRead, ?_⟩
        rcases isMore with ⟨rfl, isAfter⟩ | ⟨next', isAfter, areMore⟩
        · exact ⟨next.atEnd, (bind_eq_ok_iff _ _ _).mpr ⟨none, isAfter, rfl⟩, rest_atEnd isAfter⟩
        · have shorter : next'.rest.length < length := by
            rw [← isLength]
            exact Nat.lt_of_le_of_lt (afterMember_le isAfter) (shortens cur memberRead)
          obtain ⟨last, isRead, isRest⟩ := (ih _ shorter rfl).mpr ⟨rfl, more, .inr areMore, rfl⟩
          exact ⟨last, (bind_eq_ok_iff _ _ _).mpr ⟨some next', isAfter, isRead⟩, isRest⟩

theorem parseListAt_iff {members : List Member} {rest : List Char} :
    (∃ next, parseListAt cur = .ok (members, next) ∧ next.rest = rest) ↔
      rest = [] ∧ (cur.rest = [] ∧ members = [] ∨ MembersAt MemberAt cur.rest members) := by
  have isLoop :=
    @membersLoop_iff _ _ _ _ reads_parseItemOrInnerListAt memberAt_starts
      parseItemOrInnerListAt_shortens .list (fun held member => held ++ [member]) listFrom
      listFrom_eq [] members cur rest
  have isFold (members : List Member) :
      members.foldl (fun held member => held ++ [member]) [] = members := by
    induction members using List.reverseRecOn with
    | nil => rfl
    | append_singleton members member ih =>
      rw [foldl_append, ih]
      rfl
  simp only [isFold] at isLoop
  rw [parseListAt, isLoop]
  refine and_congr_right fun _ => ?_
  constructor
  · rintro ⟨_, areMembers, rfl⟩
    exact areMembers
  · exact fun areMembers => ⟨_, areMembers, rfl⟩

theorem members_foldl_put (pairs : List (String × Member)) (held : Dictionary) :
    (pairs.foldl (fun held pair => held.put pair.1 pair.2) held).members =
      pairs.foldl (fun held pair => put held pair.1 pair.2) held.members := by
  induction pairs generalizing held with
  | nil => rfl
  | cons pair pairs ih => exact ih _

theorem parseDictionaryAt_iff {members : List (String × Member)} {rest : List Char} :
    (∃ dictionary next,
        parseDictionaryAt cur = .ok (dictionary, next) ∧ next.rest = rest ∧
          dictionary.members = members) ↔
      rest = [] ∧
        ∃ pairs,
          (cur.rest = [] ∧ pairs = [] ∨ MembersAt PairAt cur.rest pairs) ∧
            members = lastWins pairs := by
  have isLoop (dictionary : Dictionary) :=
    @membersLoop_iff _ _ _ _ reads_parseMemberAt pairAt_starts parseMemberAt_shortens .dictionary
      (fun held pair => held.put pair.1 pair.2) dictionaryFrom dictionaryFrom_eq
      { members := [], duplicates := [] } dictionary cur rest
  rw [parseDictionaryAt]
  constructor
  · rintro ⟨dictionary, next, isRead, isRest, rfl⟩
    obtain ⟨isEnd, pairs, arePairs, rfl⟩ := (isLoop dictionary).mp ⟨next, isRead, isRest⟩
    refine ⟨isEnd, pairs, arePairs, ?_⟩
    rw [members_foldl_put, foldl_put]
  · rintro ⟨isEnd, pairs, arePairs, rfl⟩
    obtain ⟨next, isRead, isRest⟩ := (isLoop _).mpr ⟨isEnd, pairs, arePairs, rfl⟩
    refine ⟨_, next, isRead, isRest, ?_⟩
    rw [members_foldl_put, foldl_put]

/-! ## Fields -/

theorem exists_read_map_iff {α β : Type} (read : Except String (α × Cursor)) (type : α → β)
    (Wanted : β → List Char → Prop) :
    (∃ value next,
        (read.map fun (held, cur) => (type held, cur)) = .ok (value, next) ∧
          Wanted value next.rest) ↔
      ∃ held next, read = .ok (held, next) ∧ Wanted (type held) next.rest := by
  cases read with
  | error message =>
    refine iff_of_false ?_ ?_
    · rintro ⟨value, next, ⟨⟩, _⟩
    · rintro ⟨held, next, ⟨⟩, _⟩
  | ok result =>
    constructor
    · rintro ⟨value, next, isRead, wanted⟩
      cases isRead
      exact ⟨_, _, rfl, wanted⟩
    · rintro ⟨held, next, isRead, wanted⟩
      cases isRead
      exact ⟨_, _, rfl, wanted⟩

/-- A field is read to the spaces at its end exactly where a text spells it. -/
theorem parseFieldAt_iff :
    (∃ parsed next,
        parseFieldAt fieldType cur = .ok (parsed, next) ∧ All (· = ' ') next.rest ∧
          parsed.field = field) ↔
      FieldAt fieldType cur.rest field := by
  cases fieldType with
  | list =>
    refine
      (exists_read_map_iff (parseListAt cur)
        (fun members => ({ field := .list members, duplicates := [] } : Parsed))
        fun parsed rest => All (· = ' ') rest ∧ parsed.field = field).trans ?_
    constructor
    · rintro ⟨members, next, isRead, _, rfl⟩
      rcases (parseListAt_iff.mp ⟨next, isRead, rfl⟩).2 with ⟨isEmpty, rfl⟩ | areMembers
      · rw [isEmpty]
        exact .noMembers
      · exact .list areMembers
    · generalize isShape : cur.rest = text
      intro isField
      have isList :
          ∃ members,
            (cur.rest = [] ∧ members = [] ∨ MembersAt MemberAt cur.rest members) ∧
              Field.list members = field := by
        cases isField with
        | noMembers => exact ⟨[], .inl ⟨isShape, rfl⟩, rfl⟩
        | list areMembers => exact ⟨_, .inr (isShape ▸ areMembers), rfl⟩
      obtain ⟨members, areMembers, isList⟩ := isList
      obtain ⟨next, isRead, isEnd⟩ := parseListAt_iff.mpr ⟨rfl, areMembers⟩
      refine ⟨members, next, isRead, ?_, isList⟩
      rw [isEnd]
      exact forall_mem_nil _
  | dictionary =>
    refine
      (exists_read_map_iff (parseDictionaryAt cur)
        (fun dictionary =>
          ({ field := .dictionary dictionary.members, duplicates := dictionary.duplicates } :
            Parsed))
        fun parsed rest => All (· = ' ') rest ∧ parsed.field = field).trans ?_
    constructor
    · rintro ⟨dictionary, next, isRead, _, rfl⟩
      obtain ⟨_, pairs, arePairs, isLast⟩ :=
        parseDictionaryAt_iff.mp ⟨dictionary, next, isRead, rfl, rfl⟩
      dsimp only
      rw [isLast]
      rcases arePairs with ⟨isEmpty, rfl⟩ | arePairs
      · rw [isEmpty]
        exact .noPairs
      · exact .dictionary arePairs
    · generalize isShape : cur.rest = text
      intro isField
      have isDictionary :
          ∃ pairs,
            (cur.rest = [] ∧ pairs = [] ∨ MembersAt PairAt cur.rest pairs) ∧
              Field.dictionary (lastWins pairs) = field := by
        cases isField with
        | noPairs => exact ⟨[], .inl ⟨isShape, rfl⟩, rfl⟩
        | dictionary arePairs => exact ⟨_, .inr (isShape ▸ arePairs), rfl⟩
      obtain ⟨pairs, arePairs, isDictionary⟩ := isDictionary
      obtain ⟨dictionary, next, isRead, isEnd, isLast⟩ :=
        parseDictionaryAt_iff.mpr ⟨rfl, pairs, arePairs, rfl⟩
      refine ⟨dictionary, next, isRead, ?_, ?_⟩
      · rw [isEnd]
        exact forall_mem_nil _
      · dsimp only
        rw [isLast, isDictionary]
  | item =>
    refine
      (exists_read_map_iff (parseItemAt cur)
        (fun item => ({ field := .item item, duplicates := [] } : Parsed))
        fun parsed rest => All (· = ' ') rest ∧ parsed.field = field).trans ?_
    constructor
    · rintro ⟨item, next, isRead, areSpaces, rfl⟩
      exact .item ((reads_parseItemAt _ _ _).mp ⟨next, isRead, rfl⟩) areSpaces
    · generalize isShape : cur.rest = text
      intro isField
      cases isField with
      | item isItem areSpaces =>
        rw [← isShape] at isItem
        obtain ⟨next, isRead, rfl⟩ := (reads_parseItemAt _ _ _).mpr isItem
        exact ⟨_, next, isRead, areSpaces, rfl⟩

theorem fieldAt_stops (isField : FieldAt fieldType text field) :
    Stops (· = ' ') text := by
  cases isField with
  | noMembers => exact stops_nil
  | list areMembers =>
    obtain ⟨_, _, _, isMember, _⟩ := (membersAt_iff memberAt_starts).mp areMembers
    exact (memberAt_starts isMember).stops_space
  | noPairs => exact stops_nil
  | dictionary arePairs =>
    obtain ⟨_, _, _, isPair, _⟩ := (membersAt_iff pairAt_starts).mp arePairs
    exact (pairAt_starts isPair).stops_space
  | item isItem _ => exact (itemAt_starts isItem).stops_space

/-- The text is ASCII where no character is found that is not. -/
theorem findIdx?_eq_none_iff_ascii (text : List Char) :
    (text.findIdx? fun c => 0x7f < c.toNat) = none ↔ All (fun c => c.toNat ≤ 0x7f) text := by
  rw [List.findIdx?_eq_none_iff]
  refine forall₂_congr fun c _ => ?_
  rw [decide_eq_false_iff_not, Nat.not_lt]

/--
A text is parsed as a type of field exactly where it spells one, and what is
answered is what it spells.
-/
theorem parse_eq_ok_iff {fieldType : FieldType} {input : String} {field : Field} :
    parse fieldType input = .ok field ↔ Spells fieldType input.toList field := by
  rw [Spells, spaced_iff isSpace_iff (fun _ isField => fieldAt_stops isField),
    ← findIdx?_eq_none_iff_ascii, parse, parseTop]
  cases isAscii : input.toList.findIdx? fun c => 0x7f < c.toNat with
  | some place =>
    refine iff_of_false ?_ ?_
    · rintro ⟨⟩
    · rintro ⟨⟨⟩, _⟩
  | none =>
    have isStart :
        (input.toList.dropWhile fun c => c = ' ') =
          (Cursor.discardSP { rest := input.toList, i := 0 }).rest :=
      (rest_discardSP { rest := input.toList, i := 0 }).symm
    rw [and_iff_right rfl, isStart, ← parseFieldAt_iff]
    dsimp only
    generalize Cursor.discardSP { rest := input.toList, i := 0 } = start
    have isEnd (next : Cursor) : next.discardSP.rest = [] ↔ All (· = ' ') next.rest := by
      rw [rest_discardSP, dropWhile_eq_nil_iff isSpace_iff]
    cases isRead : parseFieldAt fieldType start with
    | error message =>
      refine iff_of_false ?_ ?_
      · rintro ⟨⟩
      · rintro ⟨parsed, next, ⟨⟩, _⟩
    | ok result =>
      obtain ⟨output, next⟩ := result
      rw [ok_bind]
      by_cases isOver : next.discardSP.rest = []
      · rw [if_neg (not_not.mpr isOver)]
        constructor
        · intro isParsed
          exact ⟨output, next, rfl, (isEnd next).mp isOver, Except.ok.inj isParsed⟩
        · rintro ⟨parsed, last, isLast, _, rfl⟩
          cases isLast
          rfl
      · rw [if_pos isOver]
        refine iff_of_false ?_ ?_
        · rintro ⟨⟩
        · rintro ⟨parsed, last, isLast, areSpaces, _⟩
          cases isLast
          exact isOver ((isEnd _).mpr areSpaces)

end IyaSts.StructuredFields
