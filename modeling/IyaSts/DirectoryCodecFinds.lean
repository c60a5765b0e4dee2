import IyaSts.DirectoryCodec
import IyaSts.Fallible

namespace IyaSts.DirectoryCodec

/-!
# What a lookup finds

A question finds an entry exactly where the entry holds a value that is equal to
the one asked for, but for the white space that is taken off the question and not
off the values.
-/

open List

/-! ## Lookups told apart -/

theorem clear_inj {kind kind' value value' : List Char} (noFeed : '\n' ∉ kind)
    (noFeed' : '\n' ∉ kind') (same : kind ++ '\n' :: value = kind' ++ '\n' :: value') :
    kind = kind' ∧ value = value' := by
  induction kind generalizing kind' with
  | nil =>
    cases kind' with
    | nil => exact ⟨rfl, cons_injective same⟩
    | cons first rest =>
      injection same with isFeed
      exact absurd (isFeed ▸ mem_cons_self) noFeed'
  | cons first rest ih =>
    cases kind' with
    | nil =>
      injection same with isFeed
      exact absurd (isFeed ▸ mem_cons_self) noFeed
    | cons first' rest' =>
      injection same with sameFirst sameRest
      obtain ⟨sameKind, sameValue⟩ :=
        ih (fun isFeed => noFeed (mem_cons_of_mem _ isFeed))
          (fun isFeed => noFeed' (mem_cons_of_mem _ isFeed)) sameRest
      exact ⟨by rw [sameFirst, sameKind], sameValue⟩

variable {digest : Option Digest} {kind : String} {values : List String}

/-- Two lookups are the same where their kinds and values are. -/
theorem lookupOf_inj {kind kind' value value' : String} (noFeed : '\n' ∉ kind.toList)
    (noFeed' : '\n' ∉ kind'.toList)
    (same : lookupOf digest kind value = lookupOf digest kind' value') :
    kind = kind' ∧ value = value' := by
  have sameText : kind ++ "\n" ++ value = kind' ++ "\n" ++ value' := by
    cases digest with
    | none => exact same
    | some digest => exact digest.injective same
  have sameChars := congrArg String.toList sameText
  simp only [String.toList_append] at sameChars
  rw [append_assoc, append_assoc] at sameChars
  obtain ⟨sameKind, sameValue⟩ := clear_inj noFeed noFeed' sameChars
  exact ⟨String.toList_inj.mp sameKind, String.toList_inj.mp sameValue⟩

theorem mem_unique {list : List String} {one : String} : one ∈ unique list ↔ one ∈ list := by
  have keys := KeyedList.mem_keys_unseen_iff id [] list one
  simpa [unique] using keys

variable {value : String}

/-- A lookup is among those of some values where its value is one of them. -/
theorem lookupOf_mem_map (noFeed : '\n' ∉ kind.toList) :
    lookupOf digest kind value ∈ values.map (lookupOf digest kind) ↔ value ∈ values := by
  rw [mem_map]
  constructor
  · rintro ⟨other, isOther, same⟩
    rw [← (lookupOf_inj noFeed noFeed same).2]
    exact isOther
  · intro isValue
    exact ⟨value, isValue, rfl⟩

theorem lookupOf_mem_keyed (noFeed : '\n' ∉ kind.toList) :
    lookupOf digest kind value ∈ keyed digest kind values ↔ value ∈ values := by
  rw [keyed, lookupOf_mem_map noFeed, mem_unique]

section

variable (toLowerCase : String → String)
variable (sha256 : Buffer → String)

variable {value name : String} {asked : Asked}

theorem mem_lowered {values : List String} :
    value ∈ lowered toLowerCase values ↔ ∃ held ∈ values, toLowerCase held = value :=
  mem_map

/-! ## Questions -/

/-- A question about one value. -/
inductive Question where
  | byName (name : String)
  | byMail (mail : String)
  | byUuid (uuid : String)
  | classesUnder (one : String)
  | byAttribute (name value : String)
  deriving DecidableEq

/-- The query that asks it. -/
def Question.query : Question → Query
  | .byName name => .byName name
  | .byMail mail => .byMail mail
  | .byUuid uuid => .byUuid uuid
  | .classesUnder one => .classesUnder [one]
  | .byAttribute name value => .byAttribute name value

/-- The column it is asked of. -/
def Question.column (columns : Columns) : Question → List String
  | .byName _ => columns.nameKeys
  | .byMail _ => columns.mailKeys
  | .byUuid _ => columns.uuidKeys
  | .classesUnder _ => columns.classKeys
  | .byAttribute _ _ => columns.valueKeys

/-- The entry holds a value equal to the one that is asked for. -/
def Question.Holds (attrs : Attributes) : Question → Prop
  | .byName name =>
    ∃ held ∈ valuesOf toLowerCase attrs "uid" ++ valuesOf toLowerCase attrs "stspseudonym",
      toLowerCase held = toLowerCase name
  | .byMail mail => ∃ held ∈ valuesOf toLowerCase attrs "mail", toLowerCase held = toLowerCase mail
  | .byUuid uuid =>
    ∃ held ∈
        valuesOf toLowerCase attrs "entryuuid" ++ valuesOf toLowerCase attrs "stsentryuuidalias",
      toLowerCase held = toLowerCase uuid
  | .classesUnder one =>
    ∃ held ∈ valuesOf toLowerCase attrs "objectclass", toLowerCase held = toLowerCase one
  | .byAttribute name value => value ∈ indexedValues toLowerCase sha256 attrs (toLowerCase name)

/-- The question without the white space around what it compares in lower case. -/
def Question.trimmed : Question → Question
  | .byName name => .byName (trim name)
  | .byMail mail => .byMail (trim mail)
  | .byUuid uuid => .byUuid (trim uuid)
  | .classesUnder one => .classesUnder (trim one)
  | .byAttribute name value => .byAttribute (trim name) value

/-- The question is answered, and not refused. -/
def Answered (digest : Option Digest) (question : Question) : Prop :=
  ∃ asked, keyArgs toLowerCase digest question.query = .ok [asked]

/-- The lookup that the question asks for is in the column where the entry holds its value. -/
def FoundExactly (digest : Option Digest) (attrs : Attributes) (question : Question) : Prop :=
  ∀ asked,
    keyArgs toLowerCase digest question.query = .ok [asked] →
      (asked.key ∈ question.column (indexOf toLowerCase sha256 digest attrs) ↔
        question.Holds toLowerCase sha256 attrs)

/-! ## What is found -/

theorem not_feed_attr (isIndexed : name ∈ valueIndexed) :
    '\n' ∉ ("attr:" ++ name).toList := by
  have noFeed : ∀ name ∈ valueIndexed, '\n' ∉ ("attr:" ++ name).toList := by decide +kernel
  exact noFeed name isIndexed

variable {digest : Option Digest} {attrs : Attributes}

/-- Of an attribute's lookups those of its own values are its. -/
theorem lookupOf_mem_valueKeys (isIndexed : name ∈ valueIndexed) :
    lookupOf digest ("attr:" ++ name) value ∈
        (indexOf toLowerCase sha256 digest attrs).valueKeys ↔
      value ∈ indexedValues toLowerCase sha256 attrs name := by
  rw [indexOf, mem_flatMap]
  constructor
  · rintro ⟨other, isOther, isLookup⟩
    obtain ⟨held, isHeld, same⟩ := mem_map.mp isLookup
    obtain ⟨sameKind, rfl⟩ := lookupOf_inj (not_feed_attr isOther) (not_feed_attr isIndexed) same
    have sameName : other = name := by
      have sameChars := congrArg String.toList sameKind
      rw [String.toList_append, String.toList_append] at sameChars
      exact String.toList_inj.mp (append_cancel_left sameChars)
    rwa [← sameName]
  · intro isValue
    exact ⟨name, isIndexed, (lookupOf_mem_map (not_feed_attr isIndexed)).mpr isValue⟩

theorem askedClass_eq_ok_iff {one : String} :
    askedClass toLowerCase digest one = .ok asked ↔
      lower toLowerCase one ∈ classIndexed ∧
        asked = { key := lookupOf digest "class" (lower toLowerCase one), rdn := none } := by
  rw [askedClass]
  by_cases isIndexed : lower toLowerCase one ∈ classIndexed
  · rw [if_neg (not_not.mpr isIndexed), Except.ok.injEq]
    exact ⟨fun same => ⟨isIndexed, same.symm⟩, fun same => same.2.symm⟩
  · rw [if_pos isIndexed]
    exact iff_of_false (by rintro ⟨⟩) (fun same => isIndexed same.1)

/-- What is found is what the entry holds of the question without its white space. -/
theorem key_mem_column_iff {question : Question}
    (isAsked : keyArgs toLowerCase digest question.query = .ok [asked]) :
    asked.key ∈ question.column (indexOf toLowerCase sha256 digest attrs) ↔
      question.trimmed.Holds toLowerCase sha256 attrs := by
  cases question with
  | byName name =>
    cases isAsked
    exact (lookupOf_mem_keyed (by decide +kernel)).trans (mem_lowered toLowerCase)
  | byMail mail =>
    cases isAsked
    exact (lookupOf_mem_keyed (by decide +kernel)).trans (mem_lowered toLowerCase)
  | byUuid uuid =>
    cases isAsked
    exact (lookupOf_mem_keyed (by decide +kernel)).trans (mem_lowered toLowerCase)
  | classesUnder one =>
    rw [Question.query, keyArgs, mapM_cons, mapM_nil, Fallible.bind_eq_ok_iff] at isAsked
    obtain ⟨found, isFound, isAsked⟩ := isAsked
    cases isAsked
    obtain ⟨isIndexed, rfl⟩ := (askedClass_eq_ok_iff toLowerCase).mp isFound
    refine (lookupOf_mem_keyed (by decide +kernel)).trans ?_
    rw [mem_filter, mem_lowered]
    exact and_iff_left (decide_eq_true isIndexed)
  | byAttribute name value =>
    rw [Question.query, keyArgs] at isAsked
    split at isAsked
    · cases isAsked
    · rename_i isIndexed
      cases isAsked
      exact lookupOf_mem_valueKeys toLowerCase sha256 (not_not.mp isIndexed)

/--
A lookup is in its column exactly where the entry holds the value asked for,
where a question that is answered asks for nothing else without its white space.
-/
theorem found_exactly_iff (digest : Option Digest) (attrs : Attributes) (question : Question) :
    FoundExactly toLowerCase sha256 digest attrs question ↔
      (Answered toLowerCase digest question →
        (question.trimmed.Holds toLowerCase sha256 attrs ↔
          question.Holds toLowerCase sha256 attrs)) := by
  constructor
  · rintro found ⟨asked, isAsked⟩
    rw [← found asked isAsked, key_mem_column_iff toLowerCase sha256 isAsked]
  · intro sameTrimmed asked isAsked
    rw [key_mem_column_iff toLowerCase sha256 isAsked]
    exact sameTrimmed ⟨asked, isAsked⟩


end

/-- A name that is stored with a space in front of it is not found by that name. -/
theorem spaced_name_not_found :
    ¬ FoundExactly (String.map Char.toLower) (fun _ => "") none [("uid", [" alice"])]
        (.byName " alice") := by
  intro found
  have isFound :=
    (found { key := "name\nalice", rdn := some "alice" } (by decide +kernel)).mpr
      ⟨" alice", by decide +kernel, rfl⟩
  exact absurd isFound (by decide +kernel)

end IyaSts.DirectoryCodec
