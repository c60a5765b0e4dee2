import IyaSts.Fallible
import IyaSts.Krb5Asn1Elements

namespace IyaSts.Krb5Asn1

/-!
# What is written is read back

A value is what a message builder hands to the writers.  Every part of it
becomes one element, and each reader takes back the value of the element its
writer wrote.
-/

open Buffer Fallible Krb5Primitives List

mutual

/-- A value built with the writers. -/
inductive Value where
  | integer : Int → Value
  | octetString : Buffer → Value
  | generalString : String → Value
  | flags : List Nat → Value
  | time : Int → Value
  | taggedSequence : Fields → Value
  | sequenceOf : Values → Value
  | context : Nat → Value → Value
  | application : Nat → Value → Value

/-- The fields handed to `encTaggedSequence`, with or without their value. -/
inductive Fields where
  | nil : Fields
  | skipped : Fields → Fields
  | absent : Nat → Fields → Fields
  | present : Nat → Value → Fields → Fields

/-- The items handed to `encSequenceOf`. -/
inductive Values where
  | nil : Values
  | cons : Value → Values → Values

end

mutual

/-- The writers, applied from the inside out. -/
def encode : Value → Except String Buffer
  | .integer value => encInteger value
  | .octetString bytes => encOctetString bytes
  | .generalString text => encGeneralString text
  | .flags bits => encFlags (bits.map Int.ofNat)
  | .time date => encKerberosTime (some date)
  | .taggedSequence fields => do encTaggedSequence (← encodeFields fields)
  | .sequenceOf items => do encSequenceOf (← encodeValues items)
  | .context n inner => do encContext n (← encode inner)
  | .application n inner => do encApplication n (← encode inner)

/-- The fields with their values written. -/
def encodeFields : Fields → Except String (List (Option Field))
  | .nil => .ok []
  | .skipped rest => do return none :: (← encodeFields rest)
  | .absent tag rest => do
    return some { tag, value := none } :: (← encodeFields rest)
  | .present tag value rest => do
    let bytes ← encode value
    return some { tag, value := some bytes } :: (← encodeFields rest)

/-- The items written. -/
def encodeValues : Values → Except String (List Buffer)
  | .nil => .ok []
  | .cons value rest => do
    let bytes ← encode value
    return bytes :: (← encodeValues rest)

end

/-- The tags of the fields that have a value. -/
def Fields.presentTags : Fields → List Nat
  | .nil => []
  | .skipped rest => rest.presentTags
  | .absent _ rest => rest.presentTags
  | .present tag _ rest => tag :: rest.presentTags

/-- The tags of all fields. -/
def Fields.tags : Fields → List Nat
  | .nil => []
  | .skipped rest => rest.tags
  | .absent tag rest => tag :: rest.tags
  | .present tag _ rest => tag :: rest.tags

/-- The values that are a SEQUENCE. -/
def Value.isSequence : Value → Prop
  | .taggedSequence _ => True
  | .sequenceOf _ => True
  | _ => False

mutual

/-- The values the coder is for. -/
def WellFormed : Value → Prop
  | .integer value => -2 ^ 47 ≤ value ∧ value < 2 ^ 47
  | .octetString _ => True
  | .generalString _ => True
  | .flags bits => ∀ bit ∈ bits, bit ≤ 31
  | .time date => WholeTime date
  | .taggedSequence fields => fields.tags.Nodup ∧ WellFormedFields fields
  | .sequenceOf items => WellFormedValues items
  | .context n inner => n ≤ 30 ∧ WellFormed inner
  | .application n inner =>
    n ≤ 30 ∧ WellFormed inner ∧ inner.isSequence ∧
      ∀ bytes, encode (.application n inner) = .ok bytes → bytes.length ≤ maxInputBytes

/-- Fields with their tags in range and well-formed values. -/
def WellFormedFields : Fields → Prop
  | .nil => True
  | .skipped rest => WellFormedFields rest
  | .absent tag rest => tag ≤ 30 ∧ WellFormedFields rest
  | .present tag value rest => tag ≤ 30 ∧ WellFormed value ∧ WellFormedFields rest

/-- Items that are all well-formed. -/
def WellFormedValues : Values → Prop
  | .nil => True
  | .cons value rest => WellFormed value ∧ WellFormedValues rest

end

mutual

/-- The readers return the value, all the way down. -/
def Reads : Value → Tlv → Prop
  | .integer value, t => decInteger t = .ok value
  | .octetString bytes, t => decOctetString t = .ok bytes
  | .generalString text, t => decGeneralString t = .ok (Json.codeUnits text)
  | .flags bits, t =>
    (decFlags t).map bitsFromFlags = .ok ((List.range 32).filter fun bit => decide (bit ∈ bits))
  | .time date, t => decKerberosTime t = .ok date
  | .taggedSequence fields, t =>
    t.tag = TAG.sequence ∧
      ∃ map,
        readTaggedSequence t.value 0 = .ok map ∧
          (∀ n, (map.lookup n).isSome ↔ n ∈ fields.presentTags) ∧
          ReadsFields fields map
  | .sequenceOf items, t => ∃ children, decSequenceOf t = .ok children ∧ ReadsValues items children
  | .context n inner, t =>
    contextTag n = .ok t.tag ∧ ∃ child, readChildren t.value 0 = .ok [child] ∧ Reads inner child
  | .application n inner, t =>
    ∃ application,
      readApplication t.raw (some n) = .ok application ∧
        application.applicationNumber = n ∧
        Reads inner application.sequence

/-- Every field with a value is under its tag, and no other is. -/
def ReadsFields : Fields → FieldMap → Prop
  | .nil, _ => True
  | .skipped rest, map => ReadsFields rest map
  | .absent tag rest, map => map.lookup tag = none ∧ ReadsFields rest map
  | .present tag value rest, map =>
    (∃ t, map.lookup tag = some t ∧ Reads value t) ∧ ReadsFields rest map

/-- Every item is read, in the same order. -/
def ReadsValues : Values → List Tlv → Prop
  | .nil, children => children = []
  | .cons value rest, children =>
    ∃ child others, children = child :: others ∧ Reads value child ∧ ReadsValues rest others

end

/-! ## Every value is one element -/

/-- An element that is written in some octets and read as a value. -/
def Writes (value : Value) (bytes : Buffer) : Prop :=
  ∃ element : Element,
    element.encoded = bytes ∧
      (value.isSequence → element.tag = TAG.sequence) ∧
      ∀ t, element.Is t → Reads value t

variable {tag n : Nat} {content bytes : Buffer} {value inner : Value}
    {fields rest : Fields} {parts : List Buffer}

/-- A written tag and value are an element. -/
theorem element_of_tlv (isByte : tag < 256) (written : tlv tag content = .ok bytes) :
    ∃ element : Element, element.encoded = bytes ∧ element.tag = tag ∧ element.value = content :=
  ⟨⟨tag, content, bytes, isByte, written⟩, rfl, rfl, rfl⟩

/-- A value whose reader needs its tag and contents is one element. -/
theorem writes_of_tlv (isByte : tag < 256) (written : tlv tag content = .ok bytes)
    (isSequence : value.isSequence → tag = TAG.sequence)
    (reads : ∀ t, t.tag = tag → t.value = content → t.raw = bytes → Reads value t) :
    Writes value bytes := by
  obtain ⟨element, isEncoded, isTag, isValue⟩ := element_of_tlv isByte written
  refine ⟨element, isEncoded, fun sequence => ?_, ?_⟩
  · rw [isTag]
    exact isSequence sequence
  · rintro t ⟨tag, value, raw⟩
    exact reads t (tag.trans isTag) (value.trans isValue) (raw.trans isEncoded)

theorem writes_integer {value : Int} (inRange : -2 ^ 47 ≤ value ∧ value < 2 ^ 47)
    (written : encInteger value = .ok bytes) :
    Writes (.integer value) bytes := by
  refine writes_of_tlv (by decide) written (fun sequence => nomatch sequence) ?_
  intro t isTag isValue _
  exact decInteger_integerContent isTag isValue inRange

theorem writes_octetString {octets bytes : Buffer} (written : encOctetString octets = .ok bytes) :
    Writes (.octetString octets) bytes := by
  refine writes_of_tlv (by decide) written (fun sequence => nomatch sequence) ?_
  intro t isTag isValue _
  simp [Reads, decOctetString, expectTag, isTag, isValue, bind, Except.bind, pure, Except.pure]

theorem writes_generalString {text : String} (written : encGeneralString text = .ok bytes) :
    Writes (.generalString text) bytes := by
  refine writes_of_tlv (by decide) written (fun sequence => nomatch sequence) ?_
  intro t isTag isValue _
  exact decGeneralString_utf8 isTag isValue

theorem writes_flags {bits : List Nat} (inRange : ∀ bit ∈ bits, bit ≤ 31)
    (written : encFlags (bits.map Int.ofNat) = .ok bytes) :
    Writes (.flags bits) bytes := by
  rw [encFlags, bind_eq_ok_iff] at written
  obtain ⟨octets, areSet, written⟩ := written
  refine writes_of_tlv (by decide) written (fun sequence => nomatch sequence) ?_
  intro t isTag isValue _
  exact decFlags_setFlags isTag inRange areSet isValue

theorem writes_time {date : Int} (isWhole : WholeTime date)
    (written : encKerberosTime (some date) = .ok bytes) :
    Writes (.time date) bytes := by
  rw [encKerberosTime, bind_eq_ok_iff] at written
  obtain ⟨text, formatted, written⟩ := written
  refine writes_of_tlv (by decide) written (fun sequence => nomatch sequence) ?_
  intro t isTag isValue _
  exact decKerberosTime_format isTag isWhole formatted isValue

/-- A wrapped value is the one child of its context tag. -/
theorem writes_context (inRange : n ≤ 30) (innerWrites : Writes inner content)
    (written : encContext n content = .ok bytes) :
    Writes (.context n inner) bytes := by
  obtain ⟨element, isEncoded, _, reads⟩ := innerWrites
  have isTag := contextTag_eq inRange
  rw [encContext, isTag] at written
  refine writes_of_tlv (context_bits inRange).1 written (fun sequence => nomatch sequence) ?_
  intro t sameTag isValue _
  obtain ⟨child, isRead, shows⟩ := readChildren_one element 0 (by decide)
  rw [isEncoded, ← isValue] at isRead
  exact ⟨isTag.trans (by rw [sameTag]), child, isRead, reads child shows⟩

/-- A wrapped SEQUENCE is what the message reader returns. -/
theorem writes_application (inRange : n ≤ 30)
    (isSequence : inner.isSequence) (innerWrites : Writes inner content)
    (isShort : bytes.length ≤ maxInputBytes) (written : encApplication n content = .ok bytes) :
    Writes (.application n inner) bytes := by
  obtain ⟨element, isEncoded, hasTag, reads⟩ := innerWrites
  have isTag := applicationTag_eq inRange
  rw [encApplication, isTag] at written
  obtain ⟨isByte, isApplication, isNumber⟩ := application_bits inRange
  refine writes_of_tlv isByte written (fun sequence => nomatch sequence) ?_
  intro t sameTag isValue isRaw
  obtain ⟨wrapper, wrapperEncoded, wrapperTag, wrapperValue⟩ := element_of_tlv isByte written
  obtain ⟨outer, outerRead, outerShows, _⟩ := readTlv_element wrapper [] [] 0 (by decide)
  obtain ⟨child, isRead, shows⟩ := readChildren_one element 1 (by decide)
  obtain ⟨outerTag, outerValue, _⟩ := outerShows
  have childTag : child.tag = TAG.sequence := shows.1.trans (hasTag isSequence)
  rw [nil_append, append_nil, length_nil, wrapperEncoded] at outerRead
  rw [wrapperTag] at outerTag
  rw [wrapperValue, ← isEncoded] at outerValue
  refine ⟨{ applicationNumber := n, sequence := child, outer := outer }, ?_, rfl, reads child shows⟩
  have notLong : ¬maxInputBytes < bytes.length := by omega
  simp [readApplication, isRaw, notLong, outerRead, outerTag, isApplication, isNumber, outerValue,
    isRead, expectTag, childTag, bind, Except.bind, pure, Except.pure]

/-- Elements that are written in some octets and read as the items. -/
def WritesValues (items : Values) (encoded : List Buffer) : Prop :=
  ∃ elements : List Element,
    elements.map Element.encoded = encoded ∧
      ∀ ts, List.Forall₂ Element.Is elements ts → ReadsValues items ts

/-- Items are read as the children of their SEQUENCE. -/
theorem writes_sequenceOf {items : Values} {encoded : List Buffer}
    (itemsWrite : WritesValues items encoded) (written : encSequenceOf encoded = .ok bytes) :
    Writes (.sequenceOf items) bytes := by
  obtain ⟨elements, rfl, reads⟩ := itemsWrite
  refine writes_of_tlv (by decide) written (fun _ => rfl) ?_
  intro t isTag isValue _
  obtain ⟨children, isRead, shows⟩ := readChildren_elements elements 0 (by decide)
  refine ⟨children, ?_, reads children shows⟩
  simp only [decSequenceOf, expectTag, isTag, ne_eq, not_true, if_false, bind, Except.bind, isValue]
  exact isRead

/--
Tagged elements that are written in some parts; a map that has them, and no
other of the fields, is read as the fields.
-/
def WritesFields (fields : Fields) (parts : List Buffer) : Prop :=
  ∃ elements : List TaggedElement,
    elements.map (fun element => element.outer.encoded) = parts ∧
      elements.map TaggedElement.tag = fields.presentTags ∧
      ∀ map : FieldMap,
        (∀ element ∈ elements, ∃ t, map.lookup element.tag = some t ∧ element.inner.Is t) →
        (∀ n ∈ fields.tags, n ∉ fields.presentTags → map.lookup n = none) →
        ReadsFields fields map

theorem presentTags_subset (fields : Fields) : ∀ n ∈ fields.presentTags, n ∈ fields.tags := by
  induction fields using Fields.presentTags.induct with
  | case1 =>
    intro n isPresent
    exact isPresent
  | case2 rest ih => exact ih
  | case3 tag rest ih =>
    intro n isPresent
    exact mem_cons_of_mem _ (ih n isPresent)
  | case4 tag value rest ih =>
    intro n isPresent
    rcases mem_cons.mp isPresent with rfl | inRest
    · exact mem_cons_self
    · exact mem_cons_of_mem _ (ih n inRest)

theorem presentTags_nodup (distinct : fields.tags.Nodup) : fields.presentTags.Nodup := by
  induction fields using Fields.presentTags.induct with
  | case1 => exact nodup_nil
  | case2 rest ih => exact ih distinct
  | case3 tag rest ih => exact ih (nodup_cons.mp distinct).2
  | case4 tag value rest ih =>
    obtain ⟨notRepeated, restDistinct⟩ := nodup_cons.mp distinct
    exact
      nodup_cons.mpr
        ⟨fun isPresent =>
          notRepeated (presentTags_subset rest tag isPresent),
          ih restDistinct⟩

/-- A field without a value is written in no part and is under no tag. -/
theorem writesFields_absent (distinct : (Fields.absent tag rest).tags.Nodup)
    (restWrites : WritesFields rest parts) :
    WritesFields (.absent tag rest) parts := by
  obtain ⟨elements, encoded, tags, reads⟩ := restWrites
  obtain ⟨notRepeated, _⟩ := nodup_cons.mp distinct
  refine ⟨elements, encoded, tags, ?_⟩
  intro map found notOther
  refine ⟨?_, reads map found ?_⟩
  · exact
      notOther tag mem_cons_self fun isPresent =>
        notRepeated (presentTags_subset rest tag isPresent)
  · intro n isTag notPresent
    exact notOther n (mem_cons_of_mem _ isTag) notPresent

/-- A field with a value is one part, and its element is under its tag. -/
theorem writesFields_present {content part : Buffer} (inRange : tag ≤ 30)
    (distinct : (Fields.present tag value rest).tags.Nodup) (valueWrites : Writes value content)
    (written : tlv (0xa0 ||| tag) content = .ok part) (restWrites : WritesFields rest parts) :
    WritesFields (.present tag value rest) (part :: parts) := by
  obtain ⟨inner, isEncoded, _, innerReads⟩ := valueWrites
  obtain ⟨outer, outerEncoded, isTag, isValue⟩ := element_of_tlv (context_bits inRange).1 written
  obtain ⟨elements, rfl, tags, reads⟩ := restWrites
  obtain ⟨notRepeated, _⟩ := nodup_cons.mp distinct
  refine ⟨⟨tag, inner, outer, inRange, isTag, isValue.trans isEncoded.symm⟩ :: elements, ?_, ?_, ?_⟩
  · rw [map_cons, outerEncoded]
  · rw [map_cons, tags, Fields.presentTags]
  · intro map found notOther
    refine ⟨?_, reads map ?_ ?_⟩
    · obtain ⟨t, isFound, shows⟩ := found _ mem_cons_self
      exact ⟨t, isFound, innerReads t shows⟩
    · intro element isElement
      exact found element (mem_cons_of_mem _ isElement)
    · intro n isOther notPresent
      refine notOther n (mem_cons_of_mem _ isOther) ?_
      intro isPresent
      rcases mem_cons.mp isPresent with rfl | inRest
      · exact notRepeated isOther
      · exact notPresent inRest

/-- The fields are what the reader of their SEQUENCE finds. -/
theorem writes_taggedSequence (distinct : fields.tags.Nodup)
    (fieldsWrite : WritesFields fields parts) (written : encSequence parts = .ok bytes) :
    Writes (.taggedSequence fields) bytes := by
  obtain ⟨elements, rfl, tags, reads⟩ := fieldsWrite
  refine writes_of_tlv (by decide) written (fun _ => rfl) ?_
  intro t isTag isValue _
  obtain ⟨children, isRead, shows⟩ :=
    readChildren_elements (elements.map TaggedElement.outer) 0 (by decide)
  have areDistinct : (elements.map TaggedElement.tag).Nodup := by
    rw [tags]
    exact presentTags_nodup distinct
  obtain ⟨map, areFound, found, only⟩ := readFields_elements areDistinct shows []
  have sameOctets : encodings (elements.map TaggedElement.outer) = t.value := by
    rw [isValue, encodings, map_map]
    rfl
  rw [sameOctets] at isRead
  have onlyPresent (n : Nat) (notPresent : n ∉ fields.presentTags) : map.lookup n = none := by
    rw [only n (by rw [tags]; exact notPresent)]
    rfl
  refine ⟨isTag, map, ?_, ?_, reads map found fun n _ => onlyPresent n⟩
  · simp only [readTaggedSequence, isRead, bind, Except.bind]
    exact areFound
  · intro n
    constructor
    · intro isSome
      by_contra notPresent
      rw [onlyPresent n notPresent] at isSome
      exact absurd isSome (by decide)
    · intro isPresent
      rw [← tags, mem_map] at isPresent
      obtain ⟨element, isElement, rfl⟩ := isPresent
      obtain ⟨t, isFound, _⟩ := found element isElement
      rw [isFound]
      rfl

mutual

/-- Every value a writer takes is one element that is read as the value. -/
theorem encode_writes (value : Value) {bytes : Buffer} (wellFormed : WellFormed value)
    (written : encode value = .ok bytes) :
    Writes value bytes := by
  cases value with
  | integer number =>
    rw [WellFormed] at wellFormed
    exact writes_integer wellFormed written
  | octetString octets => exact writes_octetString written
  | generalString text => exact writes_generalString written
  | flags bits =>
    rw [WellFormed] at wellFormed
    exact writes_flags wellFormed written
  | time date =>
    rw [WellFormed] at wellFormed
    exact writes_time wellFormed written
  | taggedSequence fields =>
    rw [WellFormed] at wellFormed
    obtain ⟨distinct, fieldsWellFormed⟩ := wellFormed
    rw [encode, bind_eq_ok_iff] at written
    obtain ⟨encoded, areEncoded, written⟩ := written
    rw [encTaggedSequence, bind_eq_ok_iff] at written
    obtain ⟨parts, areParts, written⟩ := written
    exact
      writes_taggedSequence distinct
        (encodeFields_writes fields distinct fieldsWellFormed areEncoded areParts)
        written
  | sequenceOf items =>
    rw [WellFormed] at wellFormed
    rw [encode, bind_eq_ok_iff] at written
    obtain ⟨encoded, areEncoded, written⟩ := written
    exact writes_sequenceOf (encodeValues_writes items wellFormed areEncoded) written
  | context n inner =>
    rw [WellFormed] at wellFormed
    obtain ⟨inRange, innerWellFormed⟩ := wellFormed
    rw [encode, bind_eq_ok_iff] at written
    obtain ⟨content, isEncoded, written⟩ := written
    exact writes_context inRange (encode_writes inner innerWellFormed isEncoded) written
  | application n inner =>
    rw [WellFormed] at wellFormed
    obtain ⟨inRange, innerWellFormed, isSequence, isShort⟩ := wellFormed
    have notLong := isShort bytes written
    rw [encode, bind_eq_ok_iff] at written
    obtain ⟨content, isEncoded, written⟩ := written
    exact
      writes_application inRange isSequence
        (encode_writes inner innerWellFormed isEncoded) notLong written

/-- The fields of a SEQUENCE, one after the other. -/
theorem encodeFields_writes (fields : Fields) {encoded : List (Option Field)}
    {parts : List Buffer} (distinct : fields.tags.Nodup) (wellFormed : WellFormedFields fields)
    (areEncoded : encodeFields fields = .ok encoded) (areParts : taggedParts encoded = .ok parts) :
    WritesFields fields parts := by
  cases fields with
  | nil =>
    rw [encodeFields, Except.ok.injEq] at areEncoded
    subst areEncoded
    rw [taggedParts, Except.ok.injEq] at areParts
    subst areParts
    refine ⟨[], rfl, rfl, ?_⟩
    intro map _ _
    rw [ReadsFields]
    trivial
  | skipped rest =>
    rw [WellFormedFields] at wellFormed
    rw [encodeFields, bind_eq_ok_iff] at areEncoded
    obtain ⟨others, othersEncoded, isCons⟩ := areEncoded
    rw [pure_eq_ok_iff] at isCons
    subst isCons
    rw [taggedParts] at areParts
    obtain ⟨elements, isEncoded, tags, reads⟩ :=
      encodeFields_writes rest distinct wellFormed othersEncoded areParts
    refine ⟨elements, isEncoded, tags, ?_⟩
    intro map found only
    rw [ReadsFields]
    exact reads map found only
  | absent tag rest =>
    rw [WellFormedFields] at wellFormed
    rw [encodeFields, bind_eq_ok_iff] at areEncoded
    obtain ⟨others, othersEncoded, isCons⟩ := areEncoded
    rw [pure_eq_ok_iff] at isCons
    subst isCons
    rw [taggedParts] at areParts
    exact
      writesFields_absent distinct
        (encodeFields_writes rest (nodup_cons.mp distinct).2
          wellFormed.2 othersEncoded areParts)
  | present tag value rest =>
    rw [WellFormedFields] at wellFormed
    obtain ⟨inRange, valueWellFormed, restWellFormed⟩ := wellFormed
    rw [encodeFields, bind_eq_ok_iff] at areEncoded
    obtain ⟨content, isEncoded, areEncoded⟩ := areEncoded
    rw [bind_eq_ok_iff] at areEncoded
    obtain ⟨others, othersEncoded, isCons⟩ := areEncoded
    rw [pure_eq_ok_iff] at isCons
    subst isCons
    rw [taggedParts, contextTag_eq inRange] at areParts
    simp only [bind_eq_ok_iff, pure_eq_ok_iff] at areParts
    obtain ⟨_, sameTag, part, written, otherParts, areOthers, isCons⟩ := areParts
    rw [Except.ok.injEq] at sameTag
    subst sameTag isCons
    exact
      writesFields_present inRange distinct
        (encode_writes value valueWellFormed isEncoded) written
        (encodeFields_writes rest (nodup_cons.mp distinct).2
          restWellFormed othersEncoded areOthers)

/-- The items of a SEQUENCE, one after the other. -/
theorem encodeValues_writes (items : Values) {encoded : List Buffer}
    (wellFormed : WellFormedValues items) (areEncoded : encodeValues items = .ok encoded) :
    WritesValues items encoded := by
  cases items with
  | nil =>
    rw [encodeValues, Except.ok.injEq] at areEncoded
    subst areEncoded
    refine ⟨[], rfl, ?_⟩
    intro ts shows
    cases shows
    rw [ReadsValues]
  | cons value rest =>
    rw [WellFormedValues] at wellFormed
    rw [encodeValues, bind_eq_ok_iff] at areEncoded
    obtain ⟨bytes, isEncoded, areEncoded⟩ := areEncoded
    rw [bind_eq_ok_iff] at areEncoded
    obtain ⟨others, othersEncoded, isCons⟩ := areEncoded
    rw [pure_eq_ok_iff] at isCons
    subst isCons
    obtain ⟨element, rfl, _, reads⟩ := encode_writes value wellFormed.1 isEncoded
    obtain ⟨elements, rfl, restReads⟩ := encodeValues_writes rest wellFormed.2 othersEncoded
    refine ⟨element :: elements, rfl, ?_⟩
    intro ts shows
    cases shows with
    | cons first others =>
      rw [ReadsValues]
      exact ⟨_, _, rfl, reads _ first, restReads _ others⟩

end

/-! ## What the writers refuse -/

/-- The refusal of a length that takes a fifth octet. -/
def RefusesLength (error : String) : Prop :=
  ∃ n : Nat, 2 ^ 32 ≤ n ∧ error = s!"krb5: refusing to encode a length of {n} bytes"

theorem tlv_refuses {value : Buffer} {error : String} (refused : tlv tag value = .error error) :
    RefusesLength error :=
  ⟨value.length, encodeLength_refusal (tlv_refusal refused)⟩

mutual

/-- A writer refuses a value it is for only for a length. -/
theorem encode_refuses (value : Value) {error : String} (wellFormed : WellFormed value)
    (refused : encode value = .error error) :
    RefusesLength error := by
  cases value with
  | integer number => exact tlv_refuses refused
  | octetString octets => exact tlv_refuses refused
  | generalString text => exact tlv_refuses refused
  | flags bits =>
    rw [WellFormed] at wellFormed
    rw [encode, encFlags, bind_eq_error_iff] at refused
    obtain ⟨octets, areSet, _⟩ := setFlags_spec wellFormed _ (length_alloc 4)
    rcases refused with notSet | ⟨others, _, refused⟩
    · rw [areSet] at notSet
      exact absurd notSet (by simp)
    · exact tlv_refuses refused
  | time date =>
    rw [encode, encKerberosTime, bind_eq_error_iff] at refused
    rcases refused with notFormatted | ⟨text, _, refused⟩
    · exact absurd notFormatted (by simp [formatKerberosTime])
    · exact tlv_refuses refused
  | taggedSequence fields =>
    rw [WellFormed] at wellFormed
    rw [encode, bind_eq_error_iff] at refused
    rcases refused with refused | ⟨encoded, areEncoded, refused⟩
    · exact encodeFields_refuses fields wellFormed.2 (.inl refused)
    · rw [encTaggedSequence, bind_eq_error_iff] at refused
      rcases refused with refused | ⟨parts, _, refused⟩
      · exact encodeFields_refuses fields wellFormed.2 (.inr ⟨encoded, areEncoded, refused⟩)
      · exact tlv_refuses refused
  | sequenceOf items =>
    rw [WellFormed] at wellFormed
    rw [encode, bind_eq_error_iff] at refused
    rcases refused with refused | ⟨encoded, _, refused⟩
    · exact encodeValues_refuses items wellFormed refused
    · exact tlv_refuses refused
  | context n inner =>
    rw [WellFormed] at wellFormed
    rw [encode, bind_eq_error_iff] at refused
    rcases refused with refused | ⟨content, _, refused⟩
    · exact encode_refuses inner wellFormed.2 refused
    · rw [encContext, contextTag_eq wellFormed.1] at refused
      exact tlv_refuses refused
  | application n inner =>
    rw [WellFormed] at wellFormed
    rw [encode, bind_eq_error_iff] at refused
    rcases refused with refused | ⟨content, _, refused⟩
    · exact encode_refuses inner wellFormed.2.1 refused
    · rw [encApplication, applicationTag_eq wellFormed.1] at refused
      exact tlv_refuses refused

/-- The values of fields, and the parts made of them. -/
theorem encodeFields_refuses (fields : Fields) {error : String}
    (wellFormed : WellFormedFields fields)
    (refused :
      encodeFields fields = .error error ∨
        ∃ encoded, encodeFields fields = .ok encoded ∧ taggedParts encoded = .error error) :
    RefusesLength error := by
  cases fields with
  | nil =>
    rcases refused with refused | ⟨encoded, areEncoded, refused⟩
    · exact absurd refused (by simp [encodeFields])
    · rw [encodeFields, Except.ok.injEq] at areEncoded
      subst areEncoded
      exact absurd refused (by simp [taggedParts])
  | skipped rest =>
    rw [WellFormedFields] at wellFormed
    simp only [encodeFields, bind_eq_error_iff, bind_eq_ok_iff, pure_eq_ok_iff, pure_ne_error,
      and_false, exists_false, or_false] at refused
    rcases refused with refused | ⟨encoded, ⟨_, others, rfl⟩, refused⟩
    · exact encodeFields_refuses rest wellFormed (.inl refused)
    · rw [taggedParts] at refused
      exact encodeFields_refuses rest wellFormed (.inr ⟨_, others, refused⟩)
  | absent tag rest =>
    rw [WellFormedFields] at wellFormed
    simp only [encodeFields, bind_eq_error_iff, bind_eq_ok_iff, pure_eq_ok_iff, pure_ne_error,
      and_false, exists_false, or_false] at refused
    rcases refused with refused | ⟨encoded, ⟨_, others, rfl⟩, refused⟩
    · exact encodeFields_refuses rest wellFormed.2 (.inl refused)
    · rw [taggedParts] at refused
      exact encodeFields_refuses rest wellFormed.2 (.inr ⟨_, others, refused⟩)
  | present tag value rest =>
    rw [WellFormedFields] at wellFormed
    obtain ⟨inRange, valueWellFormed, restWellFormed⟩ := wellFormed
    simp only [encodeFields, bind_eq_error_iff, bind_eq_ok_iff, pure_eq_ok_iff, pure_ne_error,
      and_false, exists_false, or_false] at refused
    rcases refused with
      (refused | ⟨_, _, refused⟩) | ⟨encoded, ⟨content, _, _, others, rfl⟩, refused⟩
    · exact encode_refuses value valueWellFormed refused
    · exact encodeFields_refuses rest restWellFormed (.inl refused)
    · rw [taggedParts, contextTag_eq inRange] at refused
      simp only [bind_eq_error_iff, pure_ne_error, and_false, exists_false, or_false] at refused
      rcases refused with refused | ⟨_, _, refused | ⟨_, _, refused⟩⟩
      · exact absurd refused (by simp)
      · exact tlv_refuses refused
      · exact encodeFields_refuses rest restWellFormed (.inr ⟨_, others, refused⟩)

/-- The values of items. -/
theorem encodeValues_refuses (items : Values) {error : String} (wellFormed : WellFormedValues items)
    (refused : encodeValues items = .error error) :
    RefusesLength error := by
  cases items with
  | nil => exact absurd refused (by simp [encodeValues])
  | cons value rest =>
    rw [WellFormedValues] at wellFormed
    simp only [encodeValues, bind_eq_error_iff, pure_ne_error, and_false,
      exists_false, or_false] at refused
    rcases refused with refused | ⟨_, _, refused⟩
    · exact encode_refuses value wellFormed.1 refused
    · exact encodeValues_refuses rest wellFormed.2 refused

end

/-! ## The coder's contract -/

/--
A value that is written is read back whole, whatever its size and its depth;
a writer refuses only a length of five octets; and every whole number and
every length is written in the fewest octets.
-/
theorem readers_return_what_was_written (value : Value) (wellFormed : WellFormed value) :
    (∀ error, encode value = .error error → RefusesLength error) ∧
      (∀ bytes, encode value = .ok bytes →
        ∃ t, readTlv bytes 0 0 = .ok t ∧ t.raw = bytes ∧ Reads value t) ∧
      (∀ number : Int,
        TwosComplement.value (integerContent number) = number ∧
          ∀ other, other ≠ [] → TwosComplement.value other = number →
            (integerContent number).length ≤ other.length) ∧
      ∀ length form, encodeLength length = .ok form →
        DefiniteLength form length ∧
          ∀ other, DefiniteLength other length → form.length ≤ other.length := by
  refine ⟨?_, ?_, integerContent_minimal, ?_⟩
  · intro error refused
    exact encode_refuses value wellFormed refused
  · intro bytes written
    obtain ⟨element, rfl, _, reads⟩ := encode_writes value wellFormed written
    obtain ⟨t, isRead, shows, _⟩ := readTlv_element element [] [] 0 (by decide)
    rw [nil_append, append_nil] at isRead
    exact ⟨t, isRead, shows.2.2, reads t shows⟩
  · intro length form written
    exact encodeLength_minimal written

/-- A message that leaves out one of its fields. -/
def sampleMessage : Value :=
  .application 10
    (.taggedSequence
      (.present 1 (.flags [1, 31]) (.absent 2 (.present 3 (.octetString [7, 8, 9]) .nil))))

/-- The octets of the message. -/
def sampleOctets : Buffer :=
  [0x6a, 0x12, 0x30, 0x10, 0xa1, 0x07, 0x03, 0x05, 0x00, 0x40, 0x00, 0x00,
    0x01, 0xa3, 0x05, 0x04, 0x03, 0x07, 0x08, 0x09]

theorem encode_sampleMessage : encode sampleMessage = .ok sampleOctets := by rfl

theorem wellFormed_sampleMessage : WellFormed sampleMessage := by
  have isWritten := encode_sampleMessage
  unfold sampleMessage at isWritten ⊢
  simp only [WellFormed, WellFormedFields, Fields.tags, Value.isSequence,
    isWritten, Except.ok.injEq]
  refine ⟨by decide,
    ⟨by decide, by decide, by decide, by decide, by decide, trivial, trivial⟩, trivial, ?_⟩
  rintro bytes rfl
  decide

/-- The message is read back from its octets. -/
theorem readers_return_sampleMessage :
    WellFormed sampleMessage ∧
      encode sampleMessage = .ok sampleOctets ∧
      ∃ t, readTlv sampleOctets 0 0 = .ok t ∧ Reads sampleMessage t := by
  refine ⟨wellFormed_sampleMessage, encode_sampleMessage, ?_⟩
  obtain ⟨t, isRead, _, reads⟩ :=
    (readers_return_what_was_written sampleMessage
      wellFormed_sampleMessage).2.1 sampleOctets encode_sampleMessage
  exact ⟨t, isRead, reads⟩

/-- An element whose length takes three octets is five octets longer. -/
theorem tlv_length (tag : Nat) (value : Buffer)
    (threeOctets : 65536 ≤ value.length ∧ value.length < 16777216) :
    ∃ encoded, tlv tag value = .ok encoded ∧ encoded.length = value.length + 5 := by
  obtain ⟨width, notLess, less, octets⟩ := unshiftOctets_eq (v := value.length) (by omega)
  have isTwo : width = 2 := by
    have below : 256 ^ width < 256 ^ 3 := by omega
    have above : 256 ^ 2 < 256 ^ (width + 2) := by
      rw [show width + 2 = width + 1 + 1 from rfl, Nat.pow_succ]
      omega
    have notBeyond : width < 3 := (Nat.pow_lt_pow_iff_right (by decide)).mp below
    have oneOf : width = 0 ∨ width = 1 ∨ width = 2 := by omega
    rcases oneOf with rfl | rfl | rfl
    · omega
    · omega
    · rfl
  subst isTwo
  have written :
      encodeLength value.length = .ok (UInt8.ofNat (0x80 ||| 3) :: bigEndian 3 value.length) := by
    rw [encodeLength, if_neg (by omega)]
    simp only [octets, append_nil, length_bigEndian]
    rfl
  refine ⟨_, by rw [tlv, written]; rfl, ?_⟩
  simp only [length_append, length_cons, length_nil, length_bigEndian]
  omega

/-- A message of more than the reader's bound is written, and refused. -/
theorem long_message_refused :
    ∃ octets bytes : Buffer,
      WellFormed (.sequenceOf (.cons (.octetString octets) .nil)) ∧
        encode (.application 10 (.sequenceOf (.cons (.octetString octets) .nil))) = .ok bytes ∧
        bytes.length < 2 ^ 31 ∧
        ∀ application, readApplication bytes (some 10) ≠ .ok application := by
  obtain ⟨octets, length⟩ :
      ∃ octets : Buffer, octets.length = 2 * 1024 * 1024 :=
    ⟨List.replicate (2 * 1024 * 1024) 0, length_replicate⟩
  obtain ⟨item, itemWritten, itemLength⟩ := tlv_length TAG.octetString octets (by omega)
  obtain ⟨sequence, sequenceWritten, sequenceLength⟩ :=
    tlv_length TAG.sequence [item].flatten (by simp; omega)
  obtain ⟨bytes, written, bytesLength⟩ :=
    tlv_length (0x60 ||| 10) sequence (by simp at sequenceLength; omega)
  have totalLength : bytes.length = 2 * 1024 * 1024 + 15 := by
    simp at sequenceLength
    omega
  refine ⟨octets, bytes, ?_, ?_, by omega, ?_⟩
  · simp [WellFormed, WellFormedValues]
  · simp only [encode, encodeValues, encOctetString, itemWritten,
      encSequenceOf, encSequence, bind, Except.bind, pure, Except.pure,
      sequenceWritten, encApplication, applicationTag_eq (n := 10) (by decide)]
    exact written
  · have tooLong : maxInputBytes < bytes.length := by
      rw [totalLength]
      decide
    intro application isRead
    rw [readApplication, if_pos tooLong] at isRead
    exact throw_ne_ok _ _ isRead

end IyaSts.Krb5Asn1
