import IyaSts.Krb5Asn1Contents

namespace IyaSts.Krb5Asn1

/-!
# Elements among others

A tag and a value with the octets they are written in.  An element is read
wherever it stands, so the children of a constructed value are the elements it
was made of, and the fields of a tagged SEQUENCE are found under their tags.
-/

open Buffer Krb5Primitives List

/-! ## Elements -/

/-- A tag, a value and the octets they are written in. -/
structure Element where
  tag : Nat
  value : Buffer
  encoded : Buffer
  isByte : tag < 256
  isEncoded : tlv tag value = .ok encoded

/-- What the reader shows of an element, wherever it stands. -/
def Element.Is (element : Element) (t : Tlv) : Prop :=
  t.tag = element.tag ∧ t.value = element.value ∧ t.raw = element.encoded

/-- An element's octets are its tag, a form of its length and its value. -/
theorem Element.shape (element : Element) :
    ∃ form,
      encodeLength element.value.length = .ok form ∧
        element.encoded = UInt8.ofNat element.tag :: (form ++ element.value) := by
  have isEncoded := element.isEncoded
  unfold tlv at isEncoded
  cases form : encodeLength element.value.length with
  | error error =>
    rw [form] at isEncoded
    exact absurd isEncoded (by simp [bind, Except.bind])
  | ok octets =>
    rw [form] at isEncoded
    simp only [bind, Except.bind, pure, Except.pure, Except.ok.injEq] at isEncoded
    exact ⟨octets, rfl, isEncoded.symm⟩

variable {tag n : Nat}

/-- A writer fails on a value only for its length. -/
theorem tlv_refusal {value : Buffer} {error : String} (refused : tlv tag value = .error error) :
    encodeLength value.length = .error error := by
  unfold tlv at refused
  cases form : encodeLength value.length with
  | error lengthError =>
    rw [form] at refused
    exact refused
  | ok octets =>
    rw [form] at refused
    exact absurd refused (by simp [bind, Except.bind, pure, Except.pure])

/-- The octets between two others are the view of them. -/
theorem subarray_middle (before middle after : Buffer) {start stop : Nat}
    (isStart : start = before.length) (isStop : stop = before.length + middle.length) :
    subarray (before ++ middle ++ after) start stop = middle := by
  have taken :
      (before ++ middle ++ after).take (before.length + middle.length) = before ++ middle := by
    rw [← length_append, take_left]
  rw [subarray, isStart, isStop, taken, drop_left]

/-- The octet after an element's tag. -/
theorem second_octet (before rest after : Buffer) (first second : UInt8) :
    (before ++ (first :: (second :: rest)) ++ after).getD (before.length + 1) 0 = second := by
  rw [append_assoc, getD_eq_getElem?_getD,
    List.getElem?_append_right (by omega), Nat.add_sub_cancel_left]
  rfl

/-- What `element` returns once the header is known. -/
theorem element_read (before header value after : Buffer) (isByte : tag < 256) :
    ∃ t,
      element (before ++ (UInt8.ofNat tag :: header ++ value) ++ after)
          before.length (header.length + 1) value.length = .ok t ∧
        t.tag = tag ∧ t.value = value ∧
        t.raw = UInt8.ofNat tag :: header ++ value ∧
        t.valueEnd = before.length + (UInt8.ofNat tag :: header ++ value).length := by
  have fits :
      ¬(before ++ (UInt8.ofNat tag :: header ++ value) ++ after).length <
        before.length + (header.length + 1) + value.length := by
    simp only [length_append, length_cons]
    omega
  refine ⟨_, if_neg fits, ?_, ?_, ?_, ?_⟩
  · simp only [append_assoc, getD_eq_getElem?_getD,
      List.getElem?_append_right (Nat.le_refl _), Nat.sub_self, cons_append,
      List.getElem?_cons_zero, Option.getD_some, UInt8.toNat_ofNat']
    omega
  · have parts :
        before ++ (UInt8.ofNat tag :: header ++ value) ++ after =
          before ++ (UInt8.ofNat tag :: header) ++ value ++ after := by
      simp
    have isStart :
        before.length + (header.length + 1) = (before ++ (UInt8.ofNat tag :: header)).length := by
      rw [length_append, length_cons]
    rw [parts]
    exact subarray_middle _ _ _ isStart (by rw [isStart])
  · have isStop :
        before.length + (header.length + 1) + value.length =
          before.length + (UInt8.ofNat tag :: header ++ value).length := by
      rw [length_append, length_cons]
      omega
    exact subarray_middle _ _ _ rfl isStop
  · simp only [length_append, length_cons]
    omega

/-- An element is read wherever it stands. -/
theorem readTlv_element (element : Element) (before after : Buffer) (depth : Nat)
    (shallow : depth ≤ maxDepth) :
    ∃ t,
      readTlv (before ++ element.encoded ++ after) before.length depth =
          .ok t ∧
        element.Is t ∧
        t.valueEnd = before.length + element.encoded.length := by
  obtain ⟨form, written, encoded⟩ := element.shape
  obtain ⟨t, isRead, tag, value, raw, valueEnd⟩ :=
    element_read before form element.value after element.isByte
  have shape : element.encoded = UInt8.ofNat element.tag :: form ++ element.value := by
    rw [encoded, cons_append]
  rw [← shape] at isRead raw valueEnd
  refine ⟨t, ?_, ⟨tag, value, raw⟩, valueEnd⟩
  have notTruncated :
      ∀ more, more + 1 ≤ form.length →
        ¬(before ++ element.encoded ++ after).length < before.length + 2 + more := by
    intro more inForm
    rw [shape]
    simp only [length_append, length_cons]
    omega
  rcases encodeLength_form written with
    ⟨isShort, isForm⟩ | ⟨width, isLong, notShort, notLess, less, isForm⟩
  · have lenByte :
        ((before ++ element.encoded ++ after).getD (before.length + 1)
          0).toNat = element.value.length := by
      rw [shape, isForm, cons_append, cons_append, second_octet, UInt8.toNat_ofNat']
      omega
    rw [isForm] at isRead
    rw [readTlv, if_neg (by omega), if_neg (notTruncated 0 (by rw [isForm]; simp))]
    simp only [lenByte]
    rw [if_pos isShort]
    exact isRead
  · have lenByte :
        ((before ++ element.encoded ++ after).getD (before.length + 1)
          0).toNat = 128 + (width + 1) := by
      rw [shape, isForm, cons_append, cons_append, second_octet, UInt8.toNat_ofNat']
      omega
    have count := (long_mark (width + 1) (by omega)).2
    have octets :
        subarray (before ++ element.encoded ++ after) (before.length + 2)
            (before.length + 2 + (width + 1)) =
          bigEndian (width + 1) element.value.length := by
      have around :
          before ++ element.encoded ++ after =
            (before ++ [UInt8.ofNat element.tag, UInt8.ofNat (128 + (width + 1))]) ++
              bigEndian (width + 1) element.value.length ++
              (element.value ++ after) := by
        rw [shape, isForm]
        simp
      rw [around]
      exact subarray_middle _ _ _ (by simp) (by simp)
    rw [isForm] at isRead
    rw [readTlv, if_neg (by omega), if_neg (notTruncated 0 (by rw [isForm]; simp))]
    simp only [lenByte, count, octets, foldl_eq_bigEndianValue,
      bigEndianValue_bigEndian, Nat.mod_eq_of_lt less]
    rw [if_neg (by omega), if_neg (by omega), if_neg (by omega),
      if_neg (notTruncated _ (by rw [isForm]; simp))]
    have headerLen : 2 + (width + 1) = width + 1 + 1 + 1 := by omega
    rw [headerLen]
    simpa only [length_cons, length_bigEndian] using isRead

/-- The octets of elements, one after the other. -/
def encodings (elements : List Element) : Buffer := (elements.map Element.encoded).flatten

theorem Element.encoded_pos (element : Element) : 0 < element.encoded.length := by
  obtain ⟨form, _, encoded⟩ := element.shape
  rw [encoded]
  simp

/-- Elements one after the other are read in their order. -/
theorem readFrom_elements (elements : List Element) (before : Buffer) {depth : Nat}
    (shallow : depth ≤ maxDepth) :
    ∃ ts,
      readFrom (before ++ encodings elements) depth before.length = .ok ts ∧
        List.Forall₂ Element.Is elements ts := by
  induction elements generalizing before with
  | nil =>
    refine ⟨[], ?_, .nil⟩
    rw [readFrom, if_neg (by simp [encodings])]
  | cons element rest ih =>
    have isPositive := element.encoded_pos
    have parts :
        before ++ encodings (element :: rest) = before ++ element.encoded ++ encodings rest := by
      simp [encodings]
    obtain ⟨t, isRead, shows, valueEnd⟩ := readTlv_element element before (encodings rest) _ shallow
    obtain ⟨ts, restRead, restShows⟩ := ih (before ++ element.encoded)
    refine ⟨t :: ts, ?_, .cons shows restShows⟩
    rw [length_append, ← valueEnd] at restRead
    rw [parts, readFrom, if_pos (by simp only [length_append]; omega)]
    split
    · rename_i error failed
      rw [isRead] at failed
      exact absurd failed (by simp)
    · rename_i other otherRead
      rw [isRead, Except.ok.injEq] at otherRead
      subst otherRead
      simp only [restRead]

/-- The elements of a constructed value are its children. -/
theorem readChildren_elements (elements : List Element) (depth : Nat)
    (shallow : depth + 1 ≤ maxDepth) :
    ∃ ts, readChildren (encodings elements) depth = .ok ts ∧ List.Forall₂ Element.Is elements ts :=
  readFrom_elements elements [] shallow

/-- A wrapper's one child. -/
theorem readChildren_one (element : Element) (depth : Nat) (shallow : depth + 1 ≤ maxDepth) :
    ∃ t, readChildren element.encoded depth = .ok [t] ∧ element.Is t := by
  obtain ⟨ts, isRead, shows⟩ := readChildren_elements [element] depth shallow
  have alone : encodings [element] = element.encoded := by simp [encodings]
  rw [alone] at isRead
  cases shows with
  | cons first rest =>
    cases rest with
    | nil => exact ⟨_, isRead, first⟩

/-! ## Tagged SEQUENCEs -/

/-- The bits of a context tag. -/
theorem context_bits (inRange : n ≤ 30) :
    0xa0 ||| n < 256 ∧ (0xa0 ||| n) &&& 0xc0 = 0x80 ∧ (0xa0 ||| n) &&& 0x1f = n := by
  have everyTag :
      ∀ n < 31, 0xa0 ||| n < 256 ∧ (0xa0 ||| n) &&& 0xc0 = 0x80 ∧ (0xa0 ||| n) &&& 0x1f = n := by
    decide
  exact everyTag n (by omega)

theorem contextTag_eq (inRange : n ≤ 30) : contextTag n = .ok (0xa0 ||| n) := by
  rw [contextTag, if_neg (by omega)]
  rfl

/-- The bits of an application tag. -/
theorem application_bits (inRange : n ≤ 30) :
    0x60 ||| n < 256 ∧ (0x60 ||| n) &&& 0xe0 = 0x60 ∧ (0x60 ||| n) &&& 0x1f = n := by
  have everyTag :
      ∀ n < 31, 0x60 ||| n < 256 ∧ (0x60 ||| n) &&& 0xe0 = 0x60 ∧ (0x60 ||| n) &&& 0x1f = n := by
    decide
  exact everyTag n (by omega)

theorem applicationTag_eq (inRange : n ≤ 30) : applicationTag n = .ok (0x60 ||| n) := by
  rw [applicationTag, if_neg (by omega)]
  rfl

/-- An element inside the context tag of its field. -/
structure TaggedElement where
  tag : Nat
  inner : Element
  outer : Element
  inRange : tag ≤ 30
  isTag : outer.tag = 0xa0 ||| tag
  wraps : outer.value = inner.encoded

/-- The reader's map has the element of every field, and no other's. -/
theorem readFields_elements {fields : List TaggedElement}
    (distinct : (fields.map TaggedElement.tag).Nodup) {children : List Tlv}
    (shown : List.Forall₂ Element.Is (fields.map TaggedElement.outer) children) (map : FieldMap) :
    ∃ found,
      readFields 0 children map = .ok found ∧
        (∀ field ∈ fields, ∃ t, found.lookup field.tag = some t ∧ field.inner.Is t) ∧
        ∀ n, n ∉ fields.map TaggedElement.tag → found.lookup n = map.lookup n := by
  induction fields generalizing children map with
  | nil =>
    cases shown
    exact ⟨map, rfl, by simp, by simp⟩
  | cons field rest ih =>
    cases shown with
    | cons first others =>
      rename_i child children
      obtain ⟨isTag, isValue, _⟩ := first
      obtain ⟨_, isContext, isNumber⟩ := context_bits field.inRange
      obtain ⟨inner, isRead, shows⟩ := readChildren_one field.inner 1 (by decide)
      rw [map_cons, nodup_cons] at distinct
      obtain ⟨notRepeated, restDistinct⟩ := distinct
      obtain ⟨found, restRead, restFound, restOnly⟩ :=
        ih restDistinct others ((field.tag, inner) :: map)
      refine ⟨found, ?_, ?_, ?_⟩
      · rw [readFields, isTag, field.isTag, isContext, isNumber, isValue, field.wraps, isRead]
        simpa using restRead
      · intro other isOther
        rcases mem_cons.mp isOther with rfl | inRest
        · refine ⟨inner, ?_, shows⟩
          rw [restOnly _ notRepeated, lookup_cons_self]
        · exact restFound other inRest
      · intro n notNamed
        rw [map_cons, mem_cons, not_or] at notNamed
        rw [restOnly n notNamed.2, lookup_cons]
        have isOther : (n == field.tag) = false := by simpa using notNamed.1
        rw [isOther]

end IyaSts.Krb5Asn1
