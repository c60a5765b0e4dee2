import IyaSts.Krb5Keytab

namespace IyaSts.Krb5Keytab

/-!
# What the keytab reader accepts

A file that is read is its version and then records, entries and holes, with
nothing between them; what is answered for an entry lies in that entry.
-/

open List

/-! ## The parts of a file -/

/-- A field with its length before it. -/
def countedField (bytes : Buffer) : Buffer := Buffer.bigEndian 2 bytes.length ++ bytes

/-- The numbers of an entry as they are spelled. -/
def Numbers.spelled (numbers : Numbers) : Buffer :=
  Buffer.bigEndian 4 numbers.nameType ++ (Buffer.bigEndian 4 numbers.timestamp ++
    (Buffer.bigEndian 1 numbers.kvno ++ Buffer.bigEndian 2 numbers.etype))

/-- Each number fits its place; the kvno here is the one modulo 256. -/
structure Numbers.Fit (numbers : Numbers) : Prop where
  nameType : numbers.nameType < 256 ^ 4
  timestamp : numbers.timestamp < 256 ^ 4
  kvno : numbers.kvno < 256 ^ 1
  etype : numbers.etype < 256 ^ 2

/-- The parts of an entry, of which each fits its place. -/
structure Parts where
  realm : Buffer
  components : List Buffer
  numbers : Numbers
  key : Buffer
  /-- What follows the key: the 32-bit kvno, where there is room for it. -/
  tail : Buffer
  realmFits : realm.length < 2 ^ 16
  countFits : components.length < 256 ^ 2
  componentsFit : ∀ component ∈ components, component.length < 2 ^ 16
  numbersFit : numbers.Fit
  keyFits : key.length < 2 ^ 16

/-- An entry as it is spelled, without its size. -/
def Parts.body (parts : Parts) : Buffer :=
  Buffer.bigEndian 2 parts.components.length ++ (countedField parts.realm ++
    (parts.components.flatMap countedField ++ (parts.numbers.spelled ++
      (countedField parts.key ++ parts.tail))))

/-- The kvno of an entry: the 32-bit one where it is there. -/
def Parts.kvno (parts : Parts) : Nat :=
  if 4 ≤ parts.tail.length then
    Buffer.bigEndianValue (parts.tail.take 4)
  else
    parts.numbers.kvno

/-- What is answered for an entry. -/
def Parts.entry (parts : Parts) : ReadEntry where
  realm := Utf8.decode parts.realm
  components := parts.components.map Utf8.decode
  nameType := parts.numbers.nameType
  timestamp := parts.numbers.timestamp
  kvno := parts.kvno
  etype := parts.numbers.etype
  key := parts.key

/-- A record of a file: a hole or an entry, of a size that can be spelled. -/
inductive Record where
  | hole (bytes : Buffer) (isHole : bytes ≠ []) (fits : bytes.length ≤ 2 ^ 31)
  | entry (parts : Parts) (fits : parts.body.length < 2 ^ 31)

/-- A record with its size. -/
def Record.spelled : Record → Buffer
  | hole bytes _ _ => TwosComplement.content 4 (-bytes.length) ++ bytes
  | entry parts _ => TwosComplement.content 4 parts.body.length ++ parts.body

/-- What is answered for a record. -/
def Record.answer : Record → Option ReadEntry
  | hole _ _ _ => none
  | entry parts _ => some parts.entry

/-! ## The bytes between two positions -/

/-- The bytes of a file from a position to where they stop. -/
def Lies (buf : Buffer) (position stop : Nat) (bytes : Buffer) : Prop :=
  ∃ front rest,
    buf = front ++ (bytes ++ rest) ∧ position = front.length ∧ stop = position + bytes.length

variable {position stop next : Nat} {buf bytes left field : Buffer} {numbers : Numbers}
    {size : Int}

/-- What follows the first of the bytes lies after it. -/
theorem Lies.after {buf first bytes : Buffer} (lies : Lies buf position stop (first ++ bytes)) :
    Lies buf (position + first.length) stop bytes := by
  obtain ⟨front, rest, rfl, rfl, rfl⟩ := lies
  exact
    ⟨front ++ first, rest, by simp, by rw [length_append],
      by rw [length_append, Nat.add_assoc]⟩

theorem Lies.stop_eq (lies : Lies buf position stop bytes) : stop = position + bytes.length := by
  obtain ⟨_, _, _, _, isStop⟩ := lies
  exact isStop

theorem Lies.stop_le (lies : Lies buf position stop bytes) : stop ≤ buf.length := by
  obtain ⟨front, rest, rfl, rfl, rfl⟩ := lies
  simp only [length_append]
  omega

/-- The file from a position on begins with the bytes that lie there. -/
theorem Lies.drop_eq (lies : Lies buf position stop bytes) :
    ∃ rest, buf.drop position = bytes ++ rest := by
  obtain ⟨front, rest, rfl, rfl, _⟩ := lies
  exact ⟨rest, drop_left⟩

/-- Bytes begin with a number of any width that they have. -/
theorem exists_number {bytes : Buffer} {width : Nat} (hasWidth : width ≤ bytes.length) :
    ∃ number left, number < 256 ^ width ∧ bytes = Buffer.bigEndian width number ++ left := by
  have isWidth : (bytes.take width).length = width := length_take_of_le hasWidth
  refine ⟨Buffer.bigEndianValue (bytes.take width), bytes.drop width, ?_, ?_⟩
  · simpa [isWidth] using Buffer.bigEndianValue_lt (bytes.take width)
  · have spelled := Buffer.bigEndian_bigEndianValue (bytes.take width)
    rw [isWidth] at spelled
    rw [spelled, take_append_drop]

theorem bigEndian_inj {width first second : Nat} (firstFits : first < 256 ^ width)
    (secondFits : second < 256 ^ width)
    (same : Buffer.bigEndian width first = Buffer.bigEndian width second) :
    first = second := by
  have values := congrArg Buffer.bigEndianValue same
  rwa [Buffer.bigEndianValue_bigEndian, Buffer.bigEndianValue_bigEndian,
    Nat.mod_eq_of_lt firstFits, Nat.mod_eq_of_lt secondFits] at values

/-- A number is read where it is spelled. -/
theorem readUInt_number {position stop width number : Nat}
    (lies : Lies buf position stop (Buffer.bigEndian width number ++ left))
    (fits : number < 256 ^ width) :
    readUInt buf position width = .ok number := by
  have inFile := lies.stop_le
  rw [lies.stop_eq, length_append, Buffer.length_bigEndian] at inFile
  obtain ⟨rest, isRest⟩ := lies.drop_eq
  rw [readUInt, if_pos (by omega), isRest, append_assoc,
    take_left' (Buffer.length_bigEndian width number), Buffer.bigEndianValue_bigEndian,
    Nat.mod_eq_of_lt fits]

theorem need_eq_ok_iff {position count : Nat} :
    need buf position count = .ok () ↔ position + count ≤ buf.length := by
  rw [need]
  split
  · simp
    omega
  · simp
    omega

/-! ## Counted fields -/

@[simp] theorem length_countedField (bytes : Buffer) :
    (countedField bytes).length = 2 + bytes.length := by
  simp [countedField]

/-- No counted field is read where its entry has stopped. -/
theorem data_before_stop (isRead : data buf stop position = .ok (field, next)) :
    position + 2 ≤ stop := by
  rw [data, Fallible.bind_eq_ok_iff] at isRead
  obtain ⟨_, _, isRead⟩ := isRead
  rw [Fallible.bind_eq_ok_iff] at isRead
  obtain ⟨length, _, isRead⟩ := isRead
  by_contra isPast
  rw [if_pos (by omega)] at isRead
  cases isRead

/-- A counted field is read from its own entry. -/
theorem data_eq_ok_iff (lies : Lies buf position stop bytes) :
    data buf stop position = .ok (field, next) ↔
      ∃ left,
        bytes = countedField field ++ left ∧ field.length < 2 ^ 16 ∧
          next = position + (countedField field).length := by
  by_cases hasLength : 2 ≤ bytes.length
  · obtain ⟨length, inField, fits, rfl⟩ := exists_number hasLength
    have inFile := lies.stop_le
    have isStop := lies.stop_eq
    have later := lies.after
    rw [Buffer.length_bigEndian] at later
    obtain ⟨rest, isRest⟩ := later.drop_eq
    rw [length_append, Buffer.length_bigEndian] at isStop
    rw [data, need_eq_ok_iff.mpr (by omega), Fallible.ok_bind, readUInt_number lies fits,
      Fallible.ok_bind, isRest]
    constructor
    · intro isRead
      split at isRead
      · cases isRead
      · rename_i isWithin
        have isIn : length ≤ inField.length := by omega
        rw [Except.ok.injEq, Prod.mk.injEq, take_append_of_le_length isIn] at isRead
        obtain ⟨rfl, rfl⟩ := isRead
        have isLong : (inField.take length).length = length := length_take_of_le isIn
        refine ⟨inField.drop length, ?_, by omega, ?_⟩
        · rw [countedField, isLong, append_assoc, take_append_drop]
        · rw [length_countedField, isLong, Nat.add_assoc]
    · rintro ⟨left, spelled, fieldFits, rfl⟩
      rw [countedField, append_assoc] at spelled
      obtain ⟨sameLength, rfl⟩ :=
        append_inj spelled (by rw [Buffer.length_bigEndian, Buffer.length_bigEndian])
      obtain rfl := bigEndian_inj fits (by omega) sameLength
      rw [length_append] at isStop
      rw [if_neg (by omega), append_assoc, take_left, length_countedField, Nat.add_assoc]
  · have isStop := lies.stop_eq
    constructor
    · intro isRead
      have isBefore := data_before_stop isRead
      omega
    · rintro ⟨left, rfl, _⟩
      simp at hasLength
      omega

/-- Counted fields are read one after the other. -/
theorem fields_eq_ok_iff {count : Nat} {found : List Buffer} (lies : Lies buf position stop bytes) :
    fields buf stop count position = .ok (found, next) ↔
      ∃ left,
        bytes = found.flatMap countedField ++ left ∧ found.length = count ∧
          (∀ field ∈ found, field.length < 2 ^ 16) ∧
            next = position + (found.flatMap countedField).length := by
  induction count generalizing bytes position found next with
  | zero =>
    simp only [fields, Except.ok.injEq, Prod.mk.injEq]
    constructor
    · rintro ⟨rfl, rfl⟩
      exact ⟨bytes, by simp⟩
    · rintro ⟨left, _, isNone, _, rfl⟩
      rw [length_eq_zero_iff] at isNone
      subst isNone
      simp
  | succ count ih =>
    rw [fields, Fallible.bind_eq_ok_iff]
    constructor
    · rintro ⟨⟨field, afterField⟩, isField, isRead⟩
      obtain ⟨left, rfl, fits, rfl⟩ := (data_eq_ok_iff lies).mp isField
      rw [Fallible.bind_eq_ok_iff] at isRead
      obtain ⟨⟨others, afterAll⟩, areOthers, isRead⟩ := isRead
      cases isRead
      obtain ⟨left, rfl, rfl, othersFit, rfl⟩ := (ih lies.after).mp areOthers
      refine ⟨left, ?_, rfl, ?_, ?_⟩
      · rw [flatMap_cons, append_assoc]
      · exact forall_mem_cons.mpr ⟨fits, othersFit⟩
      · rw [flatMap_cons, length_append, Nat.add_assoc]
    · rintro ⟨left, rfl, isLong, allFit, rfl⟩
      cases found with
      | nil => cases isLong
      | cons field found =>
        rw [forall_mem_cons] at allFit
        rw [flatMap_cons, append_assoc] at lies
        have isField := (data_eq_ok_iff lies).mpr ⟨_, rfl, allFit.1, rfl⟩
        have areOthers := (ih lies.after).mpr ⟨left, rfl, Nat.succ.inj isLong, allFit.2, rfl⟩
        rw [flatMap_cons, length_append, ← Nat.add_assoc]
        exact ⟨_, isField, (Fallible.bind_eq_ok_iff _ _ _).mpr ⟨_, areOthers, rfl⟩⟩

/-! ## Entries -/

/-- The numbers are read where they are spelled. -/
theorem readNumbers_spelled (lies : Lies buf position stop (numbers.spelled ++ left))
    (fit : numbers.Fit) :
    readNumbers buf stop position = .ok numbers := by
  have isStop := lies.stop_eq
  simp only [Numbers.spelled, length_append, Buffer.length_bigEndian] at isStop
  rw [Numbers.spelled, append_assoc, append_assoc, append_assoc] at lies
  have nameType := readUInt_number lies fit.nameType
  replace lies := lies.after
  have timestamp := readUInt_number lies fit.timestamp
  replace lies := lies.after
  have kvno := readUInt_number lies fit.kvno
  have etype := readUInt_number lies.after fit.etype
  rw [Buffer.length_bigEndian] at timestamp kvno etype
  rw [Buffer.length_bigEndian] at kvno etype
  rw [Buffer.length_bigEndian] at etype
  rw [readNumbers, if_neg (by omega), nameType, timestamp, kvno, etype]
  rfl

/-- Eleven bytes are the numbers of some entry. -/
theorem exists_numbers (hasNumbers : 11 ≤ bytes.length) :
    ∃ numbers : Numbers, ∃ left, numbers.Fit ∧ bytes = numbers.spelled ++ left := by
  obtain ⟨nameType, bytes, nameTypeFits, rfl⟩ := @exists_number bytes 4 (by omega)
  rw [length_append, Buffer.length_bigEndian] at hasNumbers
  obtain ⟨timestamp, bytes, timestampFits, rfl⟩ := @exists_number bytes 4 (by omega)
  rw [length_append, Buffer.length_bigEndian] at hasNumbers
  obtain ⟨kvno, bytes, kvnoFits, rfl⟩ := @exists_number bytes 1 (by omega)
  rw [length_append, Buffer.length_bigEndian] at hasNumbers
  obtain ⟨etype, bytes, etypeFits, rfl⟩ := @exists_number bytes 2 (by omega)
  exact
    ⟨⟨nameType, timestamp, kvno, etype⟩, bytes,
      ⟨nameTypeFits, timestampFits, kvnoFits, etypeFits⟩, by simp [Numbers.spelled]⟩

theorem readNumbers_eq_ok_iff (lies : Lies buf position stop bytes) :
    readNumbers buf stop position = .ok numbers ↔
      numbers.Fit ∧ ∃ left, bytes = numbers.spelled ++ left := by
  constructor
  · intro areRead
    have hasNumbers : 11 ≤ bytes.length := by
      by_contra isShort
      rw [readNumbers, lies.stop_eq, if_pos (by omega)] at areRead
      cases areRead
    obtain ⟨spelled, left, fit, rfl⟩ := exists_numbers hasNumbers
    rw [readNumbers_spelled lies fit, Except.ok.injEq] at areRead
    subst areRead
    exact ⟨fit, left, rfl⟩
  · rintro ⟨fit, left, rfl⟩
    exact readNumbers_spelled lies fit

theorem length_numbersSpelled (numbers : Numbers) : numbers.spelled.length = 11 := by
  simp [Numbers.spelled]

/-- The kvno that is read is the 32-bit one where the entry has room for it. -/
theorem readKvno_eq {buf bytes : Buffer} {position stop kvno : Nat}
    (lies : Lies buf position stop bytes) :
    readKvno buf stop position kvno =
      .ok (if 4 ≤ bytes.length then Buffer.bigEndianValue (bytes.take 4) else kvno) := by
  have isStop := lies.stop_eq
  rw [readKvno]
  by_cases isWide : 4 ≤ bytes.length
  · obtain ⟨wide, left, fits, rfl⟩ := exists_number isWide
    rw [if_pos (by omega), if_pos isWide, readUInt_number lies fits,
      take_left' (Buffer.length_bigEndian 4 wide), Buffer.bigEndianValue_bigEndian,
      Nat.mod_eq_of_lt fits]
  · rw [if_neg (by omega), if_neg isWide]

/-- What is read of an entry is what its own bytes spell. -/
theorem readEntry_eq_ok_iff {entry : ReadEntry} (lies : Lies buf position stop bytes) :
    readEntry buf stop position = .ok entry ↔
      ∃ parts : Parts, bytes = parts.body ∧ entry = parts.entry := by
  rw [readEntry]
  constructor
  · intro isRead
    rw [Fallible.bind_eq_ok_iff] at isRead
    obtain ⟨count, isCount, isRead⟩ := isRead
    rw [Fallible.bind_eq_ok_iff] at isRead
    obtain ⟨⟨realm, afterRealm⟩, isRealm, isRead⟩ := isRead
    rw [Fallible.bind_eq_ok_iff] at isRead
    obtain ⟨⟨components, afterNames⟩, areNames, isRead⟩ := isRead
    rw [Fallible.bind_eq_ok_iff] at isRead
    obtain ⟨numbers, areNumbers, isRead⟩ := isRead
    rw [Fallible.bind_eq_ok_iff] at isRead
    obtain ⟨⟨key, afterKey⟩, isKey, isRead⟩ := isRead
    rw [Fallible.bind_eq_ok_iff] at isRead
    obtain ⟨kvno, isKvno, isRead⟩ := isRead
    have hasCount : 2 ≤ bytes.length := by
      have isBefore := data_before_stop isRealm
      have isStop := lies.stop_eq
      omega
    obtain ⟨_, bytes, countFits, rfl⟩ := exists_number hasCount
    rw [readUInt_number lies countFits, Except.ok.injEq] at isCount
    subst isCount
    replace lies := lies.after
    rw [Buffer.length_bigEndian] at lies
    obtain ⟨bytes, rfl, realmFits, rfl⟩ := (data_eq_ok_iff lies).mp isRealm
    replace lies := lies.after
    obtain ⟨bytes, rfl, rfl, componentsFit, rfl⟩ := (fields_eq_ok_iff lies).mp areNames
    replace lies := lies.after
    obtain ⟨numbersFit, bytes, rfl⟩ := (readNumbers_eq_ok_iff lies).mp areNumbers
    replace lies := lies.after
    rw [length_numbersSpelled] at lies
    obtain ⟨tail, rfl, keyFits, rfl⟩ := (data_eq_ok_iff lies).mp isKey
    rw [readKvno_eq lies.after, Except.ok.injEq] at isKvno
    subst isKvno
    cases isRead
    exact
      ⟨{ realm, components, numbers, key, tail, realmFits, countFits, componentsFit,
         numbersFit, keyFits }, rfl, rfl⟩
  · rintro ⟨parts, rfl, rfl⟩
    rw [Parts.body] at lies
    have isCount := readUInt_number lies parts.countFits
    replace lies := lies.after
    rw [Buffer.length_bigEndian] at lies
    have isRealm := (data_eq_ok_iff lies).mpr ⟨_, rfl, parts.realmFits, rfl⟩
    replace lies := lies.after
    have areNames := (fields_eq_ok_iff lies).mpr ⟨_, rfl, rfl, parts.componentsFit, rfl⟩
    replace lies := lies.after
    have areNumbers := (readNumbers_eq_ok_iff lies).mpr ⟨parts.numbersFit, _, rfl⟩
    replace lies := lies.after
    rw [length_numbersSpelled] at lies
    have isKey := (data_eq_ok_iff lies).mpr ⟨_, rfl, parts.keyFits, rfl⟩
    have isKvno := @readKvno_eq _ _ _ _ parts.numbers.kvno lies.after
    rw [isCount, Fallible.ok_bind, isRealm, Fallible.ok_bind]
    dsimp only
    rw [areNames, Fallible.ok_bind]
    dsimp only
    rw [areNumbers, Fallible.ok_bind, isKey, Fallible.ok_bind]
    dsimp only
    rw [isKvno]
    rfl

/-! ## Records -/

/-- A size is read where it is spelled. -/
theorem readInt32BE_content (lies : Lies buf position stop (TwosComplement.content 4 size ++ left))
    (fits : TwosComplement.Fits 4 size) :
    readInt32BE buf position = .ok size := by
  have inFile := lies.stop_le
  rw [lies.stop_eq, length_append, TwosComplement.length_content] at inFile
  obtain ⟨rest, isRest⟩ := lies.drop_eq
  rw [readInt32BE, if_pos (by omega), isRest, append_assoc,
    take_left' (TwosComplement.length_content 4 size),
    TwosComplement.value_content (by decide) fits]

/-- Four bytes are the size of some record. -/
theorem exists_size (hasSize : 4 ≤ bytes.length) :
    ∃ size left, TwosComplement.Fits 4 size ∧ bytes = TwosComplement.content 4 size ++ left := by
  have isFour : (bytes.take 4).length = 4 := length_take_of_le hasSize
  have isSome : bytes.take 4 ≠ [] := ne_nil_of_length_pos (by omega)
  have fits := TwosComplement.value_fits isSome
  have spelled := TwosComplement.content_value (bytes.take 4)
  rw [isFour] at fits spelled
  exact ⟨TwosComplement.value (bytes.take 4), bytes.drop 4, fits, by
      rw [spelled, take_append_drop]⟩

/-- The rest of a file lies to its end. -/
theorem lies_to_end (front bytes : Buffer) :
    Lies (front ++ bytes) front.length (front ++ bytes).length bytes :=
  ⟨front, [], by simp, rfl, by simp⟩

theorem Record.hasSize (record : Record) : 4 ≤ record.spelled.length := by
  cases record <;> simp [Record.spelled]

theorem fits_four (bounds : -2 ^ 31 ≤ size ∧ size < 2 ^ 31) : TwosComplement.Fits 4 size := bounds

/-- The size before a record's bytes is its own. -/
theorem size_of_spelled {first second : Int} {afterFirst afterSecond : Buffer}
    (firstFits : TwosComplement.Fits 4 first) (secondFits : TwosComplement.Fits 4 second)
    (same :
      TwosComplement.content 4 first ++ afterFirst =
        TwosComplement.content 4 second ++ afterSecond) :
    first = second ∧ afterFirst = afterSecond := by
  obtain ⟨sameSize, sameRest⟩ :=
    append_inj same (by rw [TwosComplement.length_content, TwosComplement.length_content])
  have values := congrArg TwosComplement.value sameSize
  rw [TwosComplement.value_content (by decide) firstFits,
    TwosComplement.value_content (by decide) secondFits] at values
  exact ⟨values, sameRest⟩

/-- A record that is read is one that the file goes on with. -/
theorem readRecord_eq_ok_iff {position size : Nat} {answer : Option ReadEntry}
    (lies : Lies buf position buf.length bytes) :
    readRecord buf position = .ok (answer, size) ↔
      ∃ record : Record, ∃ left,
        bytes = record.spelled ++ left ∧ answer = record.answer ∧
          record.spelled.length = 4 + size := by
  have isStop := lies.stop_eq
  rw [readRecord]
  by_cases hasSize : 4 ≤ bytes.length
  · obtain ⟨signed, bytes, fits, rfl⟩ := exists_size hasSize
    have later := lies.after
    rw [TwosComplement.length_content] at later
    rw [need_eq_ok_iff.mpr (by omega), Fallible.ok_bind, readInt32BE_content lies fits,
      Fallible.ok_bind]
    have bounds : -2 ^ 31 ≤ signed ∧ signed < 2 ^ 31 := fits
    constructor
    · intro isRead
      rw [Fallible.bind_eq_ok_iff] at isRead
      obtain ⟨_, inFile, isRead⟩ := isRead
      rw [need_eq_ok_iff, later.stop_eq] at inFile
      have isLong : (bytes.take signed.natAbs).length = signed.natAbs :=
        length_take_of_le (by omega)
      have parted := take_append_drop signed.natAbs bytes
      rw [← parted] at later
      split at isRead
      · rename_i isNegative
        cases isRead
        have isSize : signed = -((bytes.take signed.natAbs).length : Int) := by omega
        refine
          ⟨.hole (bytes.take signed.natAbs) (ne_nil_of_length_pos (by omega)) (by omega),
            bytes.drop signed.natAbs, ?_, rfl, ?_⟩
        · rw [Record.spelled, ← isSize, append_assoc, parted]
        · rw [Record.spelled, length_append, TwosComplement.length_content, isLong]
      · rename_i notNegative
        rw [Fallible.bind_eq_ok_iff] at isRead
        obtain ⟨entry, isEntry, isRead⟩ := isRead
        cases isRead
        have isSize : signed = ((bytes.take signed.natAbs).length : Int) := by omega
        have within :
            Lies buf (position + 4) (position + 4 + signed.natAbs) (bytes.take signed.natAbs) := by
          obtain ⟨front, rest, isBuf, isPosition, _⟩ := later
          exact
            ⟨front, bytes.drop signed.natAbs ++ rest, by rw [isBuf, append_assoc],
              isPosition, by rw [isLong]⟩
        obtain ⟨parts, isBody, rfl⟩ := (readEntry_eq_ok_iff within).mp isEntry
        rw [isBody] at isSize isLong parted
        refine ⟨.entry parts (by omega), bytes.drop signed.natAbs, ?_, rfl, ?_⟩
        · rw [Record.spelled, ← isSize, append_assoc, parted]
        · rw [Record.spelled, length_append, TwosComplement.length_content, isLong]
    · rintro ⟨record, left, spelled, rfl, isLong⟩
      cases record with
      | hole hole isHole holeFits =>
        rw [Record.spelled, append_assoc] at spelled
        obtain ⟨rfl, rfl⟩ := size_of_spelled fits (fits_four ⟨by omega, by omega⟩) spelled
        have isSome : 0 < hole.length := length_pos_iff.mpr isHole
        have isSize : size = hole.length := by
          simp [Record.spelled] at isLong
          omega
        have inFile := later.stop_eq
        rw [length_append] at inFile
        rw [need_eq_ok_iff.mpr (by omega), Fallible.ok_bind, if_pos (by omega), isSize]
        simp [Record.answer, pure, Except.pure]
      | entry parts partsFit =>
        rw [Record.spelled, append_assoc] at spelled
        obtain ⟨rfl, rfl⟩ := size_of_spelled fits (fits_four ⟨by omega, by omega⟩) spelled
        have isSize : size = parts.body.length := by
          simp [Record.spelled] at isLong
          omega
        have inFile := later.stop_eq
        rw [length_append] at inFile
        have within : Lies buf (position + 4) (position + 4 + parts.body.length) parts.body := by
          obtain ⟨front, rest, isBuf, isPosition, _⟩ := later
          exact ⟨front, left ++ rest, by rw [isBuf, append_assoc], isPosition, rfl⟩
        have isRead := (readEntry_eq_ok_iff within).mpr ⟨parts, rfl, rfl⟩
        rw [need_eq_ok_iff.mpr (by omega), Fallible.ok_bind, if_neg (by omega),
          Int.natAbs_natCast, isRead, isSize]
        rfl
  · constructor
    · intro isRead
      rw [Fallible.bind_eq_ok_iff] at isRead
      obtain ⟨_, inFile, _⟩ := isRead
      rw [need_eq_ok_iff] at inFile
      omega
    · rintro ⟨record, left, rfl, _⟩
      have isLong := record.hasSize
      rw [length_append] at hasSize
      omega

/-- The records that are read are all that follows. -/
theorem readRecords_eq_ok_iff {size : Nat} {entries answers : List ReadEntry}
    (lies : Lies buf position buf.length bytes) (isSize : bytes.length = size) :
    readRecords buf position entries = .ok answers ↔
      ∃ records : List Record,
        bytes = records.flatMap Record.spelled ∧
          answers = entries ++ records.filterMap Record.answer := by
  induction size using Nat.strong_induction_on generalizing bytes position entries with
  | h size ih =>
    have isStop := lies.stop_eq
    rw [readRecords]
    by_cases isOver : bytes = []
    · subst isOver
      rw [if_neg (by simpa using Nat.le_of_eq isStop)]
      constructor
      · intro areRead
        cases areRead
        exact ⟨[], rfl, (append_nil _).symm⟩
      · rintro ⟨records, isNothing, rfl⟩
        cases records with
        | nil => rw [filterMap_nil, append_nil]
        | cons record records =>
          have isLong := record.hasSize
          rw [flatMap_cons, eq_comm, append_eq_nil_iff] at isNothing
          rw [isNothing.1] at isLong
          cases isLong
    · have isSome : 0 < bytes.length := length_pos_iff.mpr isOver
      have answersAfter (record : Record) (records : List Record) :
          entries ++ (record :: records).filterMap Record.answer =
            entries ++ record.answer.toList ++ records.filterMap Record.answer := by
        rw [append_assoc, filterMap_cons]
        cases record.answer <;> rfl
      rw [if_pos (by omega), Fallible.bind_eq_ok_iff]
      constructor
      · rintro ⟨⟨entry, recordSize⟩, isRead, areRead⟩
        obtain ⟨record, left, rfl, rfl, isLong⟩ := (readRecord_eq_ok_iff lies).mp isRead
        have later := lies.after
        rw [isLong, ← Nat.add_assoc] at later
        rw [length_append] at isSize
        obtain ⟨records, rfl, rfl⟩ := (ih left.length (by omega) later rfl).mp areRead
        exact ⟨record :: records, rfl, (answersAfter record records).symm⟩
      · rintro ⟨records, rfl, rfl⟩
        cases records with
        | nil => exact absurd rfl isOver
        | cons record records =>
          have isLong := record.hasSize
          have isRead :=
            (readRecord_eq_ok_iff lies).mpr ⟨record, _, rfl, rfl, (Nat.add_sub_cancel' isLong).symm⟩
          have later := lies.after
          rw [← Nat.add_sub_cancel' isLong, ← Nat.add_assoc] at later
          rw [flatMap_cons, length_append] at isSize
          exact
            ⟨_, isRead,
              (ih (records.flatMap Record.spelled).length (by omega) later
                rfl).mpr ⟨records, rfl, answersAfter record records⟩⟩

/-- A file that is read is its version and records, whose entries are answered. -/
theorem readKeytab_eq_ok_iff {answers : List ReadEntry} :
    readKeytab bytes = .ok answers ↔
      ∃ records : List Record,
        bytes = Buffer.bigEndian 2 keytabVersion ++ records.flatMap Record.spelled ∧
          answers = records.filterMap Record.answer := by
  rw [readKeytab]
  constructor
  · intro areRead
    split at areRead
    · rename_i isKeytab
      obtain ⟨version, rest, fits, rfl⟩ := exists_number isKeytab.1
      have isVersion := isKeytab.2
      rw [take_left' (Buffer.length_bigEndian 2 version), Buffer.bigEndianValue_bigEndian,
        Nat.mod_eq_of_lt fits] at isVersion
      have lies := lies_to_end (Buffer.bigEndian 2 version) rest
      rw [Buffer.length_bigEndian] at lies
      obtain ⟨records, rfl, rfl⟩ := (readRecords_eq_ok_iff lies rfl).mp areRead
      exact ⟨records, by rw [isVersion], nil_append _⟩
    · cases areRead
  · rintro ⟨records, rfl, rfl⟩
    have lies := lies_to_end (Buffer.bigEndian 2 keytabVersion) (records.flatMap Record.spelled)
    rw [Buffer.length_bigEndian] at lies
    rw [if_pos ⟨by simp, by rw [take_left' (Buffer.length_bigEndian 2 keytabVersion)]; rfl⟩]
    exact (readRecords_eq_ok_iff lies rfl).mpr ⟨records, rfl, (nil_append _).symm⟩

end IyaSts.Krb5Keytab
