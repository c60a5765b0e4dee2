import IyaSts.Krb5KeytabReads

namespace IyaSts.Krb5Keytab

/-!
# When a keytab that is written reads back as the same entries

The writer refuses what has no place in the file, but masks the name type, the
time and the encryption type, and writes the clock for a time that is zero.
-/

open List

open Binary64 (Number)
open Binary64.Number

/-! ## Numbers -/

/-- What a number stands for, where that is an integer. -/
def Denotes (number : Number) (value : Int) : Prop :=
  ∃ negative magnitude, number = .finite negative magnitude ∧ exactly negative magnitude = value

/-- The integer at or below a number. -/
def IsFloor (number : Number) (value : Int) : Prop :=
  ∃ negative magnitude, number = .finite negative magnitude ∧ ⌊exactly negative magnitude⌋ = value


theorem toUint32_lt (number : Number) : toUint32 number < 2 ^ 32 := by
  cases number with
  | nan => decide
  | infinite negative => exact Nat.two_pow_pos 32
  | finite negative magnitude =>
    rw [toUint32]
    omega

theorem eq_natCast {magnitude : ℚ≥0} {n : ℕ} (same : (magnitude : ℚ) = n) : magnitude = n :=
  NNRat.coe_inj.mp (same.trans (NNRat.coe_natCast n).symm)

variable {number : Number} {value : Int}

/-- The 32 low bits of an integer. -/
theorem Denotes.toUint32_eq (denotes : Denotes number value) :
    toUint32 number = (value % 2 ^ 32).toNat := by
  obtain ⟨negative, magnitude, rfl, isValue⟩ := denotes
  rw [toUint32]
  have magnitudeNotNegative : (0 : ℚ) ≤ magnitude := magnitude.coe_nonneg
  cases negative with
  | false =>
    have isMagnitude : (magnitude : ℚ) = value := isValue
    have notNegative : 0 ≤ value := by
      rw [isMagnitude] at magnitudeNotNegative
      exact_mod_cast magnitudeNotNegative
    obtain ⟨n, rfl⟩ := Int.eq_ofNat_of_zero_le notNegative
    have isNatural : magnitude = n := eq_natCast (isMagnitude.trans (Int.cast_natCast n))
    rw [isNatural, Nat.floor_natCast]
    rfl
  | true =>
    have isMagnitude : (magnitude : ℚ) = -value := neg_eq_iff_eq_neg.mp isValue
    have notPositive : value ≤ 0 := by
      rw [isMagnitude] at magnitudeNotNegative
      have := neg_nonneg.mp magnitudeNotNegative
      exact_mod_cast this
    obtain ⟨n, rfl⟩ := Int.exists_eq_neg_ofNat notPositive
    rw [Int.cast_neg, neg_neg] at isMagnitude
    have isNatural : magnitude = n := eq_natCast (isMagnitude.trans (Int.cast_natCast n))
    rw [isNatural, Nat.floor_natCast]
    rfl

theorem denotes_ofInt (value : Int) : Denotes (ofInt value) value := by
  refine ⟨_, _, rfl, ?_⟩
  rw [exactly]
  by_cases isNegative : value < 0
  · rw [decide_eq_true isNegative, if_pos rfl, NNRat.coe_natCast]
    have isAbs : ((value.natAbs : Int) : ℚ) = ((-value : Int) : ℚ) := by
      rw [Int.ofNat_natAbs_of_nonpos isNegative.le]
    rw [Int.cast_natCast] at isAbs
    rw [isAbs, Int.cast_neg, neg_neg]
  · rw [decide_eq_false isNegative, if_neg (by decide), NNRat.coe_natCast]
    have isAbs : ((value.natAbs : Int) : ℚ) = (value : ℚ) := by
      rw [Int.natAbs_of_nonneg (not_lt.mp isNegative)]
    rwa [Int.cast_natCast] at isAbs

/-- The floor of a number is an integer of its sign. -/
theorem IsFloor.denotes (isFloor : IsFloor number value) : Denotes (floor number) value := by
  obtain ⟨negative, magnitude, rfl, rfl⟩ := isFloor
  refine ⟨_, _, rfl, ?_⟩
  have magnitudeNotNegative : (0 : ℚ) ≤ magnitude := magnitude.coe_nonneg
  cases negative with
  | false =>
    have notNegative : 0 ≤ ⌊exactly false magnitude⌋ := Int.floor_nonneg.mpr magnitudeNotNegative
    rw [exactly, if_neg (by decide), Rat.coe_nnabs, abs_of_nonneg (by exact_mod_cast notNegative)]
  | true =>
    have notPositive : ⌊exactly true magnitude⌋ ≤ 0 := by
      have below : (⌊exactly true magnitude⌋ : ℚ) ≤ 0 :=
        le_trans (Int.floor_le _) (neg_nonpos.mpr magnitudeNotNegative)
      exact_mod_cast below
    rw [exactly, if_pos rfl, Rat.coe_nnabs, abs_of_nonpos (by exact_mod_cast notPositive), neg_neg]

/-- A number of 32 bits is one that `>>> 0` keeps. -/
theorem denotes_toUint32_iff (number : Number) :
    Denotes number (toUint32 number) ↔ ∃ value : Nat, value < 2 ^ 32 ∧ Denotes number value := by
  constructor
  · intro denotes
    exact ⟨toUint32 number, toUint32_lt number, denotes⟩
  · rintro ⟨value, fits, denotes⟩
    rw [denotes.toUint32_eq, Int.emod_eq_of_lt (by omega) (by omega)]
    exact denotes

/-- A number of 16 bits is one that `& 0xffff` keeps. -/
theorem denotes_low_iff (number : Number) :
    Denotes number (toUint32 number % 2 ^ 16 : Nat) ↔
      ∃ value : Nat, value < 2 ^ 16 ∧ Denotes number value := by
  constructor
  · intro denotes
    exact ⟨toUint32 number % 2 ^ 16, Nat.mod_lt _ (by decide), denotes⟩
  · rintro ⟨value, fits, denotes⟩
    rw [denotes.toUint32_eq, Int.emod_eq_of_lt (by omega) (by omega), Int.toNat_natCast,
      Nat.mod_eq_of_lt fits]
    exact denotes

/-- What the writer takes for a kvno. -/
theorem isUint32_iff (number : Number) :
    isUint32 number = true ↔ ∃ value : Nat, value < 2 ^ 32 ∧ Denotes number value := by
  cases number with
  | nan =>
    refine iff_of_false Bool.false_ne_true ?_
    rintro ⟨value, _, negative, magnitude, same, _⟩
    cases same
  | infinite sign =>
    refine iff_of_false Bool.false_ne_true ?_
    rintro ⟨value, _, negative, magnitude, same, _⟩
    cases same
  | finite negative magnitude =>
    rw [isUint32, decide_eq_true_iff]
    constructor
    · rintro ⟨isWhole, isZero, notAbove⟩
      refine ⟨⌊magnitude⌋₊, ?_, negative, magnitude, rfl, ?_⟩
      · rw [← isWhole] at notAbove
        have notAbove : ⌊magnitude⌋₊ ≤ 0xffffffff := by exact_mod_cast notAbove
        omega
      · cases negative with
        | false =>
          rw [exactly, if_neg (by decide), Int.cast_natCast]
          exact_mod_cast isWhole.symm
        | true =>
          rw [isZero rfl]
          simp [exactly]
    · rintro ⟨value, fits, _, _, same, isValue⟩
      cases same
      cases negative with
      | false =>
        have isMagnitude : magnitude = value := eq_natCast (isValue.trans (Int.cast_natCast value))
        subst isMagnitude
        refine ⟨by rw [Nat.floor_natCast], fun isTrue => absurd isTrue (by decide), ?_⟩
        have notAbove : value ≤ 0xffffffff := by omega
        exact_mod_cast notAbove
      | true =>
        have isZero : magnitude = 0 := by
          have magnitudeNotNegative : (0 : ℚ) ≤ magnitude := magnitude.coe_nonneg
          rw [exactly, if_pos rfl, Int.cast_natCast] at isValue
          have valueNotNegative : (0 : ℚ) ≤ value := Nat.cast_nonneg value
          have : (magnitude : ℚ) = 0 := by linarith
          exact_mod_cast this
        subst isZero
        exact ⟨by simp, fun _ => rfl, by norm_num⟩

/-! ## What an entry must be -/

section

variable (numberOf : String → Number)
variable (spelled : Number → String)

/-- The bytes of an entry. -/
def bodyLength (entry : KeytabEntry) : Nat :=
  21 + (asBytes entry.realm).length +
    (entry.components.map fun component => 2 + (Utf8.encode component).length).sum +
      (asBytes entry.key).length

/-- An entry that the writer does not refuse. -/
structure Encodable (entry : KeytabEntry) : Prop where
  hasPrincipal : entry.components ≠ []
  hasNames : "" ∉ entry.components
  hasKey : asBytes entry.key ≠ []
  kvnoFits : ∃ value : Nat, value < 2 ^ 32 ∧ Denotes (entry.kvno.value numberOf) value
  countFits : entry.components.length < 2 ^ 16
  realmFits : (asBytes entry.realm).length < 2 ^ 16
  componentsFit : ∀ component ∈ entry.components, (Utf8.encode component).length < 2 ^ 16
  keyFits : (asBytes entry.key).length < 2 ^ 16
  sizeFits : bodyLength entry < 2 ^ 31

/-- The second that a time lies in. -/
def InSecond (now : Int) : Timestamp → Int → Prop
  | .absent, second => second = now / 1000
  | .date (some milliseconds), second => second = milliseconds / 1000
  | .date none, _ => False
  | .seconds value, second => IsFloor value second

/--
A time that has a place in the file.  A number that is zero is written as the
clock's second, so it keeps its place only while that is zero.
-/
def TimeFits (now : Int) (timestamp : Timestamp) : Prop :=
  ∃ second : Nat,
    second < 2 ^ 32 ∧ InSecond now timestamp second ∧
      ∀ value, timestamp = .seconds value → isFalsy value = true → now / 1000 % 2 ^ 32 = 0

/-- An entry whose every value has a place in the file. -/
structure Fits (now : Int) (entry : KeytabEntry) : Prop where
  realm : Utf8.encode (Utf8.decode (asBytes entry.realm)) = asBytes entry.realm
  nameType : ∃ value : Nat, value < 2 ^ 32 ∧ Denotes (entry.nameType.getD nameTypePrincipal) value
  timestamp : TimeFits now entry.timestamp
  etype : ∃ value : Nat, value < 2 ^ 16 ∧ Denotes (entry.etype.value numberOf) value

/-- An entry that is read is the one that was written. -/
structure SameEntry (now : Int) (entry : KeytabEntry) (read : ReadEntry) : Prop where
  realm : Utf8.encode read.realm = asBytes entry.realm
  components : read.components = entry.components
  nameType : Denotes (entry.nameType.getD nameTypePrincipal) read.nameType
  timestamp : InSecond now entry.timestamp read.timestamp
  kvno : Denotes (entry.kvno.value numberOf) read.kvno
  etype : Denotes (entry.etype.value numberOf) read.etype
  key : read.key = asBytes entry.key

/-- The writer refuses the entries or writes a file that reads back as them. -/
def ReadsBack (now : Int) (entries : List KeytabEntry) : Prop :=
  ∀ file, writeKeytab numberOf spelled now entries = .ok file →
    ∃ answers, readKeytab file = .ok answers ∧ List.Forall₂ (SameEntry numberOf now) entries answers

/-! ## What is written -/

/-- The numbers of an entry that are written. -/
def numbersOf (now : Int) (entry : KeytabEntry) : Numbers where
  nameType := toUint32 (entry.nameType.getD nameTypePrincipal)
  timestamp := toUint32 (stampOf now entry.timestamp)
  kvno := toUint32 (entry.kvno.value numberOf) % 2 ^ 8
  etype := toUint32 (entry.etype.value numberOf) % 2 ^ 16

theorem fit_numbersOf (now : Int) (entry : KeytabEntry) : (numbersOf numberOf now entry).Fit where
  nameType := toUint32_lt _
  timestamp := toUint32_lt _
  kvno := Nat.mod_lt _ (by decide)
  etype := Nat.mod_lt _ (by decide)

/-- The bytes of an entry that are written. -/
def writtenBody (now : Int) (entry : KeytabEntry) : Buffer :=
  Buffer.bigEndian 2 (entry.components.map Utf8.encode).length ++
    (countedField (asBytes entry.realm) ++
      ((entry.components.map Utf8.encode).flatMap countedField ++
        ((numbersOf numberOf now entry).spelled ++
          (countedField (asBytes entry.key) ++
            Buffer.bigEndian 4 (toUint32 (entry.kvno.value numberOf))))))

theorem length_writtenBody (now : Int) (entry : KeytabEntry) :
    (writtenBody numberOf now entry).length = bodyLength entry := by
  have names :
      ((entry.components.map Utf8.encode).flatMap countedField).length =
        (entry.components.map fun component => 2 + (Utf8.encode component).length).sum := by
    rw [length_flatMap, map_map]
    congr 1
    apply map_congr_left
    intro component _
    exact length_countedField _
  simp only [writtenBody, length_append, Buffer.length_bigEndian, length_countedField,
    length_numbersSpelled, names, bodyLength]
  omega

variable {numberOf}

/-- The parts of an entry that are written. -/
def partsOf (now : Int) (entry : KeytabEntry) (encodable : Encodable numberOf entry) : Parts where
  realm := asBytes entry.realm
  components := entry.components.map Utf8.encode
  numbers := numbersOf numberOf now entry
  key := asBytes entry.key
  tail := Buffer.bigEndian 4 (toUint32 (entry.kvno.value numberOf))
  realmFits := encodable.realmFits
  countFits := by
    rw [length_map]
    exact encodable.countFits
  componentsFit := by
    intro bytes isBytes
    obtain ⟨component, isComponent, rfl⟩ := mem_map.mp isBytes
    exact encodable.componentsFit component isComponent
  numbersFit := fit_numbersOf numberOf now entry
  keyFits := encodable.keyFits

variable {now : Int} {entry : KeytabEntry} {index value : Nat}
    {entries : List KeytabEntry} {records : List Record}

variable {bytes : Buffer} (encodable : Encodable numberOf entry)

theorem body_partsOf :
    (partsOf now entry encodable).body = writtenBody numberOf now entry :=
  rfl

/-- The record of an entry that is written. -/
def recordOf (now : Int) (entry : KeytabEntry) (encodable : Encodable numberOf entry) : Record :=
  .entry (partsOf now entry encodable) <| by
    rw [body_partsOf, length_writtenBody]
    exact encodable.sizeFits

theorem counted_eq_ok_iff {bytes field : Buffer} :
    counted bytes = .ok field ↔ bytes.length < 2 ^ 16 ∧ field = countedField bytes := by
  rw [counted, maxData]
  split
  · simp
    omega
  · simp only [Except.ok.injEq, countedField]
    constructor
    · rintro rfl
      exact ⟨by omega, rfl⟩
    · rintro ⟨_, rfl⟩
      rfl

theorem checkEntry_eq_ok_iff {entry : KeytabEntry} :
    checkEntry numberOf spelled index entry = .ok () ↔
      entry.components ≠ [] ∧ "" ∉ entry.components ∧ asBytes entry.key ≠ [] ∧
        ∃ value : Nat, value < 2 ^ 32 ∧ Denotes (entry.kvno.value numberOf) value := by
  rw [← isUint32_iff, checkEntry]
  split
  · rename_i isNameless
    refine iff_of_false (by rintro ⟨⟩) ?_
    rintro ⟨hasPrincipal, hasNames, _⟩
    exact isNameless.elim hasPrincipal hasNames
  · rename_i isNamed
    rw [not_or] at isNamed
    split
    · rename_i isKeyless
      refine iff_of_false (by rintro ⟨⟩) ?_
      rintro ⟨_, _, hasKey, _⟩
      exact hasKey isKeyless
    · rename_i isKeyed
      split
      · rename_i isKvno
        exact iff_of_true rfl ⟨isNamed.1, isNamed.2, isKeyed, isKvno⟩
      · rename_i notKvno
        refine iff_of_false (by rintro ⟨⟩) ?_
        rintro ⟨_, _, _, isKvno⟩
        exact notKvno isKvno

theorem mapM_counted_eq_ok_iff {components : List String} {fields : List Buffer} :
    (components.mapM fun component => counted (Utf8.encode component)) = .ok fields ↔
      (∀ component ∈ components, (Utf8.encode component).length < 2 ^ 16) ∧
        fields = (components.map Utf8.encode).map countedField := by
  induction components generalizing fields with
  | nil =>
    rw [mapM_nil, Fallible.pure_eq_ok_iff]
    simp [eq_comm]
  | cons component components ih =>
    rw [mapM_cons, Fallible.bind_eq_ok_iff, forall_mem_cons]
    constructor
    · rintro ⟨field, isField, areFields⟩
      rw [Fallible.bind_eq_ok_iff] at areFields
      obtain ⟨others, areOthers, together⟩ := areFields
      obtain ⟨fits, rfl⟩ := counted_eq_ok_iff.mp isField
      obtain ⟨othersFit, rfl⟩ := ih.mp areOthers
      cases together
      exact ⟨⟨fits, othersFit⟩, rfl⟩
    · rintro ⟨⟨fits, othersFit⟩, rfl⟩
      refine ⟨_, counted_eq_ok_iff.mpr ⟨fits, rfl⟩, ?_⟩
      rw [ih.mpr ⟨othersFit, rfl⟩]
      rfl

theorem writeUInt16BE_eq_ok_iff :
    writeUInt16BE value = .ok bytes ↔ value < 2 ^ 16 ∧ bytes = Buffer.bigEndian 2 value :=
  Fallible.ite_eq_ok_iff

theorem writeInt32BE_eq_ok_iff :
    writeInt32BE value = .ok bytes ↔ value < 2 ^ 31 ∧ bytes = TwosComplement.content 4 value := by
  rw [writeInt32BE, Fallible.ite_eq_ok_iff]
  refine and_congr_right fun fits => ?_
  rw [TwosComplement.content, Int.emod_eq_of_lt (by omega) (by omega), Int.toNat_natCast]

/-- The parts of an entry are written, where each has its place. -/
theorem entryBody_eq_ok_iff :
    entryBody numberOf now entry = .ok bytes ↔
      entry.components.length < 2 ^ 16 ∧ (asBytes entry.realm).length < 2 ^ 16 ∧
        (∀ component ∈ entry.components, (Utf8.encode component).length < 2 ^ 16) ∧
          (asBytes entry.key).length < 2 ^ 16 ∧ bytes = writtenBody numberOf now entry := by
  have isMiddle : middle numberOf now entry = (numbersOf numberOf now entry).spelled := by
    simp [middle, Numbers.spelled, numbersOf]
  rw [entryBody]
  constructor
  · intro isWritten
    rw [Fallible.bind_eq_ok_iff] at isWritten
    obtain ⟨count, isCount, isWritten⟩ := isWritten
    rw [Fallible.bind_eq_ok_iff] at isWritten
    obtain ⟨realm, isRealm, isWritten⟩ := isWritten
    rw [Fallible.bind_eq_ok_iff] at isWritten
    obtain ⟨components, areComponents, isWritten⟩ := isWritten
    rw [Fallible.bind_eq_ok_iff] at isWritten
    obtain ⟨key, isKey, isWritten⟩ := isWritten
    obtain ⟨countFits, rfl⟩ := writeUInt16BE_eq_ok_iff.mp isCount
    obtain ⟨realmFits, rfl⟩ := counted_eq_ok_iff.mp isRealm
    obtain ⟨componentsFit, rfl⟩ := mapM_counted_eq_ok_iff.mp areComponents
    obtain ⟨keyFits, rfl⟩ := counted_eq_ok_iff.mp isKey
    cases isWritten
    refine ⟨countFits, realmFits, componentsFit, keyFits, ?_⟩
    rw [isMiddle, writtenBody, List.flatMap, length_map]
    simp only [append_assoc]
  · rintro ⟨countFits, realmFits, componentsFit, keyFits, rfl⟩
    rw [writeUInt16BE_eq_ok_iff.mpr ⟨countFits, rfl⟩, Fallible.ok_bind,
      counted_eq_ok_iff.mpr ⟨realmFits, rfl⟩, Fallible.ok_bind,
      mapM_counted_eq_ok_iff.mpr ⟨componentsFit, rfl⟩, Fallible.ok_bind,
      counted_eq_ok_iff.mpr ⟨keyFits, rfl⟩, Fallible.ok_bind, isMiddle, writtenBody,
      List.flatMap, length_map]
    simp only [append_assoc]
    rfl

/-- An entry is written where the writer does not refuse it, as its record. -/
theorem writeEntry_eq_ok_iff :
    writeEntry numberOf spelled now index entry = .ok bytes ↔
      ∃ encodable : Encodable numberOf entry, bytes = (recordOf now entry encodable).spelled := by
  rw [writeEntry]
  constructor
  · intro isWritten
    rw [Fallible.bind_eq_ok_iff] at isWritten
    obtain ⟨_, isChecked, isWritten⟩ := isWritten
    rw [Fallible.bind_eq_ok_iff] at isWritten
    obtain ⟨body, isBody, isWritten⟩ := isWritten
    rw [Fallible.bind_eq_ok_iff] at isWritten
    obtain ⟨size, isSize, isWritten⟩ := isWritten
    obtain ⟨hasPrincipal, hasNames, hasKey, kvnoFits⟩ := (checkEntry_eq_ok_iff spelled).mp isChecked
    obtain ⟨countFits, realmFits, componentsFit, keyFits, rfl⟩ := entryBody_eq_ok_iff.mp isBody
    obtain ⟨sizeFits, rfl⟩ := writeInt32BE_eq_ok_iff.mp isSize
    cases isWritten
    have encodable : Encodable numberOf entry :=
      ⟨hasPrincipal, hasNames, hasKey, kvnoFits, countFits, realmFits, componentsFit, keyFits,
        length_writtenBody numberOf now entry ▸ sizeFits⟩
    exact ⟨encodable, rfl⟩
  · rintro ⟨encodable, rfl⟩
    have isChecked : checkEntry numberOf spelled index entry = .ok () :=
      (checkEntry_eq_ok_iff spelled).mpr
        ⟨encodable.hasPrincipal, encodable.hasNames, encodable.hasKey, encodable.kvnoFits⟩
    have isBody : entryBody numberOf now entry = .ok (writtenBody numberOf now entry) :=
      entryBody_eq_ok_iff.mpr
        ⟨encodable.countFits, encodable.realmFits, encodable.componentsFit, encodable.keyFits, rfl⟩
    have sizeFits := encodable.sizeFits
    rw [← length_writtenBody numberOf now entry] at sizeFits
    rw [isChecked, Fallible.ok_bind, isBody, Fallible.ok_bind,
      writeInt32BE_eq_ok_iff.mpr ⟨sizeFits, rfl⟩]
    rfl

/-- The record that an entry is written as. -/
def Written (now : Int) (entry : KeytabEntry) (record : Record) : Prop :=
  ∃ encodable : Encodable numberOf entry, record = recordOf now entry encodable

theorem writeEntries_eq_ok_iff :
    writeEntries numberOf spelled now index entries = .ok bytes ↔
      ∃ records,
        List.Forall₂ (@Written numberOf now) entries records ∧
          bytes = records.flatMap Record.spelled := by
  induction entries generalizing index bytes with
  | nil =>
    rw [writeEntries, Except.ok.injEq]
    constructor
    · rintro rfl
      exact ⟨[], .nil, rfl⟩
    · rintro ⟨records, areWritten, rfl⟩
      cases areWritten
      rfl
  | cons entry entries ih =>
    rw [writeEntries, Fallible.bind_eq_ok_iff]
    constructor
    · rintro ⟨record, isWritten, areWritten⟩
      rw [Fallible.bind_eq_ok_iff] at areWritten
      obtain ⟨others, areWritten, together⟩ := areWritten
      obtain ⟨encodable, rfl⟩ := (writeEntry_eq_ok_iff spelled).mp isWritten
      obtain ⟨records, areRecords, rfl⟩ := ih.mp areWritten
      cases together
      exact ⟨recordOf now entry encodable :: records, .cons ⟨encodable, rfl⟩ areRecords, rfl⟩
    · rintro ⟨records, areWritten, rfl⟩
      cases areWritten with
      | cons isWritten areWritten =>
        obtain ⟨encodable, rfl⟩ := isWritten
        refine ⟨_, (writeEntry_eq_ok_iff spelled).mpr ⟨encodable, rfl⟩, ?_⟩
        rw [ih.mpr ⟨_, areWritten, rfl⟩]
        rfl

/-- Entries that the writer does not refuse are written. -/
theorem exists_written {now : Int} {entries : List KeytabEntry}
    (encodable : ∀ entry ∈ entries, Encodable numberOf entry) :
    ∃ records, List.Forall₂ (@Written numberOf now) entries records := by
  induction entries with
  | nil => exact ⟨[], .nil⟩
  | cons entry entries ih =>
    rw [forall_mem_cons] at encodable
    obtain ⟨records, areWritten⟩ := ih encodable.2
    exact ⟨recordOf now entry encodable.1 :: records, .cons ⟨encodable.1, rfl⟩ areWritten⟩

theorem encodable_of_written (areWritten : List.Forall₂ (@Written numberOf now) entries records) :
    ∀ entry ∈ entries, Encodable numberOf entry := by
  induction areWritten with
  | nil => exact forall_mem_nil _
  | cons isWritten _ ih =>
    obtain ⟨encodable, _⟩ := isWritten
    exact forall_mem_cons.mpr ⟨encodable, ih⟩

/-! ## What is read back -/

theorem isFloor_of_isFalsy {number : Number} {value : Int} (isZero : isFalsy number = true)
    (isFloor : IsFloor number value) :
    value = 0 := by
  obtain ⟨negative, magnitude, rfl, rfl⟩ := isFloor
  obtain rfl : magnitude = 0 := of_decide_eq_true isZero
  simp [exactly]

/-- The second that is written is the time's where that has its place. -/
theorem inSecond_stampOf_iff (now : Int) (timestamp : Timestamp) :
    InSecond now timestamp (toUint32 (stampOf now timestamp)) ↔ TimeFits now timestamp := by
  have kept (second : Int) :
      (toUint32 (ofInt second) : Int) = second ↔
        ∃ written : Nat, written < 2 ^ 32 ∧ (written : Int) = second := by
    rw [(denotes_ofInt second).toUint32_eq]
    constructor
    · intro same
      exact ⟨(second % 2 ^ 32).toNat, by omega, same⟩
    · rintro ⟨written, fits, rfl⟩
      omega
  cases timestamp with
  | absent =>
    rw [TimeFits]
    simpa [InSecond, stampOf] using kept (now / 1000)
  | date milliseconds =>
    cases milliseconds with
    | none => simp [TimeFits, InSecond]
    | some milliseconds =>
      rw [TimeFits]
      simpa [InSecond, stampOf] using kept (milliseconds / 1000)
  | seconds value =>
    rw [TimeFits, stampOf, InSecond]
    by_cases isZero : isFalsy value = true
    · rw [if_pos isZero, (denotes_ofInt _).toUint32_eq]
      constructor
      · intro isFloor
        have isNone := isFloor_of_isFalsy isZero isFloor
        refine ⟨_, ?_, isFloor, ?_⟩
        · omega
        · intro _ _ _
          omega
      · rintro ⟨second, _, isFloor, clock⟩
        have isNone := isFloor_of_isFalsy isZero isFloor
        rw [clock value rfl isZero, Int.toNat_zero]
        rwa [isNone] at isFloor
    · rw [if_neg isZero]
      constructor
      · intro isFloor
        refine ⟨_, toUint32_lt _, isFloor, ?_⟩
        intro other same isZero'
        cases same
        exact absurd isZero' isZero
      · rintro ⟨second, fits, isFloor, _⟩
        rw [isFloor.denotes.toUint32_eq, Int.emod_eq_of_lt (by omega) (by omega)]
        exact isFloor

/-- An entry is read back where each of its values has its place. -/
theorem same_iff_fits :
    SameEntry numberOf now entry (partsOf now entry encodable).entry ↔ Fits numberOf now entry := by
  have kvnoRead : (partsOf now entry encodable).kvno = toUint32 (entry.kvno.value numberOf) := by
    rw [Parts.kvno, partsOf]
    dsimp only
    rw [if_pos (by simp), take_of_length_le (by simp), Buffer.bigEndianValue_bigEndian]
    exact Nat.mod_eq_of_lt (toUint32_lt _)
  have componentsRead : (partsOf now entry encodable).entry.components = entry.components := by
    show (entry.components.map Utf8.encode).map Utf8.decode = entry.components
    rw [map_map]
    conv => rhs; rw [← map_id entry.components]
    apply map_congr_left
    intro component _
    exact Utf8.decode_encode component
  constructor
  · intro same
    exact
      { realm := same.realm
        nameType := (denotes_toUint32_iff _).mp same.nameType
        timestamp := (inSecond_stampOf_iff now entry.timestamp).mp same.timestamp
        etype := (denotes_low_iff _).mp same.etype }
  · intro fits
    exact
      { realm := fits.realm
        components := componentsRead
        nameType := (denotes_toUint32_iff _).mpr fits.nameType
        timestamp := (inSecond_stampOf_iff now entry.timestamp).mpr fits.timestamp
        kvno := by
          show Denotes _ ((partsOf now entry encodable).kvno : Int)
          rw [kvnoRead]
          exact (denotes_toUint32_iff _).mpr encodable.kvnoFits
        etype := (denotes_low_iff _).mpr fits.etype
        key := rfl }

theorem allSame_iff (areWritten : List.Forall₂ (@Written numberOf now) entries records) :
    List.Forall₂ (SameEntry numberOf now) entries (records.filterMap Record.answer) ↔
      ∀ entry ∈ entries, Fits numberOf now entry := by
  induction areWritten with
  | nil => simp
  | @cons entry record entries records isWritten _ ih =>
    obtain ⟨encodable, rfl⟩ := isWritten
    have isAnswer :
        (recordOf now entry encodable).answer = some (partsOf now entry encodable).entry :=
      rfl
    rw [filterMap_cons_some isAnswer, forall₂_cons, forall_mem_cons,
      ih, same_iff_fits]

/-- What is written reads back exactly where every value has its place. -/
theorem readsBack_iff {entries : List KeytabEntry} :
    ReadsBack numberOf spelled now entries ↔
      ((∀ entry ∈ entries, Encodable numberOf entry) →
        ∀ entry ∈ entries, Fits numberOf now entry) := by
  constructor
  · intro readsBack encodable
    obtain ⟨records, areWritten⟩ := @exists_written _ now _ encodable
    have isWritten :
        writeKeytab numberOf spelled now entries =
          .ok (Buffer.bigEndian 2 keytabVersion ++ records.flatMap Record.spelled) := by
      rw [writeKeytab, (writeEntries_eq_ok_iff spelled).mpr ⟨records, areWritten, rfl⟩]
      rfl
    obtain ⟨answers, areRead, same⟩ := readsBack _ isWritten
    rw [readKeytab_eq_ok_iff.mpr ⟨records, rfl, rfl⟩, Except.ok.injEq] at areRead
    rw [← areRead] at same
    exact (allSame_iff areWritten).mp same
  · intro fits file isWritten
    rw [writeKeytab, Fallible.bind_eq_ok_iff] at isWritten
    obtain ⟨bytes, isWritten, isFile⟩ := isWritten
    obtain ⟨records, areWritten, rfl⟩ := (writeEntries_eq_ok_iff spelled).mp isWritten
    cases isFile
    exact
      ⟨_, readKeytab_eq_ok_iff.mpr ⟨records, rfl, rfl⟩,
        (allSame_iff areWritten).mpr (fits (encodable_of_written areWritten))⟩

end

/-! ## The claim -/

/--
A file that is read is its version, entries and holes, and each entry that is
answered is spelled by the bytes of its own record.
-/
def ReadsWhole (file : Buffer) : Prop :=
  ∀ answers, readKeytab file = .ok answers →
    ∃ records : List Record,
      file = Buffer.bigEndian 2 keytabVersion ++ records.flatMap Record.spelled ∧
        answers = records.filterMap Record.answer

/--
The reader accounts for every byte of what it reads.  What is written reads back
exactly where each entry's values have their places.
-/
theorem keytab_kept_iff (numberOf : String → Number) (spelled : Number → String)
    (now : Int) (entries : List KeytabEntry) :
    (ReadsBack numberOf spelled now entries ↔
      ((∀ entry ∈ entries, Encodable numberOf entry) →
        ∀ entry ∈ entries, Fits numberOf now entry)) ∧
      ∀ file, ReadsWhole file := by
  refine ⟨readsBack_iff spelled, ?_⟩
  intro file answers areRead
  exact readKeytab_eq_ok_iff.mp areRead

/-- A service's entry whose time is zero. -/
def epochEntry : KeytabEntry where
  realm := some (.text "EXAMPLE.COM")
  components := ["HTTP", "web.example.com"]
  nameType := none
  timestamp := .seconds (ofInt 0)
  kvno := .number (ofInt 3)
  etype := .number (ofInt 18)
  key := some (.bytes [1, 2, 3, 4])

/-- The time zero is written as the clock's. -/
theorem epoch_not_kept : ¬ ReadsBack (fun _ => nan) (fun _ => "") 1700000000000 [epochEntry] := by
  rw [readsBack_iff]
  intro fits
  have encodable : Encodable (fun _ => nan) epochEntry :=
    { hasPrincipal := by decide
      hasNames := by decide
      hasKey := by decide
      kvnoFits := ⟨3, by decide, denotes_ofInt 3⟩
      countFits := by decide
      realmFits := by decide +kernel
      componentsFit := by decide +kernel
      keyFits := by decide
      sizeFits := by decide +kernel }
  have time := (fits (by simpa using encodable) epochEntry mem_cons_self).timestamp
  obtain ⟨second, _, _, clock⟩ := time
  have isZero := clock (ofInt 0) rfl (by decide +kernel)
  exact absurd isZero (by decide)

end IyaSts.Krb5Keytab
