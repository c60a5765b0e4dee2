import IyaSts.Krb5Ndr

namespace IyaSts.Krb5Ndr

/-!
# What the NDR reader answers to the NDR writer

Each reader against the writer of the same thing: numbers come back up to their
width, referents as whether they were given, counts and strings unless they pass
the reader's limit.
-/

open CursorCodec List

/-- What a reader answers to a writer, in a stream that is read at all. -/
abbrev Reads {α : Type} (write : Writer → Writer) (reading : NdrReading α) (answer : Option α) :
    Prop :=
  Answers Writer.bytes maxNdrBytes write reading answer

/-- A writer that only appends to the stream. -/
abbrev Extends (write : Writer → Writer) : Prop := Appends Writer.bytes write

variable (arr : Buffer) (size v lo hi : Nat) (present : Bool) (what : String) (s : Text)
    (value : Option Text)

theorem push_extends : Extends (Writer.push arr) := fun _ => ⟨arr, rfl⟩

theorem align_extends : Extends (Writer.align size) := fun w => push_extends _ w


theorem u16_extends : Extends (Writer.u16 v) := (align_extends 2).andThen (push_extends _)

theorem u32_extends : Extends (Writer.u32 v) := (align_extends 4).andThen (push_extends _)

theorem u64_extends : Extends (Writer.u64 lo hi) := (align_extends 8).andThen (push_extends _)

theorem pointer_extends : Extends (Writer.pointer present) := by
  intro w
  cases present with
  | true => exact u32_extends w.nextReferent w
  | false => exact u32_extends 0 w

variable {ι : Type} {write : ι → Writer → Writer} {n : Nat}

theorem each_extends {items : List ι} (appends : ∀ item ∈ items, Extends (write item)) :
    Extends (Writer.each items write) :=
  Appends.each appends

/-! ## Octets and numbers -/

theorem added_push (w : Writer) : added Writer.bytes (Writer.push arr) w = arr := drop_left

/-- Octets pushed are the octets taken. -/
theorem taken_reads (isLength : n = arr.length) :
    Reads (Writer.push arr) (taken n what) (some arr) := by
  refine ⟨push_extends arr, fun w before after _ _ => ?_⟩
  subst isLength
  rw [added_push]
  have enough : ¬ (before ++ arr ++ after).length < before.length + arr.length := by simp
  show taken arr.length what (before ++ arr ++ after) before.length = _
  rw [taken, if_neg enough, append_assoc, drop_left, take_left]

/-- Padding written is padding read: both know where they are. -/
theorem align_reads : Reads (Writer.align size) (align size) (some ()) := by
  refine ⟨align_extends size, fun w before after sameLength fits => ?_⟩
  have isPadding :
      padding size before.length = (Buffer.alloc (padding size w.bytes.length)).length := by
    rw [Buffer.length_alloc, sameLength]
  have padded :
      taken (padding size before.length) "alignment padding"
          (before ++ added Writer.bytes (Writer.align size) w ++ after)
          before.length =
        .ok (_, before.length + (added Writer.bytes (Writer.align size) w).length) :=
    (taken_reads _ "alignment padding" isPadding).reads w before after sameLength fits
  have steps :
      align size (before ++ added Writer.bytes (Writer.align size) w ++ after)
          before.length =
        (taken (padding size before.length) "alignment padding"
          (before ++ added Writer.bytes (Writer.align size) w ++ after)
          before.length >>= fun result => .ok ((), result.2)) :=
    rfl
  rw [padded] at steps
  exact steps

theorem u8_reads : Reads (Writer.u8 v) u8 (some (v % 2 ^ 8)) := by
  have reads :=
    (taken_reads (Buffer.littleEndian 1 v) "a byte"
      (Buffer.length_littleEndian 1 v).symm).bind_read fun b _ =>
        Answers.pure (Buffer.littleEndianValue b)
  rwa [Option.bind_some, Buffer.littleEndianValue_littleEndian] at reads

theorem u16_reads : Reads (Writer.u16 v) u16 (some (v % 2 ^ 16)) := by
  have reads :=
    (align_reads 2).bind (push_extends _) fun _ _ =>
      (taken_reads (Buffer.littleEndian 2 v) "a 16-bit value"
        (Buffer.length_littleEndian 2 v).symm).bind_read fun b _ =>
          Answers.pure (Buffer.littleEndianValue b)
  rwa [Option.bind_some, Option.bind_some, Buffer.littleEndianValue_littleEndian] at reads

theorem u32_reads : Reads (Writer.u32 v) u32 (some (v % 2 ^ 32)) := by
  have reads :=
    (align_reads 4).bind (push_extends _) fun _ _ =>
      (taken_reads (Buffer.littleEndian 4 v) "a 32-bit value"
        (Buffer.length_littleEndian 4 v).symm).bind_read fun b _ =>
          Answers.pure (Buffer.littleEndianValue b)
  rwa [Option.bind_some, Option.bind_some, Buffer.littleEndianValue_littleEndian] at reads

theorem u64_reads :
    Reads (Writer.u64 lo hi) u64 (some { low := lo % 2 ^ 32, high := hi % 2 ^ 32 }) := by
  have isLength : 8 = (Buffer.littleEndian 4 lo ++ Buffer.littleEndian 4 hi).length := by simp
  have reads :=
    (align_reads 8).bind (push_extends _) fun _ _ =>
      (taken_reads _ "a 64-bit value" isLength).bind_read fun b _ =>
        Answers.pure
          { low := Buffer.littleEndianValue (b.take 4),
            high := Buffer.littleEndianValue (b.drop 4) : U64 }
  have lowHalf :
      (Buffer.littleEndian 4 lo ++ Buffer.littleEndian 4 hi).take 4 = Buffer.littleEndian 4 lo :=
    take_left' (Buffer.length_littleEndian 4 lo)
  have highHalf :
      (Buffer.littleEndian 4 lo ++ Buffer.littleEndian 4 hi).drop 4 = Buffer.littleEndian 4 hi :=
    drop_left' (Buffer.length_littleEndian 4 lo)
  rwa [Option.bind_some, Option.bind_some, lowHalf, highHalf, Buffer.littleEndianValue_littleEndian,
    Buffer.littleEndianValue_littleEndian] at reads

/-- A 32-bit value read is one. -/
theorem u32_lt {b : Buffer} {start : Nat} {result : Nat × Nat} (reads : u32 b start = .ok result) :
    result.1 < 2 ^ 32 := by
  obtain ⟨_, _, _, reads⟩ := bind_eq_ok reads
  obtain ⟨octets, stop, isTaken, isValue⟩ := bind_eq_ok reads
  cases isValue
  have few : octets.length ≤ 4 := by
    unfold taken at isTaken
    split at isTaken
    · cases isTaken
    · cases isTaken
      exact length_take_le _ _
  calc
    Buffer.littleEndianValue octets < 256 ^ octets.length := Buffer.littleEndianValue_lt octets
    _ ≤ 256 ^ 4 := Nat.pow_le_pow_right (by decide) few
    _ = 2 ^ 32 := by norm_num

/-- A referent given out is never the one that means NULL. -/
theorem pointer_reads : Reads (Writer.pointer present) pointer (some present) := by
  refine ⟨pointer_extends present, fun w before after sameLength fits => ?_⟩
  cases present with
  | true =>
    have reads := (u32_reads w.nextReferent).bind_read fun id _ => Answers.pure (id != 0)
    have small : w.nextReferent % 2 ^ 32 = w.nextReferent := by
      apply Nat.mod_eq_of_lt
      have bounded := w.bounded
      rw [length_append, length_append] at fits
      simp only [firstReferent, maxNdrBytes] at bounded fits
      omega
    have notNull : (w.nextReferent != 0) = true := by simpa using Nat.pos_iff_ne_zero.mp w.positive
    rw [small] at reads
    have read := reads.reads w before after sameLength fits
    rw [Option.bind_some, notNull] at read
    exact read
  | false =>
    have reads := (u32_reads 0).bind_read fun id _ => Answers.pure (id != 0)
    exact reads.reads w before after sameLength fits

/-- A count is read unless it passes the limit. -/
theorem arrayCount_reads (isWord : n < 2 ^ 32) :
    Reads (Writer.u32 n) (arrayCount what) (if maxArrayElements < n then none else some n) := by
  let limited (n : Nat) : NdrReading Nat :=
    if maxArrayElements < n then
      throw (s!"krb5: an NDR array of {n} " ++ what ++
        s!" is not credible (limit {maxArrayElements}). Check the " ++
        "byte order — NDR is LITTLE-endian, unlike the rest of Kerberos.")
    else
      pure n
  have limit_reads (n : Nat) :
      Reads id (limited n) (if maxArrayElements < n then none else some n) := by
    by_cases tooMany : maxArrayElements < n
    · simp only [limited, if_pos tooMany]
      exact Answers.throw Appends.refl _
    · simp only [limited, if_neg tooMany]
      exact Answers.pure n
  have reads :
      Reads (Writer.u32 n) (arrayCount what)
        ((some (n % 2 ^ 32)).bind fun n =>
          if maxArrayElements < n then none else some n) :=
    (u32_reads n).bind_read fun n _ => limit_reads n
  rwa [Option.bind_some, Nat.mod_eq_of_lt isWord] at reads

/-! ## Strings -/

theorem u16_grows (w : Writer) : w.bytes.length + 1 ≤ (w.u16 v).bytes.length := by
  simp only [Writer.u16, Writer.push, Writer.align, length_append, Buffer.length_littleEndian]
  omega

theorem u32_grows (w : Writer) : w.bytes.length + 1 ≤ (w.u32 v).bytes.length := by
  simp only [Writer.u32, Writer.push, Writer.align, length_append, Buffer.length_littleEndian]
  omega

theorem pointer_grows (w : Writer) :
    w.bytes.length + 1 ≤ (w.pointer present).bytes.length := by
  cases present with
  | true => exact u32_grows w.nextReferent w
  | false => exact u32_grows 0 w

/-- Rounds that each write something write no less than their number. -/
theorem each_grows (grows : ∀ item w, w.bytes.length + 1 ≤ (write item w).bytes.length)
    (items : List ι) (w : Writer) :
    w.bytes.length + items.length ≤ (w.each items write).bytes.length := by
  induction items generalizing w with
  | nil => exact Nat.le_refl _
  | cons item items ih =>
    have first := grows item w
    have rest := ih (write item w)
    rw [length_cons]
    show _ ≤ ((write item w).each items write).bytes.length
    omega

/-- What a writer adds, from where it started. -/
theorem length_added {write : Writer → Writer} (extends_ : Extends write) (w : Writer) :
    w.bytes.length + (added Writer.bytes write w).length = (write w).bytes.length := by
  rw [extends_.eq_append w, length_append]

theorem writeUnits_extends : Extends (writeUnits s) :=
  each_extends fun unit _ => u16_extends unit.toNat

theorem writeUnits_grows (w : Writer) :
    w.bytes.length + s.length ≤ (writeUnits s w).bytes.length :=
  each_grows (fun (unit : UInt16) w => u16_grows unit.toNat w) s w

/-- The code units written are the code units read. -/
theorem writeUnits_reads :
    Reads (writeUnits s)
    ((List.range s.length).mapM fun _ => u16)
    (some (s.map UInt16.toNat)) := by
  apply Answers.each_range
  intro unit _
  have reads := u16_reads unit.toNat
  rwa [Nat.mod_eq_of_lt (UInt16.toNat_lt _)] at reads

theorem writeUnicodeStringValue_extends :
    Extends (writeUnicodeStringValue value) := by
  cases value with
  | none => exact Appends.refl
  | some s =>
    exact
      (((u32_extends s.length).andThen (u32_extends 0)).andThen
        (u32_extends s.length)).andThen (writeUnits_extends s)

/-- What reading a string comes to: nothing past the reader's limit, and the
trailing NULs taken off. -/
def stringAnswer (s : Text) : Option Text :=
  if maxArrayElements < s.length then none else some (trimTrailingNuls s)

/-- A string is read as its answer. -/
theorem writeUnicodeStringValue_reads :
    Reads (writeUnicodeStringValue (some s)) (readUnicodeStringValue true)
    ((stringAnswer s).map some) := by
  refine Answers.of_short (writeUnicodeStringValue_extends (some s)) fun w short => ?_
  have isWord : s.length < 2 ^ 32 := by
    have total := length_added (writeUnicodeStringValue_extends (some s)) w
    have units := writeUnits_grows s (((w.u32 s.length).u32 0).u32 s.length)
    have first := u32_grows s.length w
    have second := u32_grows 0 (w.u32 s.length)
    have third := u32_grows s.length ((w.u32 s.length).u32 0)
    change _ = (writeUnits s _).bytes.length at total
    simp only [maxNdrBytes] at short
    omega
  have reads :
      Reads (writeUnicodeStringValue (some s)) (readUnicodeStringValue true)
        ((if maxArrayElements < s.length then none else some s.length).bind
          fun _ =>
            (some (0 % 2 ^ 32)).bind fun _ =>
              (if maxArrayElements < s.length then
                none
              else
                some s.length).bind fun _ =>
                  (some (s.map UInt16.toNat)).bind fun units =>
                    some (some (trimTrailingNuls (units.map UInt16.ofNat)))) := by
    refine
      (arrayCount_reads "UTF-16 code unit(s)" isWord).bind
        (((u32_extends 0).andThen (u32_extends s.length)).andThen (writeUnits_extends s))
        fun maxCount isMax =>
          (u32_reads 0).bind
            ((u32_extends s.length).andThen (writeUnits_extends s))
            fun offset isOffset =>
              (arrayCount_reads "UTF-16 code unit(s)" isWord).bind
                (writeUnits_extends s) fun actualCount isActual => ?_
    split at isMax
    · cases isMax
    split at isActual
    · cases isActual
    cases isMax
    cases isOffset
    cases isActual
    rw [if_neg (by simp), if_neg (Nat.lt_irrefl _)]
    exact (writeUnits_reads s).bind_read fun units _ => Answers.pure _
  have sameUnits : (s.map UInt16.toNat).map UInt16.ofNat = s := by
    rw [map_map]
    exact map_id'' (fun unit => UInt16.ofNat_toNat) s
  rw [stringAnswer]
  by_cases tooLong : maxArrayElements < s.length
  · rw [if_pos tooLong] at reads ⊢
    exact reads
  · rw [if_neg tooLong] at reads ⊢
    simp only [Option.bind_some, sameUnits] at reads
    exact reads

theorem writeUnicodeStringHeader_extends :
    Extends (writeUnicodeStringHeader value) :=
  ((u16_extends _).andThen (u16_extends _)).andThen (pointer_extends value.isSome)

/-- The header a string has been read as. -/
def headerOf (value : Option Text) : UnicodeStringHeader :=
  let bytesLength := ((value.map List.length).getD 0) * 2 % 2 ^ 16
  {
    length := bytesLength
    maximumLength := bytesLength
    present := value.isSome
  }

/-- A string's header is read as its length up to its width and whether there
is a string. -/
theorem writeUnicodeStringHeader_reads :
    Reads (writeUnicodeStringHeader value) readUnicodeStringHeader (some (headerOf value)) := by
  let bytesLength := ((value.map List.length).getD 0) * 2
  have reads :
      Reads
        (fun w => ((w.u16 bytesLength).u16 bytesLength).pointer value.isSome)
        readUnicodeStringHeader
        (some (headerOf value)) :=
    (u16_reads bytesLength).andThen
      (fun w => (w.u16 bytesLength).pointer value.isSome)
      ((u16_reads bytesLength).andThen (Writer.pointer value.isSome)
        ((pointer_reads value.isSome).andRead (Answers.pure (headerOf value))))
  exact reads

/-! ## Type marshalling headers -/


end IyaSts.Krb5Ndr
