import IyaSts.Fallible
import IyaSts.VcStatusCbor

namespace IyaSts.VcStatusCodec

open JsNumber Fallible

/-!
# The heads of CBOR items

What the encoder writes for a head and what the decoder reads as one, from any
position of a buffer.
-/

open List

/-! ## Standing at a position of a buffer -/

/-- A position of a buffer and the bytes from there on. -/
structure At (buf : Buffer) (pos : Nat) (rest : Buffer) : Prop where
  inside : pos ≤ buf.length
  drop : buf.drop pos = rest

namespace At

variable {buf rest : Buffer} {pos : Nat}

theorem length_eq (standing : At buf pos rest) : buf.length = pos + rest.length := by
  have dropped := congrArg List.length standing.drop
  rw [length_drop] at dropped
  have := standing.inside
  omega

variable {front : Buffer}

/-- Past some bytes stand the bytes that follow them. -/
theorem advance (standing : At buf pos (front ++ rest)) : At buf (pos + front.length) rest where
  inside := by
    have := standing.length_eq
    rw [length_append] at this
    omega
  drop := by rw [← drop_drop, standing.drop, drop_left]

/-- Past one byte stand the bytes that follow it. -/
theorem advance_one {first : UInt8} (standing : At buf pos (first :: rest)) :
    At buf (pos + 1) rest :=
  advance (show At buf pos ([first] ++ rest) from standing)

theorem need_eq (standing : At buf pos rest) {n : Nat} (enough : n ≤ rest.length) :
    need buf pos n = .ok () := by
  have := standing.length_eq
  unfold need
  rw [if_neg (by omega)]
  rfl

theorem need_front (standing : At buf pos (front ++ rest)) :
    need buf pos front.length = .ok () := by
  apply standing.need_eq
  rw [length_append]
  omega

theorem take (standing : At buf pos (front ++ rest)) :
    (buf.drop pos).take front.length = front := by
  rw [standing.drop, take_left]

theorem readUInt_eq (standing : At buf pos (front ++ rest)) :
    readUInt buf pos front.length = Buffer.bigEndianValue front := by
  rw [readUInt, standing.take]

/-- A position not past the end stands somewhere. -/
theorem of_le (inside : pos ≤ buf.length) : At buf pos (buf.drop pos) := ⟨inside, rfl⟩

/-- One position stands before one rest. -/
theorem unique {rest' : Buffer} (standing : At buf pos rest) (standing' : At buf pos rest') :
    rest = rest' :=
  standing.drop.symm.trans standing'.drop

end At

theorem need_ok_iff (buf : Buffer) (pos n : Nat) :
    need buf pos n = .ok () ↔ pos + n ≤ buf.length := by
  unfold need
  split
  · simp only [reduceCtorEq, false_iff, throw, throwThe, MonadExceptOf.throw]
    omega
  · simp only [pure, Except.pure, true_iff]
    omega

theorem mapM_cons_ok {α β : Type} {make : α → Except String β}
    {first : α} {others : List α} {made : β} {madeOthers : List β} (makes : make first = .ok made)
    (makesOthers : others.mapM make = .ok madeOthers) :
    (first :: others).mapM make = .ok (made :: madeOthers) := by
  rw [mapM_cons, makes, makesOthers]
  rfl

/-! ## Heads -/

/-- How many bytes of argument follow a first byte. -/
def argumentWidth (info : Nat) : Nat :=
  if info = 24 then
    1
  else if info = 25 then
    2
  else if info = 26 then
    4
  else if info = 27 then
    8
  else
    0

/-- How the shortest head of a value announces its argument. -/
def infoOf (value : Nat) : Nat :=
  if value < 24 then
    value
  else if value < 0x100 then
    24
  else if value < 0x10000 then
    25
  else if value < 0x100000000 then
    26
  else
    27

variable {value major : Nat} {h : Head}

/-- The shortest head is a first byte and the argument's bytes. -/
theorem cborHead_eq (major : Nat) (fits : value < 2 ^ 64) :
    cborHead major value =
      .ok (UInt8.ofNat (major <<< 5 ||| infoOf value) ::
        Buffer.bigEndian (argumentWidth (infoOf value)) value) := by
  unfold cborHead infoOf
  split_ifs with h₁ h₂ h₃ h₄
  · have width : argumentWidth value = 0 := by
      unfold argumentWidth
      split_ifs <;> omega
    rw [width]
    rfl
  · simp [argumentWidth, Buffer.bigEndian]
  · rfl
  · rfl
  · rfl

theorem infoOf_le (value : Nat) : infoOf value ≤ 27 := by
  unfold infoOf
  split_ifs <;> omega

/-- The bytes of a shortest head's argument spell it. -/
theorem bigEndianValue_argument (fits : value < 2 ^ 64) (notSmall : ¬ infoOf value < 24) :
    Buffer.bigEndianValue
        (Buffer.bigEndian (argumentWidth (infoOf value)) value) =
      value := by
  rw [Buffer.bigEndianValue_bigEndian]
  apply Nat.mod_eq_of_lt
  unfold infoOf argumentWidth at *
  split_ifs at * <;> omega

theorem infoOf_of_lt (small : infoOf value < 24) : infoOf value = value := by
  unfold infoOf at *
  split_ifs at * <;> omega

/-- The first byte of a head tells its major type and what is announced. -/
theorem firstByte {major info : Nat} (isMajor : major < 8) (isInfo : info < 32) :
    (UInt8.ofNat (major <<< 5 ||| info)).toNat >>> 5 = major ∧
      (UInt8.ofNat (major <<< 5 ||| info)).toNat &&& 31 = info := by
  have shape : major <<< 5 ||| info = major * 32 + info := by
    rw [← Nat.shiftLeft_add_eq_or_of_lt (by omega), Nat.shiftLeft_eq]
  have isByte : (UInt8.ofNat (major * 32 + info)).toNat = major * 32 + info := by
    rw [UInt8.toNat_ofNat']
    omega
  have mask : (31 : Nat) = 2 ^ 5 - 1 := rfl
  rw [shape, isByte, Nat.shiftRight_eq_div_pow, mask, Nat.and_two_pow_sub_one_eq_mod]
  omega

theorem readUInt_lt (buf : Buffer) (pos width : Nat) : readUInt buf pos width < 256 ^ width :=
  lt_of_lt_of_le (Buffer.bigEndianValue_lt _)
    (Nat.pow_le_pow_right (by decide) (length_take_le _ _))

/-- A read that needs its bytes and answers a head. -/
theorem need_bind_eq_ok_iff (buf : Buffer) (pos width : Nat) (made : Head) (h : Head) (next : Nat) :
    (need buf pos width >>= fun _ => pure (made, pos + width)) =
        Except.ok (h, next) ↔
      pos + width ≤ buf.length ∧ next = pos + width ∧ h = made := by
  rw [bind_eq_ok_iff]
  simp only [Unique.exists_iff, PUnit.default_eq_unit, need_ok_iff, pure,
    Except.pure, Except.ok.injEq, Prod.mk.injEq]
  constructor
  · rintro ⟨enough, rfl, rfl⟩
    exact ⟨enough, rfl, rfl⟩
  · rintro ⟨enough, rfl, rfl⟩
    exact ⟨enough, rfl, rfl⟩

/-- What a first byte announces is read where the bytes are there. -/
theorem headArgument_eq_ok_iff {buf : Buffer} {pos major info : Nat} (inside : pos ≤ buf.length)
    (notDouble : ¬ (major = 7 ∧ info = 27)) (h : Head) (next : Nat) :
    headArgument buf pos major info = .ok (h, next) ↔
      info ≤ 27 ∧
        h.arg ≤ maxSafeInteger ∧
          pos + argumentWidth info ≤ buf.length ∧
            next = pos + argumentWidth info ∧
              h = ⟨major, info,
                if info < 24 then
                  info
                else
                  readUInt buf pos (argumentWidth info)⟩ := by
  have small (width : Nat) (narrow : width ≤ 4) : readUInt buf pos width ≤ maxSafeInteger := by
    have bound := readUInt_lt buf pos width
    have power : 256 ^ width ≤ 256 ^ 4 := Nat.pow_le_pow_right (by decide) narrow
    simp only [maxSafeInteger]
    omega
  have announced (width : Nat) (isWidth : argumentWidth info = width)
      (isAnnounced : ¬ info < 24) (inRange : info ≤ 27)
      (safe : readUInt buf pos width ≤ maxSafeInteger) :
      (need buf pos width >>= fun _ =>
          pure (⟨major, info, readUInt buf pos width⟩, pos + width)) =
          Except.ok (h, next) ↔
        info ≤ 27 ∧
          h.arg ≤ maxSafeInteger ∧
            pos + argumentWidth info ≤ buf.length ∧
              next = pos + argumentWidth info ∧
                h = ⟨major, info,
                  if info < 24 then
                    info
                  else
                    readUInt buf pos (argumentWidth info)⟩ := by
    rw [need_bind_eq_ok_iff, isWidth, if_neg isAnnounced]
    constructor
    · rintro ⟨enough, isNext, rfl⟩
      exact ⟨inRange, safe, enough, isNext, rfl⟩
    · rintro ⟨_, _, enough, isNext, isHead⟩
      exact ⟨enough, isNext, isHead⟩
  unfold headArgument
  by_cases is24 : info = 24
  · rw [if_pos is24]
    exact announced 1 (by simp [argumentWidth, is24]) (by omega) (by omega) (small 1 (by decide))
  rw [if_neg is24]
  by_cases is25 : info = 25
  · rw [if_pos is25]
    exact announced 2 (by simp [argumentWidth, is25]) (by omega) (by omega) (small 2 (by decide))
  rw [if_neg is25]
  by_cases is26 : info = 26
  · rw [if_pos is26]
    exact announced 4 (by simp [argumentWidth, is26]) (by omega) (by omega) (small 4 (by decide))
  rw [if_neg is26]
  by_cases is27 : info = 27
  · rw [if_pos is27]
    have notSimple : ¬ major = 7 := fun is7 => notDouble ⟨is7, is27⟩
    have width : argumentWidth info = 8 := by simp [argumentWidth, is27]
    by_cases large : readUInt buf pos 8 > maxSafeInteger
    · simp only [notSimple, ne_eq, not_false_eq_true, large, and_self, if_true]
      constructor
      · intro refused
        rw [bind_eq_ok_iff] at refused
        obtain ⟨_, _, thrown⟩ := refused
        cases thrown
      · rintro ⟨_, safe, _, _, isHead⟩
        rw [isHead, if_neg (by omega), width] at safe
        exact absurd safe (Nat.not_le_of_gt large)
    · simp only [notSimple, ne_eq, not_false_eq_true, large, and_false, if_false]
      exact announced 8 width (by omega) (by omega) (by omega)
  rw [if_neg is27]
  by_cases reserved : info > 27
  · rw [if_pos reserved]
    constructor
    · intro refused
      cases refused
    · intro inRange
      omega
  rw [if_neg reserved]
  have width : argumentWidth info = 0 := by simp [argumentWidth, is24, is25, is26, is27]
  have immediate : info < 24 := by omega
  simp only [pure, Except.pure, Except.ok.injEq, Prod.mk.injEq, width,
    immediate, if_true, Nat.add_zero]
  constructor
  · rintro ⟨rfl, rfl⟩
    refine ⟨by omega, ?_, inside, rfl, rfl⟩
    simp only [maxSafeInteger]
    omega
  · rintro ⟨_, _, _, rfl, rfl⟩
    exact ⟨rfl, rfl⟩

/-- A head is its first byte and what that announces. -/
theorem head_eq {buf rest : Buffer} {pos : Nat} {first : UInt8}
    (standing : At buf pos (first :: rest)) :
    head buf pos = headArgument buf (pos + 1) (first.toNat >>> 5) (first.toNat &&& 31) := by
  have readFirst : readUInt buf pos 1 = first.toNat := by
    have read := At.readUInt_eq (show At buf pos ([first] ++ rest) from standing)
    simpa [Buffer.bigEndianValue] using read
  rw [head, standing.need_eq (by simp), readFirst]
  rfl

/-- A head that is read stands at a first byte. -/
theorem exists_first {buf : Buffer} {pos : Nat} {result : Head × Nat}
    (reads : head buf pos = .ok result) :
    ∃ first rest, At buf pos (first :: rest) := by
  rw [head, bind_eq_ok_iff] at reads
  obtain ⟨_, needed, _⟩ := reads
  have inside : pos + 1 ≤ buf.length := (need_ok_iff buf pos 1).mp needed
  have standing : At buf pos (buf.drop pos) := At.of_le (by omega)
  cases shape : buf.drop pos with
  | nil =>
    have := congrArg List.length shape
    simp only [length_drop, length_nil] at this
    omega
  | cons first rest =>
    rw [shape] at standing
    exact ⟨first, rest, standing⟩

/-- The encoder writes no argument of more than eight bytes. -/
theorem cborHead_fits {written : Buffer} (wrote : cborHead major value = .ok written) :
    value < 2 ^ 64 := by
  by_contra tooLarge
  unfold cborHead at wrote
  rw [if_neg (by omega), if_neg (by omega), if_neg (by omega),
    if_neg (by omega), if_neg tooLarge] at wrote
  cases wrote

/-- The decoder reads, where it accepts it, the head the encoder wrote. -/
theorem head_written_iff {buf rest written : Buffer} {pos major value : Nat} (notSimple : major < 7)
    (wrote : cborHead major value = .ok written)
    (standing : At buf pos (written ++ rest)) (h : Head) (next : Nat) :
    head buf pos = .ok (h, next) ↔
      value ≤ maxSafeInteger ∧ h = ⟨major, infoOf value, value⟩ ∧ next = pos + written.length := by
  have fits := cborHead_fits wrote
  rw [cborHead_eq major fits, Except.ok.injEq] at wrote
  subst wrote
  have inRange := infoOf_le value
  obtain ⟨isMajor, isInfo⟩ := firstByte (show major < 8 by omega) (show infoOf value < 32 by omega)
  rw [cons_append] at standing
  have argumentAt :
      At buf (pos + 1) (Buffer.bigEndian (argumentWidth (infoOf value)) value ++ rest) :=
    standing.advance_one
  have lengths := argumentAt.length_eq
  rw [length_append, Buffer.length_bigEndian] at lengths
  have isArgument :
      (if infoOf value < 24 then
        infoOf value
      else
        readUInt buf (pos + 1) (argumentWidth (infoOf value))) =
        value := by
    split_ifs with small
    · exact infoOf_of_lt small
    · have read := argumentAt.readUInt_eq
      rw [Buffer.length_bigEndian] at read
      rw [read, bigEndianValue_argument fits small]
  rw [head_eq standing, isMajor, isInfo, headArgument_eq_ok_iff (by omega) (by omega), isArgument,
    length_cons, Buffer.length_bigEndian]
  constructor
  · rintro ⟨_, safe, _, isNext, rfl⟩
    exact ⟨safe, rfl, by omega⟩
  · rintro ⟨safe, rfl, isNext⟩
    exact ⟨inRange, safe, by omega, by omega, rfl⟩

/-- The decoder reads the head the encoder wrote. -/
theorem head_cborHead {buf rest written : Buffer} {pos major value : Nat} (notSimple : major < 7)
    (safe : value ≤ maxSafeInteger) (wrote : cborHead major value = .ok written)
    (standing : At buf pos (written ++ rest)) :
    head buf pos = .ok (⟨major, infoOf value, value⟩, pos + written.length) :=
  (head_written_iff notSimple wrote standing _ _).mpr ⟨safe, rfl, rfl⟩

/-- The head of a double announces one. -/
theorem isFloat_of_double {buf : Buffer} {pos next : Nat}
    (reads : headArgument buf pos 7 27 = .ok (h, next)) :
    h.IsFloat := by
  simp only [headArgument, Nat.reduceEqDiff, if_false, if_true,
    not_true, ne_eq, false_and, bind_eq_ok_iff] at reads
  obtain ⟨_, _, answered⟩ := reads
  simp only [pure, Except.pure, Except.ok.injEq, Prod.mk.injEq] at answered
  rw [← answered.1]
  exact ⟨rfl, by decide⟩

/-- An argument in shortest form is announced as the encoder would. -/
theorem infoOf_eq {buf : Buffer} {pos major info : Nat} (inRange : info ≤ 27)
    (shortest :
      Head.Shortest ⟨major, info,
        if info < 24 then
          info
        else
          readUInt buf pos (argumentWidth info)⟩) :
    infoOf (if info < 24 then info
      else readUInt buf pos (argumentWidth info)) = info := by
  obtain ⟨for24, for25, for26, for27⟩ := shortest
  simp only at for24 for25 for26 for27
  by_cases small : info < 24
  · simp [infoOf, small]
  · rw [if_neg small] at for24 for25 for26 for27 ⊢
    have bound := readUInt_lt buf pos (argumentWidth info)
    have announced : info = 24 ∨ info = 25 ∨ info = 26 ∨ info = 27 := by omega
    rcases announced with rfl | rfl | rfl | rfl
    · simp only [argumentWidth, if_true, true_implies] at for24 bound ⊢
      unfold infoOf
      rw [if_neg (by omega), if_pos (by omega)]
    · simp only [argumentWidth, if_true, true_implies, Nat.reduceEqDiff, if_false] at for25 bound ⊢
      unfold infoOf
      rw [if_neg (by omega), if_neg (by omega), if_pos (by omega)]
    · simp only [argumentWidth, if_true, true_implies, Nat.reduceEqDiff, if_false] at for26 bound ⊢
      unfold infoOf
      rw [if_neg (by omega), if_neg (by omega), if_neg (by omega), if_pos (by omega)]
    · simp only [argumentWidth, if_true, true_implies, Nat.reduceEqDiff, if_false] at for27 bound ⊢
      unfold infoOf
      rw [if_neg (by omega), if_neg (by omega), if_neg (by omega), if_neg (by omega)]

/-- A head in shortest form is the head the encoder writes. -/
theorem head_shortest {buf : Buffer} {pos next : Nat} (reads : head buf pos = .ok (h, next))
    (shortest : h.Shortest) (notFloat : ¬ h.IsFloat) :
    h.major < 8 ∧
      h.arg ≤ maxSafeInteger ∧
        infoOf h.arg = h.info ∧
          ∃ written,
            cborHead h.major h.arg = .ok written ∧
              next = pos + written.length ∧ At buf pos (written ++ buf.drop next) := by
  obtain ⟨first, rest, standing⟩ := exists_first reads
  rw [head_eq standing] at reads
  have isByte : first.toNat < 256 := first.toNat_lt
  have mask : (31 : Nat) = 2 ^ 5 - 1 := rfl
  have majorIs : first.toNat >>> 5 = first.toNat / 32 := by rw [Nat.shiftRight_eq_div_pow]
  have infoIs : first.toNat &&& 31 = first.toNat % 32 := by
    rw [mask, Nat.and_two_pow_sub_one_eq_mod]
  have notDouble : ¬ (first.toNat >>> 5 = 7 ∧ first.toNat &&& 31 = 27) := by
    rintro ⟨is7, is27⟩
    rw [is7, is27] at reads
    exact notFloat (isFloat_of_double reads)
  have restAt : At buf (pos + 1) rest := standing.advance_one
  rw [headArgument_eq_ok_iff restAt.inside notDouble] at reads
  obtain ⟨inRange, safe, enough, isNext, rfl⟩ := reads
  have isInfo := infoOf_eq inRange shortest
  refine ⟨by simp only [majorIs]; omega, safe, isInfo, ?_⟩
  have fits : ∀ arg, arg ≤ maxSafeInteger → arg < 2 ^ 64 := by
    intro arg
    simp only [maxSafeInteger]
    omega
  have width : argumentWidth (first.toNat &&& 31) ≤ rest.length := by
    have := restAt.length_eq
    omega
  -- The bytes of the argument are those the encoder writes.
  have argumentBytes :
      Buffer.bigEndian (argumentWidth (first.toNat &&& 31))
          (if first.toNat &&& 31 < 24 then
            first.toNat &&& 31
          else
            readUInt buf (pos + 1) (argumentWidth (first.toNat &&& 31))) =
        rest.take (argumentWidth (first.toNat &&& 31)) := by
    split_ifs with small
    · have none : argumentWidth (first.toNat &&& 31) = 0 := by
        unfold argumentWidth
        split_ifs <;> omega
      simp [none, Buffer.bigEndian]
    · have taken := Buffer.bigEndian_bigEndianValue (rest.take (argumentWidth (first.toNat &&& 31)))
      rw [length_take, Nat.min_eq_left width] at taken
      rw [readUInt, restAt.drop, taken]
  have firstByteIs :
      UInt8.ofNat ((first.toNat >>> 5) <<< 5 ||| (first.toNat &&& 31)) =
        first := by
    rw [← Nat.shiftLeft_add_eq_or_of_lt (by omega), Nat.shiftLeft_eq]
    apply UInt8.toNat_inj.mp
    rw [UInt8.toNat_ofNat']
    omega
  refine ⟨first :: rest.take (argumentWidth (first.toNat &&& 31)), ?_, ?_, ?_⟩
  · rw [cborHead_eq _ (fits _ safe)]
    simp only [isInfo, firstByteIs, argumentBytes]
  · rw [isNext, length_cons, length_take, Nat.min_eq_left width]
    omega
  · refine ⟨standing.inside, ?_⟩
    rw [isNext, ← drop_drop, restAt.drop, standing.drop,
      cons_append, take_append_drop]

end IyaSts.VcStatusCodec
