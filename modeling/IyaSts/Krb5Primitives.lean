import IyaSts.Json
import IyaSts.ByteBuffer

namespace IyaSts.Krb5Primitives

/-!
# The UTF-8 coder of the Kerberos codec

Text is the list of its UTF-16 code units, as `charCodeAt` and
`String.fromCharCode` see it.  The reader is strict: bytes that are not
well-formed UTF-8 are no text.
-/

open List

/-- The octets `utf8` pushes, one code unit or one surrogate pair at a time. -/
def utf8Octets : List Nat → List Nat
  | [] => []
  | [c] => unit c
  | c :: lo :: rest =>
    if 0xd800 ≤ c ∧ c ≤ 0xdbff then
      -- The offset of a unit that is no low surrogate may be negative.
      let cp := 0x10000 + ((c - 0xd800) <<< 10) + lo - 0xdc00
      [0xf0 ||| (cp >>> 18), 0x80 ||| ((cp >>> 12) &&& 0x3f),
        0x80 ||| ((cp >>> 6) &&& 0x3f), 0x80 ||| (cp &&& 0x3f)] ++ utf8Octets rest
    else
      unit c ++ utf8Octets (lo :: rest)
where
  /-- A code unit that is its own code point. -/
  unit (c : Nat) : List Nat :=
    if c < 0x80 then
      [c]
    else if c < 0x800 then
      [0xc0 ||| (c >>> 6), 0x80 ||| (c &&& 0x3f)]
    else
      [0xe0 ||| (c >>> 12), 0x80 ||| ((c >>> 6) &&& 0x3f), 0x80 ||| (c &&& 0x3f)]

/-- `utf8`. -/
def utf8 (text : List Nat) : Buffer := (utf8Octets text).map UInt8.ofNat

/--
What a first byte says: how many bytes follow it, the bits it carries and the
least code point of that length.
-/
def leadOf (c : Nat) : Option (Nat × Nat × Nat) :=
  if 0xc2 ≤ c ∧ c ≤ 0xdf then
    some (1, c &&& 0x1f, 0x80)
  else if 0xe0 ≤ c ∧ c ≤ 0xef then
    some (2, c &&& 0x0f, 0x800)
  else if 0xf0 ≤ c ∧ c ≤ 0xf4 then
    some (3, c &&& 0x07, 0x10000)
  else
    none

/-- The code point that continuation bytes complete. -/
def continuation : Nat → Buffer → Option Nat
  | cp, [] => some cp
  | cp, byte :: rest =>
    let cc := byte.toNat
    if cc &&& 0xc0 ≠ 0x80 then
      none
    else
      continuation ((cp <<< 6) ||| (cc &&& 0x3f)) rest

/-- The code units of a code point. -/
def fromCodePoint (cp : Nat) : List Nat :=
  if 0x10000 ≤ cp then
    [0xd800 + ((cp - 0x10000) >>> 10), 0xdc00 + ((cp - 0x10000) &&& 0x3ff)]
  else
    [cp]

/-- `fromUtf8`. -/
def fromUtf8 : Buffer → Option (List Nat)
  | [] => some []
  | byte :: rest =>
    let c := byte.toNat
    if c < 0x80 then
      (fromUtf8 rest).map (c :: ·)
    else
      match leadOf c with
      | none => none
      | some (need, bits, min) =>
        if rest.length < need then
          none
        else
          match continuation bits (rest.take need) with
          | none => none
          | some cp =>
            if cp < min ∨ 0x10ffff < cp ∨ (0xd800 ≤ cp ∧ cp ≤ 0xdfff)
            then
              none
            else
              (fromUtf8 (rest.drop need)).map (fromCodePoint cp ++ ·)
  termination_by bytes => bytes.length
  decreasing_by
    · exact Nat.lt_succ_self _
    · exact Nat.lt_succ_of_le (length_drop.trans_le (Nat.sub_le _ _))

/-! ## Octets by arithmetic -/

variable (cp : Nat) (text : String)

theorem shift_six : cp >>> 6 = cp / 64 := Nat.shiftRight_eq_div_pow cp 6

theorem shift_twelve : cp >>> 12 = cp / 4096 := Nat.shiftRight_eq_div_pow cp 12

theorem shift_eighteen : cp >>> 18 = cp / 262144 := Nat.shiftRight_eq_div_pow cp 18

theorem low_six : cp &&& 0x3f = cp % 64 := Nat.and_two_pow_sub_one_eq_mod cp 6

/-- A continuation byte is its mark and six bits. -/
theorem mark_continuation (bits : Nat) : 0x80 ||| bits % 64 = 128 + bits % 64 := by
  have everyLow : ∀ low < 64, 0x80 ||| low = 128 + low := by decide
  exact everyLow _ (Nat.mod_lt _ (by decide))

variable {bits : Nat}

theorem mark_two (fits : bits < 32) : 0xc0 ||| bits = 192 + bits := by
  have everyLow : ∀ low < 32, 0xc0 ||| low = 192 + low := by decide
  exact everyLow _ fits

theorem mark_three (fits : bits < 16) : 0xe0 ||| bits = 224 + bits := by
  have everyLow : ∀ low < 16, 0xe0 ||| low = 224 + low := by decide
  exact everyLow _ fits

theorem mark_four (fits : bits < 8) : 0xf0 ||| bits = 240 + bits := by
  have everyLow : ∀ low < 8, 0xf0 ||| low = 240 + low := by decide
  exact everyLow _ fits

/-- Reading a continuation byte appends its six bits. -/
theorem continuation_byte (cp bits : Nat) (rest : Buffer) :
    continuation cp (UInt8.ofNat (128 + bits % 64) :: rest) =
      continuation (cp * 64 + bits % 64) rest := by
  have isByte : (UInt8.ofNat (128 + bits % 64)).toNat = 128 + bits % 64 := by
    rw [UInt8.toNat_ofNat']
    omega
  have everyMark : ∀ low < 64, (128 + low) &&& 0xc0 = 0x80 := by decide
  have isMarked := everyMark _ (Nat.mod_lt bits (by decide))
  have joined : (cp <<< 6) ||| (bits % 64) = cp * 64 + bits % 64 := by
    rw [← Nat.shiftLeft_add_eq_or_of_lt (Nat.mod_lt bits (by decide)) cp, Nat.shiftLeft_eq]
  have low : (128 + bits % 64) % 64 = bits % 64 := by omega
  rw [continuation]
  simp only [isByte, isMarked, ne_eq, not_true, if_false, low_six, low, joined]

/-! ## Text is read back -/

/-- A first byte and its continuation bytes are read as one code point. -/
theorem fromUtf8_codePoint {lead need bits min cp : Nat}
    (isLead : leadOf lead = some (need, bits, min)) (leadBounds : 0x80 ≤ lead ∧ lead < 256)
    {followers : Buffer} (enough : followers.length = need)
    (completes : continuation bits followers = some cp)
    (isScalar : min ≤ cp ∧ cp ≤ 0x10ffff ∧ ¬(0xd800 ≤ cp ∧ cp ≤ 0xdfff)) (rest : Buffer) :
    fromUtf8 (UInt8.ofNat lead :: followers ++ rest) =
      (fromUtf8 rest).map (fromCodePoint cp ++ ·) := by
  subst enough
  have isByte : (UInt8.ofNat lead).toNat = lead := by
    rw [UInt8.toNat_ofNat']
    omega
  have notAscii : ¬lead < 0x80 := by omega
  have notShort : ¬(followers ++ rest).length < followers.length := by
    simp only [length_append]
    omega
  have notRefused : ¬(cp < min ∨ 0x10ffff < cp ∨ (0xd800 ≤ cp ∧ cp ≤ 0xdfff)) := by omega
  rw [cons_append, fromUtf8]
  simp only [isByte, notAscii, if_false, isLead, notShort,
    take_left, drop_left, completes, notRefused]

/-- A code unit outside the high surrogates is written by itself. -/
theorem utf8Octets_unit {c : Nat} (notHigh : ¬(0xd800 ≤ c ∧ c ≤ 0xdbff)) (rest : List Nat) :
    utf8Octets (c :: rest) = utf8Octets.unit c ++ utf8Octets rest := by
  cases rest with
  | nil => simp [utf8Octets]
  | cons lo rest => rw [utf8Octets, if_neg notHigh]

/-- A code point is written in the octets of its length, and read back. -/
theorem fromUtf8_utf8_codePoint {cp : Nat} (isScalar : cp ≤ 0x10ffff ∧ ¬(0xd800 ≤ cp ∧ cp ≤ 0xdfff))
    (rest : List Nat) :
    fromUtf8 (utf8 (fromCodePoint cp ++ rest)) =
      (fromUtf8 (utf8 rest)).map (fromCodePoint cp ++ ·) := by
  unfold utf8
  by_cases oneUnit : cp < 0x10000
  · have isUnit : fromCodePoint cp = [cp] := by
      rw [fromCodePoint, if_neg (by omega)]
    have units : utf8Octets (fromCodePoint cp ++ rest) = utf8Octets.unit cp ++ utf8Octets rest := by
      rw [isUnit]
      exact utf8Octets_unit (by omega) rest
    rw [units, map_append]
    by_cases oneOctet : cp < 0x80
    · have isByte : (UInt8.ofNat cp).toNat = cp := by
        rw [UInt8.toNat_ofNat']
        omega
      simp only [utf8Octets.unit, oneOctet, if_true, map_cons,
        map_nil, cons_append, nil_append]
      rw [fromUtf8]
      simp only [isByte, oneOctet, if_true, isUnit, cons_append, nil_append]
    · by_cases twoOctets : cp < 0x800
      · have octets : utf8Octets.unit cp = [192 + cp / 64, 128 + cp % 64] := by
          rw [utf8Octets.unit, if_neg oneOctet, if_pos twoOctets, shift_six,
            low_six, mark_two (by omega), mark_continuation]
        have isLead : leadOf (192 + cp / 64) = some (1, cp / 64, 0x80) := by
          have low : (192 + cp / 64) &&& 0x1f = cp / 64 := by
            rw [show 0x1f = 2 ^ 5 - 1 from rfl, Nat.and_two_pow_sub_one_eq_mod]
            omega
          rw [leadOf, if_pos (by omega), low]
        have completes : continuation (cp / 64) [UInt8.ofNat (128 + cp % 64)] = some cp := by
          rw [continuation_byte, continuation]
          exact congrArg some (by omega)
        rw [octets]
        exact fromUtf8_codePoint isLead (by omega) rfl completes (by omega) _
      · have octets :
            utf8Octets.unit cp = [224 + cp / 4096, 128 + cp / 64 % 64, 128 + cp % 64] := by
          rw [utf8Octets.unit, if_neg oneOctet, if_neg twoOctets, shift_six, shift_twelve, low_six,
            low_six, mark_three (by omega), mark_continuation, mark_continuation]
        have isLead : leadOf (224 + cp / 4096) = some (2, cp / 4096, 0x800) := by
          have low : (224 + cp / 4096) &&& 0x0f = cp / 4096 := by
            rw [show 0x0f = 2 ^ 4 - 1 from rfl, Nat.and_two_pow_sub_one_eq_mod]
            omega
          rw [leadOf, if_neg (by omega), if_pos (by omega), low]
        have completes :
            continuation (cp / 4096)
                [UInt8.ofNat (128 + cp / 64 % 64), UInt8.ofNat (128 + cp % 64)] = some cp := by
          rw [continuation_byte, continuation_byte, continuation]
          exact congrArg some (by omega)
        rw [octets]
        exact fromUtf8_codePoint isLead (by omega) rfl completes (by omega) _
  · have high : ((cp - 0x10000) >>> 10) = (cp - 0x10000) / 1024 := Nat.shiftRight_eq_div_pow _ 10
    have low : ((cp - 0x10000) &&& 0x3ff) = (cp - 0x10000) % 1024 :=
      Nat.and_two_pow_sub_one_eq_mod _ 10
    have pair :
        fromCodePoint cp = [0xd800 + (cp - 0x10000) / 1024, 0xdc00 + (cp - 0x10000) % 1024] := by
      rw [fromCodePoint, if_pos (by omega), high, low]
    have joined :
        0x10000 + ((0xd800 + (cp - 0x10000) / 1024 - 0xd800) <<< 10) +
            (0xdc00 + (cp - 0x10000) % 1024) - 0xdc00 = cp := by
      rw [Nat.shiftLeft_eq]
      omega
    have octets :
        utf8Octets (fromCodePoint cp ++ rest) =
          [240 + cp / 262144, 128 + cp / 4096 % 64, 128 + cp / 64 % 64,
            128 + cp % 64] ++ utf8Octets rest := by
      rw [pair, cons_append, cons_append, nil_append, utf8Octets, if_pos (by omega)]
      simp only [joined]
      rw [shift_six, shift_twelve, shift_eighteen, low_six, low_six, low_six, mark_four (by omega),
        mark_continuation, mark_continuation, mark_continuation]
    have isLead : leadOf (240 + cp / 262144) = some (3, cp / 262144, 0x10000) := by
      have low : (240 + cp / 262144) &&& 0x07 = cp / 262144 := by
        rw [show 0x07 = 2 ^ 3 - 1 from rfl, Nat.and_two_pow_sub_one_eq_mod]
        omega
      rw [leadOf, if_neg (by omega), if_neg (by omega), if_pos (by omega), low]
    have completes :
        continuation (cp / 262144)
            [UInt8.ofNat (128 + cp / 4096 % 64),
              UInt8.ofNat (128 + cp / 64 % 64),
              UInt8.ofNat (128 + cp % 64)] = some cp := by
      rw [continuation_byte, continuation_byte, continuation_byte, continuation]
      exact congrArg some (by omega)
    rw [octets, map_append]
    exact fromUtf8_codePoint isLead (by omega) rfl completes (by omega) _

/-- The code units of a string, one code point after the other. -/
theorem codeUnits_eq :
    Json.codeUnits text = text.toList.flatMap fun char => fromCodePoint char.toNat := by
  unfold Json.codeUnits
  congr 1
  funext char
  have high : ((char.toNat - 0x10000) >>> 10) =
      (char.toNat - 0x10000) / 0x400 :=
    Nat.shiftRight_eq_div_pow _ 10
  have low : ((char.toNat - 0x10000) &&& 0x3ff) =
      (char.toNat - 0x10000) % 0x400 :=
    Nat.and_two_pow_sub_one_eq_mod _ 10
  rw [fromCodePoint, high, low]
  by_cases oneUnit : char.toNat < 0x10000
  · rw [if_pos oneUnit, if_neg (by omega)]
  · rw [if_neg oneUnit, if_pos (by omega)]

/-- A character is a code point outside the surrogates. -/
theorem char_isScalar (char : Char) :
    char.toNat ≤ 0x10ffff ∧ ¬(0xd800 ≤ char.toNat ∧ char.toNat ≤ 0xdfff) := by
  have valid : char.toNat.isValidChar := char.valid
  unfold Nat.isValidChar at valid
  omega

/-- Text written in UTF-8 is read back. -/
theorem fromUtf8_utf8 :
    fromUtf8 (utf8 (Json.codeUnits text)) = some (Json.codeUnits text) := by
  rw [codeUnits_eq]
  induction text.toList with
  | nil => simp [utf8, utf8Octets, fromUtf8]
  | cons char rest ih =>
    rw [flatMap_cons, fromUtf8_utf8_codePoint (char_isScalar char), ih]
    rfl

end IyaSts.Krb5Primitives
