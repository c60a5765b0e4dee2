import IyaSts.ByteBuffer
import Mathlib.Tactic.Linarith

namespace IyaSts.TwosComplement

/-!
# Two's complement numbers in bytes

The bytes of a number, the most significant first, whose highest bit counts
for its negative.  Every width holds a range about zero; a number is in the
range of some width and of every greater one, and the least such width is the
least number of bytes that read as it.
-/

open Buffer

/-- The number that bytes spell. -/
def value : Buffer → Int
  | [] => 0
  | first :: rest =>
    bigEndianValue (first :: rest) -
      if 128 ≤ first.toNat then (256 : Int) ^ (rest.length + 1) else 0

/-- Half the range of so many bytes. -/
def half (width : Nat) : Int := 128 * 256 ^ (width - 1)

/-- A number that so many bytes can spell. -/
def Fits (width : Nat) (number : Int) : Prop := -half width ≤ number ∧ number < half width

/-- The bytes of a number. -/
def content (width : Nat) (number : Int) : Buffer := bigEndian width (number % 256 ^ width).toNat

@[simp] theorem length_content (width : Nat) (number : Int) :
    (content width number).length = width :=
  length_bigEndian _ _

theorem half_succ (width : Nat) : (256 : Int) ^ (width + 1) = 2 * half (width + 1) := by
  rw [half, Nat.add_sub_cancel, pow_succ]
  ring

theorem half_mono (width wider : Nat) (isWider : width ≤ wider) : half width ≤ half wider := by
  unfold half
  have powers : (256 : Int) ^ (width - 1) ≤ 256 ^ (wider - 1) :=
    pow_le_pow_right₀ (by decide) (by omega)
  omega


variable {bytes : Buffer} {width : Nat} {number : Int}

/-- Bytes spell a number of their width. -/
theorem value_fits (isSome : bytes ≠ []) : Fits bytes.length (value bytes) := by
  cases bytes with
  | nil => exact absurd rfl isSome
  | cons first rest =>
    have below := bigEndianValue_lt rest
    have belowInt : (bigEndianValue rest : Int) < 256 ^ rest.length := by exact_mod_cast below
    have wraps := half_succ rest.length
    have isHalf : half (rest.length + 1) = 128 * 256 ^ rest.length := rfl
    have firstFits := first.toNat_lt
    simp only [value, bigEndianValue, List.length_cons, Fits, wraps, isHalf]
    push_cast
    set power : Int := 256 ^ rest.length
    split
    · constructor <;> nlinarith
    · constructor <;> nlinarith

/-- The bytes of a number that fits spell it. -/
theorem value_content (isSome : 0 < width) (fits : Fits width number) :
    value (content width number) = number := by
  obtain ⟨below, rfl⟩ : ∃ below, width = below + 1 := ⟨width - 1, by omega⟩
  have wraps := half_succ below
  have isHalf : half (below + 1) = 128 * 256 ^ below := rfl
  have positive : (0 : Int) < 256 ^ below := pow_pos (by decide) _
  have residue :
      ((number % 256 ^ (below + 1)).toNat : Int) =
        if number < 0 then number + 256 ^ (below + 1) else number := by
    rw [Int.toNat_of_nonneg (Int.emod_nonneg _ (by omega))]
    obtain ⟨notBelow, notAbove⟩ := fits
    split
    · rw [← Int.add_emod_right, Int.emod_eq_of_lt (by omega) (by omega)]
    · rw [Int.emod_eq_of_lt (by omega) (by omega)]
  obtain ⟨notBelow, notAbove⟩ := fits
  have inRange : (number % 256 ^ (below + 1)).toNat < 256 ^ (below + 1) := by
    have : ((number % 256 ^ (below + 1)).toNat : Int) < 256 ^ (below + 1) := by
      rw [residue]
      split <;> omega
    exact_mod_cast this
  have spelled :
      bigEndianValue (content (below + 1) number) = (number % 256 ^ (below + 1)).toNat := by
    rw [content, bigEndianValue_bigEndian, Nat.mod_eq_of_lt inRange]
  have isSigned : 128 ≤ ((number % 256 ^ (below + 1)).toNat / 256 ^ below) ↔ number < 0 := by
    rw [Nat.le_div_iff_mul_le (Nat.pow_pos (by decide))]
    have cast :
        128 * 256 ^ below ≤ (number % 256 ^ (below + 1)).toNat ↔
          (128 : Int) * 256 ^ below ≤ (number % 256 ^ (below + 1)).toNat := by
      exact_mod_cast Iff.rfl
    rw [cast, residue]
    split <;> constructor <;> intro <;> omega
  have firstFits : (number % 256 ^ (below + 1)).toNat / 256 ^ below < 256 := by
    rw [Nat.div_lt_iff_lt_mul (Nat.pow_pos (by decide)), Nat.mul_comm, ← Nat.pow_succ]
    exact inRange
  have shape :
      content (below + 1) number =
        UInt8.ofNat ((number % 256 ^ (below + 1)).toNat / 256 ^ below) ::
          bigEndian below (number % 256 ^ (below + 1)).toNat :=
    rfl
  rw [shape] at spelled ⊢
  rw [value, spelled, residue, UInt8.toNat_ofNat', Nat.mod_eq_of_lt firstFits, length_bigEndian]
  simp only [isSigned]
  split <;> omega

/-- The number that bytes spell has them for its own. -/
theorem content_value (bytes : Buffer) : content bytes.length (value bytes) = bytes := by
  cases bytes with
  | nil => rfl
  | cons first rest =>
    have below := bigEndianValue_lt (first :: rest)
    have residue :
        value (first :: rest) % 256 ^ (first :: rest).length = bigEndianValue (first :: rest) := by
      have belowInt : (bigEndianValue (first :: rest) : Int) < 256 ^ (first :: rest).length := by
        exact_mod_cast below
      rw [value, List.length_cons] at *
      split
      · rw [Int.sub_emod_right, Int.emod_eq_of_lt (by omega) belowInt]
      · rw [Int.sub_zero, Int.emod_eq_of_lt (by omega) belowInt]
    rw [content, residue, Int.toNat_natCast, bigEndian_bigEndianValue]

/-- No fewer bytes spell a number than the least width it fits in. -/
theorem least_width (isLeast : ∀ fewer, 0 < fewer → fewer < width → ¬Fits fewer number)
    (isSome : bytes ≠ []) (spells : value bytes = number) :
    width ≤ bytes.length := by
  by_contra isShorter
  have fits := value_fits isSome
  rw [spells] at fits
  exact isLeast bytes.length (List.length_pos_iff.mpr isSome) (by omega) fits

end IyaSts.TwosComplement
