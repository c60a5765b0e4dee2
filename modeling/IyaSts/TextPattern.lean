import Mathlib.Data.List.Basic

namespace IyaSts.TextPattern

/-!
# Patterns of literals, gaps and anchors

The regular expressions without flags that are made of characters, some of
them escaped, of `.*`, and of the anchors `^` and `$`.  A dot is any character
but a line break, and a test finds a match that begins anywhere.
-/

open List

/-- A part of a pattern. -/
inductive Part where
  | start
  | stop
  | gap
  | literal (char : Char)
  deriving DecidableEq

/-- The characters that mean something else than themselves. -/
def specials : List Char := ['.', '*', '+', '?', '^', '$', '{', '}', '(', ')', '|', '[', ']', '\\']

/-- `text.replace(/[.*+?^${}()|[\]\\]/g, '\\$&')`. -/
def escaped : List Char → List Char
  | [] => []
  | char :: rest => if char ∈ specials then '\\' :: char :: escaped rest else char :: escaped rest

/-- The parts that a source spells; none for any other syntax. -/
def parse : List Char → Option (List Part)
  | [] => some []
  | char :: rest =>
    if char = '^' then
      (parse rest).map (.start :: ·)
    else if char = '$' then
      (parse rest).map (.stop :: ·)
    else if char = '.' then
      match rest with
      | '*' :: rest => (parse rest).map (.gap :: ·)
      | _ => none
    else if char = '\\' then
      match rest with
      | escaped :: rest =>
        if escaped ∈ specials then (parse rest).map (.literal escaped :: ·) else none
      | [] => none
    else if char ∈ specials then
      none
    else
      (parse rest).map (.literal char :: ·)

/-- What a dot does not match. -/
def isLineBreak (char : Char) : Bool :=
  char = '\n' || char = '\r' || char = '\u2028' || char = '\u2029'

/-- Whether the parts match from a position, of which the text is left. -/
def matchesFrom : List Part → Nat → List Char → Bool
  | [], _, _ => true
  | .start :: parts, position, text => position = 0 && matchesFrom parts position text
  | .stop :: parts, position, text => text.isEmpty && matchesFrom parts position text
  | .literal char :: parts, position, text =>
    match text with
    | [] => false
    | first :: rest => first = char && matchesFrom parts (position + 1) rest
  | .gap :: parts, position, text =>
    (List.range ((text.takeWhile fun char => !isLineBreak char).length + 1)).any fun count =>
      matchesFrom parts (position + count) (text.drop count)

/-- `pattern.test(text)`. -/
def test (parts : List Part) (text : List Char) : Bool :=
  (List.range (text.length + 1)).any fun position => matchesFrom parts position (text.drop position)

/-- A text that a gap may stand for. -/
def OneLine (text : List Char) : Prop := ∀ char ∈ text, isLineBreak char = false

/-! ## Reading a source -/

/-- An escaped text is read as the characters it was made of. -/
theorem parse_escaped_append (text source : List Char) :
    parse (escaped text ++ source) = (parse source).map (text.map .literal ++ ·) := by
  induction text with
  | nil =>
    rw [escaped, nil_append]
    simp
  | cons char rest ih =>
    rw [escaped]
    by_cases isSpecial : char ∈ specials
    · rw [if_pos isSpecial, cons_append, cons_append, parse.eq_def]
      dsimp only
      rw [if_neg (by decide), if_neg (by decide), if_neg (by decide), if_pos rfl,
        if_pos isSpecial, ih, Option.map_map]
      rfl
    · have notOne {special : Char} (among : special ∈ specials) : char ≠ special := by
        rintro rfl
        exact isSpecial among
      rw [if_neg isSpecial, cons_append, parse.eq_def]
      dsimp only
      rw [if_neg (notOne (by decide)), if_neg (notOne (by decide)), if_neg (notOne (by decide)),
        if_neg (notOne (by decide)), if_neg isSpecial, ih, Option.map_map]
      rfl

variable {position : Nat} (source : List Char)

theorem parse_start :
    parse ('^' :: source) = (parse source).map (.start :: ·) := by
  rw [parse.eq_def]
  dsimp only
  rw [if_pos rfl]

theorem parse_gap :
    parse ('.' :: '*' :: source) = (parse source).map (.gap :: ·) := by
  rw [parse.eq_def]
  dsimp only
  rw [if_neg (by decide), if_neg (by decide), if_pos rfl]
  rfl

theorem parse_stop : parse ['$'] = some [.stop] := by decide

/-! ## Matching -/

variable {parts : List Part} {text : List Char}

theorem matchesFrom_literals_iff {piece text : List Char} :
    matchesFrom (piece.map .literal ++ parts) position text = true ↔
      ∃ rest, text = piece ++ rest ∧ matchesFrom parts (position + piece.length) rest = true := by
  induction piece generalizing text position with
  | nil => simp
  | cons char piece ih =>
    rw [map_cons, cons_append]
    cases text with
    | nil =>
      rw [matchesFrom]
      refine iff_of_false Bool.false_ne_true ?_
      rintro ⟨rest, isText, _⟩
      cases isText
    | cons first text =>
      rw [matchesFrom, Bool.and_eq_true, decide_eq_true_iff, ih]
      have isLater : position + 1 + piece.length = position + (char :: piece).length := by
        rw [length_cons]
        omega
      rw [isLater]
      constructor
      · rintro ⟨rfl, rest, rfl, isMatch⟩
        exact ⟨rest, rfl, isMatch⟩
      · rintro ⟨rest, isText, isMatch⟩
        rw [cons_append, List.cons.injEq] at isText
        exact ⟨isText.1, rest, isText.2, isMatch⟩

/-- The first characters of a text are on one line where they are before its first break. -/
theorem oneLine_take_iff {count : Nat} (within : count ≤ text.length) :
    OneLine (text.take count) ↔ count ≤ (text.takeWhile fun char => !isLineBreak char).length := by
  induction text generalizing count with
  | nil =>
    obtain rfl : count = 0 := Nat.le_zero.mp within
    simp [OneLine]
  | cons char text ih =>
    cases count with
    | zero => simp [OneLine]
    | succ count =>
      have rest := ih (Nat.le_of_succ_le_succ within)
      rw [OneLine, take_succ_cons, forall_mem_cons]
      rw [OneLine] at rest
      by_cases isBreak : isLineBreak char = true
      · rw [takeWhile_cons_of_neg (by simp [isBreak])]
        simp [isBreak]
      · rw [takeWhile_cons_of_pos (by simpa using isBreak), rest, length_cons]
        simp [isBreak]

theorem matchesFrom_gap_iff :
    matchesFrom (.gap :: parts) position text = true ↔
      ∃ skipped rest,
        text = skipped ++ rest ∧ OneLine skipped ∧
          matchesFrom parts (position + skipped.length) rest = true := by
  have run : (text.takeWhile fun char => !isLineBreak char).length ≤ text.length :=
    (List.takeWhile_prefix _).length_le
  rw [matchesFrom, any_eq_true]
  constructor
  · rintro ⟨count, isCount, isMatch⟩
    rw [mem_range] at isCount
    have within : count ≤ text.length := by omega
    refine ⟨text.take count, text.drop count, (take_append_drop count text).symm, ?_, ?_⟩
    · exact (oneLine_take_iff within).mpr (by omega)
    · rwa [length_take_of_le within]
  · rintro ⟨skipped, rest, rfl, isLine, isMatch⟩
    have within : skipped.length ≤ (skipped ++ rest).length := by
      rw [length_append]
      exact Nat.le_add_right _ _
    have isRun := oneLine_take_iff within
    rw [take_left] at isRun
    refine ⟨skipped.length, ?_, ?_⟩
    · rw [mem_range]
      exact Nat.lt_succ_of_le (isRun.mp isLine)
    · rwa [drop_left]

/-- A test finds a match wherever it begins. -/
theorem test_iff {text : List Char} :
    test parts text = true ↔
      ∃ before rest, text = before ++ rest ∧ matchesFrom parts before.length rest = true := by
  rw [test, any_eq_true]
  constructor
  · rintro ⟨position, isPosition, isMatch⟩
    rw [mem_range] at isPosition
    refine ⟨text.take position, text.drop position, (take_append_drop position text).symm, ?_⟩
    rwa [length_take_of_le (Nat.le_of_lt_succ isPosition)]
  · rintro ⟨before, rest, rfl, isMatch⟩
    refine ⟨before.length, ?_, ?_⟩
    · rw [mem_range, length_append]
      omega
    · rwa [drop_left]

end IyaSts.TextPattern
