import Mathlib.Data.List.Basic

namespace IyaSts.TextLines

/-!
# Texts of lines

`text.split(/\r?\n/)`, `lines.join('\n')` and `text.trim()`.  Lines without a
line feed that are joined come apart again, but for the carriage return a line
other than the last may end with.
-/

open List

/-- A character put in front of the first line. -/
def consFirst (char : Char) : List (List Char) → List (List Char)
  | first :: others => (char :: first) :: others
  | [] => [[char]]

/-- `text.split(/\r?\n/)`. -/
def split : List Char → List (List Char)
  | [] => [[]]
  | char :: rest =>
    if char = '\n' then
      [] :: split rest
    else if char = '\r' ∧ rest.head? = some '\n' then
      split rest
    else
      consFirst char (split rest)

/-- `lines.join('\n')`. -/
def join (lines : List (List Char)) : List Char := ['\n'].intercalate lines

/-- What is taken for white space. -/
def isWhitespace (char : Char) : Bool :=
  char.toNat ∈ [0x09, 0x0a, 0x0b, 0x0c, 0x0d, 0x20, 0xa0, 0x1680, 0x2028,
      0x2029, 0x202f, 0x205f, 0x3000, 0xfeff] ∨
    (0x2000 ≤ char.toNat ∧ char.toNat ≤ 0x200a)

/-- `text.trim()`. -/
def trim (text : List Char) : List Char :=
  ((text.dropWhile isWhitespace).reverse.dropWhile isWhitespace).reverse

/-- A line without the carriage return at its end. -/
def stripReturn (line : List Char) : List Char :=
  if line.getLast? = some '\r' then line.dropLast else line

variable (text : List Char)

theorem split_ne_nil : split text ≠ [] := by
  induction text with
  | nil => simp [split]
  | cons char rest ih =>
    rw [split]
    split
    · simp
    · split
      · exact ih
      · cases parts : split rest with
        | nil => exact absurd parts ih
        | cons first others => simp [consFirst]

/-- No line has a line feed. -/
theorem not_mem_line {text line : List Char} (isLine : line ∈ split text) : '\n' ∉ line := by
  induction text generalizing line with
  | nil =>
    rw [split, mem_singleton] at isLine
    rw [isLine]
    exact not_mem_nil
  | cons char rest ih =>
    rw [split] at isLine
    split at isLine
    · rcases mem_cons.mp isLine with rfl | inRest
      · exact not_mem_nil
      · exact ih inRest
    · rename_i notFeed
      split at isLine
      · exact ih isLine
      · cases parts : split rest with
        | nil => exact absurd parts (split_ne_nil rest)
        | cons first others =>
          rw [parts, consFirst] at isLine
          rcases mem_cons.mp isLine with rfl | inOthers
          · intro isFeed
            rcases mem_cons.mp isFeed with sameChar | inFirst
            · exact notFeed sameChar.symm
            · exact ih (by rw [parts]; exact mem_cons_self) inFirst
          · exact ih (by rw [parts]; exact mem_cons_of_mem _ inOthers)

variable {line : List Char}

theorem stripReturn_cons (char : Char) (isSome : line ≠ []) :
    stripReturn (char :: line) = char :: stripReturn line := by
  unfold stripReturn
  rw [List.getLast?_cons_of_ne_nil isSome]
  split
  · rw [dropLast_cons_of_ne_nil isSome]
  · rfl

/-- A line feed ends the line before it. -/
theorem split_append_feed (noFeed : '\n' ∉ line) (rest : List Char) :
    split (line ++ '\n' :: rest) = stripReturn line :: split rest := by
  induction line with
  | nil => simp [split, stripReturn]
  | cons char line ih =>
    rw [mem_cons, not_or] at noFeed
    obtain ⟨notFeed, restNoFeed⟩ := noFeed
    rw [cons_append, split, if_neg (Ne.symm notFeed)]
    cases line with
    | nil =>
      by_cases isReturn : char = '\r'
      · subst isReturn
        simp [split, stripReturn]
      · simp [split, stripReturn, isReturn, consFirst]
    | cons second others =>
      have notHead : ¬(char = '\r' ∧ ((second :: others) ++ '\n' :: rest).head? = some '\n') := by
        rintro ⟨_, isHead⟩
        rw [cons_append, List.head?_cons, Option.some.injEq] at isHead
        exact restNoFeed (by rw [isHead]; exact mem_cons_self)
      rw [if_neg notHead, ih restNoFeed,
        stripReturn_cons char (by simp), consFirst]

/-- A text without a line feed is one line. -/
theorem split_of_noFeed (noFeed : '\n' ∉ line) : split line = [line] := by
  induction line with
  | nil => rfl
  | cons char line ih =>
    rw [mem_cons, not_or] at noFeed
    obtain ⟨notFeed, restNoFeed⟩ := noFeed
    have notHead : ¬(char = '\r' ∧ line.head? = some '\n') := by
      rintro ⟨_, isHead⟩
      exact restNoFeed (mem_of_mem_head? isHead)
    rw [split, if_neg (Ne.symm notFeed), if_neg notHead, ih restNoFeed, consFirst]

theorem join_cons (line : List Char) {rest : List (List Char)} (isSome : rest ≠ []) :
    join (line :: rest) = line ++ '\n' :: join rest := by
  cases rest with
  | nil => exact absurd rfl isSome
  | cons second others => simp [join, List.intercalate]

@[simp] theorem join_singleton (line : List Char) : join [line] = line := by
  simp [join, List.intercalate]

/-- Joined lines come apart, each but the last without a return at its end. -/
theorem split_join (lines : List (List Char)) (last : List Char)
    (noFeed : ∀ line ∈ lines, '\n' ∉ line) (lastNoFeed : '\n' ∉ last) :
    split (join (lines ++ [last])) = lines.map stripReturn ++ [last] := by
  induction lines with
  | nil =>
    rw [nil_append, join_singleton, split_of_noFeed lastNoFeed]
    rfl
  | cons line rest ih =>
    rw [forall_mem_cons] at noFeed
    rw [cons_append, join_cons line (by simp),
      split_append_feed noFeed.1, ih noFeed.2]
    rfl

/-- Where the last line keeps its end, every line is read stripped. -/
theorem split_join_of_last {lines : List (List Char)} (isSome : lines ≠ [])
    (noFeed : ∀ line ∈ lines, '\n' ∉ line)
    (lastKept : stripReturn (lines.getLast isSome) = lines.getLast isSome) :
    split (join lines) = lines.map stripReturn := by
  have shape := dropLast_append_getLast isSome
  have isRead :=
    split_join lines.dropLast (lines.getLast isSome)
      (fun line isLine => noFeed line (dropLast_subset _ isLine))
      (noFeed _ (getLast_mem isSome))
  rw [shape] at isRead
  rw [isRead]
  conv => rhs; rw [← shape, map_append, map_singleton, lastKept]

theorem join_append {first second : List (List Char)} (firstSome : first ≠ [])
    (secondSome : second ≠ []) :
    join (first ++ second) = join first ++ '\n' :: join second := by
  induction first with
  | nil => exact absurd rfl firstSome
  | cons line rest ih =>
    cases rest with
    | nil => rw [singleton_append, join_cons line secondSome, join_singleton]
    | cons next others =>
      rw [cons_append, join_cons line (by simp),
        ih (by simp), join_cons line (by simp)]
      simp

/-- Joining groups of lines that are joined is joining all of them. -/
theorem join_map_join {groups : List (List (List Char))} (isSome : ∀ group ∈ groups, group ≠ []) :
    join (groups.map join) = join groups.flatten := by
  induction groups with
  | nil => rfl
  | cons group rest ih =>
    rw [forall_mem_cons] at isSome
    cases rest with
    | nil => simp
    | cons next others =>
      have restSome : (next :: others).flatten ≠ [] := by
        have nextSome := isSome.2 next mem_cons_self
        simp [nextSome]
      have shape :
          (group :: next :: others).flatten = group ++ (next :: others).flatten :=
        flatten_cons
      rw [map_cons, join_cons _ (by simp), ih isSome.2, shape,
        join_append isSome.1 restSome]

/-- Text without white space is trimmed to itself. -/
theorem trim_of_noWhitespace (noSpace : ∀ char ∈ text, isWhitespace char = false) :
    trim text = text := by
  have keeps (chars : List Char)
      (noSpace : ∀ char ∈ chars, isWhitespace char = false) :
      chars.dropWhile isWhitespace = chars := by
    cases chars with
    | nil => rfl
    | cons first rest =>
      rw [dropWhile_cons, noSpace first mem_cons_self]
      rfl
  have reversed : ∀ char ∈ text.reverse, isWhitespace char = false := by
    intro char isChar
    exact noSpace char (mem_reverse.mp isChar)
  rw [trim, keeps text noSpace, keeps _ reversed, reverse_reverse]

end IyaSts.TextLines
