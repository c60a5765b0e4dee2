import Mathlib.Data.List.Basic

namespace IyaSts.SpacedText

/-!
# Texts of space-separated words

`text.split(' ').filter(Boolean)` and `words.join(' ')`.  Splitting what was
joined gives the words back where each is one word.
-/

open List

/-- `text.split(' ')`, of the characters. -/
def runs : List Char → List (List Char)
  | [] => [[]]
  | char :: rest =>
    if char = ' ' then
      [] :: runs rest
    else
      match runs rest with
      | [] => [[char]]
      | first :: others => (char :: first) :: others

/-- `text.split(' ').filter(Boolean)`. -/
def words (text : String) : List String :=
  ((runs text.toList).filter fun run => run ≠ []).map String.ofList

/-- `texts.join(' ')`. -/
def join : List String → String
  | [] => ""
  | [text] => text
  | text :: rest => text ++ " " ++ join rest

/-- A text that is one word: it is not empty and has no space. -/
def OneWord (text : String) : Prop := words text = [text]

instance (text : String) : Decidable (OneWord text) := inferInstanceAs (Decidable (_ = _))

theorem runs_ne_nil (chars : List Char) : runs chars ≠ [] := by
  cases chars with
  | nil => simp [runs]
  | cons char rest =>
    unfold runs
    split
    · simp
    · split <;> simp

/-- A space separates what is before it from what is after it. -/
theorem runs_append_space (before after : List Char) :
    runs (before ++ ' ' :: after) = runs before ++ runs after := by
  induction before with
  | nil => simp [runs]
  | cons char rest ih =>
    rw [cons_append, runs, ih]
    by_cases isSpace : char = ' '
    · simp [runs, isSpace]
    · rw [if_neg isSpace]
      conv => rhs; rw [runs, if_neg isSpace]
      cases shape : runs rest with
      | nil => exact absurd shape (runs_ne_nil rest)
      | cons first others => rfl

/-- No run has a space in it. -/
theorem not_mem_run {chars run : List Char} (isRun : run ∈ runs chars) : ' ' ∉ run := by
  induction chars generalizing run with
  | nil =>
    rw [runs, mem_singleton] at isRun
    simp [isRun]
  | cons char rest ih =>
    unfold runs at isRun
    split at isRun
    · rcases mem_cons.mp isRun with isEmpty | isLater
      · simp [isEmpty]
      · exact ih isLater
    · rename_i notSpace
      cases shape : runs rest with
      | nil => exact absurd shape (runs_ne_nil rest)
      | cons first others =>
        rw [shape] at isRun
        rcases mem_cons.mp isRun with isFirst | isLater
        · rw [isFirst, mem_cons, not_or]
          refine ⟨Ne.symm notSpace, ih ?_⟩
          rw [shape]
          exact mem_cons_self
        · apply ih
          rw [shape]
          exact mem_cons_of_mem _ isLater

/-- Characters without a space are one run. -/
theorem runs_of_not_mem {chars : List Char} (noSpace : ' ' ∉ chars) : runs chars = [chars] := by
  induction chars with
  | nil => rfl
  | cons char rest ih =>
    rw [mem_cons, not_or] at noSpace
    rw [runs, if_neg (Ne.symm noSpace.1), ih noSpace.2]

/-- The words of a text are one word each. -/
theorem oneWord_of_mem {text word : String} (isWord : word ∈ words text) : OneWord word := by
  simp only [words, mem_map, mem_filter, decide_eq_true_eq] at isWord
  obtain ⟨run, ⟨isRun, notEmpty⟩, rfl⟩ := isWord
  simp [OneWord, words, runs_of_not_mem (not_mem_run isRun), notEmpty]

theorem words_append_space (before after : String) :
    words (before ++ " " ++ after) = words before ++ words after := by
  have chars : (before ++ " " ++ after).toList = before.toList ++ ' ' :: after.toList := by simp
  simp only [words, chars, runs_append_space, filter_append, map_append]

/-- The words of joined texts are the words of each. -/
theorem words_join (texts : List String) : words (join texts) = texts.flatMap words := by
  induction texts with
  | nil => rfl
  | cons text rest ih =>
    cases rest with
    | nil => simp [join]
    | cons next others =>
      rw [join, words_append_space, ih]
      · rfl
      · simp

/-- Words joined are the same words again. -/
theorem words_join_of_oneWord {texts : List String} (eachOne : ∀ text ∈ texts, OneWord text) :
    words (join texts) = texts := by
  rw [words_join]
  induction texts with
  | nil => rfl
  | cons text rest ih =>
    rw [flatMap_cons, eachOne text mem_cons_self,
      ih fun later isLater => eachOne later (mem_cons_of_mem _ isLater)]
    rfl

end IyaSts.SpacedText
