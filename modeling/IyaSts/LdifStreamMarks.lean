import IyaSts.LdifStreamAgrees
import Mathlib.Data.List.TakeWhile

namespace IyaSts.LdifStream

/-!
# When a record is marked that lost a URL-valued line

The stream looks for `name:<` on each line of the file, the codec on the lines
before they were folded.  A record is marked only where one of its URL-valued
lines has that much on the line it begins on.
-/

open PersistenceLdif TextLines List

/-! ## Folded lines -/

/-- A line of an LDIF text, with what continues it. -/
structure Folded where
  first : List Char
  continued : List (List Char)

/-- A line before it was folded. -/
def Folded.whole (folded : Folded) : List Char := folded.first ++ folded.continued.flatten

/-- A line that goes on with the line before it. -/
def isContinuation (line : List Char) : Bool := line.head? = some ' '

/-- The lines of a text, each with those that continue it. -/
def folds : List (List Char) → List Folded
  | [] => []
  | first :: rest =>
    { first, continued := (rest.takeWhile isContinuation).map List.tail } ::
      folds (rest.dropWhile isContinuation)
  termination_by lines => lines.length
  decreasing_by
    exact Nat.lt_succ_of_le (length_dropWhile_le _ _)

/-- A URL-valued line, by its name. -/
def Folded.UrlOf (folded : Folded) (name : List Char) : Prop :=
  name.head? ≠ some '#' ∧ ':' ∉ name ∧ name ++ [':', '<'] <+: folded.whole

/-- What hides a URL-valued line: its name, or that it is folded within `name:<`. -/
def Folded.Hides (folded : Folded) (name : List Char) : Prop :=
  name = [] ∨ name.head? = some ' ' ∨ folded.first.length < name.length + 2

/-- The lines of a block as the codec splits its text. -/
def codecFolds (block : List (List Char)) : List Folded := folds (split (join block))

/-- The codec drops a URL-valued line of a block. -/
def DropsUrl (block : List (List Char)) : Prop :=
  ∃ line ∈ unfold (join block),
    line ≠ [] ∧ line.head? ≠ some '#' ∧ ∃ name, parseLine line = some { name, value := none }

/-- A block has a URL-valued line that is hidden. -/
def HasHiddenUrl (block : List (List Char)) : Prop :=
  ∃ folded ∈ codecFolds block, ∃ name, folded.UrlOf name ∧ folded.Hides name

/-- A block has a URL-valued line that is not hidden. -/
def HasShownUrl (block : List (List Char)) : Prop :=
  ∃ folded ∈ codecFolds block, ∃ name, folded.UrlOf name ∧ ¬folded.Hides name

/-! ## Unfolding -/

theorem foldl_continuations (first : List Char) {lines : List (List Char)}
    (areContinuations : ∀ line ∈ lines, isContinuation line = true) :
    lines.foldl unfoldLine [first] = [first ++ (lines.map List.tail).flatten] := by
  induction lines generalizing first with
  | nil => simp
  | cons line rest ih =>
    rw [forall_mem_cons] at areContinuations
    have isSpace : line.head? = some ' ' := of_decide_eq_true areContinuations.1
    obtain ⟨tail, rfl⟩ : ∃ tail, line = ' ' :: tail := by
      cases line with
      | nil => cases isSpace
      | cons char tail =>
        cases isSpace
        exact ⟨tail, rfl⟩
    have unfolded : unfoldLine [first] (' ' :: tail) = [first ++ tail] := rfl
    rw [foldl_cons, unfolded, ih _ areContinuations.2, map_cons,
      flatten_cons, append_assoc]
    rfl

variable (lines : List (List Char))

/-- Unfolding joins each line and what continues it. -/
theorem unfoldBlock_eq :
    unfoldBlock lines = (folds lines).map Folded.whole := by
  induction lines using folds.induct with
  | case1 =>
    rw [folds]
    rfl
  | case2 first rest ih =>
    have isFresh :
        ∀ line, (rest.dropWhile isContinuation).head? = some line → line.head? ≠ some ' ' := by
      intro line isHead
      have notContinuation := List.head?_dropWhile_not isContinuation rest
      rw [isHead] at notContinuation
      simpa [isContinuation] using notContinuation
    have areContinuations : ∀ line ∈ rest.takeWhile isContinuation, isContinuation line = true := by
      intro line isLine
      exact mem_takeWhile_imp isLine
    have starts : unfoldLine [] first = [first] := by
      unfold unfoldLine
      split
      · rename_i _ isNone
        cases isNone
      · rfl
    rw [folds, map_cons, ← ih, unfoldBlock, foldl_cons, starts]
    conv_lhs => rw [← takeWhile_append_dropWhile (p := isContinuation) (l := rest)]
    rw [foldl_append, foldl_continuations first areContinuations,
      foldl_unfoldLine_fresh _ isFresh]
    rfl

/-! ## URL-valued lines -/

variable {line : List Char} {block : List (List Char)}

/-- A line with a colon is what comes before the first, the colon and the rest. -/
theorem eq_of_colon (hasColon : ':' ∈ line) :
    ':' ∉ line.takeWhile (fun char => char ≠ ':') ∧
      line =
        line.takeWhile (fun char => char ≠ ':') ++
          ':' :: line.drop ((line.takeWhile fun char => char ≠ ':').length + 1) := by
  induction line with
  | nil => cases hasColon
  | cons char rest ih =>
    by_cases isColon : char = ':'
    · subst isColon
      simp
    · obtain ⟨notBefore, isRest⟩ :=
        ih ((mem_cons.mp hasColon).resolve_left (Ne.symm isColon))
      rw [takeWhile_cons_of_pos (by simpa using isColon)]
      refine ⟨?_, ?_⟩
      · rw [mem_cons, not_or]
        exact ⟨Ne.symm isColon, notBefore⟩
      · rw [length_cons, drop_succ_cons, cons_append, ← isRest]

/-- The first colon of a line is the one after a name without any. -/
theorem takeWhile_colon {name : List Char} (noColon : ':' ∉ name) (rest : List Char) :
    (name ++ ':' :: rest).takeWhile (fun char => char ≠ ':') = name := by
  have allPass : ∀ char ∈ name, decide (char ≠ ':') = true := by
    intro char isChar
    rw [decide_eq_true_iff]
    rintro rfl
    exact noColon isChar
  rw [takeWhile_append_of_pos allPass]
  simp

/-- The codec drops a line where it is a name, a colon and `<`. -/
theorem parseLine_url_iff {line name : List Char} :
    parseLine line = some { name, value := none } ↔ ':' ∉ name ∧ name ++ [':', '<'] <+: line := by
  constructor
  · intro isUrl
    by_cases hasColon : ':' ∈ line
    · obtain ⟨noColon, isLine⟩ := eq_of_colon hasColon
      rw [parseLine, if_pos hasColon] at isUrl
      dsimp only at isUrl
      split at isUrl
      · rename_i isLess
        obtain ⟨rest, isRest⟩ :
            ∃ rest, line.drop ((line.takeWhile fun char => char ≠ ':').length + 1) = '<' :: rest :=
          List.head?_eq_some_iff.mp isLess
        rw [Option.some.injEq, ParsedLine.mk.injEq] at isUrl
        rw [isRest, isUrl.1] at isLine
        rw [isUrl.1] at noColon
        exact ⟨noColon, rest, by rw [append_assoc]; exact isLine.symm⟩
      · split at isUrl
        · cases isUrl
        · split at isUrl <;> cases isUrl
    · rw [parseLine, if_neg hasColon] at isUrl
      cases isUrl
  · rintro ⟨noColon, rest, rfl⟩
    have isLine : name ++ [':', '<'] ++ rest = name ++ ':' :: '<' :: rest := by
      rw [append_assoc]
      rfl
    rw [isLine, parseLine, if_pos (by simp)]
    dsimp only
    rw [takeWhile_colon noColon, ← drop_drop, drop_left]
    rfl

/-- The stream marks a line where it sees all of that. -/
theorem isUrlLine_iff {line : List Char} :
    isUrlLine line = true ↔
      ∃ name,
        name ≠ [] ∧ name.head? ≠ some ' ' ∧ name.head? ≠ some '#' ∧ ':' ∉ name ∧
          name ++ [':', '<'] <+: line := by
  rw [isUrlLine]
  constructor
  · intro isUrl
    split at isUrl
    · cases isUrl
    · rename_i begins
      rw [not_or, not_or] at begins
      obtain ⟨_, notSpace, notComment⟩ := begins
      obtain ⟨hasColon, isNamed, isLess⟩ := of_decide_eq_true isUrl
      obtain ⟨noColon, isLine⟩ := eq_of_colon hasColon
      obtain ⟨rest, isRest⟩ := List.head?_eq_some_iff.mp isLess
      rw [isRest] at isLine
      rw [isLine, List.head?_append_of_ne_nil _ isNamed] at notSpace notComment
      exact ⟨_, isNamed, notSpace, notComment, noColon, rest, by
          rw [append_assoc]
          exact isLine.symm⟩
  · rintro ⟨name, isNamed, notSpace, notComment, noColon, rest, rfl⟩
    have isLine : name ++ [':', '<'] ++ rest = name ++ ':' :: '<' :: rest := by
      rw [append_assoc]
      rfl
    have begins :
        ¬(name ++ ':' :: '<' :: rest = [] ∨ name.head? = some ' ' ∨ name.head? = some '#') := by
      rw [not_or, not_or]
      exact ⟨by simp, notSpace, notComment⟩
    rw [isLine, takeWhile_colon noColon, List.head?_append_of_ne_nil _ isNamed, if_neg begins]
    dsimp only
    rw [← drop_drop, drop_left]
    simpa using isNamed

/-- The codec drops a URL-valued line of a block where one is folded in it. -/
theorem dropsUrl_iff {block : List (List Char)} :
    DropsUrl block ↔ ∃ folded ∈ codecFolds block, ∃ name, folded.UrlOf name := by
  have isUnfolded :
      unfold (join block) = (codecFolds block).map Folded.whole :=
    unfoldBlock_eq (split (join block))
  rw [DropsUrl, isUnfolded]
  constructor
  · rintro ⟨line, isLine, _, notComment, name, isUrl⟩
    obtain ⟨folded, isFolded, rfl⟩ := mem_map.mp isLine
    obtain ⟨noColon, rest, isWhole⟩ := parseLine_url_iff.mp isUrl
    refine ⟨folded, isFolded, name, ?_, noColon, rest, isWhole⟩
    rw [← isWhole] at notComment
    intro isComment
    obtain ⟨others, rfl⟩ := List.head?_eq_some_iff.mp isComment
    exact notComment rfl
  · rintro ⟨folded, isFolded, name, notComment, noColon, rest, isWhole⟩
    refine
      ⟨folded.whole, mem_map.mpr ⟨folded, isFolded, rfl⟩, ?_, ?_, name,
        parseLine_url_iff.mpr ⟨noColon, rest, isWhole⟩⟩
    · rw [← isWhole]
      simp
    · rw [← isWhole]
      cases name with
      | nil => simp
      | cons char others => exact notComment

/-! ## Shown lines -/

/-- A carriage return at the end of a line is no part of a name, a colon and `<`. -/
theorem isUrlLine_stripReturn (line : List Char) :
    isUrlLine (stripReturn line) = isUrlLine line := by
  rw [Bool.eq_iff_iff, isUrlLine_iff, isUrlLine_iff]
  refine exists_congr fun name => ?_
  have samePrefix : name ++ [':', '<'] <+: stripReturn line ↔ name ++ [':', '<'] <+: line := by
    rw [stripReturn]
    split
    · rename_i isReturn
      constructor
      · intro isPrefix
        exact isPrefix.trans (List.dropLast_prefix line)
      · rintro ⟨rest, rfl⟩
        cases rest with
        | nil =>
          rw [append_nil, List.getLast?_append] at isReturn
          cases isReturn
        | cons char rest =>
          rw [dropLast_append_of_ne_nil (by simp)]
          exact prefix_append _ _
    · exact Iff.rfl
  rw [samePrefix]

/-- Splitting the text of a block shows as many URL-valued lines. -/
theorem any_split_join (noFeed : ∀ line ∈ block, '\n' ∉ line) :
    (split (join block)).any isUrlLine = block.any isUrlLine := by
  rcases eq_nil_or_concat block with rfl | ⟨lines, last, rfl⟩
  · rfl
  · rw [concat_eq_append] at noFeed ⊢
    rw [split_join lines last
        (fun line isLine => noFeed line (mem_append_left _ isLine))
        (noFeed last (by simp)),
      any_append, any_append, any_map]
    congr 1
    rw [Bool.eq_iff_iff, any_eq_true, any_eq_true]
    simp only [Function.comp_apply, isUrlLine_stripReturn]

/-- No continuation is a line that the stream marks. -/
theorem not_isUrlLine_of_continuation (isContinued : isContinuation line = true) :
    ¬isUrlLine line = true := by
  have isSpace : line.head? = some ' ' := of_decide_eq_true isContinued
  rw [isUrlLine, if_pos (.inr (.inl isSpace))]
  exact Bool.false_ne_true

/-- The lines that the stream marks are those that others continue. -/
theorem any_isUrlLine_iff :
    lines.any isUrlLine = true ↔ ∃ folded ∈ folds lines, isUrlLine folded.first = true := by
  induction lines using folds.induct with
  | case1 => simp [folds]
  | case2 first rest ih =>
    have noneContinued : ¬(rest.takeWhile isContinuation).any isUrlLine = true := by
      rw [any_eq_true]
      rintro ⟨line, isLine, isUrl⟩
      exact not_isUrlLine_of_continuation (mem_takeWhile_imp isLine) isUrl
    have restMarked : rest.any isUrlLine = (rest.dropWhile isContinuation).any isUrlLine := by
      conv_lhs => rw [← takeWhile_append_dropWhile (p := isContinuation) (l := rest)]
      rw [any_append, Bool.eq_false_iff.mpr noneContinued, Bool.false_or]
    rw [any_cons, restMarked, Bool.or_eq_true, ih, folds,
      exists_mem_cons_iff]

/-- What the stream marks is a URL-valued line that nothing hides. -/
theorem isUrlLine_first_iff (folded : Folded) :
    isUrlLine folded.first = true ↔ ∃ name, folded.UrlOf name ∧ ¬folded.Hides name := by
  rw [isUrlLine_iff]
  refine exists_congr fun name => ?_
  have isPrefix : folded.first <+: folded.whole := prefix_append _ _
  constructor
  · rintro ⟨isNamed, notSpace, notComment, noColon, begins⟩
    refine ⟨⟨notComment, noColon, begins.trans isPrefix⟩, ?_⟩
    have isLong := begins.length_le
    rw [length_append] at isLong
    rintro (isNameless | isSpaced | isFolded)
    · exact isNamed isNameless
    · exact notSpace isSpaced
    · exact absurd isLong (Nat.not_le_of_lt isFolded)
  · rintro ⟨⟨notComment, noColon, begins⟩, notHidden⟩
    rw [Folded.Hides, not_or, not_or] at notHidden
    obtain ⟨isNamed, notSpace, notFolded⟩ := notHidden
    refine ⟨isNamed, notSpace, notComment, noColon, ?_⟩
    refine prefix_of_prefix_length_le begins isPrefix ?_
    rw [length_append]
    exact Nat.le_of_not_lt notFolded

theorem hasShownUrl_iff (noFeed : ∀ line ∈ block, '\n' ∉ line) :
    HasShownUrl block ↔ block.any isUrlLine = true := by
  rw [HasShownUrl, ← any_split_join noFeed, any_isUrlLine_iff, codecFolds]
  simp only [isUrlLine_first_iff]

section

variable (toLowerCase : String → String)

/-! ## Marked records -/

/-- The blocks of the records that are yielded. -/
def recordBlocks : List (List (List Char)) → List (List (List Char))
  | [] => []
  | block :: rest =>
    match blockEntries toLowerCase block with
    | .error _ => []
    | .ok [] => recordBlocks rest
    | .ok (_ :: _) => block :: recordBlocks rest

/-- A line that has no line feed, as one that is read from a file. -/
abbrev PhysicalLine := { line : List Char // '\n' ∉ line }

/-- Each record is marked exactly where the codec dropped a URL-valued line of it. -/
def MarksRight (lines : List PhysicalLine) : Prop :=
  List.Forall₂ (fun record block => record.url = true ↔ DropsUrl block)
    (recordsFrom toLowerCase .start (lines.map Subtype.val)).records
    (recordBlocks toLowerCase (blocks (lines.map Subtype.val)))

/-- A record is marked where the stream saw a URL-valued line of its block. -/
theorem recordsFrom_marked {stream : Stream} (isMarked : stream.url = stream.block.any isUrlLine)
    (lines : List (List Char)) :
    List.Forall₂ (fun record block => record.url = block.any isUrlLine)
      (recordsFrom toLowerCase stream lines).records
      (recordBlocks toLowerCase (blocksFrom stream.block lines)) := by
  induction lines generalizing stream with
  | nil =>
    rw [recordsFrom, Stream.finish, blocksFrom, recordBlocks]
    cases read : blockEntries toLowerCase stream.block with
    | error error => exact .nil
    | ok entries =>
      cases entries with
      | nil => exact .nil
      | cons entry others => exact .cons isMarked .nil
  | cons line rest ih =>
    rw [recordsFrom, blocksFrom]
    cases blank : isBlank line with
    | false =>
      have pushed :
          ({ stream with lineNo := stream.lineNo + 1 }.push line).url =
            (stream.block ++ [line]).any isUrlLine := by
        rw [any_append, ← isMarked, Bool.or_comm]
        simp [Stream.push]
      simp only [Bool.false_eq_true, if_false]
      exact ih pushed
    | true =>
      simp only [if_true, Stream.finish]
      rw [recordBlocks]
      cases read : blockEntries toLowerCase stream.block with
      | error error => exact .nil
      | ok entries =>
        cases entries with
        | nil =>
          exact
            @ih
              { stream with
                lineNo := stream.lineNo + 1
                block := []
                url := false } rfl
        | cons entry others =>
          exact
            .cons isMarked
              (@ih
                { stream with
                  lineNo := stream.lineNo + 1
                  ordinal := stream.ordinal + 1
                  block := []
                  url := false } rfl)

variable {block : List (List Char)}

/-- The lines of a block are lines of the file. -/
theorem mem_of_mem_blocksFrom {begun lines : List (List Char)}
    (isBlock : block ∈ blocksFrom begun lines) {line : List Char} (isLine : line ∈ block) :
    line ∈ begun ++ lines := by
  induction lines generalizing begun with
  | nil =>
    rw [blocksFrom, mem_singleton] at isBlock
    rw [← isBlock]
    exact mem_append_left _ isLine
  | cons first rest ih =>
    rw [blocksFrom] at isBlock
    split at isBlock
    · rcases mem_cons.mp isBlock with rfl | inRest
      · exact mem_append_left _ isLine
      · have isLater := ih inRest
        rw [nil_append] at isLater
        exact mem_append_right _ (mem_cons_of_mem _ isLater)
    · have isHere := ih isBlock
      rwa [append_assoc] at isHere

theorem mem_of_mem_recordBlocks {pieces : List (List (List Char))}
    (isRecord : block ∈ recordBlocks toLowerCase pieces) :
    block ∈ pieces := by
  induction pieces with
  | nil => cases isRecord
  | cons piece rest ih =>
    rw [recordBlocks] at isRecord
    split at isRecord
    · cases isRecord
    · exact mem_cons_of_mem _ (ih isRecord)
    · rcases mem_cons.mp isRecord with rfl | inRest
      · exact mem_cons_self
      · exact mem_cons_of_mem _ (ih inRest)

/-- A mark is right where a hidden URL-valued line comes with a shown one. -/
theorem shown_iff_drops_iff {block : List (List Char)} :
    (HasShownUrl block ↔ DropsUrl block) ↔ (HasHiddenUrl block → HasShownUrl block) := by
  rw [dropsUrl_iff]
  constructor
  · rintro sameMark ⟨folded, isFolded, name, isUrl, _⟩
    exact sameMark.mpr ⟨folded, isFolded, name, isUrl⟩
  · intro comesWith
    constructor
    · rintro ⟨folded, isFolded, name, isUrl, _⟩
      exact ⟨folded, isFolded, name, isUrl⟩
    · rintro ⟨folded, isFolded, name, isUrl⟩
      by_cases isHidden : folded.Hides name
      · exact comesWith ⟨folded, isFolded, name, isUrl, isHidden⟩
      · exact ⟨folded, isFolded, name, isUrl, isHidden⟩

/--
Every record of a file is marked right exactly where each of its blocks that
has a hidden URL-valued line has a shown one too.
-/
theorem marks_right_iff (lines : List PhysicalLine) :
    MarksRight toLowerCase lines ↔
      ∀ block ∈ recordBlocks toLowerCase (blocks (lines.map Subtype.val)),
        HasHiddenUrl block → HasShownUrl block := by
  have noFeed :
      ∀ block ∈ recordBlocks toLowerCase (blocks (lines.map Subtype.val)),
        ∀ line ∈ block, '\n' ∉ line := by
    intro block isRecord line isLine
    have isPhysical := mem_of_mem_blocksFrom (mem_of_mem_recordBlocks toLowerCase isRecord) isLine
    rw [nil_append] at isPhysical
    obtain ⟨physical, _, rfl⟩ := mem_map.mp isPhysical
    exact physical.property
  have marked := @recordsFrom_marked toLowerCase .start rfl (lines.map Subtype.val)
  have begins : Stream.start.block = [] := rfl
  rw [begins] at marked
  rw [MarksRight, blocks]
  rw [blocks] at noFeed
  generalize recordBlocks toLowerCase (blocksFrom [] (lines.map Subtype.val)) = pieces at *
  generalize (recordsFrom toLowerCase .start (lines.map Subtype.val)).records = records at *
  induction marked with
  | nil => simp
  | @cons record block records pieces isMarked _ ih =>
    rw [forall_mem_cons] at noFeed
    rw [forall₂_cons, forall_mem_cons]
    refine and_congr ?_ (ih noFeed.2)
    rw [isMarked, ← hasShownUrl_iff noFeed.1, shown_iff_drops_iff]

end

/-- A record whose URL-valued line is folded after the colon. -/
def foldedUrl : List PhysicalLine :=
  [⟨"dn: cn=a".toList, by decide⟩, ⟨"jpegPhoto:".toList, by decide⟩,
    ⟨" < file:///x".toList, by decide⟩]

/-- The codec drops the line and the stream does not mark the record. -/
theorem folded_url_not_marked : ¬MarksRight String.toLower foldedUrl := by
  have pieces :
      recordBlocks String.toLower (blocks (foldedUrl.map Subtype.val)) =
        [foldedUrl.map Subtype.val] := by
    decide +kernel
  have notMarked :
      (recordsFrom String.toLower .start (foldedUrl.map Subtype.val)).records.map Record.url =
        [false] := by
    decide +kernel
  have drops : DropsUrl (foldedUrl.map Subtype.val) := by
    refine ⟨"jpegPhoto:< file:///x".toList, by decide +kernel, by decide, by decide, ?_⟩
    exact ⟨"jpegPhoto".toList, by decide +kernel⟩
  intro marksRight
  rw [MarksRight, pieces, forall₂_cons_right_iff] at marksRight
  obtain ⟨record, rest, isMarked, _, areRecords⟩ := marksRight
  rw [areRecords, map_cons, List.cons.injEq] at notMarked
  exact absurd (isMarked.mpr drops) (by simp [notMarked.1])

end IyaSts.LdifStream
