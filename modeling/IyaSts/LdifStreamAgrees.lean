import IyaSts.Fallible
import IyaSts.LdifStream
import Mathlib.Data.List.Chain

namespace IyaSts.LdifStream

/-!
# Where the two readers of LDIF agree

One reader unfolds the whole text and then looks for empty lines, the other
cuts the text at blank lines and unfolds each piece.  They agree where no line
keeps a carriage return that would change what the pieces are, and no
continuation follows an empty line, which it would continue.
-/

open Fallible PersistenceLdif TextLines List

/-! ## Blocks -/

/-- The blocks of some lines, of which the first has begun. -/
def blocksFrom (block : List (List Char)) :
    List (List Char) → List (List (List Char))
  | [] => [block]
  | line :: rest =>
    if isBlank line then
      block :: blocksFrom [] rest
    else
      blocksFrom (block ++ [line]) rest

/-- The blocks of a text, between its blank lines. -/
def blocks (lines : List (List Char)) : List (List (List Char)) := blocksFrom [] lines

/-- What two lines that follow each other may be. -/
def Follows (line next : List Char) : Prop :=
  (line = [] → next.head? ≠ some ' ') ∧ (line.getLast? = some '\r' → next = [])

/-- Lines that mean the same cut at the blank ones or not. -/
def CleanlyCut (lines : List (List Char)) : Prop :=
  (∀ line ∈ lines, line ≠ ['\r']) ∧ lines.IsChain Follows

instance : DecidableRel Follows := fun line next =>
  inferInstanceAs
    (Decidable ((line = [] → next.head? ≠ some ' ') ∧ (line.getLast? = some '\r' → next = [])))

instance (lines : List (List Char)) : Decidable (CleanlyCut lines) :=
  inferInstanceAs (Decidable ((∀ line ∈ lines, line ≠ ['\r']) ∧ lines.IsChain Follows))

/-- The lines are the blocks with an empty line between each two. -/
def separated : List (List (List Char)) → List (List Char)
  | [] => []
  | [block] => block
  | block :: next :: rest => block ++ [] :: separated (next :: rest)

theorem blocksFrom_ne_nil (block lines : List (List Char)) : blocksFrom block lines ≠ [] := by
  induction lines generalizing block with
  | nil => simp [blocksFrom]
  | cons line rest ih =>
    rw [blocksFrom]
    split
    · simp
    · exact ih _

variable {rest : List (List (List Char))} {lines block : List (List Char)}

theorem separated_cons (block : List (List Char)) (isSome : rest ≠ []) :
    separated (block :: rest) = block ++ [] :: separated rest := by
  cases rest with
  | nil => exact absurd rfl isSome
  | cons next others => rfl

/-- Cutting the lines loses none of them. -/
theorem separated_blocksFrom (block : List (List Char)) (noReturn : ∀ line ∈ lines, line ≠ ['\r']) :
    separated (blocksFrom block lines) = block ++ lines := by
  induction lines generalizing block with
  | nil => simp [blocksFrom, separated]
  | cons line rest ih =>
    rw [forall_mem_cons] at noReturn
    rw [blocksFrom]
    by_cases isEmpty : line = []
    · rw [if_pos (by simp [isBlank, isEmpty]), separated_cons block (blocksFrom_ne_nil _ _),
        ih [] noReturn.2, isEmpty]
      rfl
    · rw [if_neg (by simp [isBlank, isEmpty, noReturn.1]),
        ih _ noReturn.2, append_assoc]
      rfl

/-- No block has an empty line. -/
theorem not_empty_of_mem_block (begun : ∀ line ∈ block, line ≠ []) :
    ∀ one ∈ blocksFrom block lines, ∀ line ∈ one, line ≠ [] := by
  induction lines generalizing block with
  | nil => simpa [blocksFrom] using begun
  | cons line rest ih =>
    rw [blocksFrom]
    split
    · rw [forall_mem_cons]
      exact ⟨begun, ih (by simp)⟩
    · rename_i notBlank
      apply ih
      intro other isOther
      rcases mem_append.mp isOther with inBlock | isLine
      · exact begun other inBlock
      · rw [mem_singleton] at isLine
        rw [isLine]
        rintro rfl
        exact notBlank rfl

/-- A block is found whole among the lines. -/
theorem infix_of_mem_separated {pieces : List (List (List Char))} (isBlock : block ∈ pieces) :
    block <:+: separated pieces := by
  induction pieces with
  | nil => exact absurd isBlock not_mem_nil
  | cons first rest ih =>
    cases rest with
    | nil =>
      rw [mem_singleton] at isBlock
      rw [isBlock]
      exact infix_rfl
    | cons next others =>
      rw [separated_cons first (by simp)]
      rcases mem_cons.mp isBlock with rfl | inRest
      · exact (prefix_append _ _).isInfix
      · exact
          (ih inRest).trans
            ((suffix_cons _ _).trans (suffix_append _ _)).isInfix

/-- Every block but the first comes after an empty line. -/
theorem infix_of_mem_tail {first : List (List Char)} (isBlock : block ∈ rest) :
    [] :: block <:+: separated (first :: rest) := by
  induction rest generalizing first with
  | nil => exact absurd isBlock not_mem_nil
  | cons next others ih =>
    rw [separated_cons first (by simp)]
    rcases mem_cons.mp isBlock with rfl | inOthers
    · have isPrefix : block <+: separated (block :: others) := by
        cases others with
        | nil => exact prefix_rfl
        | cons second more =>
          rw [separated_cons block (by simp)]
          exact prefix_append _ _
      exact ((prefix_cons_inj []).mpr isPrefix).isInfix.trans (suffix_append _ _).isInfix
    · exact
        (ih inOthers).trans
          ((suffix_cons _ _).trans (suffix_append _ _)).isInfix

/-! ## One block -/

/-- A block whose text is cut into its own lines. -/
def Splits (block : List (List Char)) : Prop := block ≠ [] → split (join block) = block

/-- A line before another of its block has no return at its end. -/
theorem stripReturn_of_chain (chain : block.IsChain Follows) (noEmpty : ∀ line ∈ block, line ≠ []) :
    ∀ line ∈ block.dropLast, stripReturn line = line := by
  induction block with
  | nil => simp
  | cons line rest ih =>
    cases rest with
    | nil => simp
    | cons next others =>
      rw [isChain_cons_cons] at chain
      rw [forall_mem_cons] at noEmpty
      have noReturn : line.getLast? ≠ some '\r' := by
        intro isReturn
        exact noEmpty.2 next mem_cons_self (chain.1.2 isReturn)
      rw [dropLast_cons_cons, forall_mem_cons]
      refine ⟨?_, ih chain.2 noEmpty.2⟩
      rw [stripReturn, if_neg noReturn]

/-- Such a block's text is cut into its own lines. -/
theorem splits_of_chain (chain : block.IsChain Follows) (noEmpty : ∀ line ∈ block, line ≠ [])
    (noFeed : ∀ line ∈ block, '\n' ∉ line) :
    Splits block := by
  intro isSome
  have shape := dropLast_append_getLast isSome
  have kept := stripReturn_of_chain chain noEmpty
  have isRead :=
    split_join block.dropLast (block.getLast isSome)
      (fun line isLine => noFeed line (dropLast_subset _ isLine))
      (noFeed _ (getLast_mem isSome))
  rw [map_congr_left kept, map_id'', shape] at isRead
  · exact isRead
  · intro line
    rfl

/-! ## Unfolding the blocks -/

/-- The lines of a block before they were folded. -/
def unfoldBlock (block : List (List Char)) : List (List Char) := block.foldl unfoldLine []

variable (out : List (List Char))

theorem unfoldLine_append {begun : List (List Char)} (isSome : begun ≠ []) (line : List Char) :
    unfoldLine (out ++ begun) line = out ++ unfoldLine begun line ∧ unfoldLine begun line ≠ [] := by
  unfold unfoldLine
  rw [List.getLast?_append_of_ne_nil _ isSome, List.getLast?_eq_some_getLast isSome]
  split
  · rw [dropLast_append_of_ne_nil isSome, append_assoc]
    exact ⟨rfl, by simp⟩
  · rw [append_assoc]
    exact ⟨rfl, by simp⟩

/-- What is unfolded depends on nothing but the line before it. -/
theorem foldl_unfoldLine_append {begun : List (List Char)} (isSome : begun ≠ [])
    (lines : List (List Char)) :
    lines.foldl unfoldLine (out ++ begun) = out ++ lines.foldl unfoldLine begun := by
  induction lines generalizing begun with
  | nil => rfl
  | cons line rest ih =>
    obtain ⟨appended, staysSome⟩ := unfoldLine_append out isSome line
    rw [foldl_cons, foldl_cons, appended, ih staysSome]

/-- Lines that do not begin with a continuation unfold by themselves. -/
theorem foldl_unfoldLine_fresh (isFresh : ∀ line, lines.head? = some line → line.head? ≠ some ' ') :
    lines.foldl unfoldLine out = out ++ unfoldBlock lines := by
  cases lines with
  | nil => simp [unfoldBlock]
  | cons line rest =>
    have notSpace := isFresh line rfl
    have starts (begun : List (List Char)) : unfoldLine begun line = begun ++ [line] := by
      unfold unfoldLine
      split
      · exact absurd rfl notSpace
      · rfl
    rw [unfoldBlock, foldl_cons, foldl_cons, starts, starts,
      foldl_unfoldLine_append out (by simp)]
    rfl

/-- The whole text unfolds to its blocks' lines, an empty one between. -/
theorem unfold_separated (first : List (List Char))
    (areFresh : ∀ block ∈ rest, ∀ line, block.head? = some line → line.head? ≠ some ' ') :
    unfoldBlock (separated (first :: rest)) = separated ((first :: rest).map unfoldBlock) := by
  induction rest generalizing first with
  | nil => rfl
  | cons next others ih =>
    rw [forall_mem_cons] at areFresh
    have restFresh :
        ∀ line, ([] :: separated (next :: others)).head? = some line → line.head? ≠ some ' ' := by
      intro line isHead
      rw [List.head?_cons, Option.some.injEq] at isHead
      rw [← isHead]
      simp
    have nextFresh :
        ∀ line, (separated (next :: others)).head? = some line → line.head? ≠ some ' ' := by
      intro line isHead
      cases others with
      | nil => exact areFresh.1 line isHead
      | cons second more =>
        rw [separated_cons next (by simp)] at isHead
        cases next with
        | nil =>
          rw [nil_append, List.head?_cons, Option.some.injEq] at isHead
          rw [← isHead]
          simp
        | cons one others => exact areFresh.1 line isHead
    have emptyLine :
        unfoldBlock ([] :: separated (next :: others)) =
          [] :: unfoldBlock (separated (next :: others)) := by
      have starts : unfoldLine [] [] = [[]] := rfl
      rw [unfoldBlock, foldl_cons, starts, foldl_unfoldLine_fresh [[]] nextFresh]
      rfl
    rw [separated_cons first (by simp), unfoldBlock, foldl_append,
      foldl_unfoldLine_fresh _ restFresh, emptyLine, ih next areFresh.2]
    rfl

section

variable {toLowerCase : String → String}

/-! ## Reading the blocks -/

/-- Every line of a list, one after the other. -/
abbrev readLines (toLowerCase : String → String) (reader : Reader) (lines : List (List Char)) :
    Except String Reader :=
  lines.foldlM (readLine toLowerCase) reader

/-- The variables with entries and skipped lines that came before. -/
def shift (entries : List StoredEntry) (skipped : Nat) (reader : Reader) : Reader :=
  { reader with
    entries := entries ++ reader.entries
    skipped := skipped + reader.skipped }

variable (entries : List StoredEntry) (skipped : Nat)

theorem finish_shift (reader : Reader) :
    (shift entries skipped reader).finish = shift entries skipped reader.finish := by
  simp [shift, Reader.finish]

theorem entries_finish_shift (reader : Reader) :
    (shift entries skipped reader).finish.entries = entries ++ reader.finish.entries := by
  rw [finish_shift]
  rfl

theorem readValue_shift (reader : Reader) (name value : String) :
    readValue (shift entries skipped reader) name value =
    (readValue reader name value).map (shift entries skipped) := by
  unfold readValue
  split
  · rfl
  split
  · rw [finish_shift]
    rfl
  have sameCurrent : (shift entries skipped reader).current = reader.current := rfl
  rw [sameCurrent]
  cases reader.current with
  | none => simp [shift, Except.map, Nat.add_assoc]
  | some entry =>
    cases added : addValue entry name value <;>
      simp [added, shift, Except.map, bind, Except.bind, pure, Except.pure]

/-- What came before a line changes nothing that the line does. -/
theorem readLine_shift (reader : Reader) (line : List Char) :
    readLine toLowerCase (shift entries skipped reader) line =
    (readLine toLowerCase reader line).map (shift entries skipped) := by
  unfold readLine
  split
  · rw [finish_shift]
    rfl
  split
  · split <;> rfl
  split
  · rfl
  · simp [shift, Except.map, Nat.add_assoc]
  · exact readValue_shift _ _ _ _ _

theorem readLines_shift (entries : List StoredEntry) (skipped : Nat) (reader : Reader)
    (lines : List (List Char)) :
    readLines toLowerCase (shift entries skipped reader) lines =
      (readLines toLowerCase reader lines).map (shift entries skipped) := by
  induction lines generalizing reader with
  | nil => rfl
  | cons line rest ih =>
    rw [readLines, readLines, foldlM_cons, foldlM_cons, readLine_shift]
    cases readLine toLowerCase reader line with
    | error error => rfl
    | ok between => exact ih between

/-- The entries of a block, read by itself. -/
def readBlock (toLowerCase : String → String) (block : List (List Char)) :
    Except String (List StoredEntry) :=
  (readLines toLowerCase .start (unfoldBlock block)).map fun reader => reader.finish.entries

/-- An empty line leaves the variables at the start of the next block. -/
theorem readLine_empty_shift (reader : Reader) :
    readLine toLowerCase (shift entries skipped reader) [] =
      .ok (shift (entries ++ reader.finish.entries) (skipped + reader.skipped) .start) := by
  simp [readLine, shift, Reader.finish, Reader.start]

/-- Blocks with an empty line between each two are read each by itself. -/
theorem readLines_separated (first : List (List Char)) (rest : List (List (List Char)))
    (entries : List StoredEntry) (skipped : Nat) :
    (readLines toLowerCase (shift entries skipped .start)
        (separated ((first :: rest).map unfoldBlock))).map
        (fun reader => reader.finish.entries) =
      ((first :: rest).mapM (readBlock toLowerCase)).map fun groups =>
        entries ++ groups.flatten := by
  induction rest generalizing first entries skipped with
  | nil =>
    have alone : separated ([first].map unfoldBlock) = unfoldBlock first := rfl
    rw [alone, readLines_shift, mapM_cons, readBlock]
    cases readLines toLowerCase .start (unfoldBlock first) with
    | error error => rfl
    | ok reader => simp [Except.map, entries_finish_shift, bind, Except.bind, pure, Except.pure]
  | cons next others ih =>
    have shape :
        separated ((first :: next :: others).map unfoldBlock) =
          unfoldBlock first ++ [] :: separated ((next :: others).map unfoldBlock) :=
      rfl
    rw [shape, readLines, foldlM_append, mapM_cons, readBlock]
    have firstRead := @readLines_shift toLowerCase entries skipped .start (unfoldBlock first)
    rw [readLines] at firstRead
    rw [firstRead]
    cases read : readLines toLowerCase .start (unfoldBlock first) with
    | error error => rfl
    | ok reader =>
      have restRead := ih next (entries ++ reader.finish.entries) (skipped + reader.skipped)
      have step :
          List.foldlM (readLine toLowerCase)
              (shift entries skipped reader)
              ([] :: separated ((next :: others).map unfoldBlock)) =
            readLines toLowerCase
              (shift (entries ++ reader.finish.entries) (skipped + reader.skipped) .start)
              (separated ((next :: others).map unfoldBlock)) := by
        rw [foldlM_cons, readLine_empty_shift]
        rfl
      simp only [Except.map, bind, Except.bind] at restRead ⊢
      rw [step]
      cases mapped : (next :: others).mapM (readBlock toLowerCase) with
      | error error =>
        rw [mapped] at restRead
        simpa using restRead
      | ok groups =>
        rw [mapped] at restRead
        simpa [pure, Except.pure] using restRead

/-! ## What the stream yields of its blocks -/

/-- A record's number, its entry and whether its block has more. -/
def Record.carries (record : Record) : Nat × Entry × Bool :=
  (record.ordinal, record.entry, record.extra)

/-- The records of blocks, counted from a number on, up to one that throws. -/
def yieldOf (ordinal : Nat) :
    List (Except String (List Entry)) → List (Nat × Entry × Bool) × Option String
  | [] => ([], none)
  | .error error :: _ => ([], some error)
  | .ok [] :: rest => yieldOf ordinal rest
  | .ok (entry :: others) :: rest =>
    let (carried, thrown) := yieldOf (ordinal + 1) rest
    ((ordinal + 1, entry, decide (others ≠ [])) :: carried, thrown)

/-- The records of entries, block by block, counted from a number on. -/
def numberedFrom (ordinal : Nat) : List (List Entry) →
    List (Nat × Entry × Bool)
  | [] => []
  | [] :: rest => numberedFrom ordinal rest
  | (entry :: others) :: rest =>
    (ordinal + 1, entry, decide (others ≠ [])) :: numberedFrom (ordinal + 1) rest

theorem yieldOf_ok (ordinal : Nat) (groups : List (List Entry)) :
    yieldOf ordinal (groups.map .ok) = (numberedFrom ordinal groups, none) := by
  induction groups generalizing ordinal with
  | nil => rfl
  | cons group rest ih =>
    cases group with
    | nil => exact ih ordinal
    | cons entry others =>
      rw [map_cons, yieldOf, ih]
      rfl

/-- The stream yields the records of its blocks. -/
theorem recordsFrom_blocks (stream : Stream) (lines : List (List Char)) :
    ((recordsFrom toLowerCase stream lines).records.map Record.carries,
        (recordsFrom toLowerCase stream lines).thrown) =
      yieldOf stream.ordinal ((blocksFrom stream.block lines).map (blockEntries toLowerCase)) := by
  induction lines generalizing stream with
  | nil =>
    rw [recordsFrom, Stream.finish, blocksFrom, map_singleton]
    cases read : blockEntries toLowerCase stream.block with
    | error error => rfl
    | ok entries =>
      cases entries with
      | nil => rfl
      | cons entry others => rfl
  | cons line rest ih =>
    rw [recordsFrom, blocksFrom]
    cases blank : isBlank line with
    | false =>
      simp only [Bool.false_eq_true, if_false]
      exact ih _
    | true =>
      simp only [if_true, map_cons, Stream.finish]
      cases read : blockEntries toLowerCase stream.block with
      | error error => rfl
      | ok entries =>
        cases entries with
        | nil =>
          exact
            ih
              { stream with
                lineNo := stream.lineNo + 1
                block := []
                url := false }
        | cons entry others =>
          have restYield :=
            ih
              { stream with
                lineNo := stream.lineNo + 1
                ordinal := stream.ordinal + 1
                block := []
                url := false }
          rw [Prod.ext_iff] at restYield
          rw [yieldOf]
          simp only [bind, Except.bind, pure, Except.pure, Yield.after, Option.toList_some,
            cons_append, nil_append, map_cons]
          rw [Prod.ext_iff]
          exact ⟨congrArg (List.cons _) restYield.1, restYield.2⟩

variable {block lines : List (List Char)} {reader reader' : Reader} {ordinal : Nat}
    {pieces : List (List (List Char))} {groups : List (List Entry)}

/-- A block whose text is cut into its lines is read by itself. -/
theorem blockEntries_eq (splits : Splits block) :
    blockEntries toLowerCase block =
      (readBlock toLowerCase block).map fun entries => entries.map stamp := by
  unfold blockEntries
  split
  · rename_i isEmpty
    rw [isEmpty]
    rfl
  · rename_i isSome
    rw [parseRecord, fromLdif, unfold, String.toList_ofList, splits isSome,
      readBlock, readLines, unfoldBlock]
    cases List.foldlM (readLine toLowerCase) Reader.start (List.foldl unfoldLine [] block) <;> rfl

/-! ## How many entries a block holds -/

/-- A line that begins an entry. -/
def isDnLine (toLowerCase : String → String) (line : List Char) : Bool :=
  if line.head? = some '#' then
    false
  else
    match parseLine line with
    | some { name, value := some _ } => toLowerCase (String.ofList name) = "dn"
    | _ => false

/-- How many `dn` lines a block holds. -/
def dnCount (toLowerCase : String → String) (block : List (List Char)) : Nat :=
  (unfoldBlock block).countP (isDnLine toLowerCase)

/-- The entries begun so far. -/
def begun (reader : Reader) : Nat := (reader.entries ++ reader.current.toList).length

theorem begun_finish (reader : Reader) : begun reader.finish = begun reader := by
  simp [begun, Reader.finish]

/-- A line begins an entry when it is a `dn` line, and no other does. -/
theorem readLine_begun {line : List Char}
    (isRead : readLine toLowerCase reader line = .ok reader') :
    begun reader' = begun reader + if isDnLine toLowerCase line then 1 else 0 := by
  have emptyNoDn : isDnLine toLowerCase [] = false := rfl
  unfold readLine at isRead
  split at isRead
  · rename_i isEmpty
    rw [Except.ok.injEq] at isRead
    rw [isEmpty, emptyNoDn, ← isRead]
    exact begun_finish reader
  split at isRead
  · rename_i isComment
    have noDn : isDnLine toLowerCase line = false := by rw [isDnLine, if_pos isComment]
    rw [noDn]
    split at isRead <;> (rw [Except.ok.injEq] at isRead; subst isRead; rfl)
  rename_i notComment
  rw [isDnLine, if_neg notComment]
  split at isRead
  · rename_i notParsed
    rw [Except.ok.injEq] at isRead
    rw [notParsed, isRead]
    rfl
  · rename_i name parsed
    rw [Except.ok.injEq] at isRead
    rw [parsed, ← isRead]
    rfl
  rename_i name value parsed
  rw [parsed]
  unfold readValue at isRead
  split at isRead
  · rename_i isVersion
    rw [Except.ok.injEq] at isRead
    simp [isVersion, isRead]
  split at isRead
  · rename_i isDn
    rw [Except.ok.injEq] at isRead
    simp [isDn, ← isRead, begun, Reader.finish]
    omega
  rename_i notDn
  simp only [notDn, decide_false, Bool.false_eq_true, if_false, Nat.add_zero]
  split at isRead
  · rw [Except.ok.injEq] at isRead
    subst isRead
    rfl
  rename_i entry isCurrent
  rw [bind_eq_ok_iff] at isRead
  obtain ⟨entry', _, isRead⟩ := isRead
  rw [pure_eq_ok_iff] at isRead
  subst isRead
  simp [begun, isCurrent]

theorem readLines_begun (areRead : readLines toLowerCase reader lines = .ok reader') :
    begun reader' = begun reader + lines.countP (isDnLine toLowerCase) := by
  induction lines generalizing reader with
  | nil =>
    rw [readLines, foldlM_nil, pure_eq_ok_iff] at areRead
    rw [areRead]
    rfl
  | cons line rest ih =>
    rw [readLines, foldlM_cons, bind_eq_ok_iff] at areRead
    obtain ⟨between, isRead, restRead⟩ := areRead
    rw [ih restRead, readLine_begun isRead, countP_cons]
    omega

/-- A block has an entry for each of its `dn` lines. -/
theorem length_readBlock {entries : List StoredEntry}
    (isRead : readBlock toLowerCase block = .ok entries) :
    entries.length = dnCount toLowerCase block := by
  unfold readBlock at isRead
  cases areRead :
      readLines toLowerCase .start (unfoldBlock block) with
  | error error =>
    rw [areRead] at isRead
    exact absurd isRead (by simp [Except.map])
  | ok reader =>
    rw [areRead] at isRead
    simp only [Except.map, Except.ok.injEq] at isRead
    have count := readLines_begun areRead
    have startCount : begun Reader.start = 0 := rfl
    rw [startCount, Nat.zero_add] at count
    rw [← isRead, dnCount, ← count, begun]
    rfl

/-! ## The whole text and its blocks -/

/-- What holds of lines that follow each other holds in a piece of them. -/
theorem chain_of_piece {lines piece : List (List Char)} (chain : lines.IsChain Follows)
    (isPiece : piece <:+: lines) :
    piece.IsChain Follows := by
  obtain ⟨before, after, whole⟩ := isPiece
  rw [← whole] at chain
  exact chain.left_of_append.right_of_append

/-- The blocks of cleanly cut lines are cut, fresh and of no empty line. -/
theorem splits_of_mem_blocks {text : List Char} (clean : CleanlyCut (split text))
    (isBlock : block ∈ blocks (split text)) :
    Splits block := by
  have whole : separated (blocks (split text)) = split text := by
    rw [blocks, separated_blocksFrom [] clean.1, nil_append]
  have inText : block <:+: split text := by
    rw [← whole]
    exact infix_of_mem_separated isBlock
  apply splits_of_chain
  · exact chain_of_piece clean.2 inText
  · exact not_empty_of_mem_block (by simp) block isBlock
  · intro line isLine
    exact not_mem_line (inText.subset isLine)

/-- No block after an empty line begins with a continuation. -/
theorem fresh_of_mem_tail (clean : CleanlyCut lines) {first : List (List Char)}
    {rest : List (List (List Char))} (areBlocks : blocks lines = first :: rest) :
    ∀ block ∈ rest, ∀ line, block.head? = some line → line.head? ≠ some ' ' := by
  intro block isBlock line isHead
  have whole : separated (first :: rest) = lines := by
    rw [← areBlocks, blocks, separated_blocksFrom [] clean.1, nil_append]
  have inText : [] :: block <:+: lines := by
    rw [← whole]
    exact infix_of_mem_tail isBlock
  have chain := chain_of_piece clean.2 inText
  cases block with
  | nil => exact absurd isHead (by simp)
  | cons begins others =>
    rw [List.head?_cons, Option.some.injEq] at isHead
    rw [isChain_cons_cons] at chain
    rw [← isHead]
    exact chain.1.1 rfl

/-- The whole text is read block by block. -/
theorem fromLdif_blocks {text : String} (clean : CleanlyCut (split text.toList)) :
    fromLdif toLowerCase text =
      ((blocks (split text.toList)).mapM (blockEntries toLowerCase)).map List.flatten := by
  rw [mapM_congr_of_mem fun block isBlock =>
    blockEntries_eq (splits_of_mem_blocks clean isBlock), mapM_map_result]
  have whole := separated_blocksFrom [] clean.1
  rw [nil_append] at whole
  cases areBlocks : blocks (split text.toList) with
  | nil => exact absurd areBlocks (blocksFrom_ne_nil _ _)
  | cons first rest =>
    rw [← blocks, areBlocks] at whole
    have unfolded := unfold_separated first (fresh_of_mem_tail clean areBlocks)
    have isRead := @readLines_separated toLowerCase first rest [] 0
    have fromStart : shift [] 0 .start = .start := rfl
    rw [whole] at unfolded
    rw [← unfolded, fromStart] at isRead
    rw [fromLdif, unfold, ← unfoldBlock]
    cases areRead :
        readLines toLowerCase .start
          (unfoldBlock (split text.toList)) with
    | error error =>
      rw [areRead] at isRead
      rw [readLines] at areRead
      rw [areRead]
      cases mapped : (first :: rest).mapM (readBlock toLowerCase) with
      | error other =>
        rw [mapped] at isRead
        exact congrArg Except.error (Except.error.inj isRead)
      | ok groups =>
        rw [mapped] at isRead
        cases isRead
    | ok reader =>
      rw [areRead] at isRead
      rw [readLines] at areRead
      rw [areRead]
      cases mapped : (first :: rest).mapM (readBlock toLowerCase) with
      | error other =>
        rw [mapped] at isRead
        cases isRead
      | ok groups =>
        rw [mapped] at isRead
        have sameEntries : reader.finish.entries = groups.flatten := Except.ok.inj isRead
        have stamped :
            (groups.map (List.map stamp)).flatten = groups.flatten.map stamp :=
          map_flatten.symm
        simp only [Except.map, bind, Except.bind, pure, Except.pure]
        rw [sameEntries, stamped]

/-- What is yielded of blocks that are read is numbered and whole. -/
theorem yieldOf_of_mapM_ok (areRead : pieces.mapM (blockEntries toLowerCase) = .ok groups) :
    yieldOf ordinal (pieces.map (blockEntries toLowerCase)) =
      (numberedFrom ordinal groups, none) := by
  have eachRead : pieces.map (blockEntries toLowerCase) = groups.map .ok := by
    rw [mapM_eq_ok_iff] at areRead
    induction areRead with
    | nil => rfl
    | cons isRead _ ih => rw [map_cons, map_cons, isRead, ih]
  rw [eachRead]
  exact yieldOf_ok ordinal groups

/-- A block that is not read ends the stream with its error. -/
theorem yieldOf_of_mapM_error {error : String}
    (isRefused : pieces.mapM (blockEntries toLowerCase) = .error error) :
    (yieldOf ordinal (pieces.map (blockEntries toLowerCase))).2 = some error := by
  induction pieces generalizing ordinal with
  | nil => cases isRefused
  | cons block rest ih =>
    rw [mapM_cons, bind_eq_error_iff] at isRefused
    rw [map_cons]
    rcases isRefused with isRefused | ⟨entries, isRead, restRefused⟩
    · rw [isRefused]
      rfl
    · rw [bind_eq_error_iff] at restRefused
      rcases restRefused with restRefused | ⟨others, _, never⟩
      · rw [isRead]
        cases entries with
        | nil => exact ih restRefused
        | cons entry others => exact ih restRefused
      · exact absurd never (pure_ne_error _ _)

/-- Each block holds an entry for each of its `dn` lines. -/
theorem dnCount_of_blockEntries (splits : Splits block) {group : List Entry}
    (isRead : blockEntries toLowerCase block = .ok group) :
    group.length = dnCount toLowerCase block := by
  rw [blockEntries_eq splits] at isRead
  cases read : readBlock toLowerCase block with
  | error error =>
    rw [read] at isRead
    cases isRead
  | ok entries =>
    rw [read] at isRead
    simp only [Except.map, Except.ok.injEq] at isRead
    rw [← isRead, length_map]
    exact length_readBlock read

/-- Blocks that are read are read one by one, each with its entries. -/
theorem blocks_counted (eachSplits : ∀ block ∈ pieces, Splits block)
    (areRead : pieces.mapM (blockEntries toLowerCase) = .ok groups) :
    List.Forall₂
      (fun block group =>
        blockEntries toLowerCase block = .ok group ∧ group.length = dnCount toLowerCase block)
      pieces groups := by
  rw [mapM_eq_ok_iff] at areRead
  induction areRead with
  | nil => exact .nil
  | cons isRead _ ih =>
    rw [forall_mem_cons] at eachSplits
    exact
      .cons ⟨isRead, dnCount_of_blockEntries eachSplits.1 isRead⟩ (ih eachSplits.2)

/--
Both readers fail, or the stream carries the entries of the whole text: a
record for each block that holds one, the first entry of the block, numbered,
and marked when the block has another `dn` line.
-/
def ReadAlike (toLowerCase : String → String) (text : String) : Prop :=
  (∃ error,
    fromLdif toLowerCase text = .error error ∧ (records toLowerCase text).thrown = some error) ∨
  ∃ groups,
    fromLdif toLowerCase text = .ok groups.flatten ∧
      List.Forall₂
        (fun block group =>
          blockEntries toLowerCase block = .ok group ∧ group.length = dnCount toLowerCase block)
        (blocks (split text.toList)) groups ∧
      (records toLowerCase text).thrown = none ∧
      (records toLowerCase text).records.map Record.carries = numberedFrom 0 groups

end

end IyaSts.LdifStream
