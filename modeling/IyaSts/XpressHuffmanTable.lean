import IyaSts.CanonicalCode
import IyaSts.XpressHuffman

namespace IyaSts.XpressHuffman

/-!
# The table of a chunk

A table is built exactly from lengths that meet Kraft's equality, and each
pattern decodes to the symbol whose canonical code begins it.
-/

open CanonicalCode List

section Building

variable
    {lengths : Nat → Nat}

theorem lengthOf_le (tableBytes : Buffer) (symbol : Nat) : lengthOf tableBytes symbol ≤ 15 := by
  have isByte := (tableBytes.getD (symbol / 2) 0).toNat_lt
  unfold lengthOf
  dsimp only
  split
  · exact Nat.and_le_right
  · rw [Nat.shiftRight_eq_div_pow]
    omega

/-- The sorted symbols are in the order that codes are handed out. -/
theorem symbolsOf_sorted : Sorted lengths 512 (symbolsOf lengths) := by
  have isOrdered : (symbolsOf lengths).Pairwise fun a b => notAfter lengths a b = true := by
    apply pairwise_mergeSort
    · intro a b c
      simp only [notAfter, decide_eq_true_eq]
      omega
    · intro a b
      simp only [notAfter, Bool.or_eq_true, decide_eq_true_eq]
      omega
  have isCoded : (symbolsOf lengths).Perm (coded lengths 512) := mergeSort_perm _ _
  have distinct : (symbolsOf lengths).Nodup := isCoded.nodup_iff.mpr (nodup_range.filter _)
  refine ⟨?_, isCoded⟩
  apply (isOrdered.and distinct).imp
  rintro a b ⟨notLater, isOther⟩
  simp only [notAfter, decide_eq_true_eq] at notLater
  unfold Before
  omega

/-- What the loop holds of the symbols that have a code. -/
structure Filled (lengths : Nat → Nat) (symbols : List Nat)
    (filling : Filling) : Prop where
  codes : filling.code * 2 ^ (15 - filling.length) = total 15 lengths symbols
  patterns : filling.filled = total 15 lengths symbols
  decodes :
    ∀ before symbol after pattern,
      symbols = before ++ symbol :: after →
      total 15 lengths before ≤ pattern →
      pattern < total 15 lengths before + span 15 lengths symbol →
      filling.decode pattern = symbol

variable {filling : Filling}

/-- A symbol takes the patterns behind those that are taken, if it can. -/
theorem assign_filled {symbols : List Nat} (isFilled : Filled lengths symbols filling)
    {symbol : Nat} (notShorter : filling.length ≤ lengths symbol) (inRange : lengths symbol ≤ 15) :
    (∀ next, assign lengths filling symbol = .ok next →
        Filled lengths (symbols ++ [symbol]) next ∧ next.length = lengths symbol) ∧
      (total 15 lengths (symbols ++ [symbol]) ≤ 2 ^ 15 →
        ∃ next, assign lengths filling symbol = .ok next) := by
  have newLength :
      (if lengths symbol > filling.length then lengths symbol
        else filling.length) = lengths symbol := by
    split <;> omega
  have newStart :
      (if lengths symbol > filling.length then
          filling.code <<< (lengths symbol - filling.length)
        else filling.code) * 2 ^ (15 - lengths symbol) =
        total 15 lengths symbols := by
    rw [← isFilled.codes]
    split
    · rw [Nat.shiftLeft_eq, Nat.mul_assoc, ← Nat.pow_add]
      congr 2
      omega
    · rw [show filling.length = lengths symbol by omega]
  have isSpan : 1 <<< (15 - lengths symbol) = span 15 lengths symbol := by
    rw [Nat.one_shiftLeft]
    rfl
  have isAll : patterns = 2 ^ 15 := rfl
  have isTotal :
      total 15 lengths (symbols ++ [symbol]) =
        total 15 lengths symbols + span 15 lengths symbol := by
    simp
  have inSpan : 2 ^ (15 - lengths symbol) = span 15 lengths symbol := rfl
  unfold assign
  simp only [newLength, isSpan]
  rw [← inSpan, newStart, inSpan, isAll]
  constructor
  · intro next isNext
    split at isNext
    · exact absurd isNext (by simp)
    · rw [← Except.ok.inj isNext]
      refine ⟨⟨?_, ?_, ?_⟩, rfl⟩
      · dsimp only
        rw [Nat.add_mul, newStart, Nat.one_mul, inSpan, isTotal]
      · dsimp only
        rw [isFilled.patterns, isTotal]
      · intro before other after pattern isSplit notBefore inside
        dsimp only
        rcases eq_nil_or_concat after with rfl | ⟨middle, last, rfl⟩
        · obtain ⟨rfl, sameSymbol⟩ := append_inj' isSplit rfl
          obtain rfl := (List.cons.inj sameSymbol).1
          rw [if_pos ⟨notBefore, inside⟩]
        · rw [concat_eq_append, ← cons_append, ← append_assoc] at isSplit
          obtain ⟨isBefore, _⟩ := append_inj' isSplit rfl
          have inFront :
              total 15 lengths before + span 15 lengths other ≤ total 15 lengths symbols := by
            rw [isBefore, total_append, total_cons]
            omega
          rw [if_neg (by omega)]
          exact isFilled.decodes before other middle pattern isBefore notBefore inside
  · intro fits
    rw [if_neg (by omega)]
    exact ⟨_, rfl⟩

/-- The loop hands out every symbol's patterns, if there are enough. -/
theorem assign_all {before rest : List Nat} (isFilled : Filled lengths before filling)
    (notShorter : ∀ symbol ∈ rest, filling.length ≤ lengths symbol)
    (ascend : rest.Pairwise (Before lengths)) (inRange : ∀ symbol ∈ rest, lengths symbol ≤ 15) :
    (∀ last, rest.foldlM (assign lengths) filling = .ok last →
        Filled lengths (before ++ rest) last) ∧
      (total 15 lengths (before ++ rest) ≤ 2 ^ 15 →
        ∃ last, rest.foldlM (assign lengths) filling = .ok last) := by
  induction rest generalizing before filling with
  | nil =>
    rw [append_nil]
    constructor
    · intro last isLast
      rw [foldlM_nil, Fallible.pure_eq_ok_iff] at isLast
      rw [← isLast]
      exact isFilled
    · intro _
      exact ⟨filling, rfl⟩
  | cons symbol rest ih =>
    rw [forall_mem_cons] at notShorter inRange
    rw [pairwise_cons] at ascend
    obtain ⟨isNext, hasNext⟩ := assign_filled isFilled notShorter.1 inRange.1
    have isWhole : before ++ symbol :: rest = before ++ [symbol] ++ rest := by simp
    have restOf (next : Filling)
        (isStep : assign lengths filling symbol = .ok next) :=
      ih (isNext next isStep).1 (fun other isOther => by
          have isBefore := ascend.1 other isOther
          rw [(isNext next isStep).2]
          unfold Before at isBefore
          omega)
        ascend.2 inRange.2
    rw [isWhole, foldlM_cons]
    constructor
    · intro last isLast
      obtain ⟨next, isStep, isLast⟩ := (Fallible.bind_eq_ok_iff _ _ _).mp isLast
      exact (restOf next isStep).1 last isLast
    · intro fits
      have firstFits : total 15 lengths (before ++ [symbol]) ≤ 2 ^ 15 := by
        rw [total_append] at fits
        omega
      obtain ⟨next, isStep⟩ := hasNext firstFits
      obtain ⟨last, isLast⟩ := (restOf next isStep).2 fits
      exact ⟨last, by rw [isStep, Fallible.ok_bind, isLast]⟩

end Building

/-- The lengths of a table that Kraft's equality holds of. -/
def Kraft (tableBytes : Buffer) : Prop := Complete 15 (lengthOf tableBytes) 512

theorem total_symbolsOf (tableBytes : Buffer) :
    total 15 (lengthOf tableBytes) (symbolsOf (lengthOf tableBytes)) =
      total 15 (lengthOf tableBytes) (coded (lengthOf tableBytes) 512) :=
  total_perm symbolsOf_sorted.isCoded

/-- What the loop begins with. -/
theorem filled_nil (lengths : Nat → Nat) (length : Nat) :
    Filled lengths []
      { decode := fun _ => 0, code := 0, length, filled := 0 } := by
  refine ⟨Nat.zero_mul _, rfl, ?_⟩
  intro before symbol after pattern isSplit
  exact absurd isSplit (by simp)

variable {tableBytes : Buffer}

/-- The loop over the sorted symbols of a table. -/
theorem fill_symbols {first : Nat} {others : List Nat}
    (areSymbols : symbolsOf (lengthOf tableBytes) = first :: others) :
    (∀ last,
        (first :: others).foldlM (assign (lengthOf tableBytes))
            { decode := fun _ => 0, code := 0
              length := lengthOf tableBytes first, filled := 0 } = .ok last →
        Filled (lengthOf tableBytes) (first :: others) last) ∧
      (total 15 (lengthOf tableBytes) (first :: others) ≤ 2 ^ 15 →
        ∃ last,
          (first :: others).foldlM (assign (lengthOf tableBytes))
            { decode := fun _ => 0, code := 0
              length := lengthOf tableBytes first, filled := 0 } =
            .ok last) := by
  have sorted := @symbolsOf_sorted (lengthOf tableBytes)
  rw [areSymbols] at sorted
  have notShorter :
      ∀ symbol ∈ first :: others, lengthOf tableBytes first ≤ lengthOf tableBytes symbol := by
    intro symbol isSymbol
    rcases mem_cons.mp isSymbol with rfl | inOthers
    · exact Nat.le_refl _
    · have isBefore := (pairwise_cons.mp sorted.ascend).1 symbol inOthers
      unfold Before at isBefore
      omega
  exact
    assign_all (filled_nil _ _) notShorter sorted.ascend
      fun symbol _ => lengthOf_le tableBytes symbol

/-- A symbol's code, of the chunk whose table this is. -/
def HasCode (tableBytes : Buffer) (symbol pattern : Nat) : Prop :=
  symbol ∈ coded (lengthOf tableBytes) 512 ∧ Begins 15 (lengthOf tableBytes) 512 symbol pattern

/-- A table that is built decodes each pattern to the symbol that begins it. -/
theorem decode_of_build {table : Table} (isBuilt : buildXpressHuffmanTable tableBytes = .ok table) :
    Kraft tableBytes ∧ table.lengths = lengthOf tableBytes ∧
      ∀ pattern < 2 ^ 15,
        HasCode tableBytes (table.decode pattern) pattern ∧
          ∀ other, HasCode tableBytes other pattern → other = table.decode pattern := by
  have sorted := @symbolsOf_sorted (lengthOf tableBytes)
  unfold buildXpressHuffmanTable at isBuilt
  dsimp only at isBuilt
  split at isBuilt
  · exact absurd isBuilt (by simp)
  · rename_i first others areSymbols
    obtain ⟨filling, isFilling, isTable⟩ := (Fallible.bind_eq_ok_iff _ _ _).mp isBuilt
    rw [areSymbols] at sorted
    have isFilled := (fill_symbols areSymbols).1 filling isFilling
    split at isTable
    · exact absurd isTable (by simp)
    · rename_i isWhole
      have isComplete : total 15 (lengthOf tableBytes) (first :: others) = 2 ^ 15 := by
        rw [← isFilled.patterns]
        exact not_not.mp isWhole
      rw [← Except.ok.inj isTable]
      refine ⟨?_, rfl, ?_⟩
      · rw [Kraft, Complete, ← total_symbolsOf, areSymbols]
        exact isComplete
      · intro pattern isPattern
        rw [← isComplete] at isPattern
        obtain ⟨symbol, isSymbol, begins, isOnly⟩ := sorted.exists_begins isPattern
        obtain ⟨before, after, isSplit⟩ := append_of_mem isSymbol
        obtain ⟨notBefore, inside⟩ := (sorted.begins_iff isSplit pattern).mp begins
        have isDecoded := isFilled.decodes before symbol after pattern isSplit notBefore inside
        dsimp only
        rw [isDecoded]
        refine ⟨⟨sorted.isCoded.mem_iff.mp isSymbol, begins⟩, ?_⟩
        rintro other ⟨isOther, otherBegins⟩
        exact isOnly other (sorted.isCoded.mem_iff.mpr isOther) otherBegins

/-- A table is built from lengths that meet Kraft's equality. -/
theorem build_of_kraft (isKraft : Kraft tableBytes) :
    ∃ table, buildXpressHuffmanTable tableBytes = .ok table := by
  have isComplete :
      total 15 (lengthOf tableBytes) (symbolsOf (lengthOf tableBytes)) = 2 ^ 15 :=
    (total_symbolsOf tableBytes).trans isKraft
  cases areSymbols : symbolsOf (lengthOf tableBytes) with
  | nil =>
    rw [areSymbols, total_nil] at isComplete
    exact absurd isComplete (by decide)
  | cons first others =>
    rw [areSymbols] at isComplete
    obtain ⟨isFilled, hasLast⟩ := fill_symbols areSymbols
    obtain ⟨last, isLast⟩ := hasLast (Nat.le_of_eq isComplete)
    have isWhole : last.filled = patterns := by
      rw [(isFilled last isLast).patterns, isComplete]
      rfl
    refine ⟨{ decode := last.decode, lengths := lengthOf tableBytes }, ?_⟩
    unfold buildXpressHuffmanTable
    dsimp only
    rw [areSymbols]
    dsimp only
    rw [isLast, Fallible.ok_bind, if_neg (not_not_intro isWhole)]

end IyaSts.XpressHuffman
