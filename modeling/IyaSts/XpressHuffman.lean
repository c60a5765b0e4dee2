import IyaSts.ByteBuffer
import IyaSts.Fallible

namespace IyaSts.XpressHuffman

/-!
# The decompression of a claims set

LZ77 and Huffman codes in chunks of 64 KiB.  A chunk's table is 512 code
lengths; the bits behind it are read in words of sixteen, and the bytes of a
long match from between the words.
-/

/-- `CLAIMS_MAX_SIZE`. -/
def claimsMaxSize : Nat := 10 * 1024 * 1024

/-! ## A chunk's table -/

/-- `lengths[symbol]`: a symbol's nibble of the table. -/
def lengthOf (tableBytes : Buffer) (symbol : Nat) : Nat :=
  let byte := (tableBytes.getD (symbol / 2) 0).toNat
  if symbol % 2 = 0 then byte &&& 0x0f else byte >>> 4

/-- `decode.length`. -/
def patterns : Nat := 1 <<< 15

/-- What `buildXpressHuffmanTable` returns; `decode` by its indexes. -/
structure Table where
  decode : Nat → Nat
  lengths : Nat → Nat

/-- Where the loop over the sorted symbols stands. -/
structure Filling where
  decode : Nat → Nat
  code : Nat
  length : Nat
  filled : Nat

/-- The order that `symbols.sort` is given. -/
def notAfter (lengths : Nat → Nat) (a b : Nat) : Bool :=
  lengths a < lengths b ∨ lengths a = lengths b ∧ a ≤ b

/-- The symbols that have a length, sorted. -/
def symbolsOf (lengths : Nat → Nat) : List Nat :=
  ((List.range 512).filter fun s => lengths s ≠ 0).mergeSort (notAfter lengths)

/-- One round of the loop: the patterns that a symbol's code begins. -/
def assign (lengths : Nat → Nat) (filling : Filling) (sym : Nat) : Except String Filling :=
  let longer := lengths sym > filling.length
  let code :=
    if longer then
      filling.code <<< (lengths sym - filling.length)
    else
      filling.code
  let length := if longer then lengths sym else filling.length
  let span := 1 <<< (15 - length)
  let start := code * span
  if start + span > patterns then
    .error "krb5: an XPRESS Huffman table that oversubscribes its code space"
  else
    .ok {
      decode := fun pattern =>
        if start ≤ pattern ∧ pattern < start + span then sym
        else filling.decode pattern
      code := code + 1
      length
      filled := filling.filled + span
    }

/-- `buildXpressHuffmanTable`. -/
def buildXpressHuffmanTable (tableBytes : Buffer) : Except String Table :=
  let lengths := lengthOf tableBytes
  match symbolsOf lengths with
  | [] => .error "krb5: an XPRESS Huffman chunk whose table declares no symbol"
  | first :: others => do
    let filling ←
      (first :: others).foldlM (assign lengths)
        { decode := fun _ => 0, code := 0, length := lengths first, filled := 0 }
    if filling.filled ≠ patterns then
      .error ("krb5: an XPRESS Huffman table that is not a complete code (" ++
        s!"{filling.filled} of {patterns} patterns decode)")
    else
      .ok { decode := filling.decode, lengths }

/-! ## The bits and bytes of a chunk -/

section Reading

variable (src : Buffer)

/-- `byteAt`: past the end a byte is zero. -/
def byteAt (p : Nat) : Nat := (src.getD p 0).toNat

/-- `u16At`. -/
def u16At (p : Nat) : Nat := byteAt src p ||| (byteAt src (p + 1) <<< 8)

/-- The variables of `decompressXpressHuffman`. -/
structure State where
  out : Buffer
  outPos : Nat
  inPos : Nat
  bits : Nat
  extra : Int

/-- Bits are used up, and a word follows where less than one is left. -/
def useBits (used : Nat) (state : State) : State :=
  let bits := (state.bits <<< used) % 2 ^ 32
  let extra := state.extra - used
  if extra < 0 then
    { state with
      bits := bits ||| (u16At src state.inPos <<< (-extra).toNat)
      extra := extra + 16
      inPos := state.inPos + 2 }
  else
    { state with bits, extra }

/-- The length in the words behind a byte of 255, and where they end. -/
def wordLengthAt (inPos : Nat) : Except String (Nat × Nat) :=
  let word := u16At src inPos
  let (length, inPos) :=
    if word = 0 then
      (u16At src (inPos + 2) ||| (u16At src (inPos + 4) <<< 16), inPos + 6)
    else
      (word, inPos + 2)
  if length < 15 then
    .error "krb5: an XPRESS Huffman match length that underflows"
  else
    .ok (length - 15, inPos)

/-- The length in the byte of a long match, or in the words behind it. -/
def longLengthAt (inPos : Nat) : Except String (Nat × Nat) :=
  let byte := byteAt src inPos
  if byte = 255 then
    wordLengthAt src (inPos + 1)
  else
    .ok (byte, inPos + 1)

/-- The length of a match, and where the bytes of it end. -/
def matchLengthAt (lengthCode inPos : Nat) : Except String (Nat × Nat) :=
  if lengthCode = 15 then do
    let (length, inPos) ← longLengthAt src inPos
    return (length + 15 + 3, inPos)
  else
    .ok (lengthCode + 3, inPos)

/-- The next symbol, whose code is used up. -/
def takeSymbol (table : Table) (state : State) : Nat × State :=
  let symbol := table.decode (state.bits >>> 17)
  (symbol, useBits src (table.lengths symbol) state)

/-- The distance of a match, whose bits are used up. -/
def takeOffset (offsetBits : Nat) (state : State) : Nat × State :=
  if offsetBits ≠ 0 then
    ((1 <<< offsetBits) + state.bits >>> (32 - offsetBits), useBits src offsetBits state)
  else
    ((1 <<< offsetBits) + 0, state)

/-- The loop that copies a match, byte after byte. -/
def copyMatch (offset : Nat) : Nat → Buffer → Nat → Buffer
  | 0, out, _ => out
  | count + 1, out, outPos =>
    copyMatch offset count (out.set outPos (out.getD (outPos - offset) 0)) (outPos + 1)

/-- A literal is written. -/
def writeLiteral (symbol : Nat) (state : State) : State :=
  { state with
    out := state.out.set state.outPos (UInt8.ofNat symbol)
    outPos := state.outPos + 1 }

/-- A match is written, inside the output. -/
def writeMatch (outputSize offset matchLength : Nat) (state : State) : Except String State :=
  if offset > state.outPos ∨ state.outPos + matchLength > outputSize then
    .error (s!"krb5: an XPRESS Huffman match of {matchLength} byte(s) at " ++
      s!"distance {offset} from output position {state.outPos} reaches " ++
      s!"outside the {outputSize}-byte output")
  else
    .ok { state with
      out := copyMatch offset matchLength state.out state.outPos
      outPos := state.outPos + matchLength }

/-- One round of the inner loop: a literal or a match. -/
def step (table : Table) (outputSize : Nat) (state : State) : Except String State :=
  let (symbol, state) := takeSymbol src table state
  if symbol < 256 then
    .ok (writeLiteral symbol state)
  else do
    let (matchLength, inPos) ←
      matchLengthAt src ((symbol - 256) &&& 15) state.inPos
    let (offset, state) := takeOffset src ((symbol - 256) >>> 4) { state with inPos }
    writeMatch outputSize offset matchLength state

theorem matchLengthAt_pos {lengthCode inPos : Nat} {result : Nat × Nat}
    (isRead : matchLengthAt src lengthCode inPos = .ok result) :
    0 < result.1 := by
  unfold matchLengthAt at isRead
  split at isRead
  · obtain ⟨_, _, isResult⟩ := (Fallible.bind_eq_ok_iff _ _ _).mp isRead
    rw [Fallible.pure_eq_ok_iff] at isResult
    rw [← isResult]
    exact Nat.succ_pos _
  · rw [← Except.ok.inj isRead]
    exact Nat.succ_pos _

theorem useBits_outPos (used : Nat) (state : State) :
    (useBits src used state).outPos = state.outPos := by
  unfold useBits
  dsimp only
  split <;> rfl

theorem takeOffset_outPos (offsetBits : Nat) (state : State) :
    (takeOffset src offsetBits state).2.outPos = state.outPos := by
  unfold takeOffset
  split
  · exact useBits_outPos src offsetBits state
  · rfl

variable {table : Table} {outputSize : Nat} {last : State}

/-- A round writes a byte at least. -/
theorem step_advances {state next : State} (isStep : step src table outputSize state = .ok next) :
    state.outPos < next.outPos := by
  have samePos := useBits_outPos src (table.lengths (table.decode (state.bits >>> 17))) state
  unfold step takeSymbol at isStep
  dsimp only at isStep
  split at isStep
  · rw [← Except.ok.inj isStep]
    dsimp only [writeLiteral]
    omega
  · obtain ⟨⟨matchLength, inPos⟩, isRead, isWritten⟩ := (Fallible.bind_eq_ok_iff _ _ _).mp isStep
    have isPositive := matchLengthAt_pos src isRead
    unfold writeMatch at isWritten
    dsimp only at isWritten isPositive
    split at isWritten
    · exact absurd isWritten (by simp)
    · rw [← Except.ok.inj isWritten]
      dsimp only
      rw [takeOffset_outPos]
      dsimp only
      omega

/-- The inner loop, to the end of a chunk. -/
def inflateChunk (table : Table) (outputSize chunkEnd : Nat)
    (state : State) : Except String State :=
  if state.outPos < chunkEnd then
    match isStep : step src table outputSize state with
    | .error error => .error error
    | .ok next =>
      have := step_advances src isStep
      inflateChunk table outputSize chunkEnd next
  else
    .ok state
  termination_by chunkEnd - state.outPos
  decreasing_by omega

/-- The inner loop stops at the end of its chunk, or past it. -/
theorem inflateChunk_reaches {outputSize chunkEnd : Nat} {state last : State}
    (isRun : inflateChunk src table outputSize chunkEnd state = .ok last) :
    chunkEnd ≤ last.outPos := by
  fun_induction inflateChunk src table outputSize chunkEnd state with
  | case1 state inside error failed => exact absurd isRun (by simp)
  | case2 state inside next isStep advances ih => exact ih isRun
  | case3 state outside =>
    rw [← Except.ok.inj isRun]
    omega

/-- The output of a chunk, unless a match reaches over its end. -/
def chunkSize : Nat := 65536

/-- The variables at the beginning of a chunk, past its table. -/
def chunkStart (out : Buffer) (outPos inPos : Nat) : State where
  out := out
  outPos := outPos
  inPos := inPos + 4
  bits := (u16At src inPos <<< 16) ||| u16At src (inPos + 2)
  extra := 16

/-- One round of the outer loop: a table, and the chunk it is for. -/
def nextChunk (outputSize : Nat) (out : Buffer) (outPos inPos : Nat) : Except String State :=
  if inPos + 260 > src.length then
    .error (s!"krb5: a compressed claims set ends at byte {inPos} with " ++
      s!"{outputSize - outPos} byte(s) still to produce")
  else do
    let table ← buildXpressHuffmanTable ((src.drop inPos).take 256)
    inflateChunk src table outputSize (min (outPos + chunkSize) outputSize)
      (chunkStart src out outPos (inPos + 256))

/-- A chunk writes a byte at least. -/
theorem nextChunk_advances {out : Buffer} {outPos inPos : Nat} (inside : outPos < outputSize)
    (isRun : nextChunk src outputSize out outPos inPos = .ok last) :
    outPos < last.outPos := by
  unfold nextChunk at isRun
  split at isRun
  · exact absurd isRun (by simp)
  · obtain ⟨table, _, isChunk⟩ := (Fallible.bind_eq_ok_iff _ _ _).mp isRun
    have reaches := inflateChunk_reaches src isChunk
    have isPositive : 0 < chunkSize := by decide
    omega

/-- The outer loop: one chunk after the other. -/
def inflate (outputSize : Nat) (out : Buffer) (outPos inPos : Nat) : Except String Buffer :=
  if inside : outPos < outputSize then
    match isRun : nextChunk src outputSize out outPos inPos with
    | .error error => .error error
    | .ok last =>
      have := nextChunk_advances src inside isRun
      inflate outputSize last.out last.outPos last.inPos
  else
    .ok out
  termination_by outputSize - outPos
  decreasing_by omega

end Reading

/-- `decompressXpressHuffman`. -/
def decompressXpressHuffman (input : Buffer) (outputSize : Nat) : Except String Buffer :=
  if ¬outputSize > 0 ∨ outputSize > claimsMaxSize then
    .error ("krb5: a compressed claims set declares an uncompressed size of " ++
      s!"{outputSize} (it must be 1 to {claimsMaxSize})")
  else
    inflate input outputSize (Buffer.alloc outputSize) 0 0

end IyaSts.XpressHuffman
