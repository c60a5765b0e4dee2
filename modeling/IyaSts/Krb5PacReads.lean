import IyaSts.Fallible
import IyaSts.Krb5PacLayout

namespace IyaSts.Krb5Pac

/-!
# Assembling and reading back

`assemblePac` writes the layout of its entries, and `parsePac` reads a layout
within the reader's limits as those entries, each where it landed.
-/

open CursorCodec List
open Krb5Ndr
open Krb5Profiles

/-! ## Octets set in place -/

/-- Octets set over as many others. -/
theorem setAt_among (start old sig rest : Buffer) (sameLength : sig.length = old.length) {at_ : Nat}
    (isStart : at_ = start.length) :
    setAt (start ++ old ++ rest) sig at_ = .ok (start ++ sig ++ rest) := by
  subst isStart
  have inside : ¬ (start ++ old ++ rest).length < start.length + sig.length := by
    simp only [length_append]
    omega
  have before : (start ++ old ++ rest).take start.length = start := by
    rw [append_assoc, take_left]
  have after : (start ++ old ++ rest).drop (start.length + sig.length) = rest := by
    rw [sameLength, ← length_append, drop_left]
  rw [setAt, if_neg inside, before, after]

theorem alloc_add (first rest : Nat) :
    Buffer.alloc (first + rest) = Buffer.alloc first ++ Buffer.alloc rest :=
  (replicate_append_replicate).symm

/-- Setting each entry where it was placed writes the body over zeros. -/
theorem setAt_each (entries : List PacEntry) (start : Buffer) (divides : start.length % 8 = 0) :
    (place start.length entries).1.foldlM
        (fun out p => setAt out p.bytes p.offset)
        (start ++ Buffer.alloc (body entries).length) =
      .ok (start ++ body entries) := by
  induction entries generalizing start with
  | nil => simp [place, body, Buffer.alloc, pure, Except.pure]
  | cons e entries ih =>
    have padsEight := length_padded_mod e.bytes
    have zeros :
        Buffer.alloc (body (e :: entries)).length =
          Buffer.alloc e.bytes.length ++
            (Buffer.alloc (padding 8 e.bytes.length) ++ Buffer.alloc (body entries).length) := by
      rw [← alloc_add, ← alloc_add, body_cons, length_append, length_padded, Nat.add_assoc]
    have set :=
      setAt_among start (Buffer.alloc e.bytes.length) e.bytes
        (Buffer.alloc (padding 8 e.bytes.length) ++ Buffer.alloc (body entries).length)
        (Buffer.length_alloc _).symm rfl
    have nextStart :
        start.length + (padded e.bytes).length = (start ++ padded e.bytes).length :=
      length_append.symm
    have rest := ih (start ++ padded e.bytes) (by rw [length_append]; omega)
    rw [place_cons divides, foldlM_cons, zeros, ← append_assoc, set, nextStart]
    have shape :
        start ++ e.bytes ++
            (Buffer.alloc (padding 8 e.bytes.length) ++ Buffer.alloc (body entries).length) =
          start ++ padded e.bytes ++ Buffer.alloc (body entries).length := by
      simp [padded]
    rw [shape]
    show List.foldlM _ _ _ = _
    rw [rest, body_cons, append_assoc]

/-- Assembling writes the layout. -/
theorem assemblePac_eq (entries : List PacEntry) :
    assemblePac entries =
      .ok { bytes := layout entries, placed := placed entries } := by
  have divides := bodyStart_mod entries
  have starts :
      8 + entries.length * 16 + padding 8 (8 + entries.length * 16) = bodyStart entries := by
    rw [padding_of_dvd (by omega), bodyStart, Nat.add_zero]
  have ends := place_end entries divides
  have zeros :
      Buffer.alloc (place (bodyStart entries) entries).2 =
        [] ++ Buffer.alloc (bodyStart entries) ++ Buffer.alloc (body entries).length := by
    rw [ends, alloc_add, nil_append]
  have header :
      setAt ([] ++ Buffer.alloc (bodyStart entries) ++
          Buffer.alloc (body entries).length) (table entries) 0 =
        .ok ([] ++ table entries ++ Buffer.alloc (body entries).length) :=
    setAt_among [] _ _ _ (by rw [length_table, Buffer.length_alloc]) rfl
  have bodies := setAt_each entries (table entries) (by rw [length_table]; exact divides)
  rw [length_table] at bodies
  unfold assemblePac
  simp only [starts, zeros]
  show (setAt _ (table entries) 0 >>= _) = _
  rw [header, nil_append, Fallible.ok_bind]
  rw [bodies]
  rfl

/-! ## Reading back -/

section

variable {Value : Type}
variable (parseContent : Nat → Buffer → Except String (Option Value))

/-- The entry read where one was placed. -/
def entryAt (p : PlacedEntry) : PacBuffer Value where
  type := p.type
  typeName := bufferTypeName p.type
  size := p.bytes.length
  offset := p.offset
  bytes := some p.bytes
  parsed := none
  error := none

/-- The entry read and parsed where one was placed. -/
def bufferAt (p : PlacedEntry) : PacBuffer Value := (parseEntry parseContent (entryAt p)).1

/-- What the table must state of an entry to be read back. -/
structure Readable (all : Buffer) (p : PlacedEntry) : Prop where
  type_lt : p.type < 2 ^ 32
  aligned : p.offset % 8 = 0
  inside : p.offset + p.bytes.length ≤ all.length
  bytes_eq : (all.drop p.offset).take p.bytes.length = p.bytes

variable {all : Buffer} {entries : List PacEntry}

/-- A row of the table reads as the entry it was written for. -/
theorem readEntry_reads {p : PlacedEntry} (readable : Readable all p)
    (fits : all.length ≤ maxNdrBytes) (i : Nat) :
    Reads
      (fun w => ((w.u32 p.type).u32 p.bytes.length).u64 p.offset 0)
      (readEntry all i)
      (some ((entryAt p : PacBuffer Value), [])) := by
  have inside := readable.inside
  have typeWord : p.type % 2 ^ 32 = p.type := Nat.mod_eq_of_lt readable.type_lt
  have sizeWord : p.bytes.length % 2 ^ 32 = p.bytes.length := by
    apply Nat.mod_eq_of_lt
    simp only [maxNdrBytes] at fits
    omega
  have offsetWord : p.offset % 2 ^ 32 = p.offset := by
    apply Nat.mod_eq_of_lt
    simp only [maxNdrBytes] at fits
    omega
  have value : U64.value { low := p.offset, high := 0 % 2 ^ 32 } = p.offset := by simp [U64.value]
  have within : ¬ (0 % 2 ^ 32 ≠ 0 ∨ all.length < p.offset + p.bytes.length) := by omega
  have reads :
      Reads
        (fun w => ((w.u32 p.type).u32 p.bytes.length).u64 p.offset 0)
        (readEntry all i)
        ((some (p.type % 2 ^ 32)).bind fun _ =>
          (some (p.bytes.length % 2 ^ 32)).bind fun _ =>
            (some (U64.mk (p.offset % 2 ^ 32) (0 % 2 ^ 32))).bind fun _ =>
              some ((entryAt p : PacBuffer Value), [])) := by
    refine
      (u32_reads p.type).bind
        ((u32_extends p.bytes.length).andThen (u64_extends p.offset 0))
        fun ulType isType =>
          (u32_reads p.bytes.length).bind (u64_extends p.offset 0)
            fun cbBufferSize isSize => (u64_reads p.offset 0).bind_read fun off isOffset => ?_
    rw [typeWord] at isType
    rw [sizeWord] at isSize
    rw [offsetWord] at isOffset
    cases isType
    cases isSize
    cases isOffset
    dsimp only
    rw [value, if_neg within, readable.bytes_eq, if_neg (by simpa using readable.aligned)]
    exact Answers.pure _
  exact reads

/-- Each entry of a body can be read back from it. -/
theorem readable_of_mem (entries : List PacEntry) (start : Buffer) (divides : start.length % 8 = 0)
    (typesFit : ∀ e ∈ entries, e.type < 2 ^ 32) :
    ∀ p ∈ (place start.length entries).1, Readable (start ++ body entries) p := by
  induction entries generalizing start with
  | nil =>
    intro p isPlaced
    cases isPlaced
  | cons e entries ih =>
    have padsEight := length_padded_mod e.bytes
    intro p isPlaced
    rw [place_cons divides] at isPlaced
    cases isPlaced with
    | head =>
      have inside : e.bytes.length ≤ (padded e.bytes).length := by
        rw [length_padded]
        omega
      refine ⟨typesFit e mem_cons_self, divides, ?_, ?_⟩
      · rw [length_append, body_cons, length_append]
        show start.length + e.bytes.length ≤ _
        omega
      · show ((start ++ body (e :: entries)).drop start.length).take e.bytes.length = e.bytes
        rw [drop_left, body_cons, padded, append_assoc, take_left]
    | tail _ isLater =>
      have readable :=
        ih (start ++ padded e.bytes)
          (by rw [length_append]; omega)
          (fun e isEntry => typesFit e (mem_cons_of_mem _ isEntry))
      rw [length_append, append_assoc] at readable
      exact readable p isLater

/-- The entries of a PAC that the reader takes. -/
structure WithinLimits (entries : List PacEntry) : Prop where
  some_entry : entries ≠ []
  few : entries.length ≤ maxBuffers
  types_lt : ∀ e ∈ entries, e.type < 2 ^ 32
  short : (layout entries).length ≤ maxNdrBytes

theorem forall₂_range {α : Type} {Related : Nat → α → Prop} {items : List α}
    (related : ∀ i, ∀ item ∈ items, Related i item) :
    List.Forall₂ Related (List.range items.length) items := by
  rw [forall₂_iff_get]
  refine ⟨length_range, fun i _ inside => ?_⟩
  exact related _ _ (get_mem items ⟨i, inside⟩)

theorem rows_extend (rows : List PlacedEntry) :
    Extends fun w =>
      w.each rows fun p w =>
        ((w.u32 p.type).u32 p.bytes.length).u64 p.offset 0 :=
  each_extends fun p _ =>
    ((u32_extends p.type).andThen (u32_extends p.bytes.length)).andThen (u64_extends p.offset 0)

/-- The table of a layout reads as the entries where they landed. -/
theorem readTable_reads {entries : List PacEntry} (within : WithinLimits entries) :
    Reads (writeTable (placed entries)) (readTable (layout entries))
      (some (0, (placed entries).map fun p =>
        ((entryAt p : PacBuffer Value), []))) := by
  have positive : entries.length ≠ 0 := by simpa [length_eq_zero_iff] using within.some_entry
  have few : ¬ maxBuffers < entries.length := Nat.not_lt.mpr within.few
  have longEnough : ¬ (layout entries).length < 8 + entries.length * 16 := by
    rw [length_layout, bodyStart]
    omega
  have countWord : (placed entries).length % 2 ^ 32 = entries.length := by
    have := within.few
    rw [length_placed]
    apply Nat.mod_eq_of_lt
    simp only [maxBuffers] at this
    omega
  have readable :=
    readable_of_mem entries (table entries)
      (by rw [length_table]; exact bodyStart_mod entries) within.types_lt
  rw [length_table] at readable
  have rows :
      Reads
        (fun w => w.each (placed entries) fun p w =>
          ((w.u32 p.type).u32 p.bytes.length).u64 p.offset 0)
        ((List.range entries.length).mapM (readEntry (layout entries)))
        ((placed entries).mapM fun p =>
          some ((entryAt p : PacBuffer Value), [])) := by
    rw [← length_placed entries]
    exact Answers.each (forall₂_range fun i p isPlaced =>
      readEntry_reads (readable p isPlaced) within.short i)
  have allRows :
      ((placed entries).mapM fun p =>
          some ((entryAt p : PacBuffer Value), ([] : List String))) =
        some ((placed entries).map fun p => (entryAt p, [])) :=
    mapM_pure
  rw [allRows] at rows
  have reads :
      Reads (writeTable (placed entries)) (readTable (layout entries))
        ((some ((placed entries).length % 2 ^ 32)).bind fun _ =>
          (some (0 % 2 ^ 32)).bind fun _ =>
            (some ((placed entries).map fun p =>
              ((entryAt p : PacBuffer Value), []))).bind fun table =>
                some (0, table)) := by
    refine
      (u32_reads _).bind ((u32_extends 0).andThen (rows_extend _))
        fun cBuffers isCount => (u32_reads 0).bind (rows_extend _) fun version isVersion => ?_
    rw [countWord] at isCount
    cases isCount
    cases isVersion
    rw [if_neg positive, if_neg few, if_neg longEnough]
    exact rows.bind_read fun table _ =>
      Answers.pure ((0, table) : Nat × List (PacBuffer Value × List String))
  exact reads

/-- A layout within the limits is read back. -/
theorem parsePac_layout (within : WithinLimits entries) :
    ∃ pac,
      parsePac parseContent (layout entries) = .ok pac ∧
        pac.raw = layout entries ∧
        pac.buffers = (placed entries).map (bufferAt parseContent) := by
  have notLong : ¬ maxNdrBytes < (layout entries).length := Nat.not_lt.mpr within.short
  have tableReads := @readTable_reads Value entries within
  have reads := tableReads.reads createWriter [] (body entries) rfl within.short
  have read :
      readStream (readTable (layout entries)) (layout entries) =
        .ok (0, (placed entries).map fun p =>
          ((entryAt p : PacBuffer Value), [])) := by
    rw [readStream, if_neg notLong]
    exact congrArg (Except.map Prod.fst) reads
  rw [parsePac, read]
  refine ⟨_, rfl, rfl, ?_⟩
  simp only [map_map]
  rfl

/-! ## Beyond the limits -/

/-- A PAC longer than the reader takes is not read. -/
theorem parsePac_tooLong (tooLong : maxNdrBytes < all.length) (pac : Pac Value) :
    parsePac parseContent all ≠ .ok pac := by
  intro reads
  unfold parsePac at reads
  obtain ⟨table, readsTable, _⟩ := (Fallible.bind_eq_ok_iff _ _ _).mp reads
  rw [readStream, if_pos tooLong] at readsTable
  cases readsTable

/-- The octets of an entry are octets of the layout. -/
theorem length_le_layout {e : PacEntry} (isEntry : e ∈ entries) :
    e.bytes.length + bodyStart entries ≤ (layout entries).length := by
  obtain ⟨before, after, rfl⟩ := append_of_mem isEntry
  rw [length_layout, body_append, body_cons, length_append, length_append, length_padded]
  omega

/-- A layout of more entries than the reader takes is not read. -/
theorem parsePac_tooMany (tooMany : maxBuffers < entries.length) (isWord : entries.length < 2 ^ 32)
    (pac : Pac Value) :
    parsePac parseContent (layout entries) ≠ .ok pac := by
  by_cases tooLong : maxNdrBytes < (layout entries).length
  · exact parsePac_tooLong parseContent tooLong pac
  have positive : entries.length ≠ 0 := by
    simp only [maxBuffers] at tooMany
    omega
  have countWord : (placed entries).length % 2 ^ 32 = entries.length := by
    rw [length_placed, Nat.mod_eq_of_lt isWord]
  have fails :
      Reads (writeTable (placed entries))
        (readTable (layout entries) : NdrReading (Nat × List (PacBuffer Value × List String)))
        ((some ((placed entries).length % 2 ^ 32)).bind fun _ =>
          (some (0 % 2 ^ 32)).bind fun _ => none) := by
    refine
      (u32_reads _).bind ((u32_extends 0).andThen (rows_extend _))
        fun cBuffers isCount => (u32_reads 0).bind (rows_extend _) fun version _ => ?_
    rw [countWord] at isCount
    cases isCount
    rw [if_neg positive, if_pos tooMany]
    exact Answers.throw (rows_extend _) _
  have notRead := fails.reads createWriter [] (body entries) rfl (Nat.le_of_not_lt tooLong)
  intro reads
  unfold parsePac at reads
  obtain ⟨table, readsTable, _⟩ := (Fallible.bind_eq_ok_iff _ _ _).mp reads
  rw [readStream, if_neg tooLong] at readsTable
  cases isRead :
      (readTable (layout entries) :
        NdrReading (Nat × List (PacBuffer Value × List String)))
        (layout entries) 0 with
  | error failure =>
    rw [isRead] at readsTable
    cases readsTable
  | ok result => exact notRead result isRead

end

end IyaSts.Krb5Pac
