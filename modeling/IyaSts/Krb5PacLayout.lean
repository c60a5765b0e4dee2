import IyaSts.Krb5NdrAnswers
import IyaSts.Krb5PacSigning

namespace IyaSts.Krb5Pac

/-!
# The octets of an assembled PAC

An assembled PAC is its table and then each entry's octets padded to eight.  The
table states the entries' types and lengths alone, so octets replaced inside an
entry, their number kept, change nothing else; and reading the PAC finds the
entries again.
-/

open CursorCodec List
open Krb5Ndr
open Krb5Profiles

/-! ## The layout -/

/-- Octets padded to a multiple of eight. -/
def padded (bytes : Buffer) : Buffer := bytes ++ Buffer.alloc (padding 8 bytes.length)

/-- The entries' octets, each padded. -/
def body (entries : List PacEntry) : Buffer := entries.flatMap fun e => padded e.bytes

/-- Where the entries of a PAC start. -/
def bodyStart (entries : List PacEntry) : Nat := 8 + entries.length * 16

/-- Each entry where it lands. -/
def placed (entries : List PacEntry) : List PlacedEntry := (place (bodyStart entries) entries).1

/-- The header and the table. -/
def table (entries : List PacEntry) : Buffer := (writeTable (placed entries) createWriter).bytes

/-- The octets of an assembled PAC. -/
def layout (entries : List PacEntry) : Buffer := table entries ++ body entries

@[simp] theorem padding_of_dvd {place : Nat} (divides : place % 8 = 0) : padding 8 place = 0 := by
  simp [padding, divides]

theorem padding_add {place : Nat} (divides : place % 8 = 0) (length : Nat) :
    padding 8 (place + length) = padding 8 length := by
  unfold padding
  omega

@[simp] theorem length_padded (bytes : Buffer) :
    (padded bytes).length = bytes.length + padding 8 bytes.length := by
  simp [padded]

theorem length_padded_mod (bytes : Buffer) : (padded bytes).length % 8 = 0 := by
  rw [length_padded, padding]
  omega

@[simp] theorem body_cons (e : PacEntry) (entries : List PacEntry) :
    body (e :: entries) = padded e.bytes ++ body entries := rfl

@[simp] theorem body_append (before after : List PacEntry) :
    body (before ++ after) = body before ++ body after :=
  flatMap_append

theorem length_body_mod (entries : List PacEntry) : (body entries).length % 8 = 0 := by
  induction entries with
  | nil => rfl
  | cons e entries ih =>
    have := length_padded_mod e.bytes
    rw [body_cons, length_append]
    omega

theorem bodyStart_mod (entries : List PacEntry) : bodyStart entries % 8 = 0 := by
  unfold bodyStart
  omega

/-! ## Where the entries land -/

/-- Placing an entry leaves the next place at a multiple of eight again. -/
theorem place_cons {offset : Nat} (divides : offset % 8 = 0)
    (e : PacEntry) (entries : List PacEntry) :
    place offset (e :: entries) =
      ({ type := e.type, bytes := e.bytes, offset := offset } ::
          (place (offset + (padded e.bytes).length) entries).1,
        (place (offset + (padded e.bytes).length) entries).2) := by
  have next :
      offset + e.bytes.length + padding 8 (offset + e.bytes.length) =
        offset + (padded e.bytes).length := by
    rw [padding_add divides, length_padded, Nat.add_assoc]
  rw [place, next]

theorem place_end (entries : List PacEntry) {offset : Nat} (divides : offset % 8 = 0) :
    (place offset entries).2 = offset + (body entries).length := by
  induction entries generalizing offset with
  | nil => rfl
  | cons e entries ih =>
    have padsEight := length_padded_mod e.bytes
    rw [place_cons divides]
    show (place (offset + (padded e.bytes).length) entries).2 = _
    rw [ih (by omega), body_cons, length_append, Nat.add_assoc]

theorem place_append (before after : List PacEntry) {offset : Nat} (divides : offset % 8 = 0) :
    (place offset (before ++ after)).1 =
      (place offset before).1 ++ (place (offset + (body before).length) after).1 := by
  induction before generalizing offset with
  | nil => rfl
  | cons e before ih =>
    have padsEight := length_padded_mod e.bytes
    rw [cons_append, place_cons divides, place_cons divides, ih (by omega),
      body_cons, length_append, Nat.add_assoc]
    rfl

@[simp] theorem length_place (offset : Nat) (entries : List PacEntry) :
    (place offset entries).1.length = entries.length := by
  induction entries generalizing offset with
  | nil => rfl
  | cons e entries ih => simp [place, ih]

@[simp] theorem length_placed (entries : List PacEntry) :
    (placed entries).length = entries.length :=
  length_place _ _

theorem types_place (offset : Nat) (entries : List PacEntry) :
    (place offset entries).1.map PlacedEntry.type = entries.map PacEntry.type := by
  induction entries generalizing offset with
  | nil => rfl
  | cons e entries ih => simp [place, ih]

/-- An entry among others lands after what comes before it. -/
theorem placed_among (before : List PacEntry) (e : PacEntry) (after : List PacEntry) :
    ∃ earlier later,
      placed (before ++ e :: after) =
          earlier ++
            { type := e.type
              bytes := e.bytes
              offset := bodyStart (before ++ e :: after) + (body before).length } :: later ∧
        earlier.map PlacedEntry.type = before.map PacEntry.type ∧
        later.map PlacedEntry.type = after.map PacEntry.type := by
  have divides := bodyStart_mod (before ++ e :: after)
  have bodyDivides := length_body_mod before
  refine
    ⟨(place (bodyStart (before ++ e :: after)) before).1,
      (place (bodyStart (before ++ e :: after) + (body before).length +
        (padded e.bytes).length) after).1,
      ?_, types_place _ before, types_place _ after⟩
  rw [placed, place_append _ _ divides, place_cons (by omega)]

/-! ## The table -/

/-- What the table states of an entry. -/
def PlacedEntry.row (p : PlacedEntry) : Nat × Nat × Nat := (p.type, p.bytes.length, p.offset)

/-- The shape of an entry: its type and its length. -/
def PacEntry.shape (e : PacEntry) : Nat × Nat := (e.type, e.bytes.length)

theorem rows_of_shapes {entries others : List PacEntry}
    (sameShape : entries.map PacEntry.shape = others.map PacEntry.shape) (offset : Nat) :
    (place offset entries).1.map PlacedEntry.row = (place offset others).1.map PlacedEntry.row := by
  induction entries generalizing others offset with
  | nil =>
    have isNil : others = [] := by simpa using sameShape
    rw [isNil]
  | cons e entries ih =>
    cases others with
    | nil => simp at sameShape
    | cons other others =>
      simp only [map_cons, List.cons.injEq, PacEntry.shape, Prod.mk.injEq] at sameShape
      obtain ⟨⟨sameType, sameLength⟩, sameRest⟩ := sameShape
      simp only [place, map_cons, PlacedEntry.row, sameType, sameLength]
      rw [← ih sameRest]

theorem writeTable_rows (placed : List PlacedEntry) (w : Writer) :
    writeTable placed w =
      ((w.u32 placed.length).u32 0).each (placed.map PlacedEntry.row)
        fun row w => ((w.u32 row.1).u32 row.2.1).u64 row.2.2 0 := by
  rw [writeTable, Writer.each, Writer.each, foldl_map]
  rfl

/-- Entries of one shape have one table. -/
theorem table_of_shapes {entries others : List PacEntry}
    (sameShape : entries.map PacEntry.shape = others.map PacEntry.shape) :
    table entries = table others := by
  have sameLength : entries.length = others.length := by
    have lengths := congrArg List.length sameShape
    simpa using lengths
  rw [table, table, writeTable_rows, writeTable_rows, length_placed, length_placed, sameLength,
    placed, placed, bodyStart, bodyStart, sameLength, rows_of_shapes sameShape]

/-! ### Its length -/

@[simp] theorem length_push (arr : Buffer) (w : Writer) :
    (w.push arr).bytes.length = w.bytes.length + arr.length :=
  length_append

@[simp] theorem length_align (size : Nat) (w : Writer) :
    (w.align size).bytes.length = w.bytes.length + padding size w.bytes.length := by
  simp [Writer.align]

theorem length_u32 (v : Nat) {w : Writer} (aligned : w.bytes.length % 4 = 0) :
    (w.u32 v).bytes.length = w.bytes.length + 4 := by
  simp [Writer.u32, padding, aligned]

theorem length_u64 (lo hi : Nat) {w : Writer} (aligned : w.bytes.length % 8 = 0) :
    (w.u64 lo hi).bytes.length = w.bytes.length + 8 := by
  simp [Writer.u64, aligned]

theorem length_rows (rows : List PlacedEntry) {w : Writer} (aligned : w.bytes.length % 8 = 0) :
    (w.each rows fun p w =>
      ((w.u32 p.type).u32 p.bytes.length).u64 p.offset 0).bytes.length =
        w.bytes.length + rows.length * 16 := by
  induction rows generalizing w with
  | nil => simp [Writer.each]
  | cons p rows ih =>
    have afterType := length_u32 p.type (w := w) (by omega)
    have afterLength := length_u32 p.bytes.length (w := w.u32 p.type) (by omega)
    have afterOffset := length_u64 p.offset 0 (w := (w.u32 p.type).u32 p.bytes.length) (by omega)
    have rest := ih (w := ((w.u32 p.type).u32 p.bytes.length).u64 p.offset 0) (by omega)
    rw [Writer.each] at rest ⊢
    rw [foldl_cons, rest, length_cons]
    omega

@[simp] theorem length_table (entries : List PacEntry) :
    (table entries).length = bodyStart entries := by
  have afterCount : (createWriter.u32 (placed entries).length).bytes.length = 4 := rfl
  have afterVersion := length_u32 0 (w := createWriter.u32 (placed entries).length) (by omega)
  rw [table, writeTable, length_rows _ (by omega), afterVersion, afterCount,
    length_placed, bodyStart]

theorem length_layout (entries : List PacEntry) :
    (layout entries).length = bodyStart entries + (body entries).length := by
  rw [layout, length_append, length_table]

end IyaSts.Krb5Pac
