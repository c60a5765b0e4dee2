import IyaSts.Krb5PacSlots

namespace IyaSts.Krb5Pac

/-!
# Zeroing the signatures of a PAC that was read

Reading a signed PAC finds each slot's signature where it was written, and
zeroing the signatures of a type in the octets gives the layout with that slot's
value zero.
-/

open CursorCodec List
open Krb5Ndr
open Krb5Profiles

/-- The loop zeroes the octets it ranges over. -/
theorem zeroRegion_among (start old rest : Buffer) :
    zeroRegion (start ++ old ++ rest) start.length old.length =
      start ++ Buffer.alloc old.length ++ rest := by
  have rounds (done : Nat) (within : done ≤ old.length) :
      zeroRegion (start ++ old ++ rest) start.length done =
        start ++ (Buffer.alloc done ++ old.drop done) ++ rest := by
    induction done with
    | zero => rfl
    | succ done ih =>
      have inside : done < old.length := within
      have next := ih (Nat.le_of_lt inside)
      have split : old.drop done = old.get ⟨done, inside⟩ ::
          old.drop (done + 1) :=
        drop_eq_getElem_cons inside
      rw [zeroRegion] at next ⊢
      rw [range_succ, foldl_append, next, foldl_cons, foldl_nil, split]
      have setHere :
          (Buffer.alloc done ++
              old.get ⟨done, inside⟩ :: old.drop (done + 1)).set done 0 =
            Buffer.alloc (done + 1) ++ old.drop (done + 1) := by
        have atEnd :=
          set_append_right (s := Buffer.alloc done)
            (t := old.get ⟨done, inside⟩ :: old.drop (done + 1)) done
            (0 : UInt8) (by simp)
        rw [atEnd, Buffer.length_alloc, Nat.sub_self, set_cons_zero,
          alloc_add, append_assoc]
        rfl
      rw [append_assoc, set_append_right _ _ (by omega), Nat.add_sub_cancel_left,
        set_append_left _ _ (by simp; omega), setHere, ← append_assoc]
  have whole := rounds old.length (Nat.le_refl _)
  rw [drop_length, append_nil] at whole
  exact whole

section

variable {Value : Type}
variable (parseContent : Nat → Buffer → Except String (Option Value))
variable {signing : Signing}

/-- A PAC as it is read from a layout. -/
structure ReadFrom (pac : Pac Value) (entries : List PacEntry) : Prop where
  raw : pac.raw = layout entries
  buffers : pac.buffers = (placed entries).map (bufferAt parseContent)

/-- The inner round of `pacWithSignaturesZeroed`. -/
def zeroBuffer (t : Nat) (copy : Buffer) (b : PacBuffer Value) : Buffer :=
  if b.type ≠ t then
    copy
  else
    match b.bytes, b.signature? with
    | some _, some signature =>
      zeroRegion copy (b.offset + signature.signatureOffsetInBuffer) signature.signature.length
    | _, _ => copy

/-- The inner loop of `pacWithSignaturesZeroed`. -/
def zeroType (pac : Pac Value) (copy : Buffer) (t : Nat) : Buffer :=
  pac.buffers.foldl (zeroBuffer t) copy

theorem pacWithSignaturesZeroed_eq (pac : Pac Value) (types : List Nat) :
    pacWithSignaturesZeroed pac types = types.foldl (zeroType pac) pac.raw :=
  rfl

variable (p : PlacedEntry)

@[simp] theorem bufferAt_type : (bufferAt parseContent p).type = p.type := by
  rw [bufferAt, parseEntry, entryAt]
  dsimp only
  split <;> rfl

@[simp] theorem bufferAt_offset :
    (bufferAt parseContent p).offset = p.offset := by
  rw [bufferAt, parseEntry, entryAt]
  dsimp only
  split <;> rfl

@[simp] theorem bufferAt_bytes :
    (bufferAt parseContent p).bytes = some p.bytes := by
  rw [bufferAt, parseEntry, entryAt]
  dsimp only
  split <;> rfl

/-- A signature buffer that reads is read as its signature. -/
theorem bufferAt_signature {p : PlacedEntry} (isSignature : isSignatureBuffer p.type = true)
    {signature : PacSignature} (reads : parseSignature p.bytes = .ok signature) :
    (bufferAt parseContent p).signature? = some signature := by
  have parsed : parseBuffer parseContent p.type p.bytes = .ok (some (.signature signature)) := by
    rw [parseBuffer, if_pos isSignature, reads]
    rfl
  rw [bufferAt, parseEntry, entryAt]
  dsimp only
  rw [parsed]
  rfl

namespace Signing

/-- What is known of the buffer a slot is read as. -/
structure ReadSlot (slot : SignatureSlot) (values : Nat → Buffer) (signature : PacSignature) :
    Prop where
  type_eq : signature.signatureType = slot.profile.checksumType
  value_eq : signature.signature = values slot.type
  offset_eq : signature.signatureOffsetInBuffer = 4

variable {parseContent} {pac : Pac Value} {values : Nat → Buffer}

/-- A slot among the buffers read: the first and only one of its type, with the
signature the slot holds, where the writer put it. -/
theorem buffers_split (read : ReadFrom parseContent pac (signing.entries values))
    (filled : signing.Filled values) {slot : SignatureSlot} (isSlot : slot ∈ signing.slots) :
    ∃ earlier entry later signature,
      pac.buffers = earlier ++ entry :: later ∧
        (∀ b ∈ earlier, b.type ≠ slot.type) ∧
        (∀ b ∈ later, b.type ≠ slot.type) ∧
        entry.type = slot.type ∧
        entry.bytes.isSome = true ∧
        entry.signature? = some signature ∧
        ReadSlot slot values signature ∧
        signatureAt (placed (signing.entries values)) slot.type = some (entry.offset + 4) := by
  obtain ⟨before, after, beforeOther, afterOther, isSplit⟩ := entries_split isSlot values
  have split : signing.entries values = before ++ slot.entry (values slot.type) :: after := by
    rw [← isSplit, Function.update_eq_self]
  obtain ⟨earlier, later, isPlaced, earlierTypes, laterTypes⟩ :=
    placed_among before (slot.entry (values slot.type)) after
  obtain ⟨signature, reads, isType, isSignature, isOffset⟩ :=
    parseSignature_signatureBytes (signing.slots_known slot isSlot)
      (filled slot isSlot) slot.rodcIdentifier
  have others
      {placedOthers : List PlacedEntry}
      {others : List PacEntry}
      (sameTypes : placedOthers.map PlacedEntry.type = others.map PacEntry.type)
      (apart : ∀ e ∈ others, e.type ≠ slot.type) :
      ∀ b ∈ placedOthers.map (bufferAt parseContent), b.type ≠ slot.type := by
    intro b isBuffer
    obtain ⟨p, isPlaced, rfl⟩ := mem_map.mp isBuffer
    have isOther : p.type ∈ others.map PacEntry.type := sameTypes ▸ mem_map_of_mem isPlaced
    obtain ⟨e, isEntry, sameType⟩ := mem_map.mp isOther
    rw [bufferAt_type, ← sameType]
    exact apart e isEntry
  refine
    ⟨earlier.map (bufferAt parseContent),
      bufferAt parseContent {
        type := slot.type
        bytes := (slot.entry (values slot.type)).bytes
        offset :=
          bodyStart (before ++ slot.entry (values slot.type) :: after) + (body before).length
      },
      later.map (bufferAt parseContent), signature, ?_,
      others earlierTypes beforeOther, others laterTypes afterOther,
      bufferAt_type _ _, ?_,
      bufferAt_signature parseContent (signing.slots_signature slot isSlot) reads,
      ⟨isType, isSignature, isOffset⟩, ?_⟩
  · rw [read.buffers, split, isPlaced, map_append, map_cons]
    rfl
  · rw [bufferAt_bytes]
    rfl
  · rw [bufferAt_offset, split, signatureAt,
      find_among after beforeOther (e := slot.entry (values slot.type)) rfl]
    rfl

variable {type : Nat}

/-- Buffers of other types are left alone. -/
theorem zeroBuffer_others {others : List (PacBuffer Value)} (apart : ∀ b ∈ others, b.type ≠ type)
    (copy : Buffer) :
    others.foldl (zeroBuffer type) copy = copy := by
  induction others with
  | nil => rfl
  | cons b others ih =>
    rw [foldl_cons, zeroBuffer, if_pos (apart b mem_cons_self)]
    exact ih fun b isOther => apart b (mem_cons_of_mem _ isOther)

/-- Zeroing a type's signatures zeroes its slot, if it has one. -/
theorem zeroType_eq (read : ReadFrom parseContent pac (signing.entries values))
    (filled : signing.Filled values) {current : Nat → Buffer}
    (currentFilled : signing.Filled current) (isSignature : isSignatureBuffer type = true) :
    zeroType pac (layout (signing.entries current)) type =
      layout
        (signing.entries (Function.update current type (Buffer.alloc (current type).length))) := by
  by_cases hasSlot : ∃ slot ∈ signing.slots, slot.type = type
  · obtain ⟨slot, isSlot, rfl⟩ := hasSlot
    obtain ⟨earlier, entry, later, signature, isSplit, earlierOther,
        laterOther, isType, hasBytes, isRead, slotRead, isPlace⟩ :=
      buffers_split read filled isSlot
    obtain ⟨start, rest, atStart, layouts⟩ := layout_slot isSlot currentFilled
    have samePlace : entry.offset + 4 = start.length := by
      rw [signatureAt_of_shapes (shape_entries filled currentFilled), atStart] at isPlace
      exact (Option.some.inj isPlace).symm
    have currentLength := currentFilled slot isSlot
    have sameLength : signature.signature.length = (current slot.type).length := by
      rw [slotRead.value_eq, filled slot isSlot, currentLength]
    have unzeroed := layouts (current slot.type) currentLength
    rw [Function.update_eq_self] at unzeroed
    obtain ⟨bytes, isBytes⟩ := Option.isSome_iff_exists.mp hasBytes
    have zeroed :
        layout
            (signing.entries
              (Function.update current slot.type (Buffer.alloc (current slot.type).length))) =
          start ++ Buffer.alloc (current slot.type).length ++ rest :=
      layouts _ (by rw [Buffer.length_alloc, currentLength])
    rw [zeroType, isSplit, foldl_append, zeroBuffer_others earlierOther, foldl_cons,
      zeroBuffer_others laterOther, zeroBuffer, if_neg (by simpa using isType), isBytes, isRead]
    dsimp only
    rw [slotRead.offset_eq, samePlace, sameLength, unzeroed, zeroed, zeroRegion_among]
  · have noSlot : ∀ slot ∈ signing.slots, slot.type ≠ type :=
      fun slot isSlot sameType => hasSlot ⟨slot, isSlot, sameType⟩
    rw [entries_update_other noSlot, zeroType]
    apply zeroBuffer_others
    intro b isBuffer sameType
    rw [read.buffers] at isBuffer
    obtain ⟨p, isPlaced, rfl⟩ := mem_map.mp isBuffer
    rw [bufferAt_type] at sameType
    apply hasSlot
    apply (signatureAt_isSome values isSignature).mp
    rw [signatureAt, Option.isSome_map, List.find?_isSome]
    exact ⟨p, isPlaced, by simpa using sameType⟩

end Signing

end

end IyaSts.Krb5Pac
