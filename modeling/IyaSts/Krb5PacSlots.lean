import IyaSts.Krb5PacReads
import Mathlib.Data.List.Nodup

namespace IyaSts.Krb5Pac

/-!
# The signature slots of a PAC

The signature buffers of a PAC that is being signed are slots, one for each type
at most, each holding a value of its profile's length.  Filling a slot in place,
or zeroing it, changes that slot's value in the layout and nothing else.
-/

open CursorCodec List
open Krb5Ndr
open Krb5Profiles

/-- A profile the code has. -/
def KnownProfile (profile : EtypeProfile) : Prop := ∃ id, etypeById id = .ok profile

variable {profile : EtypeProfile}

theorem KnownProfile.cases (known : KnownProfile profile) :
    profile = aesSha1Profile 17 16 ∨ profile = aesSha1Profile 18 32 ∨
      profile = aesSha2Profile 19 16 16 ∨ profile = aesSha2Profile 20 32 24 ∨
        profile = arcfour := by
  obtain ⟨id, found⟩ := known
  unfold etypeById etypes at found
  split at found
  · rename_i entry isEntry
    split at isEntry <;> cases isEntry <;> cases found <;> simp
  · cases found

/-- The number a signature type is written as. -/
def rawType (signatureType : Int) : Nat :=
  (if signatureType < 0 then
    signatureType + 0x100000000
  else
    signatureType).toNat

/-- The octets of an RODC identifier. -/
def rodcBytes : Option Nat → Buffer
  | none => []
  | some rodcIdentifier => Buffer.littleEndian 2 rodcIdentifier

/-- The octets of a signature buffer. -/
def signatureBytes (signatureType : Int) (sig : Buffer) (rodcIdentifier : Option Nat) : Buffer :=
  Buffer.littleEndian 4 (rawType signatureType) ++ sig ++ rodcBytes rodcIdentifier

theorem length_rodcBytes (rodcIdentifier : Option Nat) : (rodcBytes rodcIdentifier).length ≤ 2 := by
  cases rodcIdentifier <;> simp [rodcBytes]

/-- A placeholder is a signature buffer of zeros. -/
theorem encodeSignaturePlaceholder_eq (known : KnownProfile profile) (rodcIdentifier : Option Nat) :
    encodeSignaturePlaceholder profile.checksumType profile.checksumBytes
        rodcIdentifier =
      signatureBytes profile.checksumType (Buffer.alloc profile.checksumBytes) rodcIdentifier := by
  rcases known.cases with rfl | rfl | rfl | rfl | rfl <;> cases rodcIdentifier <;> rfl

/-- A signature buffer of a known profile reads as its signature. -/
theorem parseSignature_signatureBytes (known : KnownProfile profile) {sig : Buffer}
    (isLength : sig.length = profile.checksumBytes) (rodcIdentifier : Option Nat) :
    ∃ signature,
      parseSignature (signatureBytes profile.checksumType sig rodcIdentifier) = .ok signature ∧
      signature.signatureType = profile.checksumType ∧
      signature.signature = sig ∧
      signature.signatureOffsetInBuffer = 4 := by
  have tailShort := length_rodcBytes rodcIdentifier
  have lengthIs :
      (signatureBytes profile.checksumType sig rodcIdentifier).length =
        4 + sig.length + (rodcBytes rodcIdentifier).length := by
    simp [signatureBytes, Nat.add_assoc]
  have sigShort : sig.length ≤ 24 := by
    rw [isLength]
    rcases known.cases with rfl | rfl | rfl | rfl | rfl <;> decide
  have longEnough :
      ¬ (signatureBytes profile.checksumType sig rodcIdentifier).length <
        4 := by
    omega
  have short : ¬ maxNdrBytes < (signatureBytes profile.checksumType sig rodcIdentifier).length := by
    simp only [maxNdrBytes]
    omega
  have read :
      readStream u32
          (signatureBytes profile.checksumType sig rodcIdentifier) =
        .ok (rawType profile.checksumType % 2 ^ 32) := by
    have reads :=
      (u32_reads (rawType profile.checksumType)).reads createWriter []
        (sig ++ rodcBytes rodcIdentifier) rfl
    rw [← append_assoc] at reads
    have read := reads (Nat.not_lt.mp short)
    rw [readStream, if_neg short]
    exact congrArg (Except.map Prod.fst) read
  have typeIs :
      (if 0x7fffffff < rawType profile.checksumType % 2 ^ 32 then
          ((rawType profile.checksumType % 2 ^ 32 : Nat) : Int) - 0x100000000
        else
          (rawType profile.checksumType % 2 ^ 32 : Nat)) =
        profile.checksumType := by
    rcases known.cases with rfl | rfl | rfl | rfl | rfl <;> decide
  have profileIs : profileForSignatureType profile.checksumType = .ok profile := by
    rcases known.cases with rfl | rfl | rfl | rfl | rfl <;> rfl
  have restIs :
      (signatureBytes profile.checksumType sig rodcIdentifier).drop 4 =
        sig ++ rodcBytes rodcIdentifier := by
    rw [signatureBytes, append_assoc]
    exact drop_left' (Buffer.length_littleEndian 4 _)
  have signatureIs :
      (sig ++ rodcBytes rodcIdentifier).take profile.checksumBytes = sig :=
    take_left' isLength
  rw [parseSignature, if_neg longEnough]
  show ∃ signature, (readStream u32 _ >>= _) = _ ∧ _
  rw [read, Fallible.ok_bind]
  refine ⟨_, rfl, ?_, ?_, rfl⟩
  · exact typeIs
  · simp only [typeIs, profileIs, restIs]
    exact signatureIs

/-! ## Slots -/

/-- A signature buffer to be filled in. -/
structure SignatureSlot where
  type : Nat
  profile : EtypeProfile
  rodcIdentifier : Option Nat

/-- The entry of a slot that holds a value. -/
def SignatureSlot.entry (slot : SignatureSlot) (value : Buffer) : PacEntry where
  type := slot.type
  bytes := signatureBytes slot.profile.checksumType value slot.rodcIdentifier

/-- A PAC to sign: its contents and its slots. -/
structure Signing where
  contents : List PacEntry
  slots : List SignatureSlot
  contents_other : ∀ e ∈ contents, isSignatureBuffer e.type = false
  slots_signature : ∀ slot ∈ slots, isSignatureBuffer slot.type = true
  slots_known : ∀ slot ∈ slots, KnownProfile slot.profile
  slots_nodup : (slots.map SignatureSlot.type).Nodup

namespace Signing

/-- The entries of a PAC whose slots hold values by their types. -/
def entries (signing : Signing) (values : Nat → Buffer) : List PacEntry :=
  signing.contents ++ signing.slots.map fun slot => slot.entry (values slot.type)

/-- Every slot's value has its profile's length. -/
def Filled (signing : Signing) (values : Nat → Buffer) : Prop :=
  ∀ slot ∈ signing.slots, (values slot.type).length = slot.profile.checksumBytes

variable {signing : Signing}

variable {values : Nat → Buffer} {type : Nat} {sig : Buffer} {slot : SignatureSlot}

theorem Filled.update (filled : signing.Filled values)
    (isLength :
      ∀ slot ∈ signing.slots, slot.type = type → sig.length = slot.profile.checksumBytes) :
    signing.Filled (Function.update values type sig) := by
  intro slot isSlot
  by_cases isType : slot.type = type
  · rw [isType, Function.update_self]
    exact isLength slot isSlot isType
  · rw [Function.update_of_ne isType]
    exact filled slot isSlot

/-- Values of one length leave one shape. -/
theorem shape_entries {values others : Nat → Buffer}
    (filled : signing.Filled values) (othersFilled : signing.Filled others) :
    (signing.entries values).map PacEntry.shape = (signing.entries others).map PacEntry.shape := by
  rw [entries, entries, map_append, map_append, map_map, map_map]
  congr 1
  apply map_congr_left
  intro slot isSlot
  simp [SignatureSlot.entry, PacEntry.shape, signatureBytes,
    filled slot isSlot, othersFilled slot isSlot]

/-- A slot among the entries, whatever its value: the entries before it, of
other types, and those after it. -/
theorem entries_split (isSlot : slot ∈ signing.slots) (values : Nat → Buffer) :
    ∃ before after,
      (∀ e ∈ before, e.type ≠ slot.type) ∧
        (∀ e ∈ after, e.type ≠ slot.type) ∧
        ∀ value,
          signing.entries (Function.update values slot.type value) =
            before ++ slot.entry value :: after := by
  obtain ⟨earlier, later, isSplit⟩ := append_of_mem isSlot
  have nodup := signing.slots_nodup
  rw [isSplit, map_append, map_cons, nodup_append] at nodup
  obtain ⟨_, laterNodup, apart⟩ := nodup
  have notLater : slot.type ∉ later.map SignatureSlot.type := (nodup_cons.mp laterNodup).1
  have earlierOther :
      ∀ other ∈ earlier, other.type ≠ slot.type := fun other isEarlier =>
    apart other.type (mem_map_of_mem isEarlier) slot.type mem_cons_self
  have laterOther :
      ∀ other ∈ later, other.type ≠ slot.type := fun other isLater same =>
    notLater (same ▸ mem_map_of_mem isLater)
  refine
    ⟨signing.contents ++
        earlier.map fun other => other.entry (values other.type),
      later.map fun other => other.entry (values other.type), ?_, ?_, ?_⟩
  · intro e isEntry
    rcases mem_append.mp isEntry with isContent | isEarlier
    · intro sameType
      have content := signing.contents_other e isContent
      rw [sameType, signing.slots_signature slot isSlot] at content
      cases content
    · obtain ⟨other, isOther, rfl⟩ := mem_map.mp isEarlier
      exact earlierOther other isOther
  · intro e isEntry
    obtain ⟨other, isOther, rfl⟩ := mem_map.mp isEntry
    exact laterOther other isOther
  · intro value
    have unchanged
        (others : List SignatureSlot)
        (apart : ∀ other ∈ others, other.type ≠ slot.type) :
        (others.map fun other =>
            other.entry (Function.update values slot.type value other.type)) =
          others.map fun other => other.entry (values other.type) := by
      apply map_congr_left
      intro other isOther
      rw [Function.update_of_ne (apart other isOther)]
    rw [entries, isSplit, map_append, map_cons, unchanged earlier earlierOther,
      unchanged later laterOther, Function.update_self, append_assoc]

/-- A value for a type no slot has changes nothing. -/
theorem entries_update_other (noSlot : ∀ slot ∈ signing.slots, slot.type ≠ type)
    (values : Nat → Buffer) (value : Buffer) :
    signing.entries (Function.update values type value) = signing.entries values := by
  rw [entries, entries]
  congr 1
  apply map_congr_left
  intro slot isSlot
  rw [Function.update_of_ne (noSlot slot isSlot)]

/-! ## A slot in the layout -/

/-- The first placed entry of a slot's type is the slot's. -/
theorem find_among {before : List PacEntry} (after : List PacEntry)
    (others : ∀ e ∈ before, e.type ≠ type) {e : PacEntry} (isType : e.type = type) :
    (placed (before ++ e :: after)).find? (fun p => p.type == type) =
      some {
        type := type
        bytes := e.bytes
        offset := bodyStart (before ++ e :: after) + (body before).length
      } := by
  obtain ⟨earlier, later, isPlaced, earlierTypes, _⟩ := placed_among before e after
  have notEarlier : earlier.find? (fun p => p.type == type) = none := by
    rw [List.find?_eq_none]
    intro p isEarlier
    have isBefore : p.type ∈ before.map PacEntry.type :=
      earlierTypes ▸ mem_map_of_mem isEarlier
    obtain ⟨e, isEntry, sameType⟩ := mem_map.mp isBefore
    simpa [sameType] using others e isEntry
  rw [isPlaced, List.find?_append, notEarlier]
  simp [isType]

/-- A slot's value is a run of the layout at the place the writer looks for, and
what is around it depends on no value of its length. -/
theorem layout_slot (isSlot : slot ∈ signing.slots) (filled : signing.Filled values) :
    ∃ start rest,
      signatureAt (placed (signing.entries values)) slot.type =
          some start.length ∧
        ∀ value : Buffer,
          value.length = slot.profile.checksumBytes →
            layout
                (signing.entries (Function.update values slot.type value)) =
              start ++ value ++ rest := by
  obtain ⟨before, after, beforeOther, _, isSplit⟩ := entries_split isSlot values
  have split : signing.entries values = before ++ slot.entry (values slot.type) :: after := by
    rw [← isSplit, Function.update_eq_self]
  have atSlot := find_among after beforeOther (e := slot.entry (values slot.type)) rfl
  refine
    ⟨table (signing.entries values) ++
        (body before ++ Buffer.littleEndian 4 (rawType slot.profile.checksumType)),
      rodcBytes slot.rodcIdentifier ++
        (Buffer.alloc
          (padding 8 (slot.entry (values slot.type)).bytes.length) ++
          body after), ?_, ?_⟩
  · rw [signatureAt, split, atSlot]
    simp [Nat.add_assoc]
  · intro value isLength
    have sameTable :
        table (signing.entries (Function.update values slot.type value)) =
          table (signing.entries values) := by
      refine table_of_shapes (shape_entries ?_ filled)
      refine filled.update fun other isOther sameType => ?_
      have sameSlot : other = slot :=
        inj_on_of_nodup_map signing.slots_nodup isOther isSlot sameType
      rw [isLength, sameSlot]
    have sameLength :
        (slot.entry value).bytes.length = (slot.entry (values slot.type)).bytes.length := by
      simp [SignatureSlot.entry, signatureBytes, isLength, filled slot isSlot]
    rw [layout, sameTable, isSplit, body_append, body_cons, padded, sameLength]
    simp [SignatureSlot.entry, signatureBytes]

/-- Where the writer looks depends on the entries' shapes. -/
theorem signatureAt_of_shapes {entries others : List PacEntry}
    (sameShape : entries.map PacEntry.shape = others.map PacEntry.shape) (type : Nat) :
    signatureAt (placed entries) type = signatureAt (placed others) type := by
  have sameLength : entries.length = others.length := by simpa using congrArg List.length sameShape
  have byRow (rows : List PlacedEntry) :
      signatureAt rows type =
        ((rows.map PlacedEntry.row).find? fun row => row.1 == type).map fun row => row.2.2 + 4 := by
    rw [signatureAt, List.find?_map, Option.map_map]
    rfl
  rw [byRow, byRow, placed, placed, bodyStart, bodyStart, sameLength, rows_of_shapes sameShape]

/-- Writing a signature fills its slot. -/
theorem writeSignature_slot (isSlot : slot ∈ signing.slots) {initial values : Nat → Buffer}
    (initialFilled : signing.Filled initial) (filled : signing.Filled values)
    (isLength : sig.length = slot.profile.checksumBytes) :
    writeSignature (placed (signing.entries initial)) slot.type sig
        (layout (signing.entries values)) =
      .ok (layout (signing.entries (Function.update values slot.type sig))) := by
  obtain ⟨start, rest, atStart, layouts⟩ := layout_slot isSlot filled
  have unfilled := layouts (values slot.type) (filled slot isSlot)
  rw [Function.update_eq_self] at unfilled
  rw [writeSignature, signatureAt_of_shapes (shape_entries initialFilled filled), atStart, unfilled,
    layouts sig isLength]
  exact setAt_among start _ sig rest (isLength.trans (filled slot isSlot).symm) rfl

/-- The writer finds a place exactly where there is a slot. -/
theorem signatureAt_isSome (values : Nat → Buffer) (isSignature : isSignatureBuffer type = true) :
    (signatureAt (placed (signing.entries values)) type).isSome = true ↔
      ∃ slot ∈ signing.slots, slot.type = type := by
  have types :
      (placed (signing.entries values)).map PlacedEntry.type =
        (signing.entries values).map PacEntry.type :=
    types_place _ _
  rw [signatureAt, Option.isSome_map, List.find?_isSome]
  constructor
  · rintro ⟨p, isPlaced, isType⟩
    have isEntry : p.type ∈ (signing.entries values).map PacEntry.type :=
      types ▸ mem_map_of_mem isPlaced
    obtain ⟨e, isEntry, sameType⟩ := mem_map.mp isEntry
    have entryType : e.type = type := sameType.trans (by simpa using isType)
    rcases mem_append.mp isEntry with isContent | isSlot
    · have content := signing.contents_other e isContent
      rw [entryType, isSignature] at content
      cases content
    · obtain ⟨slot, isFound, rfl⟩ := mem_map.mp isSlot
      exact ⟨slot, isFound, entryType⟩
  · rintro ⟨slot, isSlot, rfl⟩
    have isEntry :
        slot.type ∈ (signing.entries values).map PacEntry.type :=
      mem_map.mpr
        ⟨slot.entry (values slot.type),
          mem_append_right _ (mem_map.mpr ⟨slot, isSlot, rfl⟩), rfl⟩
    rw [← types] at isEntry
    obtain ⟨p, isPlaced, sameType⟩ := mem_map.mp isEntry
    exact ⟨p, isPlaced, by simpa using sameType⟩

end Signing

end IyaSts.Krb5Pac
