import IyaSts.Krb5PacVerifies

namespace IyaSts.Krb5Pac

/-!
# A signed PAC read back

A PAC that is signed, read back within the reader's limits, verifies with the
keys it was signed with and holds its contents and the signatures asked for.  A
minted PAC is one.
-/

open CursorCodec List
open Krb5Ndr
open Krb5Profiles

/-- The keys a signing's PAC is checked with. -/
def SigningSpec.verifyingKeys (spec : SigningSpec) : VerifyingKeys where
  serverKey := some spec.serverKey
  kdcKey := some spec.kdcKey
  ticketBytes := spec.ticketBytes

/-- The types of the signatures a signing is asked for. -/
def SigningSpec.requestedTypes (spec : SigningSpec) : List Nat :=
  (if spec.includeTicketSignature then [TYPE.ticketChecksum] else []) ++
    ((if spec.includeExtendedKdcSignature then
      [TYPE.extendedKdcChecksum]
    else
      []) ++
    [TYPE.serverChecksum, TYPE.kdcChecksum])

/-- A ticket's signature is asked for only with the ticket. -/
def SigningSpec.TicketGiven (spec : SigningSpec) : Prop :=
  spec.includeTicketSignature = true → spec.ticketBytes.isSome = true

section

variable {Value : Type}

/-- The buffers that are not signatures: their types and, where they lie inside
the PAC, their octets. -/
def contentBuffers (pac : Pac Value) : List (Nat × Option Buffer) :=
  (pac.buffers.filter fun b => !isSignatureBuffer b.type).map fun b => (b.type, b.bytes)

/-- The types of a PAC's signatures. -/
def signatureTypes (pac : Pac Value) : List Nat :=
  (pac.buffers.map PacBuffer.type).filter isSignatureBuffer

/-- An entry as a buffer that lies inside the PAC. -/
def PacEntry.content (e : PacEntry) : Nat × Option Buffer := (e.type, some e.bytes)

/-- What is carried is what lies inside the PAC. -/
theorem carriedEntries_content (pac : Pac Value) :
    (carriedEntries pac).map PacEntry.content =
      (contentBuffers pac).filter fun b => b.2.isSome := by
  rw [carriedEntries, contentBuffers]
  induction pac.buffers with
  | nil => rfl
  | cons b buffers ih =>
    by_cases isSignature : isSignatureBuffer b.type = true
    · rw [filterMap_cons, if_pos isSignature, filter_cons_of_neg (by simp [isSignature])]
      exact ih
    · rw [filterMap_cons, if_neg isSignature,
        filter_cons_of_pos (by simp [isSignature]), map_cons]
      cases isBytes : b.bytes with
      | none =>
        rw [filter_cons_of_neg (by simp)]
        exact ih
      | some bytes =>
        rw [filter_cons_of_pos (by simp), ← ih]
        rfl

end

namespace SigningJob

variable (job : SigningJob)
variable (checksums : Checksums)

/-- Assembling and signing the contents gives the signed layout, unless a
ticket's signature is asked for without the ticket. -/
theorem sign_eq (ticketGiven : job.spec.TicketGiven) :
    (assemblePac
        (job.contents ++ signaturePlaceholders job.serverProfile job.kdcProfile job.spec) >>=
      fun assembled => signAssembled checksums assembled job.spec) =
      .ok (layout (job.signedEntries checksums)) := by
  rw [assemblePac_eq, Fallible.ok_bind, job.entries_placeholders]
  exact job.signAssembled_eq checksums ticketGiven

theorem ticketGiven_of_sign {bytes : Buffer}
    (signs :
      (assemblePac
          (job.contents ++ signaturePlaceholders job.serverProfile job.kdcProfile job.spec) >>=
        fun assembled => signAssembled checksums assembled job.spec) =
        .ok bytes) :
    job.spec.TicketGiven := by
  intro included
  by_contra noTicket
  obtain ⟨failure, refuses⟩ := job.signTicket_error checksums included (by simpa using noTicket)
  rw [assemblePac_eq, Fallible.ok_bind, job.entries_placeholders, signAssembled, job.server_found,
    Fallible.ok_bind, job.kdc_found, Fallible.ok_bind] at signs
  change (signTicket _ (job.kdcSignature checksums) _ _ >>= _) = _ at signs
  rw [refuses] at signs
  cases signs

theorem length_signedEntries :
    (job.signedEntries checksums).length =
      job.contents.length + job.spec.requestedTypes.length := by
  show (job.contents ++ job.slots.map _).length = _
  rw [length_append, length_map, slots, SigningSpec.requestedTypes]
  cases job.spec.includeTicketSignature <;> cases job.spec.includeExtendedKdcSignature <;> rfl

theorem types_slots : job.slots.map SignatureSlot.type = job.spec.requestedTypes := by
  rw [slots, SigningSpec.requestedTypes]
  cases job.spec.includeTicketSignature <;> cases job.spec.includeExtendedKdcSignature <;> rfl

section

variable {Value : Type}
variable {parseContent : Nat → Buffer → Except String (Option Value)}
variable {pac : Pac Value}

/-- A signed PAC reads with the contents it was made of. -/
theorem contentBuffers_signed (read : ReadFrom parseContent pac (job.signedEntries checksums)) :
    contentBuffers pac = job.contents.map PacEntry.content := by
  have buffers :
      pac.buffers.map (fun b => (b.type, b.bytes)) =
        (job.signedEntries checksums).map PacEntry.content := by
    rw [read.buffers, map_map]
    have contents (offset : Nat) (entries : List PacEntry) :
        (place offset entries).1.map
            ((fun b => (b.type, b.bytes)) ∘ bufferAt parseContent) =
          entries.map PacEntry.content := by
      induction entries generalizing offset with
      | nil => rfl
      | cons e entries ih => simp [place, ih, PacEntry.content]
    exact contents _ _
  have byPair :
      contentBuffers pac =
        (pac.buffers.map fun b => (b.type, b.bytes)).filter fun b =>
          !isSignatureBuffer b.1 := by
    rw [contentBuffers, filter_map]
    rfl
  have contentsKept :
      (job.contents.map PacEntry.content).filter
          (fun b => !isSignatureBuffer b.1) =
        job.contents.map PacEntry.content := by
    rw [filter_eq_self]
    intro b isContent
    obtain ⟨e, isEntry, rfl⟩ := mem_map.mp isContent
    simp [PacEntry.content, job.contents_other e isEntry]
  have slotsDropped (entries : List PacEntry)
      (signatures : ∀ e ∈ entries, isSignatureBuffer e.type = true) :
      (entries.map PacEntry.content).filter (fun b => !isSignatureBuffer b.1) = [] := by
    rw [filter_eq_nil_iff]
    intro b isSlot
    obtain ⟨e, isEntry, rfl⟩ := mem_map.mp isSlot
    simp [PacEntry.content, signatures e isEntry]
  rw [byPair, buffers, signedEntries, Signing.entries, map_append, filter_append]
  show (job.contents.map PacEntry.content).filter _ ++ _ = _
  rw [contentsKept, slotsDropped, append_nil]
  intro e isSlot
  obtain ⟨slot, isFound, rfl⟩ := mem_map.mp isSlot
  exact job.signing.slots_signature slot isFound

/-- A signed PAC holds the signatures it was asked for. -/
theorem signatureTypes_signed (read : ReadFrom parseContent pac (job.signedEntries checksums)) :
    signatureTypes pac = job.spec.requestedTypes := by
  have types :
      pac.buffers.map PacBuffer.type = (job.signedEntries checksums).map PacEntry.type := by
    rw [← types_place (bodyStart (job.signedEntries checksums)), read.buffers, map_map]
    apply map_congr_left
    intro p _
    exact bufferAt_type parseContent p
  have contentsDropped : (job.contents.map PacEntry.type).filter isSignatureBuffer = [] := by
    rw [filter_eq_nil_iff]
    intro type isContent
    obtain ⟨e, isEntry, rfl⟩ := mem_map.mp isContent
    simp [job.contents_other e isEntry]
  have slotsKept : job.spec.requestedTypes.filter isSignatureBuffer = job.spec.requestedTypes := by
    rw [SigningSpec.requestedTypes]
    cases job.spec.includeTicketSignature <;> cases job.spec.includeExtendedKdcSignature <;> rfl
  rw [signatureTypes, types, signedEntries, Signing.entries, map_append, filter_append]
  show (job.contents.map PacEntry.type).filter _ ++ ((job.slots.map _).map _).filter _ = _
  rw [contentsDropped, map_map]
  exact (congrArg (List.filter isSignatureBuffer) job.types_slots).trans slotsKept

/-- A signed PAC within the reader's limits is read, verifies, and holds its
contents and the signatures asked for. -/
theorem signed_verifies (parseContent : Nat → Buffer → Except String (Option Value))
    (ticketGiven : job.spec.TicketGiven) (typesFit : ∀ e ∈ job.contents, e.type < 2 ^ 32)
    (few : job.contents.length + job.spec.requestedTypes.length ≤ maxBuffers)
    (short : (layout (job.signedEntries checksums)).length ≤ maxNdrBytes) :
    ∃ pac,
      parsePac parseContent (layout (job.signedEntries checksums)) =
          .ok pac ∧
        AllVerified pac (verifySignatures checksums pac job.spec.verifyingKeys) ∧
        contentBuffers pac = job.contents.map PacEntry.content ∧
        signatureTypes pac = job.spec.requestedTypes := by
  have within : WithinLimits (job.signedEntries checksums) := by
    refine ⟨?_, ?_, ?_, short⟩
    · intro isNil
      have length := job.length_signedEntries checksums
      rw [isNil, SigningSpec.requestedTypes] at length
      simp at length
    · rw [job.length_signedEntries]
      exact few
    · intro e isEntry
      rcases mem_append.mp isEntry with isContent | isSlot
      · exact typesFit e isContent
      · obtain ⟨slot, isFound, rfl⟩ := mem_map.mp isSlot
        rcases (job.mem_slots_iff slot).mp isFound with
          ⟨_, rfl⟩ | ⟨_, rfl⟩ | rfl | rfl <;>
            simp [SignatureSlot.entry, TYPE.ticketChecksum, TYPE.extendedKdcChecksum,
              TYPE.serverChecksum, TYPE.kdcChecksum]
  obtain ⟨pac, reads, isRaw, isBuffers⟩ := parsePac_layout parseContent within
  have read : ReadFrom parseContent pac (job.signedEntries checksums) := ⟨isRaw, isBuffers⟩
  exact ⟨pac, reads, job.verifySignatures_signed checksums ticketGiven read,
    job.contentBuffers_signed checksums read, job.signatureTypes_signed checksums read⟩

end

end SigningJob

section

variable {Value : Type}
variable (checksums : Checksums)
variable {encoders : ContentEncoders Value}

/-! ## Minting -/

variable {entries : List PacEntry} {spec : BuildSpec Value}

theorem optionalEntry_mem {type : Nat} {encode : Value → Except String Buffer}
    {stated : Option Value} (encodes : optionalEntry type encode stated = .ok entries) :
    entries.length ≤ 1 ∧ ∀ e ∈ entries, e.type = type := by
  cases stated with
  | none =>
    cases encodes
    exact ⟨Nat.zero_le _, nofun⟩
  | some value =>
    rw [optionalEntry] at encodes
    cases isEncoded : encode value with
    | error failure =>
      rw [isEncoded] at encodes
      cases encodes
    | ok bytes =>
      rw [isEncoded] at encodes
      cases encodes
      refine ⟨Nat.le_refl _, fun e isEntry => ?_⟩
      rw [mem_singleton.mp isEntry]

/-- The types of the content buffers a PAC is minted with. -/
def mintedTypes : List Nat :=
  [TYPE.logonInfo, TYPE.clientInfo, TYPE.upnDnsInfo, TYPE.clientClaims,
    TYPE.attributesInfo, TYPE.requestorSid, TYPE.delegationInfo]

theorem buildEntries_mem (builds : buildEntries encoders spec = .ok entries) :
    entries.length ≤ 7 ∧ ∀ e ∈ entries, e.type ∈ mintedTypes := by
  unfold buildEntries at builds
  obtain ⟨logonInfo, _, builds⟩ := (Fallible.bind_eq_ok_iff _ _ _).mp builds
  obtain ⟨upnDns, isUpn, builds⟩ := (Fallible.bind_eq_ok_iff _ _ _).mp builds
  obtain ⟨claims, isClaims, builds⟩ := (Fallible.bind_eq_ok_iff _ _ _).mp builds
  obtain ⟨attributes, isAttributes, builds⟩ := (Fallible.bind_eq_ok_iff _ _ _).mp builds
  obtain ⟨requestor, isRequestor, builds⟩ := (Fallible.bind_eq_ok_iff _ _ _).mp builds
  obtain ⟨delegation, isDelegation, builds⟩ := (Fallible.bind_eq_ok_iff _ _ _).mp builds
  cases builds
  obtain ⟨upnFew, upnType⟩ := optionalEntry_mem isUpn
  obtain ⟨claimsFew, claimsType⟩ := optionalEntry_mem isClaims
  obtain ⟨attributesFew, attributesType⟩ := optionalEntry_mem isAttributes
  obtain ⟨requestorFew, requestorType⟩ := optionalEntry_mem isRequestor
  obtain ⟨delegationFew, delegationType⟩ := optionalEntry_mem isDelegation
  constructor
  · simp only [length_append, length_cons, length_nil]
    omega
  · intro e isEntry
    simp only [mem_append, mem_cons, not_mem_nil, or_false] at isEntry
    rcases isEntry with (rfl | rfl) | isUpn | isClaims | isAttributes | isRequestor | isDelegation
    · simp [mintedTypes]
    · simp [mintedTypes]
    · rw [upnType e isUpn]
      decide
    · rw [claimsType e isClaims]
      decide
    · rw [attributesType e isAttributes]
      decide
    · rw [requestorType e isRequestor]
      decide
    · rw [delegationType e isDelegation]
      decide

theorem mintedTypes_content :
    ∀ type ∈ mintedTypes, isSignatureBuffer type = false ∧ type < 2 ^ 32 := by
  decide

theorem requestedTypes_length (spec : SigningSpec) : spec.requestedTypes.length ≤ 4 := by
  rw [SigningSpec.requestedTypes]
  cases spec.includeTicketSignature <;> cases spec.includeExtendedKdcSignature <;> decide

/-- A minted PAC is the signed layout of its content entries. -/
theorem buildPac_signed {bytes : Buffer} (builds : buildPac checksums encoders spec = .ok bytes) :
    ∃ job : SigningJob,
      buildEntries encoders spec = .ok job.contents ∧
        job.spec = spec.signing ∧
        job.spec.TicketGiven ∧
        bytes = layout (job.signedEntries checksums) := by
  unfold buildPac at builds
  obtain ⟨serverProfile, serverFound, builds⟩ := (Fallible.bind_eq_ok_iff _ _ _).mp builds
  obtain ⟨kdcProfile, kdcFound, builds⟩ := (Fallible.bind_eq_ok_iff _ _ _).mp builds
  obtain ⟨entries, isBuilt, signs⟩ := (Fallible.bind_eq_ok_iff _ _ _).mp builds
  let job : SigningJob := {
    contents := entries
    spec := spec.signing
    serverProfile := serverProfile
    kdcProfile := kdcProfile
    server_found := serverFound
    kdc_found := kdcFound
    contents_other := fun e isEntry =>
      (mintedTypes_content _ ((buildEntries_mem isBuilt).2 e isEntry)).1
  }
  have ticketGiven : job.spec.TicketGiven := job.ticketGiven_of_sign checksums signs
  have signed := (job.sign_eq checksums ticketGiven).symm.trans signs
  exact ⟨job, isBuilt, rfl, ticketGiven, (Except.ok.inj signed).symm⟩

end

end IyaSts.Krb5Pac
