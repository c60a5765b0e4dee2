import IyaSts.Krb5PacZeroes

namespace IyaSts.Krb5Pac

/-!
# Signing a PAC

The signing pass fills the slots one after another, each value a checksum of the
layout as it stands.
-/

open CursorCodec
open Krb5Ndr
open Krb5Profiles

/-- Contents to sign with two keys whose encryption types the code has. -/
structure SigningJob where
  contents : List PacEntry
  spec : SigningSpec
  serverProfile : EtypeProfile
  kdcProfile : EtypeProfile
  server_found : etypeById spec.serverKey.etype = .ok serverProfile
  kdc_found : etypeById spec.kdcKey.etype = .ok kdcProfile
  contents_other : ∀ e ∈ contents, isSignatureBuffer e.type = false

namespace SigningJob

variable (job : SigningJob)

/-! ## The slots -/

/-- The slots both callers sign. -/
def slots : List SignatureSlot :=
  (if job.spec.includeTicketSignature then
    [⟨TYPE.ticketChecksum, job.kdcProfile, job.spec.rodcIdentifier⟩]
  else
    []) ++
  ((if job.spec.includeExtendedKdcSignature then
    [⟨TYPE.extendedKdcChecksum, job.kdcProfile, job.spec.rodcIdentifier⟩]
  else
    []) ++
  [⟨TYPE.serverChecksum, job.serverProfile, none⟩,
    ⟨TYPE.kdcChecksum, job.kdcProfile, job.spec.rodcIdentifier⟩])

/-- The profile a type's signature is made with. -/
def profileOf (type : Nat) : EtypeProfile :=
  if type = TYPE.serverChecksum then job.serverProfile else job.kdcProfile

/-- The values of the placeholders. -/
def zeroValues (type : Nat) : Buffer := Buffer.alloc (job.profileOf type).checksumBytes

theorem mem_slots_iff (slot : SignatureSlot) :
    slot ∈ job.slots ↔
      (job.spec.includeTicketSignature = true ∧
        slot = ⟨TYPE.ticketChecksum, job.kdcProfile, job.spec.rodcIdentifier⟩) ∨
      (job.spec.includeExtendedKdcSignature = true ∧
        slot = ⟨TYPE.extendedKdcChecksum, job.kdcProfile, job.spec.rodcIdentifier⟩) ∨
      slot = ⟨TYPE.serverChecksum, job.serverProfile, none⟩ ∨
      slot = ⟨TYPE.kdcChecksum, job.kdcProfile, job.spec.rodcIdentifier⟩ := by
  unfold slots
  cases job.spec.includeTicketSignature <;> cases job.spec.includeExtendedKdcSignature <;> simp

theorem slots_profile {slot : SignatureSlot} (isSlot : slot ∈ job.slots) :
    slot.profile = job.profileOf slot.type := by
  rcases (job.mem_slots_iff slot).mp isSlot with
    ⟨_, rfl⟩ | ⟨_, rfl⟩ | rfl | rfl <;> rfl

/-- The contents and the slots, to be filled in. -/
def signing : Signing where
  contents := job.contents
  slots := job.slots
  contents_other := job.contents_other
  slots_signature := by
    intro slot isSlot
    rcases (job.mem_slots_iff slot).mp isSlot with
      ⟨_, rfl⟩ | ⟨_, rfl⟩ | rfl | rfl <;> rfl
  slots_known := by
    intro slot isSlot
    rcases (job.mem_slots_iff slot).mp isSlot with
      ⟨_, rfl⟩ | ⟨_, rfl⟩ | rfl | rfl
    · exact ⟨_, job.kdc_found⟩
    · exact ⟨_, job.kdc_found⟩
    · exact ⟨_, job.server_found⟩
    · exact ⟨_, job.kdc_found⟩
  slots_nodup := by
    unfold slots
    cases job.spec.includeTicketSignature <;>
      cases job.spec.includeExtendedKdcSignature <;>
        simp [TYPE.ticketChecksum, TYPE.extendedKdcChecksum, TYPE.serverChecksum, TYPE.kdcChecksum]

/-- The placeholders are the slots, zero. -/
theorem entries_placeholders :
    job.contents ++
        signaturePlaceholders job.serverProfile job.kdcProfile job.spec =
      job.signing.entries job.zeroValues := by
  have kdcZeros := encodeSignaturePlaceholder_eq ⟨_, job.kdc_found⟩ job.spec.rodcIdentifier
  have serverZeros := encodeSignaturePlaceholder_eq ⟨_, job.server_found⟩ none
  show _ = job.contents ++ job.slots.map _
  rw [signaturePlaceholders, kdcZeros, serverZeros, slots]
  cases job.spec.includeTicketSignature <;> cases job.spec.includeExtendedKdcSignature <;> rfl

theorem filled_zeroValues : job.signing.Filled job.zeroValues := by
  intro slot isSlot
  rw [job.slots_profile isSlot, zeroValues, Buffer.length_alloc]

variable {values : Nat → Buffer} {type : Nat} {sig : Buffer}

/-- A value of its type's length leaves the slots filled. -/
theorem filled_update (filled : job.signing.Filled values)
    (isLength : sig.length = (job.profileOf type).checksumBytes) :
    job.signing.Filled (Function.update values type sig) := by
  refine filled.update fun slot isSlot isType => ?_
  rw [job.slots_profile isSlot, isType]
  exact isLength

theorem server_slot :
    (⟨TYPE.serverChecksum, job.serverProfile, none⟩ : SignatureSlot) ∈ job.signing.slots :=
  (job.mem_slots_iff _).mpr (.inr (.inr (.inl rfl)))

theorem kdc_slot :
    (⟨TYPE.kdcChecksum, job.kdcProfile, job.spec.rodcIdentifier⟩ :
      SignatureSlot) ∈ job.signing.slots :=
  (job.mem_slots_iff _).mpr (.inr (.inr (.inr rfl)))

theorem ticket_slot_iff :
    (∃ slot ∈ job.signing.slots, slot.type = TYPE.ticketChecksum) ↔
      job.spec.includeTicketSignature = true := by
  constructor
  · rintro ⟨slot, isSlot, isType⟩
    rcases (job.mem_slots_iff slot).mp isSlot with
      ⟨included, rfl⟩ | ⟨_, rfl⟩ | rfl | rfl
    · exact included
    all_goals cases isType
  · intro included
    exact ⟨_, (job.mem_slots_iff _).mpr (.inl ⟨included, rfl⟩), rfl⟩

theorem extended_slot_iff :
    (∃ slot ∈ job.signing.slots, slot.type = TYPE.extendedKdcChecksum) ↔
      job.spec.includeExtendedKdcSignature = true := by
  constructor
  · rintro ⟨slot, isSlot, isType⟩
    rcases (job.mem_slots_iff slot).mp isSlot with
      ⟨_, rfl⟩ | ⟨included, rfl⟩ | rfl | rfl
    · cases isType
    · exact included
    all_goals cases isType
  · intro included
    exact ⟨_, (job.mem_slots_iff _).mpr (.inr (.inl ⟨included, rfl⟩)), rfl⟩

/-! ## Signing -/

variable (checksums : Checksums)

/-- The checksum the KDC's signatures are. -/
def kdcSignature (message : Buffer) : Buffer :=
  checksums.checksum job.kdcProfile job.spec.kdcKey.key kerbNonKerbCksumSalt message

/-- The checksum the server's signature is. -/
def serverSignature (message : Buffer) : Buffer :=
  checksums.checksum job.serverProfile job.spec.serverKey.key kerbNonKerbCksumSalt message

/-- The values once the ticket's signature is filled in. -/
def withTicket : Nat → Buffer :=
  Function.update job.zeroValues TYPE.ticketChecksum
    (job.kdcSignature checksums (job.spec.ticketBytes.getD []))

/-- The values once the extended signature is, over the PAC so far. -/
def withExtended : Nat → Buffer :=
  Function.update (job.withTicket checksums) TYPE.extendedKdcChecksum
    (job.kdcSignature checksums (layout (job.signing.entries (job.withTicket checksums))))

/-- The server's signature, over the PAC so far. -/
def serverSig : Buffer :=
  job.serverSignature checksums (layout (job.signing.entries (job.withExtended checksums)))

/-- The values once the server's signature is filled in. -/
def withServer : Nat → Buffer :=
  Function.update (job.withExtended checksums) TYPE.serverChecksum (job.serverSig checksums)

/-- The values once all are. -/
def signedValues : Nat → Buffer :=
  Function.update (job.withServer checksums) TYPE.kdcChecksum
    (job.kdcSignature checksums (job.serverSig checksums))

/-- The entries of the signed PAC. -/
def signedEntries : List PacEntry := job.signing.entries (job.signedValues checksums)

theorem filled_withTicket : job.signing.Filled (job.withTicket checksums) :=
  job.filled_update job.filled_zeroValues (checksums.fixedLength _ _ _ _)

theorem filled_withExtended : job.signing.Filled (job.withExtended checksums) :=
  job.filled_update (job.filled_withTicket checksums) (checksums.fixedLength _ _ _ _)

theorem filled_withServer : job.signing.Filled (job.withServer checksums) :=
  job.filled_update (job.filled_withExtended checksums) (checksums.fixedLength _ _ _ _)

theorem filled_signedValues : job.signing.Filled (job.signedValues checksums) :=
  job.filled_update (job.filled_withServer checksums) (checksums.fixedLength _ _ _ _)

/-- Filling a slot that is there is a write; where there is none, nothing is to
be written. -/
theorem write_step (filled : job.signing.Filled values)
    (isSignature : isSignatureBuffer type = true)
    (isLength : sig.length = (job.profileOf type).checksumBytes) :
    (if (signatureAt (placed (job.signing.entries job.zeroValues))
        type).isSome then
      writeSignature (placed (job.signing.entries job.zeroValues)) type sig
        (layout (job.signing.entries values))
    else
      .ok (layout (job.signing.entries values))) =
      .ok (layout (job.signing.entries (Function.update values type sig))) := by
  have hasSlot_iff :
      (signatureAt (placed (job.signing.entries job.zeroValues))
          type).isSome = true ↔
        ∃ slot ∈ job.signing.slots, slot.type = type :=
    Signing.signatureAt_isSome job.zeroValues isSignature
  by_cases hasSlot : ∃ slot ∈ job.signing.slots, slot.type = type
  · rw [if_pos (hasSlot_iff.mpr hasSlot)]
    obtain ⟨slot, isSlot, rfl⟩ := hasSlot
    exact Signing.writeSignature_slot isSlot job.filled_zeroValues filled
      (by rw [isLength, job.slots_profile isSlot])
  · have noSlot : ∀ slot ∈ job.signing.slots, slot.type ≠ type :=
      fun slot isSlot isType => hasSlot ⟨slot, isSlot, isType⟩
    rw [if_neg (mt hasSlot_iff.mp hasSlot), Signing.entries_update_other noSlot]

theorem signTicket_eq
    (ticketGiven : job.spec.includeTicketSignature = true → job.spec.ticketBytes.isSome = true) :
    signTicket (placed (job.signing.entries job.zeroValues))
        (job.kdcSignature checksums) job.spec.ticketBytes
        (layout (job.signing.entries job.zeroValues)) =
      .ok (layout (job.signing.entries (job.withTicket checksums))) := by
  have step :=
    job.write_step job.filled_zeroValues rfl
      (checksums.fixedLength (job.profileOf TYPE.ticketChecksum)
        job.spec.kdcKey.key kerbNonKerbCksumSalt
        (job.spec.ticketBytes.getD []))
  have hasTicket :
      hasSignature (placed (job.signing.entries job.zeroValues))
          TYPE.ticketChecksum = true ↔
        job.spec.includeTicketSignature = true :=
    (Signing.signatureAt_isSome job.zeroValues rfl).trans job.ticket_slot_iff
  refine Eq.trans ?_ step
  unfold signTicket
  by_cases has :
      hasSignature (placed (job.signing.entries job.zeroValues)) TYPE.ticketChecksum = true
  · obtain ⟨ticketBytes, isTicket⟩ := Option.isSome_iff_exists.mp (ticketGiven (hasTicket.mp has))
    rw [if_pos has, isTicket]
    exact (if_pos has).symm
  · rw [if_neg has]
    exact (if_neg has).symm

/-- A ticket's signature without the ticket is refused. -/
theorem signTicket_error (included : job.spec.includeTicketSignature = true)
    (noTicket : job.spec.ticketBytes = none) :
    ∃ failure,
      signTicket (placed (job.signing.entries job.zeroValues))
          (job.kdcSignature checksums) job.spec.ticketBytes
          (layout (job.signing.entries job.zeroValues)) =
        .error failure := by
  have has :
      hasSignature (placed (job.signing.entries job.zeroValues)) TYPE.ticketChecksum = true :=
    (Signing.signatureAt_isSome job.zeroValues rfl).mpr (job.ticket_slot_iff.mpr included)
  unfold signTicket
  rw [if_pos has, noTicket]
  exact ⟨_, rfl⟩

theorem signExtended_eq :
    signExtended (placed (job.signing.entries job.zeroValues))
        (job.kdcSignature checksums)
        (layout (job.signing.entries (job.withTicket checksums))) =
      .ok (layout (job.signing.entries (job.withExtended checksums))) :=
  job.write_step (job.filled_withTicket checksums) rfl
    (checksums.fixedLength (job.profileOf TYPE.extendedKdcChecksum)
      job.spec.kdcKey.key kerbNonKerbCksumSalt _)

theorem length_serverSig : (job.serverSig checksums).length = job.serverProfile.checksumBytes :=
  checksums.fixedLength _ _ _ _

theorem length_kdcSignature (message : Buffer) :
    (job.kdcSignature checksums message).length = job.kdcProfile.checksumBytes :=
  checksums.fixedLength _ _ _ _

/-- The signing pass fills every slot with the checksum of what stood before
it. -/
theorem signAssembled_eq
    (ticketGiven : job.spec.includeTicketSignature = true → job.spec.ticketBytes.isSome = true) :
    signAssembled checksums
        { bytes := layout (job.signing.entries job.zeroValues)
          placed := placed (job.signing.entries job.zeroValues) }
        job.spec =
      .ok (layout (job.signedEntries checksums)) := by
  have ticketStep := job.signTicket_eq checksums ticketGiven
  have extendedStep := job.signExtended_eq checksums
  have serverStep :=
    Signing.writeSignature_slot job.server_slot job.filled_zeroValues
      (job.filled_withExtended checksums)
      (job.length_serverSig checksums)
  have kdcStep :=
    Signing.writeSignature_slot job.kdc_slot job.filled_zeroValues
      (job.filled_withServer checksums)
      (job.length_kdcSignature checksums (job.serverSig checksums))
  rw [signAssembled, job.server_found, Fallible.ok_bind, job.kdc_found, Fallible.ok_bind]
  show (signTicket _ (job.kdcSignature checksums) _ _ >>= _) = _
  rw [ticketStep, Fallible.ok_bind]
  show (signExtended _ (job.kdcSignature checksums) _ >>= _) = _
  rw [extendedStep, Fallible.ok_bind]
  show (writeSignature _ _ (job.serverSig checksums) _ >>= _) = _
  rw [serverStep, Fallible.ok_bind]
  exact kdcStep

end SigningJob

end IyaSts.Krb5Pac
