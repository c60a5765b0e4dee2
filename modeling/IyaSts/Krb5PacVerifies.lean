import IyaSts.Krb5PacSigns

namespace IyaSts.Krb5Pac

/-!
# What is signed is what is verified

Verifying zeroes the slots that were filled later, which gives the layout each
signature was made over, so every signature verifies with the keys it was made
with.
-/

open CursorCodec List
open Krb5Ndr
open Krb5Profiles

/-- Every signature a PAC holds is among the answers, and each is verified. -/
structure AllVerified {Value : Type} (pac : Pac Value) (results : List SignatureCheck) :
    Prop where
  each_answered :
    ∀ b ∈ pac.buffers, isSignatureBuffer b.type = true → ∃ result ∈ results, result.type = b.type
  each_verified : ∀ result ∈ results, result.verified = some true

namespace SigningJob

variable (job : SigningJob)
variable (checksums : Checksums)

/-- The keys a signed PAC is checked with: those it was signed with. -/
def keys : VerifyingKeys where
  serverKey := some job.spec.serverKey
  kdcKey := some job.spec.kdcKey
  ticketBytes := job.spec.ticketBytes

section

variable {Value : Type}
variable {parseContent : Nat → Buffer → Except String (Option Value)}
variable {pac : Pac Value}

theorem alloc_serverSig :
    Buffer.alloc (job.serverSig checksums).length = job.zeroValues TYPE.serverChecksum := by
  rw [job.length_serverSig]
  rfl

variable {type : Nat} {data : Buffer} {slot : SignatureSlot} {c : Coverage}

theorem alloc_kdcSignature (message : Buffer) (isKdc : type ≠ TYPE.serverChecksum) :
    Buffer.alloc (job.kdcSignature checksums message).length = job.zeroValues type := by
  rw [job.length_kdcSignature, zeroValues, profileOf, if_neg isKdc]

/-- Before the server's signature, its slot and the KDC's were zero. -/
theorem withExtended_of_signedValues :
    Function.update
        (Function.update (job.signedValues checksums) TYPE.serverChecksum
          (Buffer.alloc
            (job.signedValues checksums TYPE.serverChecksum).length))
        TYPE.kdcChecksum
        (Buffer.alloc
          (Function.update (job.signedValues checksums) TYPE.serverChecksum
            (Buffer.alloc
              (job.signedValues checksums TYPE.serverChecksum).length)
            TYPE.kdcChecksum).length) =
      job.withExtended checksums := by
  have serverValue : job.signedValues checksums TYPE.serverChecksum = job.serverSig checksums := rfl
  have kdcValue :
      Function.update (job.signedValues checksums) TYPE.serverChecksum
          (Buffer.alloc (job.signedValues checksums TYPE.serverChecksum).length)
          TYPE.kdcChecksum =
        job.kdcSignature checksums (job.serverSig checksums) := rfl
  rw [kdcValue, serverValue, job.alloc_serverSig,
    job.alloc_kdcSignature checksums _ (show TYPE.kdcChecksum ≠ TYPE.serverChecksum by decide)]
  funext type
  by_cases isKdc : type = TYPE.kdcChecksum
  · subst isKdc
    rfl
  · rw [Function.update_of_ne isKdc]
    by_cases isServer : type = TYPE.serverChecksum
    · subst isServer
      rfl
    · rw [Function.update_of_ne isServer, signedValues, Function.update_of_ne isKdc, withServer,
        Function.update_of_ne isServer]

/-- The server's signature is checked over what it was made over. -/
theorem zeroed_server (read : ReadFrom parseContent pac (job.signedEntries checksums)) :
    pacWithSignaturesZeroed pac [TYPE.serverChecksum, TYPE.kdcChecksum] =
      layout (job.signing.entries (job.withExtended checksums)) := by
  have filled := job.filled_signedValues checksums
  have serverZeroed :
      job.signing.Filled
        (Function.update (job.signedValues checksums) TYPE.serverChecksum
          (Buffer.alloc (job.signedValues checksums TYPE.serverChecksum).length)) :=
    job.filled_update filled (by
      rw [Buffer.length_alloc]
      exact job.length_serverSig checksums)
  rw [pacWithSignaturesZeroed_eq, read.raw, foldl_cons, foldl_cons, foldl_nil,
    signedEntries, Signing.zeroType_eq read filled filled rfl,
    Signing.zeroType_eq read filled serverZeroed rfl, job.withExtended_of_signedValues]

/-- The extended signature is checked over what it was made over. -/
theorem zeroed_extended (read : ReadFrom parseContent pac (job.signedEntries checksums)) :
    pacWithSignaturesZeroed pac
        [TYPE.serverChecksum, TYPE.kdcChecksum, TYPE.extendedKdcChecksum] =
      layout (job.signing.entries (job.withTicket checksums)) := by
  have server := job.zeroed_server checksums read
  have extendedValue :
      job.withExtended checksums TYPE.extendedKdcChecksum =
        job.kdcSignature checksums (layout (job.signing.entries (job.withTicket checksums))) := rfl
  have ticketValue :
      job.withTicket checksums TYPE.extendedKdcChecksum =
        job.zeroValues TYPE.extendedKdcChecksum := rfl
  rw [pacWithSignaturesZeroed_eq] at server ⊢
  rw [foldl_cons, foldl_cons, foldl_nil] at server
  rw [foldl_cons, foldl_cons, foldl_cons, foldl_nil, server,
    Signing.zeroType_eq read (job.filled_signedValues checksums)
      (job.filled_withExtended checksums) rfl,
    extendedValue,
    job.alloc_kdcSignature checksums _
      (show TYPE.extendedKdcChecksum ≠ TYPE.serverChecksum by decide),
    withExtended, Function.update_idem, ← ticketValue,
    Function.update_eq_self]

/-- A signature that is the checksum of its data verifies. -/
theorem checkSignature_true {signature : PacSignature} {key : Key} {profile : EtypeProfile}
    (found : etypeById key.etype = .ok profile)
    (isType : signature.signatureType = profile.checksumType)
    (isValue : signature.signature = checksums.checksum profile key.key kerbNonKerbCksumSalt data)
    (keyLabel : String) :
    (checkSignature checksums signature keyLabel key data).1 = true := by
  have profileIs : profileForSignatureType profile.checksumType = .ok profile := by
    rcases KnownProfile.cases ⟨_, found⟩ with
      rfl | rfl | rfl | rfl | rfl <;> rfl
  have verifies :
      checksums.verifyChecksum profile key.key kerbNonKerbCksumSalt data
        signature.signature = true := by
    rw [isValue]
    exact equalConstantTime_self _
  rw [checkSignature, isType, profileIs]
  dsimp only
  rw [if_neg (by simpa using id_of_etypeById found), if_pos verifies]

/-- The buffer of a slot's type is the slot's. -/
theorem bufferOfType_slot (read : ReadFrom parseContent pac (job.signedEntries checksums))
    (isSlot : slot ∈ job.signing.slots) :
    ∃ entry signature,
      bufferOfType pac slot.type = some entry ∧
        entry.signature? = some signature ∧
        Signing.ReadSlot slot (job.signedValues checksums) signature := by
  obtain ⟨earlier, entry, later, signature, isSplit, earlierOther, _, isType,
      _, isRead, slotRead, _⟩ :=
    Signing.buffers_split read (job.filled_signedValues checksums) isSlot
  have notEarlier : earlier.find? (fun b => b.type == slot.type) = none := by
    rw [List.find?_eq_none]
    intro b isBuffer
    simpa using earlierOther b isBuffer
  refine ⟨entry, signature, ?_, isRead, slotRead⟩
  rw [bufferOfType, isSplit, List.find?_append, notEarlier]
  simp [isType]

/-- A type no slot has is no buffer's. -/
theorem bufferOfType_none (read : ReadFrom parseContent pac (job.signedEntries checksums))
    (isSignature : isSignatureBuffer type = true)
    (noSlot : ¬ ∃ slot ∈ job.signing.slots, slot.type = type) :
    bufferOfType pac type = none := by
  rw [bufferOfType, List.find?_eq_none, read.buffers]
  intro b isBuffer sameType
  obtain ⟨p, isPlaced, rfl⟩ := mem_map.mp isBuffer
  rw [bufferAt_type] at sameType
  apply noSlot
  apply (Signing.signatureAt_isSome (job.signedValues checksums) isSignature).mp
  rw [signatureAt, Option.isSome_map, List.find?_isSome]
  exact ⟨p, isPlaced, sameType⟩

/-- The key a row of the coverage is checked with. -/
def keyOf : Role → Key
  | .serviceKey => job.spec.serverKey
  | .krbtgtKey => job.spec.kdcKey

/-- A slot checked over what it was made over answers verified. -/
theorem check_slot (read : ReadFrom parseContent pac (job.signedEntries checksums))
    (isSlot : slot ∈ job.signing.slots) (isType : c.type = slot.type)
    (found : etypeById (job.keyOf c.role).etype = .ok slot.profile) (isData : c.data = some data)
    (isValue :
      job.signedValues checksums slot.type =
        checksums.checksum slot.profile (job.keyOf c.role).key kerbNonKerbCksumSalt data) :
    ∃ out,
      check checksums pac job.keys c = some out ∧
        out.type = slot.type ∧ out.verified = some true := by
  obtain ⟨entry, signature, isBuffer, isRead, slotRead⟩ :=
    job.bufferOfType_slot checksums read isSlot
  have verdict :=
    checkSignature_true checksums found slotRead.type_eq
      (slotRead.value_eq.trans isValue) c.role.name
  unfold check
  rw [isType, isBuffer, isData]
  cases isRole : c.role with
  | serviceKey =>
    rw [isRole] at verdict
    refine ⟨_, rfl, ?_, ?_⟩
    · simp [isRead, keys]
    · simpa [isRead, keys, keyOf] using verdict
  | krbtgtKey =>
    rw [isRole] at verdict
    refine ⟨_, rfl, ?_, ?_⟩
    · simp [isRead, keys]
    · simpa [isRead, keys, keyOf] using verdict

theorem check_none (read : ReadFrom parseContent pac (job.signedEntries checksums))
    (isSignature : isSignatureBuffer c.type = true)
    (noSlot : ¬ ∃ slot ∈ job.signing.slots, slot.type = c.type) :
    check checksums pac job.keys c = none := by
  unfold check
  rw [job.bufferOfType_none checksums read isSignature noSlot]
  rfl

/-- What a row of the coverage comes to: verified where the PAC holds its
signature, nothing where it does not. -/
def RowAnswered (c : Coverage) (answer : Option SignatureCheck) : Prop :=
  (∃ out, answer = some out ∧ out.type = c.type ∧ out.verified = some true) ∨
    (answer = none ∧ ¬ ∃ slot ∈ job.signing.slots, slot.type = c.type)

/-- Every row answers. -/
theorem coverage_answered
    (ticketGiven : job.spec.includeTicketSignature = true → job.spec.ticketBytes.isSome = true)
    (read : ReadFrom parseContent pac (job.signedEntries checksums)) :
    ∀ c ∈ signatureCoverage pac job.spec.ticketBytes,
      job.RowAnswered c (check checksums pac job.keys c) := by
  obtain ⟨serverEntry, serverSignature, isServer, serverRead, serverSlot⟩ :=
    job.bufferOfType_slot checksums read job.server_slot
  have serverData :
      ((bufferOfType pac TYPE.serverChecksum).bind
          PacBuffer.signature?).map PacSignature.signature =
        some (job.serverSig checksums) := by
    rw [isServer, Option.bind_some, serverRead, Option.map_some, serverSlot.value_eq]
    rfl
  have zeroedServer := job.zeroed_server checksums read
  have zeroedExtended := job.zeroed_extended checksums read
  intro c isRow
  rw [signatureCoverage] at isRow
  simp only [mem_cons, not_mem_nil, or_false] at isRow
  rcases isRow with rfl | rfl | rfl | rfl
  · exact .inl
      (job.check_slot checksums read job.server_slot rfl job.server_found
        (congrArg some zeroedServer) rfl)
  · exact .inl (job.check_slot checksums read job.kdc_slot rfl job.kdc_found serverData rfl)
  · by_cases hasSlot : ∃ slot ∈ job.signing.slots, slot.type = TYPE.extendedKdcChecksum
    · have included := job.extended_slot_iff.mp hasSlot
      exact .inl
        (job.check_slot checksums read
          ((job.mem_slots_iff _).mpr (.inr (.inl ⟨included, rfl⟩)))
          rfl job.kdc_found (congrArg some zeroedExtended) rfl)
    · exact .inr ⟨job.check_none checksums read rfl hasSlot, hasSlot⟩
  · by_cases hasSlot : ∃ slot ∈ job.signing.slots, slot.type = TYPE.ticketChecksum
    · have included := job.ticket_slot_iff.mp hasSlot
      obtain ⟨ticketBytes, isTicket⟩ := Option.isSome_iff_exists.mp (ticketGiven included)
      have isValue :
          job.signedValues checksums TYPE.ticketChecksum =
            job.kdcSignature checksums ticketBytes := by
        have isValue :
            job.signedValues checksums TYPE.ticketChecksum =
              job.kdcSignature checksums (job.spec.ticketBytes.getD []) :=
          rfl
        rw [isValue, isTicket]
        rfl
      exact .inl
        (job.check_slot checksums read
          ((job.mem_slots_iff _).mpr (.inl ⟨included, rfl⟩))
          rfl job.kdc_found isTicket isValue)
    · exact .inr ⟨job.check_none checksums read rfl hasSlot, hasSlot⟩

theorem types_signatureCoverage (pac : Pac Value) (ticketBytes : Option Buffer) :
    (signatureCoverage pac ticketBytes).map Coverage.type =
      [TYPE.serverChecksum, TYPE.kdcChecksum, TYPE.extendedKdcChecksum, TYPE.ticketChecksum] := rfl

/-- A signed PAC verifies with the keys it was signed with. -/
theorem verifySignatures_signed
    (ticketGiven : job.spec.includeTicketSignature = true → job.spec.ticketBytes.isSome = true)
    (read : ReadFrom parseContent pac (job.signedEntries checksums)) :
    AllVerified pac (verifySignatures checksums pac job.keys) := by
  have answered := job.coverage_answered checksums ticketGiven read
  constructor
  · intro b isBuffer isSignature
    have hasSlot : ∃ slot ∈ job.signing.slots, slot.type = b.type := by
      by_contra noSlot
      have noBuffer := job.bufferOfType_none checksums read isSignature noSlot
      rw [bufferOfType, List.find?_eq_none] at noBuffer
      exact noBuffer b isBuffer (beq_self_eq_true _)
    have isRow : b.type ∈ (signatureCoverage pac job.spec.ticketBytes).map Coverage.type := by
      obtain ⟨slot, isSlot, isType⟩ := hasSlot
      rw [← isType, types_signatureCoverage]
      rcases (job.mem_slots_iff slot).mp isSlot with
        ⟨_, rfl⟩ | ⟨_, rfl⟩ | rfl | rfl <;> simp
    obtain ⟨c, isRow, isType⟩ := mem_map.mp isRow
    rcases answered c isRow with ⟨out, isAnswer, outType, _⟩ | ⟨_, noSlot⟩
    · exact ⟨out, mem_filterMap.mpr ⟨c, isRow, isAnswer⟩, outType.trans isType⟩
    · rw [isType] at noSlot
      exact absurd hasSlot noSlot
  · intro result isResult
    obtain ⟨c, isRow, isAnswer⟩ := mem_filterMap.mp isResult
    rcases answered c isRow with ⟨out, isOut, _, verified⟩ | ⟨isNone, _⟩
    · rw [isAnswer] at isOut
      cases isOut
      exact verified
    · rw [isAnswer] at isNone
      cases isNone

end

end SigningJob

end IyaSts.Krb5Pac
