import IyaSts.Krb5PacCarries
import IyaSts.Krb5PacMints

namespace IyaSts.Krb5Pac

/-!
# Minting, verifying and re-signing agree

A PAC that is minted or re-signed verifies with the keys it was signed with,
within the reader's limits, and a re-signed one holds the buffers that lay inside
the PAC it was made of.
-/

open CursorCodec List
open Krb5Ndr
open Krb5Profiles

section

variable {Value : Type}
variable (checksums : Checksums)
variable {encoders : ContentEncoders Value}

/-- Buffers the caller does not replace. -/
def ResignSpec.keeps (spec : ResignSpec Value) (type : Nat) : Bool :=
  !((type == TYPE.clientClaims && spec.clientClaims.isSome) ||
    (type == TYPE.delegationInfo && spec.delegationInfo.isSome))

variable (encoders)

/-- What a re-signing asks for can be made of a PAC. -/
structure Resignable (existing : Pac Value) (spec : ResignSpec Value) :
    Prop where
  some_content : ∃ b ∈ contentBuffers existing, b.2.isSome = true
  server_known : ∃ profile, etypeById spec.signing.serverKey.etype = .ok profile
  kdc_known : ∃ profile, etypeById spec.signing.kdcKey.etype = .ok profile
  ticket_given : spec.signing.TicketGiven
  claims_encoded :
    ∀ claims,
      spec.clientClaims = some (some claims) →
        ∃ bytes, encoders.encodeClaimsSetMetadata claims = .ok bytes
  delegation_encoded :
    ∀ info,
      spec.delegationInfo = some info → ∃ bytes, encoders.encodeDelegationInfo info = .ok bytes

/-- The buffers of a re-signed PAC against those of the PAC it was made of. -/
structure Carries (spec : ResignSpec Value) (before after : List (Nat × Option Buffer)) :
    Prop where
  kept :
    (after.filter fun b => spec.keeps b.1) = before.filter fun b => b.2.isSome && spec.keeps b.1
  claims_removed : spec.clientClaims = some none → ∀ b ∈ after, b.1 ≠ TYPE.clientClaims
  claims_replaced :
    ∀ claims,
      spec.clientClaims = some (some claims) →
        ∃ bytes,
          encoders.encodeClaimsSetMetadata claims = .ok bytes ∧
            (after.filter fun b => b.1 == TYPE.clientClaims) = [(TYPE.clientClaims, some bytes)]
  delegation_replaced :
    ∀ info,
      spec.delegationInfo = some info →
        ∃ bytes,
          encoders.encodeDelegationInfo info = .ok bytes ∧
            (after.filter fun b => b.1 == TYPE.delegationInfo) = [(TYPE.delegationInfo, some bytes)]

variable {encoders}

theorem replaceClaims_ok {clientClaims : Option (Option Value)}
    (encoded :
      ∀ claims,
        clientClaims = some (some claims) →
          ∃ bytes, encoders.encodeClaimsSetMetadata claims = .ok bytes)
    (entries : List PacEntry) :
    ∃ result, replaceClaims encoders entries clientClaims = .ok result := by
  cases clientClaims with
  | none => exact ⟨_, rfl⟩
  | some stated =>
    cases stated with
    | none => exact ⟨_, rfl⟩
    | some claims =>
      obtain ⟨bytes, isEncoded⟩ := encoded claims rfl
      rw [replaceClaims, isEncoded]
      exact ⟨_, rfl⟩

theorem replaceDelegation_ok {delegationInfo : Option Value}
    (encoded :
      ∀ info, delegationInfo = some info → ∃ bytes, encoders.encodeDelegationInfo info = .ok bytes)
    (entries : List PacEntry) :
    ∃ result, replaceDelegation encoders entries delegationInfo = .ok result := by
  cases delegationInfo with
  | none => exact ⟨_, rfl⟩
  | some info =>
    obtain ⟨bytes, isEncoded⟩ := encoded info rfl
    rw [replaceDelegation, isEncoded]
    exact ⟨_, rfl⟩

theorem map_content_filter (entries : List PacEntry) (test : Nat → Bool) :
    ((entries.map PacEntry.content).filter fun b => test b.1) =
      (entries.filter fun e => test e.type).map PacEntry.content := by
  rw [filter_map]
  rfl

variable {existing : Pac Value} {spec : ResignSpec Value} {all text : Buffer}

/-- The content entries of a re-signing carry the buffers of the PAC. -/
theorem resignEntries_carries (resignable : Resignable encoders existing spec) :
    ∃ entries,
      resignEntries encoders existing spec = .ok entries ∧
        Carries encoders spec (contentBuffers existing) (entries.map PacEntry.content) ∧
        ∀ e ∈ entries,
          e ∈ carriedEntries existing ∨ e.type = TYPE.clientClaims ∨
            e.type = TYPE.delegationInfo := by
  obtain ⟨b, isContent, inside⟩ := resignable.some_content
  have isCarried : b ∈ (carriedEntries existing).map PacEntry.content := by
    rw [carriedEntries_content]
    exact mem_filter.mpr ⟨isContent, inside⟩
  have someEntry : (carriedEntries existing).isEmpty = false := by
    cases isNil : carriedEntries existing with
    | nil =>
      rw [isNil] at isCarried
      cases isCarried
    | cons e entries => rfl
  obtain ⟨claimed, replacesClaims⟩ :=
    replaceClaims_ok resignable.claims_encoded (carriedEntries existing)
  obtain ⟨entries, replacesDelegation⟩ := replaceDelegation_ok resignable.delegation_encoded claimed
  obtain ⟨claimsKeep, claimsRemoved, claimsReplaced, claimsMem⟩ := replaceClaims_does replacesClaims
  obtain ⟨delegationKeeps, delegationReplaced, delegationMem⟩ :=
    replaceDelegation_does replacesDelegation
  have claimsLast :
      entries.filter (ofType TYPE.clientClaims) = claimed.filter (ofType TYPE.clientClaims) := by
    refine delegationKeeps _ fun _ e isInfo => ?_
    have isInfo : e.type = TYPE.delegationInfo := by simpa [ofType] using isInfo
    simp [ofType, isInfo, TYPE.delegationInfo, TYPE.clientClaims]
  have keptEntries :
      (entries.filter fun e => spec.keeps e.type) =
        (carriedEntries existing).filter fun e => spec.keeps e.type := by
    rw [delegationKeeps, claimsKeep]
    · intro isStated e isClaims
      have isClaims : e.type = TYPE.clientClaims := by simpa [ofType] using isClaims
      simp [ResignSpec.keeps, isClaims, isStated]
    · intro isStated e isInfo
      have isInfo : e.type = TYPE.delegationInfo := by simpa [ofType] using isInfo
      simp [ResignSpec.keeps, isInfo, isStated]
  refine ⟨entries, ?_, ⟨?_, ?_, ?_, ?_⟩, ?_⟩
  · unfold resignEntries
    simp only [someEntry]
    show (replaceClaims encoders _ _ >>= _) = _
    rw [replacesClaims, Fallible.ok_bind]
    exact replacesDelegation
  · rw [map_content_filter, keptEntries, ← map_content_filter,
      carriedEntries_content, filter_filter]
    apply filter_congr
    intro b _
    exact Bool.and_comm _ _
  · intro isRemoved b isBuffer isClaims
    obtain ⟨e, isEntry, rfl⟩ := mem_map.mp isBuffer
    have noClaims := claimsLast.trans (claimsRemoved isRemoved)
    rw [filter_eq_nil_iff] at noClaims
    exact noClaims e isEntry (by simpa [ofType, PacEntry.content] using isClaims)
  · intro claims isStated
    obtain ⟨bytes, isEncoded, isOnly⟩ := claimsReplaced claims isStated
    refine ⟨bytes, isEncoded, ?_⟩
    have isLast := claimsLast.trans isOnly
    rw [@map_content_filter entries (· == TYPE.clientClaims)]
    exact congrArg (List.map PacEntry.content) isLast
  · intro info isStated
    obtain ⟨bytes, isEncoded, isOnly⟩ := delegationReplaced info isStated
    refine ⟨bytes, isEncoded, ?_⟩
    rw [@map_content_filter entries (· == TYPE.delegationInfo)]
    exact congrArg (List.map PacEntry.content) isOnly
  · intro e isEntry
    rcases delegationMem e isEntry with isClaimed | isInfo
    · rcases claimsMem e isClaimed with isCarried | isClaims
      · exact .inl isCarried
      · exact .inr (.inl isClaims)
    · exact .inr (.inr isInfo)

/-! ### The types a PAC was read with -/

theorem readEntry_type_lt {i start stop : Nat} {result : PacBuffer Value × List String}
    (reads : readEntry all i text start = .ok (result, stop)) :
    result.1.type < 2 ^ 32 := by
  obtain ⟨ulType, _, readType, reads⟩ := bind_eq_ok reads
  obtain ⟨size, _, _, reads⟩ := bind_eq_ok reads
  obtain ⟨off, _, _, reads⟩ := bind_eq_ok reads
  have isWord : ulType < 2 ^ 32 := u32_lt readType
  dsimp only at reads
  split at reads <;>
    · cases reads
      exact isWord

theorem readTable_type_lt {start version stop : Nat} {table : List (PacBuffer Value × List String)}
    (reads : readTable all text start = .ok ((version, table), stop)) :
    ∀ row ∈ table, row.1.type < 2 ^ 32 := by
  obtain ⟨cBuffers, _, _, reads⟩ := bind_eq_ok reads
  obtain ⟨isVersion, middle, _, reads⟩ := bind_eq_ok reads
  split at reads
  · cases reads
  split at reads
  · cases reads
  split at reads
  · cases reads
  obtain ⟨rows, last, readRows, isTable⟩ := bind_eq_ok reads
  cases isTable
  intro row isRow
  obtain ⟨i, _, before, after, readRow⟩ := mem_of_mapM readRows row isRow
  exact readEntry_type_lt readRow

variable {parseContent : Nat → Buffer → Except String (Option Value)}

theorem parseEntry_type (entry : PacBuffer Value) :
    (parseEntry parseContent entry).1.type = entry.type := by
  unfold parseEntry
  split
  · rfl
  · split <;> rfl

/-- The types of the buffers read are 32-bit values. -/
theorem parsePac_type_lt {pac : Pac Value} (reads : parsePac parseContent all = .ok pac) :
    ∀ b ∈ pac.buffers, b.type < 2 ^ 32 := by
  unfold parsePac at reads
  obtain ⟨⟨version, table⟩, readsTable, isPac⟩ := (Fallible.bind_eq_ok_iff _ _ _).mp reads
  cases isPac
  have rowTypes : ∀ row ∈ table, row.1.type < 2 ^ 32 := by
    unfold readStream at readsTable
    split at readsTable
    · cases readsTable
    · cases isRead :
          (readTable all :
            NdrReading (Nat × List (PacBuffer Value × List String))) all 0 with
      | error failure =>
        rw [isRead] at readsTable
        cases readsTable
      | ok result =>
        obtain ⟨⟨isVersion, rows⟩, stop⟩ := result
        rw [isRead] at readsTable
        cases readsTable
        exact readTable_type_lt isRead
  intro b isBuffer
  simp only [map_map] at isBuffer
  obtain ⟨row, isRow, rfl⟩ := mem_map.mp isBuffer
  show (parseEntry parseContent row.1).1.type < _
  rw [parseEntry_type]
  exact rowTypes row isRow

theorem mem_carriedEntries {e : PacEntry} (isCarried : e ∈ carriedEntries existing) :
    isSignatureBuffer e.type = false ∧ ∃ b ∈ existing.buffers, b.type = e.type := by
  obtain ⟨b, isBuffer, isEntry⟩ := mem_filterMap.mp isCarried
  by_cases isSignature : isSignatureBuffer b.type = true
  · rw [if_pos isSignature] at isEntry
    cases isEntry
  · rw [if_neg isSignature] at isEntry
    obtain ⟨bytes, _, rfl⟩ := Option.map_eq_some_iff.mp isEntry
    exact ⟨by simpa using isSignature, b, isBuffer, rfl⟩

/-- A re-signed PAC is the signed layout of its content entries. -/
theorem resignPac_signed {pacBytes : Buffer} (reads : parsePac parseContent pacBytes = .ok existing)
    (resignable : Resignable encoders existing spec) :
    ∃ job : SigningJob,
      resignEntries encoders existing spec = .ok job.contents ∧
        Carries encoders spec (contentBuffers existing) (job.contents.map PacEntry.content) ∧
        (∀ e ∈ job.contents, e.type < 2 ^ 32) ∧
        job.spec = spec.signing ∧
        resignPac checksums encoders parseContent pacBytes spec =
          .ok (layout (job.signedEntries checksums)) := by
  obtain ⟨serverProfile, serverFound⟩ := resignable.server_known
  obtain ⟨kdcProfile, kdcFound⟩ := resignable.kdc_known
  obtain ⟨entries, isResigned, carries, entriesMem⟩ := resignEntries_carries resignable
  have typesFit : ∀ e ∈ entries, e.type < 2 ^ 32 := by
    intro e isEntry
    rcases entriesMem e isEntry with isCarried | isClaims | isInfo
    · obtain ⟨_, b, isBuffer, sameType⟩ := mem_carriedEntries isCarried
      rw [← sameType]
      exact parsePac_type_lt reads b isBuffer
    · rw [isClaims]
      decide
    · rw [isInfo]
      decide
  let job : SigningJob := {
    contents := entries
    spec := spec.signing
    serverProfile := serverProfile
    kdcProfile := kdcProfile
    server_found := serverFound
    kdc_found := kdcFound
    contents_other := by
      intro e isEntry
      rcases entriesMem e isEntry with isCarried | isClaims | isInfo
      · exact (mem_carriedEntries isCarried).1
      · rw [isClaims]
        rfl
      · rw [isInfo]
        rfl
  }
  refine ⟨job, isResigned, carries, typesFit, rfl, ?_⟩
  unfold resignPac
  rw [reads, Fallible.ok_bind, kdcFound, Fallible.ok_bind, serverFound,
    Fallible.ok_bind, isResigned, Fallible.ok_bind]
  exact job.sign_eq checksums resignable.ticket_given

end

/--
Minting, verifying and re-signing agree, within what the reader takes: a PAC of
at most `MAX_NDR_BYTES` octets and `MAX_BUFFERS` buffers.  Re-signing carries the
buffers that lie inside the PAC it is given, which must hold one.
-/
theorem signatures_agree {Value : Type} (checksums : Checksums) (encoders : ContentEncoders Value)
    (parseContent : Nat → Buffer → Except String (Option Value)) :
    (∀ (spec : BuildSpec Value) (bytes : Buffer),
      buildPac checksums encoders spec = .ok bytes →
      bytes.length ≤ maxNdrBytes →
        ∃ pac,
          parsePac parseContent bytes = .ok pac ∧
            signatureTypes pac = spec.signing.requestedTypes ∧
            AllVerified pac (verifySignatures checksums pac spec.signing.verifyingKeys)) ∧
    (∀ (pacBytes : Buffer) (existing : Pac Value) (spec : ResignSpec Value),
      parsePac parseContent pacBytes = .ok existing →
      Resignable encoders existing spec →
        ∃ entries bytes,
          resignEntries encoders existing spec = .ok entries ∧
            resignPac checksums encoders parseContent pacBytes spec = .ok bytes ∧
            (entries.length + spec.signing.requestedTypes.length ≤
                maxBuffers →
              bytes.length ≤ maxNdrBytes →
                ∃ pac,
                  parsePac parseContent bytes = .ok pac ∧
                    Carries encoders spec (contentBuffers existing) (contentBuffers pac) ∧
                    signatureTypes pac = spec.signing.requestedTypes ∧
                    AllVerified pac
                      (verifySignatures checksums pac spec.signing.verifyingKeys))) := by
  constructor
  · intro spec bytes builds short
    obtain ⟨job, isBuilt, isSpec, ticketGiven, isLayout⟩ := buildPac_signed checksums builds
    obtain ⟨few, types⟩ := buildEntries_mem isBuilt
    have fewSignatures := requestedTypes_length job.spec
    rw [isLayout] at short ⊢
    obtain ⟨pac, reads, verified, _, signatures⟩ :=
      job.signed_verifies checksums parseContent ticketGiven
        (fun e isEntry => (mintedTypes_content _ (types e isEntry)).2)
        (by simp only [maxBuffers]; omega) short
    rw [isSpec] at verified signatures
    exact ⟨pac, reads, signatures, verified⟩
  · intro pacBytes existing spec reads resignable
    obtain ⟨job, isResigned, carries, typesFit, isSpec, resigns⟩ :=
      resignPac_signed checksums reads resignable
    refine ⟨job.contents, _, isResigned, resigns, fun few short => ?_⟩
    rw [← isSpec] at few
    obtain ⟨pac, readsResult, verified, contents, signatures⟩ :=
      job.signed_verifies checksums parseContent
        (isSpec ▸ resignable.ticket_given) typesFit few short
    rw [isSpec] at verified signatures
    rw [← contents] at carries
    exact ⟨pac, readsResult, carries, signatures, verified⟩

/-! ## At the reader's limits -/

/-- Checksums that depend on the key and on the whole message. -/
def remainderChecksums : Checksums where
  checksum := fun profile key usage message =>
    Buffer.littleEndian profile.checksumBytes
      ((Buffer.bigEndianValue (key ++ message) + usage) % (2 ^ 89 - 1))
  fixedLength := fun _ _ _ _ => Buffer.length_littleEndian _ _

/-- Encoders that write eight zeros. -/
def blankEncoders : ContentEncoders Unit where
  encodeLogonInfo := fun _ => .ok (Buffer.alloc 8)
  encodeUpnDnsInfo := fun _ => .ok (Buffer.alloc 8)
  encodeClaimsSetMetadata := fun _ => .ok (Buffer.alloc 8)
  encodeAttributesInfo := fun _ => .ok (Buffer.alloc 8)
  encodeRequestorSid := fun _ => .ok (Buffer.alloc 8)
  encodeDelegationInfo := fun _ => .ok (Buffer.alloc 8)

/-- Content buffers that are listed and not decoded. -/
def undecoded : Nat → Buffer → Except String (Option Unit) := fun _ _ => .ok none

/-- Two keys and no optional signature. -/
def plainSigning : SigningSpec where
  serverKey := { etype := 17, key := [1, 2, 3] }
  kdcKey := { etype := 18, key := [4, 5, 6] }
  ticketBytes := none
  includeTicketSignature := false
  includeExtendedKdcSignature := false
  rodcIdentifier := none

/-- Contents signed with the two keys. -/
def plainJob (contents : List PacEntry)
    (contentsOther : ∀ e ∈ contents, isSignatureBuffer e.type = false) :
    SigningJob where
  contents := contents
  spec := plainSigning
  serverProfile := aesSha1Profile 17 16
  kdcProfile := aesSha1Profile 18 32
  server_found := rfl
  kdc_found := rfl
  contents_other := contentsOther

/-- A client's information and nothing else that is optional. -/
def namedClient (name : Text) : BuildSpec Unit where
  logonInfo := ()
  clientInfo := { clientIdLow := 0, clientIdHigh := 0, name := name }
  upnDns := none
  clientClaims := none
  attributes := none
  requestorSid := none
  delegationInfo := none
  signing := plainSigning

/-- Nothing replaced. -/
def plainResigning : ResignSpec Unit where
  clientClaims := none
  delegationInfo := none
  signing := plainSigning

theorem length_writeUnits (s : Text) {w : Writer} (aligned : w.bytes.length % 2 = 0) :
    (writeUnits s w).bytes.length = w.bytes.length + 2 * s.length := by
  induction s generalizing w with
  | nil => rfl
  | cons unit s ih =>
    have afterUnit : (w.u16 unit.toNat).bytes.length = w.bytes.length + 2 := by
      simp [Writer.u16, padding, aligned]
    have rest := ih (w := w.u16 unit.toNat) (by omega)
    rw [writeUnits, Writer.each] at rest ⊢
    rw [foldl_cons, rest, afterUnit, length_cons]
    omega

/-- A minted PAC is at least as long as its client's name. -/
theorem buildPac_named (name : Text) :
    ∃ bytes,
      buildPac remainderChecksums blankEncoders (namedClient name) =
          .ok bytes ∧
        2 * name.length ≤ bytes.length := by
  let clientInfo : PacEntry := {
    type := TYPE.clientInfo
    bytes := encodeClientInfo (namedClient name).clientInfo
  }
  let contents : List PacEntry := [{ type := TYPE.logonInfo, bytes := Buffer.alloc 8 }, clientInfo]
  have contentsOther : ∀ e ∈ contents, isSignatureBuffer e.type = false := by
    intro e isEntry
    simp only [contents, mem_cons, not_mem_nil, or_false] at isEntry
    rcases isEntry with rfl | rfl <;> rfl
  have signs := (plainJob contents contentsOther).sign_eq remainderChecksums (by rintro ⟨⟩)
  have serverFound :
      etypeById (namedClient name).signing.serverKey.etype = .ok (aesSha1Profile 17 16) := rfl
  have kdcFound :
      etypeById (namedClient name).signing.kdcKey.etype = .ok (aesSha1Profile 18 32) := rfl
  have isBuilt : buildEntries blankEncoders (namedClient name) = .ok contents := rfl
  refine ⟨layout ((plainJob contents contentsOther).signedEntries remainderChecksums), ?_, ?_⟩
  · rw [buildPac, serverFound, Fallible.ok_bind, kdcFound, Fallible.ok_bind,
      isBuilt, Fallible.ok_bind]
    exact signs
  · have isEntry :
        clientInfo ∈
          (plainJob contents contentsOther).signedEntries
            remainderChecksums :=
      mem_append_left _ (mem_cons_of_mem _ mem_cons_self)
    have long := length_le_layout isEntry
    have clientLength : 2 * name.length ≤ clientInfo.bytes.length := by
      show _ ≤ (writeUnits name _).bytes.length
      rw [length_writeUnits name (by simp [Writer.u16, Writer.u32, padding, createWriter])]
      exact Nat.le_add_left _ _
    omega

/-- Contents the reader takes, re-signed with nothing replaced, are signed as
they are. -/
theorem resignPac_plain {contents : List PacEntry}
    (contentsOther : ∀ e ∈ contents, isSignatureBuffer e.type = false)
    (within : WithinLimits contents) :
    ∃ existing,
      parsePac undecoded (layout contents) = .ok existing ∧
        resignPac remainderChecksums blankEncoders undecoded
            (layout contents) plainResigning =
          .ok (layout ((plainJob contents contentsOther).signedEntries remainderChecksums)) := by
  obtain ⟨existing, reads, _, isBuffers⟩ := parsePac_layout undecoded within
  have isCarried : carriedEntries existing = contents := by
    have carries (offset : Nat) (entries : List PacEntry)
        (other : ∀ e ∈ entries, isSignatureBuffer e.type = false) :
        ((place offset entries).1.map (bufferAt undecoded)).filterMap
            (fun b =>
              if isSignatureBuffer b.type then
                none
              else
                b.bytes.map fun bytes => PacEntry.mk b.type bytes) =
          entries := by
      induction entries generalizing offset with
      | nil => rfl
      | cons e entries ih =>
        have rest :=
          ih
            (offset + e.bytes.length + padding 8 (offset + e.bytes.length))
            fun e isEntry => other e (mem_cons_of_mem _ isEntry)
        simp [place, other e mem_cons_self] at rest ⊢
        exact rest
    rw [carriedEntries, isBuffers]
    exact carries _ contents contentsOther
  have someEntry : contents.isEmpty = false := by simpa using within.some_entry
  have isResigned : resignEntries blankEncoders existing plainResigning = .ok contents := by
    unfold resignEntries
    rw [isCarried]
    simp only [someEntry]
    rfl
  have serverFound :
      etypeById plainResigning.signing.serverKey.etype = .ok (aesSha1Profile 17 16) := rfl
  have kdcFound : etypeById plainResigning.signing.kdcKey.etype = .ok (aesSha1Profile 18 32) := rfl
  refine ⟨existing, reads, ?_⟩
  unfold resignPac
  rw [reads, Fallible.ok_bind, kdcFound, Fallible.ok_bind, serverFound,
    Fallible.ok_bind, isResigned, Fallible.ok_bind]
  exact (plainJob contents contentsOther).sign_eq remainderChecksums (by rintro ⟨⟩)

/-- A PAC whose second buffer lies outside it. -/
def strayPac : Buffer :=
  Buffer.littleEndian 4 2 ++ Buffer.littleEndian 4 0 ++
    (Buffer.littleEndian 4 2 ++ Buffer.littleEndian 4 1 ++ Buffer.littleEndian 8 40) ++
    (Buffer.littleEndian 4 14 ++ Buffer.littleEndian 4 1 ++ Buffer.littleEndian 8 4000) ++
    [7, 0, 0, 0, 0, 0, 0, 0]

/-- A PAC that is a server's signature and nothing else. -/
def signatureOnlyPac : Buffer :=
  Buffer.littleEndian 4 1 ++ Buffer.littleEndian 4 0 ++
    (Buffer.littleEndian 4 6 ++ Buffer.littleEndian 4 16 ++ Buffer.littleEndian 8 24) ++
    (Buffer.littleEndian 4 15 ++ Buffer.alloc 12)

/-- The contents a PAC is read with. -/
def readContents (all : Buffer) : Option (List (Nat × Option Buffer)) :=
  match parsePac undecoded all with
  | .ok pac => some (contentBuffers pac)
  | .error _ => none

/-- The contents a PAC re-signed with nothing replaced is read with. -/
def resignedContents (all : Buffer) : Option (List (Nat × Option Buffer)) :=
  match resignPac remainderChecksums blankEncoders undecoded all plainResigning
  with
  | .ok bytes => readContents bytes
  | .error _ => none

/-- Sixty-three buffers are re-signed into sixty-five. -/
theorem resigned_tooMany :
    ∃ existing bytes,
      parsePac undecoded (layout (List.replicate 63 ⟨2, []⟩)) =
          .ok existing ∧
        resignPac remainderChecksums blankEncoders undecoded
            (layout (List.replicate 63 ⟨2, []⟩)) plainResigning =
          .ok bytes ∧
        ∀ pac, parsePac undecoded bytes ≠ .ok pac := by
  have contentsOther :
      ∀ e ∈ List.replicate 63 (PacEntry.mk 2 []), isSignatureBuffer e.type = false := by
    intro e isEntry
    rw [eq_of_mem_replicate isEntry]
    rfl
  have within : WithinLimits (List.replicate 63 (PacEntry.mk 2 [])) := by
    refine ⟨by decide, by decide, ?_, ?_⟩
    · intro e isEntry
      rw [eq_of_mem_replicate isEntry]
      decide
    · rw [length_layout]
      decide
  obtain ⟨existing, reads, resigns⟩ := resignPac_plain contentsOther within
  have lengthIs :
      ((plainJob _ contentsOther).signedEntries remainderChecksums).length =
        65 :=
    (plainJob _ contentsOther).length_signedEntries remainderChecksums
  exact ⟨existing, _, reads, resigns,
    parsePac_tooMany undecoded (by rw [lengthIs]; decide) (by rw [lengthIs]; decide)⟩

/-- A buffer that fills the longest PAC is re-signed into a longer one. -/
theorem resigned_tooLong {fill : Buffer} (isLength : fill.length = 1048552) :
    ∃ existing bytes,
      parsePac undecoded (layout [⟨2, fill⟩]) = .ok existing ∧
        resignPac remainderChecksums blankEncoders undecoded
            (layout [⟨2, fill⟩]) plainResigning =
          .ok bytes ∧
        ∀ pac, parsePac undecoded bytes ≠ .ok pac := by
  have contentsOther : ∀ e ∈ [PacEntry.mk 2 fill], isSignatureBuffer e.type = false := by
    intro e isEntry
    rw [mem_singleton.mp isEntry]
    rfl
  have within : WithinLimits [PacEntry.mk 2 fill] := by
    refine ⟨by simp, by simp [maxBuffers], ?_, ?_⟩
    · intro e isEntry
      rw [mem_singleton.mp isEntry]
      simp
    · rw [length_layout]
      simp [body, bodyStart, maxNdrBytes, padding, isLength]
  obtain ⟨existing, reads, resigns⟩ := resignPac_plain contentsOther within
  have isEntry :
      PacEntry.mk 2 fill ∈ (plainJob _ contentsOther).signedEntries remainderChecksums :=
    mem_append_left _ mem_cons_self
  have long := length_le_layout isEntry
  have lengthIs :
      ((plainJob _ contentsOther).signedEntries remainderChecksums).length =
        3 :=
    (plainJob _ contentsOther).length_signedEntries remainderChecksums
  rw [bodyStart, lengthIs, isLength] at long
  refine ⟨existing, _, reads, resigns, parsePac_tooLong undecoded ?_⟩
  simp only [maxNdrBytes]
  omega

/--
Beyond the limits: a client's name of 600000 code units is minted into a PAC that
is not read; sixty-three buffers, or one that fills the longest PAC, are re-signed
into one that is not; a buffer outside the PAC is not carried; and a PAC without
content buffers is not re-signed.
-/
theorem signatures_disagree :
    (∃ bytes,
      buildPac remainderChecksums blankEncoders
          (namedClient (List.replicate 600000 65)) = .ok bytes ∧
        ∀ pac, parsePac undecoded bytes ≠ .ok pac) ∧
    (∃ existing bytes,
      parsePac undecoded (layout (List.replicate 63 ⟨2, []⟩)) =
          .ok existing ∧
        resignPac remainderChecksums blankEncoders undecoded
            (layout (List.replicate 63 ⟨2, []⟩)) plainResigning =
          .ok bytes ∧
        ∀ pac, parsePac undecoded bytes ≠ .ok pac) ∧
    (∃ existing bytes,
      parsePac undecoded (layout [⟨2, Buffer.alloc 1048552⟩]) =
          .ok existing ∧
        resignPac remainderChecksums blankEncoders undecoded
            (layout [⟨2, Buffer.alloc 1048552⟩]) plainResigning =
          .ok bytes ∧
        ∀ pac, parsePac undecoded bytes ≠ .ok pac) ∧
    (readContents strayPac = some [(2, some [7]), (14, none)] ∧
      resignedContents strayPac = some [(2, some [7])]) ∧
    (readContents signatureOnlyPac = some [] ∧ resignedContents signatureOnlyPac = none) := by
  obtain ⟨bytes, builds, long⟩ := buildPac_named (List.replicate 600000 65)
  rw [length_replicate] at long
  have tooLong : maxNdrBytes < bytes.length := by
    simp only [maxNdrBytes]
    omega
  refine
    ⟨⟨bytes, builds, parsePac_tooLong undecoded tooLong⟩, resigned_tooMany,
      resigned_tooLong (Buffer.length_alloc _), ?_⟩
  decide +kernel

/-- A PAC minted with a ticket's signature, an extended one and an RODC
identifier. -/
def fullyNamed : BuildSpec Unit where
  logonInfo := ()
  clientInfo := { clientIdLow := 1, clientIdHigh := 2, name := [97, 98] }
  upnDns := some ()
  clientClaims := some ()
  attributes := none
  requestorSid := some ()
  delegationInfo := none
  signing := {
    serverKey := { etype := 23, key := [1, 2, 3] }
    kdcKey := { etype := 20, key := [4, 5, 6] }
    ticketBytes := some [48, 0]
    includeTicketSignature := true
    includeExtendedKdcSignature := true
    rodcIdentifier := some 7
  }

/-- The octets it is minted into. -/
def mintedPac : Buffer :=
  match buildPac remainderChecksums blankEncoders fullyNamed with
  | .ok bytes => bytes
  | .error _ => []

/-- All four of its signatures verify. -/
theorem signatures_agree_minted :
    ∃ pac,
      parsePac undecoded mintedPac = .ok pac ∧
        signatureTypes pac = [16, 19, 6, 7] ∧
        AllVerified pac
          (verifySignatures remainderChecksums pac fullyNamed.signing.verifyingKeys) := by
  have minted : mintedPac ≠ [] := by decide +kernel
  have short : mintedPac.length ≤ maxNdrBytes := by decide +kernel
  have builds : buildPac remainderChecksums blankEncoders fullyNamed = .ok mintedPac := by
    unfold mintedPac at minted ⊢
    split at minted
    · assumption
    · exact absurd rfl minted
  exact
    (signatures_agree remainderChecksums blankEncoders undecoded).1 fullyNamed
      mintedPac builds short

end IyaSts.Krb5Pac
