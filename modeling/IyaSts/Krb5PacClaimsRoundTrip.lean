import IyaSts.Krb5PacDelegationReads

namespace IyaSts.Krb5PacClaims

/-!
# Claims and delegation information read back as they were encoded

The encoders check the values, and nothing else.  What they accept is read back
just when it is within the reader's limits.
-/

open CursorCodec List
open Krb5Ndr

/-! ## Claims -/

/-- Whether claims are read back as they are stated, with nothing unread. -/
def ClaimsReadBack (decompressXpressHuffman : Buffer → Nat → Except String Buffer)
    (arrays : List StatedArray) (b : Buffer) :
    Prop :=
  ∃ info set,
    parseClaimsInfo decompressXpressHuffman b = .ok info ∧
      info.claimsSet = some set ∧
      set.arrays = arrays.map (fun array => array.meant.read) ∧
      set.bytesUnread = 0 ∧
      info.claims = claimsOf set.arrays

section

variable (decompressXpressHuffman : Buffer → Nat → Except String Buffer)

variable {prepared : List ClaimsArray}

/-- Claims within the limits are read back. -/
theorem readBack_of_within (fit : Fit prepared) (within : Within prepared) :
    ∃ info set,
      parseClaimsInfo decompressXpressHuffman
          (writeClaimsSetMetadata prepared) = .ok info ∧
        info.claimsSet = some set ∧
        set.arrays = prepared.map ClaimsArray.read ∧
        set.bytesUnread = 0 ∧
        info.claims = claimsOf set.arrays := by
  have fits : (writeClaimsSetMetadata prepared).length ≤ maxNdrBytes := by
    rw [length_writeClaimsSetMetadata]
    exact within.size
  have setFits : (writeClaimsSet prepared).length ≤ maxNdrBytes :=
    (length_writeClaimsSet_le prepared).trans fits
  have areRead := (arraysAnswer_eq_iff fit).mpr ⟨within.fewArrays, within.eachArray⟩
  obtain ⟨headers, parses⟩ := parseClaimsInfo_eq decompressXpressHuffman fits
  rw [parseClaimsSet_ok fit setFits areRead] at parses
  exact ⟨_, _, parses, rfl, rfl, rfl, rfl⟩

/-- Claims that are read back are within the limits. -/
theorem within_of_readBack {info : ClaimsInfo} {set : ClaimsSet} (fit : Fit prepared)
    (parses :
      parseClaimsInfo decompressXpressHuffman
        (writeClaimsSetMetadata prepared) = .ok info)
    (isSet : info.claimsSet = some set)
    (sameArrays : set.arrays = prepared.map ClaimsArray.read) :
    Within prepared := by
  have fits : (writeClaimsSetMetadata prepared).length ≤ maxNdrBytes := by
    by_contra tooLong
    have notEmpty :
        (writeClaimsSetMetadata prepared).isEmpty = false :=
      object_not_empty (writeMetadata_extends (writeClaimsSet prepared))
    have refused :
        ∃ message,
          readStream readClaimsInfo (writeClaimsSetMetadata prepared) = .error message := by
      rw [readStream, if_pos (Nat.not_le.mp tooLong)]
      exact ⟨_, rfl⟩
    obtain ⟨message, refused⟩ := refused
    unfold parseClaimsInfo at parses
    rw [notEmpty, if_neg Bool.false_ne_true] at parses
    change (readStream readClaimsInfo _ >>= _) = _ at parses
    rw [refused] at parses
    cases parses
  have setFits : (writeClaimsSet prepared).length ≤ maxNdrBytes :=
    (length_writeClaimsSet_le prepared).trans fits
  obtain ⟨headers, parsed⟩ := parseClaimsInfo_eq decompressXpressHuffman fits
  rw [parses] at parsed
  cases answer : arraysAnswer prepared with
  | none =>
    obtain ⟨other, isOther, _⟩ := of_map_ok parsed.symm
    exact absurd isOther (parseClaimsSet_error fit answer other)
  | some arrays =>
    rw [parseClaimsSet_ok fit setFits answer] at parsed
    cases parsed
    cases isSet
    have sameAnswer :
        arraysAnswer prepared = some (prepared.map ClaimsArray.read) :=
      answer.trans (congrArg some sameArrays)
    obtain ⟨few, each⟩ := (arraysAnswer_eq_iff fit).mp sameAnswer
    exact {
      fewArrays := few
      eachArray := each
      size := by
        rw [← length_writeClaimsSetMetadata]
        exact fits
    }

/-- Accepted claims are read back just when they are within the limits. -/
theorem claimsReadBack_iff {arrays : List StatedArray} {b : Buffer}
    (encodes : encodeClaimsSetMetadata arrays = .ok b) :
    ClaimsReadBack decompressXpressHuffman arrays b ↔ Within (arrays.map StatedArray.meant) := by
  obtain ⟨prepared, isPrepared, rfl⟩ := of_map_ok encodes
  obtain ⟨rfl, fit⟩ := prepare_ok isPrepared
  have sameRead :
      arrays.map (fun array => array.meant.read) =
        (arrays.map StatedArray.meant).map ClaimsArray.read := by
    rw [map_map]
    rfl
  rw [ClaimsReadBack, sameRead]
  constructor
  · rintro ⟨info, set, parses, isSet, sameArrays, _⟩
    exact within_of_readBack decompressXpressHuffman fit parses isSet sameArrays
  · exact readBack_of_within decompressXpressHuffman fit

end

/-! ## Delegation information -/

/-- Whether delegation information is read back as it is given, with nothing
unread. -/
def DelegationReadBack (spec : DelegationSpec) : Prop :=
  ∃ info,
    parseDelegationInfo (encodeDelegationInfo spec) = .ok info ∧
      info.s4u2proxyTarget = spec.s4u2proxyTarget ∧
      info.transitedServices = spec.transitedServices ∧
      info.bytesUnread = 0

/-- Where a string that may be absent ends. -/
def optionalEnd (value : Option Text) (start : Nat) : Nat :=
  match value with
  | none => start
  | some s => stringEnd s.length start

/-- Where the header of a string ends. -/
def headerEnd (start : Nat) : Nat := after 4 (after 2 (after 2 start))

/-- Where delegation information ends, its padding apart. -/
def delegationEnd (spec : DelegationSpec) : Nat :=
  let targetEnd := optionalEnd spec.s4u2proxyTarget 36
  if spec.transitedServices.isEmpty then
    targetEnd
  else
    spec.transitedServices.foldl (fun place name => optionalEnd name place)
      (spec.transitedServices.foldl (fun place _ => headerEnd place) (after 4 targetEnd))

variable (value : Option Text) (w : Writer) (spec : DelegationSpec)

theorem length_writeUnicodeStringHeader :
    (writeUnicodeStringHeader value w).bytes.length = headerEnd w.bytes.length := by
  rw [writeUnicodeStringHeader, length_pointer, length_u16, length_u16, headerEnd]

theorem length_writeOptional :
    (writeUnicodeStringValue value w).bytes.length = optionalEnd value w.bytes.length := by
  cases value with
  | none => rfl
  | some s => exact length_writeUnicodeStringValue s w

/-- Delegation information ends where its arithmetic says. -/
theorem objectEnd_writeDelegation :
    objectEnd (writeDelegation spec) = delegationEnd spec := by
  have fixed :
      (((writeUnicodeStringHeader spec.s4u2proxyTarget
        ((writeTypeMarshallingHeaders createWriter).pointer true)).u32
          spec.transitedServices.length).pointer
            !spec.transitedServices.isEmpty).bytes.length = 36 := by
    rw [length_pointer, length_u32, length_writeUnicodeStringHeader, length_pointer, headers_bytes]
    rfl
  rw [objectEnd, writeDelegation, writeServices, delegationEnd]
  split
  · rw [length_writeOptional, fixed]
  · rw [length_each length_writeOptional, length_each length_writeUnicodeStringHeader, length_u32,
      length_writeOptional, fixed]

/-- The limits on a name: the reader's length, and no NUL at its end. -/
def NameWithin (name : Option Text) : Prop :=
  ∀ s, name = some s → s.length ≤ maxArrayElements ∧ s.getLast? ≠ some 0

/-- The limits on delegation information; it has to end where no padding is
needed. -/
structure DelegationWithin (spec : DelegationSpec) : Prop where
  target : NameWithin spec.s4u2proxyTarget
  fewServices : spec.transitedServices.length ≤ maxArrayElements
  services : ∀ name ∈ spec.transitedServices, NameWithin name
  size : delegationEnd spec ≤ maxNdrBytes
  unpadded : delegationEnd spec % 8 = 0

/-- A name comes back just when it is within the limits. -/
theorem optionalAnswer_eq_iff (name : Option Text) :
    optionalAnswer name = some name ↔ NameWithin name := by
  cases name with
  | none => exact ⟨fun _ => nofun, fun _ => rfl⟩
  | some s =>
    rw [optionalAnswer, stringAnswer]
    split <;> rename_i limit
    · constructor
      · intro isNone
        cases isNone
      · intro within
        have short := (within s rfl).1
        omega
    · rw [Option.map_some, Option.some.injEq, Option.some.injEq, trimTrailingNuls_eq_self_iff]
      constructor
      · rintro lastIsNot text isText
        cases isText
        exact ⟨Nat.not_lt.mp limit, lastIsNot⟩
      · exact fun within => (within s rfl).2

/-- The services come back just when each is within the limits. -/
theorem servicesAnswer_eq_iff (services : List (Option Text)) :
    servicesAnswer services = some services ↔
      services.length ≤ maxArrayElements ∧ ∀ name ∈ services, NameWithin name := by
  have each :
      services.mapM optionalAnswer = some services ↔ ∀ name ∈ services, NameWithin name := by
    have same :
        services.mapM optionalAnswer = some (services.map id) ↔
          ∀ name ∈ services, optionalAnswer name = some (id name) :=
      mapM_eq_some_map_iff
    rw [map_id] at same
    rw [same]
    exact forall₂_congr fun name _ => optionalAnswer_eq_iff name
  rw [servicesAnswer]
  split <;> rename_i limit
  · constructor
    · intro isNone
      cases isNone
    · intro both
      omega
  · rw [each]
    exact ⟨fun within => ⟨Nat.not_lt.mp limit, within⟩, And.right⟩

/-- No padding is where the length is a multiple of eight. -/
theorem padding_eight_eq_zero_iff (place : Nat) : padding 8 place = 0 ↔ place % 8 = 0 := by
  rw [padding]
  omega

/-- Delegation information is read back just when it is within the limits. -/
theorem delegationReadBack_iff :
    DelegationReadBack spec ↔ DelegationWithin spec := by
  have isLength :
      (encodeDelegationInfo spec).length = delegationEnd spec + padding 8 (delegationEnd spec) := by
    rw [encodeDelegationInfo_eq, length_object (writeDelegation_reads spec).appends,
      objectEnd_writeDelegation]
  constructor
  · rintro ⟨info, parses, sameTarget, sameServices, nothingUnread⟩
    obtain ⟨fits, stop, read⟩ := of_readStream parses
    have reads := readDelegationInfo_reads fits
    cases answer : delegationAnswer spec with
    | none =>
      rw [answer] at reads
      exact absurd read (reads (info, stop))
    | some pair =>
      rw [answer] at reads
      have isInfo :
          (.ok (info, stop) : Except String (DelegationInfo × Nat)) =
            .ok (delegationOf spec pair, objectEnd (writeDelegation spec)) :=
        read.symm.trans reads
      cases isInfo
      obtain ⟨target, services⟩ := pair
      change target = spec.s4u2proxyTarget at sameTarget
      change services = spec.transitedServices at sameServices
      change padding 8 (objectEnd (writeDelegation spec)) = 0
        at nothingUnread
      subst sameTarget
      subst sameServices
      rw [delegationAnswer] at answer
      obtain ⟨target, isTarget, answer⟩ := Option.bind_eq_some_iff.mp answer
      obtain ⟨services, areServices, isPair⟩ := Option.bind_eq_some_iff.mp answer
      cases isPair
      obtain ⟨few, each⟩ := (servicesAnswer_eq_iff spec.transitedServices).mp areServices
      rw [objectEnd_writeDelegation] at nothingUnread
      exact {
        target := (optionalAnswer_eq_iff spec.s4u2proxyTarget).mp isTarget
        fewServices := few
        services := each
        size := by omega
        unpadded := (padding_eight_eq_zero_iff _).mp nothingUnread
      }
  · intro within
    have noPadding := (padding_eight_eq_zero_iff (delegationEnd spec)).mpr within.unpadded
    have fits : (encodeDelegationInfo spec).length ≤ maxNdrBytes := by
      have size := within.size
      omega
    have reads := readDelegationInfo_reads fits
    rw [delegationAnswer, (optionalAnswer_eq_iff spec.s4u2proxyTarget).mpr within.target,
      Option.bind_some, (servicesAnswer_eq_iff spec.transitedServices).mpr ⟨within.fewServices,
      within.services⟩, Option.bind_some] at reads
    refine ⟨_, readStream_reads fits reads, rfl, rfl, ?_⟩
    show padding 8 (objectEnd (writeDelegation spec)) = 0
    rw [objectEnd_writeDelegation]
    exact noPadding

/-! ## Both -/

/--
Accepted claims are read back just when they are within the reader's limits, and
delegation information just when it is within them and needs no padding.
-/
theorem read_back_iff (decompressXpressHuffman : Buffer → Nat → Except String Buffer)
    (arrays : List StatedArray) (b : Buffer) (encodes : encodeClaimsSetMetadata arrays = .ok b)
    (spec : DelegationSpec) :
    (ClaimsReadBack decompressXpressHuffman arrays b ↔
        Within (arrays.map StatedArray.meant)) ∧
      (DelegationReadBack spec ↔ DelegationWithin spec) :=
  ⟨claimsReadBack_iff decompressXpressHuffman encodes, delegationReadBack_iff spec⟩

/-- One array of one string claim. -/
def oneClaim (id value : Text) : List StatedArray :=
  [{ sourceType := none
     claims := [{ id := some id, type := 3, values := [.text value] }] }]

/-- Delegation to a target alone. -/
def oneTarget (target : Text) : DelegationSpec where
  s4u2proxyTarget := some target
  transitedServices := []

/-- A department claim and a service of four code units are read back. -/
theorem read_back_department :
    ClaimsReadBack (fun b _ => .ok b) (oneClaim (ascii "dept") (ascii "hr"))
        (writeClaimsSetMetadata ((oneClaim (ascii "dept") (ascii "hr")).map StatedArray.meant)) ∧
      DelegationReadBack (oneTarget (ascii "http")) := by
  have both :=
    read_back_iff (fun b _ => .ok b) (oneClaim (ascii "dept") (ascii "hr"))
      (writeClaimsSetMetadata ((oneClaim (ascii "dept") (ascii "hr")).map StatedArray.meant))
      (by decide +kernel) (oneTarget (ascii "http"))
  refine ⟨both.1.mpr ?_, both.2.mpr ?_⟩
  · have claimWithin :
        (StatedClaim.meant
          { id := some (ascii "dept"), type := 3,
            values := [.text (ascii "hr")] }).Within := {
      idShort := by decide
      idEnds := by decide
      fewValues := by decide
      valuesShort := by
        intro strings isStrings
        cases isStrings
        decide
    }
    have arrayWithin :
        ∀ array ∈ (oneClaim (ascii "dept") (ascii "hr")).map StatedArray.meant, array.Within := by
      intro array isArray
      cases mem_singleton.mp isArray
      exact {
        sourceTypeFits := by decide
        fewClaims := by decide
        eachClaim := by
          intro claim isClaim
          cases mem_singleton.mp isClaim
          exact claimWithin
      }
    exact {
      fewArrays := by decide
      eachArray := arrayWithin
      size := by decide
    }
  · exact {
      target := by
        intro s isTarget
        cases isTarget
        decide
      fewServices := by decide
      services := nofun
      size := by decide
      unpadded := by decide
    }

/-- An identifier that ends in NUL is accepted and read without it, and a target
of one code unit leaves padding unread. -/
theorem not_read_back :
    (∃ b,
      encodeClaimsSetMetadata (oneClaim [0x61, 0] [0x62]) = .ok b ∧
        ¬ ClaimsReadBack (fun b _ => .ok b) (oneClaim [0x61, 0] [0x62]) b) ∧
      ¬ DelegationReadBack (oneTarget [0x61]) := by
  have encodes :
      encodeClaimsSetMetadata (oneClaim [0x61, 0] [0x62]) =
        .ok (writeClaimsSetMetadata ((oneClaim [0x61, 0] [0x62]).map StatedArray.meant)) := by
    decide +kernel
  refine ⟨⟨_, encodes, ?_⟩, ?_⟩
  · rw [claimsReadBack_iff _ encodes]
    intro within
    have array := within.eachArray _ mem_cons_self
    have claim := array.eachClaim _ mem_cons_self
    exact claim.idEnds (by decide)
  · rw [delegationReadBack_iff]
    intro within
    exact absurd within.unpadded (by decide)

end IyaSts.Krb5PacClaims
